import Scriptlet.Program.Parser
import Scriptlet.Proofs.Program.Relocation

/-!
Reading a program does not look at locations. From tokens with other locations every reader takes
as many tokens, hands on the same with other locations, or fails with the same fault.
-/

namespace Scriptlet

variable {α β γ δ ε ζ : Type}

namespace Parser

/-- What a reader comes to, with other locations; `k` changes those of the result. -/
def mapResult (g : α → β) (k : γ → δ) :
    Except (ParseError α) (γ × List (Token α)) → Except (ParseError β) (δ × List (Token β))
  | .ok (x, rest) => .ok (k x, rest.map (Token.map g))
  | .error e => .error (e.map g)

/-- On tokens with other locations `q` does what `p` does on the tokens themselves. -/
def Natural (g : α → β) (k : γ → δ) (p : Parser α γ) (q : Parser β δ) : Prop :=
  ∀ ending ts, q (ending.map g) (ts.map (Token.map g)) = mapResult g k (p ending ts)

variable {g : α → β} {k : γ → δ} {m : ε → ζ}

/-! ### Building blocks -/

theorem natural_pure {x : γ} {y : δ} (h : y = k x) :
    Natural g k (pure x : Parser α γ) (pure y) := by
  intro ending ts
  subst h
  rfl

theorem Natural.bind {p : Parser α γ} {q : Parser β δ} {f : γ → Parser α ε}
    {f' : δ → Parser β ζ} (hp : Natural g k p q) (hf : ∀ x, Natural g m (f x) (f' (k x))) :
    Natural g m (p >>= f) (q >>= f') := by
  intro ending ts
  have hq := hp ending ts
  change Parser.bind q f' _ _ = mapResult g m (Parser.bind p f ending ts)
  simp only [Parser.bind, hq]
  cases p ending ts with
  | error e => rfl
  | ok x => exact hf x.1 ending x.2

/-- What comes next depends on something without locations. -/
theorem Natural.choose {p : Parser α γ} {q : Parser β γ} {f : γ → Parser α ε}
    {f' : γ → Parser β ζ} (hp : Natural g id p q) (hf : ∀ x, Natural g m (f x) (f' x)) :
    Natural g m (p >>= f) (q >>= f') := hp.bind hf

theorem Natural.ite {p p' : Parser α γ} {q q' : Parser β δ} (b : Bool) (h : Natural g k p q)
    (h' : Natural g k p' q') :
    Natural g k (if b then p else p') (if b then q else q') := by
  cases b
  · exact h'
  · exact h

theorem Ending.error_map (wanted : Option Expectation) (ending : Ending α) :
    (ending.map g).error wanted = (ending.error wanted).map g := by
  cases ending <;> rfl

theorem natural_peek : Natural g id (peek : Parser α _) peek := by
  intro ending ts
  cases ts with
  | nil => cases ending <;> rfl
  | cons t ts => cases ending <;> rfl

theorem natural_peekSecond : Natural g id (peekSecond : Parser α _) peekSecond := by
  intro ending ts
  rcases ts with - | ⟨t, - | ⟨u, ts⟩⟩
  · cases ending <;> rfl
  · cases ending <;> rfl
  · cases ending <;> rfl

theorem natural_refuse (wanted : Expectation) :
    Natural g k (refuse wanted : Parser α γ) (refuse wanted) := by
  intro ending ts
  cases ts with
  | nil => exact congrArg Except.error (Ending.error_map _ ending)
  | cons t ts => rfl

theorem natural_exhausted : Natural g k (exhausted : Parser α γ) exhausted :=
  fun ending _ => congrArg Except.error (Ending.error_map _ ending)

theorem natural_expect (kind : TokenKind) :
    Natural g (Token.map g) (expect kind : Parser α _) (expect kind) := by
  intro ending ts
  cases ts with
  | nil => exact congrArg Except.error (Ending.error_map _ ending)
  | cons t ts =>
    have hkind : (t.map g).kind = t.kind := rfl
    simp only [List.map_cons, expect, hkind]
    split <;> rfl

theorem natural_identifier :
    Natural g (Identifier.map g) (identifier : Parser α _) identifier :=
  (natural_expect _).bind fun _ => natural_pure rfl

theorem natural_nextIs (kind : TokenKind) :
    Natural g id (nextIs kind : Parser α _) (nextIs kind) :=
  natural_peek.choose fun _ => natural_pure rfl

theorem natural_accept (kind : TokenKind) :
    Natural g id (accept kind : Parser α _) (accept kind) := by
  refine (natural_nextIs kind).choose fun b => .ite b ?_ (natural_pure rfl)
  exact (natural_expect kind).bind fun _ => natural_pure rfl

theorem natural_operator (ops : TokenKind → Option BinaryOp) :
    Natural g (Option.map fun (op, l) => (op, g l)) (operator ops : Parser α _)
      (operator ops) := by
  intro ending ts
  cases ts with
  | nil => cases ending <;> rfl
  | cons t ts =>
    have hkind : (t.map g).kind = t.kind := rfl
    simp only [List.map_cons, operator, hkind]
    cases ops t.kind <;> rfl

theorem natural_separated {p : Parser α γ} {q : Parser β δ} (h : Natural g k p q) (n : Nat) :
    Natural g (List.map k) (separated p n) (separated q n) := by
  induction n with
  | zero => exact natural_exhausted
  | succ n ih =>
    refine h.bind fun x => (natural_accept _).choose fun b => .ite b ?_ (natural_pure rfl)
    exact ih.bind fun xs => natural_pure rfl

theorem natural_listed {p : Parser α γ} {q : Parser β δ} (h : Natural g k p q) (bound : Nat) :
    Natural g (List.map k) (listed p bound) (listed q bound) := by
  refine (natural_expect _).bind fun _ => (natural_nextIs _).choose fun b => ?_
  have hclose : ∀ xs : List γ, Natural g (List.map k)
      (do let _ ← expect .rightParen; return xs)
      (do let _ ← expect .rightParen; return xs.map k) := fun xs =>
    (natural_expect _).bind fun _ => natural_pure rfl
  refine .ite b ?_ ?_
  · exact (natural_pure (k := List.map k) rfl).bind hclose
  · exact (natural_separated h bound).bind hclose

/-! ### Expressions -/

section

variable {p : Parser α (Expr α)} {q : Parser β (Expr β)} (h : Natural g (Expr.map g) p q)

include h

theorem natural_atMostOne (ops : TokenKind → Option BinaryOp) :
    Natural g (Expr.map g) (atMostOne ops p) (atMostOne ops q) := by
  refine h.bind fun left => (natural_operator ops).bind fun found => ?_
  cases found with
  | none => exact natural_pure rfl
  | some found => exact h.bind fun right => natural_pure rfl

theorem natural_chainFrom (ops : TokenKind → Option BinaryOp) (n : Nat) (left : Expr α) :
    Natural g (Expr.map g) (chainFrom ops p n left) (chainFrom ops q n (left.map g)) := by
  induction n generalizing left with
  | zero => exact natural_exhausted
  | succ n ih =>
    refine (natural_operator ops).bind fun found => ?_
    cases found with
    | none => exact natural_pure rfl
    | some found => exact h.bind fun right => ih (.binary found.1 left right found.2)

theorem natural_chain (ops : TokenKind → Option BinaryOp) (bound : Nat) :
    Natural g (Expr.map g) (chain ops p bound) (chain ops q bound) :=
  h.bind fun left => natural_chainFrom h ops bound left

theorem natural_operation (bound : Nat) :
    Natural g (Expr.map g) (operation p bound) (operation q bound) := by
  have hproduct := natural_chain h productOp bound
  have hsum := natural_chain hproduct sumOp bound
  exact natural_atMostOne (natural_atMostOne hsum relationOp) logicalOp

theorem natural_nameOrCall (bound : Nat) :
    Natural g (Expr.map g) (nameOrCall p bound) (nameOrCall q bound) := by
  refine natural_peekSecond.choose fun second => ?_
  by_cases hcall : second = some .leftParen
  · simp only [hcall, if_true]
    refine natural_identifier.bind fun callee => (natural_listed h bound).bind fun args => ?_
    refine natural_pure ?_
    rw [Expr.map, Expr.mapArgs_eq_map]
    rfl
  · simp only [hcall, if_false]
    exact natural_identifier.bind fun id => natural_pure rfl

end

theorem natural_primary {p logical : Parser α (Expr α)} {q logical' : Parser β (Expr β)}
    (h : Natural g (Expr.map g) p q) (hlogical : Natural g (Expr.map g) logical logical')
    (bound : Nat) :
    Natural g (Expr.map g) (primary p logical bound) (primary q logical' bound) := by
  refine natural_peek.choose fun next => ?_
  split
  · exact natural_nameOrCall hlogical bound
  · exact (natural_expect _).bind fun t => natural_pure rfl
  · exact (natural_expect _).bind fun t => natural_pure rfl
  · exact (natural_expect _).bind fun _ => h.bind fun e => (natural_expect _).bind fun _ =>
      natural_pure rfl
  · exact natural_refuse _

theorem natural_startsAssignment :
    Natural g id (startsAssignment : Parser α _) startsAssignment := by
  refine (natural_nextIs _).choose fun b => .ite b ?_ (natural_pure rfl)
  exact natural_peekSecond.choose fun _ => natural_pure rfl

theorem natural_expression (n : Nat) (level : Level) :
    Natural g (Expr.map g) (expression n level : Parser α _) (expression n level) := by
  induction n generalizing level with
  | zero => exact natural_exhausted
  | succ n ih =>
    have hoperation := natural_operation (natural_primary (ih .assignment) (ih .logical) n) n
    cases level with
    | logical => exact hoperation
    | assignment =>
      refine natural_startsAssignment.choose fun b => .ite b ?_ hoperation
      exact natural_identifier.bind fun target => (natural_expect _).bind fun sign =>
        (ih .assignment).bind fun value => natural_pure rfl

/-! ### Statements -/

section

variable {p : Parser α (Stmt α)} {q : Parser β (Stmt β)} (h : Natural g (Stmt.map g) p q)

include h

theorem natural_statements (n : Nat) :
    Natural g (Stmt.mapBlock g) (statements p n) (statements q n) := by
  induction n with
  | zero => exact natural_exhausted
  | succ n ih =>
    refine (natural_nextIs _).choose fun b => .ite b (natural_pure rfl) ?_
    exact h.bind fun s => ih.bind fun ss => natural_pure rfl

theorem natural_block (bound : Nat) :
    Natural g (Stmt.mapBlock g) (block p bound) (block q bound) :=
  (natural_expect _).bind fun _ => (natural_statements h bound).bind fun _ =>
    (natural_expect _).bind fun _ => natural_pure rfl

theorem natural_elseBlock (bound : Nat) :
    Natural g (Stmt.mapElse g) (elseBlock p bound) (elseBlock q bound) := by
  refine (natural_accept _).choose fun b => .ite b ?_ (natural_pure rfl)
  exact (natural_block h bound).bind fun ss => natural_pure rfl

end

theorem natural_condition (bound : Nat) :
    Natural g (Expr.map g) (condition bound : Parser α _) (condition bound) :=
  (natural_expect _).bind fun _ => (natural_expression bound _).bind fun _ =>
    (natural_expect _).bind fun _ => natural_pure rfl

theorem natural_statement (n : Nat) :
    Natural g (Stmt.map g) (statement n : Parser α _) (statement n) := by
  induction n with
  | zero => exact natural_exhausted
  | succ n ih =>
    refine natural_peek.choose fun next => ?_
    split
    · exact natural_refuse _
    · exact (natural_expect _).bind fun keyword => natural_identifier.bind fun id =>
        (natural_expect _).bind fun _ => natural_pure rfl
    · exact (natural_expect _).bind fun keyword => (natural_condition n).bind fun cond =>
        (natural_block ih n).bind fun thenBlock => (natural_elseBlock ih n).bind fun otherwise =>
          natural_pure rfl
    · exact (natural_expect _).bind fun keyword => (natural_condition n).bind fun cond =>
        (natural_block ih n).bind fun body => natural_pure rfl
    · exact (natural_expression (n + 1) .assignment).bind fun e =>
        (natural_expect _).bind fun _ => natural_pure rfl

theorem natural_function (bound : Nat) :
    Natural g (FunctionDef.map g) (function bound : Parser α _) (function bound) :=
  (natural_expect _).bind fun _ => natural_identifier.bind fun _ =>
    (natural_listed natural_identifier bound).bind fun _ =>
      (natural_block (natural_statement bound) bound).bind fun _ => natural_pure rfl

theorem natural_item (bound : Nat) :
    Natural g (Item.map g) (item bound : Parser α _) (item bound) := by
  refine (natural_nextIs _).choose fun b => .ite b ?_ ?_
  · exact (natural_function bound).bind fun d => natural_pure rfl
  · exact (natural_statement bound).bind fun s => natural_pure rfl

theorem natural_items (bound n : Nat) :
    Natural g (List.map (Item.map g)) (items bound n : Parser α _) (items bound n) := by
  induction n with
  | zero => exact natural_exhausted
  | succ n ih =>
    refine natural_peek.choose fun next => ?_
    cases next with
    | none => exact natural_pure rfl
    | some kind => exact (natural_item bound).bind fun x => ih.bind fun xs => natural_pure rfl

end Parser

/-- The program that tokens with other locations are read as, or the fault they are refused for. -/
theorem Program.ofStream_map (g : α → β) (s : TokenStream α) :
    ofStream (s.map g) = ((ofStream s).map (Program.map g)).mapError (ParseError.map g) := by
  have hitems := Parser.natural_items (g := g) (s.tokens.length + 1) (s.tokens.length + 1)
    s.ending s.tokens
  have hlength : (s.map g).tokens.length = s.tokens.length := List.length_map _
  change Parser.items _ _ (s.map g).ending (s.map g).tokens = _ at hitems
  simp only [ofStream, hlength, hitems]
  cases Parser.items (s.tokens.length + 1) (s.tokens.length + 1) s.ending s.tokens <;> rfl

end Scriptlet
