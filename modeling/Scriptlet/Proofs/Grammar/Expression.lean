import Scriptlet.Proofs.Grammar.Choice

/-!
The readers of expressions read their phrases of the grammar. A reader with a bound has room for
fewer tokens than the bound; what is nested or repeated stands behind at least one token more, so
the induction is on the room.
-/

namespace Scriptlet

namespace Parser

variable {α β : Type} {N : Nat} {D A B : Option TokenKind → Prop} {f : Form} {p q : Parser α β}
  {v : f.Tree α → β} {ops : TokenKind → Option BinaryOp} {kinds : List TokenKind}

/-! ### Lists and operators -/

variable [Nonempty (Derivation α f)]

theorem parses_atMostOne {p q : Parser α (Expr α)} {v : f.Tree α → Expr α} (hk : Knows ops kinds)
    (hA : ∀ k ∈ kinds, A (some k)) (h : Parses N Anything f v A p q) :
    Parses N Anything (.atMostOne kinds f)
      (fun x => Phrase.atMostOne (v x.1, x.2.map fun y => (y.1, v y.2)))
      (fun o => A o ∧ ¬ Among kinds o) (atMostOne ops p) (atMostOne ops q) := by
  refine Parses.seq (g := .opt (.seq (.token kinds) f))
    (w := fun left o => Phrase.atMostOne (left, Option.map (fun y => (y.1, v y.2)) o)) h
    (fun left => Parses.total (D := Among kinds) ?_ ?_) (.inl (Nat.le_refl N)) ?_
    fun _ _ => And.left
  · refine Parses.follows (follows_operator hk) (follows_operator hk) ?_
    have hseq := Parses.seq (w := fun t x => Token.binary t left (v x))
      (parses_next (A := Anything) kinds) (fun t => h.map (h := fun right => t.binary left right))
      (.inl (Nat.le_refl N)) (fun _ _ => trivial) (fun _ _ _ => trivial)
    exact hseq.some (fun _ => rfl) fun o ho => ho
  · refine Parses.follows (follows_operator_not hk) (follows_operator_not hk) ?_
    refine Parses.none rfl rfl fun k hk hn => hn ⟨k, ?_, rfl⟩
    simpa [Form.starts, Form.nullable] using hk
  · intro k hk
    exact hA k (by simpa [Form.starts, Form.nullable] using hk)

theorem parses_chainFrom {p q : Parser α (Expr α)} {v : f.Tree α → Expr α} (hk : Knows ops kinds)
    (hA : ∀ k ∈ kinds, A (some k)) (h : Parses N Anything f v A p q) {n m : Nat} (hn : N ≤ n)
    (hm : N ≤ m) (left : Expr α) :
    Parses N Anything (.many (.seq (.token kinds) f))
      (fun xs => Phrase.chain (left, xs.map fun y => (y.1, v y.2)))
      (fun o => A o ∧ ¬ Among kinds o) (chainFrom ops p n left) (chainFrom ops q m left) := by
  induction N generalizing n m left with
  | zero => exact .zero
  | succ N ih =>
    obtain ⟨n, rfl⟩ : ∃ n', n = n' + 1 := ⟨n - 1, by omega⟩
    obtain ⟨m, rfl⟩ : ∃ m', m = m' + 1 := ⟨m - 1, by omega⟩
    have hN := h.mono (Nat.le_succ N) (fun _ => id) (fun _ => id)
    refine Parses.total (D := Among kinds) ?_ ?_
    · refine Parses.follows (follows_operator hk) (follows_operator hk) ?_
      have hrest := fun t => Parses.seq hN
        (fun right => ih hN (n := n) (m := m) (by omega) (by omega) (Token.binary t left right))
        (.inl (Nat.le_refl N))
        (fun k hk => hA k (by simpa [Form.starts, Form.nullable] using hk)) (fun _ o ho => ho.1)
      have hseq := Parses.seq (parses_next (A := Anything) kinds) hrest
        (.inr ⟨rfl, Nat.le_refl _⟩) (fun _ _ => trivial) (fun _ _ _ => trivial)
      exact hseq.assoc.cons (fun _ _ => rfl) fun o ho => ⟨ho, ho.2⟩
    · refine Parses.follows (follows_operator_not hk) (follows_operator_not hk) ?_
      refine Parses.nil rfl rfl fun k hk hn => hn ⟨k, ?_, rfl⟩
      simpa [Form.starts, Form.nullable] using hk

theorem parses_chain {p q : Parser α (Expr α)} {v : f.Tree α → Expr α} (hk : Knows ops kinds)
    (hA : ∀ k ∈ kinds, A (some k)) (hf : f.nullable = false)
    (h : Parses (N + 1) Anything f v A p q) {n m : Nat} (hn : N ≤ n) (hm : N ≤ m) :
    Parses (N + 1) Anything (.chain kinds f)
      (fun x => Phrase.chain (v x.1, x.2.map fun y => (y.1, v y.2)))
      (fun o => A o ∧ ¬ Among kinds o) (chain ops p n) (chain ops q m) :=
  Parses.seq h (parses_chainFrom hk hA (h.mono (Nat.le_succ N) (fun _ => id) fun _ => id) hn hm)
    (.inr ⟨hf, Nat.le_refl _⟩)
    (fun k hk => hA k (by simpa [Form.starts, Form.nullable] using hk)) fun _ o ho => ho.1

variable [Inhabited α]

theorem parses_separated (hA : A (some .comma)) (hf : f.nullable = false)
    (h : Parses N Anything f v A p q) {n m : Nat} (hn : N ≤ n) (hm : N ≤ m) :
    Parses N Anything (.separated f) (fun x => (Phrase.items x).map v)
      (fun o => A o ∧ ¬ o = some .comma) (separated p n) (separated q m) := by
  induction N generalizing n m with
  | zero => exact .zero
  | succ N ih =>
    obtain ⟨n, rfl⟩ : ∃ n', n = n' + 1 := ⟨n - 1, by omega⟩
    obtain ⟨m, rfl⟩ : ∃ m', m = m' + 1 := ⟨m - 1, by omega⟩
    have hN := h.mono (Nat.le_succ N) (fun _ => id) (fun _ => id)
    have htail : ∀ x, Parses N Anything (.many (.seq (.token [.comma]) f))
        (fun xs => x :: (List.map Prod.snd xs).map v) (fun o => A o ∧ ¬ o = some .comma)
        (accept .comma >>= fun b => if b = true then separated p n >>= fun xs => pure (x :: xs)
          else pure [x])
        (accept .comma >>= fun b => if b = true then separated q m >>= fun xs => pure (x :: xs)
          else pure [x]) := by
      intro x
      refine Parses.total (D := (· = some .comma)) ?_ ?_
      · refine Parses.follows follows_accept follows_accept ?_
        have hrest := (ih hN (n := n) (m := m) (by omega) (by omega)).map (h := (x :: ·))
        have hseq := Parses.seq (D := (· = some .comma))
          (Parses.expect (α := α) (A := Anything) .comma) (fun _ => hrest)
          (.inl (Nat.le_refl N)) (fun _ _ => trivial) (fun _ _ _ => trivial)
        exact hseq.assoc.cons (fun _ _ => rfl) fun o ho => ⟨ho, ho.2⟩
      · refine Parses.follows follows_accept_not follows_accept_not ?_
        refine Parses.nil rfl rfl fun k hk hn => hn ?_
        simpa [Form.starts, Form.nullable] using hk
    exact Parses.seq h htail (.inr ⟨hf, Nat.le_refl _⟩)
      (fun k hk => by simp_all [Form.starts, Form.nullable]) fun _ o ho => ho.1

theorem parses_listed (hcomma : A (some .comma)) (hparen : A (some .rightParen))
    (hf : f.nullable = false) (hstarts : ∀ k ∈ f.starts, ¬ k = .rightParen)
    (h : Parses N Anything f v A p q) {n m : Nat} (hn : N ≤ n) (hm : N ≤ m) :
    Parses (N + 1) D (.listed f) (fun x => (Phrase.listed x).map v) B (listed p n)
      (listed q m) := by
  let inner := fun o : (Form.opt (.separated f)).Tree α => ((o.map Phrase.items).getD []).map v
  have hbody : Parses N Anything (.seq (.opt (.separated f)) (.token [.rightParen]))
      (fun x => inner x.1) B
      (nextIs .rightParen >>= fun b =>
        if b = true then Parser.pure [] >>= fun xs => expect .rightParen >>= fun _ => pure xs
        else separated p n >>= fun xs => expect .rightParen >>= fun _ => pure xs)
      (nextIs .rightParen >>= fun b =>
        if b = true then Parser.pure [] >>= fun xs => expect .rightParen >>= fun _ => pure xs
        else separated q m >>= fun xs => expect .rightParen >>= fun _ => pure xs) := by
    have hclose : ∀ xs : List β, Parses N Anything (.token [.rightParen]) (fun _ => xs) B
        (expect .rightParen >>= fun _ => pure xs) (expect .rightParen >>= fun _ => pure xs) :=
      fun xs => (Parses.expect (α := α) .rightParen).map (h := fun _ => xs)
    refine Parses.total (D := (· = some .rightParen)) ?_ ?_
    · refine Parses.follows follows_nextIs follows_nextIs ?_
      refine Parses.seq (Parses.none (w := inner) (A := Anything) (b := []) rfl ?_ ?_) hclose
        (.inl (Nat.le_refl N)) (fun _ _ => trivial) (fun _ _ _ => trivial)
      · simp [Form.nullable, hf]
      · simpa [Form.starts, hf] using hstarts
    · refine Parses.follows follows_nextIs_not follows_nextIs_not ?_
      have hsep := (parses_separated hcomma hf h hn hm).mono (Nat.le_refl N)
        (E := fun o => ¬ o = some .rightParen) (fun _ _ => trivial) (fun _ => id)
      refine Parses.seq (hsep.some (w := inner) (B := (· = some .rightParen)) (fun _ => rfl) ?_)
        hclose
        (.inl (Nat.le_refl N)) (fun k hk => by simp_all [Form.starts])
        fun hn => absurd hn (by decide)
      rintro o rfl
      exact ⟨⟨hparen, by simp⟩, by simp⟩
  have hseq := Parses.seq (Parses.expect (α := α) (A := Anything) (D := D) .leftParen)
    (fun _ => hbody) (.inr ⟨rfl, Nat.le_refl _⟩) (fun _ _ => trivial) (fun _ _ _ => trivial)
  exact hseq

/-! ### Expressions -/

/-- What may follow a phrase. -/
abbrev After (r : Phrase) : Option TokenKind → Prop := Avoids r.bars

theorem after_of_apart {ks ls : List TokenKind} (h : apart ks ls = true) :
    ∀ k ∈ ks, Avoids ls (some k) := by
  intro k hk j hj he
  obtain rfl := Option.some.inj he
  exact not_mem_of_apart h hk hj

theorem after_split {ks ls kinds : List TokenKind} {o : Option TokenKind} (h : Avoids ls o)
    (hsub : ∀ k ∈ ks ++ kinds, k ∈ ls) : Avoids ks o ∧ ¬ Among kinds o := by
  refine ⟨h.mono fun k hk => hsub k (List.mem_append_left _ hk), ?_⟩
  rintro ⟨k, hk, ho⟩
  exact h k (hsub k (List.mem_append_right _ hk)) ho

omit [Inhabited α] in
theorem chain_id (x : Expr α × List (Token α × Expr α)) :
    Phrase.chain x = Phrase.chain (id x.1, x.2.map fun y => (y.1, id y.2)) := by
  simp

omit [Inhabited α] in
theorem atMostOne_id (x : Expr α × Option (Token α × Expr α)) :
    Phrase.atMostOne x = Phrase.atMostOne (id x.1, x.2.map fun y => (y.1, id y.2)) := by
  simp

/-- Both readers read the expressions of a phrase, if these have fewer than `N` tokens. -/
abbrev ParsesExpr (N : Nat) (r : Phrase) (v : r.Tree α → Expr α) (p q : Parser α (Expr α)) : Prop :=
  Parses N Anything (.phrase r) v (After r) p q

theorem parses_operation {p q : Parser α (Expr α)} (h : ParsesExpr (N + 1) .primary id p q)
    {n m : Nat} (hn : N ≤ n) (hm : N ≤ m) :
    ParsesExpr (N + 1) .logical id (operation p n) (operation q m) := by
  have hproduct : ParsesExpr (N + 1) .product id (chain productOp p n) (chain productOp q m) :=
    Parses.phrase ((parses_chain knows_productOp (after_of_apart (by decide)) rfl h hn hm).mono
      (Nat.le_refl _) (fun _ => id) fun o ho => after_split ho (by decide)) chain_id
  have hsum : ParsesExpr (N + 1) .sum id (chain sumOp (chain productOp p n) n)
      (chain sumOp (chain productOp q m) m) :=
    Parses.phrase ((parses_chain knows_sumOp (after_of_apart (by decide)) rfl hproduct hn hm).mono
      (Nat.le_refl _) (fun _ => id) fun o ho => after_split ho (by decide)) chain_id
  have hrelation : ParsesExpr (N + 1) .relation id
      (atMostOne relationOp (chain sumOp (chain productOp p n) n))
      (atMostOne relationOp (chain sumOp (chain productOp q m) m)) :=
    Parses.phrase ((parses_atMostOne knows_relationOp (after_of_apart (by decide)) hsum).mono
      (Nat.le_refl _) (fun _ => id) fun o ho => after_split ho (by decide)) atMostOne_id
  exact Parses.phrase
    ((parses_atMostOne knows_logicalOp (after_of_apart (by decide)) hrelation).mono
      (Nat.le_refl _) (fun _ => id) fun o ho => after_split ho (by decide)) atMostOne_id

/-- An assignment in parentheses. -/
theorem parses_condition {p q : Parser α (Expr α)} (h : ParsesExpr N .assignment id p q) :
    Parses (N + 1) D .condition (fun x => x.2.1) B
      (expect .leftParen >>= fun _ => p >>= fun e => expect .rightParen >>= fun _ => pure e)
      (expect .leftParen >>= fun _ => q >>= fun e => expect .rightParen >>= fun _ => pure e) := by
  have hclose : ∀ e : Expr α, Parses N Anything (.token [.rightParen]) (fun _ => e) B
      (expect .rightParen >>= fun _ => pure e) (expect .rightParen >>= fun _ => pure e) :=
    fun e => (Parses.expect (α := α) .rightParen).map (h := fun _ => e)
  have hinner := Parses.seq h hclose (.inl (Nat.le_refl N)) (after_of_apart (by decide))
    fun hn => absurd hn (by decide)
  exact Parses.seq (Parses.expect (α := α) (A := Anything) .leftParen) (fun _ => hinner)
    (.inr ⟨rfl, Nat.le_refl _⟩) (fun _ _ => trivial) (fun _ _ _ => trivial)

omit [Inhabited α] in
theorem forks_nameOrCall (p : Parser α (Expr α)) (n : Nat) :
    Forks .leftParen (nameOrCall p n)
      (fun callee => listed p n >>= fun args => Pure.pure (.callAt callee args callee.location))
      (identifier >>= fun id => Pure.pure (.reference id)) where
  left ending t ts ht hlook := by
    rw [nameOrCall, bind_of_ok (peekSecond_of_clear (clear_of_look hlook)), if_pos hlook,
      bind_of_ok (identifier_of_kind ht ending ts)]
  right ending t ts _ hc hlook := by
    rw [nameOrCall, bind_of_ok (peekSecond_of_clear hc), if_neg hlook]
  broken _ _ _ := rfl

theorem parses_nameOrCall {p q : Parser α (Expr α)} (h : ParsesExpr N .logical id p q) {n m : Nat}
    (hn : N ≤ n) (hm : N ≤ m) :
    Parses (N + 1) (· = some .identifier)
      (.alt (.seq (.token [.identifier]) (.listed (.phrase .logical))) (.token [.identifier]))
      (Sum.elim (fun x => Expr.callAt (Token.identifier x.1) ((Phrase.listed x.2).map id)
          (Token.identifier x.1).location)
        (fun t => Expr.reference (Token.identifier t)))
      (After .primary) (nameOrCall p n) (nameOrCall q m) := by
  have hcall : ∀ b, Parses N Anything (.listed (.phrase .logical))
      (fun x => Expr.callAt b ((Phrase.listed x).map id) b.location) Anything
      (listed p n >>= fun args => Pure.pure (.callAt b args b.location))
      (listed q m >>= fun args => Pure.pure (.callAt b args b.location)) := by
    intro b
    have hlisted := parses_listed (D := Anything) (B := Anything) (by decide) (by decide) rfl
      (by decide) h hn hm
    exact (hlisted.mono (Nat.le_succ N) (fun _ => id) fun _ => id).map
      (h := fun args => Expr.callAt b args b.location)
  have hname := (parses_identifier (α := α) (N := N + 1) (D := (· = some .identifier))
    (A := Anything)).map (h := Expr.reference)
  exact (forks_nameOrCall p n).parses (forks_nameOrCall q m) hcall hname trivial rfl (by decide) rfl
    (by decide) (fun o ho => ⟨trivial, ho .leftParen (by decide)⟩)
    fun t ht => ⟨.token t (List.mem_singleton.mpr ht), rfl⟩

theorem parses_primary {a a' p q : Parser α (Expr α)} (ha : ParsesExpr N .assignment id a a')
    (h : ParsesExpr N .logical id p q) {n m : Nat} (hn : N ≤ n) (hm : N ≤ m) :
    ParsesExpr (N + 1) .primary id (primary a p n) (primary a' q m) := by
  have hinteger : Parses (N + 1) (· = some .integer) Phrase.primary.rule Phrase.primary.build
      (After .primary) (primary a p n) (primary a' q m) := by
    refine Parses.follows (follows_peek_at _) (follows_peek_at _) ?_
    have hread := (Parses.expect (α := α) (N := N + 1) (D := (· = some .integer))
      (A := After .primary) .integer).map (h := fun t => Expr.integer t.lexeme t.location)
    exact hread.left (fun _ => rfl) rfl (by decide)
  have hstring : Parses (N + 1) (· = some .string) Phrase.primary.rule Phrase.primary.build
      (After .primary) (primary a p n) (primary a' q m) := by
    refine Parses.follows (follows_peek_at _) (follows_peek_at _) ?_
    have hread := (Parses.expect (α := α) (N := N + 1) (D := (· = some .string))
      (A := After .primary) .string).map (h := fun t => Expr.string t.lexeme t.location)
    exact (hread.left (w := fun x => Phrase.primary.build (.inr x)) (fun _ => rfl) rfl
      (by decide)).right (fun _ => rfl) rfl (by decide)
  have hname : Parses (N + 1) (· = some .identifier) Phrase.primary.rule Phrase.primary.build
      (After .primary) (primary a p n) (primary a' q m) := by
    refine Parses.follows (follows_peek_at _) (follows_peek_at _) ?_
    have hread := (parses_nameOrCall h hn hm).value
      (u := fun x => Phrase.primary.build (.inr (.inr (.inl x))))
      (by
        rintro (⟨t, args⟩ | t)
        · exact congrArg (Expr.callAt _ · _) (List.map_id _)
        · rfl)
    exact ((hread.left (w := fun x => Phrase.primary.build (.inr (.inr x))) (fun _ => rfl) rfl
      (by decide)).right (w := fun x => Phrase.primary.build (.inr x)) (fun _ => rfl) rfl
      (by decide)).right (fun _ => rfl) rfl (by decide)
  have hparen : Parses (N + 1) (· = some .leftParen) Phrase.primary.rule Phrase.primary.build
      (After .primary) (primary a p n) (primary a' q m) := by
    refine Parses.follows (follows_peek_at _) (follows_peek_at _) ?_
    exact (((parses_condition ha).right (w := fun x => Phrase.primary.build (.inr (.inr x)))
      (fun _ => rfl) rfl (by decide)).right (w := fun x => Phrase.primary.build (.inr x))
      (fun _ => rfl) rfl (by decide)).right (fun _ => rfl) rfl (by decide)
  have hother : Parses (N + 1) (fun o => ¬ Among Phrase.exprStarts o) Phrase.primary.rule
      Phrase.primary.build (After .primary) (primary a p n) (primary a' q m) := by
    have hfollows : ∀ (a p : Parser α (Expr α)) n,
        Follows (fun o => ¬ Among Phrase.exprStarts o) (primary a p n) (refuse .expression) := by
      refine fun a p n => follows_peek fun o ho => ?_
      split
      all_goals first | rfl | exact absurd (by decide) ho
    refine Parses.follows (hfollows a p n) (hfollows a' q m) ?_
    exact Parses.refuse _ rfl fun k hk hn => hn ⟨k, Phrase.rule_starts .primary k hk, rfl⟩
  refine Parses.phrase (w := Phrase.primary.build) ?_ fun _ => rfl
  refine ((((hinteger.union hstring).union hname).union hparen).union hother).mono (Nat.le_refl _)
    (fun o _ => ?_) (fun _ => id)
  by_cases ho : Among Phrase.exprStarts o
  · simp only [Among, Phrase.exprStarts, List.mem_cons, List.not_mem_nil, or_false,
      exists_eq_or_imp, exists_eq_left] at ho
    exact .inl (by rcases ho with ho | ho | ho | ho <;> simp [ho])
  · exact .inr ho

omit [Inhabited α] in
theorem forks_assignment (n : Nat) :
    Forks .assign (expression (α := α) (n + 1) .assignment)
      (fun target => expect .assign >>= fun sign => expression n .assignment >>= fun value =>
        Pure.pure (.assign target value sign.location))
      (expression (n + 1) .logical) where
  left ending t ts ht hlook := by
    have hstarts : startsAssignment ending (t :: ts) = .ok (true, t :: ts) := by
      rw [startsAssignment, bind_of_ok (nextIs_of_clear (ending.clear_cons t ts) _), look_cons, ht,
        decide_eq_true rfl, if_pos rfl, bind_of_ok (peekSecond_of_clear (clear_of_look hlook)),
        hlook]
      rfl
    rw [expression, bind_of_ok hstarts, if_pos rfl, bind_of_ok (identifier_of_kind ht ending ts)]
  right ending t ts ht hc hlook := by
    have hstarts : startsAssignment ending (t :: ts) = .ok (false, t :: ts) := by
      rw [startsAssignment, bind_of_ok (nextIs_of_clear (ending.clear_cons t ts) _), look_cons, ht,
        decide_eq_true rfl, if_pos rfl, bind_of_ok (peekSecond_of_clear hc), decide_eq_false hlook]
      rfl
    exact bind_of_ok hstarts
  broken e t ht := by
    have hstarts : startsAssignment (.broken e) [t] = .error (.lexical e) := by
      rw [startsAssignment, bind_of_ok (nextIs_of_clear ((Ending.broken e).clear_cons t []) _),
        look_cons, ht, decide_eq_true rfl, if_pos rfl]
      rfl
    rw [expression, bind_of_error hstarts]

omit [Inhabited α] in
theorem follows_assignment_not (n : Nat) :
    Follows (fun o => ¬ o = some .identifier) (expression (α := α) (n + 1) .assignment)
      (expression (n + 1) .logical) where
  clear ending ts hc ho := by
    have hstarts : startsAssignment ending ts = .ok (false, ts) := by
      rw [startsAssignment, bind_of_ok (nextIs_of_clear hc _), decide_eq_false ho,
        if_neg Bool.false_ne_true]
      rfl
    exact bind_of_ok hstarts
  broken _ _ := rfl

/-- A name alone is an expression. -/
def nameAlone (t : Token α) (ht : t.kind = .identifier) : Derivation α (.phrase .logical) :=
  let name : Derivation α (.phrase .primary) :=
    .phrase (.right (.right (.left (.right (.token t (List.mem_singleton.mpr ht))))))
  .phrase (.seq (.phrase (.seq (.phrase (.seq (.phrase (.seq name .nil)) .nil)) .none)) .none)

theorem parses_assignment {n m : Nat}
    (ha : ParsesExpr (α := α) N .assignment id (expression n .assignment)
      (expression m .assignment))
    (h : ParsesExpr (α := α) (N + 1) .logical id (expression (n + 1) .logical)
      (expression (m + 1) .logical)) :
    ParsesExpr (α := α) (N + 1) .assignment id (expression (n + 1) .assignment)
      (expression (m + 1) .assignment) := by
  have hlogical : ∀ D, Parses (N + 1) D (.phrase .logical) id (After .assignment)
      (expression (α := α) (n + 1) .logical) (expression (m + 1) .logical) :=
    fun D => h.mono (Nat.le_refl _) (fun _ _ => trivial) fun o ho => ho.mono (by decide)
  have hvalue : ∀ target, Parses N Anything (.seq (.token [.assign]) (.phrase .assignment))
      (fun x => Expr.assign target x.2 x.1.location) (After .assignment)
      (expect .assign >>= fun sign => expression n .assignment >>= fun value =>
        Pure.pure (.assign target value sign.location))
      (expect .assign >>= fun sign => expression m .assignment >>= fun value =>
        Pure.pure (.assign target value sign.location)) :=
    fun target => Parses.seq (Parses.expect (α := α) (A := Anything) .assign)
      (fun sign => ha.map (h := fun value => Expr.assign target value sign.location))
      (.inl (Nat.le_refl N)) (fun _ _ => trivial) (fun _ _ _ => trivial)
  refine Parses.phrase (w := Phrase.assignment.build) ?_ fun _ => rfl
  refine Parses.total (D := (· = some .identifier)) ?_ ?_
  · have hforks := (forks_assignment n).parses (forks_assignment m) hvalue (hlogical _)
      (avoids_none _) rfl (by decide) rfl (by decide)
      (fun o ho => ⟨ho, ho .assign (by decide)⟩)
      fun t ht => ⟨nameAlone t ht, rfl⟩
    exact hforks.value (by rintro (⟨_, _, _⟩ | _) <;> rfl)
  · refine Parses.follows (follows_assignment_not n) (follows_assignment_not m) ?_
    exact (hlogical _).right (fun _ => rfl) rfl (by decide)

theorem parses_expression (N : Nat) : ∀ {n m : Nat}, N ≤ n → N ≤ m →
    ParsesExpr (α := α) N .assignment id (expression n .assignment) (expression m .assignment) ∧
      ParsesExpr (α := α) N .logical id (expression n .logical) (expression m .logical) := by
  induction N with
  | zero => exact fun _ _ => ⟨.zero, .zero⟩
  | succ N ih =>
    intro n m hn hm
    obtain ⟨n, rfl⟩ : ∃ n', n = n' + 1 := ⟨n - 1, by omega⟩
    obtain ⟨m, rfl⟩ : ∃ m', m = m' + 1 := ⟨m - 1, by omega⟩
    obtain ⟨ha, h⟩ := ih (n := n) (m := m) (by omega) (by omega)
    have hprimary := parses_primary ha h (n := n) (m := m) (by omega) (by omega)
    have hlogical := parses_operation hprimary (n := n) (m := m) (by omega) (by omega)
    exact ⟨parses_assignment ha hlogical, hlogical⟩

end Parser

end Scriptlet
