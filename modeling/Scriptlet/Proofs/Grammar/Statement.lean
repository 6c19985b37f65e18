import Scriptlet.Proofs.Grammar.Expression

/-!
The readers of statements, functions and whole programs read their phrases of the grammar.
-/

namespace Scriptlet

namespace Parser

variable {α : Type} [Inhabited α] {N : Nat} {D A B : Option TokenKind → Prop} {n m : Nat}

/-- Both readers read statements of fewer than `N` tokens. -/
abbrev ParsesStmt (N : Nat) (p q : Parser α (Stmt α)) : Prop :=
  Parses N Anything (.phrase .statement) id (After .statement) p q

omit [Inhabited α] in
theorem parses_statements {p q : Parser α (Stmt α)} (h : ParsesStmt N p q) (hn : N ≤ n)
    (hm : N ≤ m) :
    Parses N Anything (.many (.phrase .statement)) id (· = some .rightBrace) (statements p n)
      (statements q m) := by
  induction N generalizing n m with
  | zero => exact .zero
  | succ N ih =>
    obtain ⟨n, rfl⟩ : ∃ n', n = n' + 1 := ⟨n - 1, by omega⟩
    obtain ⟨m, rfl⟩ : ∃ m', m = m' + 1 := ⟨m - 1, by omega⟩
    have hrest := ih (h.mono (Nat.le_succ N) (fun _ => id) fun _ => id) (n := n) (m := m) (by omega)
      (by omega)
    refine Parses.total (D := (· = some .rightBrace)) ?_ ?_
    · refine Parses.follows follows_nextIs follows_nextIs ?_
      exact Parses.nil rfl rfl (by decide)
    · refine Parses.follows follows_nextIs_not follows_nextIs_not ?_
      have hfirst := h.mono (Nat.le_refl _) (E := fun o => ¬ o = some .rightBrace)
        (fun _ _ => trivial) fun _ => id
      have hseq := Parses.seq hfirst
        (fun s => hrest.map (h := (s :: ·))) (.inr ⟨rfl, Nat.le_refl _⟩)
        (after_of_apart (by decide)) (by rintro _ _ rfl; decide)
      exact hseq.cons (fun _ _ => rfl) fun o ho => ⟨ho, fun hn => hn ho⟩

theorem parses_block {p q : Parser α (Stmt α)} (h : ParsesStmt N p q) (hn : N ≤ n) (hm : N ≤ m) :
    Parses (N + 1) D (.phrase .block) id B (block p n) (block q m) := by
  have hclose : ∀ ss : List (Stmt α), Parses N Anything (.token [.rightBrace]) (fun _ => ss) B
      (expect .rightBrace >>= fun _ => Pure.pure ss)
      (expect .rightBrace >>= fun _ => Pure.pure ss) :=
    fun ss => (Parses.expect (α := α) .rightBrace).map (h := fun _ => ss)
  have hinner := Parses.seq (parses_statements h hn hm) hclose (.inl (Nat.le_refl N))
    (by decide) nofun
  have hseq := Parses.seq (D := D) (Parses.expect (α := α) (A := Anything) .leftBrace)
    (fun _ => hinner)
    (.inr ⟨rfl, Nat.le_refl _⟩) (fun _ _ => trivial) (fun _ _ _ => trivial)
  exact hseq.phrase fun _ => rfl

theorem parses_elseBlock {p q : Parser α (Stmt α)} (h : ParsesStmt N p q) (hn : N ≤ n)
    (hm : N ≤ m) :
    Parses (N + 1) Anything (.opt (.seq (.token [.keywordElse]) (.phrase .block)))
      (Option.map Prod.snd) (After .statement) (elseBlock p n) (elseBlock q m) := by
  refine Parses.total (D := (· = some .keywordElse)) ?_ ?_
  · refine Parses.follows follows_accept follows_accept ?_
    have hblock := (parses_block (D := Anything) (B := Anything) h hn hm).map (h := some)
    have hseq := Parses.seq (D := (· = some .keywordElse))
      (Parses.expect (α := α) (A := Anything) .keywordElse) (fun _ => hblock)
      (.inl (Nat.le_refl _)) (fun _ _ => trivial) (fun _ _ _ => trivial)
    exact hseq.some (fun _ => rfl) fun o ho => ⟨trivial, ho .keywordElse (by decide)⟩
  · refine Parses.follows follows_accept_not follows_accept_not ?_
    exact Parses.none rfl rfl (by decide)

theorem parses_declaration :
    Parses (N + 1) (· = some .keywordVar)
      (.seq (.token [.keywordVar]) (.seq (.token [.identifier]) (.token [.semicolon])))
      (fun x => Stmt.declare (Token.identifier x.2.1) x.1.location) B
      (expect (α := α) .keywordVar >>= fun keyword => identifier >>= fun id =>
        expect .semicolon >>= fun _ => Pure.pure (.declare id keyword.location))
      (expect .keywordVar >>= fun keyword => identifier >>= fun id =>
        expect .semicolon >>= fun _ => Pure.pure (.declare id keyword.location)) := by
  have hend : ∀ s : Stmt α, Parses (N + 1) Anything (.token [.semicolon]) (fun _ => s) B
      (expect .semicolon >>= fun _ => Pure.pure s) (expect .semicolon >>= fun _ => Pure.pure s) :=
    fun s => (Parses.expect (α := α) .semicolon).map (h := fun _ => s)
  have hname := fun keyword : Token α => Parses.seq (parses_identifier (D := Anything)
    (A := Anything)) (fun id => hend (.declare id keyword.location)) (.inl (Nat.le_refl _))
    (fun _ _ => trivial) (fun _ _ _ => trivial)
  exact Parses.seq (Parses.expect (α := α) (A := Anything) .keywordVar) hname
    (.inl (Nat.le_refl _)) (fun _ _ => trivial) (fun _ _ _ => trivial)

theorem parses_branch {p q : Parser α (Stmt α)} (h : ParsesStmt N p q) (hn : N ≤ n) (hm : N ≤ m) :
    Parses (N + 1) (· = some .keywordIf)
      (.seq (.token [.keywordIf]) (.seq .condition
        (.seq (.phrase .block) (.opt (.seq (.token [.keywordElse]) (.phrase .block))))))
      (fun x => Stmt.branch x.2.1.2.1 x.2.2.1 (Option.map Prod.snd x.2.2.2) x.1.location)
      (After .statement)
      (expect .keywordIf >>= fun keyword => condition n >>= fun cond => block p n >>= fun ss =>
        elseBlock p n >>= fun o => Pure.pure (.branch cond ss o keyword.location))
      (expect .keywordIf >>= fun keyword => condition m >>= fun cond => block q m >>= fun ss =>
        elseBlock q m >>= fun o => Pure.pure (.branch cond ss o keyword.location)) := by
  have hblocks := fun (keyword : Token α) cond => Parses.seq
    (parses_block (D := Anything) (B := Anything) h hn hm)
    (fun ss => (parses_elseBlock h hn hm).map
      (h := fun o => Stmt.branch cond ss o keyword.location))
    (.inl (Nat.le_refl _)) (fun _ _ => trivial) (fun _ _ _ => trivial)
  have hcond := fun keyword => Parses.seq
    (parses_condition (D := Anything) (B := Anything) (parses_expression N hn hm).1)
    (hblocks keyword) (.inl (Nat.le_refl _)) (fun _ _ => trivial) (fun _ _ _ => trivial)
  exact Parses.seq (Parses.expect (α := α) (A := Anything) .keywordIf) hcond
    (.inl (Nat.le_refl _)) (fun _ _ => trivial) (fun _ _ _ => trivial)

theorem parses_loop {p q : Parser α (Stmt α)} (h : ParsesStmt N p q) (hn : N ≤ n) (hm : N ≤ m) :
    Parses (N + 1) (· = some .keywordWhile)
      (.seq (.token [.keywordWhile]) (.seq .condition (.phrase .block)))
      (fun x => Stmt.loop x.2.1.2.1 x.2.2 x.1.location) B
      (expect .keywordWhile >>= fun keyword => condition n >>= fun cond => block p n >>= fun ss =>
        Pure.pure (.loop cond ss keyword.location))
      (expect .keywordWhile >>= fun keyword => condition m >>= fun cond => block q m >>= fun ss =>
        Pure.pure (.loop cond ss keyword.location)) := by
  have hcond := fun keyword : Token α => Parses.seq
    (parses_condition (D := Anything) (B := Anything) (parses_expression N hn hm).1)
    (fun cond => (parses_block (D := Anything) (B := B) h hn hm).map
      (h := fun ss => Stmt.loop cond ss keyword.location))
    (.inl (Nat.le_refl _)) (fun _ _ => trivial) (fun _ _ _ => trivial)
  exact Parses.seq (Parses.expect (α := α) (A := Anything) .keywordWhile) hcond
    (.inl (Nat.le_refl _)) (fun _ _ => trivial) (fun _ _ _ => trivial)

theorem parses_effect (hn : N ≤ n) (hm : N ≤ m) :
    Parses N D (.seq (.phrase .assignment) (.token [.semicolon])) (fun x => Stmt.expr x.1) B
      (expression (α := α) n .assignment >>= fun e => expect .semicolon >>= fun _ =>
        Pure.pure (.expr e))
      (expression m .assignment >>= fun e => expect .semicolon >>= fun _ =>
        Pure.pure (.expr e)) := by
  have hend : ∀ e : Expr α, Parses N Anything (.token [.semicolon]) (fun _ => Stmt.expr e) B
      (expect .semicolon >>= fun _ => Pure.pure (.expr e))
      (expect .semicolon >>= fun _ => Pure.pure (.expr e)) :=
    fun e => (Parses.expect (α := α) .semicolon).map (h := fun _ => Stmt.expr e)
  have hexpr := (parses_expression (α := α) N hn hm).1.mono (Nat.le_refl _) (E := D)
    (fun _ _ => trivial) fun _ => id
  exact Parses.seq hexpr hend (.inl (Nat.le_refl _)) (after_of_apart (by decide)) nofun

/-- The kinds that a statement other than an expression starts with. -/
abbrev stmtKeywords : List TokenKind := [.keywordVar, .keywordIf, .keywordWhile]

theorem parses_statement_succ (h : ParsesStmt (α := α) N (statement n) (statement m)) (hn : N ≤ n)
    (hm : N ≤ m) : ParsesStmt (α := α) (N + 1) (statement (n + 1)) (statement (m + 1)) := by
  have hdeclare : Parses (N + 1) (· = some .keywordVar) Phrase.statement.rule
      Phrase.statement.build (After .statement) (statement (α := α) (n + 1))
      (statement (m + 1)) := by
    refine Parses.follows (follows_peek_at _) (follows_peek_at _) ?_
    exact parses_declaration.left (fun _ => rfl) rfl (by decide)
  have hbranch : Parses (N + 1) (· = some .keywordIf) Phrase.statement.rule
      Phrase.statement.build (After .statement) (statement (α := α) (n + 1))
      (statement (m + 1)) := by
    refine Parses.follows (follows_peek_at _) (follows_peek_at _) ?_
    exact ((parses_branch h hn hm).left (w := fun x => Phrase.statement.build (.inr x))
      (fun _ => rfl) rfl (by decide)).right (fun _ => rfl) rfl (by decide)
  have hloop : Parses (N + 1) (· = some .keywordWhile) Phrase.statement.rule
      Phrase.statement.build (After .statement) (statement (α := α) (n + 1))
      (statement (m + 1)) := by
    refine Parses.follows (follows_peek_at _) (follows_peek_at _) ?_
    exact (((parses_loop h hn hm).left (w := fun x => Phrase.statement.build (.inr (.inr x)))
      (fun _ => rfl) rfl (by decide)).right (w := fun x => Phrase.statement.build (.inr x))
      (fun _ => rfl) rfl (by decide)).right (fun _ => rfl) rfl (by decide)
  have hnone : Parses (N + 1) (· = none) Phrase.statement.rule
      Phrase.statement.build (After .statement) (statement (α := α) (n + 1))
      (statement (m + 1)) := by
    refine Parses.follows (follows_peek_at _) (follows_peek_at _) ?_
    exact Parses.refuse _ rfl (by decide)
  have hother : Parses (N + 1) (fun o => ¬ (o = none ∨ Among stmtKeywords o))
      Phrase.statement.rule Phrase.statement.build (After .statement) (statement (α := α) (n + 1))
      (statement (m + 1)) := by
    have hfollows : ∀ n, Follows (fun o => ¬ (o = none ∨ Among stmtKeywords o))
        (statement (α := α) (n + 1)) (expression (n + 1) .assignment >>= fun e =>
          expect .semicolon >>= fun _ => Pure.pure (.expr e)) := by
      refine fun n => follows_peek fun o ho => ?_
      split
      all_goals first | rfl | exact absurd (by decide) ho
    refine Parses.follows (hfollows n) (hfollows m) ?_
    exact (((parses_effect (by omega) (by omega)).right
      (w := fun x => Phrase.statement.build (.inr (.inr x))) (fun _ => rfl) rfl (by decide)).right
      (w := fun x => Phrase.statement.build (.inr x)) (fun _ => rfl) rfl (by decide)).right
      (fun _ => rfl) rfl (by decide)
  refine Parses.phrase (w := Phrase.statement.build) ?_ fun _ => rfl
  refine ((((hdeclare.union hbranch).union hloop).union hnone).union hother).mono (Nat.le_refl _)
    (fun o _ => ?_) (fun _ => id)
  by_cases ho : o = none ∨ Among stmtKeywords o
  · simp only [Among, stmtKeywords, List.mem_cons, List.not_mem_nil, or_false, exists_eq_or_imp,
      exists_eq_left] at ho
    exact .inl (by rcases ho with ho | ho | ho | ho <;> simp [ho])
  · exact .inr ho

theorem parses_statement (N : Nat) :
    ∀ {n m : Nat}, N ≤ n → N ≤ m → ParsesStmt (α := α) N (statement n) (statement m) := by
  induction N with
  | zero => exact fun _ _ => .zero
  | succ N ih =>
    intro n m hn hm
    obtain ⟨n, rfl⟩ : ∃ n', n = n' + 1 := ⟨n - 1, by omega⟩
    obtain ⟨m, rfl⟩ : ∃ m', m = m' + 1 := ⟨m - 1, by omega⟩
    exact parses_statement_succ (ih (by omega) (by omega)) (by omega) (by omega)

/-! ### Functions and programs -/

theorem parses_function (hn : N ≤ n) (hm : N ≤ m) :
    Parses N D (.phrase .function) id B (function (α := α) n) (function m) := by
  have hbody := fun (keyword : Token α) name params =>
    ((parses_block (D := Anything) (B := B) (parses_statement (α := α) N hn hm) hn hm).map
      (h := fun ss => FunctionDef.mk name params ss keyword.location)).mono (Nat.le_succ N)
      (fun _ => id) (fun _ => id)
  have hparams := fun (keyword : Token α) name => Parses.seq
    ((parses_listed (D := Anything) (B := Anything) trivial trivial rfl (by decide)
      (parses_identifier (α := α) (A := Anything)) hn hm).mono (Nat.le_succ N) (fun _ => id)
      fun _ => id)
    (hbody keyword name) (.inl (Nat.le_refl _)) (fun _ _ => trivial) (fun _ _ _ => trivial)
  have hname := fun keyword : Token α => Parses.seq
    (parses_identifier (D := Anything) (A := Anything)) (hparams keyword) (.inl (Nat.le_refl _))
    (fun _ _ => trivial) (fun _ _ _ => trivial)
  have hseq := Parses.seq (D := D) (Parses.expect (α := α) (A := Anything) .keywordFunction) hname
    (.inl (Nat.le_refl _)) (fun _ _ => trivial) (fun _ _ _ => trivial)
  exact hseq.phrase fun _ => rfl

theorem parses_item (hn : N ≤ n) (hm : N ≤ m) :
    Parses N Anything (.phrase .item) id (After .item) (item (α := α) n) (item m) := by
  refine Parses.phrase (w := Phrase.item.build) ?_ fun _ => rfl
  refine Parses.total (D := (· = some .keywordFunction)) ?_ ?_
  · refine Parses.follows follows_nextIs follows_nextIs ?_
    exact ((parses_function hn hm).map (h := Item.function)).left (fun _ => rfl) rfl (by decide)
  · refine Parses.follows follows_nextIs_not follows_nextIs_not ?_
    have hstmt := (parses_statement (α := α) N hn hm).mono (Nat.le_refl N)
      (E := fun o => ¬ o = some .keywordFunction) (fun _ _ => trivial) fun _ => id
    exact (hstmt.map (h := Item.stmt)).right (fun _ => rfl) rfl (by decide)

theorem parses_items {b c : Nat} (hb : N ≤ b) (hc : N ≤ c) (hn : N ≤ n) (hm : N ≤ m) :
    Parses N Anything (.many (.phrase .item)) id (· = none) (items (α := α) b n) (items c m) := by
  induction N generalizing n m with
  | zero => exact .zero
  | succ N ih =>
    obtain ⟨n, rfl⟩ : ∃ n', n = n' + 1 := ⟨n - 1, by omega⟩
    obtain ⟨m, rfl⟩ : ∃ m', m = m' + 1 := ⟨m - 1, by omega⟩
    have hrest := ih (n := n) (m := m) (by omega) (by omega) (by omega) (by omega)
    refine Parses.total (D := (· = none)) ?_ ?_
    · refine Parses.follows (follows_peek_at _) (follows_peek_at _) ?_
      exact Parses.nil rfl rfl (by decide)
    · have hfollows : ∀ b n, Follows (fun o => ¬ o = none) (items (α := α) b (n + 1))
          (item b >>= fun x => items b n >>= fun xs => Pure.pure (x :: xs)) := by
        refine fun b n => follows_peek fun o ho => ?_
        split
        · exact absurd rfl ho
        · rfl
      refine Parses.follows (hfollows b n) (hfollows c m) ?_
      have hfirst := (parses_item (α := α) hb hc).mono (Nat.le_refl _) (E := fun o => ¬ o = none)
        (fun _ _ => trivial) fun _ => id
      have hseq := Parses.seq hfirst (fun x => hrest.map (h := (x :: ·)))
        (.inr ⟨rfl, Nat.le_refl _⟩) (after_of_apart (by decide)) (by rintro _ _ rfl; decide)
      exact hseq.cons (fun _ _ => rfl) fun o ho => ⟨ho, fun hn => hn ho⟩

/-- The reader of a whole text, with bounds that leave room, reads programs. -/
theorem parses_program {b c : Nat} (hb : N ≤ b) (hc : N ≤ c) (hn : N ≤ n) (hm : N ≤ m) :
    Parses N Anything (.phrase .program) Program.items (· = none) (items (α := α) b n)
      (items c m) :=
  (parses_items hb hc hn hm).phrase fun _ => rfl

end Parser

end Scriptlet
