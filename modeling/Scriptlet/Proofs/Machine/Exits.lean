import Scriptlet.Proofs.Machine.Liveness
import Scriptlet.Proofs.Machine.Runs

/-!
What is begun ends as it began. Whatever the control sets out to do, its answer is the first that
finds the same frames waiting; by then all scopes opened and all calls made on the way are gone.
-/

namespace Scriptlet

variable {α : Type}

def Control.Answers : Control α → Prop
  | .give _ => True
  | .fail _ => True
  | _ => False

namespace State

variable {limit : Nat} {s t : State α}

/-- The states from `s` on, up to the first answer that finds the frames waiting that waited in
`s`. Where `s` sets out to do an expression, a statement, a block or a call, these are the states
in which it is done, and the last of them is its exit. -/
inductive Within (limit : Nat) (s : State α) : State α → Prop
  | entry : Within limit s s
  | step {t : State α} (h : Within limit s t) (hout : t.stack = s.stack → ¬ t.control.Answers) :
    Within limit s (t.step limit)

theorem answers_of_outcome? {r : Except (EvalError α) Value} (h : s.outcome? = some r) :
    s.control.Answers := by
  obtain ⟨-, ⟨v, hc, -⟩ | ⟨e, hc, -⟩⟩ := outcome?_eq_some h
  · rw [hc]
    trivial
  · rw [hc]
    trivial

/-! ### The stack in a step -/

theorem stack_call (scope : Nat) (callee : Identifier α) (args : List (Expr α)) (l : α) :
    s.stack <:+ (s.call scope callee args l).stack := by
  unfold call
  split
  · exact List.suffix_refl _
  · exact List.suffix_refl _
  · split
    · exact List.suffix_refl _
    · split <;> exact List.suffix_refl _
  · exact List.suffix_refl _

theorem stack_eval (scope : Nat) (e : Expr α) : s.stack <:+ (s.eval scope e).stack := by
  cases e with
  | integer text l =>
    rw [eval]
    split <;> exact List.suffix_refl _
  | string value l => exact List.suffix_refl _
  | reference id =>
    rw [eval]
    split <;> exact List.suffix_refl _
  | assign target value l => exact List.suffix_cons _ _
  | binary op left right l => exact List.suffix_cons _ _
  | callAt callee args l => exact stack_call scope callee args l

theorem stack_exec (scope : Nat) (st : Stmt α) : s.stack <:+ (s.exec scope st).stack := by
  cases st with
  | declare id l =>
    rw [exec]
    split <;> exact List.suffix_refl _
  | branch cond thenBlock elseBlock l => exact List.suffix_cons _ _
  | loop cond body l => exact List.suffix_refl _
  | expr e => exact List.suffix_refl _

theorem stack_applyCallee (callee : Callee α) (args : List Value) (l : α) :
    s.stack <:+ (s.applyCallee limit callee args l).stack := by
  cases callee with
  | builtin b =>
    rw [applyCallee, callBuiltin_eq]
    split <;> exact List.suffix_refl _
  | function ref d closure =>
    rw [applyCallee]
    split
    · exact List.suffix_refl _
    · have hstack : (s.withParams d closure args).stack = s.stack :=
        (bindParams_rest (s := s.openScope closure) s.scopes.depth d.params args).1
      rw [callFunction_eq]
      simp only [hstack]
      exact List.suffix_cons _ _

theorem stack_enterBlock (f : Frame α) (p : Nat) (c : Nat → Control α) :
    s.stack <:+ ((s.pushFrame f).enter p c).stack :=
  (List.suffix_cons _ _).trans (List.suffix_cons _ _)

theorem stack_resume (v : Value) (f : Frame α) : s.stack <:+ (s.resume v f).stack := by
  cases f with
  | assign scope target =>
    rw [resume]
    split <;> exact List.suffix_refl _
  | leftOperand scope op right l =>
    cases v with
    | int a =>
      rw [resume]
      split
      · exact List.suffix_refl _
      · exact List.suffix_cons _ _
    | _ => exact List.suffix_refl _
  | rightOperand op a l =>
    cases v with
    | int b =>
      rw [resume]
      split <;> exact List.suffix_refl _
    | _ => exact List.suffix_refl _
  | branch scope l thenBlock elseBlock =>
    cases v with
    | int i =>
      simp only [resume]
      split
      · exact stack_enterBlock _ _ _
      · split
        · exact List.suffix_refl _
        · exact stack_enterBlock _ _ _
    | _ => exact List.suffix_refl _
  | test scope cond body =>
    cases v with
    | int i =>
      rw [resume]
      split
      · exact stack_enterBlock _ _ _
      · exact List.suffix_refl _
    | _ => exact List.suffix_refl _
  | _ => exact List.suffix_refl _

theorem stack_unwind (f : Frame α) : s.stack <:+ (s.unwind f).stack := by
  cases f <;> exact List.suffix_refl _

/-- Only an answer takes a frame from the stack. -/
theorem stack_step (limit : Nat) (h : ¬ s.control.Answers) : s.stack <:+ (s.step limit).stack := by
  obtain ⟨control, stack, scopes, depth, world⟩ := s
  cases control with
  | eval scope e => exact stack_eval scope e
  | exec scope st => exact stack_exec scope st
  | block scope rest last =>
    cases rest with
    | nil => exact List.suffix_refl _
    | cons st rest => exact List.suffix_cons _ _
  | items rest last =>
    cases rest with
    | nil => exact List.suffix_refl _
    | cons item rest =>
      cases item with
      | function d => exact List.suffix_refl _
      | stmt st => exact List.suffix_cons _ _
  | loop scope cond body => exact (List.suffix_cons _ _).trans (List.suffix_cons _ _)
  | arguments scope callee done rest l =>
    cases rest with
    | nil => exact List.suffix_refl _
    | cons e rest => exact List.suffix_cons _ _
  | apply callee args l => exact stack_applyCallee callee args l
  | give v => exact absurd trivial h
  | fail e => exact absurd trivial h

/-- An answer takes one frame, the last one pushed. -/
theorem stack_step_answer (limit : Nat) {f : Frame α} {k : List (Frame α)} (hk : s.stack = f :: k)
    (h : s.control.Answers) : k <:+ (s.step limit).stack := by
  obtain ⟨control, stack, scopes, depth, world⟩ := s
  obtain rfl : stack = f :: k := hk
  cases control with
  | give v => exact stack_resume (s := ⟨.give v, k, scopes, depth, world⟩) v f
  | fail e => exact stack_unwind (s := ⟨.fail e, k, scopes, depth, world⟩) f
  | _ => exact h.elim

/-- Frames that are not given an answer go on waiting. -/
theorem suffix_step {k : List (Frame α)} (hk : k <:+ s.stack)
    (hout : s.stack = k → ¬ s.control.Answers) : k <:+ (s.step limit).stack := by
  by_cases ha : s.control.Answers
  · cases hstack : s.stack with
    | nil =>
      rw [hstack] at hk
      exact absurd ha (hout (hstack.trans (List.suffix_nil.mp hk).symm))
    | cons f fs =>
      rw [hstack] at hk
      rcases List.suffix_cons_iff.mp hk with heq | hsuffix
      · exact absurd ha (hout (hstack.trans heq.symm))
      · exact hsuffix.trans (stack_step_answer limit hstack ha)
  · exact hk.trans (stack_step limit ha)

theorem Within.stack_suffix (h : Within limit s t) : s.stack <:+ t.stack := by
  induction h with
  | entry => exact List.suffix_refl _
  | step _ hout ih => exact suffix_step ih hout

end State

/-! ### The parents in a step -/

namespace Scopes

variable {s : Scopes}

def Access.IsPop : Access → Prop
  | .pop _ => True
  | _ => False

/-- Only closing a scope takes anything from the tree. -/
theorem parents_perform {a : Access} (ha : ¬ a.IsPop) : s.parents <+: (a.perform s).2.parents := by
  cases a with
  | define id name v =>
    simp only [Access.perform, define]
    cases s.defines id name with
    | true => exact List.prefix_refl _
    | false =>
      simp only [Bool.false_eq_true, if_false, parents_bind]
      exact List.prefix_refl _
  | bind id name v =>
    simp only [Access.perform, parents_bind]
    exact List.prefix_refl _
  | assign id name v =>
    simp only [Access.perform, assign]
    cases s.resolve id name with
    | none => exact List.prefix_refl _
    | some owner =>
      simp only [parents_bind]
      exact List.prefix_refl _
  | lookup id name =>
    simp only [Access.perform]
    split <;> exact List.prefix_refl _
  | push parent =>
    simp only [Access.perform, parents_push]
    exact List.prefix_append _ _
  | pop id => exact absurd trivial ha

theorem parents_after {as : List Access} (has : ∀ a ∈ as, ¬ a.IsPop) :
    s.parents <+: (s.after as).parents := by
  induction as generalizing s with
  | nil => exact List.prefix_refl _
  | cons a as ih =>
    have hfirst := parents_perform (s := s) (has a List.mem_cons_self)
    exact hfirst.trans (ih fun b hb => has b (List.mem_cons_of_mem a hb))

theorem parents_after_pop (s : Scopes) (id : Nat) : (s.after [.pop id]).parents <+: s.parents := by
  change (s.pop id).1.parents <+: s.parents
  cases id with
  | zero => exact List.prefix_refl _
  | succ id =>
    rw [parents_pop s (Nat.succ_pos id)]
    exact List.take_prefix _ _

end Scopes

theorem Frame.closes_cases (f : Frame α) :
    (∀ a ∈ f.closes, ¬ a.IsPop) ∨ ∃ id, f.closes = [.pop id] := by
  cases f with
  | leave id => exact .inr ⟨id, rfl⟩
  | finish id ref => exact .inr ⟨id, rfl⟩
  | _ => exact .inl (by simp [Frame.closes])

theorem Frame.accesses_cases (v : Value) (f : Frame α) :
    (∀ a ∈ f.accesses v, ¬ a.IsPop) ∨ ∃ id, f.accesses v = [.pop id] := by
  have hcloses := f.closes_cases
  cases f with
  | assign scope target => exact .inl (by simp [Frame.accesses, Scopes.Access.IsPop])
  | branch scope l thenBlock elseBlock =>
    refine .inl ?_
    simp only [Frame.accesses]
    split
    · split <;> simp [Scopes.Access.IsPop]
    · simp
  | test scope cond body =>
    refine .inl ?_
    simp only [Frame.accesses]
    split
    · split <;> simp [Scopes.Access.IsPop]
    · simp
  | _ => exact hcloses

namespace State

variable {limit : Nat} {s t : State α}

theorem accesses_cases (limit : Nat) (s : State α) :
    (∀ a ∈ s.accesses limit, ¬ a.IsPop) ∨ ∃ id, s.accesses limit = [.pop id] := by
  obtain ⟨control, stack, scopes, depth, world⟩ := s
  cases control with
  | eval scope e =>
    left
    cases e <;> simp [accesses, Expr.accesses, Scopes.Access.IsPop]
  | exec scope st =>
    left
    cases st <;> simp [accesses, Stmt.accesses, Scopes.Access.IsPop]
  | items rest last =>
    left
    cases rest with
    | nil => simp [accesses]
    | cons item rest => cases item <;> simp [accesses, Scopes.Access.IsPop]
  | loop scope cond body => exact .inl (by simp [accesses, Scopes.Access.IsPop])
  | apply callee args l =>
    left
    cases callee with
    | builtin b => simp [accesses]
    | function ref d closure =>
      simp only [accesses]
      split
      · simp
      · simp only [callAccesses, paramAccesses, List.mem_cons, List.mem_append, List.mem_map]
        rintro a (rfl | ⟨p, -, rfl⟩ | rfl | ha)
        · exact id
        · exact id
        · exact id
        · cases ha
  | give v => cases stack with
    | nil => exact .inl (by simp [accesses])
    | cons f k => exact f.accesses_cases v
  | fail e => cases stack with
    | nil => exact .inl (by simp [accesses])
    | cons f k => exact f.closes_cases
  | _ => exact .inl (by simp [accesses])

/-- The scopes before a step and after it are one tree, with some scopes more or less. -/
theorem parents_step (limit : Nat) (s : State α) :
    s.scopes.parents <+: (s.step limit).scopes.parents ∨
      (s.step limit).scopes.parents <+: s.scopes.parents := by
  rw [scopes_step]
  rcases s.accesses_cases limit with hnone | ⟨id, hpop⟩
  · exact .inl (Scopes.parents_after hnone)
  · rw [hpop]
    exact .inr (Scopes.parents_after_pop _ id)

end State

theorem Fits.le_of_suffix {k k' : List (Frame α)} {n c n' c' : Nat} (h' : Fits k' n' c')
    (h : Fits k n c) (hk : k <:+ k') : n ≤ n' := by
  induction h' with
  | base =>
    obtain rfl := List.suffix_nil.mp hk
    exact Nat.le_of_eq (h.unique .base).1
  | leave h' ih =>
    rcases List.suffix_cons_iff.mp hk with rfl | hk
    · exact Nat.le_of_eq (h.unique h'.leave).1
    · exact Nat.le_succ_of_le (ih hk)
  | finish h' ih =>
    rcases List.suffix_cons_iff.mp hk with rfl | hk
    · exact Nat.le_of_eq (h.unique h'.finish).1
    · exact Nat.le_add_right_of_le (ih hk)
  | plain h' hf ih =>
    rcases List.suffix_cons_iff.mp hk with rfl | hk
    · exact Nat.le_of_eq (h.unique (h'.plain hf)).1
    · exact ih hk

namespace State

variable {limit : Nat} {s t : State α}

theorem Within.reaches (h : Within limit s t) : Reaches limit s t := by
  induction h with
  | entry => exact .refl
  | step _ _ ih => exact ih.step

/-- The scopes of the entry stay there as long as the frames of the entry wait. -/
theorem Within.parents (h : Within limit s t) (hs : s.Orderly limit) :
    s.scopes.parents <+: t.scopes.parents := by
  induction h with
  | entry => exact List.prefix_refl _
  | @step t ht hout ih =>
    rcases parents_step limit t with hmore | hless
    · exact ih.trans hmore
    · -- The stack still ends in the frames of the entry, so no scope of the entry was closed.
      have hnext := ht.step hout
      have hfits := (hnext.reaches.orderly hs).fits
      have hlength := hfits.le_of_suffix hs.fits hnext.stack_suffix
      rw [← Scopes.length_parents, ← Scopes.length_parents] at hlength
      exact List.prefix_of_prefix_length_le ih hless hlength

/-- When the answer comes, scopes and calls are those of the entry. -/
theorem Within.restored (h : Within limit s t) (hs : s.Orderly limit)
    (hstack : t.stack = s.stack) :
    t.scopes.depth = s.scopes.depth ∧ t.scopes.parents = s.scopes.parents ∧ t.depth = s.depth := by
  have hfits := (h.reaches.orderly hs).fits
  rw [hstack] at hfits
  obtain ⟨hscopes, hcalls⟩ := hfits.unique hs.fits
  refine ⟨hscopes, ?_, hcalls⟩
  refine ((h.parents hs).eq_of_length ?_).symm
  rw [Scopes.length_parents, Scopes.length_parents, hscopes]

/-- A run that ends has answered all that was begun. -/
theorem Reaches.exists_answer (h : Reaches limit s t) {r : Except (EvalError α) Value}
    (ht : t.outcome? = some r) :
    ∃ u, Within limit s u ∧ u.stack = s.stack ∧ u.control.Answers := by
  have hsplit : Within limit s t ∨
      ∃ u, Within limit s u ∧ u.stack = s.stack ∧ u.control.Answers := by
    clear ht
    induction h with
    | refl => exact .inl .entry
    | @step t _ ih =>
      rcases ih with hw | hdone
      · by_cases hout : t.stack = s.stack ∧ t.control.Answers
        · exact .inr ⟨t, hw, hout.1, hout.2⟩
        · exact .inl (hw.step fun hstack ha => hout ⟨hstack, ha⟩)
      · exact .inr hdone
  rcases hsplit with hw | hdone
  · obtain ⟨hstack, -⟩ := outcome?_eq_some ht
    have hsuffix := hw.stack_suffix
    rw [hstack] at hsuffix
    exact ⟨t, hw, hstack.trans (List.suffix_nil.mp hsuffix).symm, answers_of_outcome? ht⟩
  · exact hdone

end State

end Scriptlet
