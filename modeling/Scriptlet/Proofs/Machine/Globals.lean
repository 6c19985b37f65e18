import Scriptlet.Proofs.Machine.Exits
import Scriptlet.Proofs.Machine.Failures
import Scriptlet.Proofs.Scopes.Search

/-!
The global scope in the course of a run. It is never closed and never loses a name, every walk
through the scopes ends there, and item after item binds its name there.
-/

namespace Scriptlet

variable {α : Type}

theorem Bindings.isSome_find?_set (b : Bindings) (name other : String) (v : Value)
    (h : (b.find? other).isSome) : ((b.set name v).find? other).isSome := by
  by_cases hname : name = other
  · subst hname
    rw [find?_set]
    rfl
  · rw [find?_set_of_ne b hname]
    exact h

namespace Scopes

variable {s : Scopes} {id : Nat} {name other : String} {v : Value}

def Global (s : Scopes) (name : String) : Prop := s.defines globalScope name

theorem Global.bind (h : s.Global other) (id : Nat) (name : String) (v : Value) :
    (s.bind id name v).1.Global other := by
  unfold Scopes.bind
  split
  · unfold Global defines find? at h ⊢
    simp only [modify, Array.getElem?_modify]
    cases hs : s.arena[globalScope]? with
    | none => simp [hs] at h
    | some scope =>
      have hfound : (scope.bindings.find? other).isSome := by simpa [hs] using h
      by_cases hid : id = globalScope
      · simpa [hid, hs] using scope.bindings.isSome_find?_set name other v hfound
      · simpa [hid, hs] using hfound
  · exact h

theorem global_bind (hs : globalScope < s.depth) (name : String) (v : Value) :
    (s.bind globalScope name v).1.Global name := by
  rw [Global, defines, find?_bind hs]
  rfl

theorem Global.push (h : s.Global name) (parent : Nat) : (s.push parent).2.Global name := by
  unfold Global defines find? at h ⊢
  cases hs : s.arena[globalScope]? with
  | none => simp [hs] at h
  | some scope =>
    have hpush : (s.push parent).2.arena[globalScope]? = some scope := by
      obtain ⟨hlt, -⟩ := Array.getElem?_eq_some_iff.mp hs
      simp only [Scopes.push, Array.getElem?_push]
      rw [if_neg (Nat.ne_of_lt hlt)]
      exact hs
    rw [hpush]
    simpa [hs] using h

theorem Global.pop (h : s.Global name) (id : Nat) : (s.pop id).1.Global name := by
  unfold Global defines find? at h ⊢
  rw [globals_pop]
  exact h

theorem Global.perform (h : s.Global other) (a : Access) : (a.perform s).2.Global other := by
  cases a with
  | define id name v =>
    simp only [Access.perform, define]
    cases s.defines id name with
    | true => exact h
    | false => exact h.bind id name v
  | bind id name v => exact h.bind id name v
  | assign id name v =>
    simp only [Access.perform, assign]
    cases s.resolve id name with
    | none => exact h
    | some owner => exact h.bind owner name v
  | lookup id name =>
    simp only [Access.perform]
    split <;> exact h
  | push parent => exact h.push parent
  | pop id => exact h.pop id

theorem Global.after (h : s.Global name) (as : List Access) : (s.after as).Global name := by
  induction as generalizing s with
  | nil => exact h
  | cons a as ih => exact ih (h.perform a)

theorem Ordered.visits_global (h : s.Ordered) (hid : id < s.depth) : s.Visits id globalScope := by
  -- A parent has a smaller number than its child, so the walk comes down to zero.
  have hstep : ∀ i, i < s.depth → s.Visits id i → s.Visits id globalScope := by
    intro i
    induction i using Nat.strongRecOn with
    | ind i ih =>
      intro hi hvisits
      by_cases hzero : i = 0
      · rwa [hzero] at hvisits
      · obtain ⟨p, hp, hparent⟩ := h.parent i (by omega) hi
        exact ih p hp (by omega) (hvisits.parent hparent)
  exact hstep id hid .here

theorem Ordered.not_global (h : s.Ordered) (hid : id < s.depth)
    (hr : s.resolve id name = none) : ¬ s.Global name := by
  have hnone := resolve_eq_none h hid hr globalScope (h.visits_global hid)
  rw [Global, defines, hnone]
  simp

theorem global_withBuiltins (b : Builtin) : withBuiltins.Global b.name := by
  unfold Global
  cases b <;> decide +kernel

end Scopes

/-- The names that an item binds in the global scope. -/
def Item.globals : Item α → List String
  | .function d => [d.name]
  | .stmt (.declare id _) => [id.name]
  | .stmt _ => []

namespace State

variable {limit : Nat} {s t u : State α} {items done rest : List (Item α)} {name : String}

theorem global_step (limit : Nat) (h : s.scopes.Global name) :
    (s.step limit).scopes.Global name := by
  rw [scopes_step]
  exact h.after _

theorem Reaches.global (h : Reaches limit s t) (hs : s.scopes.Global name) :
    t.scopes.Global name := by
  induction h with
  | refl => exact hs
  | step _ ih => exact global_step limit ih

def Bound (items : List (Item α)) (s : State α) : Prop :=
  ∀ item ∈ items, ∀ name ∈ item.globals, s.scopes.Global name

theorem Bound.reaches (h : s.Bound items) (ht : Reaches limit s t) : t.Bound items :=
  fun item hitem name hname => ht.global (h item hitem name hname)

theorem Bound.append_one (h : s.Bound items) {item : Item α}
    (hitem : ∀ name ∈ item.globals, s.scopes.Global name) : s.Bound (items ++ [item]) := by
  intro i hi
  rcases List.mem_append.mp hi with hold | hnew
  · exact h i hold
  · rw [List.mem_singleton.mp hnew]
    exact hitem

theorem Within.of_declare {id : Identifier α} {l : α} (h : Within limit s t)
    (hs : s.control = .exec Scopes.globalScope (.declare id l)) : t = s ∨ t = s.step limit := by
  have hanswer : (s.step limit).stack = s.stack ∧ (s.step limit).control.Answers := by
    obtain ⟨control, stack, scopes, depth, world⟩ := s
    obtain rfl : control = _ := hs
    simp only [State.step, exec]
    split
    · exact ⟨rfl, trivial⟩
    · exact ⟨rfl, trivial⟩
  induction h with
  | entry => exact .inl rfl
  | @step t _ hout ih =>
    rcases ih with rfl | rfl
    · exact .inr rfl
    · exact absurd hanswer.2 (hout hanswer.1)

theorem global_of_declare {id : Identifier α} {l : α} {v : Value}
    (hs : s.control = .exec Scopes.globalScope (.declare id l)) (hpos : 0 < s.scopes.depth)
    (hv : (s.step limit).control = .give v) : (s.step limit).scopes.Global id.name := by
  obtain ⟨control, stack, scopes, depth, world⟩ := s
  obtain rfl : control = _ := hs
  simp only [step, exec] at hv ⊢
  split at hv
  · cases hv
  · rename_i hnew
    rw [if_neg hnew]
    exact Scopes.global_bind hpos id.name _

/-- Where a run stands in the list of its items: between two of them, in the middle of one, or at
its end. -/
inductive Course (limit : Nat) (items : List (Item α)) (s : State α) : Prop
  | between {done rest : List (Item α)} {last : Value} (hk : s.stack = [])
    (hc : s.control = .items rest last) (hitems : items = done ++ rest) (hbound : s.Bound done)
  | during {entry : State α} {done rest : List (Item α)} {st : Stmt α}
    (hk : entry.stack = [.nextItem rest]) (hc : entry.control = .exec Scopes.globalScope st)
    (hitems : items = done ++ .stmt st :: rest) (hbound : entry.Bound done)
    (hpos : 0 < entry.scopes.depth) (hwithin : Within limit entry s)
  | ended (hk : s.stack = []) (ha : s.control.Answers)

theorem Within.globals {entry : State α} {st : Stmt α} {v : Value} (h : Within limit entry s)
    (hc : entry.control = .exec Scopes.globalScope st) (hpos : 0 < entry.scopes.depth)
    (hv : s.control = .give v) : ∀ name ∈ (Item.stmt st).globals, s.scopes.Global name := by
  intro name hname
  cases st with
  | declare id l =>
    obtain rfl := List.mem_singleton.mp hname
    rcases h.of_declare hc with rfl | rfl
    · rw [hc] at hv
      cases hv
    · exact global_of_declare hc hpos hv
  | _ => cases hname

theorem Course.step (h : s.Course limit items) (ho : s.Orderly limit) :
    (s.step limit).Course limit items := by
  cases h with
  | @between done rest last hk hc hitems hbound =>
    obtain ⟨control, stack, scopes, depth, world⟩ := s
    obtain rfl : stack = [] := hk
    obtain rfl : control = _ := hc
    have hafter : Bound done (step limit ⟨.items rest last, [], scopes, depth, world⟩) :=
      hbound.reaches (.step .refl)
    cases rest with
    | nil => exact .ended rfl trivial
    | cons item rest =>
      have happend : items = done ++ [item] ++ rest := by rw [hitems]; simp
      cases item with
      | function d =>
        refine .between rfl rfl happend (hafter.append_one fun name hname => ?_)
        obtain rfl := List.mem_singleton.mp hname
        exact Scopes.global_bind ho.scopes.depth_pos d.name _
      | stmt st => exact .during rfl rfl hitems hafter ho.scopes.depth_pos .entry
  | @during entry done rest st hk hc hitems hbound hpos hwithin =>
    -- The statement has answered, or the step still belongs to it.
    by_cases hout : s.stack = entry.stack ∧ s.control.Answers
    · obtain ⟨control, stack, scopes, depth, world⟩ := s
      obtain rfl : stack = [.nextItem rest] := hout.1.trans hk
      cases control with
      | give v =>
        have hglobals := hwithin.globals hc hpos rfl
        have happend : items = done ++ [.stmt st] ++ rest := by rw [hitems]; simp
        have hdone := (hbound.reaches hwithin.reaches).append_one hglobals
        exact .between rfl rfl happend hdone
      | fail e => exact .ended rfl trivial
      | _ => exact hout.2.elim
    · exact .during hk hc hitems hbound hpos (hwithin.step fun hstack ha => hout ⟨hstack, ha⟩)
  | ended hk ha =>
    obtain ⟨control, stack, scopes, depth, world⟩ := s
    obtain rfl : stack = [] := hk
    cases control with
    | give v => exact .ended rfl trivial
    | fail e => exact .ended rfl trivial
    | _ => exact ha.elim

theorem Reaches.course (h : Reaches limit s t) (hs : s.Course limit items)
    (ho : s.Orderly limit) : t.Course limit items := by
  induction h with
  | refl => exact hs
  | step hreach ih => exact ih.step (hreach.orderly ho)

/-- Between two items, those that are still to be executed. -/
def itemsLeft? (s : State α) : Option (List (Item α)) :=
  match s.stack, s.control with
  | [], .items rest _ => some rest
  | _, _ => none

theorem Course.exists_done (h : s.Course limit items) (hleft : s.itemsLeft? = some rest) :
    ∃ done, items = done ++ rest ∧ s.Bound done := by
  unfold itemsLeft? at hleft
  split at hleft
  · rename_i rest' last hk hc
    cases hleft
    cases h with
    | @between done _ _ _ hc' hitems hbound =>
      cases hc.symm.trans hc'
      exact ⟨done, hitems, hbound⟩
    | during hk' _ _ _ _ hwithin =>
      have hsuffix := hwithin.stack_suffix
      rw [hk, hk'] at hsuffix
      cases List.suffix_nil.mp hsuffix
    | ended _ ha =>
      rw [hc] at ha
      exact ha.elim
  · cases hleft

end State

end Scriptlet
