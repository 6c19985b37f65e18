import Scriptlet.Scopes

/-!
The tree of scopes. As long as every scope but the first has its parent before it, a walk from any
scope that is there meets only scopes that are there and ends at the first.
-/

namespace Scriptlet

namespace Scopes

variable {s : Scopes}

/-- The parents of all scopes, in the order of the scopes. -/
def parents (s : Scopes) : List (Option Nat) := s.arena.toList.map Scope.parent

@[simp] theorem length_parents (s : Scopes) : s.parents.length = s.depth := by
  simp [parents, depth]

@[simp] theorem parents_push (s : Scopes) (p : Nat) :
    (s.push p).2.parents = s.parents ++ [some p] := by simp [parents, push]

@[simp] theorem depth_push (s : Scopes) (p : Nat) : (s.push p).2.depth = s.depth + 1 := by
  simp [depth, push]

@[simp] theorem parents_bind (s : Scopes) (id : Nat) (name : String) (v : Value) :
    (s.bind id name v).1.parents = s.parents := by
  unfold bind
  split
  · refine List.ext_getElem? fun i => ?_
    simp only [parents, modify, Array.toList_modify, List.getElem?_map, List.getElem?_modify]
    cases s.arena.toList[i]? with
    | none => rfl
    | some scope => by_cases hi : id = i <;> simp [hi]
  · rfl

@[simp] theorem depth_bind (s : Scopes) (id : Nat) (name : String) (v : Value) :
    (s.bind id name v).1.depth = s.depth := by
  rw [← length_parents, ← length_parents, parents_bind]

theorem parents_pop (s : Scopes) {id : Nat} (hid : 0 < id) :
    (s.pop id).1.parents = s.parents.take id := by
  have hne : id ≠ globalScope := Nat.ne_of_gt hid
  simp [pop, parents, hne, List.map_take]

theorem depth_pop (s : Scopes) {id : Nat} (hid : 0 < id) (hle : id ≤ s.depth) :
    (s.pop id).1.depth = id := by
  rw [← length_parents, parents_pop s hid, List.length_take, length_parents]
  omega

/-- The first scope has no parent, every other one has a parent before it. -/
structure Ordered (s : Scopes) : Prop where
  first : s.parents[0]? = some none
  parent : ∀ i, 0 < i → i < s.depth → ∃ p, p < i ∧ s.parents[i]? = some (some p)

theorem ordered_initial : initial.Ordered :=
  ⟨rfl, fun _ hi hlt => absurd hlt (Nat.not_lt.mpr hi)⟩

namespace Ordered

theorem depth_pos (h : s.Ordered) : 0 < s.depth := by
  have hlt := (List.getElem?_eq_some_iff.mp h.first).1
  rwa [length_parents] at hlt

theorem congr {t : Scopes} (h : s.Ordered) (hp : t.parents = s.parents) : t.Ordered := by
  refine ⟨by rw [hp]; exact h.first, fun i hi hlt => ?_⟩
  rw [← length_parents, hp, length_parents] at hlt
  rw [hp]
  exact h.parent i hi hlt

theorem bind (h : s.Ordered) (id : Nat) (name : String) (v : Value) :
    (s.bind id name v).1.Ordered := h.congr (s.parents_bind id name v)

theorem push (h : s.Ordered) {p : Nat} (hp : p < s.depth) : (s.push p).2.Ordered := by
  refine ⟨?_, fun i hi hlt => ?_⟩
  · rw [parents_push, List.getElem?_append_left (by rw [length_parents]; omega)]
    exact h.first
  · rw [depth_push] at hlt
    rw [parents_push]
    by_cases hold : i < s.depth
    · rw [List.getElem?_append_left (by rwa [length_parents])]
      exact h.parent i hi hold
    · obtain rfl : i = s.depth := by omega
      refine ⟨p, hp, ?_⟩
      rw [List.getElem?_append_right (by simp), length_parents]
      simp

theorem pop (h : s.Ordered) {id : Nat} (hid : 0 < id) : (s.pop id).1.Ordered := by
  refine ⟨?_, fun i hi hlt => ?_⟩
  · rw [parents_pop s hid, List.getElem?_take_of_lt hid]
    exact h.first
  · rw [← length_parents, parents_pop s hid, List.length_take, length_parents] at hlt
    rw [parents_pop s hid, List.getElem?_take_of_lt (by omega)]
    exact h.parent i hi (by omega)

end Ordered

/-- The scopes that a walk from `id` to its parent, the parent of that, and so on comes to. -/
inductive Visits (s : Scopes) (id : Nat) : Nat → Prop
  | here : Visits s id id
  | parent {i p : Nat} (h : Visits s id i) (hp : s.parents[i]? = some (some p)) : Visits s id p

/-- A walk from a scope that is there never leaves the scopes that are there. -/
theorem Visits.lt_depth {id i : Nat} (h : s.Visits id i) (ho : s.Ordered) (hid : id < s.depth) :
    i < s.depth := by
  induction h with
  | here => exact hid
  | @parent i p _ hp ih =>
    cases i with
    | zero => cases ho.first.symm.trans hp
    | succ i =>
      obtain ⟨q, hq, hpq⟩ := ho.parent (i + 1) (Nat.succ_pos i) ih
      cases hpq.symm.trans hp
      omega

theorem visits_of_resolveWithin {name : String} {n id owner : Nat}
    (h : s.resolveWithin name n id = some owner) : s.Visits id owner := by
  have hstart : ∀ {id i : Nat}, s.Visits id i → ∀ {n}, s.resolveWithin name n i = some owner →
      s.Visits id owner := by
    intro id i hi n
    induction n generalizing i with
    | zero => exact fun h => nomatch h
    | succ n ih =>
      intro h
      simp only [resolveWithin] at h
      split at h
      · cases h
      · rename_i scope hs
        split at h
        · cases h
          exact hi
        · split at h
          · cases h
          · rename_i p hp
            refine ih (hi.parent ?_) h
            simp [parents, Array.getElem?_toList, hs, hp]
  exact hstart .here h

theorem Visits.head {id i : Nat} (h : s.Visits id i) :
    i = id ∨ ∃ p, s.parents[id]? = some (some p) ∧ s.Visits p i := by
  induction h with
  | here => exact .inl rfl
  | @parent j q _ hq ih =>
    rcases ih with rfl | ⟨p, hp, hj⟩
    · exact .inr ⟨q, hq, .here⟩
    · exact .inr ⟨p, hp, hj.parent hq⟩

theorem find?_of_resolveWithin_none {name : String} (ho : s.Ordered) {n id : Nat} (hn : id < n)
    (hid : id < s.depth) (h : s.resolveWithin name n id = none) {i : Nat} (hi : s.Visits id i) :
    s.find? i name = none := by
  induction n generalizing id with
  | zero => omega
  | succ n ih =>
    have hs : s.arena[id]? = some s.arena[id] := Array.getElem?_eq_getElem hid
    simp only [resolveWithin, hs] at h
    split at h
    · cases h
    · rename_i hfind
      rcases hi.head with rfl | ⟨p, hp, hpi⟩
      · simpa [find?, hs] using hfind
      · have hparent : s.arena[id].parent = some p := by
          simpa [parents, Array.getElem?_toList, hs] using hp
        cases id with
        | zero => cases ho.first.symm.trans hp
        | succ id =>
          obtain ⟨q, hq, hpq⟩ := ho.parent (id + 1) (Nat.succ_pos id) hid
          cases hpq.symm.trans hp
          simp only [hparent] at h
          exact ih (by omega) (by omega) h hpi

/-- A walk ends without result only where no scope on it binds the name. -/
theorem resolve_eq_none {id : Nat} {name : String} (ho : s.Ordered) (hid : id < s.depth)
    (h : s.resolve id name = none) : ∀ i, s.Visits id i → s.find? i name = none :=
  fun _ hi => find?_of_resolveWithin_none ho hid hid h hi

/-- A search for a name that goes from scope to parent and comes to an end. -/
inductive Searches (s : Scopes) (name : String) : Nat → Option Nat → Prop
  | found {id : Nat} (h : s.defines id name) : Searches s name id (some id)
  | top {id : Nat} (h : s.defines id name = false) (hp : s.parents[id]? = some none) :
    Searches s name id none
  | parent {id p : Nat} {owner : Option Nat} (h : s.defines id name = false)
    (hp : s.parents[id]? = some (some p)) (hrest : Searches s name p owner) :
    Searches s name id owner

theorem Ordered.searches_resolveWithin (ho : s.Ordered) (name : String) {n id : Nat} (hn : id < n)
    (hid : id < s.depth) : s.Searches name id (s.resolveWithin name n id) := by
  induction n generalizing id with
  | zero => omega
  | succ n ih =>
    have hs : s.arena[id]? = some s.arena[id] := Array.getElem?_eq_getElem hid
    have hdefines : s.defines id name = (s.arena[id].bindings.find? name).isSome := by
      simp [defines, find?, hs]
    have hparents : s.parents[id]? = some s.arena[id].parent := by
      simp [parents, Array.getElem?_toList, hs]
    simp only [resolveWithin, hs, ← hdefines]
    by_cases hfound : s.defines id name = true
    · rw [if_pos hfound]
      exact .found hfound
    · rw [if_neg hfound]
      rw [Bool.not_eq_true] at hfound
      cases hparent : s.arena[id].parent with
      | none => exact .top hfound (hparents.trans (congrArg some hparent))
      | some p =>
        have hp : s.parents[id]? = some (some p) := hparents.trans (congrArg some hparent)
        have hlt : p < id := by
          cases id with
          | zero => cases ho.first.symm.trans hp
          | succ id =>
            obtain ⟨q, hq, hpq⟩ := ho.parent (id + 1) (Nat.succ_pos id) hid
            cases hpq.symm.trans hp
            exact hq
        exact .parent hfound hp (ih (by omega) (by omega))

theorem Ordered.searches_resolve (ho : s.Ordered) (name : String) {id : Nat} (hid : id < s.depth) :
    s.Searches name id (s.resolve id name) := ho.searches_resolveWithin name hid hid

end Scopes

end Scriptlet
