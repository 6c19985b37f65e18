import Scriptlet.Proofs.Scopes.Likeness

/-!
An empty scope is as good as none. With its parent in its place it can be left out of the list:
the later scopes move up by one, and every question is answered as before.
-/

namespace Scriptlet

/-- The place of an empty scope, and its parent. -/
structure Padding where
  place : Nat
  parent : Nat
  lt : parent < place

namespace Padding

variable (P : Padding) {i j n : Nat}

/-- The place of a scope when the empty one is left out. -/
def skip (i : Nat) : Nat := if i < P.place then i else if i = P.place then P.parent else i - 1

theorem skip_of_lt (h : i < P.place) : P.skip i = i := if_pos h

theorem skip_place : P.skip P.place = P.parent := by simp [skip]

theorem skip_of_gt (h : P.place < i) : P.skip i = i - 1 := by
  rw [skip, if_neg (by omega), if_neg (by omega)]

theorem skip_global : P.skip Scopes.globalScope = Scopes.globalScope :=
  P.skip_of_lt (Nat.lt_of_le_of_lt (Nat.zero_le _) P.lt)

theorem skip_lt_iff (h : P.place ≤ n) : P.skip i < n ↔ i < n + 1 := by
  have hlt := P.lt
  unfold skip
  split
  · omega
  · split <;> omega

theorem skip_eq_iff (hi : i ≠ P.place) (hj : j ≠ P.place) : P.skip i = P.skip j ↔ i = j := by
  rw [skip, skip, if_neg hi, if_neg hj]
  split
  · split <;> omega
  · split <;> omega

end Padding

def Scope.skip (P : Padding) (f : Scope) : Scope := ⟨f.bindings, f.parent.map P.skip⟩

namespace Scopes

variable {P : Padding} {s t : Scopes} {i id : Nat} {name : String}

theorem Ordered.parent_lt (h : s.Ordered) {f : Scope} {p : Nat} (hf : s.arena[i]? = some f)
    (hp : f.parent = some p) : p < i := by
  have hlt : i < s.depth := (Array.getElem?_eq_some_iff.mp hf).1
  have hparent : s.parents[i]? = some (some p) := by simp [parents, hf, hp]
  cases i with
  | zero => cases h.first.symm.trans hparent
  | succ i =>
    obtain ⟨q, hq, hpq⟩ := h.parent (i + 1) (Nat.succ_pos i) hlt
    cases hpq.symm.trans hparent
    exact hq

/-- What is there before the empty scope knows nothing of it. -/
theorem Ordered.map_skip (h : s.Ordered) (hi : i ≤ P.place) :
    s.arena[i]?.map (Scope.skip P) = s.arena[i]? := by
  cases hf : s.arena[i]? with
  | none => rfl
  | some f =>
    have hparent : f.parent.map P.skip = f.parent := by
      cases hp : f.parent with
      | none => rfl
      | some p =>
        have hlt := h.parent_lt hf hp
        rw [Option.map_some, P.skip_of_lt (by omega)]
    rw [Option.map_some, Scope.skip, hparent]

theorem Searches.unique {owner owner' : Option Nat} (h : s.Searches name id owner)
    (h' : s.Searches name id owner') : owner = owner' := by
  induction h with
  | found hd =>
    cases h' with
    | found _ => rfl
    | top hd' _ => simp [hd] at hd'
    | parent hd' _ _ => simp [hd] at hd'
  | top hd hp =>
    cases h' with
    | found hd' => simp [hd] at hd'
    | top _ _ => rfl
    | parent _ hp' _ => cases hp.symm.trans hp'
  | parent hd hp _ ih =>
    cases h' with
    | found hd' => simp [hd] at hd'
    | top _ hp' => cases hp.symm.trans hp'
    | parent _ hp' hrest' =>
      cases hp.symm.trans hp'
      exact ih hrest'

theorem Searches.defines {owner : Nat} (h : s.Searches name id (some owner)) :
    s.defines owner name := by
  generalize hx : some owner = x at h
  induction h with
  | found hd =>
    cases hx
    exact hd
  | top _ _ => cases hx
  | parent _ _ _ ih => exact ih hx

/-- The scopes `t` are the scopes `s` without an empty one. -/
structure Padded (P : Padding) (s t : Scopes) : Prop where
  place_le : P.place ≤ t.depth
  depth : s.depth = t.depth + 1
  pad : s.arena[P.place]? = some ⟨[], some P.parent⟩
  scope : ∀ i, i ≠ P.place → t.arena[P.skip i]? = s.arena[i]?.map (Scope.skip P)

/-- So it is after an empty scope is opened. -/
theorem Ordered.padded (h : s.Ordered) {p : Nat} (hp : p < s.depth) :
    Padded ⟨s.depth, p, hp⟩ (s.push p).2 s where
  place_le := Nat.le_refl _
  depth := s.depth_push p
  pad := by rw [getElem?_push, if_pos rfl]
  scope i hi := by
    rw [getElem?_push, if_neg hi]
    rcases Nat.lt_or_gt_of_ne hi with hlt | hgt
    · rw [Padding.skip_of_lt _ hlt]
      exact (h.map_skip (P := ⟨s.depth, p, hp⟩) (Nat.le_of_lt hlt)).symm
    · have hle : s.arena.size ≤ i - 1 := Nat.le_sub_one_of_lt hgt
      rw [Padding.skip_of_gt _ hgt, Array.getElem?_eq_none hle,
        Array.getElem?_eq_none (Nat.le_of_lt hgt)]
      rfl

namespace Padded

variable (h : Padded P s t)
include h

theorem skip_lt (hi : i < s.depth) : P.skip i < t.depth :=
  (P.skip_lt_iff h.place_le).mpr (h.depth ▸ hi)

theorem skip_depth : P.skip s.depth = t.depth := by
  have hle := h.place_le
  rw [h.depth, P.skip_of_gt (by omega), Nat.add_sub_cancel]

theorem place_lt : P.place < s.depth := by
  rw [h.depth]
  exact Nat.lt_succ_of_le h.place_le

theorem ne_depth : s.depth ≠ P.place := Nat.ne_of_gt h.place_lt

theorem find? (hi : i ≠ P.place) (name : String) : t.find? (P.skip i) name = s.find? i name := by
  rw [Scopes.find?, Scopes.find?, h.scope i hi]
  cases s.arena[i]? <;> rfl

theorem defines (hi : i ≠ P.place) (name : String) :
    t.defines (P.skip i) name = s.defines i name := by
  rw [Scopes.defines, Scopes.defines, h.find? hi]

theorem not_defines (name : String) : s.defines P.place name = false := by
  rw [Scopes.defines, Scopes.find?, h.pad]
  rfl

theorem parents (hi : i ≠ P.place) :
    t.parents[P.skip i]? = s.parents[i]?.map (Option.map P.skip) := by
  simp only [Scopes.parents, List.getElem?_map, Array.getElem?_toList, h.scope i hi]
  cases s.arena[i]? <;> rfl

theorem searches {owner : Option Nat} (hs : s.Searches name id owner) :
    t.Searches name (P.skip id) (owner.map P.skip) := by
  have hpad : s.parents[P.place]? = some (some P.parent) := by
    simp [Scopes.parents, Array.getElem?_toList, h.pad]
  induction hs with
  | found hd =>
    refine .found ?_
    rw [h.defines fun hid => ?_]
    · exact hd
    · rw [hid, h.not_defines] at hd
      cases hd
  | @top id hd hp =>
    have hid : id ≠ P.place := by
      rintro rfl
      cases hpad.symm.trans hp
    exact .top (by rw [h.defines hid, hd]) (by rw [h.parents hid, hp]; rfl)
  | @parent id p owner hd hp _ ih =>
    by_cases hid : id = P.place
    · -- The search passes the empty scope by.
      subst hid
      cases hpad.symm.trans hp
      rw [P.skip_of_lt P.lt] at ih
      rwa [P.skip_place]
    · exact .parent (by rw [h.defines hid, hd]) (by rw [h.parents hid, hp]; rfl) ih

variable (hs : s.Ordered) (ht : t.Ordered)
include hs ht

theorem resolve (hid : id < s.depth) (name : String) :
    t.resolve (P.skip id) name = (s.resolve id name).map P.skip :=
  (ht.searches_resolve name (h.skip_lt hid)).unique (h.searches (hs.searches_resolve name hid))

omit ht in
theorem owner_ne (hid : id < s.depth) {owner : Nat} (howner : s.resolve id name = some owner) :
    owner ≠ P.place := by
  rintro rfl
  have hsearch := hs.searches_resolve name hid
  rw [howner] at hsearch
  exact absurd hsearch.defines (by simp [h.not_defines])

theorem lookup (hid : id < s.depth) (name : String) :
    t.lookup (P.skip id) name = s.lookup id name := by
  unfold Scopes.lookup
  rw [h.resolve hs ht hid]
  cases howner : s.resolve id name with
  | none => rfl
  | some owner => exact h.find? (h.owner_ne hs hid howner) name

omit hs ht

/-! ### The operations -/

theorem bind (hi : i ≠ P.place) (name : String) (v : Value) :
    Padded P (s.bind i name v).1 (t.bind (P.skip i) name v).1 ∧
      (t.bind (P.skip i) name v).2 = (s.bind i name v).2 := by
  refine ⟨⟨?_, ?_, ?_, fun j hj => ?_⟩, ?_⟩
  · rw [depth_bind]
    exact h.place_le
  · rw [depth_bind, depth_bind, h.depth]
  · rw [getElem?_bind, if_neg hi, h.pad]
  · rw [getElem?_bind, getElem?_bind, h.scope j hj]
    by_cases hij : i = j
    · rw [if_pos hij, if_pos ((P.skip_eq_iff hi hj).mpr hij)]
      cases s.arena[j]? <;> rfl
    · rw [if_neg hij, if_neg fun hskip => hij ((P.skip_eq_iff hi hj).mp hskip)]
  · have hlt : P.skip i < t.depth ↔ i < s.depth := by
      rw [P.skip_lt_iff h.place_le, h.depth]
    unfold Scopes.bind
    by_cases hlive : i < s.depth
    · rw [if_pos hlive, if_pos (hlt.mpr hlive), h.find? hi]
    · rw [if_neg hlive, if_neg fun hskip => hlive (hlt.mp hskip)]

theorem push (p : Nat) : Padded P (s.push p).2 (t.push (P.skip p)).2 where
  place_le := by
    rw [depth_push]
    exact Nat.le_succ_of_le h.place_le
  depth := by rw [depth_push, depth_push, h.depth]
  pad := by rw [getElem?_push, if_neg h.ne_depth.symm, h.pad]
  scope i hi := by
    have hiff : P.skip i = t.depth ↔ i = s.depth := by
      rw [← h.skip_depth, P.skip_eq_iff hi h.ne_depth]
    rw [getElem?_push, getElem?_push, h.scope i hi]
    by_cases hnew : i = s.depth
    · rw [if_pos hnew, if_pos (hiff.mpr hnew)]
      rfl
    · rw [if_neg hnew, if_neg fun hskip => hnew (hiff.mp hskip)]

theorem drop_toList (hid : P.place < id) :
    t.arena.toList.drop (P.skip id) = (s.arena.toList.drop id).map (Scope.skip P) := by
  refine List.ext_getElem? fun n => ?_
  have hskip : P.skip (id + n) = P.skip id + n := by
    rw [P.skip_of_gt (by omega), P.skip_of_gt hid]
    omega
  rw [List.getElem?_drop, List.getElem?_map, List.getElem?_drop, Array.getElem?_toList,
    Array.getElem?_toList, ← hskip, h.scope _ (by omega)]

theorem pop (hid : P.place < id) (hle : id ≤ s.depth) :
    Padded P (s.pop id).1 (t.pop (P.skip id)).1 ∧ (t.pop (P.skip id)).2 = (s.pop id).2 := by
  have hlt := P.lt
  have hdepth := h.depth
  have hskip := P.skip_of_gt hid
  have hpos : 0 < id := by omega
  have hpos' : 0 < P.skip id := by omega
  have hnew : (t.pop (P.skip id)).1.depth = P.skip id := depth_pop t hpos' (by omega)
  refine ⟨⟨?_, ?_, ?_, fun i hi => ?_⟩, ?_⟩
  · rw [hnew]
    omega
  · rw [hnew, depth_pop s hpos hle]
    omega
  · rw [getElem?_pop s hpos, if_pos hid, h.pad]
  · have hiff : P.skip i < P.skip id ↔ i < id := by
      rw [P.skip_lt_iff (by omega)]
      omega
    rw [getElem?_pop s hpos, getElem?_pop t hpos', h.scope i hi]
    by_cases hlow : i < id
    · rw [if_pos hlow, if_pos (hiff.mpr hlow)]
    · rw [if_neg hlow, if_neg fun hx => hlow (hiff.mp hx)]
      rfl
  · rw [freed_pop s hpos, freed_pop t hpos', h.drop_toList hid, List.flatMap_map]
    rfl

/-- Closing the empty scope leaves the others, and lets go of nothing. -/
theorem pop_place (hs : s.Ordered) (hlast : s.depth = P.place + 1) : s.pop P.place = (t, []) := by
  have hpos : 0 < P.place := Nat.lt_of_le_of_lt (Nat.zero_le _) P.lt
  have hdepth : t.depth = P.place := Nat.succ.inj (h.depth.symm.trans hlast)
  have harena : (s.pop P.place).1.arena = t.arena := by
    refine Array.ext_getElem? fun i => ?_
    rw [getElem?_pop s hpos]
    by_cases hi : i < P.place
    · have hscope := h.scope i (Nat.ne_of_lt hi)
      rw [P.skip_of_lt hi, hs.map_skip (Nat.le_of_lt hi)] at hscope
      rw [if_pos hi, hscope]
    · have hle : t.arena.size ≤ i := Nat.le_trans (Nat.le_of_eq hdepth) (Nat.le_of_not_lt hi)
      rw [if_neg hi, Array.getElem?_eq_none hle]
  have hfreed : (s.pop P.place).2 = [] := by
    have hpad : s.arena.toList[P.place]? = some ⟨[], some P.parent⟩ := by
      rw [Array.getElem?_toList, h.pad]
    obtain ⟨hlt, hget⟩ := List.getElem?_eq_some_iff.mp hpad
    have hend : s.arena.toList.drop (P.place + 1) = [] := by
      refine List.drop_of_length_le ?_
      rw [Array.length_toList]
      exact Nat.le_of_eq hlast
    rw [freed_pop s hpos, List.drop_eq_getElem_cons hlt, hend, hget]
    rfl
  exact Prod.ext (congrArg Scopes.mk harena) hfreed

end Padded

end Scopes

end Scriptlet
