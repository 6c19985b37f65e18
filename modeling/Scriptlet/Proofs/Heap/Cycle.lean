import Mathlib.Data.Fintype.Card
import Mathlib.Data.Fintype.EquivFin
import Mathlib.Logic.Relation
import Scriptlet.Proofs.Heap.Balance

/-!
What is left of a balanced heap when nobody outside holds anything any more: the arrays that
contain each other in a circle, and all that these contain.
-/

namespace Scriptlet

variable {α : Type}

namespace Heap

variable {h : Heap α} {ext vs : List Value}

/-- The object `b` is an element of the array `a`. -/
def Contains (h : Heap α) (a b : Nat) : Prop :=
  ∃ items, h.items? a = some items ∧ ∃ v ∈ items, v.ref? = some b

/-- The array `a` contains itself, directly or through other arrays. -/
def OnCycle (h : Heap α) (a : Nat) : Prop := Relation.TransGen h.Contains a a

/-- The object is on a cycle of arrays, or is reached from one through elements of arrays. -/
def CycleKept (h : Heap α) (r : Nat) : Prop :=
  ∃ a, h.OnCycle a ∧ Relation.ReflTransGen h.Contains a r

theorem Contains.of_object? {h' : Heap α} {a b : Nat} (hc : h.Contains a b)
    (ho : h.object? a = h'.object? a) : h'.Contains a b := by
  obtain ⟨items, hitems, hv⟩ := hc
  exact ⟨items, (items?_congr ho).symm.trans hitems, hv⟩

theorem Contains.isSome {a b : Nat} (hc : h.Contains a b) : (h.object? a).isSome := by
  obtain ⟨items, hitems, -⟩ := hc
  obtain ⟨n, hcell⟩ := cell?_of_items? hitems
  simp [object?, hcell]

theorem Contains.holders_pos {a b : Nat} (hc : h.Contains a b) : 0 < holders b h.contents := by
  obtain ⟨items, hitems, v, hv, hb⟩ := hc
  obtain ⟨n, hcell⟩ := cell?_of_items? hitems
  have hmem : v ∈ h.contents := contents_of_object hcell hv.val
  refine Nat.pos_of_ne_zero fun hzero => ?_
  exact holders_eq_zero.mp hzero v hmem hb

theorem contains_of_holders {b : Nat} (hpos : 0 < holders b h.contents) :
    ∃ a, h.Contains a b := by
  obtain ⟨v, hv, hb⟩ := List.countP_pos_iff.mp hpos
  obtain ⟨cell, hcell, hv⟩ := List.mem_flatMap.mp hv
  obtain ⟨a, ha⟩ := List.getElem?_of_mem hcell
  cases cell with
  | none => cases hv
  | some c =>
    obtain ⟨n, _ | items | _⟩ := c
    · cases hv
    · have hcell : h.cell? a = some ⟨n, .array items⟩ := by
        rw [Array.getElem?_toList] at ha
        rw [cell?, ha]
        rfl
      exact ⟨a, items, by rw [items?, hcell], v, ⟨hv⟩, by simpa using hb⟩
    · cases hv

/-! ### What holds itself up stays -/

/-- Every object of the set is contained in an array of the set. -/
def HoldsItself (h : Heap α) (kept : Nat → Prop) : Prop :=
  ∀ r, kept r → ∃ a, kept a ∧ h.Contains a r

theorem HoldsItself.of_object? {h' : Heap α} {kept : Nat → Prop} (hk : h.HoldsItself kept)
    (ho : ∀ r, kept r → h'.object? r = h.object? r) : h'.HoldsItself kept := by
  intro r hr
  obtain ⟨a, ha, hc⟩ := hk r hr
  exact ⟨a, ha, hc.of_object? (ho a ha).symm⟩

theorem HoldsItself.object?_unhold {kept : Nat → Prop} (hk : h.HoldsItself kept) {v : Value}
    (hb : h.Balanced (v :: ext)) {r : Nat} (hr : kept r) :
    (h.unhold v).1.object? r = h.object? r := by
  unfold unhold
  split
  · rfl
  · rename_i x hx
    split
    · rfl
    · rename_i c hc
      split
      · rename_i hle
        -- A kept object has at least two holders: this one and the array that contains it.
        have hne : ¬ x = r := by
          rintro rfl
          obtain ⟨a, -, ha⟩ := hk x hr
          have hpos := ha.holders_pos
          have hcount := hb.count x
          rw [countAt_of_cell? hc, holders_cons, if_pos hx] at hcount
          omega
        rw [object?, cell?_free, if_neg hne]
        rfl
      · apply object?_modify
        intro c
        rfl

theorem HoldsItself.object?_releaseAll {kept : Nat → Prop} (hk : h.HoldsItself kept)
    (hb : h.Balanced (vs ++ ext)) {r : Nat} (hr : kept r) :
    (h.releaseAll vs).object? r = h.object? r := by
  fun_induction releaseAll h vs with
  | case1 h => rfl
  | case2 h v vs freed ih =>
    have hsame : ∀ x, kept x → freed.1.object? x = h.object? x :=
      fun x hx => hk.object?_unhold hb hx
    have hfreed : freed.1.Balanced ((freed.2 ++ vs) ++ ext) := by
      rw [List.append_assoc]
      exact Balanced.unhold hb
    exact (ih (hk.of_object? hsame) hfreed).trans (hsame r hr)

theorem CycleKept.pred {r : Nat} (hr : h.CycleKept r) : ∃ a, h.CycleKept a ∧ h.Contains a r := by
  obtain ⟨a, hcycle, hpath⟩ := hr
  rcases Relation.ReflTransGen.cases_tail hpath with rfl | ⟨b, hab, hbr⟩
  · obtain ⟨b, hrb, hbr⟩ := Relation.TransGen.tail'_iff.mp hcycle
    exact ⟨b, ⟨r, hcycle, hrb⟩, hbr⟩
  · exact ⟨b, ⟨a, hcycle, hab⟩, hbr⟩

theorem holdsItself_cycleKept (h : Heap α) : h.HoldsItself h.CycleKept := fun _ hr => hr.pred

theorem CycleKept.mono {h' : Heap α} {r : Nat} (hr : h.CycleKept r)
    (hc : ∀ a b, h.Contains a b → h'.Contains a b) : h'.CycleKept r := by
  obtain ⟨a, hcycle, hpath⟩ := hr
  exact ⟨a, Relation.TransGen.mono hc _ _ hcycle, Relation.ReflTransGen.mono hc _ _ hpath⟩

/-! ### What stays is kept by a cycle -/

theorem Balanced.exists_contains (hb : h.Balanced []) {r : Nat} (hr : (h.object? r).isSome) :
    ∃ a, h.Contains a r := by
  obtain ⟨c, hc⟩ : ∃ c, h.cell? r = some c := by
    cases hc : h.cell? r with
    | none => simp [object?, hc] at hr
    | some c => exact ⟨c, rfl⟩
  have hcount := hb.count r
  have hpos := hb.positive r c hc
  rw [countAt_of_cell? hc, holders_nil, Nat.zero_add] at hcount
  exact contains_of_holders (by omega)

theorem lt_size_of_isSome {r : Nat} (hr : (h.object? r).isSome) : r < h.cells.size := by
  refine Nat.lt_of_not_le fun hle => ?_
  simp [object?, cell?_of_size_le hle] at hr

/-- The array `a` contains `b`, which is `r` or leads to it. -/
def LeadsTo (h : Heap α) (r : Nat) (a b : Fin h.cells.size) : Prop :=
  h.Contains a b ∧ Relation.ReflTransGen h.Contains b r

theorem wellFounded_leadsTo {r : Nat} (hnot : ¬ h.CycleKept r) :
    WellFounded (Relation.TransGen (h.LeadsTo r)) := by
  have hirrefl : Std.Irrefl (Relation.TransGen (h.LeadsTo r)) := by
    refine ⟨fun a hcycle => hnot ⟨a, ?_, ?_⟩⟩
    · exact Relation.TransGen.lift Fin.val (fun _ _ hab => hab.1) _ _ hcycle
    · obtain ⟨b, -, hba⟩ := Relation.TransGen.tail'_iff.mp hcycle
      exact hba.2
  exact Finite.wellFounded_of_trans_of_irrefl _

/-- The walk from an object to an array that contains it, to one that contains that, and so on
never ends, so in a heap without a cycle above the object there would be no room for it. -/
theorem Balanced.cycleKept (hb : h.Balanced []) {r : Nat} (hr : (h.object? r).isSome) :
    h.CycleKept r := by
  by_contra hnot
  have hnone : ∀ a : Fin h.cells.size, (h.object? a).isSome →
      Relation.ReflTransGen h.Contains a r → False := by
    intro a
    induction a using (wellFounded_leadsTo hnot).induction with
    | _ a ih =>
      intro ha hpath
      obtain ⟨b, hba⟩ := hb.exists_contains ha
      have hlt := lt_size_of_isSome hba.isSome
      exact ih ⟨b, hlt⟩ (.single ⟨hba, hpath⟩) hba.isSome (.head hba hpath)
  exact hnone ⟨r, lt_size_of_isSome hr⟩ hr .refl

/-- Once all that is held outside is let go of, the objects left are those kept by a cycle. -/
theorem Balanced.object?_releaseAll_isSome (hb : h.Balanced vs) (r : Nat) :
    ((h.releaseAll vs).object? r).isSome ↔ h.CycleKept r := by
  have hall : h.Balanced (vs ++ []) := by rwa [List.append_nil]
  constructor
  · intro hr
    refine (hall.releaseAll.cycleKept hr).mono fun a b hab => ?_
    obtain ⟨o, ho⟩ := Option.isSome_iff_exists.mp hab.isSome
    exact hab.of_object? (ho.trans (object?_releaseAll ho).symm)
  · intro hr
    obtain ⟨a, -, har⟩ := hr.pred
    have hpos := har.holders_pos
    have hcount := hb.count r
    rw [h.holdsItself_cycleKept.object?_releaseAll hall hr]
    cases hc : h.cell? r with
    | none =>
      rw [countAt_of_none hc] at hcount
      omega
    | some c => simp [object?, hc]

theorem cells_eq_map (h : Heap α) : h.cells.toList = (List.range h.cells.size).map h.cell? := by
  refine List.ext_getElem? fun r => ?_
  rw [List.getElem?_map, Array.getElem?_toList]
  by_cases hr : r < h.cells.size
  · rw [List.getElem?_range hr, Array.getElem?_eq_getElem hr]
    simp [cell?, hr]
  · have hle : h.cells.size ≤ r := Nat.le_of_not_lt hr
    rw [Array.getElem?_eq_none hle, List.getElem?_eq_none (by simpa using hle)]
    rfl

/-- The places with an object. -/
def places (h : Heap α) : List Nat :=
  (List.range h.cells.size).filter fun r => (h.cell? r).isSome

theorem mem_places {r : Nat} : r ∈ h.places ↔ (h.cell? r).isSome := by
  rw [places, List.mem_filter, List.mem_range, and_iff_right_iff_imp]
  intro hr
  exact lt_size_of_isSome (by simpa [object?] using hr)

theorem nodup_places (h : Heap α) : h.places.Nodup := List.nodup_range.filter _

theorem Balanced.live_eq (hb : h.Balanced ext) : h.live = h.places.length := by
  rw [hb.live, cells_eq_map, List.countP_map, places, ← List.countP_eq_length_filter]
  rfl

theorem releaseAll_append (h : Heap α) (vs ws : List Value) :
    h.releaseAll (vs ++ ws) = (h.releaseAll vs).releaseAll ws := by
  fun_induction releaseAll h vs with
  | case1 h => rfl
  | case2 h v vs freed ih =>
    rw [List.append_assoc] at ih
    rw [List.cons_append, releaseAll]
    exact ih

end Heap

end Scriptlet
