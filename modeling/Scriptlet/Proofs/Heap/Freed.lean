import Mathlib.Data.List.Nodup
import Scriptlet.Proofs.Builtin.Functions

/-!
The objects that were freed. Objects get the places of an array in the order of their making, and a
place is never given out again, so what is gone stays gone.
-/

namespace Scriptlet

variable {α : Type}

namespace Heap

/-- An object was made in the place `r`, and it is there no more. -/
def Gone (h : Heap α) (r : Nat) : Prop := r < h.cells.size ∧ (h.cell? r).isNone

instance (h : Heap α) : DecidablePred h.Gone := fun _ => inferInstanceAs (Decidable (_ ∧ _))

/-- What is gone in `h` is gone in `h'`. -/
def Later (h h' : Heap α) : Prop := ∀ r, h.Gone r → h'.Gone r

namespace Later

variable {h h' h'' : Heap α}

theorem refl (h : Heap α) : h.Later h := fun _ hr => hr

theorem trans (hh : h.Later h') (hh' : h'.Later h'') : h.Later h'' := fun r hr => hh' r (hh r hr)

theorem alloc (h : Heap α) (o : Object α) : h.Later (h.alloc o).2 := by
  rintro r ⟨hlt, hnone⟩
  have hsize : (h.alloc o).2.cells.size = h.cells.size + 1 := Array.size_push _
  refine ⟨by omega, ?_⟩
  rw [cell?_alloc, if_neg (by omega)]
  exact hnone

theorem modify (h : Heap α) (x : Nat) (f : Cell α → Cell α) : h.Later (h.modify x f) := by
  rintro r ⟨hlt, hnone⟩
  have hsize : (h.modify x f).cells.size = h.cells.size := Array.size_modify ..
  refine ⟨hsize ▸ hlt, ?_⟩
  rw [cell?_modify]
  split
  · simpa using hnone
  · exact hnone

theorem free (h : Heap α) (x : Nat) : h.Later (h.free x) := by
  rintro r ⟨hlt, hnone⟩
  have hsize : (h.free x).cells.size = h.cells.size := Array.size_setIfInBounds ..
  refine ⟨hsize ▸ hlt, ?_⟩
  rw [cell?_free]
  split
  · rfl
  · exact hnone

theorem retain (h : Heap α) (v : Value) : h.Later (h.retain v) := by
  unfold Heap.retain
  split
  · exact .refl h
  · exact .modify h _ _

theorem modifyItems (h : Heap α) (r : Nat) (f : Array Value → Array Value) :
    h.Later (h.modifyItems r f) := .modify h _ _

theorem unhold (h : Heap α) (v : Value) : h.Later (h.unhold v).1 := by
  unfold Heap.unhold
  split
  · exact .refl h
  · split
    · exact .refl h
    · split
      · exact .free h _
      · exact .modify h _ _

theorem releaseAll (h : Heap α) (vs : List Value) : h.Later (h.releaseAll vs) := by
  fun_induction Heap.releaseAll h vs with
  | case1 h => exact .refl h
  | case2 h v vs freed ih => exact (Later.unhold h v).trans ih

end Later

theorem Worked.later {h h' : Heap α} (hw : h.Worked h') : h.Later h' := by
  induction hw with
  | refl => exact .refl h
  | retain _ v ih => exact ih.trans (.retain _ v)
  | releaseAll _ vs ih => exact ih.trans (.releaseAll _ vs)
  | modifyItems _ r f ih => exact ih.trans (.modifyItems _ r f)
  | alloc _ _ ih => exact ih.trans (.alloc _ _)

/-- The objects that are gone in `h'` and were not so in `h`. -/
def freed (h h' : Heap α) : List Nat :=
  (List.range h'.cells.size).filter fun r => h'.Gone r ∧ ¬ h.Gone r

theorem count_freed (h h' : Heap α) (r : Nat) :
    (h.freed h').count r = if h'.Gone r ∧ ¬ h.Gone r then 1 else 0 := by
  have hmem : r ∈ h.freed h' ↔ h'.Gone r ∧ ¬ h.Gone r := by
    rw [freed, List.mem_filter, List.mem_range, decide_eq_true_iff]
    exact and_iff_right_of_imp fun hr => hr.1.1
  have hnodup : (h.freed h').Nodup := List.nodup_range.filter _
  rw [hnodup.count]
  exact if_congr hmem rfl rfl

end Heap

end Scriptlet
