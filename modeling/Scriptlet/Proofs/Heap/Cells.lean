import Scriptlet.Heap

/-!
The cells of a heap after each operation. Objects are made by `alloc` and changed by `modifyItems`;
all else only counts holders or frees.
-/

namespace Scriptlet

variable {α : Type}

namespace Heap

variable {h : Heap α}

@[simp] theorem cell?_empty (r : Nat) : (empty : Heap α).cell? r = none := by
  simp [cell?, empty]

theorem cell?_modify (h : Heap α) (r : Nat) (f : Cell α → Cell α) (x : Nat) :
    (h.modify r f).cell? x = if r = x then (h.cell? x).map f else h.cell? x := by
  simp only [cell?, modify, Array.getElem?_modify]
  split
  · cases h.cells[x]? with
    | none => rfl
    | some c => cases c <;> rfl
  · rfl

theorem cell?_free (h : Heap α) (r x : Nat) :
    (h.free r).cell? x = if r = x then none else h.cell? x := by
  simp only [cell?, free, Array.getElem?_setIfInBounds]
  split
  · split <;> rfl
  · rfl

theorem cell?_of_size_le {r : Nat} (hr : h.cells.size ≤ r) : h.cell? r = none := by
  simp [cell?, Array.getElem?_eq_none hr]

theorem cell?_alloc (h : Heap α) (o : Object α) (x : Nat) :
    (h.alloc o).2.cell? x = if h.cells.size = x then some ⟨1, o⟩ else h.cell? x := by
  simp only [cell?, alloc, Array.getElem?_push]
  split
  · rename_i hx
    rw [if_pos hx.symm]
    rfl
  · rename_i hx
    rw [if_neg fun he => hx he.symm]

def object? (h : Heap α) (r : Nat) : Option (Object α) := (h.cell? r).map Cell.object

@[simp] theorem object?_empty (r : Nat) : (empty : Heap α).object? r = none := by
  simp [object?]

theorem items?_congr {h' : Heap α} {r : Nat} (ho : h.object? r = h'.object? r) :
    h.items? r = h'.items? r := by
  unfold object? at ho
  unfold items?
  cases hc : h.cell? r with
  | none =>
    cases hc' : h'.cell? r with
    | none => rfl
    | some c' => simp [hc, hc'] at ho
  | some c =>
    cases hc' : h'.cell? r with
    | none => simp [hc, hc'] at ho
    | some c' =>
      obtain ⟨n, o⟩ := c
      obtain ⟨n', o'⟩ := c'
      obtain rfl : o = o' := by simpa [hc, hc'] using ho
      cases o <;> rfl

theorem object?_modify {r : Nat} {f : Cell α → Cell α} (hf : ∀ c, (f c).object = c.object)
    (x : Nat) : (h.modify r f).object? x = h.object? x := by
  rw [object?, object?, cell?_modify]
  split
  · cases h.cell? x <;> simp [hf]
  · rfl

theorem object?_retain (h : Heap α) (v : Value) (x : Nat) :
    (h.retain v).object? x = h.object? x := by
  unfold retain
  split
  · rfl
  · apply object?_modify
    intro c
    rfl

theorem items?_retain (h : Heap α) (v : Value) (r : Nat) : (h.retain v).items? r = h.items? r :=
  items?_congr (object?_retain h v r)

theorem cell?_of_items? {r : Nat} {items : Array Value} (hitems : h.items? r = some items) :
    ∃ n, h.cell? r = some ⟨n, .array items⟩ := by
  unfold items? at hitems
  split at hitems
  · rename_i n items' hc
    cases hitems
    exact ⟨n, hc⟩
  · cases hitems

theorem object?_free {r x : Nat} {o : Object α} (ho : (h.free r).object? x = some o) :
    h.object? x = some o := by
  rw [object?, cell?_free] at ho
  split at ho
  · cases ho
  · exact ho

theorem object?_unhold {v : Value} {x : Nat} {o : Object α}
    (ho : (h.unhold v).1.object? x = some o) : h.object? x = some o := by
  unfold unhold at ho
  split at ho
  · exact ho
  · split at ho
    · exact ho
    · split at ho
      · exact object?_free ho
      · rw [object?_modify] at ho
        · exact ho
        · intro c
          rfl

/-- Releasing values changes no object that stays. -/
theorem object?_releaseAll {vs : List Value} {x : Nat} {o : Object α}
    (ho : (h.releaseAll vs).object? x = some o) : h.object? x = some o := by
  fun_induction releaseAll h vs with
  | case1 h => exact ho
  | case2 h v vs freed ih => exact object?_unhold (ih ho)

theorem object?_retainAll (h : Heap α) (vs : List Value) (x : Nat) :
    (h.retainAll vs).object? x = h.object? x := by
  induction vs generalizing h with
  | nil => rfl
  | cons v vs ih => exact (ih (h.retain v)).trans (object?_retain h v x)

theorem object?_alloc (h : Heap α) (o : Object α) (x : Nat) :
    (h.alloc o).2.object? x = if h.cells.size = x then some o else h.object? x := by
  rw [object?, cell?_alloc]
  split <;> rfl

theorem object?_modifyItems {r : Nat} {f : Array Value → Array Value} {x : Nat} {o : Object α}
    (ho : (h.modifyItems r f).object? x = some o) :
    h.object? x = some o ∨ ∃ items, o = .array items := by
  rw [object?, modifyItems, cell?_modify] at ho
  split at ho
  · cases hc : h.cell? x with
    | none => simp [hc] at ho
    | some c =>
      obtain ⟨n, _ | items | _⟩ := c
      · rw [hc] at ho
        exact .inl (by rw [object?, hc]; exact ho)
      · rw [hc] at ho
        cases ho
        exact .inr ⟨_, rfl⟩
      · rw [hc] at ho
        exact .inl (by rw [object?, hc]; exact ho)
  · exact .inl ho

theorem function?_eq_some {r : Nat} {d : FunctionDef α} {closure : Nat} :
    h.function? r = some (d, closure) ↔ h.object? r = some (.function d closure) := by
  unfold function? object?
  cases h.cell? r with
  | none => simp
  | some c => obtain ⟨n, _ | _ | _⟩ := c <;> simp

end Heap

end Scriptlet
