import Mathlib.Data.List.Perm.Subperm
import Scriptlet.Heap.Render
import Scriptlet.Proofs.Heap.Cells

/-!
Texts of values without a bound on the depth. An array inside itself is written by a mark, so the
arrays that are open are all different, and there are no more of them than places in the heap: the
depth that a text is written to is never used up. The list of open arrays is behind each value what
it was before it.
-/

namespace Scriptlet.Heap

variable {α : Type} {h : Heap α}

/-! ### The list of open arrays -/

/-- The text of a value inside the arrays `opened`, down to a depth of `n` arrays. -/
def textWithin (h : Heap α) : Nat → List Nat → Value → String
  | n + 1, opened, .array r =>
    if r ∈ opened then "[...]"
    else
      let texts := (h.items r).toList.map (h.textWithin n (r :: opened))
      "[" ++ String.intercalate ", " texts ++ "]"
  | _, _, v => h.plainText v

theorem run_mapM_of_restores {σ β γ : Type} {f : β → StateM σ γ} {g : β → γ} {s : σ}
    (hf : ∀ x, (f x).run s = (g x, s)) (xs : List β) : (xs.mapM f).run s = (xs.map g, s) := by
  induction xs with
  | nil => rfl
  | cons x xs ih =>
    have hrest : (xs.mapM f >>= fun ys => pure (g x :: ys)).run s = (g x :: xs.map g, s) := by
      rw [StateT.run_bind, ih]
      rfl
    rw [List.mapM_cons, StateT.run_bind, hf]
    exact hrest

/-- Writing a value leaves the list of open arrays as it was. -/
theorem renderWithin_run (h : Heap α) (n : Nat) (opened : List Nat) (v : Value) :
    (h.renderWithin n v).run opened = (h.textWithin n opened v, opened) := by
  induction n generalizing opened v with
  | zero => rfl
  | succ n ih =>
    cases v with
    | array r =>
      have hitems := run_mapM_of_restores (ih (r :: opened)) (h.items r).toList
      rw [renderWithin, textWithin, StateT.run_bind, StateT.run_get, pure_bind]
      by_cases hopen : r ∈ opened
      · rw [if_pos hopen, if_pos hopen]
        rfl
      · -- The array is put on the list, which its elements leave as it is, and taken off again.
        rw [if_neg hopen, if_neg hopen, StateT.run_bind]
        change (List.mapM _ _ >>= _ : StateM _ _).run (r :: opened) = _
        rw [StateT.run_bind, hitems]
        rfl
    | _ => rfl

theorem render_eq (h : Heap α) (v : Value) :
    h.render v = h.textWithin (h.cells.size + 1) [] v :=
  congrArg Prod.fst (h.renderWithin_run _ [] v)

/-! ### Room for the open arrays -/

/-- The arrays `opened` are different objects of the heap, and `n` more do not fit in it. -/
structure Room (h : Heap α) (n : Nat) (opened : List Nat) : Prop where
  nodup : opened.Nodup
  lt_size : ∀ r ∈ opened, r < h.cells.size
  enough : h.cells.size < n + opened.length

namespace Room

variable {n r : Nat} {opened : List Nat}

theorem pos (hr : h.Room n opened) : 0 < n := by
  have hsub : opened ⊆ List.range h.cells.size := fun r hm => List.mem_range.mpr (hr.lt_size r hm)
  have hle := (List.subperm_of_subset hr.nodup hsub).length_le
  have henough := hr.enough
  rw [List.length_range] at hle
  omega

theorem cons (hr : h.Room (n + 1) opened) (hnew : r ∉ opened) (hlt : r < h.cells.size) :
    h.Room n (r :: opened) := by
  have henough := hr.enough
  refine ⟨List.nodup_cons.mpr ⟨hnew, hr.nodup⟩, fun x hx => ?_, ?_⟩
  · rcases List.mem_cons.mp hx with rfl | hx
    · exact hlt
    · exact hr.lt_size x hx
  · rw [List.length_cons]
    omega

end Room

theorem room_nil (h : Heap α) : h.Room (h.cells.size + 1) [] :=
  ⟨List.nodup_nil, List.forall_mem_nil _, Nat.lt_succ_self _⟩

/-! ### Texts without a depth -/

/-- The texts that values have inside the arrays `opened`. -/
inductive Writes (h : Heap α) : List Nat → Value → String → Prop
  | plain {opened : List Nat} {v : Value} (hv : v.kind ≠ .array) : Writes h opened v (h.plainText v)
  | again {opened : List Nat} {r : Nat} (hr : r ∈ opened) : Writes h opened (.array r) "[...]"
  | array {opened : List Nat} {r : Nat} (text : Value → String) (hr : r ∉ opened)
    (hitems : ∀ v ∈ (h.items r).toList, Writes h (r :: opened) v (text v)) :
    Writes h opened (.array r)
      ("[" ++ String.intercalate ", " ((h.items r).toList.map text) ++ "]")

theorem items_of_size_le {r : Nat} (hr : h.cells.size ≤ r) : h.items r = #[] := by
  simp [items, items?, cell?_of_size_le hr]

theorem writes_textWithin {n : Nat} {opened : List Nat} (hroom : h.Room n opened) (v : Value) :
    h.Writes opened v (h.textWithin n opened v) := by
  induction n generalizing opened v with
  | zero => exact absurd hroom.pos (Nat.lt_irrefl 0)
  | succ n ih =>
    cases v with
    | array r =>
      rw [textWithin]
      by_cases hopen : r ∈ opened
      · rw [if_pos hopen]
        exact .again hopen
      · rw [if_neg hopen]
        refine .array _ hopen fun v hv => ?_
        have hlt : r < h.cells.size := by
          refine Nat.lt_of_not_le fun hle => ?_
          simp [items_of_size_le hle] at hv
        exact ih (hroom.cons hopen hlt) v
    | _ => exact .plain (by simp [Value.kind])

/-- Every value has a text, whatever holds whatever, and that is how it is shown. -/
theorem writes_render (h : Heap α) (v : Value) : h.Writes [] v (h.render v) :=
  h.render_eq v ▸ writes_textWithin h.room_nil v

end Scriptlet.Heap
