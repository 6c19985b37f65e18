import Scriptlet.Builtin
import Scriptlet.Proofs.Heap.Cells

/-!
Built-in functions make and change arrays and strings, never functions: whatever function object
is there after a call was there before.
-/

namespace Scriptlet

variable {α : Type}

namespace Heap

/-- Every function object of `h'` is in `h`. -/
def Inherits (h h' : Heap α) : Prop :=
  ∀ r d closure, h'.object? r = some (.function d closure) →
    h.object? r = some (.function d closure)

namespace Inherits

variable {h h' h'' : Heap α}

theorem refl (h : Heap α) : h.Inherits h := fun _ _ _ ho => ho

theorem trans (hh : h.Inherits h') (hh' : h'.Inherits h'') : h.Inherits h'' :=
  fun r d closure ho => hh r d closure (hh' r d closure ho)

theorem retain (h : Heap α) (v : Value) : h.Inherits (h.retain v) := by
  intro r d closure ho
  rwa [object?_retain] at ho

theorem releaseAll (h : Heap α) (vs : List Value) : h.Inherits (h.releaseAll vs) :=
  fun _ _ _ ho => object?_releaseAll ho

theorem modifyItems (h : Heap α) (r : Nat) (f : Array Value → Array Value) :
    h.Inherits (h.modifyItems r f) := by
  intro x d closure ho
  rcases object?_modifyItems ho with hold | ⟨items, hnew⟩
  · exact hold
  · cases hnew

theorem alloc (h : Heap α) {o : Object α} (ho : ∀ d closure, o ≠ .function d closure) :
    h.Inherits (h.alloc o).2 := by
  intro x d closure hx
  rw [object?_alloc] at hx
  split at hx
  · exact absurd (Option.some.inj hx) (ho d closure)
  · exact hx

end Inherits

/-- How a heap can come about from `h` while no function is defined. -/
inductive Worked (h : Heap α) : Heap α → Prop
  | refl : Worked h h
  | retain {h' : Heap α} (hw : Worked h h') (v : Value) : Worked h (h'.retain v)
  | releaseAll {h' : Heap α} (hw : Worked h h') (vs : List Value) : Worked h (h'.releaseAll vs)
  | modifyItems {h' : Heap α} (hw : Worked h h') (r : Nat) (f : Array Value → Array Value) :
    Worked h (h'.modifyItems r f)
  | alloc {h' : Heap α} (hw : Worked h h') {o : Object α}
    (ho : ∀ d closure, o ≠ .function d closure) : Worked h (h'.alloc o).2

namespace Worked

variable {h h' : Heap α}

theorem retainAll (hw : h.Worked h') (vs : List Value) : h.Worked (h'.retainAll vs) := by
  induction vs generalizing h' with
  | nil => exact hw
  | cons v vs ih => exact ih (hw.retain v)

theorem inherits (hw : h.Worked h') : h.Inherits h' := by
  induction hw with
  | refl => exact .refl h
  | retain _ v ih => exact ih.trans (.retain _ v)
  | releaseAll _ vs ih => exact ih.trans (.releaseAll _ vs)
  | modifyItems _ r f ih => exact ih.trans (.modifyItems _ r f)
  | alloc _ ho ih => exact ih.trans (.alloc _ ho)

end Worked

end Heap

namespace World

variable (w : World α)

theorem worked_newString (text : String) : w.heap.Worked (w.newString text).2.heap :=
  .alloc .refl (by simp)

theorem worked_newArray (items : List Value) : w.heap.Worked (w.newArray items).2.heap :=
  .alloc (.retainAll .refl items) (by simp)

theorem worked_write (text : String) : w.heap.Worked (w.write text).2.heap := by
  obtain ⟨heap, input, sink⟩ := w
  simp only [write]
  split <;> exact .refl

theorem worked_readInt : w.heap.Worked w.readInt.2.heap := by
  obtain ⟨heap, input, sink⟩ := w
  simp only [readInt]
  split
  · exact .refl
  · split <;> exact .refl

theorem worked_getItem (r : Nat) (index : Int64) : w.heap.Worked (w.getItem r index).2.heap := by
  unfold getItem
  simp only
  split
  · exact .refl
  · exact .retain .refl _

theorem worked_setItem (r : Nat) (index : Int64) (v : Value) :
    w.heap.Worked (w.setItem r index v).2.heap := by
  unfold setItem
  simp only
  split
  · exact .refl
  · exact .releaseAll (.modifyItems (.retain (.retain .refl v) v) _ _) _

theorem worked_pushItem (r : Nat) (v : Value) : w.heap.Worked (w.pushItem r v).2.heap :=
  .modifyItems (.retain (.retain .refl v) v) _ _

theorem worked_popItem (r : Nat) : w.heap.Worked (w.popItem r).2.heap := by
  unfold popItem
  split
  · exact .refl
  · exact .modifyItems .refl _ _

theorem worked_substring (r : Nat) (start stop : Int64) :
    w.heap.Worked (w.substring r start stop).2.heap := by
  unfold substring
  simp only
  split
  · exact w.worked_newString _
  · exact .refl

end World

namespace Builtin

theorem worked_body (b : Builtin) (args : List Value) (w : World α) :
    w.heap.Worked (b.body args w).2.heap := by
  unfold body
  split
  case h_1 => exact w.worked_write _
  case h_2 => exact w.worked_write _
  case h_3 => exact w.worked_readInt
  case h_4 => exact w.worked_newArray _
  case h_6 => exact w.worked_getItem _ _
  case h_7 => exact w.worked_setItem _ _ _
  case h_8 => exact w.worked_pushItem _ _
  case h_9 => exact w.worked_popItem _
  case h_10 => exact w.worked_substring _ _ _
  case h_11 => exact w.worked_newString _
  all_goals exact .refl

theorem worked_invoke (b : Builtin) (args : List Value) (w : World α) :
    w.heap.Worked (b.invoke args w).2.heap := by
  unfold invoke
  split
  · exact .refl
  · exact b.worked_body args w

theorem inherits_invoke (b : Builtin) (args : List Value) (w : World α) :
    w.heap.Inherits (b.invoke args w).2.heap := (b.worked_invoke args w).inherits

end Builtin

end Scriptlet
