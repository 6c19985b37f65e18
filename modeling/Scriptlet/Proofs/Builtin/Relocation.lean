import Scriptlet.Builtin
import Scriptlet.Proofs.Heap.Relocation

/-!
Built-in functions in a world with other locations, and with an input from which the same integers
are read. They answer the same, and the worlds after them differ as those before.
-/

namespace Scriptlet

variable {α β : Type}

/-- How one world becomes another that a program cannot tell from it. -/
structure Transport (α β : Type) where
  place : α → β
  input : Input → Input
  readInt : ∀ i, (input i).readInt = (i.readInt.1, input i.readInt.2)

namespace World

def transport (τ : Transport α β) (w : World α) : World β :=
  ⟨w.heap.map τ.place, τ.input w.input, w.sink⟩

def Answer.transport (τ : Transport α β) (a : Answer α) : Answer β := (a.1, a.2.transport τ)

variable (τ : Transport α β) (w : World α)

theorem newString_transport (text : String) :
    (w.transport τ).newString text = (w.newString text).transport τ := by
  have halloc := w.heap.alloc_map τ.place (.string text)
  simp only [Object.map] at halloc
  simp only [newString, make, transport, halloc]
  rfl

theorem write_transport (text : String) :
    (w.transport τ).write text = (w.write text).transport τ := by
  obtain ⟨heap, input, sink⟩ := w
  simp only [write, transport]
  rcases sink.write text.toUTF8.data with ⟨_ | _, sink⟩ <;> rfl

theorem readInt_transport : (w.transport τ).readInt = w.readInt.transport τ := by
  obtain ⟨heap, input, sink⟩ := w
  simp only [readInt, transport, τ.readInt]
  cases sink.flush with
  | error message => rfl
  | ok _ => rcases input.readInt with ⟨_ | _, input⟩ <;> rfl

theorem newArray_transport (items : List Value) :
    (w.transport τ).newArray items = (w.newArray items).transport τ := by
  have halloc := (w.heap.retainAll items).alloc_map τ.place (.array items.toArray)
  simp only [Object.map] at halloc
  simp only [newArray, make, transport, Heap.retainAll_map, halloc]
  rfl

theorem getItem_transport (r : Nat) (index : Int64) :
    (w.transport τ).getItem r index = (w.getItem r index).transport τ := by
  obtain ⟨heap, input, sink⟩ := w
  simp only [getItem, transport, Heap.items_map, Heap.retain_map]
  split <;> rfl

theorem setItem_transport (r : Nat) (index : Int64) (v : Value) :
    (w.transport τ).setItem r index v = (w.setItem r index v).transport τ := by
  obtain ⟨heap, input, sink⟩ := w
  simp only [setItem, transport, Heap.items_map, Heap.retain_map, Heap.modifyItems_map,
    Heap.release, Heap.releaseAll_map]
  split <;> rfl

theorem pushItem_transport (r : Nat) (v : Value) :
    (w.transport τ).pushItem r v = (w.pushItem r v).transport τ := by
  simp only [pushItem, transport, Heap.retain_map, Heap.modifyItems_map]
  rfl

theorem popItem_transport (r : Nat) :
    (w.transport τ).popItem r = (w.popItem r).transport τ := by
  obtain ⟨heap, input, sink⟩ := w
  simp only [popItem, transport, Heap.items_map, Heap.modifyItems_map]
  split <;> rfl

theorem substring_transport (r : Nat) (start stop : Int64) :
    (w.transport τ).substring r start stop = (w.substring r start stop).transport τ := by
  have htext : (w.transport τ).heap.text r = w.heap.text r := w.heap.text_map τ.place r
  simp only [substring, htext, newString_transport]
  split <;> rfl

end World

namespace Builtin

variable (τ : Transport α β) (b : Builtin) (args : List Value) (w : World α)

theorem body_transport : b.body args (w.transport τ) = (b.body args w).transport τ := by
  have hrender := w.heap.render_map τ.place
  have hitems := w.heap.items_map τ.place
  have htext := w.heap.text_map τ.place
  change ∀ v, (w.transport τ).heap.render v = _ at hrender
  change ∀ r, (w.transport τ).heap.items r = _ at hitems
  change ∀ r, (w.transport τ).heap.text r = _ at htext
  unfold body
  simp only [hrender, hitems, htext]
  split
  case h_1 => exact w.write_transport τ _
  case h_2 => exact w.write_transport τ _
  case h_3 => exact w.readInt_transport τ
  case h_4 => exact w.newArray_transport τ _
  case h_6 => exact w.getItem_transport τ _ _
  case h_7 => exact w.setItem_transport τ _ _ _
  case h_8 => exact w.pushItem_transport τ _ _
  case h_9 => exact w.popItem_transport τ _
  case h_10 => exact w.substring_transport τ _ _ _
  case h_11 => exact w.newString_transport τ _
  all_goals rfl

theorem invoke_transport : b.invoke args (w.transport τ) = (b.invoke args w).transport τ := by
  unfold invoke
  split
  · rfl
  · exact body_transport τ b args w

end Builtin

end Scriptlet
