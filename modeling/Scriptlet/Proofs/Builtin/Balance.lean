import Scriptlet.Builtin
import Scriptlet.Proofs.Heap.Balance

/-!
Built-in functions keep the heap balanced. The arguments stay held by the caller, who becomes one
more holder of the answer; a call that fails leaves all counts as they were.
-/

namespace Scriptlet

variable {α : Type}

namespace World

variable {w : World α} {ext : List Value}

/-- The heap after an action is balanced against what was held outside and the answer. -/
def AnswerBalanced (ext : List Value) (a : Answer α) : Prop :=
  a.2.heap.Balanced (a.1.toOption.toList ++ ext)

theorem balanced_fail (hb : w.heap.Balanced ext) (c : Cause) : AnswerBalanced ext (w.fail c) := hb

theorem balanced_int (hb : w.heap.Balanced ext) (i : Int64) :
    AnswerBalanced ext (w.give (.int i)) := (Heap.Balanced.cons_of_ref?_none rfl).mpr hb

theorem balanced_newString (hb : w.heap.Balanced ext) (text : String) :
    AnswerBalanced ext (w.newString text) :=
  Heap.Balanced.alloc (o := .string text) (v := .string w.heap.cells.size) hb rfl rfl

theorem balanced_write (hb : w.heap.Balanced ext) (text : String) :
    AnswerBalanced ext (w.write text) := by
  obtain ⟨heap, input, sink⟩ := w
  simp only [write]
  split
  · exact (Heap.Balanced.cons_of_ref?_none rfl).mpr hb
  · exact hb

theorem balanced_readInt (hb : w.heap.Balanced ext) : AnswerBalanced ext w.readInt := by
  obtain ⟨heap, input, sink⟩ := w
  simp only [readInt]
  split
  · exact hb
  · split
    · exact (Heap.Balanced.cons_of_ref?_none rfl).mpr hb
    · exact hb

theorem balanced_newArray {items : List Value} (hb : w.heap.Balanced ext)
    (hitems : ∀ v ∈ items, v ∈ ext) : AnswerBalanced ext (w.newArray items) := by
  have hkeeps : ∀ v ∈ items, w.heap.Keeps v :=
    fun v hv => hb.keeps v (List.mem_append_left _ (hitems v hv))
  have hall := hb.retainAll hkeeps
  exact Heap.Balanced.alloc (o := .array items.toArray)
    (v := .array (w.heap.retainAll items).cells.size) hall rfl rfl

theorem position?_lt {index : Int64} {n i : Nat} (h : position? index n = some i) : i < n := by
  unfold position? at h
  split at h
  · cases h
    omega
  · cases h

theorem balanced_getItem {r : Nat} {index : Int64} (hb : w.heap.Balanced ext)
    (hr : .array r ∈ ext) : AnswerBalanced ext (w.getItem r index) := by
  unfold getItem
  simp only
  split
  · exact hb
  · rename_i n hn
    have hitems := Heap.items?_of_keeps (hb.keeps _ (List.mem_append_left _ hr))
    exact hb.retain (hb.keeps_item hitems (position?_lt hn))

/-- The heap when a value gets two holders more, one of them an array. -/
theorem balanced_twice {r : Nat} {v : Value} (hb : w.heap.Balanced ext) (hr : .array r ∈ ext)
    (hv : v ∈ ext) : ((w.heap.retain v).retain v).Balanced (v :: v :: ext) ∧
      ((w.heap.retain v).retain v).items? r = some (w.heap.items r) := by
  have hk := hb.keeps v (List.mem_append_left _ hv)
  refine ⟨(hb.retain hk).retain hk.retain, ?_⟩
  rw [Heap.items?_retain, Heap.items?_retain]
  exact Heap.items?_of_keeps (hb.keeps _ (List.mem_append_left _ hr))

theorem balanced_setItem {r : Nat} {index : Int64} {v : Value} (hb : w.heap.Balanced ext)
    (hr : .array r ∈ ext) (hv : v ∈ ext) : AnswerBalanced ext (w.setItem r index v) := by
  unfold setItem
  simp only
  split
  · exact hb
  · rename_i n hn
    obtain ⟨htwice, hitems⟩ := balanced_twice hb hr hv
    exact (htwice.replaceItem hitems (position?_lt hn)).release

theorem balanced_pushItem {r : Nat} {v : Value} (hb : w.heap.Balanced ext) (hr : .array r ∈ ext)
    (hv : v ∈ ext) : AnswerBalanced ext (w.pushItem r v) := by
  obtain ⟨htwice, hitems⟩ := balanced_twice hb hr hv
  exact htwice.appendItem hitems

theorem balanced_popItem {r : Nat} (hb : w.heap.Balanced ext) (hr : .array r ∈ ext) :
    AnswerBalanced ext (w.popItem r) := by
  unfold popItem
  split
  · exact hb
  · rename_i v hback
    have hitems := Heap.items?_of_keeps (hb.keeps _ (List.mem_append_left _ hr))
    exact hb.dropItem hitems hback

theorem balanced_substring {r : Nat} {start stop : Int64} (hb : w.heap.Balanced ext) :
    AnswerBalanced ext (w.substring r start stop) := by
  unfold substring
  simp only
  split
  · exact balanced_newString hb _
  · exact hb

end World

namespace Builtin

open World

theorem balanced_body {w : World α} {ext args : List Value} (hb : w.heap.Balanced ext)
    (hargs : ∀ v ∈ args, v ∈ ext) (b : Builtin) : AnswerBalanced ext (b.body args w) := by
  unfold body
  split
  case h_1 => exact balanced_write hb _
  case h_2 => exact balanced_write hb _
  case h_3 => exact balanced_readInt hb
  case h_4 => exact balanced_newArray hb hargs
  case h_5 => exact balanced_int hb _
  case h_6 => exact balanced_getItem hb (hargs _ (by simp))
  case h_7 => exact balanced_setItem hb (hargs _ (by simp)) (hargs _ (by simp))
  case h_8 => exact balanced_pushItem hb (hargs _ (by simp)) (hargs _ (by simp))
  case h_9 => exact balanced_popItem hb (hargs _ (by simp))
  case h_10 => exact balanced_substring hb
  case h_11 => exact balanced_newString hb _
  case h_12 => exact balanced_int hb _
  all_goals exact balanced_fail hb _

theorem balanced_invoke_of_mem {w : World α} {ext args : List Value} (hb : w.heap.Balanced ext)
    (hargs : ∀ v ∈ args, v ∈ ext) (b : Builtin) : AnswerBalanced ext (b.invoke args w) := by
  unfold invoke
  split
  · exact balanced_fail hb _
  · exact balanced_body hb hargs b

theorem balanced_invoke {w : World α} {ext args : List Value} (hb : w.heap.Balanced (args ++ ext))
    (b : Builtin) : AnswerBalanced (args ++ ext) (b.invoke args w) :=
  balanced_invoke_of_mem hb (fun _ hv => List.mem_append_left _ hv) b

end Builtin

end Scriptlet
