import Scriptlet.Proofs.Builtin.Signatures
import Scriptlet.Proofs.Heap.Likeness

/-!
Built-in functions cannot tell like worlds apart. Called with like arguments they give like answers
and leave like worlds, with the same bytes read and written.
-/

namespace Scriptlet

variable {α β : Type} {c : Coupling α β}

namespace World

structure Alike (c : Coupling α β) (w : World α) (w' : World β) : Prop where
  heap : w.heap.Alike c w'.heap
  input : w.input = w'.input
  sink : w.sink = w'.sink

inductive AnswerAlike (c : Coupling α β) : Answer α → Answer β → Prop
  | ok {w : World α} {w' : World β} {v v' : Value} (hv : v.Alike c.objects v')
    (hw : w.Alike c w') : AnswerAlike c (.ok v, w) (.ok v', w')
  | error {w : World α} {w' : World β} (cause : Cause) (hw : w.Alike c w') :
    AnswerAlike c (.error cause, w) (.error cause, w')

variable {w : World α} {w' : World β} {r r' : Nat} {v v' : Value}

theorem alike_make (hw : w.Alike c w') {o : Object α} {o' : Object β} (ho : o.Alike c o')
    {value : Nat → Value}
    (hvalue : ∀ x x', c.objects.Rel x x' → (value x).Alike c.objects (value x')) :
    AnswerAlike c (w.make o value) (w'.make o' value) :=
  .ok (hvalue _ _ hw.heap.rel_size) ⟨hw.heap.alloc ho, hw.input, hw.sink⟩

theorem alike_newString (hw : w.Alike c w') (text : String) :
    AnswerAlike c (w.newString text) (w'.newString text) :=
  alike_make hw (.string text) fun _ _ => .string

theorem alike_newArray (hw : w.Alike c w') {vs vs' : List Value}
    (hvs : List.Forall₂ (Value.Alike c.objects) vs vs') :
    AnswerAlike c (w.newArray vs) (w'.newArray vs') := by
  have hheld : World.Alike c ⟨w.heap.retainAll vs, w.input, w.sink⟩
      ⟨w'.heap.retainAll vs', w'.input, w'.sink⟩ := ⟨hw.heap.retainAll vs vs', hw.input, hw.sink⟩
  exact alike_make hheld (.array hvs) fun _ _ => .array

theorem alike_write (hw : w.Alike c w') (text : String) :
    AnswerAlike c (w.write text) (w'.write text) := by
  obtain ⟨heap, input, sink⟩ := w
  obtain ⟨heap', input', sink'⟩ := w'
  obtain ⟨hheap, rfl, rfl⟩ := hw
  simp only [write]
  split
  · exact .ok (.int 0) ⟨hheap, rfl, rfl⟩
  · exact .error _ ⟨hheap, rfl, rfl⟩

theorem alike_readInt (hw : w.Alike c w') : AnswerAlike c w.readInt w'.readInt := by
  obtain ⟨heap, input, sink⟩ := w
  obtain ⟨heap', input', sink'⟩ := w'
  obtain ⟨hheap, rfl, rfl⟩ := hw
  simp only [readInt]
  split
  · exact .error _ ⟨hheap, rfl, rfl⟩
  · split
    · exact .ok (.int _) ⟨hheap, rfl, rfl⟩
    · exact .error _ ⟨hheap, rfl, rfl⟩

theorem alike_getItem (hw : w.Alike c w') (hr : c.objects.Rel r r') (hk : w.heap.Keeps (.array r))
    (hk' : w'.heap.Keeps (.array r')) (index : Int64) :
    AnswerAlike c (w.getItem r index) (w'.getItem r' index) := by
  have hitems := hw.heap.items hr hk hk'
  simp only [getItem, hitems.size_eq]
  split
  · exact .error _ hw
  · exact .ok (hitems.getD _) ⟨hw.heap.retain _ _, hw.input, hw.sink⟩

theorem alike_setItem (hw : w.Alike c w') (hr : c.objects.Rel r r') (hk : w.heap.Keeps (.array r))
    (hk' : w'.heap.Keeps (.array r')) (index : Int64) (hv : v.Alike c.objects v') :
    AnswerAlike c (w.setItem r index v) (w'.setItem r' index v') := by
  have hitems := hw.heap.items hr hk hk'
  simp only [setItem, hitems.size_eq]
  split
  · exact .error _ hw
  · rename_i n _
    have hset := ((hw.heap.retain v v').retain v v').modifyItems hr fun _ _ hxs => hxs.set hv n
    exact .ok hv ⟨hset.releaseAll _ _, hw.input, hw.sink⟩

theorem alike_pushItem (hw : w.Alike c w') (hr : c.objects.Rel r r')
    (hv : v.Alike c.objects v') : AnswerAlike c (w.pushItem r v) (w'.pushItem r' v') := by
  have hpush := ((hw.heap.retain v v').retain v v').modifyItems hr fun _ _ hxs => hxs.push hv
  exact .ok hv ⟨hpush, hw.input, hw.sink⟩

theorem alike_popItem (hw : w.Alike c w') (hr : c.objects.Rel r r') (hk : w.heap.Keeps (.array r))
    (hk' : w'.heap.Keeps (.array r')) : AnswerAlike c (w.popItem r) (w'.popItem r') := by
  have hback := (hw.heap.items hr hk hk').back?
  simp only [popItem]
  generalize (w.heap.items r).back? = x at hback ⊢
  generalize (w'.heap.items r').back? = y at hback ⊢
  cases hback with
  | none => exact .error _ hw
  | some hv =>
    exact .ok hv ⟨hw.heap.modifyItems hr fun _ _ hxs => hxs.pop, hw.input, hw.sink⟩

theorem alike_substring (hw : w.Alike c w') (hr : c.objects.Rel r r')
    (hk : w.heap.Keeps (.string r)) (hk' : w'.heap.Keeps (.string r')) (start stop : Int64) :
    AnswerAlike c (w.substring r start stop) (w'.substring r' start stop) := by
  simp only [substring, hw.heap.text hr hk hk']
  split
  · exact alike_newString hw _
  · exact .error _ hw

end World

namespace Builtin

open World

variable {w : World α} {w' : World β} {args args' : List Value}

theorem mismatch?_congr (b : Builtin) (position : Nat) (params : List Param)
    (h : List.Forall₂ (Value.Alike c.objects) args args') :
    b.mismatch? position params args = b.mismatch? position params args' := by
  induction h generalizing position params with
  | nil => cases params <;> rfl
  | cons hv _ ih =>
    cases params with
    | nil => rfl
    | cons p params =>
      cases p with
      | any => exact ih (position + 1) params
      | kind k => simp only [mismatch?, hv.kind_eq, ih (position + 1) params]

theorem objection?_congr (b : Builtin) (h : List.Forall₂ (Value.Alike c.objects) args args') :
    b.objection? args = b.objection? args' := by
  unfold objection?
  split
  · rfl
  · rw [h.length_eq, b.mismatch?_congr 1 _ h]

theorem alike_body {b : Builtin} (hb : b.objection? args = none) (hw : w.Alike c w')
    (h : List.Forall₂ (Value.Alike c.objects) args args') (hs : w.heap.Sealed)
    (hs' : w'.heap.Sealed) (hk : ∀ v ∈ args, w.heap.Keeps v) (hk' : ∀ v ∈ args', w'.heap.Keeps v) :
    AnswerAlike c (b.body args w) (b.body args' w') := by
  cases b with
  | readint => exact alike_readInt hw
  | mkarr => exact alike_newArray hw h
  | print =>
    obtain _ | ⟨-, _ | _⟩ := kinds_of_objection? rfl hb
    obtain _ | ⟨hv, _ | _⟩ := h
    simp only [body, hw.heap.render hs hs' hv (hk _ (by simp)) (hk' _ (by simp))]
    exact alike_write hw _
  | println =>
    obtain _ | ⟨-, _ | _⟩ := kinds_of_objection? rfl hb
    obtain _ | ⟨hv, _ | _⟩ := h
    simp only [body, hw.heap.render hs hs' hv (hk _ (by simp)) (hk' _ (by simp))]
    exact alike_write hw _
  | len =>
    obtain _ | ⟨ha, _ | _⟩ := kinds_of_objection? rfl hb
    obtain _ | ⟨hv, _ | _⟩ := h
    obtain ⟨r, r', rfl, rfl, hr⟩ := hv.of_array (kind_of_admits ha)
    have hitems := hw.heap.items hr (hk _ (by simp)) (hk' _ (by simp))
    simp only [body, hitems.size_eq]
    exact .ok (.int _) hw
  | get =>
    obtain _ | ⟨ha, _ | ⟨hi, _ | _⟩⟩ := kinds_of_objection? rfl hb
    obtain _ | ⟨hv, _ | ⟨hx, _ | _⟩⟩ := h
    obtain ⟨r, r', rfl, rfl, hr⟩ := hv.of_array (kind_of_admits ha)
    obtain ⟨i, rfl, rfl⟩ := hx.of_int (kind_of_admits hi)
    exact alike_getItem hw hr (hk _ (by simp)) (hk' _ (by simp)) i
  | set =>
    obtain _ | ⟨ha, _ | ⟨hi, _ | ⟨-, _ | _⟩⟩⟩ := kinds_of_objection? rfl hb
    obtain _ | ⟨hv, _ | ⟨hx, _ | ⟨hitem, _ | _⟩⟩⟩ := h
    obtain ⟨r, r', rfl, rfl, hr⟩ := hv.of_array (kind_of_admits ha)
    obtain ⟨i, rfl, rfl⟩ := hx.of_int (kind_of_admits hi)
    exact alike_setItem hw hr (hk _ (by simp)) (hk' _ (by simp)) i hitem
  | push =>
    obtain _ | ⟨ha, _ | ⟨-, _ | _⟩⟩ := kinds_of_objection? rfl hb
    obtain _ | ⟨hv, _ | ⟨hitem, _ | _⟩⟩ := h
    obtain ⟨r, r', rfl, rfl, hr⟩ := hv.of_array (kind_of_admits ha)
    exact alike_pushItem hw hr hitem
  | pop =>
    obtain _ | ⟨ha, _ | _⟩ := kinds_of_objection? rfl hb
    obtain _ | ⟨hv, _ | _⟩ := h
    obtain ⟨r, r', rfl, rfl, hr⟩ := hv.of_array (kind_of_admits ha)
    exact alike_popItem hw hr (hk _ (by simp)) (hk' _ (by simp))
  | substr =>
    obtain _ | ⟨ha, _ | ⟨hi, _ | ⟨hj, _ | _⟩⟩⟩ := kinds_of_objection? rfl hb
    obtain _ | ⟨hv, _ | ⟨hx, _ | ⟨hy, _ | _⟩⟩⟩ := h
    obtain ⟨r, r', rfl, rfl, hr⟩ := hv.of_string (kind_of_admits ha)
    obtain ⟨i, rfl, rfl⟩ := hx.of_int (kind_of_admits hi)
    obtain ⟨j, rfl, rfl⟩ := hy.of_int (kind_of_admits hj)
    exact alike_substring hw hr (hk _ (by simp)) (hk' _ (by simp)) i j
  | strcat =>
    obtain _ | ⟨ha, _ | ⟨hi, _ | _⟩⟩ := kinds_of_objection? rfl hb
    obtain _ | ⟨hv, _ | ⟨hx, _ | _⟩⟩ := h
    obtain ⟨r, r', rfl, rfl, hr⟩ := hv.of_string (kind_of_admits ha)
    obtain ⟨t, t', rfl, rfl, ht⟩ := hx.of_string (kind_of_admits hi)
    have hfirst := hw.heap.text hr (hk _ (by simp)) (hk' _ (by simp))
    have hsecond := hw.heap.text ht (hk _ (by simp)) (hk' _ (by simp))
    simp only [body, hfirst, hsecond]
    exact alike_newString hw _
  | strlen =>
    obtain _ | ⟨ha, _ | _⟩ := kinds_of_objection? rfl hb
    obtain _ | ⟨hv, _ | _⟩ := h
    obtain ⟨r, r', rfl, rfl, hr⟩ := hv.of_string (kind_of_admits ha)
    simp only [body, hw.heap.text hr (hk _ (by simp)) (hk' _ (by simp))]
    exact .ok (.int _) hw

theorem alike_invoke (b : Builtin) (hw : w.Alike c w')
    (h : List.Forall₂ (Value.Alike c.objects) args args') {ext ext' : List Value}
    (hb : w.heap.Balanced (args ++ ext)) (hb' : w'.heap.Balanced (args' ++ ext')) :
    AnswerAlike c (b.invoke args w) (b.invoke args' w') := by
  have hk : ∀ v ∈ args, w.heap.Keeps v := fun v hv =>
    hb.keeps v (List.mem_append_left _ (List.mem_append_left _ hv))
  have hk' : ∀ v ∈ args', w'.heap.Keeps v := fun v hv =>
    hb'.keeps v (List.mem_append_left _ (List.mem_append_left _ hv))
  have hsame := b.objection?_congr h
  unfold invoke
  cases hobj : b.objection? args with
  | some cause =>
    rw [← hsame, hobj]
    exact .error cause hw
  | none =>
    rw [← hsame, hobj]
    exact alike_body hobj hw h hb.sealed hb'.sealed hk hk'

end Builtin

end Scriptlet
