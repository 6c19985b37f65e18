import Scriptlet.Proofs.Heap.Cycle
import Scriptlet.Proofs.Machine.Lockstep

/-!
The scope of a name is lexical. A call of a function comes to the same in every state that agrees
on the global scope and the objects, whatever other scopes are open and whoever waits for its
result; and it leaves those scopes alone.
-/

namespace Scriptlet

variable {α : Type}

/-- The same value up to matched references, or the same failure. -/
inductive Control.SameAnswer (m : Matching) : Control α → Control α → Prop
  | give {v v' : Value} (hv : v.Alike m v') : SameAnswer m (.give v) (.give v')
  | fail (e : EvalError α) : SameAnswer m (.fail e) (.fail e)

inductive Object.Same (m : Matching) : Object α → Object α → Prop
  | function (d : FunctionDef α) (closure : Nat) :
    Same m (.function d closure) (.function d closure)
  | array {xs ys : Array Value} (h : ItemsAlike m xs ys) : Same m (.array xs) (.array ys)
  | string (text : String) : Same m (.string text) (.string text)

namespace State

variable {s t u u' : State α} {limit : Nat} {ext ext' : List Value}

/-- The states agree on all that no caller has to itself. Other scopes than the global one, the
waiting frames and objects that only one of the states has may be any. -/
structure Agree (s t : State α) : Prop where
  globals : ∃ b b', s.scopes.arena[Scopes.globalScope]? = some ⟨b, none⟩ ∧
    t.scopes.arena[Scopes.globalScope]? = some ⟨b', none⟩ ∧ ∀ name, b.find? name = b'.find? name
  objects : ∀ r o o', s.world.heap.object? r = some o → t.world.heap.object? r = some o' → o = o'
  closed : s.world.heap.Closed
  input : s.world.input = t.world.input
  sink : s.world.sink = t.world.sink
  depth : s.depth = t.depth

/-- Objects that are there already are matched with themselves, new ones in the order of their
making. -/
def madeSince (s t : State α) : Matching where
  common := min s.world.heap.cells.size t.world.heap.cells.size
  left := s.world.heap.cells.size
  right := t.world.heap.cells.size
  common_le_left := Nat.min_le_left _ _
  common_le_right := Nat.min_le_right _ _

/-- What was begun in `s` and in `t` has come to `u` and to `u'`, and that is the same. -/
structure SameEffect (s t u u' : State α) : Prop where
  answer : u.control.SameAnswer (s.madeSince t) u'.control
  input : u.world.input = u'.world.input
  sink : u.world.sink = u'.world.sink
  depth : u.depth = u'.depth
  globals : ∀ name, Option.Rel (Value.Alike (s.madeSince t))
    (u.scopes.find? Scopes.globalScope name) (u'.scopes.find? Scopes.globalScope name)
  objects : ∀ r r' o o', (s.madeSince t).Rel r r' → u.world.heap.object? r = some o →
    u'.world.heap.object? r' = some o' → o.Same (s.madeSince t) o'
  others : ∀ i, i ≠ Scopes.globalScope → u.scopes.arena[i]? = s.scopes.arena[i]?
  others' : ∀ i, i ≠ Scopes.globalScope → u'.scopes.arena[i]? = t.scopes.arena[i]?

/-- Only the global scope is the same in both states. -/
@[reducible] def coupling (s t : State α) (hs : 1 ≤ s.scopes.depth) (ht : 1 ≤ t.scopes.depth) :
    Coupling α α :=
  ⟨α, id, id, s.madeSince t, ⟨1, s.scopes.depth, t.scopes.depth, hs, ht⟩, Nat.one_pos⟩

theorem alike_of_keeps {v : Value} (hk : s.world.heap.Keeps v) (hk' : t.world.heap.Keeps v) :
    v.Alike (s.madeSince t) v := by
  refine Value.alike_self fun r hr => ?_
  exact Nat.lt_min.mpr ⟨hk.lt_size hr, hk'.lt_size hr⟩

section Beginning

variable (h : s.Agree t) (hb : s.Balanced ext) (hb' : t.Balanced ext') (hs : 1 ≤ s.scopes.depth)
  (ht : 1 ≤ t.scopes.depth)

include h hb hb'

theorem Agree.heap_alike : s.world.heap.Alike (s.coupling t hs ht) t.world.heap := by
  refine ⟨⟨0, rfl, rfl⟩, fun r r' o o' hrel ho ho' => ?_⟩
  rcases hrel with ⟨rfl, -⟩ | ⟨x, rfl, rfl⟩
  · obtain rfl := h.objects r o o' ho ho'
    cases o with
    | function d closure =>
      obtain rfl := h.closed r d closure ho
      have hsame := Object.Alike.function (c := s.coupling t hs ht) d
      rwa [functionDef_map_id] at hsame
    | array items =>
      refine .array (List.forall₂_same.mpr fun v hv => alike_of_keeps ?_ ?_)
      · exact (Heap.Balanced.sealed hb).held ho hv
      · exact (Heap.Balanced.sealed hb').held ho' hv
    | string text => exact .string text
  · have hlt := Heap.lt_size_of_isSome (Option.isSome_of_mem ho)
    exact absurd hlt (Nat.not_lt.mpr (Nat.le_add_right _ _))

theorem Agree.scopes_alike :
    Scopes.Alike (s.coupling t hs ht) s.scopes t.scopes 0 s.scopes t.scopes := by
  obtain ⟨b, b', hglobal, hglobal', hsame⟩ := h.globals
  refine ⟨rfl, rfl, fun i j hij => ?_, fun _ _ _ => rfl, fun _ _ _ => rfl⟩
  obtain ⟨rfl, hi⟩ := hij.of_zero
  obtain rfl := Nat.lt_one_iff.mp hi
  refine ⟨_, _, hglobal, hglobal', fun name => ?_, .none⟩
  change Option.Rel _ (b.find? name) (b'.find? name)
  rw [← hsame name]
  cases hv : b.find? name with
  | none => exact .none
  | some v =>
    have hv' : b'.find? name = some v := (hsame name).symm.trans hv
    have hmem := s.scopes.mem_values hglobal (Bindings.mem_values_of_find? hv)
    have hmem' := t.scopes.mem_values hglobal' (Bindings.mem_values_of_find? hv')
    refine .some (alike_of_keeps ?_ ?_)
    · exact Owes.keeps hb (.inr (List.mem_append_right _ hmem))
    · exact Owes.keeps hb' (.inr (List.mem_append_right _ hmem'))

theorem Agree.twins {ref : Nat} {d : FunctionDef α} {args : List Value} {l : α}
    (hc : s.control = .apply (.function ref d Scopes.globalScope) args l)
    (hc' : t.control = .apply (.function ref d Scopes.globalScope) args l)
    (hargs : args.length = d.params.length) : Twins (s.coupling t hs ht) s t s t := by
  have hkeeps : ∀ v ∈ .function ref :: args, v.Alike (s.madeSince t) v := by
    intro v hv
    refine alike_of_keeps (Owes.keeps hb (.inl ?_)) (Owes.keeps hb' (.inl ?_))
    · rw [hc]
      exact hv
    · rw [hc']
      exact hv
  have hcallee : Callee.Alike (s.coupling t hs ht) args.length
      (.function ref d Scopes.globalScope) (.function ref d Scopes.globalScope) := by
    obtain _ | _ | ⟨hr⟩ := hkeeps (.function ref) List.mem_cons_self
    have hsame := Callee.Alike.function (c := s.coupling t hs ht) hr d hargs
    rwa [functionDef_map_id] at hsame
  have hargs : List.Forall₂ (Value.Alike (s.madeSince t)) args args :=
    List.forall₂_same.mpr fun v hv => hkeeps v (List.mem_cons_of_mem _ hv)
  have hworld : s.world.Alike (s.coupling t hs ht) t.world :=
    ⟨h.heap_alike hb hb' hs ht, h.input, h.sink⟩
  refine ⟨0, ⟨h.scopes_alike hb hb' hs ht, .base, h.depth, hworld⟩, ?_⟩
  rw [hc, hc']
  exact .apply hcallee hargs l

end Beginning

/-! ### The end of a call -/

variable {hs : 1 ≤ s.scopes.depth} {ht : 1 ≤ t.scopes.depth}

theorem same_of_alike {o o' : Object α} (h : o.Alike (s.coupling t hs ht) o') :
    o.Same (s.madeSince t) o' := by
  cases h with
  | function d => exact .function _ _
  | array hxs => exact .array hxs
  | string text => exact .string text

theorem others_kept {a b : Scopes} (hdepth : a.depth = b.depth)
    (hkept : ∀ i, 1 ≤ i → i < b.depth → a.arena[i]? = b.arena[i]?) (i : Nat)
    (hi : i ≠ Scopes.globalScope) : a.arena[i]? = b.arena[i]? := by
  by_cases hlt : i < b.depth
  · exact hkept i (Nat.one_le_iff_ne_zero.mpr hi) hlt
  -- What was opened above the scopes of the beginning is closed.
  · have hle : b.depth ≤ i := Nat.le_of_not_lt hlt
    rw [Array.getElem?_eq_none hle, Array.getElem?_eq_none (by rw [← Scopes.depth, hdepth]; exact hle)]

theorem Twins.sameEffect (h : Twins (s.coupling t hs ht) s t u u') (hu : Done s u) :
    s.SameEffect t u u' := by
  obtain ⟨k, halike, hc⟩ := h
  obtain rfl : k = 0 := halike.stack.eq_zero hu.1
  have hscopes := halike.scopes
  refine ⟨?_, halike.world.input, halike.world.sink, halike.depth, fun name => ?_,
    fun r r' o o' hr ho ho' => same_of_alike (halike.world.heap.objects r r' o o' hr ho ho'), ?_, ?_⟩
  · have hanswers := hu.2
    generalize u.control = x at hc hanswers ⊢
    generalize u'.control = y at hc ⊢
    cases hc with
    | give hv => exact .give hv
    | fail cause l => exact .fail _
    | _ => exact hanswers.elim
  · exact hscopes.find? (Alike.below_global _ 0) name
  · exact others_kept hscopes.left hscopes.left_kept
  · exact others_kept hscopes.right hscopes.right_kept

/-- A user function is called with an argument for each parameter. The call ends in one of two
agreeing states if and only if it ends in the other, and it comes to the same in both. -/
theorem call_same_effect {ref : Nat} {d : FunctionDef α} {args : List Value} {l : α}
    (hs : s.control = .apply (.function ref d Scopes.globalScope) args l)
    (ht : t.control = .apply (.function ref d Scopes.globalScope) args l)
    (hargs : args.length = d.params.length) (h : s.Agree t) (hb : s.Balanced ext)
    (hb' : t.Balanced ext') :
    ((∃ u, Exit limit s u) ↔ ∃ u, Exit limit t u) ∧
    ∀ u u', Exit limit s u → Exit limit t u' →
      s.SameEffect t u u' ∧ u.Balanced ext ∧ u'.Balanced ext' := by
  obtain ⟨b, b', hglobal, hglobal', -⟩ := h.globals
  have hpos : 1 ≤ s.scopes.depth := (Array.getElem?_eq_some_iff.mp hglobal).1
  have hpos' : 1 ≤ t.scopes.depth := (Array.getElem?_eq_some_iff.mp hglobal').1
  have htwins := h.twins hb hb' hpos hpos' hs ht hargs
  refine ⟨exists_exit_iff_of_twins htwins hb hb', fun u u' hu hu' => ?_⟩
  obtain ⟨hend, hbalanced⟩ := twins_exits htwins hb hb' hu hu'
  exact ⟨hend.sameEffect hu.2, hbalanced⟩

/-- Puts its argument into the global array and notes the length of it. -/
def recorder : FunctionDef Unit :=
  ⟨⟨"f", ()⟩, [⟨"y", ()⟩],
    [.expr (.callAt ⟨"push", ()⟩ [.reference ⟨"a", ()⟩, .reference ⟨"y", ()⟩] ()),
      .expr (.assign ⟨"x", ()⟩ (.callAt ⟨"len", ()⟩ [.reference ⟨"a", ()⟩] ()) ())], ()⟩

def recorderHeap : Heap Unit :=
  ⟨#[some ⟨2, .function recorder Scopes.globalScope⟩, some ⟨1, .array #[]⟩], 2⟩

def recording (locals : List Bindings) : State Unit where
  control := .apply (.function 0 recorder Scopes.globalScope) [.int 5] ()
  stack := locals.map fun _ => .discard
  scopes := ⟨(⟨[("push", .builtin .push), ("len", .builtin .len), ("f", .function 0),
    ("a", .array 1), ("x", .int 0)], none⟩ ::
      locals.map fun b => ⟨b, some Scopes.globalScope⟩).toArray⟩
  depth := 0
  world := ⟨recorderHeap, ⟨[], [], none⟩, .unlimited⟩

theorem balanced_recorderHeap : recorderHeap.Balanced [.function 0, .function 0, .array 1] := by
  refine ⟨fun r => ?_, fun r c hc => ?_, rfl, fun v hv r hr => ?_⟩
  · match r with
    | 0 => rfl
    | 1 => rfl
    | r + 2 => rfl
  · match r with
    | 0 =>
      cases hc
      exact Nat.two_pos
    | 1 =>
      cases hc
      exact Nat.one_pos
  · have hmem : v = .function 0 ∨ v = .array 1 := by
      simpa [recorderHeap, Heap.contents, Object.held] using hv
    rcases hmem with rfl | rfl
    · cases hr
      exact ⟨_, rfl, rfl⟩
    · cases hr
      exact ⟨_, rfl, rfl⟩

theorem balanced_recording {locals : List Bindings}
    (h : ∀ b ∈ locals, ∀ v ∈ b.values, v.ref? = none) : (recording locals).Balanced [] := by
  refine balanced_recorderHeap.congr fun v hv => ?_
  have hlocals : (locals.flatMap Bindings.values).count v = 0 := by
    refine List.count_eq_zero_of_not_mem fun hmem => ?_
    obtain ⟨b, hb, hvb⟩ := List.mem_flatMap.mp hmem
    rw [h b hb v hvb] at hv
    cases hv
  have hframes : (recording locals).stack.flatMap Frame.held = [] := by
    simp [recording, Frame.held]
  have hvalues : (recording locals).scopes.values =
      [.builtin .push, .builtin .len, .function 0, .array 1, .int 0] ++
        locals.flatMap Bindings.values := by
    simp only [recording, Scopes.values, List.flatMap_cons, List.flatMap_map]
    rfl
  rw [waiting, hframes, hvalues]
  cases v with
  | int i => cases hv
  | builtin b => cases hv
  | _ => simp [recording, Control.held, Callee.held, List.count_cons, hlocals]

theorem agree_recording (locals locals' : List Bindings) :
    (recording locals).Agree (recording locals') := by
  refine ⟨⟨_, _, rfl, rfl, fun _ => rfl⟩, fun r o o' ho ho' => ?_, fun r d closure ho => ?_, rfl,
    rfl, rfl⟩
  · exact Option.some.inj (ho.symm.trans ho')
  · match r with
    | 0 =>
      cases ho
      rfl
    | 1 => cases ho

/-- One caller has names of its own that the function uses as well, the other has none. -/
theorem recording_same_effect :
    let s := recording [[("y", .int 3)], [("x", .int 7), ("push", .int 1)]]
    let t := recording []
    ∃ u u', Exit 10 s u ∧ Exit 10 t u' ∧ s.SameEffect t u u' ∧ u.world.heap.items 1 = #[.int 5] ∧
      u.scopes.find? 0 "x" = some (.int 1) ∧ u.scopes.find? 2 "x" = some (.int 7) := by
  intro s t
  have hs : Exit 10 s ((step 10)^[26] s) := exit_of_length (by decide +kernel) (by decide +kernel)
  have ht : Exit 10 t ((step 10)^[26] t) := exit_of_length (by decide +kernel) (by decide +kernel)
  have hb : s.Balanced [] := balanced_recording (by decide)
  have hb' : t.Balanced [] := balanced_recording (by decide)
  have heffect := (call_same_effect rfl rfl rfl (agree_recording _ _) hb hb').2 _ _ hs ht
  exact ⟨_, _, hs, ht, heffect.1, by decide +kernel⟩

end State

end Scriptlet
