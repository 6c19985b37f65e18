import Scriptlet.Proofs.Builtin.Balance
import Scriptlet.Proofs.Machine.Fields

/-!
Arrays as lists. Whoever holds an array sees the same elements, so a call that changes them changes
what every alias sees, and nothing else: other objects stay what they are, unless their last holder
was the element that had to go. A call that fails does nothing at all.
-/

namespace Scriptlet

variable {α : Type}

namespace Heap

variable {h : Heap α}

/-- The elements that a value shows; only arrays have any. -/
def elements? (h : Heap α) : Value → Option (List Value)
  | .array r => (h.items? r).map Array.toList
  | _ => none

theorem elements?_eq_some {v : Value} {xs : List Value} (hv : h.elements? v = some xs) :
    ∃ r, v = .array r ∧ h.items? r = some xs.toArray := by
  unfold elements? at hv
  split at hv
  · rename_i r
    obtain ⟨items, hitems, rfl⟩ := Option.map_eq_some_iff.mp hv
    exact ⟨r, rfl, hitems⟩
  · cases hv

theorem elements?_of_shares {r : Nat} {v : Value} {items : Array Value}
    (hv : v.shares (.array r)) (hitems : h.items? r = some items) :
    h.elements? v = some items.toList := by
  cases v with
  | array s =>
    obtain rfl : s = r := by simpa [Value.shares] using hv
    simp [elements?, hitems]
  | _ => cases hv

theorem object?_modifyItems_of_ne {r x : Nat} (f : Array Value → Array Value)
    (hx : (Value.array r).ref? ≠ some x) : (h.modifyItems r f).object? x = h.object? x := by
  have hne : r ≠ x := fun heq => hx (congrArg some heq)
  rw [object?, modifyItems, cell?_modify, if_neg hne]
  rfl

theorem items?_modifyItems {r : Nat} {items : Array Value} (f : Array Value → Array Value)
    (hitems : h.items? r = some items) : (h.modifyItems r f).items? r = some (f items) := by
  obtain ⟨n, hc⟩ := cell?_of_items? hitems
  simp [items?, modifyItems, cell?_modify, hc]

/-- An object that is there no more has no holder left. -/
theorem Balanced.holders_eq_zero {ext : List Value} {x : Nat} (hb : h.Balanced ext)
    (hx : h.object? x = none) : holders x (ext ++ h.contents) = 0 := by
  have hcount := hb.count x
  rw [countAt_of_none (Option.map_eq_none_iff.mp hx)] at hcount
  rw [holders_append]
  exact hcount.symm

/-- What is released leaves every other object as it is, or takes it along if nobody else holds
it. -/
theorem Balanced.object?_release {ext : List Value} {v : Value} (hb : h.Balanced (v :: ext))
    (x : Nat) : (h.release v).object? x = h.object? x ∨
      (h.release v).object? x = none ∧ holders x (ext ++ (h.release v).contents) = 0 := by
  cases hx : (h.release v).object? x with
  | some o => exact .inl (object?_releaseAll hx).symm
  | none => exact .inr ⟨rfl, hb.release.holders_eq_zero hx⟩

theorem Balanced.items?_release {ext : List Value} {v : Value} {r : Nat}
    (hb : h.Balanced (v :: ext)) (hr : .array r ∈ ext) :
    (h.release v).items? r = h.items? r := by
  obtain ⟨c, hc, -⟩ := hb.release.keeps _ (List.mem_append_left _ hr) r rfl
  have ho : (h.release v).object? r = some c.object := by simp [object?, hc]
  exact items?_congr (ho.trans (object?_releaseAll ho).symm)

end Heap

/-- The index names a place in the list. -/
def InRange (i : Int64) (xs : List Value) : Prop := 0 ≤ i.toInt ∧ i.toInt < xs.length

instance (i : Int64) (xs : List Value) : Decidable (InRange i xs) :=
  inferInstanceAs (Decidable (_ ∧ _))

theorem position?_of_inRange {i : Int64} {xs : List Value} (hi : InRange i xs) :
    position? i xs.length = some i.toInt.toNat := if_pos hi

theorem position?_of_not_inRange {i : Int64} {xs : List Value} (hi : ¬ InRange i xs) :
    position? i xs.length = none := if_neg hi

namespace World

variable {w : World α} {ext xs : List Value} {r : Nat}

/-- The world `w` has come to `result`: there is this answer, all who share the array `a` see the
list `ys`, and no other object has changed. An object can be missing only if nothing that is held
outside, `ext` and the answer, and no array holds it. -/
structure Rewrites (w : World α) (ext : List Value) (a : Value) (answer : Value)
    (ys : List Value) (result : Answer α) : Prop where
  answered : result.1 = .ok answer
  seen : ∀ b, b.shares a → result.2.heap.elements? b = some ys
  others : ∀ x, a.ref? ≠ some x → result.2.heap.object? x = w.heap.object? x ∨
    result.2.heap.object? x = none ∧ holders x (answer :: ext ++ result.2.heap.contents) = 0
  counted : result.2.heap.Balanced (answer :: ext)
  input : result.2.input = w.input
  sink : result.2.sink = w.sink

theorem items_eq (hitems : w.heap.items? r = some xs.toArray) : w.heap.items r = xs.toArray := by
  rw [Heap.items, hitems]
  rfl

/-- Counting holders changes no object. -/
theorem rewrites_of_object? {answer : Value} {heap : Heap α}
    (hitems : w.heap.items? r = some xs.toArray)
    (hsame : ∀ x, heap.object? x = w.heap.object? x) (hb : heap.Balanced (answer :: ext)) :
    w.Rewrites ext (.array r) answer xs (.ok answer, ⟨heap, w.input, w.sink⟩) where
  answered := rfl
  seen b hbs := by
    have hkept : heap.items? r = some xs.toArray := (Heap.items?_congr (hsame r)).trans hitems
    simpa using Heap.elements?_of_shares hbs hkept
  others x _ := .inl (hsame x)
  counted := hb
  input := rfl
  sink := rfl

theorem rewrites_len (hb : w.heap.Balanced ext) (hitems : w.heap.items? r = some xs.toArray) :
    w.Rewrites ext (.array r) (.int (Int64.ofNat xs.length)) xs
      (Builtin.len.invoke [.array r] w) := by
  have hinvoke : Builtin.len.invoke [.array r] w =
      (.ok (.int (Int64.ofNat xs.length)), ⟨w.heap, w.input, w.sink⟩) := by
    change w.give (.int (Int64.ofNat (w.heap.items r).size)) = _
    rw [items_eq hitems]
    rfl
  rw [hinvoke]
  exact rewrites_of_object? hitems (fun _ => rfl) (balanced_int hb _)

theorem rewrites_get {i : Int64} (hb : w.heap.Balanced ext)
    (hitems : w.heap.items? r = some xs.toArray) (hi : InRange i xs) :
    ∃ x, xs[i.toInt.toNat]? = some x ∧
      w.Rewrites ext (.array r) x xs (Builtin.get.invoke [.array r, .int i] w) := by
  have hlt : i.toInt.toNat < xs.length := by
    obtain ⟨hpos, hlt⟩ := hi
    omega
  have hget : xs.toArray.getD i.toInt.toNat default = xs[i.toInt.toNat] := dif_pos hlt
  have hinvoke : Builtin.get.invoke [.array r, .int i] w =
      (.ok xs[i.toInt.toNat], ⟨w.heap.retain xs[i.toInt.toNat], w.input, w.sink⟩) := by
    change w.getItem r i = _
    simp only [getItem, items_eq hitems, List.size_toArray, position?_of_inRange hi, hget]
  have hkeeps := hb.keeps_item hitems (n := i.toInt.toNat) (by simpa using hlt)
  rw [hget] at hkeeps
  refine ⟨xs[i.toInt.toNat], List.getElem?_eq_getElem hlt, ?_⟩
  rw [hinvoke]
  exact rewrites_of_object? hitems (Heap.object?_retain _ _) (hb.retain hkeeps)

theorem get_outside {i : Int64} (hitems : w.heap.items? r = some xs.toArray)
    (hi : ¬ InRange i xs) :
    Builtin.get.invoke [.array r, .int i] w = (.error (.indexOutOfBounds i xs.length), w) := by
  change w.getItem r i = _
  simp only [getItem, items_eq hitems, List.size_toArray, position?_of_not_inRange hi]
  rfl

theorem set_outside {i : Int64} {v : Value} (hitems : w.heap.items? r = some xs.toArray)
    (hi : ¬ InRange i xs) :
    Builtin.set.invoke [.array r, .int i, v] w = (.error (.indexOutOfBounds i xs.length), w) := by
  change w.setItem r i v = _
  simp only [setItem, items_eq hitems, List.size_toArray, position?_of_not_inRange hi]
  rfl

theorem rewrites_set {i : Int64} {v : Value} (hb : w.heap.Balanced ext) (hr : .array r ∈ ext)
    (hv : v ∈ ext) (hitems : w.heap.items? r = some xs.toArray) (hi : InRange i xs) :
    w.Rewrites ext (.array r) v (xs.set i.toInt.toNat v)
      (Builtin.set.invoke [.array r, .int i, v] w) := by
  obtain ⟨htwice, hkept⟩ := balanced_twice hb hr hv
  rw [items_eq hitems] at hkept
  have hlt : i.toInt.toNat < xs.toArray.size := by
    obtain ⟨hpos, hlt⟩ := hi
    simp only [List.size_toArray]
    omega
  -- The element before is on its way out, held by nobody but this call.
  have hreplaced := htwice.replaceItem hkept hlt
  have hnew := Heap.items?_modifyItems (·.setIfInBounds i.toInt.toNat v) hkept
  have hinvoke : Builtin.set.invoke [.array r, .int i, v] w =
      (.ok v, ⟨(((w.heap.retain v).retain v).modifyItems r
        (·.setIfInBounds i.toInt.toNat v)).release (xs.toArray.getD i.toInt.toNat default),
        w.input, w.sink⟩) := by
    change w.setItem r i v = _
    simp only [setItem, items_eq hitems, List.size_toArray, position?_of_inRange hi]
  rw [hinvoke]
  refine ⟨rfl, fun b hbs => ?_, fun x hx => ?_, hreplaced.release, rfl, rfl⟩
  · have hmem : Value.array r ∈ v :: ext := List.mem_cons_of_mem v hr
    have hseen := Heap.elements?_of_shares hbs ((hreplaced.items?_release hmem).trans hnew)
    simpa using hseen
  · have hbefore : (((w.heap.retain v).retain v).modifyItems r
        (·.setIfInBounds i.toInt.toNat v)).object? x = w.heap.object? x := by
      rw [Heap.object?_modifyItems_of_ne _ hx, Heap.object?_retain, Heap.object?_retain]
    rw [← hbefore]
    exact hreplaced.object?_release x

theorem rewrites_push {v : Value} (hb : w.heap.Balanced ext) (hr : .array r ∈ ext) (hv : v ∈ ext)
    (hitems : w.heap.items? r = some xs.toArray) :
    w.Rewrites ext (.array r) v (xs ++ [v]) (Builtin.push.invoke [.array r, v] w) := by
  obtain ⟨htwice, hkept⟩ := balanced_twice hb hr hv
  rw [items_eq hitems] at hkept
  have hnew := Heap.items?_modifyItems (·.push v) hkept
  have hinvoke : Builtin.push.invoke [.array r, v] w =
      (.ok v, ⟨((w.heap.retain v).retain v).modifyItems r (·.push v), w.input, w.sink⟩) := rfl
  rw [hinvoke]
  refine ⟨rfl, fun b hbs => ?_, fun x hx => .inl ?_, htwice.appendItem hkept, rfl, rfl⟩
  · simpa using Heap.elements?_of_shares hbs hnew
  · rw [Heap.object?_modifyItems_of_ne _ hx, Heap.object?_retain, Heap.object?_retain]

theorem rewrites_pop {ys : List Value} {y : Value} (hb : w.heap.Balanced ext)
    (hitems : w.heap.items? r = some (ys ++ [y]).toArray) :
    w.Rewrites ext (.array r) y ys (Builtin.pop.invoke [.array r] w) := by
  have hback : (ys ++ [y]).toArray.back? = some y := by simp
  have hnew := Heap.items?_modifyItems Array.pop hitems
  have hinvoke : Builtin.pop.invoke [.array r] w =
      (.ok y, ⟨w.heap.modifyItems r Array.pop, w.input, w.sink⟩) := by
    change w.popItem r = _
    simp only [popItem, items_eq hitems, hback]
  rw [hinvoke]
  refine ⟨rfl, fun b hbs => ?_, fun x hx => .inl ?_, hb.dropItem hitems hback, rfl, rfl⟩
  · simpa using Heap.elements?_of_shares hbs hnew
  · exact Heap.object?_modifyItems_of_ne _ hx

theorem pop_empty (hitems : w.heap.items? r = some #[]) :
    Builtin.pop.invoke [.array r] w = (.error .emptyArray, w) := by
  change w.popItem r = _
  simp only [popItem, Heap.items, hitems]
  rfl

/-- The functions on arrays do to the array `a`, whose elements are `xs`, what functions on lists
do to `xs`. -/
structure ActsOnList (w : World α) (ext : List Value) (a : Value) (xs : List Value) : Prop where
  len : w.Rewrites ext a (.int (Int64.ofNat xs.length)) xs (Builtin.len.invoke [a] w)
  length : xs.length ≤ Int64.maxValue.toInt → (Int64.ofNat xs.length).toInt = xs.length
  get : ∀ i, InRange i xs → ∃ x, xs[i.toInt.toNat]? = some x ∧
    w.Rewrites ext a x xs (Builtin.get.invoke [a, .int i] w)
  get_outside : ∀ i, ¬ InRange i xs →
    Builtin.get.invoke [a, .int i] w = (.error (.indexOutOfBounds i xs.length), w)
  set : ∀ i, ∀ v ∈ ext, InRange i xs →
    w.Rewrites ext a v (xs.set i.toInt.toNat v) (Builtin.set.invoke [a, .int i, v] w)
  set_outside : ∀ i v, ¬ InRange i xs →
    Builtin.set.invoke [a, .int i, v] w = (.error (.indexOutOfBounds i xs.length), w)
  push : ∀ v ∈ ext, w.Rewrites ext a v (xs ++ [v]) (Builtin.push.invoke [a, v] w)
  pop : ∀ ys y, xs = ys ++ [y] → w.Rewrites ext a y ys (Builtin.pop.invoke [a] w)
  pop_empty : xs = [] → Builtin.pop.invoke [a] w = (.error .emptyArray, w)

theorem actsOnList {a : Value} (hb : w.heap.Balanced ext) (ha : a ∈ ext)
    (hxs : w.heap.elements? a = some xs) : w.ActsOnList ext a xs := by
  obtain ⟨r, rfl, hitems⟩ := Heap.elements?_eq_some hxs
  refine ⟨rewrites_len hb hitems, fun hle => ?_, fun i => rewrites_get hb hitems,
    fun i => World.get_outside hitems, fun i v hv => rewrites_set hb ha hv hitems,
    fun i v => World.set_outside hitems, fun v hv => rewrites_push hb ha hv hitems,
    fun ys y hy => ?_, fun hnil => ?_⟩
  · rw [Int64.toInt_maxValue] at hle
    exact Int64.toInt_ofNat_of_lt (by omega)
  · subst hy
    exact rewrites_pop hb hitems
  · subst hnil
    exact World.pop_empty hitems

/-! ### Failures -/

theorem snd_of_getItem_error {i : Int64} {c : Cause} (h : (w.getItem r i).1 = .error c) :
    (w.getItem r i).2 = w := by
  unfold getItem at h ⊢
  simp only at h ⊢
  split at h
  · rfl
  · cases h

theorem snd_of_setItem_error {i : Int64} {v : Value} {c : Cause}
    (h : (w.setItem r i v).1 = .error c) : (w.setItem r i v).2 = w := by
  unfold setItem at h ⊢
  simp only at h ⊢
  split at h
  · rfl
  · cases h

theorem snd_of_popItem_error {c : Cause} (h : (w.popItem r).1 = .error c) :
    (w.popItem r).2 = w := by
  unfold popItem at h ⊢
  split at h
  · rfl
  · cases h

theorem snd_of_substring_error {start stop : Int64} {c : Cause}
    (h : (w.substring r start stop).1 = .error c) : (w.substring r start stop).2 = w := by
  unfold substring at h ⊢
  simp only at h ⊢
  split at h
  · cases h
  · rfl

end World

namespace Builtin

open World

/-- The functions that neither read nor write. -/
def silent : List Builtin := [len, get, set, push, pop, mkarr, substr, strcat, strlen]

variable {b : Builtin} {args : List Value} {w : World α} {c : Cause}

theorem snd_of_body_error (hsilent : b ∈ silent) (h : (b.body args w).1 = .error c) :
    (b.body args w).2 = w := by
  unfold body at h ⊢
  split at h
  case h_1 => simp [silent] at hsilent
  case h_2 => simp [silent] at hsilent
  case h_3 => simp [silent] at hsilent
  case h_4 => cases h
  case h_5 => cases h
  case h_6 => exact snd_of_getItem_error h
  case h_7 => exact snd_of_setItem_error h
  case h_8 => cases h
  case h_9 => exact snd_of_popItem_error h
  case h_10 => exact snd_of_substring_error h
  case h_11 => cases h
  case h_12 => cases h
  all_goals rfl

theorem snd_of_invoke_error (hsilent : b ∈ silent) (h : (b.invoke args w).1 = .error c) :
    (b.invoke args w).2 = w := by
  unfold invoke at h ⊢
  split at h
  · rfl
  · exact snd_of_body_error hsilent h

end Builtin

/-- On a heap with right counts, against all that is held outside of it, the functions on arrays act
on the list of elements through every alias. On any heap, a function that neither reads nor writes
and fails leaves objects, counts, input and output as they were; a program that calls it lets go of
the arguments and goes on with the failure, and no binding has changed. -/
theorem Builtin.arrays_act_as_lists (w : World α) :
    (∀ ext, w.heap.Balanced ext → ∀ a ∈ ext, ∀ xs, w.heap.elements? a = some xs →
      w.ActsOnList ext a xs) ∧
    ∀ b ∈ silent, ∀ args c, (b.invoke args w).1 = .error c →
      (b.invoke args w).2 = w ∧
      ∀ (s : State α) (l : α), s.world = w →
        s.callBuiltin b args l = (s.releaseAll args).failAt l c ∧
          (s.callBuiltin b args l).scopes = s.scopes := by
  refine ⟨fun ext hb a ha xs hxs => World.actsOnList hb ha hxs, fun b hsilent args c hc => ?_⟩
  have hsame := snd_of_invoke_error hsilent hc
  refine ⟨hsame, ?_⟩
  rintro s l rfl
  have hcall : s.callBuiltin b args l = (s.releaseAll args).failAt l c := by
    rw [State.callBuiltin_eq, hc, hsame]
  exact ⟨hcall, by rw [hcall]; rfl⟩

/-- An array is stored in itself, in place of another that nobody else holds. The least index is out
of range. -/
theorem Builtin.arrays_act_as_lists_of_self :
    let inner : Heap Unit := (Heap.empty.alloc (.array #[.int 7])).2
    let w : World Unit := ⟨(inner.alloc (.array #[.array 0])).2, ⟨[], [], none⟩, .unlimited⟩
    let a := Value.array 1
    let stored := set.invoke [a, .int 0, a] w
    w.heap.Balanced [a] ∧ w.heap.elements? a = some [.array 0] ∧
      stored.1 = .ok a ∧ stored.2.heap.elements? a = some [a] ∧
      (stored.2.heap.object? 0).isNone ∧ stored.2.heap.Balanced [a, a] ∧
      get.invoke [a, .int Int64.minValue] w = (.error (.indexOutOfBounds Int64.minValue 1), w) ∧
      (get.invoke [a] w).2 = w := by
  intro inner w a stored
  have hinner : inner.Balanced [.array 0] :=
    Heap.Balanced.alloc ((Heap.Balanced.cons_of_ref?_none rfl).mpr .empty) rfl rfl
  have hb : w.heap.Balanced [a] := hinner.alloc (o := .array #[.array 0]) rfl rfl
  have hxs : w.heap.elements? a = some [.array 0] := by decide +kernel
  obtain ⟨hacts, hfails⟩ := arrays_act_as_lists w
  have hlist := hacts [a] hb a (by simp) _ hxs
  have hset := hlist.set 0 a (by simp) (by decide +kernel)
  refine ⟨hb, hxs, hset.answered, hset.seen a (by decide), by decide +kernel, hset.counted,
    hlist.get_outside Int64.minValue (by decide +kernel), ?_⟩
  exact (hfails get (by decide) [a] (.builtinArity get 2 1) rfl).1

end Scriptlet
