import Mathlib.Data.List.Forall2
import Scriptlet.Proofs.Heap.Balance
import Scriptlet.Proofs.Heap.Rendering
import Scriptlet.Scopes

/-!
Heaps that a program cannot tell apart. Two runs number their objects as they make them, and free
them when the last holder lets go; neither the numbers nor the counts show. What shows are the
objects that both runs can get at, and these have to be alike.
-/

namespace Scriptlet

/-- Which places of two runs belong together: the first `common` ones are the same in both, those
from `left` on in the one belong, in order, to those from `right` on in the other. -/
structure Matching where
  common : Nat
  left : Nat
  right : Nat
  common_le_left : common ≤ left
  common_le_right : common ≤ right

namespace Matching

variable {m : Matching} {i j i' j' k : Nat}

def Rel (m : Matching) (i j : Nat) : Prop :=
  (i = j ∧ i < m.common) ∨ ∃ x, i = m.left + x ∧ j = m.right + x

theorem Rel.eq_iff (h : m.Rel i j) (h' : m.Rel i' j') : i = i' ↔ j = j' := by
  have hl := m.common_le_left
  have hr := m.common_le_right
  rcases h with ⟨rfl, hi⟩ | ⟨x, rfl, rfl⟩
  · rcases h' with ⟨rfl, hi'⟩ | ⟨y, rfl, rfl⟩ <;> omega
  · rcases h' with ⟨rfl, hi'⟩ | ⟨y, rfl, rfl⟩ <;> omega

theorem biUnique (m : Matching) : Relator.BiUnique m.Rel :=
  ⟨fun _ _ _ h h' => (h.eq_iff h').mpr rfl, fun _ _ _ h h' => (h.eq_iff h').mp rfl⟩

end Matching

/-- How two runs are compared: the locations of both come from common ones, and objects and scopes
are matched. The global scope is the same in both. -/
structure Coupling (α β : Type) where
  Place : Type
  left : Place → α
  right : Place → β
  objects : Matching
  scopes : Matching
  global : 0 < scopes.common

namespace Value

inductive Alike (m : Matching) : Value → Value → Prop
  | int (i : Int64) : Alike m (.int i) (.int i)
  | builtin (b : Builtin) : Alike m (.builtin b) (.builtin b)
  | function {r r' : Nat} (h : m.Rel r r') : Alike m (.function r) (.function r')
  | array {r r' : Nat} (h : m.Rel r r') : Alike m (.array r) (.array r')
  | string {r r' : Nat} (h : m.Rel r r') : Alike m (.string r) (.string r')

theorem Alike.kind_eq {m : Matching} {v w : Value} (h : Alike m v w) : v.kind = w.kind := by
  cases h <;> rfl

theorem Alike.of_int {m : Matching} {v w : Value} (h : Alike m v w) (hk : v.kind = .int) :
    ∃ i, v = .int i ∧ w = .int i := by
  cases h with
  | int i => exact ⟨i, rfl, rfl⟩
  | _ => cases hk

theorem Alike.of_array {m : Matching} {v w : Value} (h : Alike m v w) (hk : v.kind = .array) :
    ∃ r r', v = .array r ∧ w = .array r' ∧ m.Rel r r' := by
  cases h with
  | array h => exact ⟨_, _, rfl, rfl, h⟩
  | _ => cases hk

theorem Alike.of_string {m : Matching} {v w : Value} (h : Alike m v w) (hk : v.kind = .string) :
    ∃ r r', v = .string r ∧ w = .string r' ∧ m.Rel r r' := by
  cases h with
  | string h => exact ⟨_, _, rfl, rfl, h⟩
  | _ => cases hk

theorem alike_self {m : Matching} {v : Value} (h : ∀ r, v.ref? = some r → r < m.common) :
    Alike m v v := by
  cases v with
  | int i => exact .int i
  | builtin b => exact .builtin b
  | function r => exact .function (.inl ⟨rfl, h r rfl⟩)
  | array r => exact .array (.inl ⟨rfl, h r rfl⟩)
  | string r => exact .string (.inl ⟨rfl, h r rfl⟩)

end Value

abbrev ItemsAlike (m : Matching) (xs ys : Array Value) : Prop :=
  List.Forall₂ (Value.Alike m) xs.toList ys.toList

theorem forall₂_set {β γ : Type} {R : β → γ → Prop} {xs : List β} {ys : List γ} {x : β} {y : γ}
    (h : List.Forall₂ R xs ys) (hxy : R x y) (i : Nat) :
    List.Forall₂ R (xs.set i x) (ys.set i y) := by
  induction h generalizing i with
  | nil => exact .nil
  | cons h hs ih =>
    cases i with
    | zero => exact .cons hxy hs
    | succ i => exact .cons h (ih i)

theorem forall₂_getElem? {β γ : Type} {R : β → γ → Prop} {xs : List β} {ys : List γ}
    (h : List.Forall₂ R xs ys) (i : Nat) : Option.Rel R xs[i]? ys[i]? := by
  induction h generalizing i with
  | nil => exact .none
  | cons h _ ih =>
    cases i with
    | zero => exact .some h
    | succ i => exact ih i

theorem map_eq_of_forall₂ {β γ δ : Type} {R : β → γ → Prop} {xs : List β} {ys : List γ}
    {f : β → δ} {g : γ → δ} (h : List.Forall₂ R xs ys)
    (hfg : ∀ x ∈ xs, ∀ y ∈ ys, R x y → f x = g y) : xs.map f = ys.map g := by
  induction h with
  | nil => rfl
  | @cons x y xs ys hxy _ ih =>
    have hhead : f x = g y := hfg x List.mem_cons_self y List.mem_cons_self hxy
    have htail := ih fun x' hx' y' hy' =>
      hfg x' (List.mem_cons_of_mem x hx') y' (List.mem_cons_of_mem y hy')
    rw [List.map_cons, List.map_cons, hhead, htail]

namespace ItemsAlike

variable {m : Matching} {xs ys : Array Value} {v w : Value}

theorem size_eq (h : ItemsAlike m xs ys) : xs.size = ys.size := by
  simpa using h.length_eq

theorem set (h : ItemsAlike m xs ys) (hv : v.Alike m w) (i : Nat) :
    ItemsAlike m (xs.setIfInBounds i v) (ys.setIfInBounds i w) := by
  simpa only [ItemsAlike, Array.toList_setIfInBounds] using forall₂_set h hv i

theorem push (h : ItemsAlike m xs ys) (hv : v.Alike m w) :
    ItemsAlike m (xs.push v) (ys.push w) := by
  simpa only [ItemsAlike, Array.toList_push] using List.rel_append h (.cons hv .nil)

theorem pop (h : ItemsAlike m xs ys) : ItemsAlike m xs.pop ys.pop := by
  have hlen := h.length_eq
  simp only [ItemsAlike, Array.toList_pop, List.dropLast_eq_take, hlen]
  exact List.forall₂_take _ h

theorem getElem? (h : ItemsAlike m xs ys) (i : Nat) :
    Option.Rel (Value.Alike m) xs[i]? ys[i]? := by
  simpa only [Array.getElem?_toList] using forall₂_getElem? h i

theorem getD (h : ItemsAlike m xs ys) (i : Nat) :
    (xs.getD i default).Alike m (ys.getD i default) := by
  have hi := h.getElem? i
  rw [Array.getD_eq_getD_getElem?, Array.getD_eq_getD_getElem?]
  generalize xs[i]? = x at hi ⊢
  generalize ys[i]? = y at hi ⊢
  cases hi with
  | none => exact .int 0
  | some hv => exact hv

theorem back? (h : ItemsAlike m xs ys) : Option.Rel (Value.Alike m) xs.back? ys.back? := by
  rw [Array.back?_eq_getElem?, Array.back?_eq_getElem?, h.size_eq]
  exact h.getElem? _

end ItemsAlike

variable {α β : Type}

/-- Objects are alike if they differ in locations and matched references only. Functions have to
be defined in the global scope. -/
inductive Object.Alike (c : Coupling α β) : Object α → Object β → Prop
  | function (d : FunctionDef c.Place) :
    Alike c (.function (d.map c.left) Scopes.globalScope)
      (.function (d.map c.right) Scopes.globalScope)
  | array {xs ys : Array Value} (h : ItemsAlike c.objects xs ys) : Alike c (.array xs) (.array ys)
  | string (text : String) : Alike c (.string text) (.string text)

namespace Heap

/-! ### How many objects were made -/

theorem size_modify (h : Heap α) (r : Nat) (f : Cell α → Cell α) :
    (h.modify r f).cells.size = h.cells.size := Array.size_modify ..

theorem size_retain (h : Heap α) (v : Value) : (h.retain v).cells.size = h.cells.size := by
  unfold retain
  split
  · rfl
  · exact size_modify ..

theorem size_retainAll (h : Heap α) (vs : List Value) :
    (h.retainAll vs).cells.size = h.cells.size := by
  induction vs generalizing h with
  | nil => rfl
  | cons v vs ih => exact (ih (h.retain v)).trans (size_retain h v)

theorem size_unhold (h : Heap α) (v : Value) : (h.unhold v).1.cells.size = h.cells.size := by
  unfold unhold
  split
  · rfl
  · split
    · rfl
    · split
      · exact Array.size_setIfInBounds ..
      · exact size_modify ..

theorem size_releaseAll (h : Heap α) (vs : List Value) :
    (h.releaseAll vs).cells.size = h.cells.size := by
  fun_induction releaseAll h vs with
  | case1 h => rfl
  | case2 h v vs freed ih => exact ih.trans (size_unhold h v)

theorem Keeps.lt_size {h : Heap α} {v : Value} (hk : h.Keeps v) {r : Nat} (hr : v.ref? = some r) :
    r < h.cells.size := by
  obtain ⟨c, hc, -⟩ := hk r hr
  refine Nat.lt_of_not_le fun hle => ?_
  simp [cell?_of_size_le hle] at hc

theorem Keeps.exists_object {h : Heap α} {v : Value} (hk : h.Keeps v) {r : Nat}
    (hr : v.ref? = some r) : ∃ o, h.object? r = some o ∧ o.kind = v.kind := by
  obtain ⟨c, hc, hkind⟩ := hk r hr
  exact ⟨c.object, by rw [Heap.object?, hc]; rfl, hkind⟩

/-- Both heaps have grown by the same number of objects, and where matched places both have an
object, the objects are alike. -/
structure Alike (c : Coupling α β) (h : Heap α) (h' : Heap β) : Prop where
  made : ∃ k, h.cells.size = c.objects.left + k ∧ h'.cells.size = c.objects.right + k
  objects : ∀ r r' o o', c.objects.Rel r r' → h.object? r = some o → h'.object? r' = some o' →
    o.Alike c o'

namespace Alike

variable {c : Coupling α β} {h : Heap α} {h' : Heap β} {r r' : Nat} {v v' : Value}

theorem rel_size (hh : h.Alike c h') : c.objects.Rel h.cells.size h'.cells.size := by
  obtain ⟨k, hk, hk'⟩ := hh.made
  exact .inr ⟨k, hk, hk'⟩

theorem retain (hh : h.Alike c h') (v v' : Value) : (h.retain v).Alike c (h'.retain v') := by
  refine ⟨?_, fun r r' o o' hr ho ho' => ?_⟩
  · rw [size_retain, size_retain]
    exact hh.made
  · rw [object?_retain] at ho ho'
    exact hh.objects r r' o o' hr ho ho'

theorem retainAll (hh : h.Alike c h') (vs vs' : List Value) :
    (h.retainAll vs).Alike c (h'.retainAll vs') := by
  refine ⟨?_, fun r r' o o' hr ho ho' => ?_⟩
  · rw [size_retainAll, size_retainAll]
    exact hh.made
  · rw [object?_retainAll] at ho ho'
    exact hh.objects r r' o o' hr ho ho'

theorem releaseAll (hh : h.Alike c h') (vs vs' : List Value) :
    (h.releaseAll vs).Alike c (h'.releaseAll vs') := by
  refine ⟨?_, fun r r' o o' hr ho ho' => ?_⟩
  · rw [size_releaseAll, size_releaseAll]
    exact hh.made
  -- Different objects may be freed, but one that stays in both heaps is not changed.
  · exact hh.objects r r' o o' hr (object?_releaseAll ho) (object?_releaseAll ho')

theorem alloc (hh : h.Alike c h') {o : Object α} {o' : Object β} (ho : o.Alike c o') :
    (h.alloc o).2.Alike c (h'.alloc o').2 := by
  refine ⟨?_, fun r r' p p' hr hp hp' => ?_⟩
  · obtain ⟨k, hk, hk'⟩ := hh.made
    refine ⟨k + 1, ?_, ?_⟩
    · rw [Heap.alloc, Array.size_push, hk, Nat.add_assoc]
    · rw [Heap.alloc, Array.size_push, hk', Nat.add_assoc]
  · rw [object?_alloc] at hp hp'
    have hiff := hh.rel_size.eq_iff hr
    by_cases hnew : h.cells.size = r
    · rw [if_pos hnew] at hp
      rw [if_pos (hiff.mp hnew)] at hp'
      cases hp
      cases hp'
      exact ho
    · rw [if_neg hnew] at hp
      rw [if_neg fun he => hnew (hiff.mpr he)] at hp'
      exact hh.objects r r' p p' hr hp hp'

theorem modifyItems (hh : h.Alike c h') (hr : c.objects.Rel r r')
    {f g : Array Value → Array Value}
    (hfg : ∀ xs ys, ItemsAlike c.objects xs ys → ItemsAlike c.objects (f xs) (g ys)) :
    (h.modifyItems r f).Alike c (h'.modifyItems r' g) := by
  refine ⟨?_, fun x x' p p' hx hp hp' => ?_⟩
  · rw [Heap.modifyItems, Heap.modifyItems, size_modify, size_modify]
    exact hh.made
  · have hiff := hr.eq_iff hx
    simp only [Heap.modifyItems, Heap.object?, cell?_modify] at hp hp'
    by_cases heq : r = x
    · rw [if_pos heq] at hp
      rw [if_pos (hiff.mp heq)] at hp'
      cases hc : h.cell? x with
      | none => simp [hc] at hp
      | some cell =>
        cases hc' : h'.cell? x' with
        | none => simp [hc'] at hp'
        | some cell' =>
          obtain ⟨n, o⟩ := cell
          obtain ⟨n', o'⟩ := cell'
          have halike : o.Alike c o' := hh.objects x x' o o' hx (by simp [Heap.object?, hc])
            (by simp [Heap.object?, hc'])
          rw [hc] at hp
          rw [hc'] at hp'
          cases halike with
          | function d =>
            cases hp
            cases hp'
            exact .function d
          | array hxs =>
            cases hp
            cases hp'
            exact .array (hfg _ _ hxs)
          | string text =>
            cases hp
            cases hp'
            exact .string text
    · rw [if_neg heq] at hp
      rw [if_neg fun he => heq (hiff.mpr he)] at hp'
      exact hh.objects x x' p p' hx hp hp'

/-! ### Looking at objects that both runs hold -/

theorem object_alike (hh : h.Alike c h') (hr : v.ref? = some r) (hr' : v'.ref? = some r')
    (hrel : c.objects.Rel r r') (hk : h.Keeps v) (hk' : h'.Keeps v') :
    ∃ o o', h.object? r = some o ∧ h'.object? r' = some o' ∧ o.kind = v.kind ∧ o.Alike c o' := by
  obtain ⟨o, ho, hkind⟩ := hk.exists_object hr
  obtain ⟨o', ho', -⟩ := hk'.exists_object hr'
  exact ⟨o, o', ho, ho', hkind, hh.objects r r' o o' hrel ho ho'⟩

theorem items? (hh : h.Alike c h') (hr : c.objects.Rel r r') (hk : h.Keeps (.array r))
    (hk' : h'.Keeps (.array r')) :
    ∃ xs ys, h.items? r = some xs ∧ h'.items? r' = some ys ∧ ItemsAlike c.objects xs ys := by
  have hitems := items?_of_keeps hk
  have hitems' := items?_of_keeps hk'
  obtain ⟨n, hc⟩ := cell?_of_items? hitems
  obtain ⟨n', hc'⟩ := cell?_of_items? hitems'
  have halike := hh.objects r r' _ _ hr (by rw [Heap.object?, hc]; rfl)
    (by rw [Heap.object?, hc']; rfl)
  cases halike with
  | array hxs => exact ⟨_, _, hitems, hitems', hxs⟩

theorem items (hh : h.Alike c h') (hr : c.objects.Rel r r') (hk : h.Keeps (.array r))
    (hk' : h'.Keeps (.array r')) : ItemsAlike c.objects (h.items r) (h'.items r') := by
  obtain ⟨xs, ys, hxs, hys, halike⟩ := hh.items? hr hk hk'
  rw [Heap.items, Heap.items, hxs, hys]
  exact halike

theorem text (hh : h.Alike c h') (hr : c.objects.Rel r r') (hk : h.Keeps (.string r))
    (hk' : h'.Keeps (.string r')) : h.text r = h'.text r' := by
  obtain ⟨⟨n, o⟩, hcell, hkind⟩ := hk r rfl
  obtain ⟨⟨n', o'⟩, hcell', -⟩ := hk' r' rfl
  have halike := hh.objects r r' o o' hr (by rw [Heap.object?, hcell]; rfl)
    (by rw [Heap.object?, hcell']; rfl)
  cases halike with
  | string text => simp [Heap.text, Heap.text?, hcell, hcell']
  | function d => cases hkind
  | array hxs => cases hkind

theorem function? (hh : h.Alike c h') (hr : c.objects.Rel r r') (hk : h.Keeps (.function r))
    (hk' : h'.Keeps (.function r')) :
    ∃ d : FunctionDef c.Place, h.function? r = some (d.map c.left, Scopes.globalScope) ∧
      h'.function? r' = some (d.map c.right, Scopes.globalScope) := by
  have href : ∀ x, (Value.function x).ref? = some x := fun _ => rfl
  obtain ⟨o, o', ho, ho', hkind, halike⟩ := hh.object_alike (href r) (href r') hr hk hk'
  cases halike with
  | function d => exact ⟨d, function?_eq_some.mpr ho, function?_eq_some.mpr ho'⟩
  | array hxs => cases hkind
  | string text => cases hkind

/-! ### Texts of values -/

theorem plainText (hh : h.Alike c h') (hv : v.Alike c.objects v') (hk : h.Keeps v)
    (hk' : h'.Keeps v') : h.plainText v = h'.plainText v' := by
  cases hv with
  | int i => rfl
  | builtin b => rfl
  | array hr => rfl
  | string hr => exact hh.text hr hk hk'
  | function hr =>
    obtain ⟨d, hd, hd'⟩ := hh.function? hr hk hk'
    simp only [Heap.plainText, functionName, hd, hd']
    rfl

end Alike

def Sealed (h : Heap α) : Prop := ∀ v ∈ h.contents, h.Keeps v

theorem Balanced.sealed {h : Heap α} {ext : List Value} (hb : h.Balanced ext) : h.Sealed :=
  fun v hv => hb.keeps v (List.mem_append_right _ hv)

theorem Sealed.held {h : Heap α} (hs : h.Sealed) {r : Nat} {o : Object α}
    (ho : h.object? r = some o) {v : Value} (hv : v ∈ o.held) : h.Keeps v := by
  obtain ⟨cell, hcell, rfl⟩ := Option.map_eq_some_iff.mp ho
  exact hs v (contents_of_object hcell hv)

theorem Sealed.item {h : Heap α} (hs : h.Sealed) {r : Nat} (hk : h.Keeps (.array r)) {v : Value}
    (hv : v ∈ (h.items r).toList) : h.Keeps v := by
  obtain ⟨n, hc⟩ := cell?_of_items? (items?_of_keeps hk)
  exact hs v (contents_of_object hc hv)

theorem Alike.textWithin {c : Coupling α β} {h : Heap α} {h' : Heap β} (hh : h.Alike c h')
    (hs : h.Sealed) (hs' : h'.Sealed) {n n' : Nat} {opened opened' : List Nat}
    (ho : List.Forall₂ c.objects.Rel opened opened') (hroom : h.Room n opened)
    (hroom' : h'.Room n' opened') {v v' : Value} (hv : v.Alike c.objects v') (hk : h.Keeps v)
    (hk' : h'.Keeps v') : h.textWithin n opened v = h'.textWithin n' opened' v' := by
  -- On the depth allowed on the left. Neither depth is ever used up, because the arrays that are
  -- open are all different.
  induction n generalizing n' opened opened' v v' with
  | zero => exact absurd hroom.pos (Nat.lt_irrefl 0)
  | succ n ih =>
    obtain ⟨n', rfl⟩ : ∃ m, n' = m + 1 := ⟨n' - 1, by have := hroom'.pos; omega⟩
    cases hv with
    | @array r r' hr =>
      have hmem : r ∈ opened ↔ r' ∈ opened' := List.rel_mem c.objects.biUnique hr ho
      by_cases hopen : r ∈ opened
      · simp only [Heap.textWithin, if_pos hopen, if_pos (hmem.mp hopen)]
      · have hopen' : r' ∉ opened' := fun he => hopen (hmem.mpr he)
        have hnext := hroom.cons hopen (hk.lt_size rfl)
        have hnext' := hroom'.cons hopen' (hk'.lt_size rfl)
        have htexts := map_eq_of_forall₂ (hh.items hr hk hk') fun w hw w' hw' halike =>
          ih (.cons hr ho) hnext hnext' halike (hs.item hk hw) (hs'.item hk' hw')
        simp only [Heap.textWithin, if_neg hopen, if_neg hopen', htexts]
    | int i => rfl
    | builtin b => rfl
    | function hr => exact hh.plainText (.function hr) hk hk'
    | string hr => exact hh.plainText (.string hr) hk hk'

theorem Alike.render {c : Coupling α β} {h : Heap α} {h' : Heap β} (hh : h.Alike c h')
    (hs : h.Sealed) (hs' : h'.Sealed) {v v' : Value} (hv : v.Alike c.objects v') (hk : h.Keeps v)
    (hk' : h'.Keeps v') : h.render v = h'.render v' := by
  rw [render_eq, render_eq]
  exact hh.textWithin hs hs' .nil h.room_nil h'.room_nil hv hk hk'

end Heap

end Scriptlet
