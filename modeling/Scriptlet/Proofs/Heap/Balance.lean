import Scriptlet.Proofs.Heap.Cells

/-!
A heap is balanced against the values held outside of it when every count is the number of
holders, outside and in arrays together. Each operation on the heap keeps the balance, if the
values held outside change with it as its name says.
-/

namespace Scriptlet

variable {α : Type}

/-- How many of the values refer to the object `r`. -/
def holders (r : Nat) (vs : List Value) : Nat := vs.countP fun v => v.ref? = some r

@[simp] theorem holders_nil (r : Nat) : holders r [] = 0 := rfl

@[simp] theorem holders_append (r : Nat) (vs ws : List Value) :
    holders r (vs ++ ws) = holders r vs + holders r ws := List.countP_append

theorem holders_cons (r : Nat) (v : Value) (vs : List Value) :
    holders r (v :: vs) = holders r vs + if v.ref? = some r then 1 else 0 := by
  simp [holders, List.countP_cons]

theorem holders_eq_zero {r : Nat} {vs : List Value} :
    holders r vs = 0 ↔ ∀ v ∈ vs, v.ref? ≠ some r := by
  simp [holders, List.countP_eq_zero]

theorem holders_perm {vs ws : List Value} (h : vs.Perm ws) (r : Nat) :
    holders r vs = holders r ws := h.countP_eq _

/-- Both lists hold the same objects, each as often. -/
def SameHeld (vs ws : List Value) : Prop := ∀ v, v.ref?.isSome → vs.count v = ws.count v

theorem SameHeld.symm {vs ws : List Value} (h : SameHeld vs ws) : SameHeld ws vs :=
  fun v hv => (h v hv).symm

theorem SameHeld.perm {vs ws : List Value} (h : SameHeld vs ws) :
    (vs.filter (·.ref?.isSome)).Perm (ws.filter (·.ref?.isSome)) := by
  rw [List.perm_iff_count]
  intro v
  by_cases hv : v.ref?.isSome
  · have hcount := fun us => List.count_filter (p := fun w : Value => w.ref?.isSome) (l := us) hv
    rw [hcount vs, hcount ws, h v hv]
  · have hnot : ∀ us : List Value, v ∉ us.filter (·.ref?.isSome) :=
      fun us hmem => hv (List.mem_filter.mp hmem).2
    rw [List.count_eq_zero_of_not_mem (hnot vs), List.count_eq_zero_of_not_mem (hnot ws)]

theorem holders_filter (r : Nat) (vs : List Value) :
    holders r (vs.filter (·.ref?.isSome)) = holders r vs := by
  rw [holders, List.countP_filter]
  refine List.countP_congr fun v _ => ?_
  cases hv : v.ref? <;> simp

theorem SameHeld.holders_eq {vs ws : List Value} (h : SameHeld vs ws) (r : Nat) :
    holders r vs = holders r ws := by
  rw [← holders_filter r vs, ← holders_filter r ws]
  exact holders_perm h.perm r

theorem SameHeld.mem {vs ws : List Value} (h : SameHeld vs ws) {v : Value} (hv : v.ref?.isSome)
    (hmem : v ∈ vs) : v ∈ ws := by
  have hcount := h v hv
  have hpos := List.count_pos_iff.mpr hmem
  exact List.count_pos_iff.mp (by omega)

theorem sameHeld_of_perm {vs ws : List Value} (h : vs.Perm ws) : SameHeld vs ws :=
  fun v _ => h.count_eq v

theorem sameHeld_cons {v : Value} (hv : v.ref? = none) (vs : List Value) :
    SameHeld (v :: vs) vs := by
  intro w hw
  have hne : v ≠ w := by
    rintro rfl
    simp [hv] at hw
  exact List.count_cons_of_ne hne

def Object.kind : Object α → Kind
  | .function _ _ => .function
  | .array _ => .array
  | .string _ => .string

theorem perm_set {β : Type} {xs : List β} {i : Nat} {x : β} (h : xs[i]? = some x) (y : β) :
    (x :: xs.set i y).Perm (y :: xs) := by
  induction xs generalizing i with
  | nil => simp at h
  | cons z zs ih =>
    cases i with
    | zero =>
      obtain rfl : z = x := by simpa using h
      exact List.Perm.swap ..
    | succ i =>
      have hzs := ih (i := i) (by simpa using h)
      have hout : (x :: (z :: zs).set (i + 1) y).Perm (z :: x :: zs.set i y) := List.Perm.swap ..
      exact hout.trans ((hzs.cons z).trans (List.Perm.swap ..))

namespace Heap

variable {h : Heap α} {ext : List Value}

/-- The number of holders that the object counts; none if it is not there. -/
def countAt (h : Heap α) (r : Nat) : Nat := ((h.cell? r).map Cell.count).getD 0

/-- All elements of all arrays. -/
def contents (h : Heap α) : List Value :=
  h.cells.toList.flatMap fun c => (c.map fun c => c.object.held).getD []

/-- The object that a value refers to is there and is what the value says. -/
def Keeps (h : Heap α) (v : Value) : Prop :=
  ∀ r, v.ref? = some r → ∃ c, h.cell? r = some c ∧ c.object.kind = v.kind

/-- Every count is the number of holders, in `ext` and in arrays, and no holder is deceived. -/
structure Balanced (h : Heap α) (ext : List Value) : Prop where
  count : ∀ r, h.countAt r = holders r ext + holders r h.contents
  positive : ∀ r c, h.cell? r = some c → 0 < c.count
  live : h.live = h.cells.toList.countP Option.isSome
  keeps : ∀ v ∈ ext ++ h.contents, h.Keeps v

/-! ### The contents after each operation -/

theorem contents_modify_perm {r : Nat} {f : Cell α → Cell α} {c : Cell α}
    (hc : h.cell? r = some c) :
    (c.object.held ++ (h.modify r f).contents).Perm ((f c).object.held ++ h.contents) := by
  have hflat := (perm_set (cells_of_cell? hc) (some (f c))).flatMap_right
    fun c : Option (Cell α) => (c.map fun c => c.object.held).getD []
  simpa [contents, modify, List.modify_eq_set, cells_of_cell? hc] using hflat

theorem contents_free_perm {r : Nat} {c : Cell α} (hc : h.cell? r = some c) :
    (c.object.held ++ (h.free r).contents).Perm h.contents := by
  have hflat := (perm_set (cells_of_cell? hc) none).flatMap_right
    fun c : Option (Cell α) => (c.map fun c => c.object.held).getD []
  simpa [contents, free] using hflat

theorem contents_alloc (h : Heap α) (o : Object α) :
    (h.alloc o).2.contents = h.contents ++ o.held := by
  simp [contents, alloc]

theorem contents_of_object {r : Nat} {c : Cell α} (hc : h.cell? r = some c) {v : Value}
    (hv : v ∈ c.object.held) : v ∈ h.contents :=
  List.mem_flatMap.mpr ⟨some c, List.mem_of_getElem? (cells_of_cell? hc), hv⟩

theorem countAt_of_cell? {r : Nat} {c : Cell α} (hc : h.cell? r = some c) :
    h.countAt r = c.count := by simp [countAt, hc]

theorem countAt_of_none {r : Nat} (hc : h.cell? r = none) : h.countAt r = 0 := by
  simp [countAt, hc]

theorem items?_of_keeps {r : Nat} (hk : h.Keeps (.array r)) : h.items? r = some (h.items r) := by
  obtain ⟨⟨n, o⟩, hc, hkind⟩ := hk r rfl
  cases o with
  | array xs => simp [items, items?, hc]
  | function d closure => cases hkind
  | string text => cases hkind

/-! ### Keeping the balance -/

theorem keeps_of_ref?_none (h : Heap α) {v : Value} (hv : v.ref? = none) : h.Keeps v := by
  intro r hr
  simp [hv] at hr

theorem Keeps.mono {h' : Heap α} {v : Value} (hk : h.Keeps v)
    (hcells : ∀ r c, v.ref? = some r → h.cell? r = some c →
      ∃ c', h'.cell? r = some c' ∧ c'.object.kind = c.object.kind) : h'.Keeps v := by
  intro r hr
  obtain ⟨c, hc, hkind⟩ := hk r hr
  obtain ⟨c', hc', hkind'⟩ := hcells r c hr hc
  exact ⟨c', hc', hkind'.trans hkind⟩

theorem Keeps.retain {v w : Value} (hk : h.Keeps w) : (h.retain v).Keeps w := by
  cases hr : v.ref? with
  | none => rwa [Heap.retain, hr]
  | some r =>
    rw [Heap.retain, hr]
    refine hk.mono fun x c _ hc => ?_
    rw [cell?_modify, hc]
    split
    · exact ⟨_, rfl, rfl⟩
    · exact ⟨c, rfl, rfl⟩

namespace Balanced

theorem empty : (Heap.empty : Heap α).Balanced [] := by
  refine ⟨fun r => countAt_of_none (cell?_empty r), fun r c hc => ?_, rfl, fun v hv => ?_⟩
  · simp at hc
  · simp [contents, Heap.empty] at hv

theorem congr {ext' : List Value} (hb : h.Balanced ext) (hs : SameHeld ext ext') :
    h.Balanced ext' := by
  refine ⟨fun r => by rw [hb.count, hs.holders_eq], hb.positive, hb.live, fun v hv => ?_⟩
  cases hr : v.ref? with
  | none => exact h.keeps_of_ref?_none hr
  | some r =>
    rcases List.mem_append.mp hv with hv | hv
    · have hmem := hs.symm.mem (by simp [hr]) hv
      exact hb.keeps v (List.mem_append_left _ hmem)
    · exact hb.keeps v (List.mem_append_right _ hv)

theorem perm {ext' : List Value} (hb : h.Balanced ext) (hp : ext.Perm ext') : h.Balanced ext' :=
  hb.congr (sameHeld_of_perm hp)

theorem cons_of_ref?_none {v : Value} (hv : v.ref? = none) :
    h.Balanced (v :: ext) ↔ h.Balanced ext :=
  ⟨fun hb => hb.congr (sameHeld_cons hv ext), fun hb => hb.congr (sameHeld_cons hv ext).symm⟩

/-- An object and the values held outside change together. -/
theorem modify {ext' : List Value} {r : Nat} {c : Cell α} {f : Cell α → Cell α}
    (hb : h.Balanced ext) (hc : h.cell? r = some c) (hkind : (f c).object.kind = c.object.kind)
    (hpos : 0 < (f c).count)
    (hsum : ∀ x, holders x ext' + holders x (f c).object.held + (if r = x then c.count else 0) =
      holders x ext + holders x c.object.held + if r = x then (f c).count else 0)
    (hkeeps : ∀ v ∈ ext' ++ (f c).object.held, h.Keeps v) : (h.modify r f).Balanced ext' := by
  have hperm := contents_modify_perm (f := f) hc
  have hcell : ∀ x c', h.cell? x = some c' →
      ∃ c'', (h.modify r f).cell? x = some c'' ∧ c''.object.kind = c'.object.kind := by
    intro x c' hc'
    rw [cell?_modify]
    split
    · rename_i hx
      subst hx
      obtain rfl : c = c' := Option.some.inj (hc.symm.trans hc')
      exact ⟨f c, by simp [hc], hkind⟩
    · exact ⟨c', hc', rfl⟩
  refine ⟨fun x => ?_, fun x c' hc' => ?_, ?_, fun v hv => ?_⟩
  · have hcount := hb.count x
    have hcontents := holders_perm hperm x
    have hx := hsum x
    rw [holders_append, holders_append] at hcontents
    by_cases hrx : r = x
    · subst hrx
      have hnew : (h.modify r f).countAt r = (f c).count :=
        countAt_of_cell? (by rw [cell?_modify, if_pos rfl, hc]; rfl)
      rw [countAt_of_cell? hc] at hcount
      simp only [if_true] at hx
      omega
    · have hsame : (h.modify r f).countAt x = h.countAt x := by
        rw [countAt, countAt, cell?_modify, if_neg hrx]
      simp only [if_neg hrx] at hx
      omega
  · rw [cell?_modify] at hc'
    split at hc'
    · rename_i hx
      subst hx
      rw [hc] at hc'
      exact Option.some.inj hc' ▸ hpos
    · exact hb.positive x c' hc'
  · have hset := (perm_set (cells_of_cell? hc) (some (f c))).countP_eq Option.isSome
    have hlive := hb.live
    simp only [List.countP_cons, Option.isSome_some, if_true, Nat.add_right_cancel_iff] at hset
    rw [Heap.modify, Array.toList_modify, List.modify_eq_set, cells_of_cell? hc]
    exact hlive.trans hset.symm
  · have hold : h.Keeps v := by
      rcases List.mem_append.mp hv with hv | hv
      · exact hkeeps v (List.mem_append_left _ hv)
      · have hmem := hperm.subset (List.mem_append_right _ hv)
        rcases List.mem_append.mp hmem with hv | hv
        · exact hkeeps v (List.mem_append_right _ hv)
        · exact hb.keeps v (List.mem_append_right _ hv)
    exact hold.mono fun x c' _ hc' => hcell x c' hc'

theorem retain {v : Value} (hb : h.Balanced ext) (hv : h.Keeps v) :
    (h.retain v).Balanced (v :: ext) := by
  cases hr : v.ref? with
  | none =>
    rw [Heap.retain, hr]
    exact (cons_of_ref?_none hr).mpr hb
  | some r =>
    obtain ⟨c, hc, _⟩ := hv r hr
    rw [Heap.retain, hr]
    refine hb.modify hc rfl (Nat.succ_pos _) (fun x => ?_) fun w hw => ?_
    · simp only [holders_cons, hr, Option.some.injEq]
      split <;> omega
    · simp only [List.cons_append, List.mem_cons, List.mem_append] at hw
      rcases hw with rfl | hw | hw
      · exact hv
      · exact hb.keeps w (List.mem_append_left _ hw)
      · exact hb.keeps w (List.mem_append_right _ (contents_of_object hc hw))

theorem retainAll {vs : List Value} (hb : h.Balanced ext) (hvs : ∀ v ∈ vs, h.Keeps v) :
    (h.retainAll vs).Balanced (vs ++ ext) := by
  induction vs generalizing h ext with
  | nil => exact hb
  | cons v vs ih =>
    have hone := hb.retain (hvs v List.mem_cons_self)
    have hall := ih hone fun w hw => (hvs w (List.mem_cons_of_mem v hw)).retain
    exact hall.perm List.perm_middle

/-- The only holder takes the object along, and becomes the holder of what the object held. -/
theorem free {v : Value} {r : Nat} {c : Cell α} (hb : h.Balanced (v :: ext)) (hr : v.ref? = some r)
    (hc : h.cell? r = some c) (hle : c.count ≤ 1) : (h.free r).Balanced (c.object.held ++ ext) := by
  have hcount := hb.count
  have hperm := contents_free_perm hc
  have hone : holders r ext = 0 ∧ holders r h.contents = 0 := by
    have hcr := hcount r
    have hpos := hb.positive r c hc
    rw [countAt_of_cell? hc, holders_cons, if_pos hr] at hcr
    omega
  have hcontents : ∀ x, holders x c.object.held + holders x (h.free r).contents =
      holders x h.contents := by
    intro x
    rw [← holders_append]
    exact holders_perm hperm x
  refine ⟨fun x => ?_, fun x c' hc' => ?_, ?_, fun w hw => ?_⟩
  · have hx := hcontents x
    rw [holders_append]
    by_cases hrx : r = x
    · subst hrx
      have hnew : (h.free r).countAt r = 0 := countAt_of_none (by rw [cell?_free, if_pos rfl])
      omega
    · have hsame : (h.free r).countAt x = h.countAt x := by
        rw [countAt, countAt, cell?_free, if_neg hrx]
      have hcx := hcount x
      rw [holders_cons, hr, if_neg fun he => hrx (Option.some.inj he)] at hcx
      omega
  · rw [cell?_free] at hc'
    split at hc'
    · cases hc'
    · exact hb.positive x c' hc'
  · have hset := (perm_set (cells_of_cell? hc) none).countP_eq Option.isSome
    have hlive := hb.live
    simp only [List.countP_cons, Option.isSome_some, Option.isSome_none, if_true,
      Bool.false_eq_true, if_false, Nat.add_zero] at hset
    rw [Heap.free, Array.toList_setIfInBounds]
    change h.live - 1 = _
    omega
  · have hmem : w ∈ ext ++ h.contents := by
      simp only [List.append_assoc, List.mem_append] at hw ⊢
      rcases hw with hw | hw | hw
      · exact .inr (contents_of_object hc hw)
      · exact .inl hw
      · exact .inr (hperm.subset (List.mem_append_right _ hw))
    have hne : w.ref? ≠ some r := by
      rcases List.mem_append.mp hmem with hw | hw
      · exact holders_eq_zero.mp hone.1 w hw
      · exact holders_eq_zero.mp hone.2 w hw
    have hold : h.Keeps w := hb.keeps w (List.mem_cons_of_mem v hmem)
    refine hold.mono fun x c' hx hc' => ⟨c', ?_, rfl⟩
    have hrx : ¬ r = x := by
      rintro rfl
      exact hne hx
    rw [cell?_free, if_neg hrx]
    exact hc'

theorem unhold {v : Value} (hb : h.Balanced (v :: ext)) :
    (h.unhold v).1.Balanced ((h.unhold v).2 ++ ext) := by
  cases hr : v.ref? with
  | none =>
    rw [Heap.unhold, hr]
    exact (cons_of_ref?_none hr).mp hb
  | some r =>
    obtain ⟨c, hc, -⟩ := hb.keeps v (by simp) r hr
    simp only [Heap.unhold, hr, hc]
    split
    · rename_i hle
      exact hb.free hr hc hle
    · rename_i hlt
      refine hb.modify hc rfl (by simp only; omega) (fun x => ?_) fun w hw => ?_
      · simp only [List.nil_append, holders_cons, hr, Option.some.injEq]
        split <;> omega
      · simp only [List.nil_append, List.mem_append] at hw
        rcases hw with hw | hw
        · exact hb.keeps w (by simp [hw])
        · exact hb.keeps w (List.mem_append_right _ (contents_of_object hc hw))

theorem releaseAll {vs : List Value} (hb : h.Balanced (vs ++ ext)) :
    (h.releaseAll vs).Balanced ext := by
  fun_induction Heap.releaseAll h vs with
  | case1 h => exact hb
  | case2 h v vs freed ih =>
    have hun : freed.1.Balanced (freed.2 ++ (vs ++ ext)) := hb.unhold
    rw [← List.append_assoc] at hun
    exact ih hun

theorem release {v : Value} (hb : h.Balanced (v :: ext)) : (h.release v).Balanced ext := by
  have hone : h.Balanced ([v] ++ ext) := hb
  exact hone.releaseAll

theorem alloc {o : Object α} {v : Value} (hb : h.Balanced (o.held ++ ext))
    (hv : v.ref? = some h.cells.size) (hkind : o.kind = v.kind) :
    (h.alloc o).2.Balanced (v :: ext) := by
  have hnone : h.cell? h.cells.size = none := cell?_of_size_le (Nat.le_refl _)
  refine ⟨fun x => ?_, fun x c hc => ?_, ?_, fun w hw => ?_⟩
  · have hcount := hb.count x
    rw [contents_alloc, holders_cons, hv]
    simp only [holders_append, Option.some.injEq] at hcount ⊢
    by_cases hx : h.cells.size = x
    · subst hx
      have hnew : (h.alloc o).2.countAt h.cells.size = 1 :=
        countAt_of_cell? ((cell?_alloc h o _).trans (if_pos rfl))
      rw [countAt_of_none hnone] at hcount
      simp only [if_true]
      omega
    · have hsame : (h.alloc o).2.countAt x = h.countAt x := by
        rw [countAt, countAt, cell?_alloc, if_neg hx]
      rw [if_neg hx]
      omega
  · rw [cell?_alloc] at hc
    split at hc
    · cases hc
      exact Nat.one_pos
    · exact hb.positive x c hc
  · have hlive := hb.live
    simp [Heap.alloc, hlive]
  · have hold : ∀ u, h.Keeps u → (h.alloc o).2.Keeps u := by
      intro u hu
      refine hu.mono fun x c _ hc => ⟨c, ?_, rfl⟩
      have hx : ¬ h.cells.size = x := by
        rintro rfl
        simp [hnone] at hc
      rw [cell?_alloc, if_neg hx, hc]
    rw [contents_alloc] at hw
    simp only [List.cons_append, List.mem_cons, List.mem_append] at hw
    rcases hw with rfl | hw | hw | hw
    · intro x hx
      obtain rfl : h.cells.size = x := Option.some.inj (hv.symm.trans hx)
      exact ⟨_, by rw [cell?_alloc, if_pos rfl], hkind⟩
    · exact hold w (hb.keeps w (by simp [hw]))
    · exact hold w (hb.keeps w (by simp [hw]))
    · exact hold w (hb.keeps w (by simp [hw]))

theorem modifyItems {ext' : List Value} {r : Nat} {items : Array Value}
    {f : Array Value → Array Value} (hb : h.Balanced ext) (hitems : h.items? r = some items)
    (hp : (ext ++ items.toList).Perm (ext' ++ (f items).toList)) :
    (h.modifyItems r f).Balanced ext' := by
  obtain ⟨n, hc⟩ := cell?_of_items? hitems
  have hpos : 0 < n := hb.positive r _ hc
  refine hb.modify hc rfl hpos (fun x => ?_) fun v hv => ?_
  · have hx := holders_perm hp x
    simp only [holders_append] at hx
    simp only [Object.held]
    split <;> omega
  · have hmem := hp.symm.subset hv
    rcases List.mem_append.mp hmem with hv | hv
    · exact hb.keeps v (List.mem_append_left _ hv)
    · exact hb.keeps v (List.mem_append_right _ (contents_of_object hc hv))

/-! What an array gains or gives away changes hands with somebody outside. -/

variable {r : Nat} {items : Array Value} {v : Value}

theorem keeps_item (hb : h.Balanced ext) (hitems : h.items? r = some items) {n : Nat}
    (hn : n < items.size) : h.Keeps (items.getD n default) := by
  obtain ⟨m, hc⟩ := cell?_of_items? hitems
  refine hb.keeps _ (List.mem_append_right _ (contents_of_object hc ?_))
  rw [Array.getD_eq_getD_getElem?, Array.getElem?_eq_getElem hn]
  exact Array.getElem_mem_toList hn

theorem replaceItem (hb : h.Balanced (v :: ext)) (hitems : h.items? r = some items) {n : Nat}
    (hn : n < items.size) :
    (h.modifyItems r (·.setIfInBounds n v)).Balanced (items.getD n default :: ext) := by
  have hget : items.toList[n]? = some (items.getD n default) := by
    rw [Array.getD_eq_getD_getElem?, Array.getElem?_toList, Array.getElem?_eq_getElem hn]
    rfl
  have hswap := List.perm_iff_count.mp (perm_set hget v)
  refine hb.modifyItems hitems (List.perm_iff_count.mpr fun x => ?_)
  have hx := hswap x
  simp only [Array.toList_setIfInBounds, List.cons_append, List.count_cons,
    List.count_append] at hx ⊢
  omega

theorem appendItem (hb : h.Balanced (v :: ext)) (hitems : h.items? r = some items) :
    (h.modifyItems r (·.push v)).Balanced ext := by
  refine hb.modifyItems hitems (List.perm_iff_count.mpr fun x => ?_)
  simp only [Array.toList_push, List.cons_append, List.count_cons, List.count_append,
    List.count_nil]
  omega

theorem dropItem (hb : h.Balanced ext) (hitems : h.items? r = some items)
    (hback : items.back? = some v) : (h.modifyItems r Array.pop).Balanced (v :: ext) := by
  have hlast : items.toList = items.pop.toList ++ [v] := by
    rw [← Array.getLast?_toList, List.getLast?_eq_some_iff] at hback
    obtain ⟨vs, hvs⟩ := hback
    rw [Array.toList_pop, hvs, List.dropLast_concat]
  refine hb.modifyItems hitems (List.perm_iff_count.mpr fun x => ?_)
  simp only [hlast, List.cons_append, List.count_cons, List.count_append, List.count_nil]
  omega

end Balanced

end Heap

end Scriptlet
