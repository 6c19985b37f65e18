import Mathlib.Data.List.Dedup
import Scriptlet.Proofs.Heap.Cycle
import Scriptlet.Proofs.Heap.Rendering

/-!
The text of a value, told by where its parts stand. A part is named by the path that leads to it
from the value shown; one array may stand in many places. It is written out wherever it stands,
unless it stands inside itself.
-/

namespace Scriptlet

theorem map_range_eq {β γ : Type} {xs : Array β} {f : Nat → γ} {g : β → γ}
    (h : ∀ i x, xs[i]? = some x → f i = g x) : (List.range xs.size).map f = xs.toList.map g := by
  refine List.ext_getElem (by simp) fun i hi hi' => ?_
  have hlt : i < xs.size := by simpa using hi
  simpa using h i xs[i] (Array.getElem?_eq_getElem hlt)

namespace Heap

variable {α : Type} {h : Heap α} {root v : Value} {path opened : List Nat} {t t' : String}

/-- The part of a value that stands at an index. -/
def child? (h : Heap α) : Value → Nat → Option Value
  | .array r, i => (h.items r)[i]?
  | _, _ => none

/-- What stands at the end of a path of indices. -/
def at? (h : Heap α) (root : Value) (path : List Nat) : Option Value := path.foldlM h.child? root

def arrayAt? (h : Heap α) (root : Value) (path : List Nat) : Option Nat :=
  match h.at? root path with
  | some (.array r) => some r
  | _ => none

/-- The arrays that a path enters before it ends. -/
def enclosing (h : Heap α) (root : Value) (path : List Nat) : List Nat :=
  (List.range path.length).filterMap fun n => h.arrayAt? root (path.take n)

/-- Texts for all that stands somewhere below the root: an array is written with its elements in
their order, but inside itself by a mark. -/
structure Texts (h : Heap α) (root : Value) (text : List Nat → String) : Prop where
  plain : ∀ path v, h.at? root path = some v → v.kind ≠ .array → text path = h.plainText v
  inside : ∀ path r, h.at? root path = some (.array r) → r ∈ h.enclosing root path →
    text path = "[...]"
  array : ∀ path r, h.at? root path = some (.array r) → r ∉ h.enclosing root path →
    text path = "[" ++ String.intercalate ", "
      ((List.range (h.items r).size).map fun i => text (path ++ [i])) ++ "]"

/-- Texts with every array written out in full. A value has none if it would go on for ever. -/
inductive WritesFully (h : Heap α) : Value → String → Prop
  | plain {v : Value} (hv : v.kind ≠ .array) : WritesFully h v (h.plainText v)
  | array {r : Nat} (text : Value → String)
    (hitems : ∀ v ∈ (h.items r).toList, WritesFully h v (text v)) :
    WritesFully h (.array r) ("[" ++ String.intercalate ", " ((h.items r).toList.map text) ++ "]")

/-! ### Paths -/

theorem at?_concat (root : Value) (path : List Nat) (i : Nat) :
    h.at? root (path ++ [i]) = (h.at? root path).bind (h.child? · i) := by
  simp [at?, List.foldlM_append]

theorem at?_item {r i : Nat} (hr : h.at? root path = some (.array r)) :
    h.at? root (path ++ [i]) = (h.items r)[i]? := by
  rw [at?_concat, hr]
  rfl

theorem enclosing_concat (root : Value) (path : List Nat) (i : Nat) :
    h.enclosing root (path ++ [i]) = h.enclosing root path ++ (h.arrayAt? root path).toList := by
  have hsame : ∀ n ∈ List.range path.length,
      h.arrayAt? root ((path ++ [i]).take n) = h.arrayAt? root (path.take n) := by
    intro n hn
    rw [List.take_append_of_le_length (Nat.le_of_lt (List.mem_range.mp hn))]
  have hlast : (path ++ [i]).take path.length = path := by simp
  rw [enclosing, List.length_append, List.length_singleton, List.range_succ, List.filterMap_append,
    List.filterMap_congr hsame]
  cases harray : h.arrayAt? root path <;> simp [enclosing, hlast, harray]

theorem enclosing_item {r i : Nat} (hr : h.at? root path = some (.array r)) :
    h.enclosing root (path ++ [i]) = h.enclosing root path ++ [r] := by
  rw [enclosing_concat, arrayAt?, hr]
  rfl

theorem enclosing_lt_size (hv : h.at? root path = some v) :
    ∀ r ∈ h.enclosing root path, r < h.cells.size := by
  induction path using List.reverseRecOn generalizing v with
  | nil => nofun
  | append_singleton path i ih =>
    rw [at?_concat] at hv
    obtain ⟨w, hw, hchild⟩ := Option.bind_eq_some_iff.mp hv
    intro r hr
    cases w with
    | array x =>
      rw [enclosing_item hw] at hr
      rcases List.mem_append.mp hr with hr | hr
      · exact ih hw r hr
      · obtain rfl := List.mem_singleton.mp hr
        -- What stands in an array shows that the array is there.
        refine Nat.lt_of_not_le fun hle => ?_
        simp [child?, items_of_size_le hle] at hchild
    | _ => cases hchild

/-! ### The text inside the arrays that are open -/

theorem Writes.congr {opened' : List Nat} (hw : h.Writes opened v t)
    (hsame : ∀ r, r ∈ opened ↔ r ∈ opened') : h.Writes opened' v t := by
  induction hw generalizing opened' with
  | plain hv => exact .plain hv
  | again hr => exact .again ((hsame _).mp hr)
  | array text hr _ ih =>
    refine .array text (fun hr' => hr ((hsame _).mpr hr')) fun v hv => ih v hv fun x => ?_
    rw [List.mem_cons, List.mem_cons, hsame]

theorem Writes.unique (hw : h.Writes opened v t) (hw' : h.Writes opened v t') : t = t' := by
  induction hw generalizing t' with
  | plain hv =>
    cases hw' with
    | plain _ => rfl
    | again _ => exact absurd rfl hv
    | array _ _ _ => exact absurd rfl hv
  | again hr =>
    cases hw' with
    | plain hv => exact absurd rfl hv
    | again _ => rfl
    | array _ hr' _ => exact absurd hr hr'
  | array text hr _ ih =>
    cases hw' with
    | plain hv => exact absurd rfl hv
    | again hr' => exact absurd hr' hr
    | array text' _ hitems' =>
      rw [List.map_congr_left fun v hv => ih v hv (hitems' v hv)]

/-- The text of what stands at the end of a path. -/
def textAt (h : Heap α) (root : Value) (path : List Nat) : String :=
  match h.at? root path with
  | none => ""
  | some v => h.textWithin (h.cells.size + 1) (h.enclosing root path).dedup v

theorem writes_textAt (hv : h.at? root path = some v) :
    h.Writes (h.enclosing root path) v (h.textAt root path) := by
  have hroom : h.Room (h.cells.size + 1) (h.enclosing root path).dedup := by
    refine ⟨List.nodup_dedup _, fun r hr => enclosing_lt_size hv r (List.mem_dedup.mp hr), ?_⟩
    omega
  rw [textAt, hv]
  exact (writes_textWithin hroom v).congr fun r => List.mem_dedup

theorem Writes.array_inv {r : Nat} (hw : h.Writes opened (.array r) t) (hr : r ∉ opened) :
    ∃ text : Value → String, (∀ v ∈ (h.items r).toList, h.Writes (r :: opened) v (text v)) ∧
      t = "[" ++ String.intercalate ", " ((h.items r).toList.map text) ++ "]" := by
  cases hw with
  | plain hkind => exact absurd rfl hkind
  | again hmem => exact absurd hmem hr
  | array text _ hitems => exact ⟨text, hitems, rfl⟩

theorem texts_textAt (h : Heap α) (root : Value) : h.Texts root (h.textAt root) where
  plain path v hv hkind := (writes_textAt hv).unique (.plain hkind)
  inside path r hr hmem := (writes_textAt hr).unique (.again hmem)
  array path r hr hmem := by
    obtain ⟨text, hitems, htext⟩ := (writes_textAt hr).array_inv hmem
    have htexts : (List.range (h.items r).size).map (fun i => h.textAt root (path ++ [i])) =
        (h.items r).toList.map text := by
      refine map_range_eq fun i x hx => ?_
      have hpart := writes_textAt ((at?_item hr).trans hx)
      have hmem : x ∈ (h.items r).toList := List.mem_of_getElem? (Array.getElem?_toList ▸ hx)
      refine hpart.unique ((hitems x hmem).congr fun y => ?_)
      rw [enclosing_item hr, List.mem_cons, List.mem_append, List.mem_singleton, or_comm]
    rw [htext, htexts]

theorem Texts.eq_of_writes {text : List Nat → String} (ht : h.Texts root text)
    (hw : h.Writes opened v t) (hv : h.at? root path = some v)
    (hopened : ∀ r, r ∈ opened ↔ r ∈ h.enclosing root path) : text path = t := by
  induction hw generalizing path with
  | plain hkind => exact ht.plain path _ hv hkind
  | again hr => exact ht.inside path _ hv ((hopened _).mp hr)
  | @array opened r text' hr _ ih =>
    rw [ht.array path r hv fun hmem => hr ((hopened r).mpr hmem)]
    have htexts : (List.range (h.items r).size).map (fun i => text (path ++ [i])) =
        (h.items r).toList.map text' := by
      refine map_range_eq fun i x hx => ?_
      have hmem : x ∈ (h.items r).toList := List.mem_of_getElem? (Array.getElem?_toList ▸ hx)
      refine ih x hmem ((at?_item hv).trans hx) fun y => ?_
      rw [enclosing_item hv, List.mem_cons, List.mem_append, List.mem_singleton, hopened y, or_comm]
    rw [htexts]

/-! ### Values without a cycle below them -/

theorem WritesFully.unique (hw : h.WritesFully v t) (hw' : h.WritesFully v t') : t = t' := by
  induction hw generalizing t' with
  | plain hv =>
    cases hw' with
    | plain _ => rfl
    | array _ _ => exact absurd rfl hv
  | array text _ ih =>
    cases hw' with
    | plain hv => exact absurd rfl hv
    | array text' hitems' => rw [List.map_congr_left fun v hv => ih v hv (hitems' v hv)]

theorem contains_item {r x : Nat} (hv : v ∈ (h.items r).toList) (hx : v.ref? = some x) :
    h.Contains r x := by
  unfold items at hv
  cases hitems : h.items? r with
  | none => simp [hitems] at hv
  | some items => exact ⟨items, hitems, v, by simpa [hitems] using hv, hx⟩

/-- Without a cycle no array stands inside itself, so the mark is never written. -/
theorem Writes.fully (hw : h.Writes opened v t) (hacyclic : ∀ a, ¬ h.OnCycle a)
    (habove : ∀ a ∈ opened, ∀ x, v.ref? = some x → Relation.TransGen h.Contains a x) :
    h.WritesFully v t := by
  induction hw with
  | plain hv => exact .plain hv
  | again hr => exact absurd (habove _ hr _ rfl) (hacyclic _)
  | array text hr _ ih =>
    refine .array text fun v hv => ih v hv fun a ha x hx => ?_
    have hinside := contains_item hv hx
    rcases List.mem_cons.mp ha with rfl | ha
    · exact .single hinside
    · exact (habove a ha _ rfl).tail hinside

theorem writesFully_iff (hacyclic : ∀ a, ¬ h.OnCycle a) : h.WritesFully v t ↔ t = h.render v := by
  have hrender : h.WritesFully v (h.render v) := (h.writes_render v).fully hacyclic nofun
  constructor
  · intro hw
    exact hw.unique hrender
  · rintro rfl
    exact hrender

/-! ### The text shown -/

/-- A text is finished whatever the arrays contain: more depth than there are places in the heap
changes nothing, and no array is left open. It is the one text that the rule about paths allows,
and where nothing contains itself it is the one with everything written out. -/
theorem render_by_occurrences (h : Heap α) (root : Value) :
    (∀ n, h.cells.size < n → (h.renderWithin n root).run [] = (h.render root, [])) ∧
    (∃ text, h.Texts root text) ∧
    (∀ text, h.Texts root text → text [] = h.render root) ∧
    ((∀ a, ¬ h.OnCycle a) → ∀ t, h.WritesFully root t ↔ t = h.render root) := by
  refine ⟨fun n hn => ?_, ⟨_, texts_textAt h root⟩, fun text ht => ?_, fun hacyclic t => ?_⟩
  · have hroom : h.Room n [] := ⟨List.nodup_nil, nofun, hn⟩
    rw [renderWithin_run, (writes_textWithin hroom root).unique (h.writes_render root)]
  · exact ht.eq_of_writes (h.writes_render root) rfl fun r => Iff.rfl
  · exact writesFully_iff hacyclic

/-- Two arrays that contain each other, and one that stands beside itself in both. -/
def knot : Heap Unit where
  cells := #[some ⟨2, .array #[.array 1, .array 2, .array 2]⟩,
    some ⟨1, .array #[.array 2, .array 0]⟩, some ⟨3, .array #[.int 7]⟩]
  live := 3

def diamond : Heap Unit where
  cells := #[some ⟨2, .array #[.int 7]⟩, some ⟨1, .array #[.array 0, .array 0]⟩]
  live := 2

theorem lt_of_contains_diamond {a b : Nat} (hc : diamond.Contains a b) : b < a := by
  obtain ⟨items, hitems, v, hv, hb⟩ := hc
  match a with
  | 0 =>
    obtain rfl : #[Value.int 7] = items := by simpa [diamond, items?, cell?] using hitems
    obtain rfl : v = .int 7 := by simpa using hv
    cases hb
  | 1 =>
    obtain rfl : #[Value.array 0, Value.array 0] = items := by
      simpa [diamond, items?, cell?] using hitems
    obtain rfl : v = .array 0 := by simpa using hv
    cases hb
    exact Nat.zero_lt_one
  | a + 2 => simp [diamond, items?, cell?] at hitems

theorem not_onCycle_diamond (a : Nat) : ¬ diamond.OnCycle a := by
  have hless : ∀ b, Relation.TransGen diamond.Contains a b → b < a := by
    intro b hab
    induction hab with
    | single hc => exact lt_of_contains_diamond hc
    | tail _ hc ih => exact (lt_of_contains_diamond hc).trans ih
  exact fun hcycle => Nat.lt_irrefl a (hless a hcycle)

theorem render_knot_diamond :
    (∀ text, knot.Texts (.array 0) text → text [] = "[[[7], [...]], [7], [7]]") ∧
    (∀ a, ¬ diamond.OnCycle a) ∧ diamond.WritesFully (.array 1) "[[7], [7]]" := by
  have hknot : knot.render (.array 0) = "[[[7], [...]], [7], [7]]" := by decide +kernel
  have hdiamond : diamond.render (.array 1) = "[[7], [7]]" := by decide +kernel
  refine ⟨fun text ht => ?_, not_onCycle_diamond, ?_⟩
  · exact ((render_by_occurrences knot (.array 0)).2.2.1 text ht).trans hknot
  · exact ((render_by_occurrences diamond (.array 1)).2.2.2 not_onCycle_diamond _).mpr hdiamond.symm

end Heap

end Scriptlet
