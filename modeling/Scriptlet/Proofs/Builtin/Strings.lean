import Mathlib.Data.List.Forall2
import Scriptlet.Builtin
import Scriptlet.Proofs.Heap.Cells

/-!
The laws of the functions on strings, which count characters. A part of a text is known by what
stands before and behind it, and all laws about parts follow from that. The laws are about calls one
within the other: each makes a new string and leaves alone what is there.
-/

namespace Scriptlet

variable {α : Type}

/-! ### Parts of a text -/

/-- The range lies in the text and does not end before it starts. -/
def InText (i j : Int64) (s : String) : Prop :=
  0 ≤ i.toInt ∧ i.toInt ≤ j.toInt ∧ j.toInt ≤ s.length

instance (i j : Int64) (s : String) : Decidable (InText i j s) :=
  inferInstanceAs (Decidable (_ ∧ _))

variable {s t u : String} {i j k l : Int64}

theorem slice?_of_inText (h : InText i j s) : slice? s i j =
    some (String.ofList ((s.toList.drop i.toInt.toNat).take (j.toInt.toNat - i.toInt.toNat))) :=
  if_pos h

theorem slice?_of_not_inText (h : ¬ InText i j s) : slice? s i j = none := if_neg h

/-- A slice is what stands between the two parts that it leaves out. -/
theorem slice?_eq_some_iff : slice? s i j = some t ↔
    ∃ before after, s = before ++ t ++ after ∧ i.toInt = before.length ∧
      j.toInt = before.length + t.length := by
  constructor
  · intro h
    by_cases hin : InText i j s
    · rw [slice?_of_inText hin] at h
      cases h
      obtain ⟨hi, hij, hj⟩ := hin
      have hlen : s.toList.length = s.length := String.length_toList
      refine ⟨.ofList (s.toList.take i.toInt.toNat), .ofList (s.toList.drop j.toInt.toNat),
        ?_, ?_, ?_⟩
      · have hbehind : i.toInt.toNat + (j.toInt.toNat - i.toInt.toNat) = j.toInt.toNat := by omega
        rw [← String.ofList_append, ← String.ofList_append, List.append_assoc,
          ← hbehind, ← List.drop_drop, hbehind, List.take_append_drop, List.take_append_drop,
          String.ofList_toList]
      · rw [String.length_ofList, List.length_take]
        omega
      · rw [String.length_ofList, String.length_ofList, List.length_take, List.length_take,
          List.length_drop]
        omega
    · rw [slice?_of_not_inText hin] at h
      cases h
  · rintro ⟨before, after, rfl, hi, hj⟩
    have hlen : (before ++ t ++ after).length = before.length + t.length + after.length := by
      rw [String.length_append, String.length_append]
    have hi' : i.toInt.toNat = before.toList.length := by rw [String.length_toList]; omega
    have hj' : j.toInt.toNat - i.toInt.toNat = t.toList.length := by
      rw [String.length_toList]
      omega
    rw [slice?_of_inText ⟨by omega, by omega, by omega⟩, hj', hi', String.toList_append,
      String.toList_append, List.append_assoc, List.drop_left, List.take_left, String.ofList_toList]

theorem length_of_slice? (h : slice? s i j = some t) : t.length = j.toInt - i.toInt := by
  obtain ⟨before, after, -, hi, hj⟩ := slice?_eq_some_iff.mp h
  omega

theorem slice?_append_left (hk : k.toInt = s.length) : slice? (s ++ t) 0 k = some s :=
  slice?_eq_some_iff.mpr ⟨"", t, by simp, rfl, by simpa using hk⟩

theorem slice?_append_right (hk : k.toInt = s.length) (hl : l.toInt = s.length + t.length) :
    slice? (s ++ t) k l = some t :=
  slice?_eq_some_iff.mpr ⟨s, "", by simp, hk, hl⟩

/-- A text is cut in two at any character, and the two make up the text. -/
theorem append_of_slice? (hk : k.toInt = s.length) (h : slice? s 0 i = some t)
    (h' : slice? s i k = some u) : t ++ u = s := by
  obtain ⟨before, after, hs, hbefore, hi⟩ := slice?_eq_some_iff.mp h
  obtain ⟨before', after', hs', hi', hk'⟩ := slice?_eq_some_iff.mp h'
  rw [Int64.toInt_zero] at hbefore
  obtain rfl : before = "" := String.length_eq_zero_iff.mp (by omega)
  have hlen : s.length = before'.length + u.length + after'.length := by
    rw [hs', String.length_append, String.length_append]
  obtain rfl : after' = "" := String.length_eq_zero_iff.mp (by omega)
  rw [String.empty_append] at hs
  rw [String.append_empty] at hs'
  have hchars : t.toList ++ after.toList = before'.toList ++ u.toList := by
    rw [← String.toList_append, ← String.toList_append, ← hs, ← hs']
  have hcut : t.toList.length = before'.toList.length := by
    rw [String.length_toList, String.length_toList]
    omega
  obtain rfl : t = before' := String.toList_inj.mp (List.append_inj_left hchars hcut)
  exact hs'.symm

theorem toInt_add_of_le (hi : 0 ≤ i.toInt) (hk : 0 ≤ k.toInt) (h : i.toInt + k.toInt ≤ j.toInt) :
    (i + k).toInt = i.toInt + k.toInt := by
  have hj := j.toInt_lt
  rw [Int64.toInt_add]
  exact Int.bmod_eq_of_le (by omega) (by omega)

/-- A part of a part is a part of the whole. -/
theorem slice?_of_slice? (h : slice? s i j = some t) (h' : slice? t k l = some u) :
    slice? s (i + k) (i + l) = some u := by
  obtain ⟨before, after, rfl, hi, hj⟩ := slice?_eq_some_iff.mp h
  obtain ⟨before', after', rfl, hk, hl⟩ := slice?_eq_some_iff.mp h'
  rw [String.length_append, String.length_append] at hj
  refine slice?_eq_some_iff.mpr ⟨before ++ before', after' ++ after, ?_, ?_, ?_⟩
  · simp only [String.append_assoc]
  · rw [toInt_add_of_le (j := j) (by omega) (by omega) (by omega), String.length_append]
    omega
  · rw [toInt_add_of_le (j := j) (by omega) (by omega) (by omega), String.length_append]
    omega

/-! ### Calls within calls -/

/-- What shows of an integer and of a string. -/
inductive Datum
  | int (i : Int64)
  | text (s : String)
deriving DecidableEq

def Heap.datum? (h : Heap α) : Value → Option Datum
  | .int i => some (.int i)
  | .string r => (h.text? r).map .text
  | _ => none

/-- All objects of `w` are in `w'`, unchanged and with the same holders. -/
structure World.Extends (w w' : World α) : Prop where
  cells : ∀ r c, w.heap.cell? r = some c → w'.heap.cell? r = some c
  input : w'.input = w.input
  sink : w'.sink = w.sink

/-- Calls of built-in functions on values at hand and on what other calls answer. -/
inductive Nest
  | value (v : Value)
  | call (b : Builtin) (args : List Nest)

namespace Nest

mutual

/-- The arguments of a call are found from left to right. -/
def run : Nest → World α → World.Answer α
  | value v, w => w.give v
  | call b args, w => match runAll args w with
    | (.ok vs, w) => b.invoke vs w
    | (.error c, w) => w.fail c

def runAll : List Nest → World α → Except Cause (List Value) × World α
  | [], w => (.ok [], w)
  | n :: ns, w => match n.run w with
    | (.error c, w) => (.error c, w)
    | (.ok v, w) => match runAll ns w with
      | (.error c, w) => (.error c, w)
      | (.ok vs, w) => (.ok (v :: vs), w)

end

instance : Coe Value Nest := ⟨value⟩

def int (i : Int64) : Nest := value (.int i)

def strlen (n : Nest) : Nest := call .strlen [n]

def strcat (m n : Nest) : Nest := call .strcat [m, n]

def substr (n start stop : Nest) : Nest := call .substr [n, start, stop]

/-- The calls succeed, what they answer shows as `d`, and all that was there is as it was. -/
def Shows (n : Nest) (w : World α) (d : Datum) : Prop :=
  ∃ v w', n.run w = (.ok v, w') ∧ w'.heap.datum? v = some d ∧ w.Extends w'

/-- The length of the text fits an integer, as that of every text a machine can hold. -/
def Counted (s : String) : Prop := s.length ≤ Int64.maxValue.toInt

instance (s : String) : Decidable (Counted s) := inferInstanceAs (Decidable (_ ≤ _))

/-- The laws of the functions on strings, for values that show as `s`, `t` and `u`. -/
structure StringLaws (w : World α) (a b c : Value) (s t u : String) : Prop where
  counts : ∃ n, (strlen a).Shows w (.int n) ∧ (Counted s → n.toInt = s.length)
  strlen_strcat : ∀ m n, (strlen a).Shows w (.int m) → (strlen b).Shows w (.int n) →
    (strlen (strcat a b)).Shows w (.int (m + n)) ∧
      (Counted (s ++ t) → (m + n).toInt = m.toInt + n.toInt)
  strcat_assoc : ∃ d, (strcat (strcat a b) c).Shows w d ∧ (strcat a (strcat b c)).Shows w d
  substr_iff : ∀ i j, (∃ d, (substr a (int i) (int j)).Shows w d) ↔ InText i j s
  substr_fails : ∀ i j, ¬ InText i j s →
    (substr a (int i) (int j)).run w = (.error (.substringRange i j s.length), w)
  strlen_substr : ∀ i j, InText i j s →
    (strlen (substr a (int i) (int j))).Shows w (.int (j - i)) ∧
      (j - i).toInt = j.toInt - i.toInt
  substr_left : Counted s → (substr (strcat a b) (int 0) (strlen a)).Shows w (.text s)
  substr_right : Counted (s ++ t) → ∀ m n, (strlen a).Shows w (.int m) →
    (strlen b).Shows w (.int n) →
      (substr (strcat a b) (strlen a) (int (m + n))).Shows w (.text t)
  strcat_substr : Counted s → ∀ i, InText 0 i s →
    (strcat (substr a (int 0) (int i)) (substr a (int i) (strlen a))).Shows w (.text s)
  substr_substr : ∀ i j k l, InText i j s → 0 ≤ k.toInt → k.toInt ≤ l.toInt →
    l.toInt ≤ j.toInt - i.toInt →
      ∃ d, (substr (substr a (int i) (int j)) (int k) (int l)).Shows w d ∧
        (substr a (int (i + k)) (int (i + l))).Shows w d

end Nest

namespace World.Extends

variable {w w' w'' : World α}

theorem refl (w : World α) : w.Extends w := ⟨fun _ _ h => h, rfl, rfl⟩

theorem trans (h : w.Extends w') (h' : w'.Extends w'') : w.Extends w'' :=
  ⟨fun r c hc => h'.cells r c (h.cells r c hc), h'.input.trans h.input, h'.sink.trans h.sink⟩

theorem newString (w : World α) (text : String) : w.Extends (w.newString text).2 where
  cells r c hc := by
    have hne : w.heap.cells.size ≠ r := by
      rintro rfl
      rw [Heap.cell?_of_size_le (Nat.le_refl _)] at hc
      cases hc
    rw [← hc]
    exact (Heap.cell?_alloc w.heap (.string text) r).trans (if_neg hne)
  input := rfl
  sink := rfl

theorem datum? (h : w.Extends w') {v : Value} {d : Datum} (hv : w.heap.datum? v = some d) :
    w'.heap.datum? v = some d := by
  cases v with
  | int i => exact hv
  | string r =>
    obtain ⟨text, htext, rfl⟩ := Option.map_eq_some_iff.mp hv
    unfold Heap.text? at htext
    split at htext
    · rename_i hcell
      cases htext
      simp only [Heap.datum?, Heap.text?, h.cells r _ hcell, Option.map_some]
    · cases htext
  | _ => cases hv

end World.Extends

namespace Heap

variable {h : Heap α} {v : Value}

theorem datum?_eq_text (hv : h.datum? v = some (.text s)) : ∃ r, v = .string r ∧ h.text r = s := by
  cases v with
  | int i => cases hv
  | string r =>
    obtain ⟨text, htext, heq⟩ := Option.map_eq_some_iff.mp hv
    cases heq
    exact ⟨r, rfl, by rw [text, htext, Option.getD_some]⟩
  | _ => cases hv

theorem datum?_eq_int (hv : h.datum? v = some (.int i)) : v = .int i := by
  cases v with
  | int j =>
    cases hv
    rfl
  | string r =>
    obtain ⟨text, -, heq⟩ := Option.map_eq_some_iff.mp hv
    cases heq
  | _ => cases hv

end Heap

namespace Builtin

/-- Arguments that show as `ds` are answered by what shows as `d`. -/
def Computes (b : Builtin) (ds : List Datum) (d : Datum) : Prop :=
  ∀ {α : Type} (w : World α) (vs : List Value),
    List.Forall₂ (fun v d => w.heap.datum? v = some d) vs ds →
      ∃ v w', b.invoke vs w = (.ok v, w') ∧ w'.heap.datum? v = some d ∧ w.Extends w'

theorem newString_shows (w : World α) (text : String) :
    ∃ v w', w.newString text = (.ok v, w') ∧ w'.heap.datum? v = some (.text text) ∧
      w.Extends w' := by
  refine ⟨.string w.heap.cells.size, (w.newString text).2, rfl, ?_, .newString w text⟩
  have hcell : (w.newString text).2.heap.cell? w.heap.cells.size = some ⟨1, .string text⟩ :=
    (Heap.cell?_alloc w.heap (.string text) _).trans (if_pos rfl)
  simp only [Heap.datum?, Heap.text?, hcell, Option.map_some]

theorem computes_strlen (s : String) :
    strlen.Computes [.text s] (.int (.ofNat s.length)) := by
  rintro α w _ (_ | ⟨hs, _ | _⟩)
  obtain ⟨r, rfl, rfl⟩ := Heap.datum?_eq_text hs
  exact ⟨_, w, rfl, rfl, .refl w⟩

theorem computes_strcat (s t : String) :
    strcat.Computes [.text s, .text t] (.text (s ++ t)) := by
  rintro α w _ (_ | ⟨hs, _ | ⟨ht, _ | _⟩⟩)
  obtain ⟨r, rfl, rfl⟩ := Heap.datum?_eq_text hs
  obtain ⟨r', rfl, rfl⟩ := Heap.datum?_eq_text ht
  exact newString_shows w _

theorem computes_substr (h : slice? s i j = some t) :
    substr.Computes [.text s, .int i, .int j] (.text t) := by
  rintro α w _ (_ | ⟨hs, _ | ⟨hi, _ | ⟨hj, _ | _⟩⟩⟩)
  obtain ⟨r, rfl, rfl⟩ := Heap.datum?_eq_text hs
  obtain rfl := Heap.datum?_eq_int hi
  obtain rfl := Heap.datum?_eq_int hj
  have hinvoke : substr.invoke [.string r, .int i, .int j] w = w.newString t := by
    change w.substring r i j = _
    simp only [World.substring, h]
  rw [hinvoke]
  exact newString_shows w t

theorem substr_outside {w : World α} {r : Nat} (h : slice? (w.heap.text r) i j = none) :
    substr.invoke [.string r, .int i, .int j] w =
      (.error (.substringRange i j (w.heap.text r).length), w) := by
  change w.substring r i j = _
  simp only [World.substring, h]
  rfl

end Builtin

namespace Nest

variable {w w' : World α} {n : Nest} {ns : List Nest} {d : Datum} {ds : List Datum}

/-- The calls show as `d` at any later time. -/
def Denotes (n : Nest) (w : World α) (d : Datum) : Prop := ∀ w', w.Extends w' → n.Shows w' d

theorem Denotes.shows (h : n.Denotes w d) : n.Shows w d := h w (.refl w)

theorem denotes_value {v : Value} (hv : w.heap.datum? v = some d) : (value v).Denotes w d :=
  fun w' hw => ⟨v, w', rfl, hw.datum? hv, .refl w'⟩

theorem denotes_int (i : Int64) : (int i).Denotes w (.int i) := denotes_value rfl

theorem runAll_of_denotes (h : List.Forall₂ (fun n d => n.Denotes w d) ns ds)
    (hw : w.Extends w') :
    ∃ vs w'', runAll ns w' = (.ok vs, w'') ∧
      List.Forall₂ (fun v d => w''.heap.datum? v = some d) vs ds ∧ w'.Extends w'' := by
  induction h generalizing w' with
  | nil => exact ⟨[], w', rfl, .nil, .refl w'⟩
  | cons hn _ ih =>
    obtain ⟨v, w₁, hrun, hv, hw₁⟩ := hn w' hw
    obtain ⟨vs, w₂, hrest, hvs, hw₂⟩ := ih (hw.trans hw₁)
    refine ⟨v :: vs, w₂, ?_, .cons (hw₂.datum? hv) hvs, hw₁.trans hw₂⟩
    simp only [runAll, hrun, hrest]

theorem denotes_call {b : Builtin} (hns : List.Forall₂ (fun n d => n.Denotes w d) ns ds)
    (hb : b.Computes ds d) : (call b ns).Denotes w d := by
  intro w' hw
  obtain ⟨vs, w₁, hrun, hvs, hw₁⟩ := runAll_of_denotes hns hw
  obtain ⟨v, w₂, hinvoke, hv, hw₂⟩ := hb w₁ vs hvs
  refine ⟨v, w₂, ?_, hv, hw₁.trans hw₂⟩
  simp only [run, hrun, hinvoke]

theorem denotes_strlen (h : n.Denotes w (.text s)) :
    (strlen n).Denotes w (.int (.ofNat s.length)) :=
  denotes_call (.cons h .nil) (Builtin.computes_strlen s)

theorem denotes_strcat {m : Nest} (hm : m.Denotes w (.text s)) (hn : n.Denotes w (.text t)) :
    (strcat m n).Denotes w (.text (s ++ t)) :=
  denotes_call (.cons hm (.cons hn .nil)) (Builtin.computes_strcat s t)

theorem denotes_substr {x y : Nest} (hn : n.Denotes w (.text s)) (hx : x.Denotes w (.int i))
    (hy : y.Denotes w (.int j)) (h : slice? s i j = some t) :
    (substr n x y).Denotes w (.text t) :=
  denotes_call (.cons hn (.cons hx (.cons hy .nil))) (Builtin.computes_substr h)

theorem Shows.unique {d' : Datum} (h : n.Shows w d) (h' : n.Shows w d') : d = d' := by
  obtain ⟨v, w₁, hrun, hv, -⟩ := h
  obtain ⟨v', w₂, hrun', hv', -⟩ := h'
  cases hrun.symm.trans hrun'
  exact Option.some.inj (hv.symm.trans hv')

theorem toInt_length (hs : Counted s) : (Int64.ofNat s.length).toInt = s.length := by
  rw [Counted, Int64.toInt_maxValue] at hs
  exact Int64.toInt_ofNat_of_lt (by omega)

theorem counted_of_append (h : Counted (s ++ t)) : Counted s ∧ Counted t := by
  unfold Counted at h ⊢
  rw [String.length_append] at h
  omega

theorem toInt_length_add (h : Counted (s ++ t)) :
    (Int64.ofNat s.length + Int64.ofNat t.length).toInt = s.length + t.length := by
  have hsum := toInt_length h
  rwa [String.length_append, Int64.ofNat_add, Int.natCast_add] at hsum

theorem sub_eq_length (h : slice? s i j = some t) :
    j - i = Int64.ofNat t.length ∧ (j - i).toInt = j.toInt - i.toInt := by
  have hlen := length_of_slice? h
  obtain ⟨hi, hij, -⟩ : InText i j s := by
    by_contra hout
    rw [slice?_of_not_inText hout] at h
    cases h
  have hj := j.toInt_lt
  have hsub : (j - i).toInt = j.toInt - i.toInt := by
    rw [Int64.toInt_sub]
    exact Int.bmod_eq_of_le (by omega) (by omega)
  refine ⟨Int64.toInt_inj.mp ?_, hsub⟩
  rw [hsub, Int64.toInt_ofNat_of_lt (by omega), hlen]

theorem run_substr_outside {a : Value} (ha : w.heap.datum? a = some (.text s))
    (hout : ¬ InText i j s) :
    (substr a (int i) (int j)).run w = (.error (.substringRange i j s.length), w) := by
  obtain ⟨r, rfl, rfl⟩ := Heap.datum?_eq_text ha
  exact Builtin.substr_outside (slice?_of_not_inText hout)

theorem substr_shows_iff {a : Value} (ha : w.heap.datum? a = some (.text s)) :
    (∃ d, (substr a (int i) (int j)).Shows w d) ↔ InText i j s := by
  constructor
  · rintro ⟨d, v, w', hrun, -⟩
    by_contra hout
    cases hrun.symm.trans (run_substr_outside ha hout)
  · intro hin
    exact ⟨_, (denotes_substr (denotes_value ha) (denotes_int i) (denotes_int j)
      (slice?_of_inText hin)).shows⟩

theorem shows_strlen_substr (hn : n.Denotes w (.text s)) (hin : InText i j s) :
    (strlen (substr n (int i) (int j))).Shows w (.int (j - i)) ∧
      (j - i).toInt = j.toInt - i.toInt := by
  have hpart := slice?_of_inText hin
  obtain ⟨hlen, hsub⟩ := sub_eq_length hpart
  refine ⟨?_, hsub⟩
  rw [hlen]
  exact (denotes_strlen (denotes_substr hn (denotes_int i) (denotes_int j) hpart)).shows

theorem shows_strcat_substr (hn : n.Denotes w (.text s)) (hcount : Counted s)
    (hin : InText 0 i s) :
    (strcat (substr n (int 0) (int i)) (substr n (int i) (strlen n))).Shows w (.text s) := by
  have hend := toInt_length hcount
  have hleft := slice?_of_inText hin
  obtain ⟨-, hpos, hle⟩ := hin
  have hright := slice?_of_inText (i := i) (j := Int64.ofNat s.length) (s := s)
    ⟨hpos, by omega, by omega⟩
  have hwhole := denotes_strcat (denotes_substr hn (denotes_int 0) (denotes_int i) hleft)
    (denotes_substr hn (denotes_int i) (denotes_strlen hn) hright)
  rw [append_of_slice? hend hleft hright] at hwhole
  exact hwhole.shows

theorem shows_substr_substr (hn : n.Denotes w (.text s)) (hin : InText i j s)
    (hk : 0 ≤ k.toInt) (hkl : k.toInt ≤ l.toInt) (hl : l.toInt ≤ j.toInt - i.toInt) :
    ∃ d, (substr (substr n (int i) (int j)) (int k) (int l)).Shows w d ∧
      (substr n (int (i + k)) (int (i + l))).Shows w d := by
  have hpart := slice?_of_inText hin
  have hlen := length_of_slice? hpart
  have hinner := slice?_of_inText ⟨hk, hkl, hlen ▸ hl⟩
  refine ⟨_, (denotes_substr (denotes_substr hn (denotes_int i) (denotes_int j) hpart)
    (denotes_int k) (denotes_int l) hinner).shows, ?_⟩
  exact (denotes_substr hn (denotes_int _) (denotes_int _) (slice?_of_slice? hpart hinner)).shows

/-- The functions on strings obey their laws on texts of any characters, whichever values hold them
and whatever else there is. -/
theorem strings_obey_laws (w : World α) {a b c : Value} {s t u : String}
    (ha : w.heap.datum? a = some (.text s)) (hb : w.heap.datum? b = some (.text t))
    (hc : w.heap.datum? c = some (.text u)) : StringLaws w a b c s t u := by
  have hs := denotes_strlen (denotes_value ha)
  have ht := denotes_strlen (denotes_value hb)
  have hab := denotes_strcat (denotes_value ha) (denotes_value hb)
  have hlengths : ∀ m n, (strlen a).Shows w (.int m) → (strlen b).Shows w (.int n) →
      m = Int64.ofNat s.length ∧ n = Int64.ofNat t.length := fun m n hm hn =>
    ⟨Datum.int.inj (hm.unique hs.shows), Datum.int.inj (hn.unique ht.shows)⟩
  refine ⟨⟨_, hs.shows, toInt_length⟩, fun m n hm hn => ?_, ?_, fun i j => substr_shows_iff ha,
    fun i j => run_substr_outside ha, fun i j => shows_strlen_substr (denotes_value ha),
    fun hcount => ?_, fun hcount m n hm hn => ?_,
    fun hcount i => shows_strcat_substr (denotes_value ha) hcount,
    fun i j k l => shows_substr_substr (denotes_value ha)⟩
  · obtain ⟨rfl, rfl⟩ := hlengths m n hm hn
    have hsum := (denotes_strlen hab).shows
    rw [String.length_append, Int64.ofNat_add] at hsum
    refine ⟨hsum, fun hcount => ?_⟩
    obtain ⟨hcounts, hcountt⟩ := counted_of_append hcount
    rw [toInt_length_add hcount, toInt_length hcounts, toInt_length hcountt]
  · refine ⟨_, (denotes_strcat hab (denotes_value hc)).shows, ?_⟩
    rw [String.append_assoc]
    exact (denotes_strcat (denotes_value ha)
      (denotes_strcat (denotes_value hb) (denotes_value hc))).shows
  · exact (denotes_substr hab (denotes_int 0) hs (slice?_append_left (toInt_length hcount))).shows
  · obtain ⟨rfl, rfl⟩ := hlengths m n hm hn
    have hcounts := (counted_of_append hcount).1
    exact (denotes_substr hab hs (denotes_int _)
      (slice?_append_right (toInt_length hcounts) (toInt_length_add hcount))).shows

/-- Two characters of five bytes, which are joined to themselves and cut between the bytes of no
character. A range that would do for the bytes is refused. -/
theorem strings_obey_laws_of_wide :
    let w : World Unit :=
      ⟨(Heap.empty.alloc (.string "\u00e9\u20ac")).2, ⟨[], [], none⟩, .unlimited⟩
    let a := Value.string 0
    w.heap.datum? a = some (.text "\u00e9\u20ac") ∧
      (strlen a).Shows w (.int 2) ∧ (strlen (strcat a a)).Shows w (.int (2 + 2)) ∧
      (substr (strcat a a) (strlen a) (int (2 + 2))).Shows w (.text "\u00e9\u20ac") ∧
      (strcat (substr a (int 0) (int 1)) (substr a (int 1) (strlen a))).Shows w
        (.text "\u00e9\u20ac") ∧
      (substr a (int 0) (int 5)).run w = (.error (.substringRange 0 5 2), w) := by
  intro w a
  have ha : w.heap.datum? a = some (.text "\u00e9\u20ac") := by decide +kernel
  have hlaws := strings_obey_laws w ha ha ha
  have hcount : Counted "\u00e9\u20ac" := by decide +kernel
  have hcount' : Counted ("\u00e9\u20ac" ++ "\u00e9\u20ac") := by decide +kernel
  obtain ⟨n, hn, hlen⟩ := hlaws.counts
  obtain rfl : n = 2 := Int64.toInt_inj.mp (hlen hcount)
  exact ⟨ha, hn, (hlaws.strlen_strcat 2 2 hn hn).1, hlaws.substr_right hcount' 2 2 hn hn,
    hlaws.strcat_substr hcount 1 (by decide +kernel),
    hlaws.substr_fails 0 5 (by decide +kernel)⟩

end Nest

end Scriptlet
