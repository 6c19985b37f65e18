import Mathlib.Data.List.Basic
import Scriptlet.Proofs.Builtin.Readint

/-!
Integers written in decimal, with blanks between them, are read back one by one.
-/

namespace Scriptlet

/-! ### The bytes of a numeral -/

/-- The bytes that stand for a text in a channel. -/
def utf8 (text : String) : List UInt8 := text.toUTF8.data.toList

theorem utf8_append (s t : String) : utf8 (s ++ t) = utf8 s ++ utf8 t := by
  simp [utf8]

theorem utf8_of_ascii {s : String} (h : ∀ c ∈ s.toList, c.toNat ≤ 127) :
    utf8 s = s.toList.map (·.val.toUInt8) := by
  have hbytes : utf8 s = s.toList.flatMap String.utf8EncodeChar := by
    have hs := String.toByteArray_ofList (l := s.toList)
    rw [String.ofList_toList, List.utf8Encode] at hs
    rw [utf8, String.toUTF8, hs, List.data_toByteArray, List.toList_toArray]
  rw [hbytes, List.map_eq_flatMap]
  refine List.flatMap_congr fun c hc => ?_
  have hsize : c.utf8Size = 1 :=
    Char.utf8Size_eq_one_iff.mpr (UInt32.le_iff_toNat_le.mpr (h c hc))
  exact String.utf8EncodeChar_eq_singleton hsize

theorem toNat_toUInt8 {c : Char} (h : c.toNat ≤ 127) : c.val.toUInt8.toNat = c.toNat := by
  rw [UInt32.toNat_toUInt8, Char.toNat_val]
  omega

theorem latin_utf8 {s : String} (h : ∀ c ∈ s.toList, c.toNat ≤ 127) :
    Input.latin (utf8 s) = s.toList := by
  have hchar : ∀ c ∈ s.toList, Char.ofNat c.val.toUInt8.toNat = id c := by
    intro c hc
    rw [toNat_toUInt8 (h c hc), Char.ofNat_toNat, id]
  rw [utf8_of_ascii h, Input.latin, List.map_map]
  exact (List.map_congr_left hchar).trans (List.map_id _)

theorem not_isBlankByte {b : UInt8} (h : 33 ≤ b.toNat) : ¬ isBlankByte b := by
  intro hblank
  simp only [isBlankByte, Bool.or_eq_true, beq_iff_eq] at hblank
  rcases hblank with (((rfl | rfl) | rfl) | rfl) | rfl <;> exact absurd h (by decide)

/-- The bytes of an integer in decimal. -/
def numeralBytes (i : Int64) : List UInt8 := utf8 (toString i.toInt)

theorem range_of_mem_numeral {i : Int64} {c : Char} (hc : c ∈ (toString i.toInt).toList) :
    43 ≤ c.toNat ∧ c.toNat ≤ 57 := by
  rcases (Decimal.numeral_toString i.toInt).mem c hc with rfl | rfl | hdigit
  · decide
  · decide
  · simp only [Char.isDigit, Bool.and_eq_true, decide_eq_true_eq, UInt32.le_iff_toNat_le] at hdigit
    have hval : c.val.toNat = c.toNat := rfl
    have hlow : '0'.val.toNat = 48 := rfl
    have hhigh : '9'.val.toNat = 57 := rfl
    omega

theorem ascii_numeral (i : Int64) : ∀ c ∈ (toString i.toInt).toList, c.toNat ≤ 127 := by
  intro c hc
  have hrange := range_of_mem_numeral hc
  omega

theorem numeralBytes_ne_nil (i : Int64) : numeralBytes i ≠ [] := by
  intro hnil
  have hlatin := latin_utf8 (ascii_numeral i)
  rw [← numeralBytes, hnil] at hlatin
  exact (Decimal.numeral_toString i.toInt).ne_nil hlatin.symm

theorem solid_numeralBytes (i : Int64) : ∀ b ∈ numeralBytes i, ¬ isBlankByte b := by
  intro b hb
  rw [numeralBytes, utf8_of_ascii (ascii_numeral i)] at hb
  obtain ⟨c, hc, rfl⟩ := List.mem_map.mp hb
  refine not_isBlankByte ?_
  have hrange := range_of_mem_numeral hc
  rw [toNat_toUInt8 (ascii_numeral i c hc)]
  omega

theorem tokenInt_numeralBytes (i : Int64) : Input.tokenInt (numeralBytes i) = .ok i := by
  have hint : Decimal.int64? (toString i.toInt).toList = some i :=
    Decimal.int64?_eq_some.mpr (Decimal.numeral_toString i.toInt)
  have hlatin : Input.latin (numeralBytes i) = (toString i.toInt).toList :=
    latin_utf8 (ascii_numeral i)
  rw [Input.tokenInt, if_neg (by simpa using numeralBytes_ne_nil i), hlatin, hint]

/-! ### One integer after the other -/

namespace Input

/-- Integers in decimal with blanks around them, and at least one between any two. -/
inductive Lists : List Int64 → List UInt8 → Prop
  | nil {blanks : List UInt8} (h : ∀ b ∈ blanks, isBlankByte b) : Lists [] blanks
  | cons {is : List Int64} {blanks rest : List UInt8} (h : ∀ b ∈ blanks, isBlankByte b)
    (i : Int64) (hstop : ∀ b ∈ rest.head?, isBlankByte b) (hrest : Lists is rest) :
    Lists (i :: is) (blanks ++ (numeralBytes i ++ rest))

theorem Lists.append {is : List Int64} {blanks bytes : List UInt8} (h : Lists is bytes)
    (hblanks : ∀ b ∈ blanks, isBlankByte b) : Lists is (blanks ++ bytes) := by
  cases h with
  | nil h => exact .nil (List.forall_mem_append.mpr ⟨hblanks, h⟩)
  | cons h i hstop hrest =>
    rw [← List.append_assoc]
    exact .cons (List.forall_mem_append.mpr ⟨hblanks, h⟩) i hstop hrest

/-- A call on an input that does not fail takes a token off the unread bytes. -/
theorem readInt_of_failure_eq_none {input : Input} (h : input.failure = none) :
    input.readInt.1 = tokenInt (grow [] input.unread) ∧
      input.readInt.2.unread = beyond [] input.unread ∧ input.readInt.2.failure = none := by
  have hread : input.gathered.readInt =
      (tokenInt (grow [] input.unread), ⟨beyond [] input.unread, [], none⟩) := by
    by_cases hend : beyond [] input.unread = []
    · simp [readInt, readToken, gathered, takeToken, hend, h]
    · simp [readInt, readToken, gathered, takeToken, hend, h]
  rw [readInt_gathered, Prod.mk.injEq] at hread
  obtain ⟨hanswer, hrest⟩ := hread
  exact ⟨hanswer, congrArg buffer hrest, congrArg failure hrest⟩

theorem grow_of_blank {blanks : List UInt8} (h : ∀ b ∈ blanks, isBlankByte b) :
    grow [] blanks = [] ∧ beyond [] blanks = [] := by
  have hbody : body [] blanks = [] := List.dropWhile_eq_nil_iff.mpr h
  rw [grow, beyond, hbody]
  exact ⟨rfl, rfl⟩

theorem grow_of_token {blanks token rest : List UInt8} (h : ∀ b ∈ blanks, isBlankByte b)
    (hne : token ≠ []) (htoken : ∀ b ∈ token, ¬ isBlankByte b)
    (hstop : ∀ b ∈ rest.head?, isBlankByte b) :
    grow [] (blanks ++ (token ++ rest)) = token ∧ beyond [] (blanks ++ (token ++ rest)) = rest := by
  have hbody : body [] (blanks ++ (token ++ rest)) = token ++ rest := by
    obtain ⟨b, bs, rfl⟩ := List.exists_cons_of_ne_nil hne
    have hb := htoken b List.mem_cons_self
    simp [body, List.dropWhile_append_of_pos h, hb]
  have hsolid : ∀ b ∈ token, (!isBlankByte b) = true := by simpa using htoken
  have hend : rest.takeWhile (!isBlankByte ·) = [] ∧ rest.dropWhile (!isBlankByte ·) = rest := by
    cases rest with
    | nil => exact ⟨rfl, rfl⟩
    | cons b rest =>
      have hb := hstop b rfl
      simp [hb]
  rw [grow, beyond, hbody, List.takeWhile_append_of_pos hsolid,
    List.dropWhile_append_of_pos hsolid, hend.1, hend.2, List.append_nil, List.nil_append]
  exact ⟨rfl, rfl⟩

end Input

/-- However the bytes arrive, calls give the integers in their order, and one more call finds the
input at its end. -/
theorem World.readings_of_lists {α : Type} {is : List Int64} {bytes : List UInt8}
    (h : Input.Lists is bytes) (w : World α) (hbytes : w.input.unread = bytes)
    (hfailure : w.input.failure = none) (hflush : w.sink.flush = .ok ()) :
    (w.readings (is.length + 1)).map Prod.fst =
      is.map (fun i => .ok (.int i)) ++ [.error (.input "unexpected end of input")] := by
  induction h generalizing w with
  | nil hblank =>
    obtain ⟨hanswer, -, -⟩ := Input.readInt_of_failure_eq_none hfailure
    rw [hbytes, (Input.grow_of_blank hblank).1] at hanswer
    simp only [readings, invoke_readint, readInt_of_flush_ok hflush, hanswer]
    rfl
  | @cons is blanks rest hblank i hstop _ ih =>
    obtain ⟨hanswer, hrest, hnone⟩ := Input.readInt_of_failure_eq_none hfailure
    obtain ⟨hgrow, hbeyond⟩ :=
      Input.grow_of_token hblank (numeralBytes_ne_nil i) (solid_numeralBytes i) hstop
    rw [hbytes, hgrow, tokenInt_numeralBytes] at hanswer
    rw [hbytes, hbeyond] at hrest
    have hagain := ih ⟨w.heap, w.input.readInt.2, w.sink⟩ hrest hnone hflush
    rw [List.length_cons, readings, invoke_readint, readInt_of_flush_ok hflush]
    simp only [List.map_cons, hagain, hanswer]
    rfl

end Scriptlet
