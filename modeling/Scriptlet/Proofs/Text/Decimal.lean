import Mathlib.Data.Nat.Digits.Defs
import Scriptlet.Text.Decimal

/-!
Numerals and the numbers they stand for. A numeral is an optional sign and a run of digits; readers
of decimal text accept the numerals of a range, and give the number.
-/

namespace Scriptlet.Decimal

/-- The number that a run of digits stands for. -/
def value (ds : List Char) : Nat := Nat.ofDigits 10 (ds.reverse.map fun c => c.toNat - '0'.toNat)

/-- An optional sign, at least one digit and nothing else. -/
inductive Numeral : List Char → Int → Prop
  | unsigned {ds : List Char} (hne : ds ≠ []) (hds : ∀ c ∈ ds, c.isDigit) :
    Numeral ds (value ds)
  | plus {ds : List Char} (hne : ds ≠ []) (hds : ∀ c ∈ ds, c.isDigit) :
    Numeral ('+' :: ds) (value ds)
  | minus {ds : List Char} (hne : ds ≠ []) (hds : ∀ c ∈ ds, c.isDigit) :
    Numeral ('-' :: ds) (-value ds)

theorem value_cons (c : Char) (cs : List Char) :
    value (c :: cs) = (c.toNat - '0'.toNat) * 10 ^ cs.length + value cs := by
  simp only [value, List.reverse_cons, List.map_append, List.map_cons, List.map_nil,
    Nat.ofDigits_append, Nat.ofDigits_singleton, List.length_map, List.length_reverse]
  ring

theorem digit?_eq_some {c : Char} {n : Nat} :
    digit? c = some n ↔ c.isDigit ∧ n = c.toNat - '0'.toNat := by
  have hdigit : ('0' ≤ c ∧ c ≤ '9') ↔ c.isDigit := by
    simp only [Char.isDigit, Char.le_def, Bool.and_eq_true, decide_eq_true_eq]
  unfold digit?
  by_cases hc : c.isDigit
  · rw [if_pos (hdigit.mpr hc), Option.some.injEq, eq_comm]
    simp only [hc, true_and]
  · simp [hdigit, hc]

theorem digitsFrom?_eq_some {acc n : Nat} {cs : List Char} :
    digitsFrom? acc cs = some n ↔
      (∀ c ∈ cs, c.isDigit) ∧ n = acc * 10 ^ cs.length + value cs := by
  induction cs generalizing acc with
  | nil =>
    have hzero : value [] = 0 := rfl
    simp [digitsFrom?, hzero]
    omega
  | cons c cs ih =>
    by_cases hc : c.isDigit
    · have hd : digit? c = some (c.toNat - '0'.toNat) := digit?_eq_some.mpr ⟨hc, rfl⟩
      have hsum : (10 * acc + (c.toNat - '0'.toNat)) * 10 ^ cs.length + value cs =
          acc * 10 ^ (c :: cs).length + value (c :: cs) := by
        rw [value_cons, List.length_cons]
        ring
      simp only [digitsFrom?, hd, ih, hsum, List.forall_mem_cons, hc, true_and]
    · have hd : digit? c = none := by
        refine Option.eq_none_iff_forall_ne_some.mpr fun d hd => hc (digit?_eq_some.mp hd).1
      simp [digitsFrom?, hd, hc]

theorem nat?_eq_some {n : Nat} {cs : List Char} :
    nat? cs = some n ↔ cs ≠ [] ∧ (∀ c ∈ cs, c.isDigit) ∧ n = value cs := by
  cases cs with
  | nil => simp [nat?]
  | cons c cs => simp [nat?, digitsFrom?_eq_some]

theorem not_sign_of_isDigit {c : Char} (h : c.isDigit) : c ≠ '-' ∧ c ≠ '+' := by
  constructor <;> (rintro rfl; cases h)

theorem int?_eq_some {n : Int} {cs : List Char} : int? cs = some n ↔ Numeral cs n := by
  constructor
  · intro h
    unfold int? at h
    split at h
    · obtain ⟨z, hz, rfl⟩ := Option.map_eq_some_iff.mp h
      obtain ⟨m, hm, hz⟩ := Option.bind_eq_some_iff.mp hz
      cases hz
      obtain ⟨hne, hds, rfl⟩ := nat?_eq_some.mp hm
      exact .minus hne hds
    · obtain ⟨m, hm, rfl⟩ := Option.map_eq_some_iff.mp h
      obtain ⟨hne, hds, rfl⟩ := nat?_eq_some.mp hm
      exact .plus hne hds
    · obtain ⟨m, hm, rfl⟩ := Option.map_eq_some_iff.mp h
      obtain ⟨hne, hds, rfl⟩ := nat?_eq_some.mp hm
      exact .unsigned hne hds
  · intro h
    cases h with
    | unsigned hne hds =>
      obtain ⟨c, ds, rfl⟩ := List.exists_cons_of_ne_nil hne
      obtain ⟨hminus, hplus⟩ := not_sign_of_isDigit (hds c List.mem_cons_self)
      have hnat := nat?_eq_some.mpr ⟨hne, hds, rfl⟩
      simp [int?, hminus, hplus, hnat]
    | plus hne hds => simp [int?, nat?_eq_some.mpr ⟨hne, hds, rfl⟩]
    | minus hne hds => simp [int?, nat?_eq_some.mpr ⟨hne, hds, rfl⟩]

theorem int64?_eq_some {i : Int64} {cs : List Char} :
    int64? cs = some i ↔ Numeral cs i.toInt := by
  have hmin := Int64.toInt_minValue
  have hmax := Int64.toInt_maxValue
  rw [← int?_eq_some]
  constructor
  · intro h
    obtain ⟨n, hn, h⟩ := Option.bind_eq_some_iff.mp h
    split at h
    · cases h
      rw [hn, Int64.toInt_ofInt_of_le (by omega) (by omega)]
    · cases h
  · intro h
    have hrange : Int64.minValue.toInt ≤ i.toInt ∧ i.toInt ≤ Int64.maxValue.toInt :=
      ⟨i.minValue_le_toInt, i.toInt_le⟩
    refine Option.bind_eq_some_iff.mpr ⟨i.toInt, h, ?_⟩
    rw [if_pos hrange, Int64.ofInt_toInt]

/-! ### Numerals of numbers -/

theorem ofDigitChars_eq (ds : List Char) (init : Nat) :
    Nat.ofDigitChars 10 ds init = init * 10 ^ ds.length + value ds := by
  induction ds generalizing init with
  | nil =>
    have hzero : value [] = 0 := rfl
    simp [Nat.ofDigitChars, hzero]
  | cons c cs ih =>
    rw [Nat.ofDigitChars_cons, ih, value_cons, List.length_cons]
    ring

theorem value_toDigits (n : Nat) : value (Nat.toDigits 10 n) = n := by
  have hdigits := ofDigitChars_eq (Nat.toDigits 10 n) 0
  rw [Nat.ofDigitChars_toDigits (by decide) (by decide)] at hdigits
  omega

theorem numeral_toString (n : Int) : Numeral (toString n).toList n := by
  have hdigits : ∀ m : Nat, ∀ c ∈ Nat.toDigits 10 m, c.isDigit :=
    fun m c hc => Nat.isDigit_of_mem_toDigits (by decide) (by decide) hc
  cases n with
  | ofNat m =>
    have hlist : (toString (Int.ofNat m)).toList = Nat.toDigits 10 m := String.toList_ofList
    have hnumeral := Numeral.unsigned Nat.toDigits_ne_nil (hdigits m)
    rw [value_toDigits] at hnumeral
    rw [hlist]
    exact hnumeral
  | negSucc m =>
    have hlist : (toString (Int.negSucc m)).toList = '-' :: Nat.toDigits 10 (m + 1) := by
      show ("-" ++ String.ofList (Nat.toDigits 10 (m + 1))).toList = _
      rw [String.toList_append]
      exact congrArg ('-' :: ·) String.toList_ofList
    have hnumeral := Numeral.minus Nat.toDigits_ne_nil (hdigits (m + 1))
    rw [value_toDigits] at hnumeral
    rw [hlist]
    exact hnumeral

theorem Numeral.ne_nil {cs : List Char} {n : Int} (h : Numeral cs n) : cs ≠ [] := by
  cases h with
  | unsigned hne _ => exact hne
  | plus => exact List.cons_ne_nil _ _
  | minus => exact List.cons_ne_nil _ _

theorem Numeral.mem {cs : List Char} {n : Int} (h : Numeral cs n) :
    ∀ c ∈ cs, c = '+' ∨ c = '-' ∨ c.isDigit := by
  intro c hc
  cases h with
  | unsigned _ hds => exact .inr (.inr (hds c hc))
  | plus _ hds =>
    rcases List.mem_cons.mp hc with rfl | hc
    · exact .inl rfl
    · exact .inr (.inr (hds c hc))
  | minus _ hds =>
    rcases List.mem_cons.mp hc with rfl | hc
    · exact .inr (.inl rfl)
    · exact .inr (.inr (hds c hc))

end Scriptlet.Decimal
