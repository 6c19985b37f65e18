import Mathlib.Data.List.TakeWhile
import Scriptlet.Builtin
import Scriptlet.Proofs.Text.Decimal

/-!
Reading integers looks at the bytes, not at the fills they arrive in. An input can be gathered into
one buffer before a token is read or afterwards, and from one buffer a token is read off by dropping
blanks and taking what follows up to the next blank.
-/

namespace Scriptlet

namespace Input

/-- All that is not yet read stands in the buffer. -/
def gathered (i : Input) : Input := ⟨i.unread, [], i.failure⟩

/-! ### Tokens that go on in the next fill -/

variable {token buffer : List UInt8} (more : List UInt8)

theorem body_append (h : body token buffer ≠ [] ∨ token ≠ []) :
    body token (buffer ++ more) = body token buffer ++ more := by
  unfold body at h ⊢
  by_cases htoken : token = []
  · simp_all [List.dropWhile_append]
  · simp [htoken]

theorem beyond_append (h : beyond token buffer ≠ []) :
    grow token (buffer ++ more) = grow token buffer ∧
      beyond token (buffer ++ more) = beyond token buffer ++ more := by
  have hstop : ∀ b : List UInt8, b.dropWhile (!isBlankByte ·) ≠ [] →
      (b ++ more).takeWhile (!isBlankByte ·) = b.takeWhile (!isBlankByte ·) ∧
        (b ++ more).dropWhile (!isBlankByte ·) = b.dropWhile (!isBlankByte ·) ++ more := by
    intro b hb
    induction b with
    | nil => exact absurd rfl hb
    | cons x b ih =>
      by_cases hx : isBlankByte x
      · simp [hx]
      · have hrest := ih (by simpa [hx] using hb)
        simp [hx, hrest]
  have hne : body token buffer ≠ [] := fun hnil => h (by rw [beyond, hnil]; rfl)
  obtain ⟨htake, hdrop⟩ := hstop _ h
  rw [grow, beyond, body_append more (.inl hne), htake, hdrop]
  exact ⟨rfl, rfl⟩

theorem beyond_append_of_eq_nil (h : beyond token buffer = []) :
    grow token (buffer ++ more) = grow (grow token buffer) more ∧
      beyond token (buffer ++ more) = beyond (grow token buffer) more := by
  have hall : ∀ b ∈ body token buffer, (!isBlankByte b) = true := List.dropWhile_eq_nil_iff.mp h
  have hgrow : grow token buffer = token ++ body token buffer := by
    rw [grow, List.takeWhile_eq_self_iff.mpr hall]
  by_cases hnil : token = [] ∧ body token buffer = []
  -- Nothing but blanks has been passed, so the token has yet to begin.
  · obtain ⟨rfl, hbody⟩ := hnil
    have hblank : buffer.dropWhile isBlankByte = [] := hbody
    have hmore : body [] (buffer ++ more) = body [] more := by
      simp [body, List.dropWhile_append, hblank]
    rw [hgrow, hbody, grow, grow, beyond, beyond, hmore]
    exact ⟨rfl, rfl⟩
  · have hstarted : body token buffer ≠ [] ∨ token ≠ [] := by
      by_cases htoken : token = []
      · exact .inl fun hbody => hnil ⟨htoken, hbody⟩
      · exact .inr htoken
    have hne : grow token buffer ≠ [] := by
      rw [hgrow]
      rcases hstarted with hbody | htoken <;> simp_all
    have hmore : body (grow token buffer) more = more := by simp [body, hne]
    have htake : (body token buffer ++ more).takeWhile (!isBlankByte ·) =
        body token buffer ++ more.takeWhile (!isBlankByte ·) := List.takeWhile_append_of_pos hall
    have hdrop : (body token buffer ++ more).dropWhile (!isBlankByte ·) =
        more.dropWhile (!isBlankByte ·) := List.dropWhile_append_of_pos hall
    rw [grow, grow, beyond, beyond, hmore, body_append more hstarted, htake, hdrop, hgrow,
      List.append_assoc]
    exact ⟨rfl, rfl⟩

theorem takeToken_gathered (failure : Option String) (token buffer : List UInt8)
    (fills : List (List UInt8)) :
    takeToken failure token (buffer ++ fills.flatten) [] =
      ((takeToken failure token buffer fills).1,
        (takeToken failure token buffer fills).2.gathered) := by
  induction fills generalizing token buffer with
  | nil =>
    rw [List.flatten_nil, List.append_nil]
    simp only [takeToken]
    split
    · cases failure <;> rfl
    · simp [gathered, unread]
  | cons fill fills ih =>
    rw [takeToken.eq_def failure token buffer (fill :: fills), List.flatten_cons,
      takeToken.eq_def failure token (buffer ++ (fill ++ fills.flatten)) []]
    by_cases hb : beyond token buffer = []
    · obtain ⟨hgrow, hbeyond⟩ := beyond_append_of_eq_nil (fill ++ fills.flatten) hb
      have hrest := ih (grow token buffer) fill
      rw [takeToken.eq_def failure _ (fill ++ fills.flatten) []] at hrest
      simp only [hgrow, hbeyond, hb, List.isEmpty_nil, if_true]
      exact hrest
    · obtain ⟨hgrow, hbeyond⟩ := beyond_append (fill ++ fills.flatten) hb
      simp [hgrow, hbeyond, hb, gathered, unread]

/-- Gathering the input before an integer is read or afterwards comes to the same. -/
theorem readInt_gathered (i : Input) :
    i.gathered.readInt = (i.readInt.1, i.readInt.2.gathered) := by
  have htoken := takeToken_gathered i.failure [] i.buffer i.fills
  change i.gathered.readToken = (i.readToken.1, i.readToken.2.gathered) at htoken
  simp only [readInt, htoken]
  cases i.readToken with
  | mk answer rest => cases answer <;> rfl

end Input

end Scriptlet
