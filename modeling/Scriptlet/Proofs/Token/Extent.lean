import Scriptlet.Token.Stream

/-!
Reading tokens never changes where the text ends: what stands before a cursor and what it has left
add up to the whole text. A stream that ends with its text therefore ends at the text's last byte.
-/

namespace Scriptlet

theorem Position.offset_advanceAll (p : Position) (cs : List Char) :
    (p.advanceAll cs).offset = p.offset + (String.ofList cs).utf8ByteSize := by
  induction cs generalizing p with
  | nil => simp
  | cons c cs ih =>
    have hsplit : String.ofList (c :: cs) = String.singleton c ++ String.ofList cs := by
      rw [String.singleton_eq_ofList, ← String.ofList_append]
      rfl
    have hoffset : (p.advance c).offset = p.offset + c.utf8Size := by
      unfold Position.advance
      split <;> rfl
    rw [Position.advanceAll_cons, ih, hoffset, hsplit, String.utf8ByteSize_append,
      String.utf8ByteSize_singleton]
    omega

namespace Cursor

/-- The offset at which the text ends. -/
def extent (c : Cursor) : Nat := c.position.offset + (String.ofList c.rest).utf8ByteSize

theorem extent_ofText (text file : String) : (ofText text file).extent = text.utf8ByteSize := by
  simp [extent, ofText, Position.start]

theorem extent_past {c : Cursor} {cs rest : List Char} (h : cs ++ rest = c.rest) :
    (c.past cs rest).extent = c.extent := by
  have hsize : (String.ofList c.rest).utf8ByteSize =
      (String.ofList cs).utf8ByteSize + (String.ofList rest).utf8ByteSize := by
    rw [← h, String.ofList_append, String.utf8ByteSize_append]
  simp only [extent, past, Position.offset_advanceAll, hsize]
  omega

theorem extent_skipBlanks (c : Cursor) : c.skipBlanks.extent = c.extent :=
  extent_past List.takeWhile_append_dropWhile

theorem extent_of_read_token {c d : Cursor} {t : Token Location} (h : c.read = (.token t, d)) :
    d.extent = c.extent := by
  unfold read at h
  simp only at h
  split at h
  · simp at h
  · rename_i x xs hrest
    have hs := Scan.splits_start x xs
    cases he : Scan.start x xs with
    | fault cause before culprit after => simp [he, follow] at h
    | token kind lexeme spelling rest =>
      rw [he] at hs
      simp only [he, follow, Prod.mk.injEq] at h
      rw [← h.2, extent_past (hs.2.trans hrest.symm), extent_skipBlanks]

theorem location_of_read_finished {c d : Cursor} (h : c.read = (.finished, d)) :
    d.location.span = ⟨c.extent, c.extent⟩ := by
  unfold read at h
  simp only at h
  split at h
  · rename_i hrest
    have hd : d = c.skipBlanks := (Prod.mk.inj h).2.symm
    have hoffset : d.position.offset = c.extent := by
      rw [← c.extent_skipBlanks, hd, extent, hrest]
      simp
    rw [← hoffset, location, hd, hrest]
    rfl
  · rename_i x xs hrest
    cases he : Scan.start x xs <;> simp [he, follow] at h

end Cursor

namespace TokenStream

theorem span_of_ending {c : Cursor} {l : Location} (h : (ofCursor c).ending = .complete l) :
    l.span = ⟨c.extent, c.extent⟩ := by
  fun_induction ofCursor c with
  | case1 c d hread =>
    cases h
    exact Cursor.location_of_read_finished hread
  | case2 c t d hread _ ih =>
    rw [← Cursor.extent_of_read_token hread]
    exact ih h
  | case3 c e d hread => cases h

/-- A text without lexical faults ends at its last byte. -/
theorem span_of_ofText_ending {text file : String} {l : Location}
    (h : (ofText text file).ending = .complete l) :
    l.span = ⟨text.utf8ByteSize, text.utf8ByteSize⟩ := by
  rw [span_of_ending h, Cursor.extent_ofText]

end TokenStream

theorem tokens_of_tokenize {text file : String} {ts : List (Token Location)}
    (h : tokenize text file = .ok ts) :
    (TokenStream.ofText text file).tokens = ts ∧
      ∃ l, (TokenStream.ofText text file).ending = .complete l := by
  unfold tokenize TokenStream.toExcept at h
  split at h
  · exact ⟨Except.ok.inj h, _, by assumption⟩
  · cases h

theorem ending_of_tokenize_error {text file : String} {e : LexicalError Location}
    (h : tokenize text file = .error e) : (TokenStream.ofText text file).ending = .broken e := by
  unfold tokenize TokenStream.toExcept at h
  split at h
  · cases h
  · rename_i heq
    rw [heq, Except.error.inj h]

theorem tokenize_of_ending {text file : String} {l : Location}
    (h : (TokenStream.ofText text file).ending = .complete l) :
    tokenize text file = .ok (TokenStream.ofText text file).tokens := by
  rw [tokenize, TokenStream.toExcept, h]

end Scriptlet
