import Mathlib.Data.List.DropRight
import Scriptlet.Proofs.Token.Extent

/-!
Places in a text, told from the text itself: the bytes before and in a part of it, the newlines
before it, and the characters since the last of these.
-/

namespace Scriptlet

/-- How many bytes the characters take. -/
def byteSize (cs : List Char) : Nat := (String.ofList cs).utf8ByteSize

@[simp] theorem byteSize_nil : byteSize [] = 0 := rfl

@[simp] theorem byteSize_append (cs ds : List Char) :
    byteSize (cs ++ ds) = byteSize cs + byteSize ds := by
  rw [byteSize, String.ofList_append, String.utf8ByteSize_append]
  rfl

theorem byteSize_pos {cs : List Char} (h : cs ≠ []) : 0 < byteSize cs := by
  refine Nat.pos_of_ne_zero fun hzero => h ?_
  have hempty := String.utf8ByteSize_eq_zero_iff.mp hzero
  rwa [String.ofList_eq_empty_iff] at hempty

/-- The place in a file of `covered`, which stands behind `before`. -/
def Location.behind (file : String) (before covered : List Char) : Location where
  file := file
  line := 1 + before.count '\n'
  column := 1 + (before.rtakeWhile (· ≠ '\n')).length
  span := ⟨byteSize before, byteSize before + byteSize covered⟩

namespace Position

theorem advanceAll_start (before : List Char) :
    start.advanceAll before = ⟨byteSize before, 1 + before.count '\n',
      1 + (before.rtakeWhile (· ≠ '\n')).length⟩ := by
  induction before using List.reverseRecOn with
  | nil => rfl
  | append_singleton cs c ih =>
    rw [advanceAll_append, ih, advanceAll_cons, advanceAll_nil, byteSize_append, List.count_append]
    have hsize : byteSize [c] = c.utf8Size := by
      rw [byteSize, ← String.singleton_eq_ofList, String.utf8ByteSize_singleton]
    by_cases hc : c = '\n'
    · subst hc
      rw [List.rtakeWhile_concat_neg _ _ _ (by simp), hsize]
      rfl
    · rw [List.rtakeWhile_concat_pos _ _ _ (by simpa using hc), hsize]
      have hcount : [c].count '\n' = 0 := List.count_eq_zero_of_not_mem (by simpa using Ne.symm hc)
      rw [hcount, advance, if_neg hc, List.length_append]
      rfl

theorem cover_start (file : String) (before covered : List Char) :
    (start.advanceAll before).cover file covered = .behind file before covered := by
  rw [cover, advanceAll_start, offset_advanceAll]
  rfl

end Position

end Scriptlet
