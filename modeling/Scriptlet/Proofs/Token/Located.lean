import Scriptlet.Proofs.Token.Tiling
import Scriptlet.Token.Lookahead

/-!
Reading tokens never leaves the text. Every token, every lexical error and the end of the text are
placed at a part of it, whether all tokens are read at once or one by one with lookahead, and also
behind a lexical error.
-/

namespace Scriptlet

/-- The place of a part of the text, which is empty only at the end of the text. -/
inductive Located (text file : String) : Location → Prop
  | intro {before covered after : List Char} (split : text.toList = before ++ covered ++ after)
    (empty : covered = [] → after = []) : Located text file (.behind file before covered)

variable {text file : String}

namespace Cursor

variable {c d : Cursor}

structure StandsIn (text file : String) (c : Cursor) : Prop where
  file_eq : c.file = file
  split : ∃ before, c.Behind before ∧ text.toList = before ++ c.rest

theorem standsIn_ofText (text file : String) : (ofText text file).StandsIn text file :=
  ⟨rfl, [], rfl, rfl⟩

namespace StandsIn

theorem past (h : c.StandsIn text file) {cs rest : List Char} (hsplit : cs ++ rest = c.rest) :
    (c.past cs rest).StandsIn text file := by
  obtain ⟨before, hbehind, htext⟩ := h.split
  refine ⟨h.file_eq, before ++ cs, hbehind.past cs rest, ?_⟩
  rw [htext, ← hsplit, List.append_assoc]
  rfl

theorem skipBlanks (h : c.StandsIn text file) : c.skipBlanks.StandsIn text file :=
  h.past List.takeWhile_append_dropWhile

theorem located (h : c.StandsIn text file) (skipped : List Char) {covered after : List Char}
    (hsplit : skipped ++ covered ++ after = c.rest) (hempty : covered = [] → after = []) :
    Located text file ((c.position.advanceAll skipped).cover c.file covered) := by
  obtain ⟨before, hbehind, htext⟩ := h.split
  have hplace : (c.position.advanceAll skipped).cover c.file covered =
      .behind file (before ++ skipped) covered := by
    rw [← h.file_eq]
    exact (hbehind.past skipped (covered ++ after)).cover covered
  rw [hplace]
  refine .intro ?_ hempty
  rw [htext, ← hsplit]
  simp only [List.append_assoc]

theorem location (h : c.StandsIn text file) : Located text file c.location := by
  refine h.located [] (List.take_append_drop 1 c.rest) fun hempty => ?_
  cases hrest : c.rest with
  | nil => rfl
  | cons x xs => simp [hrest] at hempty

theorem follow (h : c.StandsIn text file) {x : Char} {xs : List Char} (hrest : c.rest = x :: xs)
    {r : Reading} (hread : c.follow (Scan.start x xs) = (r, d)) :
    d.StandsIn text file ∧ (∀ t, r = .token t → Located text file t.location) ∧
      ∀ e, r = .fault e → Located text file e.location := by
  have hsplits := Scan.splits_start x xs
  rw [← hrest] at hsplits
  cases hscan : Scan.start x xs with
  | token kind lexeme spelling rest =>
    rw [hscan] at hsplits hread
    obtain ⟨hne, hsplit⟩ := hsplits
    cases hread
    refine ⟨h.past hsplit, fun t ht => ?_, nofun⟩
    cases ht
    exact h.located [] hsplit fun hnil => absurd hnil hne
  | fault cause before culprit after =>
    rw [hscan] at hsplits hread
    obtain ⟨hne, hsplit⟩ := hsplits
    cases hread
    refine ⟨?_, nofun, fun e he => ?_⟩
    -- A character that opens no token is not passed.
    · cases cause with
      | unrecognized x => exact h.past (by rw [← hsplit, List.append_assoc])
      | _ => exact h.past hsplit
    · cases he
      exact h.located _ hsplit fun hnil => absurd hnil hne

theorem read (h : c.StandsIn text file) {r : Reading} (hread : c.read = (r, d)) :
    d.StandsIn text file ∧ (∀ t, r = .token t → Located text file t.location) ∧
      ∀ e, r = .fault e → Located text file e.location := by
  rcases c.read_cases with ⟨-, hcases⟩ | ⟨x, xs, hrest, hcases⟩
  · cases hread.symm.trans hcases
    exact ⟨h.skipBlanks, nofun, nofun⟩
  · exact h.skipBlanks.follow hrest (hcases.symm.trans hread)

end StandsIn

end Cursor

/-! ### All tokens at once -/

namespace TokenStream

open Cursor

structure PlacedIn (text file : String) (s : TokenStream Location) : Prop where
  tokens : ∀ t ∈ s.tokens, Located text file t.location
  complete : ∀ l, s.ending = .complete l → Located text file l
  broken : ∀ e, s.ending = .broken e → Located text file e.location

theorem placedIn_ofCursor {c : Cursor} (h : c.StandsIn text file) :
    (ofCursor c).PlacedIn text file := by
  fun_induction ofCursor c with
  | case1 c d hread =>
    refine ⟨List.forall_mem_nil _, fun l hl => ?_, fun e he => ?_⟩
    · cases hl
      exact (h.read hread).1.location
    · cases he
  | case2 c t d hread _ ih =>
    obtain ⟨hd, htoken, -⟩ := h.read hread
    obtain ⟨htokens, hcomplete, hbroken⟩ := ih hd
    exact ⟨List.forall_mem_cons.mpr ⟨htoken t rfl, htokens⟩, hcomplete, hbroken⟩
  | case3 c e d hread =>
    refine ⟨List.forall_mem_nil _, fun l hl => ?_, fun e' he => ?_⟩
    · cases hl
    · cases he
      exact (h.read hread).2.2 e rfl

theorem placedIn_ofText (text file : String) : (ofText text file).PlacedIn text file :=
  placedIn_ofCursor (standsIn_ofText text file)

end TokenStream

/-! ### One token after the other -/

namespace Lookahead

/-- The readers that a text can be read with. -/
inductive Reached (text file : String) : Lookahead → Prop
  | start : Reached text file (ofText text file)
  | peek {r : Lookahead} (h : Reached text file r) (k : Nat) : Reached text file (r.peek k).2
  | next {r : Lookahead} (h : Reached text file r) : Reached text file r.next.2

variable {r : Lookahead}

theorem placed_readAhead (n : Nat) (h : r.cursor.StandsIn text file) :
    (r.readAhead n).2.cursor.StandsIn text file ∧
      ∀ e, (r.readAhead n).1 = .error e → Located text file e.location := by
  induction n generalizing r with
  | zero => exact ⟨h, nofun⟩
  | succ n ih =>
    unfold readAhead
    split
    · exact ⟨h, nofun⟩
    · split <;> rename_i hread <;> obtain ⟨hd, -, hfault⟩ := h.read hread
      · exact ⟨hd, nofun⟩
      · exact ih hd
      · refine ⟨hd, fun e' he => ?_⟩
        cases he
        exact hfault _ rfl

theorem placed_peek (h : r.cursor.StandsIn text file) (k : Nat) :
    (r.peek k).2.cursor.StandsIn text file ∧
      ∀ e, (r.peek k).1 = .error e → Located text file e.location := by
  have hfill := placed_readAhead (max k 1 - r.queue.length) h
  unfold peek fill
  split <;> rename_i heq <;> rw [heq] at hfill
  · exact ⟨hfill.1, nofun⟩
  · refine ⟨hfill.1, fun e he => ?_⟩
    cases he
    exact hfill.2 _ rfl

theorem placed_next (h : r.cursor.StandsIn text file) :
    r.next.2.cursor.StandsIn text file ∧
      (∀ e, r.next.1 = .error (.lexical e) → Located text file e.location) ∧
      ∀ e, r.next.1 = .error (.syntactic e) → Located text file e.location := by
  have hfill := placed_readAhead (1 - r.queue.length) h
  unfold next fill
  split <;> rename_i heq <;> rw [heq] at hfill
  · refine ⟨hfill.1, fun e he => ?_, nofun⟩
    cases he
    exact hfill.2 _ rfl
  · split
    · refine ⟨hfill.1, nofun, fun e he => ?_⟩
      cases he
      exact hfill.1.location
    · exact ⟨hfill.1, nofun, nofun⟩

theorem Reached.standsIn (h : Reached text file r) : r.cursor.StandsIn text file := by
  induction h with
  | start => exact Cursor.standsIn_ofText text file
  | peek _ k ih => exact (placed_peek ih k).1
  | next _ ih => exact (placed_next ih).1

end Lookahead

end Scriptlet
