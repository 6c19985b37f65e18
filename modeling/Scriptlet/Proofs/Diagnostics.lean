import Scriptlet.Diagnostic
import Scriptlet.Proofs.Grammar.Acceptance
import Scriptlet.Proofs.Grammar.Relocation
import Scriptlet.Proofs.Interpreter.Provenance
import Scriptlet.Proofs.Token.Located

/-!
Every failure points into the text. The places of tokens, which lie in the text, are handed from
the tokens to the nodes of the program and from these to the errors of a run.
-/

namespace Scriptlet

variable {text file : String}

/-- The failure stands at a part of the text of the file, and so does its label, which covers one
byte behind the text if the text ended too early. -/
structure Failure.PointsInto (text file : String) (f : Failure Location) : Prop where
  file_eq : f.location.file = file
  start_le_stop : f.location.span.start ≤ f.location.span.stop
  stop_le : f.location.span.stop ≤ text.utf8ByteSize
  /-- The ends of the span are between characters; line and column are those of its start. -/
  split : ∃ before covered after, text.toList = before ++ covered ++ after ∧
    f.location.span = ⟨byteSize before, byteSize (before ++ covered)⟩ ∧
    f.location.line = 1 + before.count '\n' ∧
    f.location.column = 1 + (before.rtakeWhile (· ≠ '\n')).length
  empty : f.location.span.start = f.location.span.stop →
    f.location.span.start = text.utf8ByteSize
  label : (f.location.span.start < f.location.span.stop ∧
      f.diagnostic.label.offset + f.diagnostic.label.length ≤ text.utf8ByteSize) ∨
    (f.location.span.start = f.location.span.stop ∧
      f.diagnostic.label.offset = text.utf8ByteSize ∧ f.diagnostic.label.length = 1)

theorem Located.pointsInto {f : Failure Location} (h : Located text file f.location) :
    f.PointsInto text file := by
  generalize hl : f.location = l at h
  cases h with
  | @intro before covered after hsplit hempty =>
    have hsize : text.utf8ByteSize = byteSize before + byteSize covered + byteSize after := by
      rw [← byteSize_append, ← byteSize_append, ← hsplit, byteSize, String.ofList_toList]
    have hstart : f.location.span.start = byteSize before := by
      rw [hl]
      rfl
    have hstop : f.location.span.stop = byteSize before + byteSize covered := by
      rw [hl]
      rfl
    have hoffset : f.diagnostic.label.offset = f.location.span.start := rfl
    have hlength : f.diagnostic.label.length =
        max (f.location.span.stop - f.location.span.start) 1 := rfl
    -- Nothing follows an empty part, and a part is empty if it takes no bytes.
    have hend : byteSize covered = 0 → byteSize after = 0 := by
      intro hzero
      by_cases hnil : covered = []
      · rw [hempty hnil]
        rfl
      · exact absurd hzero (Nat.ne_of_gt (byteSize_pos hnil))
    refine ⟨by rw [hl]; rfl, by omega, by omega, ⟨before, covered, after, hsplit, ?_, ?_, ?_⟩,
      by omega, ?_⟩
    · rw [hl, byteSize_append]
      rfl
    · rw [hl]
      rfl
    · rw [hl]
      rfl
    · by_cases hzero : byteSize covered = 0
      · exact .inr ⟨by omega, by omega, by omega⟩
      · exact .inl ⟨by omega, by omega⟩

theorem EvalError.pointsInto {e : EvalError Location}
    (h : ∃ l, e.location = some l ∧ Located text file l) :
    (Failure.evaluation e).PointsInto text file := by
  obtain ⟨l, hl, hlocated⟩ := h
  refine Located.pointsInto ?_
  rw [Failure.location, Failure.location?, hl]
  exact hlocated

theorem Program.pointsInto_of_parse {e : ParseError Location} (h : parse text file = .error e) :
    (Failure.ofParse e).PointsInto text file := by
  have hplaced := TokenStream.placedIn_ofText text file
  have hout := parse_outcome text file
  rw [h] at hout
  generalize TokenStream.ofText text file = s at hout hplaced
  cases hout with
  | refused pre t post w hts =>
    refine Located.pointsInto (hplaced.tokens t ?_)
    rw [hts]
    exact List.mem_append_right _ List.mem_cons_self
  | ended w =>
    cases hending : s.ending with
    | complete l => exact Located.pointsInto (hplaced.complete l hending)
    | broken e => exact Located.pointsInto (hplaced.broken e hending)

theorem exists_map_val {α : Type} {P : α → Prop} {ts : List (Token α)}
    (h : ∀ t ∈ ts, P t.location) :
    ∃ us : List (Token (Subtype P)), ts = us.map (Token.map Subtype.val) := by
  induction ts with
  | nil => exact ⟨[], rfl⟩
  | cons t ts ih =>
    rw [List.forall_mem_cons] at h
    obtain ⟨us, rfl⟩ := ih h.2
    exact ⟨⟨t.kind, t.lexeme, t.location, h.1⟩ :: us, rfl⟩

/-- The nodes of a program stand where tokens stood. -/
theorem Program.exists_located_of_parse {p : Program Location} (h : parse text file = .ok p) :
    ∃ q : Program (Subtype (Located text file)), p = q.map Subtype.val := by
  have hplaced := TokenStream.placedIn_ofText text file
  have hout := parse_outcome text file
  rw [h] at hout
  generalize TokenStream.ofText text file = s at hout hplaced
  cases hout with
  | accepted d hts =>
    obtain ⟨us, hus⟩ := exists_map_val hplaced.tokens
    obtain ⟨e, -, htree⟩ := d.exists_program_eq Subtype.val (hts.trans hus)
    exact ⟨e.tree, htree⟩

/-- Whatever is done with a text, a failure points into it, or the program ran to its end and its
output could not be flushed. -/
theorem failures_point_into_text (text file : String) :
    (∀ r, Lookahead.Reached text file r →
      (∀ k e, (r.peek k).1 = .error e → (Failure.lexical e).PointsInto text file) ∧
      ∀ e, r.next.1 = .error e → (Failure.ofParse e).PointsInto text file) ∧
    (∀ e, tokenize text file = .error e → (Failure.lexical e).PointsInto text file) ∧
    (∀ e, Program.parse text file = .error e → (Failure.ofParse e).PointsInto text file) ∧
    ∀ program, Program.parse text file = .ok program → ∀ config input sink held i,
      Interpreter.Used (.new program config input sink) held i →
      (∀ e, i.analyze = .error e → (Failure.evaluation e).PointsInto text file) ∧
      ∀ fuel e j, i.run fuel = some (.error e, j) ∨ i.execute fuel = some (.error e, j) →
        (Failure.evaluation e).PointsInto text file ∨
          (i.FlushFails fuel e ∧ (Failure.evaluation e).location = .synthetic) := by
  refine ⟨fun r hr => ⟨fun k e he => ?_, fun e he => ?_⟩, fun e he => ?_,
    fun e he => Program.pointsInto_of_parse he, fun program hparse config input sink held i hi => ?_⟩
  · exact Located.pointsInto ((Lookahead.placed_peek hr.standsIn k).2 e he)
  · obtain ⟨-, hlexical, hsyntactic⟩ := Lookahead.placed_next hr.standsIn
    cases e with
    | lexical e => exact Located.pointsInto (hlexical e he)
    | syntactic e => exact Located.pointsInto (hsyntactic e he)
  · exact Located.pointsInto
      ((TokenStream.placedIn_ofText text file).broken e (ending_of_tokenize_error he))
  · obtain ⟨q, rfl⟩ := Program.exists_located_of_parse hparse
    have hplaced := hi.placed (Interpreter.placed_new q config input sink)
    refine ⟨fun e he => EvalError.pointsInto (hplaced.analyze he), fun fuel e j hrun => ?_⟩
    have hcases : (∃ l, e.location = some l ∧ Located text file l) ∨ i.FlushFails fuel e := by
      rcases hrun with hrun | hrun
      · exact (hplaced.run hrun).2 e rfl
      · exact (hplaced.execute hrun).2 e rfl
    rcases hcases with hlocated | hflush
    · exact .inl (EvalError.pointsInto hlocated)
    · refine .inr ⟨hflush, ?_⟩
      obtain ⟨v, t, message, -, -, rfl⟩ := hflush
      rfl

def failedRun (text file : String) (sink : Sink) (fuel : Nat) :
    Option (Program Location × EvalError Location × Interpreter Location) :=
  match Program.parse text file with
  | .error _ => none
  | .ok program => match (Interpreter.new program .standard ⟨[], [], none⟩ sink).run fuel with
    | some (.error e, i) => some (program, e, i)
    | _ => none

theorem failedRun_eq_some {sink : Sink} {fuel : Nat} {program : Program Location}
    {e : EvalError Location} {i : Interpreter Location}
    (h : failedRun text file sink fuel = some (program, e, i)) :
    Program.parse text file = .ok program ∧
      (Interpreter.new program .standard ⟨[], [], none⟩ sink).run fuel = some (.error e, i) := by
  unfold failedRun at h
  split at h
  · cases h
  · split at h
    · cases h
      exact ⟨by assumption, by assumption⟩
    · cases h

/-- A text that ends too early, an operand behind a character of two bytes that is no number, and a
sink that cannot be flushed. -/
theorem failures_point_into_two_lines :
    let text := "var a;\na = \"\u00e9\" + 1;"
    let closed : Sink := ⟨#[], none, .acceptsNothing, some "closed"⟩
    (∃ e, Program.parse "a = (" "f" = .error e ∧ (Failure.ofParse e).PointsInto "a = (" "f" ∧
      (Failure.ofParse e).diagnostic.label.offset = 5 ∧
      (Failure.ofParse e).diagnostic.label.length = 1) ∧
    (∃ program e i, Program.parse text "f" = .ok program ∧
      (Interpreter.new program .standard ⟨[], [], none⟩ .unlimited).run 40 = some (.error e, i) ∧
      (Failure.evaluation e).location = ⟨"f", 2, 9, ⟨16, 17⟩⟩ ∧
      (Failure.evaluation e).PointsInto text "f") ∧
    ∃ program e i, Program.parse "1;" "f" = .ok program ∧
      (Interpreter.new program .standard ⟨[], [], none⟩ closed).run 20 = some (.error e, i) ∧
      (Interpreter.new program .standard ⟨[], [], none⟩ closed).FlushFails 20 e ∧
      (Failure.evaluation e).location = .synthetic := by
  intro text closed
  refine ⟨?_, ?_, ?_⟩
  · have hcomputed : (match Program.parse "a = (" "f" with
        | .error e => some ((Failure.ofParse e).diagnostic.label.offset,
          (Failure.ofParse e).diagnostic.label.length)
        | .ok _ => none) = some (5, 1) := by decide +kernel
    cases hparse : Program.parse "a = (" "f" with
    | ok program =>
      rw [hparse] at hcomputed
      cases hcomputed
    | error e =>
      rw [hparse] at hcomputed
      obtain ⟨hoffset, hlength⟩ := Prod.mk.inj (Option.some.inj hcomputed)
      exact ⟨e, rfl, (failures_point_into_text "a = (" "f").2.2.1 e hparse, hoffset, hlength⟩
  · have hcomputed : (failedRun text "f" .unlimited 40).map
        (fun x => (Failure.evaluation x.2.1).location) = some ⟨"f", 2, 9, ⟨16, 17⟩⟩ := by
      decide +kernel
    obtain ⟨⟨program, e, i⟩, hout, hlocation⟩ := Option.map_eq_some_iff.mp hcomputed
    obtain ⟨hparse, hrun⟩ := failedRun_eq_some hout
    refine ⟨program, e, i, hparse, hrun, hlocation, ?_⟩
    obtain ⟨-, hpoints⟩ :=
      (failures_point_into_text text "f").2.2.2 program hparse _ _ _ _ _ .fresh
    rcases hpoints 40 e i (.inl hrun) with hinto | ⟨-, hsynthetic⟩
    · exact hinto
    · exact absurd (hlocation.symm.trans hsynthetic) (by decide)
  · have hcomputed : (failedRun "1;" "f" closed 20).map
        (fun x => (Failure.evaluation x.2.1).location) = some .synthetic := by decide +kernel
    obtain ⟨⟨program, e, i⟩, hout, hlocation⟩ := Option.map_eq_some_iff.mp hcomputed
    obtain ⟨hparse, hrun⟩ := failedRun_eq_some hout
    refine ⟨program, e, i, hparse, hrun, ?_, hlocation⟩
    obtain ⟨-, hpoints⟩ :=
      (failures_point_into_text "1;" "f").2.2.2 program hparse _ _ _ _ _ .fresh
    rcases hpoints 20 e i (.inl hrun) with hinto | ⟨hflush, -⟩
    · have hfile := hinto.file_eq
      rw [hlocation] at hfile
      exact absurd hfile (by decide)
    · exact hflush

end Scriptlet
