import Mathlib.Data.Option.Basic
import Scriptlet.Diagnostic
import Scriptlet.Proofs.Interpreter.Leaks
import Scriptlet.Proofs.Interpreter.Relocation
import Scriptlet.Proofs.Program.Naturality
import Scriptlet.Proofs.Program.Tree
import Scriptlet.Proofs.Token.Extent

/-!
Layout has no meaning. Two texts with the same tokens are two views of one list of tokens, each of
which has a location in the one text and one in the other; so they are read as two views of one
program, or refused for one fault, and all that follows is the same but for locations.
-/

namespace Scriptlet

variable {α β γ : Type}

/-- What a token is, wherever it stands. -/
def Token.plain (t : Token α) : TokenKind × String := (t.kind, t.lexeme)

theorem exists_common_tokens {ts : List (Token α)} {us : List (Token β)}
    (h : ts.map Token.plain = us.map Token.plain) :
    ∃ zs : List (Token (α × β)), ts = zs.map (Token.map Prod.fst) ∧
      us = zs.map (Token.map Prod.snd) := by
  induction ts generalizing us with
  | nil => exact ⟨[], rfl, List.map_eq_nil_iff.mp h.symm⟩
  | cons t ts ih =>
    cases us with
    | nil => simp at h
    | cons u us =>
      obtain ⟨htu, hrest⟩ := List.cons.inj h
      obtain ⟨hkind, hlexeme⟩ := Prod.mk.inj htu
      obtain ⟨zs, rfl, rfl⟩ := ih hrest
      refine ⟨⟨t.kind, t.lexeme, (t.location, u.location)⟩ :: zs, rfl, ?_⟩
      rw [List.map_cons, hkind, hlexeme]
      rfl

/-- Texts with the same tokens are views of one stream. -/
theorem exists_common_stream {text text' file file' : String} {ts us : List (Token Location)}
    (hts : tokenize text file = .ok ts) (hus : tokenize text' file' = .ok us)
    (h : ts.map Token.plain = us.map Token.plain) :
    ∃ z : TokenStream (Location × Location), TokenStream.ofText text file = z.map Prod.fst ∧
      TokenStream.ofText text' file' = z.map Prod.snd := by
  obtain ⟨htokens, l, hl⟩ := tokens_of_tokenize hts
  obtain ⟨htokens', l', hl'⟩ := tokens_of_tokenize hus
  obtain ⟨zs, hfst, hsnd⟩ := exists_common_tokens h
  have hview : ∀ {s : TokenStream Location} {g : Location × Location → Location}
      {us : List (Token Location)}, s.tokens = us → s.ending = .complete (g (l, l')) →
      us = zs.map (Token.map g) → s = TokenStream.map g ⟨zs, .complete (l, l')⟩ := by
    rintro ⟨tokens, ending⟩ g us rfl rfl rfl
    rfl
  exact ⟨⟨zs, .complete (l, l')⟩, hview htokens hl hfst, hview htokens' hl' hsnd⟩

/-- Other locations and the same input. -/
def Transport.relocate (g : α → β) : Transport α β := ⟨g, id, fun _ => rfl⟩

/-- An error without its location; that it has one still shows. -/
def EvalError.unplaced (e : EvalError α) : EvalError Unit := e.map fun _ => ()

theorem EvalError.unplaced_map (g : α → β) (e : EvalError α) :
    (e.map g).unplaced = e.unplaced := by
  obtain ⟨cause, location⟩ := e
  cases location <;> rfl

theorem mapError_unplaced (g : α → β) (r : Except (EvalError α) γ) :
    (r.mapError (EvalError.map g)).mapError EvalError.unplaced =
      r.mapError EvalError.unplaced := by
  cases r with
  | ok x => rfl
  | error e => exact congrArg Except.error (e.unplaced_map g)

/-- Values have the same texts and the same numbers of holders, and equally many objects live. -/
structure Heap.SameView (h : Heap α) (h' : Heap β) : Prop where
  text : ∀ v, h.render v = h'.render v
  count : ∀ v, h.count? v = h'.count? v
  live : h.live = h'.live

namespace Heap.SameView

variable {h : Heap α} {h' : Heap β} {h'' : Heap γ}

theorem symm (hh : h.SameView h') : h'.SameView h :=
  ⟨fun v => (hh.text v).symm, fun v => (hh.count v).symm, hh.live.symm⟩

theorem trans (hh : h.SameView h') (hh' : h'.SameView h'') : h.SameView h'' :=
  ⟨fun v => (hh.text v).trans (hh'.text v), fun v => (hh.count v).trans (hh'.count v),
    hh.live.trans hh'.live⟩

theorem of_map (g : α → β) (h : Heap α) : (h.map g).SameView h :=
  ⟨h.render_map g, h.count?_map g, rfl⟩

end Heap.SameView

namespace Interpreter

/-- Two runs have come to the same but for locations. -/
structure SameButPlaces (x : Except (EvalError α) Value × Interpreter α)
    (y : Except (EvalError β) Value × Interpreter β) : Prop where
  /-- The same value, or the same cause of failure. -/
  result : x.1.mapError EvalError.unplaced = y.1.mapError EvalError.unplaced
  heap : x.2.world.heap.SameView y.2.world.heap
  /-- Also when the interpreter is let go of, and then the result. -/
  closed : x.2.close.heap.SameView y.2.close.heap
  leftover : (x.2.leftover x.1).SameView (y.2.leftover y.1)
  output : x.2.world.sink = y.2.world.sink
  input : x.2.world.input = y.2.world.input

theorem SameButPlaces.trans {x : Except (EvalError α) Value × Interpreter α}
    {y : Except (EvalError β) Value × Interpreter β}
    {z : Except (EvalError γ) Value × Interpreter γ} (h : SameButPlaces x y)
    (h' : SameButPlaces y z) : SameButPlaces x z where
  result := h.result.trans h'.result
  heap := h.heap.trans h'.heap
  closed := h.closed.trans h'.closed
  leftover := h.leftover.trans h'.leftover
  output := h.output.trans h'.output
  input := h.input.trans h'.input

theorem SameButPlaces.symm {x : Except (EvalError α) Value × Interpreter α}
    {y : Except (EvalError β) Value × Interpreter β} (h : SameButPlaces x y) :
    SameButPlaces y x where
  result := h.result.symm
  heap := h.heap.symm
  closed := h.closed.symm
  leftover := h.leftover.symm
  output := h.output.symm
  input := h.input.symm

theorem sameButPlaces_relocate (g : α → β) (r : Except (EvalError α) Value)
    (i : Interpreter α) :
    SameButPlaces (transportResult (.relocate g) r, i.transport (.relocate g)) (r, i) := by
  have hresult : (transportResult (.relocate g) r).toOption = r.toOption := by
    cases r <;> rfl
  have hclosed : (i.transport (.relocate g)).close.heap = i.close.heap.map g :=
    congrArg World.heap (close_transport (.relocate g) i)
  refine ⟨mapError_unplaced g r, .of_map g _, ?_, ?_, rfl, rfl⟩
  · rw [hclosed]
    exact .of_map g _
  · rw [leftover, leftover, hresult, hclosed, Heap.releaseAll_map]
    exact .of_map g _

theorem new_relocate (g : α → β) (p : Program α) (config : Config) (input : Input) (sink : Sink) :
    new (p.map g) config input sink = (new p config input sink).transport (.relocate g) := by
  simp only [new, transport, World.transport, Heap.map_empty]
  rfl

/-- Programs that differ in locations only do the same, step for step. -/
theorem run_relocate (g : γ → α) (g' : γ → β) (p : Program γ) (config : Config) (input : Input)
    (sink : Sink) (fuel : Nat) :
    Option.Rel SameButPlaces ((new (p.map g) config input sink).run fuel)
      ((new (p.map g') config input sink).run fuel) := by
  rw [new_relocate, new_relocate, run_transport, run_transport]
  cases (new p config input sink).run fuel with
  | none => exact .none
  | some x =>
    have hleft := sameButPlaces_relocate g x.1 x.2
    have hright := sameButPlaces_relocate g' x.1 x.2
    exact .some (hleft.trans hright.symm)

end Interpreter

/-- Texts that differ only in what stands between tokens, in how strings are spelled and in the name
of the file are refused for the same reason or stand for programs that are drawn alike, use the
same name too early if any, and do the same. -/
theorem same_tokens_same_meaning {text text' file file' : String} {ts us : List (Token Location)}
    (hts : tokenize text file = .ok ts) (hus : tokenize text' file' = .ok us)
    (hsame : ts.map Token.plain = us.map Token.plain) :
    (∃ e e', Program.parse text file = .error e ∧ Program.parse text' file' = .error e' ∧
      (Failure.ofParse e).message = (Failure.ofParse e').message ∧
      (Failure.ofParse e).help? = (Failure.ofParse e').help?) ∨
    ∃ p p', Program.parse text file = .ok p ∧ Program.parse text' file' = .ok p' ∧
      p.draw = p'.draw ∧
      p.analyze.mapError EvalError.unplaced = p'.analyze.mapError EvalError.unplaced ∧
      ∀ config input sink fuel, Option.Rel Interpreter.SameButPlaces
        ((Interpreter.new p config input sink).run fuel)
        ((Interpreter.new p' config input sink).run fuel) := by
  obtain ⟨z, hz, hz'⟩ := exists_common_stream hts hus hsame
  simp only [Program.parse, hz, hz', Program.ofStream_map]
  cases Program.ofStream z with
  | error e => exact .inl ⟨_, _, rfl, rfl, by cases e <;> rfl, by cases e <;> rfl⟩
  | ok p =>
    refine .inr ⟨_, _, rfl, rfl, ?_, ?_, fun config input sink fuel => ?_⟩
    · rw [Program.draw_map, Program.draw_map]
    · rw [Program.analyze_map, Program.analyze_map, mapError_unplaced, mapError_unplaced]
    · exact Interpreter.run_relocate Prod.fst Prod.snd p config input sink fuel

/-- A tab is spelled out in one text and stands for itself in the other. -/
theorem same_tokens_same_meaning_of_tab :
    let text := "println(\"a\\tb\");"
    let text' := " println (\n\"a\tb\" ) ;\n"
    let tokens := (TokenStream.ofText text "f").tokens
    let tokens' := (TokenStream.ofText text' "g").tokens
    tokenize text "f" = .ok tokens ∧ tokenize text' "g" = .ok tokens' ∧
      tokens.map Token.plain = tokens'.map Token.plain ∧ tokens ≠ tokens' ∧
      ∃ p p', Program.parse text "f" = .ok p ∧ Program.parse text' "g" = .ok p' ∧
        p.draw = p'.draw ∧
        ∀ config input sink fuel, Option.Rel Interpreter.SameButPlaces
          ((Interpreter.new p config input sink).run fuel)
          ((Interpreter.new p' config input sink).run fuel) := by
  intro text text' tokens tokens'
  have hts : tokenize text "f" = .ok tokens := by decide +kernel
  have hus : tokenize text' "g" = .ok tokens' := by decide +kernel
  have hsame : tokens.map Token.plain = tokens'.map Token.plain := by decide +kernel
  have hread : (Program.parse text "f").toOption.isSome := by decide +kernel
  refine ⟨hts, hus, hsame, by decide +kernel, ?_⟩
  rcases same_tokens_same_meaning hts hus hsame with ⟨e, e', he, -⟩ | ⟨p, p', hp, hp', hdraw, -, hrun⟩
  · rw [he] at hread
    cases hread
  · exact ⟨p, p', hp, hp', hdraw, hrun⟩

end Scriptlet
