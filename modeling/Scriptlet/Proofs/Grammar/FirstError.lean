import Scriptlet.Proofs.Grammar.Acceptance
import Scriptlet.Proofs.Token.Extent

/-!
What a text that is no program is refused for. The first token that no program goes on with comes
before any lexical fault behind it; a lexical fault comes before the end of the text.
-/

namespace Scriptlet

variable {α : Type}

theorem Viable.mono {f : Form} {ts us : List (Token α)} (h : Viable f us) (hts : ts <+: us) :
    Viable f ts := by
  obtain ⟨d, hd⟩ := h
  exact ⟨d, hts.trans hd⟩

/-- Of the places where something that holds of shorter lists is lost there is only one first. -/
theorem first_failure_unique {β : Type} {P : List β → Prop}
    (hmono : ∀ {xs ys}, P ys → xs <+: ys → P xs) {pre pre' post post' : List β} {t t' : β}
    (h : pre ++ t :: post = pre' ++ t' :: post') (hv : P pre) (hn : ¬ P (pre ++ [t]))
    (hv' : P pre') (hn' : ¬ P (pre' ++ [t'])) : t = t' := by
  -- The longer of two different prefixes would contain the element behind the shorter one.
  have hlt : ∀ {ps qs rs rs' : List β} {u u' : β}, ps ++ u :: rs = qs ++ u' :: rs' →
      P qs → ¬ P (ps ++ [u]) → qs.length ≤ ps.length := by
    intro ps qs rs rs' u u' he hq hu
    refine Nat.le_of_not_lt fun hlen => ?_
    have hps : ps ++ [u] <+: ps ++ u :: rs := ⟨rs, by simp⟩
    have hqs : qs <+: ps ++ u :: rs := ⟨u' :: rs', he.symm⟩
    have hle : (ps ++ [u]).length ≤ qs.length := by
      rw [List.length_append, List.length_singleton]
      omega
    exact hu (hmono hq (List.prefix_of_prefix_length_le hps hqs hle))
  have hlen : pre.length = pre'.length := Nat.le_antisymm (hlt h.symm hv hn') (hlt h hv' hn)
  exact (List.cons.inj (List.append_inj h hlen).2).1

/-- There is only one first token that makes going on impossible. -/
theorem first_hopeless_unique {f : Form} {pre pre' post post' : List (Token α)} {t t' : Token α}
    (h : pre ++ t :: post = pre' ++ t' :: post') (hv : Viable f pre) (hn : ¬ Viable f (pre ++ [t]))
    (hv' : Viable f pre') (hn' : ¬ Viable f (pre' ++ [t'])) : t = t' :=
  first_failure_unique Viable.mono h hv hn hv' hn'

namespace Program

variable [Inhabited α]

/-- Whether the parser, given only the tokens, finds none of them out of place. -/
def viable? (ts : List (Token α)) : Bool :=
  match ofStream ⟨ts, .complete default⟩ with
  | .error (.syntactic ⟨.unexpectedToken _ _, _⟩) => false
  | _ => true

theorem viable?_iff (ts : List (Token α)) : viable? ts = true ↔ ViableProgram ts := by
  have hout := ofStream_outcome (⟨ts, .complete default⟩ : TokenStream α)
  unfold viable?
  generalize ofStream (⟨ts, .complete default⟩ : TokenStream α) = r at hout
  cases hout with
  | accepted d hts => exact ⟨fun _ => ⟨d, hts ▸ List.prefix_rfl⟩, fun _ => rfl⟩
  | refused pre t post w hts viable hopeless =>
    refine ⟨nofun, fun h => absurd (h.mono ⟨post, ?_⟩) hopeless⟩
    rw [List.append_assoc]
    exact hts.symm
  | ended w viable underived => exact ⟨fun _ => viable, fun _ => rfl⟩

instance (ts : List (Token α)) : Decidable (ViableProgram ts) :=
  decidable_of_iff _ (viable?_iff ts)

/-- The parser reports the first token that no program goes on with; if there is none, the first
lexical fault; if there is none, the end of a text that is no program yet. -/
theorem parse_reports_first_fault (text file : String) :
    let tokens := (TokenStream.ofText text file).tokens
    (ViableProgram tokens ∨ ∃ pre t post, tokens = pre ++ t :: post ∧ ViableProgram pre ∧
      ¬ ViableProgram (pre ++ [t])) ∧
    (∀ pre t post, tokens = pre ++ t :: post → ViableProgram pre → ¬ ViableProgram (pre ++ [t]) →
      ∃ e : SyntaxError Location, parse text file = .error (.syntactic e) ∧
        e.fault.message = "Unexpected token '" ++ t.lexeme ++ "'" ∧ e.location = t.location) ∧
    (∀ e, ViableProgram tokens → tokenize text file = .error e →
      parse text file = .error (.lexical e)) ∧
    (∀ ts, tokenize text file = .ok ts → ViableProgram ts →
      (∀ d : Derivation Location (.phrase .program), d.yield ≠ ts) →
      ∃ (e : SyntaxError Location) (wanted : Expectation),
        parse text file = .error (.syntactic e) ∧
        e.fault.message = "Unexpected end of input looking for " ++ wanted.atEnd ∧
        e.location.span = ⟨text.utf8ByteSize, text.utf8ByteSize⟩) ∧
    (∀ program, parse text file = .ok program → ∃ ts, tokenize text file = .ok ts) := by
  intro tokens
  have hbefore : ∀ {pre t post}, tokens = pre ++ t :: post → ViableProgram tokens →
      ViableProgram (pre ++ [t]) := by
    intro pre t post h hv
    exact hv.mono ⟨post, by rw [h]; simp⟩
  have hout : ProgramOutcome _ (parse text file) := ofStream_outcome (TokenStream.ofText text file)
  generalize parse text file = r at hout
  cases hout with
  | accepted d hts l hending =>
    have hv : ViableProgram tokens := ⟨d, hts ▸ List.prefix_rfl⟩
    refine ⟨.inl hv, fun pre t post h _ hn => absurd (hbefore h hv) hn, fun e _ he => ?_,
      fun ts h _ hd => absurd (hts.trans (tokens_of_tokenize h).1) (hd d),
      fun _ _ => ⟨tokens, tokenize_of_ending hending⟩⟩
    cases hending.symm.trans (ending_of_tokenize_error he)
  | refused pre t post w hts viable hopeless =>
    have hn : ¬ ViableProgram tokens := fun hv => hopeless (hbefore hts hv)
    refine ⟨.inr ⟨pre, t, post, hts, viable, hopeless⟩, fun pre' t' post' h hv hn => ?_,
      fun _ hv => absurd hv hn, fun ts h hv => ?_, nofun⟩
    · obtain rfl := first_hopeless_unique (hts.symm.trans h) viable hopeless hv hn
      exact ⟨_, rfl, rfl, rfl⟩
    · rw [← (tokens_of_tokenize h).1] at hv
      exact absurd hv hn
  | ended w viable underived =>
    refine ⟨.inl viable, fun pre t post h _ hn => absurd (hbefore h viable) hn, fun e _ he => ?_,
      fun ts h _ hd => ?_, nofun⟩
    · rw [ending_of_tokenize_error he]
      rfl
    · obtain ⟨-, l, hl⟩ := tokens_of_tokenize h
      rw [hl]
      exact ⟨_, w, rfl, rfl, TokenStream.span_of_ofText_ending hl⟩

/-- A bracket out of place is reported, and not the stray character behind it. -/
theorem parse_reports_bracket :
    let place := fun i => Location.mk "f" 1 (i + 1) ⟨i, i + 1⟩
    ViableProgram [⟨.identifier, "x", place 0⟩, ⟨.assign, "=", place 1⟩] ∧
      ∃ e : SyntaxError Location, parse "x=) @" "f" = .error (.syntactic e) ∧
        e.fault.message = "Unexpected token ')'" ∧ e.location = place 2 := by
  intro place
  have hviable : ViableProgram [⟨.identifier, "x", place 0⟩, ⟨.assign, "=", place 1⟩] := by
    decide +kernel
  exact ⟨hviable, (parse_reports_first_fault "x=) @" "f").2.1 _ ⟨.rightParen, ")", place 2⟩ []
    (by decide +kernel) hviable (by decide +kernel)⟩

end Program

end Scriptlet
