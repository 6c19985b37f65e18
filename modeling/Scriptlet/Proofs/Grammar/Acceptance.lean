import Scriptlet.Program.Tree
import Scriptlet.Proofs.Grammar.Statement
import Scriptlet.Proofs.Token.Extent

/-!
The parser accepts exactly the grammar. Reading a whole text comes to one of three ends: the text
is derived and its tree is the answer; some token is the first that no program goes on with, and
is refused; or the text can be gone on from, and its end is what is wrong.
-/

namespace Scriptlet

variable {α β γ : Type}

/-- Some program goes on from the given tokens. -/
abbrev ViableProgram (ts : List (Token α)) : Prop := Viable (.phrase .program) ts

/-- A program derives at most one tree. -/
theorem Derivation.eq_of_yield_eq {p : Phrase} {d e : Derivation α (.phrase p)}
    (h : d.yield = e.yield) : d = e := by
  have happ : d.yield ++ [] = e.yield ++ [] := by rw [h]
  exact (d.eq_of_yield_append rfl e (avoids_none _) (avoids_none _) happ).1

theorem Outcome.eq_of_length {N : Nat} {f : Form} {v : f.Tree α → β} {q : Parser α β}
    {ending : Ending α} {ts : List (Token α)} {r : Except (ParseError α) (β × List (Token α))}
    (h : Outcome N f v q ending ts r) (hlen : ts.length < N) : q ending ts = r := by
  cases h with
  | read d rest hts same =>
    subst hts
    exact same ending rest hlen rfl (.inr rfl)
  | refused pre t rest w hts viable same =>
    subst hts
    exact same ending rest hlen
  | ended w viable same => exact same

theorem Parser.ok_of_bind {p : Parser α β} {k : β → Parser α γ} {ending : Ending α}
    {ts : List (Token α)} {r : γ × List (Token α)} (h : (p >>= k) ending ts = .ok r) :
    ∃ b rest, p ending ts = .ok (b, rest) ∧ k b ending rest = .ok r := by
  cases hp : p ending ts with
  | error e => exact absurd ((bind_of_error hp).symm.trans h) (by simp)
  | ok x => exact ⟨x.1, x.2, rfl, (bind_of_ok hp).symm.trans h⟩

/-- Items are read up to the end of a text without a lexical fault. -/
theorem Parser.items_ok {b n : Nat} {ending : Ending α} {ts rest : List (Token α)}
    {xs : List (Item α)} (h : items b n ending ts = .ok (xs, rest)) :
    rest = [] ∧ ∃ l, ending = .complete l := by
  induction n generalizing ts xs with
  | zero => exact absurd h (by simp [items, exhausted])
  | succ n ih =>
    obtain ⟨o, ts', hpeek, h⟩ := ok_of_bind h
    cases o with
    | none =>
      cases ts with
      | cons t ts => cases ending <;> exact absurd hpeek (by simp [peek])
      | nil =>
        cases ending with
        | broken e => exact absurd hpeek (by simp [peek])
        | complete l =>
          cases hpeek
          cases h
          exact ⟨rfl, l, rfl⟩
    | some k =>
      obtain ⟨x, ts₁, _, h⟩ := ok_of_bind h
      obtain ⟨ys, ts₂, hitems, h⟩ := ok_of_bind h
      cases h
      exact ih hitems

/-- One bound is enough for going on from every prefix that can be gone on from. -/
theorem exists_bound_of_viable (f : Form) (ts : List (Token α)) (n : Nat) :
    ∃ N, ∀ i ≤ n, Viable f (ts.take i) →
      ∃ d : Derivation α f, ts.take i <+: d.yield ∧ d.yield.length < N := by
  have hone : ∀ i, ∃ N, Viable f (ts.take i) →
      ∃ d : Derivation α f, ts.take i <+: d.yield ∧ d.yield.length < N := by
    intro i
    by_cases h : Viable f (ts.take i)
    · obtain ⟨d, hd⟩ := h
      exact ⟨d.yield.length + 1, fun _ => ⟨d, hd, Nat.lt_succ_self _⟩⟩
    · exact ⟨0, fun h' => absurd h' h⟩
  induction n with
  | zero =>
    obtain ⟨N, hN⟩ := hone 0
    exact ⟨N, fun i hi => by rwa [Nat.le_zero.mp hi]⟩
  | succ n ih =>
    obtain ⟨N, hN⟩ := ih
    obtain ⟨M, hM⟩ := hone (n + 1)
    refine ⟨max N M, fun i hi hv => ?_⟩
    rcases Nat.lt_or_eq_of_le hi with hlt | rfl
    · obtain ⟨d, hd, hlen⟩ := hN i (Nat.le_of_lt_succ hlt) hv
      exact ⟨d, hd, by omega⟩
    · obtain ⟨d, hd, hlen⟩ := hM hv
      exact ⟨d, hd, by omega⟩

namespace Parser

variable [Inhabited α]

/-- The bound does not matter as long as it is above the number of tokens. -/
theorem items_bound {b c : Nat} {ending : Ending α} {ts : List (Token α)} (hb : ts.length < b)
    (hc : ts.length < c) : items c c ending ts = items b b ending ts :=
  ((parses_program (α := α) (N := ts.length + 1) hb hc hb hc).reads ending ts
    (Nat.lt_succ_self _) trivial).eq_of_length (Nat.lt_succ_self _)

theorem items_of_derivation {b : Nat} {l : α} (d : Derivation α (.phrase .program))
    (hb : d.yield.length < b) :
    items b b (.complete l) d.yield = .ok (d.tree.items, []) := by
  have h := (parses_program (α := α) (N := b) (Nat.le_refl b) (Nat.le_refl b) (Nat.le_refl b)
    (Nat.le_refl b)).accepts d (.complete l) [] (by simpa using hb) trivial rfl fun _ => ⟨l, rfl⟩
  rwa [List.append_nil] at h

end Parser

/-- What reading a program from a stream of tokens comes to. -/
inductive ProgramOutcome (s : TokenStream α) : Except (ParseError α) (Program α) → Prop
  | accepted (d : Derivation α (.phrase .program)) (hts : d.yield = s.tokens) (l : α)
      (hending : s.ending = .complete l) : ProgramOutcome s (.ok d.tree)
  | refused (pre : List (Token α)) (t : Token α) (post : List (Token α)) (w : Expectation)
      (hts : s.tokens = pre ++ t :: post) (viable : ViableProgram pre)
      (hopeless : ¬ ViableProgram (pre ++ [t])) : ProgramOutcome s (.error (t.error w))
  | ended (w : Expectation) (viable : ViableProgram s.tokens)
      (underived : ∀ l, s.ending = .complete l →
        ∀ d : Derivation α (.phrase .program), d.yield ≠ s.tokens) :
      ProgramOutcome s (.error (s.ending.error (some w)))

/-- Reading does not end for want of a bound: an error at the end says what was wanted there. -/
theorem ProgramOutcome.ne_exhausted {s : TokenStream α} {r : Except (ParseError α) (Program α)}
    (h : ProgramOutcome s r) (l : α) : r ≠ .error (.syntactic ⟨.endOfInput none, l⟩) := by
  cases h with
  | accepted => simp
  | refused => simp [Token.error]
  | ended => cases s.ending <;> simp [Ending.error]

namespace Program

variable [Inhabited α]

/-- The bound may be any number above the number of tokens. -/
theorem ofStream_eq_items {s : TokenStream α} {b : Nat} (hb : s.tokens.length < b) :
    ofStream s = (Parser.items b b s.ending s.tokens).map fun r => ⟨r.1⟩ := by
  rw [ofStream, Parser.items_bound hb (Nat.lt_succ_self _)]
  cases Parser.items b b s.ending s.tokens <;> rfl

theorem ofStream_of_derivation {s : TokenStream α} {l : α} (hs : s.ending = .complete l)
    {d : Derivation α (.phrase .program)} (hd : d.yield = s.tokens) : ofStream s = .ok d.tree := by
  rw [ofStream_eq_items (Nat.lt_succ_self _), hs, ← hd,
    Parser.items_of_derivation d (Nat.lt_succ_self _)]
  rfl

theorem ofStream_outcome (s : TokenStream α) : ProgramOutcome s (ofStream s) := by
  -- A bound above the lengths of texts by which the prefixes of this one can be gone on from.
  obtain ⟨M, hM⟩ := exists_bound_of_viable (.phrase .program) s.tokens s.tokens.length
  let N := max M (s.tokens.length + 1)
  have hN : s.tokens.length < N := by omega
  rw [ofStream_eq_items hN]
  have hread := (Parser.parses_program (α := α) (Nat.le_refl N) (Nat.le_refl N) (Nat.le_refl N)
    (Nat.le_refl N)).reads s.ending s.tokens hN trivial
  generalize hr : Parser.items N N s.ending s.tokens = r at hread
  cases hread with
  | read d rest hts same =>
    obtain ⟨rfl, l, hl⟩ := Parser.items_ok hr
    rw [List.append_nil] at hts
    exact .accepted d hts.symm l hl
  | refused pre t post w hts viable same =>
    refine .refused pre t post w hts viable fun hviable => ?_
    have htake : pre ++ [t] = s.tokens.take (pre.length + 1) := by
      rw [hts, List.take_length_add_append]
      rfl
    rw [htake] at hviable
    obtain ⟨d, ⟨us, hd⟩, hlen⟩ := hM _ (by simp [hts]) hviable
    rw [← htake, List.append_assoc, List.singleton_append] at hd
    have hok := Parser.items_of_derivation (b := N) (l := default) d (by omega)
    have herr := same (.complete default) us (by rw [hd]; omega)
    rw [hd, hok] at herr
    cases herr
  | ended w viable same =>
    refine .ended w viable fun l hl d hd => ?_
    rw [← hd] at hN
    have hok := Parser.items_of_derivation (l := l) d hN
    rw [hd, ← hl, hr] at hok
    cases hok

theorem parse_outcome (text file : String) :
    ProgramOutcome (TokenStream.ofText text file) (parse text file) := ofStream_outcome _

/-- A text without lexical faults is read alike whatever the bound and never gives the answer of a
bound that is used up. It is accepted if and only if its tokens are derived from the grammar, and
then has one derivation, whose tree is the answer. -/
theorem parse_ok_iff_derived {text file : String} {ts : List (Token Location)}
    (h : tokenize text file = .ok ts) :
    (∀ b, ts.length < b → parse text file =
      (Parser.items b b (TokenStream.ofText text file).ending ts).map fun r => ⟨r.1⟩) ∧
    (∀ l, parse text file ≠ .error (.syntactic ⟨.endOfInput none, l⟩)) ∧
    (∀ program, parse text file = .ok program ↔
      ∃ d : Derivation Location (.phrase .program), d.yield = ts ∧ d.tree = program) ∧
    ∀ d e : Derivation Location (.phrase .program), d.yield = ts → e.yield = ts → d = e := by
  obtain ⟨rfl, l, hl⟩ := tokens_of_tokenize h
  refine ⟨fun b hb => ofStream_eq_items hb, (parse_outcome text file).ne_exhausted,
    fun program => ⟨fun hp => ?_, ?_⟩, fun d e hd he =>
    Derivation.eq_of_yield_eq (hd.trans he.symm)⟩
  · have hout := ofStream_outcome (TokenStream.ofText text file)
    change ofStream _ = _ at hp
    rw [hp] at hout
    cases hout with
    | accepted d hts => exact ⟨d, hts, rfl⟩
  · rintro ⟨d, hd, rfl⟩
    exact ofStream_of_derivation hl hd

/-- The tokens of `a = b - 1 - c;` have a derivation, in which `-` groups to the left. -/
theorem derived_of_subtractions :
    ∃ ts, tokenize "a = b - 1 - c;" "f" = .ok ts ∧
      ∃ d : Derivation Location (.phrase .program), d.yield = ts ∧
        parse "a = b - 1 - c;" "f" = .ok d.tree ∧
        draw d.tree = "UNIT\n+--STATEMENT\n   +--ASSIGN\n      +--VARREF[a]\n      +--SUB\n" ++
          "         +--SUB\n         |  +--VARREF[b]\n         |  +--INT_LITERAL[1]\n" ++
          "         +--VARREF[c]\n" := by
  have hending : (TokenStream.ofText "a = b - 1 - c;" "f").ending =
      .complete ⟨"f", 1, 15, ⟨14, 14⟩⟩ := by decide +kernel
  have hdraw : (parse "a = b - 1 - c;" "f").toOption.map draw =
      some ("UNIT\n+--STATEMENT\n   +--ASSIGN\n      +--VARREF[a]\n      +--SUB\n" ++
        "         +--SUB\n         |  +--VARREF[b]\n         |  +--INT_LITERAL[1]\n" ++
        "         +--VARREF[c]\n") := by decide +kernel
  have htokens := tokenize_of_ending hending
  cases hp : parse "a = b - 1 - c;" "f" with
  | error e => rw [hp] at hdraw; cases hdraw
  | ok program =>
    obtain ⟨d, hd, htree⟩ := ((parse_ok_iff_derived htokens).2.2.1 program).mp hp
    rw [hp] at hdraw
    exact ⟨_, htokens, d, hd, congrArg _ htree.symm, by rw [htree]; exact Option.some.inj hdraw⟩

end Program

end Scriptlet
