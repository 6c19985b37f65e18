import Scriptlet.Proofs.Token.Tiling

/-!
String literals. What can be written between quotes and read back are the texts without a backslash,
in one or more spellings each. Where a literal ends or fails is told by its units, the characters
one by one but a backslash together with the character behind it: the first unit that is a quote or
a wrong escape decides.
-/

namespace Scriptlet

/-! ### Spelling a text -/

/-- One character between quotes. A quote needs its escape, a control has it by choice. -/
def spellChar : Char → Bool → List Char
  | '"', _ => ['\\', '"']
  | '\n', true => ['\\', 'n']
  | '\t', true => ['\\', 't']
  | '\r', true => ['\\', 'r']
  | c, _ => [c]

/-- A text between quotes, with a choice for each of its characters. -/
def spellString (text : List (Char × Bool)) : List Char := text.flatMap fun p => spellChar p.1 p.2

theorem decodes_spellChar {c : Char} (hc : c ≠ '\\') (escaped : Bool) {body value : List Char}
    (h : Decodes body value) : Decodes (spellChar c escaped ++ body) (c :: value) := by
  unfold spellChar
  split
  iterate 4 exact .escape (by simp [escapes]) h
  · rename_i hquote _ _ _
    exact .plain (fun heq => hquote heq) hc h

theorem decodes_spellString {text : List (Char × Bool)} (h : ∀ p ∈ text, p.1 ≠ '\\') :
    Decodes (spellString text) (text.map Prod.fst) := by
  induction text with
  | nil => exact .nil
  | cons p text ih =>
    rw [List.forall_mem_cons] at h
    exact decodes_spellChar h.1 p.2 (ih h.2)

theorem Decodes.ne_backslash {body value : List Char} (h : Decodes body value) :
    ∀ c ∈ value, c ≠ '\\' := by
  induction h with
  | nil => exact nofun
  | @escape e d body value he _ ih =>
    intro c hc
    rcases List.mem_cons.mp hc with rfl | hc
    · simp only [escapes, List.mem_cons, Prod.mk.injEq, List.not_mem_nil, or_false] at he
      rcases he with ⟨-, rfl⟩ | ⟨-, rfl⟩ | ⟨-, rfl⟩ | ⟨-, rfl⟩ <;> decide
    · exact ih c hc
  | plain hquote hslash _ ih =>
    intro c hc
    rcases List.mem_cons.mp hc with rfl | hc
    · exact hslash
    · exact ih c hc

/-! ### The units of a literal -/

/-- The characters one by one, a backslash together with the one behind it. -/
def units : List Char → List (List Char)
  | [] => []
  | [c] => [[c]]
  | c :: d :: cs => if c = '\\' then [c, d] :: units cs else [c] :: units (d :: cs)

/-- Neither a quote nor a backslash with a character that makes no escape. -/
def harmless : List Char → Bool
  | ['"'] => false
  | ['\\', e] => e ∈ ['n', 't', 'r', '"']
  | _ => true

theorem units_of_ne {c : Char} (hc : c ≠ '\\') (cs : List Char) :
    units (c :: cs) = [c] :: units cs := by
  cases cs with
  | nil => rfl
  | cons d cs => rw [units, if_neg hc]

theorem units_escape (e : Char) (cs : List Char) :
    units ('\\' :: e :: cs) = ['\\', e] :: units cs := by rw [units, if_pos rfl]

theorem flatten_units (cs : List Char) : (units cs).flatten = cs := by
  fun_induction units cs with
  | case1 => rfl
  | case2 c => rfl
  | case3 d cs ih => simp [ih]
  | case4 c d cs hc ih => simp [ih]

namespace StringBody

/-- What a list of units comes to if they are taken one by one. -/
inductive Takes : List (List Char) → StringBody → Prop
  | closed {us vs : List (List Char)} (value : List Char) (h : ∀ u ∈ us, harmless u) :
    Takes (us ++ ['"'] :: vs) (closed value (us.flatten ++ ['"']) vs.flatten)
  | badEscape {us vs : List (List Char)} {e : Char} (h : ∀ u ∈ us, harmless u)
    (he : e ∉ ['n', 't', 'r', '"']) :
    Takes (us ++ ['\\', e] :: vs) (badEscape us.flatten e vs.flatten)
  | unclosed {us : List (List Char)} (h : ∀ u ∈ us, harmless u) : Takes us unclosed

theorem Takes.cons {u : List Char} {us : List (List Char)} {b : StringBody} (h : Takes us b)
    (hu : harmless u) (d : Char) : Takes (u :: us) (b.cons d u) := by
  cases h with
  | @closed us vs value h =>
    have hmore : Takes (u :: us ++ ['"'] :: vs) _ :=
      .closed (d :: value) (List.forall_mem_cons.mpr ⟨hu, h⟩)
    simpa [StringBody.cons] using hmore
  | @badEscape us vs e h he =>
    have hmore : Takes (u :: us ++ ['\\', e] :: vs) _ :=
      .badEscape (List.forall_mem_cons.mpr ⟨hu, h⟩) he
    simpa [StringBody.cons] using hmore
  | unclosed h => exact .unclosed (List.forall_mem_cons.mpr ⟨hu, h⟩)

theorem escape?_eq_none {e : Char} : escape? e = none ↔ e ∉ ['n', 't', 'r', '"'] := by
  unfold escape?
  split <;> simp_all

theorem harmless_escape {e d : Char} (h : escape? e = some d) : harmless ['\\', e] := by
  refine decide_eq_true (Decidable.byContradiction fun hout => ?_)
  rw [escape?_eq_none.mpr hout] at h
  cases h

theorem harmless_singleton {c : Char} (hc : c ≠ '"') : harmless [c] := by
  unfold harmless
  split
  · rename_i heq
    cases heq
    exact absurd rfl hc
  · rename_i heq
    cases heq
  · rfl

theorem takes_read (cs : List Char) : Takes (units cs) (read cs) := by
  fun_induction read cs with
  | case1 => exact .unclosed (List.forall_mem_nil _)
  | case2 cs =>
    have hclosed : Takes ([] ++ ['"'] :: units cs) _ := .closed [] (List.forall_mem_nil _)
    rw [flatten_units] at hclosed
    rw [units_of_ne (by decide)]
    exact hclosed
  | case3 => exact .unclosed (List.forall_mem_singleton.mpr (harmless_singleton (by decide)))
  | case4 e rest d he _ ih =>
    rw [units_escape]
    exact ih.cons (harmless_escape he) d
  | case5 e rest he =>
    have hbad : Takes ([] ++ ['\\', e] :: units rest) _ :=
      .badEscape (List.forall_mem_nil _) (escape?_eq_none.mp he)
    rw [flatten_units] at hbad
    rw [units_escape]
    exact hbad
  | case6 c cs hquote hslash ih =>
    rw [units_of_ne hslash]
    exact ih.cons (harmless_singleton hquote) c

/-- At most one list of harmless units goes before the first other one. -/
theorem harmless_unique {us us' vs vs' : List (List Char)} {u u' : List Char}
    (h : us ++ u :: vs = us' ++ u' :: vs') (hus : ∀ x ∈ us, harmless x)
    (hus' : ∀ x ∈ us', harmless x) (hu : ¬ harmless u) (hu' : ¬ harmless u') :
    us = us' ∧ u = u' ∧ vs = vs' := by
  induction us generalizing us' with
  | nil =>
    cases us' with
    | nil => exact ⟨rfl, List.cons.inj h⟩
    | cons x us' =>
      obtain ⟨rfl, -⟩ := List.cons.inj h
      exact absurd (hus' _ List.mem_cons_self) hu
  | cons x us ih =>
    cases us' with
    | nil =>
      obtain ⟨rfl, -⟩ := List.cons.inj h
      exact absurd (hus _ List.mem_cons_self) hu'
    | cons x' us' =>
      obtain ⟨rfl, hrest⟩ := List.cons.inj h
      rw [List.forall_mem_cons] at hus hus'
      obtain ⟨rfl, htail⟩ := ih hrest hus.2 hus'.2
      exact ⟨rfl, htail⟩

end StringBody

/-! ### Reading a literal -/

namespace Cursor

variable {file : String} {before cs : List Char}

theorem read_quote (file : String) (before cs : List Char) :
    (behind file before ('"' :: cs)).read =
      (behind file before ('"' :: cs)).follow (Scan.string cs) := read_behind rfl file before cs

/-- How the units of a string literal decide what is read. -/
theorem read_literal_cases (file : String) (before cs : List Char) :
    (∃ us vs value, units cs = us ++ ['"'] :: vs ∧ (∀ u ∈ us, harmless u) ∧
      (behind file before ('"' :: cs)).read =
        (.token ⟨.string, String.ofList value,
          .behind file before ('"' :: (us.flatten ++ ['"']))⟩,
          behind file (before ++ '"' :: (us.flatten ++ ['"'])) vs.flatten)) ∨
    (∃ us vs e, units cs = us ++ ['\\', e] :: vs ∧ (∀ u ∈ us, harmless u) ∧
      e ∉ ['n', 't', 'r', '"'] ∧ (behind file before ('"' :: cs)).read.1 =
        .fault ⟨.invalidEscape e, .behind file (before ++ '"' :: us.flatten) ['\\', e]⟩) ∨
    ((∀ u ∈ units cs, harmless u) ∧ (behind file before ('"' :: cs)).read.1 =
      .fault ⟨.unterminatedString, .behind file before ('"' :: cs)⟩) := by
  have htakes := StringBody.takes_read cs
  rw [read_quote]
  generalize hunits : units cs = us at htakes
  generalize hbody : StringBody.read cs = body at htakes
  cases htakes with
  | @closed us vs value h =>
    refine .inl ⟨us, vs, value, rfl, h, ?_⟩
    simp only [Scan.string, hbody, follow, past_behind]
    rw [behind, Position.cover_start]
  | @badEscape us vs e h he =>
    refine .inr (.inl ⟨us, vs, e, rfl, h, he, ?_⟩)
    simp only [Scan.string, hbody, follow, behind, ← Position.advanceAll_append]
    rw [Position.cover_start]
  | unclosed h =>
    refine .inr (.inr ⟨h, ?_⟩)
    simp only [Scan.string, hbody, follow, behind, Position.advanceAll_nil]
    rw [Position.cover_start]

theorem not_harmless_quote : ¬ harmless ['"'] := Bool.false_ne_true

theorem not_harmless_escape {e : Char} (he : e ∉ ['n', 't', 'r', '"']) : ¬ harmless ['\\', e] :=
  fun h => he (of_decide_eq_true h)

theorem read_fault_iff {x : LexicalError Location} :
    (behind file before ('"' :: cs)).read.1 = .fault x ↔
      (∃ us vs e, units cs = us ++ ['\\', e] :: vs ∧ (∀ u ∈ us, harmless u) ∧
        e ∉ ['n', 't', 'r', '"'] ∧
          x = ⟨.invalidEscape e, .behind file (before ++ '"' :: us.flatten) ['\\', e]⟩) ∨
      (∀ u ∈ units cs, harmless u) ∧
        x = ⟨.unterminatedString, .behind file before ('"' :: cs)⟩ := by
  rcases read_literal_cases file before cs with ⟨us, vs, value, hunits, hus, hread⟩ |
    ⟨us, vs, e, hunits, hus, he, hread⟩ | ⟨hall, hread⟩
  · rw [hread, hunits]
    refine ⟨nofun, ?_⟩
    rintro (⟨us', vs', e, hsplit, hus', he, -⟩ | ⟨hall, -⟩)
    · obtain ⟨-, heq, -⟩ := StringBody.harmless_unique hsplit hus hus' not_harmless_quote
        (not_harmless_escape he)
      cases heq
    · exact absurd (hall _ (by simp)) not_harmless_quote
  · rw [hread, hunits]
    constructor
    · intro h
      cases h
      exact .inl ⟨us, vs, e, rfl, hus, he, rfl⟩
    · rintro (⟨us', vs', e', hsplit, hus', he', rfl⟩ | ⟨hall, -⟩)
      · obtain ⟨rfl, heq, -⟩ := StringBody.harmless_unique hsplit hus hus'
          (not_harmless_escape he) (not_harmless_escape he')
        cases heq
        rfl
      · exact absurd (hall _ (by simp)) (not_harmless_escape he)
  · rw [hread]
    constructor
    · intro h
      cases h
      exact .inr ⟨hall, rfl⟩
    · rintro (⟨us, vs, e, hsplit, -, he, -⟩ | ⟨-, rfl⟩)
      · exact absurd (hall _ (by simp [hsplit])) (not_harmless_escape he)
      · rfl

theorem read_spelled {body value : List Char} (h : Decodes body value) (file : String)
    (before rest : List Char) :
    (behind file before ('"' :: (body ++ '"' :: rest))).read =
      (.token ⟨.string, String.ofList value, .behind file before ('"' :: (body ++ ['"']))⟩,
        behind file (before ++ '"' :: (body ++ ['"'])) rest) := by
  rw [read_quote]
  simp only [Scan.string, StringBody.read_of_decodes h, follow, past_behind]
  rw [behind, Position.cover_start]

theorem ne_backslash_of_read {c d : Cursor} {t : Token Location} (h : c.read = (.token t, d))
    (hkind : t.kind = .string) : '\\' ∉ t.lexeme.toList := by
  rcases c.read_cases with ⟨-, hread⟩ | ⟨x, xs, -, hread⟩
  · cases h.symm.trans hread
  · have hlexical := Scan.lexical_start x xs
    cases hscan : Scan.start x xs with
    | fault cause skipped culprit after =>
      rw [h, hscan] at hread
      cases hread
    | token kind lexeme spelling rest =>
      rw [hscan] at hlexical hread
      cases h.symm.trans hread
      obtain ⟨body, -, hbody⟩ := Spells.decodes hlexical hkind
      rw [String.toList_ofList]
      exact fun hmem => hbody.ne_backslash _ hmem rfl

end Cursor

open Cursor in
/-- Every text without a backslash is read back from each of its spellings, and no string token has
another text. Behind an opening quote reading fails only at the first wrong escape or at the end of
the text, if no quote that ends the literal comes before it. -/
theorem string_literals_decode (file : String) (before : List Char) :
    (∀ text rest, (∀ p ∈ text, p.1 ≠ '\\') →
      (behind file before ('"' :: (spellString text ++ '"' :: rest))).read =
        (.token ⟨.string, String.ofList (text.map Prod.fst),
          .behind file before ('"' :: (spellString text ++ ['"']))⟩,
          behind file (before ++ '"' :: (spellString text ++ ['"'])) rest)) ∧
    (∀ c t d, Cursor.read c = (.token t, d) → t.kind = .string → '\\' ∉ t.lexeme.toList) ∧
    ∀ cs x, (behind file before ('"' :: cs)).read.1 = .fault x ↔
      (∃ us vs e, units cs = us ++ ['\\', e] :: vs ∧ (∀ u ∈ us, harmless u) ∧
        e ∉ ['n', 't', 'r', '"'] ∧
          x = ⟨.invalidEscape e, .behind file (before ++ '"' :: us.flatten) ['\\', e]⟩) ∨
      (∀ u ∈ units cs, harmless u) ∧
        x = ⟨.unterminatedString, .behind file before ('"' :: cs)⟩ :=
  ⟨fun _ rest h => read_spelled (decodes_spellString h) file before rest,
    fun _ _ _ => ne_backslash_of_read, fun _ _ => read_fault_iff⟩

/-- A quote and two line breaks, of which one is spelled as an escape; a wrong escape before the
closing quote; and a text that ends behind a backslash. -/
theorem string_literals_decode_of_breaks :
    let literal := "\"a\\\"\\n\n\"".toList
    (Cursor.behind "f" [] (literal ++ ['x'])).read =
      (.token ⟨.string, "a\"\n\n", ⟨"f", 1, 1, ⟨0, 8⟩⟩⟩, .behind "f" literal ['x']) ∧
    (Cursor.behind "f" [] "\"\\\"\\q\"".toList).read.1 =
      .fault ⟨.invalidEscape 'q', ⟨"f", 1, 4, ⟨3, 5⟩⟩⟩ ∧
    (Cursor.behind "f" [] "\"a\\".toList).read.1 =
      .fault ⟨.unterminatedString, ⟨"f", 1, 1, ⟨0, 3⟩⟩⟩ ∧
    (LexicalFault.invalidEscape 'q').message = "Invalid escape sequence '\\q'" ∧
    LexicalFault.unterminatedString.message = "Unterminated string literal" := by
  obtain ⟨hread, -, hfault⟩ := string_literals_decode "f" []
  refine ⟨?_, ?_, ?_, by decide +kernel, rfl⟩
  · exact hread [('a', false), ('"', false), ('\n', true), ('\n', false)] ['x'] (by decide)
  · refine (hfault _ _).mpr (.inl ⟨[['\\', '"']], [['"']], 'q', ?_, by decide, by decide, ?_⟩)
    · decide
    · decide +kernel
  · exact (hfault _ _).mpr (.inr ⟨by decide, by decide +kernel⟩)

end Scriptlet
