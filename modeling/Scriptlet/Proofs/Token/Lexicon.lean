import Mathlib.Data.List.TakeWhile
import Scriptlet.Token.Scan

/-!
The lexicon: which spellings a token has and what they mean, without a word about scanning. A scan
takes the longest spelling there is at the head of the text, and every spelling is scanned again
where nothing follows that could make it longer.
-/

namespace Scriptlet

/-- The characters that may follow a backslash, and what they mean behind it. -/
def escapes : List (Char × Char) := [('n', '\n'), ('t', '\t'), ('r', '\r'), ('"', '"')]

/-- What stands between the quotes of a string literal, and the text it means. -/
inductive Decodes : List Char → List Char → Prop
  | nil : Decodes [] []
  | escape {e d : Char} {body value : List Char} (he : (e, d) ∈ escapes) (h : Decodes body value) :
    Decodes ('\\' :: e :: body) (d :: value)
  | plain {c : Char} {body value : List Char} (hquote : c ≠ '"') (hslash : c ≠ '\\')
    (h : Decodes body value) : Decodes (c :: body) (c :: value)

/-- A token of this kind and lexeme can be spelled so. -/
inductive Spells : TokenKind → List Char → List Char → Prop
  | identifier {c : Char} {cs : List Char} (hc : c.isAlpha) (hcs : ∀ x ∈ cs, x.isAlphanum)
    (hword : TokenKind.keyword? (String.ofList (c :: cs)) = none) :
    Spells .identifier (c :: cs) (c :: cs)
  | integer {c : Char} {cs : List Char} (hc : c.isDigit) (hcs : ∀ x ∈ cs, x.isDigit) :
    Spells .integer (c :: cs) (c :: cs)
  | string {body value : List Char} (h : Decodes body value) :
    Spells .string value ('"' :: (body ++ ['"']))
  | fixed {kind : TokenKind} {text : String} (h : kind.spelling? = some text) :
    Spells kind text.toList text.toList

namespace StringBody

theorem escape?_eq_some {e d : Char} : escape? e = some d ↔ (e, d) ∈ escapes := by
  constructor
  · intro h
    unfold escape? at h
    split at h <;> cases h <;> simp [escapes]
  · intro h
    simp only [escapes, List.mem_cons, Prod.mk.injEq, List.not_mem_nil, or_false] at h
    rcases h with ⟨rfl, rfl⟩ | ⟨rfl, rfl⟩ | ⟨rfl, rfl⟩ | ⟨rfl, rfl⟩ <;> rfl

theorem cons_eq_closed {b : StringBody} {d : Char} {spelled value spelling rest : List Char}
    (h : b.cons d spelled = .closed value spelling rest) :
    ∃ value' spelling', b = .closed value' spelling' rest ∧ value = d :: value' ∧
      spelling = spelled ++ spelling' := by
  cases b with
  | closed value' spelling' rest' =>
    simp only [cons, closed.injEq] at h
    obtain ⟨rfl, rfl, rfl⟩ := h
    exact ⟨value', spelling', rfl, rfl, rfl⟩
  | badEscape before c after => cases h
  | unclosed => cases h

theorem decodes_of_read {cs value spelling rest : List Char}
    (h : read cs = .closed value spelling rest) :
    ∃ body, spelling = body ++ ['"'] ∧ Decodes body value := by
  fun_induction read cs generalizing value spelling with
  | case1 => cases h
  | case2 cs =>
    cases h
    exact ⟨[], rfl, .nil⟩
  | case3 => cases h
  | case4 e cs d he _ ih =>
    obtain ⟨value', spelling', hread, rfl, rfl⟩ := cons_eq_closed h
    obtain ⟨body, rfl, hbody⟩ := ih hread
    exact ⟨'\\' :: e :: body, rfl, .escape (escape?_eq_some.mp he) hbody⟩
  | case5 e cs he => cases h
  | case6 c cs hquote hslash ih =>
    obtain ⟨value', spelling', hread, rfl, rfl⟩ := cons_eq_closed h
    obtain ⟨body, rfl, hbody⟩ := ih hread
    exact ⟨c :: body, rfl, .plain hquote hslash hbody⟩

theorem read_of_decodes {body value : List Char} (h : Decodes body value) (rest : List Char) :
    read (body ++ '"' :: rest) = .closed value (body ++ ['"']) rest := by
  induction h with
  | nil =>
    rw [List.nil_append, read.eq_def]
    simp
  | escape he _ ih =>
    have hd := escape?_eq_some.mpr he
    simp [read, hd, ih, cons]
  | @plain c body value hquote hslash _ ih =>
    rw [List.cons_append, read.eq_def]
    simp [hquote, hslash, ih, cons]

end StringBody

theorem TokenKind.spelling?_of_keyword? {word : String} {kind : TokenKind}
    (h : keyword? word = some kind) : kind.spelling? = some word := by
  unfold keyword? at h
  split at h <;> cases h <;> rfl

/-- A token of this kind goes on with `c`, if that stands right behind it. -/
def TokenKind.grows : TokenKind → Char → Bool
  | identifier, c | keywordVar, c | keywordIf, c | keywordElse, c | keywordWhile, c
  | keywordFunction, c => c.isAlphanum
  | integer, c => c.isDigit
  | assign, c | less, c | greater, c => c == '='
  | _, _ => false

theorem TokenKind.grows_eq_false (kind : TokenKind) {c : Char} (hword : c.isAlphanum = false)
    (hequal : c ≠ '=') : kind.grows c = false := by
  have hdigit : c.isDigit = false := (Bool.or_eq_false_iff.mp hword).2
  have hne : (c == '=') = false := beq_eq_false_iff_ne.mpr hequal
  cases kind <;> simp only [grows, hword, hdigit, hne]

theorem Spells.ne_nil {kind : TokenKind} {lexeme spelling : List Char}
    (h : Spells kind lexeme spelling) : spelling ≠ [] := by
  cases h with
  | fixed h => cases kind <;> cases h <;> decide
  | _ => simp

theorem Spells.lexeme_eq {kind : TokenKind} {lexeme spelling : List Char}
    (h : Spells kind lexeme spelling) (hkind : kind ≠ .string) : lexeme = spelling := by
  cases h with
  | string h => exact absurd rfl hkind
  | _ => rfl

theorem Spells.decodes {kind : TokenKind} {lexeme spelling : List Char}
    (h : Spells kind lexeme spelling) (hkind : kind = .string) :
    ∃ body, spelling = '"' :: (body ++ ['"']) ∧ Decodes body lexeme := by
  subst hkind
  cases h with
  | string h => exact ⟨_, rfl, h⟩
  | fixed h => cases h

namespace Scan

def Lexical : Scan → Prop
  | token kind lexeme spelling _ => Spells kind lexeme spelling
  | fault _ _ _ _ => True

theorem lexical_plain {kind : TokenKind} {spelling rest : List Char} {text : String}
    (h : kind.spelling? = some text) (hs : text.toList = spelling) :
    (plain kind spelling rest).Lexical := by
  subst hs
  exact .fixed h

theorem lexical_word {c : Char} (hc : c.isAlpha) (cs : List Char) : (word c cs).Lexical := by
  have hcs : ∀ x ∈ cs.takeWhile Char.isAlphanum, x.isAlphanum := fun x hx =>
    List.mem_takeWhile_imp hx
  unfold word plain
  cases hword : TokenKind.keyword? (String.ofList (c :: cs.takeWhile Char.isAlphanum)) with
  | none =>
    simp only [hword]
    exact Spells.identifier hc hcs hword
  | some kind =>
    have hfixed := Spells.fixed (TokenKind.spelling?_of_keyword? hword)
    rw [String.toList_ofList] at hfixed
    simp only [hword]
    exact hfixed

theorem lexical_integer {c : Char} (hc : c.isDigit) (cs : List Char) : (integer c cs).Lexical :=
  .integer hc fun _ hx => List.mem_takeWhile_imp hx

theorem lexical_string (cs : List Char) : (string cs).Lexical := by
  unfold string
  split
  · rename_i value spelling rest hread
    obtain ⟨body, rfl, hbody⟩ := StringBody.decodes_of_read hread
    exact .string hbody
  · trivial
  · trivial

theorem lexical_oneOrTwo {one two : TokenKind} {c : Char} {text text' : String}
    (hone : one.spelling? = some text) (htwo : two.spelling? = some text')
    (htext : text.toList = [c]) (htext' : text'.toList = [c, '=']) (cs : List Char) :
    (oneOrTwo one two c cs).Lexical := by
  unfold oneOrTwo
  split
  · exact lexical_plain htwo htext'
  · exact lexical_plain hone htext

theorem lexical_pair {kind : TokenKind} {c second : Char} {text : String}
    (h : kind.spelling? = some text) (htext : text.toList = [c, second]) (cs : List Char) :
    (pair kind c second cs).Lexical := by
  unfold pair
  split
  · trivial
  · split
    · rename_i hd
      subst hd
      exact lexical_plain h htext
    · trivial

theorem lexical_start (c : Char) (cs : List Char) : (start c cs).Lexical := by
  unfold start
  split
  · rename_i hc
    exact lexical_word hc cs
  split
  · rename_i hc
    exact lexical_integer hc cs
  split
  · exact lexical_string cs
  iterate 10 exact lexical_plain rfl rfl
  iterate 3 exact lexical_oneOrTwo rfl rfl rfl rfl cs
  iterate 3 exact lexical_pair rfl rfl cs
  · trivial

/-! ### Spellings are scanned -/

theorem takeWhile_append_of_boundary {p : Char → Bool} {cs rest : List Char} (h : ∀ x ∈ cs, p x)
    (hrest : ∀ x, rest.head? = some x → p x = false) :
    (cs ++ rest).takeWhile p = cs ∧ (cs ++ rest).dropWhile p = rest := by
  rw [List.takeWhile_append_of_pos h, List.dropWhile_append_of_pos h]
  cases rest with
  | nil => simp
  | cons x rest =>
    have hx := hrest x rfl
    simp [hx]

theorem start_of_isAlpha {c : Char} (hc : c.isAlpha) (cs : List Char) : start c cs = word c cs := by
  unfold start
  rw [if_pos hc]

theorem isAlpha_iff_toNat {c : Char} :
    c.isAlpha ↔ (65 ≤ c.toNat ∧ c.toNat ≤ 90) ∨ (97 ≤ c.toNat ∧ c.toNat ≤ 122) := by
  unfold Char.isAlpha Char.isUpper Char.isLower
  rw [Bool.or_eq_true, Bool.and_eq_true, decide_eq_true_eq, decide_eq_true_eq, decide_eq_true_eq]
  exact Iff.rfl

theorem not_isAlpha_of_isDigit {c : Char} (hc : c.isDigit) : ¬ c.isAlpha := by
  have hrange : 48 ≤ c.toNat ∧ c.toNat ≤ 57 := Char.isDigit_iff_toNat.mp hc
  rw [isAlpha_iff_toNat]
  omega

theorem start_of_isDigit {c : Char} (hc : c.isDigit) (cs : List Char) :
    start c cs = integer c cs := by
  unfold start
  rw [if_neg (not_isAlpha_of_isDigit hc), if_pos hc]

theorem start_string {body value : List Char} (h : Decodes body value) (rest : List Char) :
    start '"' (body ++ '"' :: rest) = token .string value ('"' :: (body ++ ['"'])) rest := by
  change string _ = _
  rw [string, StringBody.read_of_decodes h]

theorem start_word {c : Char} {cs rest : List Char} (hc : c.isAlpha) (hcs : ∀ x ∈ cs, x.isAlphanum)
    (hrest : ∀ x, rest.head? = some x → x.isAlphanum = false) :
    start c (cs ++ rest) =
      plain ((TokenKind.keyword? (String.ofList (c :: cs))).getD .identifier) (c :: cs) rest := by
  obtain ⟨htake, hdrop⟩ := takeWhile_append_of_boundary hcs hrest
  rw [start_of_isAlpha hc, word, htake, hdrop]

theorem oneOrTwo_of_ne {one two : TokenKind} {c : Char} {rest : List Char}
    (h : rest.head? ≠ some '=') : oneOrTwo one two c rest = plain one [c] rest := by
  unfold oneOrTwo
  split
  · exact absurd rfl h
  · rfl

/-- A spelling is scanned where it does not go on with what follows. -/
theorem start_of_not_grows {kind : TokenKind} {lexeme spelling rest : List Char}
    (h : Spells kind lexeme spelling)
    (hrest : ∀ x, rest.head? = some x → kind.grows x = false) :
    ∃ c cs, spelling ++ rest = c :: cs ∧ start c cs = token kind lexeme spelling rest := by
  cases h with
  | @identifier c cs hc hcs hnone =>
    refine ⟨c, cs ++ rest, rfl, ?_⟩
    rw [start_word hc hcs hrest, hnone]
    rfl
  | @integer c cs hc hcs =>
    obtain ⟨htake, hdrop⟩ := takeWhile_append_of_boundary hcs hrest
    refine ⟨c, cs ++ rest, rfl, ?_⟩
    rw [start_of_isDigit hc, integer, htake, hdrop]
    rfl
  | @string body value h =>
    refine ⟨'"', body ++ '"' :: rest, by simp, start_string h rest⟩
  | @fixed kind text h =>
    cases kind with
    | identifier | integer | string => cases h
    | keywordVar | keywordIf | keywordElse | keywordWhile | keywordFunction =>
      cases h
      refine ⟨_, _, rfl, ?_⟩
      exact start_word (by decide) (List.all_eq_true.mp rfl) hrest
    | assign | less | greater =>
      cases h
      refine ⟨_, _, rfl, oneOrTwo_of_ne fun hhead => ?_⟩
      cases hrest '=' hhead
    | _ =>
      cases h
      exact ⟨_, _, rfl, rfl⟩

/-- Nothing that could make a spelling longer. -/
def Apart (rest : List Char) : Prop :=
  ∀ x, rest.head? = some x → x.isAlphanum = false ∧ x ≠ '='

theorem start_of_spells {kind : TokenKind} {lexeme spelling rest : List Char}
    (h : Spells kind lexeme spelling) (hrest : Apart rest) :
    ∃ c cs, spelling ++ rest = c :: cs ∧ start c cs = token kind lexeme spelling rest :=
  start_of_not_grows h fun x hx => kind.grows_eq_false (hrest x hx).1 (hrest x hx).2

/-! ### Nothing longer is a spelling -/

theorem length_le_of_prefix_takeWhile {p : Char → Bool} {cs ds : List Char} (h : ds <+: cs)
    (hds : ∀ x ∈ ds, p x) : ds.length ≤ (cs.takeWhile p).length := by
  obtain ⟨rest, rfl⟩ := h
  rw [List.takeWhile_append_of_pos hds, List.length_append]
  omega

theorem length_le_of_word {c : Char} {cs ds : List Char} {kind : TokenKind}
    {lexeme spelling rest : List Char} (h : start c cs = token kind lexeme spelling rest)
    (hc : c.isAlpha) (hds : ∀ x ∈ ds, x.isAlphanum) (hhead : ds <+: cs) :
    (c :: ds).length ≤ spelling.length := by
  have hle := length_le_of_prefix_takeWhile hhead hds
  rw [start_of_isAlpha hc] at h
  cases h
  rw [List.length_cons, List.length_cons]
  omega

theorem longest_start {c : Char} {cs : List Char} {kind kind' : TokenKind}
    {lexeme lexeme' spelling spelling' rest : List Char}
    (h : start c cs = token kind lexeme spelling rest) (h' : Spells kind' lexeme' spelling')
    (hhead : spelling' <+: c :: cs) : spelling'.length ≤ spelling.length := by
  have hsplits := splits_start c cs
  rw [h] at hsplits
  have hpos : 0 < spelling.length := List.length_pos_iff.mpr hsplits.1
  cases h' with
  | @identifier d ds hd hds hnone =>
    obtain ⟨rfl, hds'⟩ := List.cons_prefix_cons.mp hhead
    exact length_le_of_word h hd hds hds'
  | @integer d ds hd hds =>
    obtain ⟨rfl, hds'⟩ := List.cons_prefix_cons.mp hhead
    have hle := length_le_of_prefix_takeWhile hds' hds
    rw [start_of_isDigit hd] at h
    cases h
    rw [List.length_cons, List.length_cons]
    omega
  | @string body value hbody =>
    obtain ⟨tail, htail⟩ := hhead
    have hcs : '"' = c ∧ body ++ '"' :: tail = cs := by simpa using htail
    obtain ⟨rfl, rfl⟩ := hcs
    rw [start_string hbody] at h
    cases h
    exact Nat.le_refl _
  | @fixed kind' text hfixed =>
    cases kind' with
    | identifier | integer | string => cases hfixed
    | keywordVar | keywordIf | keywordElse | keywordWhile | keywordFunction =>
      cases hfixed
      obtain ⟨rfl, hds⟩ := List.cons_prefix_cons.mp hhead
      exact length_le_of_word h (by decide) (List.all_eq_true.mp rfl) hds
    | equal | notEqual | lessEqual | greaterEqual | logicalAnd | logicalOr =>
      cases hfixed
      obtain ⟨tail, htail⟩ := hhead
      cases htail
      cases h
      exact Nat.le_refl _
    | _ =>
      cases hfixed
      exact hpos

end Scan

end Scriptlet
