import Scriptlet.Proofs.Token.Lexicon
import Scriptlet.Proofs.Token.Place

/-!
The tokens of a text tile it. Read one after the other they take a spelling each, with blanks
between them; the place of each is that of its spelling, and each spelling is the longest there is.
-/

namespace Scriptlet

/-- No token has a spelling that starts in the same place and is longer. -/
def Longest (spelling rest : List Char) : Prop :=
  ∀ kind lexeme longer, Spells kind lexeme longer → longer <+: spelling ++ rest →
    longer.length ≤ spelling.length

/-- The stream of what follows `before` in a text. -/
inductive Tiles (file : String) : List Char → List Char → TokenStream Location → Prop
  | complete {before rest : List Char} (hblank : ∀ x ∈ rest, isBlank x) :
    Tiles file before rest ⟨[], .complete (.behind file (before ++ rest) [])⟩
  | broken {before gap skipped culprit rest : List Char} {fault : LexicalFault}
    (hblank : ∀ x ∈ gap, isBlank x) (hculprit : culprit ≠ []) :
    Tiles file before (gap ++ (skipped ++ culprit ++ rest))
      ⟨[], .broken ⟨fault, .behind file (before ++ gap ++ skipped) culprit⟩⟩
  | token {before gap spelling lexeme rest : List Char} {kind : TokenKind}
    {s : TokenStream Location} (hblank : ∀ x ∈ gap, isBlank x) (hspells : Spells kind lexeme spelling)
    (hlongest : Longest spelling rest) (h : Tiles file (before ++ gap ++ spelling) rest s) :
    Tiles file before (gap ++ (spelling ++ rest))
      (s.cons ⟨kind, String.ofList lexeme, .behind file (before ++ gap) spelling⟩)

namespace Cursor

variable {c d : Cursor} {before : List Char}

/-- The cursor behind `before`, where `rest` follows. -/
def behind (file : String) (before rest : List Char) : Cursor :=
  ⟨file, rest, Position.start.advanceAll before⟩

theorem past_behind (file : String) (before cs rest more : List Char) :
    (behind file before rest).past cs more = behind file (before ++ cs) more := by
  rw [past, behind, behind, Position.advanceAll_append]

theorem read_behind {x : Char} (hx : isBlank x = false) (file : String) (before xs : List Char) :
    (behind file before (x :: xs)).read =
      (behind file before (x :: xs)).follow (Scan.start x xs) := by
  have hskip : (behind file before (x :: xs)).skipBlanks = behind file before (x :: xs) := by
    simp [skipBlanks, past, behind, hx]
  simp only [read, hskip]
  rfl

def Behind (c : Cursor) (before : List Char) : Prop := c.position = Position.start.advanceAll before

theorem Behind.past (h : c.Behind before) (cs rest : List Char) :
    (c.past cs rest).Behind (before ++ cs) := by
  unfold Behind at h ⊢
  rw [Position.advanceAll_append, ← h]
  rfl

theorem Behind.cover (h : c.Behind before) (cs : List Char) :
    c.position.cover c.file cs = .behind c.file before cs := by
  rw [h, Position.cover_start]

theorem blank_takeWhile (cs : List Char) : ∀ x ∈ cs.takeWhile isBlank, isBlank x :=
  fun _ hx => List.mem_takeWhile_imp hx

theorem rest_eq (c : Cursor) : c.rest = c.rest.takeWhile isBlank ++ c.skipBlanks.rest :=
  List.takeWhile_append_dropWhile.symm

theorem Behind.skipBlanks (h : c.Behind before) :
    c.skipBlanks.Behind (before ++ c.rest.takeWhile isBlank) := h.past _ _

theorem read_cases (c : Cursor) :
    (c.skipBlanks.rest = [] ∧ c.read = (.finished, c.skipBlanks)) ∨
      ∃ x xs, c.skipBlanks.rest = x :: xs ∧ c.read = c.skipBlanks.follow (Scan.start x xs) := by
  unfold read
  cases hrest : c.skipBlanks.rest with
  | nil => exact .inl ⟨rfl, by simp only [hrest]⟩
  | cons x xs => exact .inr ⟨x, xs, rfl, by simp only [hrest]⟩

theorem of_read_finished (h : c.read = (.finished, d)) (hc : c.Behind before) :
    (∀ x ∈ c.rest, isBlank x) ∧ d.location = .behind c.file (before ++ c.rest) [] := by
  rcases c.read_cases with ⟨hrest, hread⟩ | ⟨x, xs, hrest, hread⟩
  · obtain rfl : d = c.skipBlanks := (Prod.mk.inj (h.symm.trans hread)).2
    have hblank : c.rest.takeWhile isBlank = c.rest := by
      have heq := c.rest_eq
      rw [hrest, List.append_nil] at heq
      exact heq.symm
    refine ⟨?_, ?_⟩
    · rw [← hblank]
      exact blank_takeWhile c.rest
    · rw [location, hrest, hc.skipBlanks.cover, hblank]
      rfl
  · cases hscan : Scan.start x xs <;> rw [hread, hscan] at h <;> cases h

theorem of_read_token {t : Token Location} (h : c.read = (.token t, d)) (hc : c.Behind before) :
    ∃ gap spelling kind lexeme, c.rest = gap ++ (spelling ++ d.rest) ∧ (∀ x ∈ gap, isBlank x) ∧
      Spells kind lexeme spelling ∧ Longest spelling d.rest ∧
      t = ⟨kind, String.ofList lexeme, .behind c.file (before ++ gap) spelling⟩ ∧
      d.file = c.file ∧ d.Behind (before ++ gap ++ spelling) := by
  rcases c.read_cases with ⟨hrest, hread⟩ | ⟨x, xs, hrest, hread⟩
  · rw [hread] at h
    cases h
  · cases hscan : Scan.start x xs with
    | fault cause skipped culprit after =>
      rw [hread, hscan] at h
      cases h
    | token kind lexeme spelling rest =>
      have hsplits := Scan.splits_start x xs
      have hlexical := Scan.lexical_start x xs
      rw [hscan] at hsplits hlexical
      rw [hread, hscan] at h
      cases h
      refine ⟨c.rest.takeWhile isBlank, spelling, kind, lexeme, ?_, blank_takeWhile c.rest, hlexical,
        fun kind' lexeme' longer hspells hhead => ?_, ?_, rfl, hc.skipBlanks.past spelling rest⟩
      · have heq := c.rest_eq
        rw [hrest, ← hsplits.2] at heq
        exact heq
      · rw [show (c.skipBlanks.past spelling rest).rest = rest from rfl, hsplits.2] at hhead
        exact Scan.longest_start hscan hspells hhead
      · rw [hc.skipBlanks.cover]
        rfl

theorem of_read_fault {e : LexicalError Location} (h : c.read = (.fault e, d))
    (hc : c.Behind before) :
    ∃ gap skipped culprit rest, c.rest = gap ++ (skipped ++ culprit ++ rest) ∧
      (∀ x ∈ gap, isBlank x) ∧ culprit ≠ [] ∧
      e.location = .behind c.file (before ++ gap ++ skipped) culprit := by
  rcases c.read_cases with ⟨hrest, hread⟩ | ⟨x, xs, hrest, hread⟩
  · rw [hread] at h
    cases h
  · cases hscan : Scan.start x xs with
    | token kind lexeme spelling rest =>
      rw [hread, hscan] at h
      cases h
    | fault cause skipped culprit after =>
      have hsplits := Scan.splits_start x xs
      rw [hscan] at hsplits
      rw [hread, hscan] at h
      cases h
      refine ⟨c.rest.takeWhile isBlank, skipped, culprit, after, ?_, blank_takeWhile c.rest,
        hsplits.1, ?_⟩
      · have heq := c.rest_eq
        rw [hrest, ← hsplits.2] at heq
        exact heq
      · exact (hc.skipBlanks.past skipped culprit).cover culprit

end Cursor

namespace TokenStream

open Cursor

theorem tiles_ofCursor (c : Cursor) {before : List Char} (h : c.Behind before) :
    Tiles c.file before c.rest (ofCursor c) := by
  fun_induction ofCursor c generalizing before with
  | case1 c d hread =>
    obtain ⟨hblank, hplace⟩ := of_read_finished hread h
    rw [hplace]
    exact .complete hblank
  | case2 c t d hread _ ih =>
    obtain ⟨gap, spelling, kind, lexeme, hrest, hblank, hspells, hlongest, rfl, hfile, hbehind⟩ :=
      of_read_token hread h
    rw [hrest]
    have htail := ih hbehind
    rw [hfile] at htail
    exact .token hblank hspells hlongest htail
  | case3 c e d hread =>
    obtain ⟨gap, skipped, culprit, rest, hrest, hblank, hculprit, hplace⟩ := of_read_fault hread h
    obtain ⟨fault, location⟩ := e
    obtain rfl : location = _ := hplace
    rw [hrest]
    exact .broken hblank hculprit

theorem tiles_ofText (text file : String) : Tiles file [] text.toList (ofText text file) :=
  tiles_ofCursor (.ofText text file) rfl

end TokenStream

def Span.Holds (s : Span) (n : Nat) : Prop := s.start ≤ n ∧ n < s.stop

/-- The token stands in the text between `before` and `after`, spelled as `spelling`. -/
structure StandsIn (file : String) (text : List Char) (t : Token Location)
    (before spelling after : List Char) : Prop where
  split : text = before ++ spelling ++ after
  place : t.location = .behind file before spelling
  nonempty : t.location.span.start < t.location.span.stop
  lexeme : t.kind ≠ .string → t.lexeme.toList = spelling
  decoded : t.kind = .string →
    ∃ body, spelling = '"' :: (body ++ ['"']) ∧ Decodes body t.lexeme.toList
  spells : Spells t.kind t.lexeme.toList spelling
  longest : Longest spelling after

/-- The tokens stand in the text one behind the other, and all else in it is blank. -/
structure Tiling (file : String) (text : List Char) (ts : List (Token Location)) : Prop where
  stands : ∀ t ∈ ts, ∃ before spelling after, StandsIn file text t before spelling after
  ordered : ts.Pairwise fun t u => t.location.span.stop ≤ u.location.span.start
  blank : ∀ before c after, text = before ++ c :: after →
    (∀ t ∈ ts, ¬ t.location.span.Holds (byteSize before)) → isBlank c

namespace Tiles

variable {file : String} {before rest : List Char} {s : TokenStream Location}

theorem standsIn (h : Tiles file before rest s) : ∀ t ∈ s.tokens,
    ∃ b spelling after, StandsIn file (before ++ rest) t b spelling after := by
  induction h with
  | complete hblank => exact nofun
  | broken hblank hculprit => exact nofun
  | @token before gap spelling lexeme rest kind s hblank hspells hlongest h ih =>
    intro t ht
    rcases List.mem_cons.mp ht with rfl | ht
    · refine ⟨before ++ gap, spelling, rest, by simp, rfl, ?_, fun hkind => ?_, fun hkind => ?_, ?_,
        hlongest⟩
      · exact Nat.lt_add_of_pos_right (byteSize_pos hspells.ne_nil)
      · simpa using hspells.lexeme_eq hkind
      · simpa using hspells.decodes hkind
      · simpa using hspells
    · have hstands := ih t ht
      rwa [List.append_assoc, List.append_assoc] at hstands

theorem start_le (h : Tiles file before rest s) :
    ∀ t ∈ s.tokens, byteSize before ≤ t.location.span.start := by
  induction h with
  | complete hblank => exact nofun
  | broken hblank hculprit => exact nofun
  | token hblank hspells hlongest h ih =>
    intro t ht
    rcases List.mem_cons.mp ht with rfl | ht
    · rw [Location.behind, byteSize_append]
      exact Nat.le_add_right _ _
    · have hle := ih t ht
      rw [byteSize_append, byteSize_append] at hle
      omega

theorem ordered (h : Tiles file before rest s) :
    s.tokens.Pairwise fun t u => t.location.span.stop ≤ u.location.span.start := by
  induction h with
  | complete hblank => exact .nil
  | broken hblank hculprit => exact .nil
  | token hblank hspells hlongest h ih =>
    refine List.pairwise_cons.mpr ⟨fun t ht => ?_, ih⟩
    have hle := h.start_le t ht
    rwa [byteSize_append] at hle

theorem length_le (h : Tiles file before rest s) : s.tokens.length ≤ rest.length := by
  induction h with
  | complete hblank => exact Nat.zero_le _
  | broken hblank hculprit => exact Nat.zero_le _
  | @token before gap spelling lexeme rest kind s hblank hspells hlongest h ih =>
    have hpos : 0 < spelling.length := List.length_pos_iff.mpr hspells.ne_nil
    have hcons : (s.cons ⟨kind, String.ofList lexeme,
        .behind file (before ++ gap) spelling⟩).tokens.length = s.tokens.length + 1 := rfl
    rw [hcons, List.length_append, List.length_append]
    omega

theorem split_append {β : Type} {as bs ds es : List β} {c : β} (h : as ++ bs = ds ++ c :: es) :
    (∃ xs, as = ds ++ c :: xs) ∨ ∃ xs, ds = as ++ xs ∧ bs = xs ++ c :: es := by
  rcases List.append_eq_append_iff.mp h with ⟨xs, hds, hbs⟩ | ⟨xs, has, hxs⟩
  · exact .inr ⟨xs, hds, hbs⟩
  · cases xs with
    | nil => exact .inr ⟨[], by simpa using has.symm, by simpa using hxs.symm⟩
    | cons x xs =>
      obtain ⟨rfl, -⟩ := List.cons.inj hxs
      exact .inl ⟨xs, has⟩

theorem blank (h : Tiles file before rest s) {l : Location} (hend : s.ending = .complete l)
    {ds es : List Char} {c : Char} (hsplit : rest = ds ++ c :: es)
    (hout : ∀ t ∈ s.tokens, ¬ t.location.span.Holds (byteSize (before ++ ds))) : isBlank c := by
  induction h generalizing ds with
  | complete hblank => exact hblank c (by rw [hsplit]; simp)
  | broken hblank hculprit => cases hend
  | @token before gap spelling lexeme rest kind s hblank hspells hlongest h ih =>
    -- The character is in the gap before the token, in the token, or behind it.
    rcases split_append hsplit with ⟨xs, hgap⟩ | ⟨xs, rfl, hxs⟩
    · exact hblank c (by rw [hgap]; simp)
    · rcases split_append hxs with ⟨ys, hspelling⟩ | ⟨ys, rfl, hrest⟩
      · have hpos : 0 < byteSize (c :: ys) := byteSize_pos (List.cons_ne_nil c ys)
        refine absurd ?_ (hout _ List.mem_cons_self)
        simp only [Span.Holds, Location.behind, hspelling, byteSize_append]
        omega
      · refine ih hend hrest fun t ht hholds => hout t (List.mem_cons_of_mem _ ht) ?_
        rwa [List.append_assoc, List.append_assoc] at hholds

end Tiles

/-- Reading tokens comes to an end, after no more of them than the text has characters. If there is
no lexical error, the tokens tile the text. -/
theorem tokenize_tiles (text file : String) :
    (TokenStream.ofText text file).tokens.length ≤ text.length ∧
    ∀ ts, tokenize text file = .ok ts → Tiling file text.toList ts := by
  have htiles := TokenStream.tiles_ofText text file
  refine ⟨?_, fun ts hts => ?_⟩
  · rw [← String.length_toList]
    exact htiles.length_le
  · obtain ⟨rfl, l, hend⟩ := tokens_of_tokenize hts
    exact ⟨htiles.standsIn, htiles.ordered, fun before c after hsplit hout =>
      htiles.blank hend hsplit hout⟩

/-- A blank of three bytes, and a string over two lines that holds a character of two bytes. -/
theorem tokenize_tiles_string :
    let text := "x =\u3000\"\u00e9\n\\\"\" ;y"
    ∃ ts, tokenize text "f" = .ok ts ∧ Tiling "f" text.toList ts ∧
      ts.map (fun t => (t.lexeme, t.location.line, t.location.column, t.location.span)) =
        [("x", 1, 1, ⟨0, 1⟩), ("=", 1, 3, ⟨2, 3⟩), ("\u00e9\n\"", 1, 5, ⟨6, 13⟩),
          (";", 2, 5, ⟨14, 15⟩), ("y", 2, 6, ⟨15, 16⟩)] := by
  intro text
  have hcomputed : (tokenize text "f").toOption.map
      (List.map fun t => (t.lexeme, t.location.line, t.location.column, t.location.span)) =
      some [("x", 1, 1, ⟨0, 1⟩), ("=", 1, 3, ⟨2, 3⟩), ("\u00e9\n\"", 1, 5, ⟨6, 13⟩),
        (";", 2, 5, ⟨14, 15⟩), ("y", 2, 6, ⟨15, 16⟩)] := by decide +kernel
  cases htokens : tokenize text "f" with
  | error e =>
    rw [htokens] at hcomputed
    cases hcomputed
  | ok ts =>
    rw [htokens] at hcomputed
    exact ⟨ts, rfl, (tokenize_tiles text "f").2 ts htokens, Option.some.inj hcomputed⟩

end Scriptlet
