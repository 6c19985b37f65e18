import Mathlib.Data.List.Chain
import Mathlib.Data.String.Basic
import Scriptlet.Proofs.Token.Tiling

/-!
Spacing. Which blanks stand between two tokens makes no difference to what is read, and none need
stand there unless the first token would go on with the head of the second.
-/

namespace Scriptlet

variable {file : String} {before : List Char}

/-! ### Blanks -/

theorem not_isBlank_of_isAlphanum {c : Char} (h : c.isAlphanum) : isBlank c = false := by
  have hrange : ((65 ≤ c.toNat ∧ c.toNat ≤ 90) ∨ (97 ≤ c.toNat ∧ c.toNat ≤ 122)) ∨
      (48 ≤ c.toNat ∧ c.toNat ≤ 57) :=
    (Bool.or_eq_true_iff.mp h).imp Scan.isAlpha_iff_toNat.mp Char.isDigit_iff_toNat.mp
  simp only [isBlank, Bool.or_eq_false_iff, Bool.and_eq_false_iff, decide_eq_false_iff_not,
    beq_eq_false_iff_ne]
  omega

theorem Spells.head_not_blank {kind : TokenKind} {lexeme spelling : List Char}
    (h : Spells kind lexeme spelling) : ∃ c cs, spelling = c :: cs ∧ isBlank c = false := by
  cases h with
  | @identifier c cs hc hcs hword =>
    exact ⟨c, cs, rfl, not_isBlank_of_isAlphanum (Bool.or_eq_true_iff.mpr (.inl hc))⟩
  | @integer c cs hc hcs =>
    exact ⟨c, cs, rfl, not_isBlank_of_isAlphanum (Bool.or_eq_true_iff.mpr (.inr hc))⟩
  | string h => exact ⟨_, _, rfl, by decide⟩
  | fixed h => cases kind <;> cases h <;> exact ⟨_, _, rfl, by decide⟩

theorem TokenKind.grows_of_isBlank (kind : TokenKind) {c : Char} (h : isBlank c) :
    kind.grows c = false := by
  refine kind.grows_eq_false (Bool.eq_false_iff.mpr fun hword => ?_) fun hequal => ?_
  · rw [not_isBlank_of_isAlphanum hword] at h
    cases h
  · rw [hequal] at h
    cases h

namespace TokenStream

theorem ofCursor_blanks {gap : List Char} (hgap : ∀ c ∈ gap, isBlank c) (rest : List Char) :
    ofCursor (.behind file before (gap ++ rest)) =
      ofCursor (.behind file (before ++ gap) rest) := by
  have hskip : (Cursor.behind file before (gap ++ rest)).skipBlanks =
      (Cursor.behind file (before ++ gap) rest).skipBlanks := by
    rw [Cursor.skipBlanks, Cursor.skipBlanks, Cursor.past_behind, Cursor.past_behind]
    simp only [Cursor.behind, List.takeWhile_append_of_pos hgap, List.dropWhile_append_of_pos hgap,
      List.append_assoc]
  have hread : (Cursor.behind file before (gap ++ rest)).read =
      (Cursor.behind file (before ++ gap) rest).read := by
    simp only [Cursor.read, hskip]
  rw [ofCursor, ofCursor]
  split <;> rename_i hleft <;> rw [hread] at hleft <;> split <;> rename_i hright <;>
    cases hleft.symm.trans hright <;> rfl

theorem ofCursor_of_start {lexeme spelling rest : List Char} {kind : TokenKind}
    (hspells : Spells kind lexeme spelling)
    (hstart : ∃ x xs, spelling ++ rest = x :: xs ∧
      Scan.start x xs = .token kind lexeme spelling rest) :
    ofCursor (.behind file before (spelling ++ rest)) =
      (ofCursor (.behind file (before ++ spelling) rest)).cons
        ⟨kind, String.ofList lexeme, .behind file before spelling⟩ := by
  obtain ⟨x, xs, hsplit, hstart⟩ := hstart
  obtain ⟨y, ys, rfl, hblank⟩ := hspells.head_not_blank
  rw [List.cons_append] at hsplit
  obtain ⟨rfl, rfl⟩ := List.cons.inj hsplit
  have hread := Cursor.read_behind hblank file before (ys ++ rest)
  rw [hstart, Cursor.follow, Cursor.past_behind] at hread
  rw [ofCursor]
  split <;> rename_i hread' <;> cases hread.symm.trans hread'
  rw [← Position.cover_start]
  rfl

theorem ofCursor_nil (file : String) (before : List Char) :
    ∃ l, ofCursor (.behind file before []) = ⟨[], .complete l⟩ := by
  rw [ofCursor]
  exact ⟨_, rfl⟩

end TokenStream

/-! ### Texts with given tokens -/

/-- The tokens are spelled one behind the other, with blanks around them where they are needed. -/
inductive Spaced : List (Token Unit) → List Char → Prop
  | nil {gap : List Char} (hblank : ∀ c ∈ gap, isBlank c) : Spaced [] gap
  | cons {t : Token Unit} {ts : List (Token Unit)} {gap spelling rest : List Char}
    (hblank : ∀ c ∈ gap, isBlank c) (hspells : Spells t.kind t.lexeme.toList spelling)
    (hrest : ∀ c, rest.head? = some c → t.kind.grows c = false) (h : Spaced ts rest) :
    Spaced (t :: ts) (gap ++ (spelling ++ rest))

namespace TokenStream

theorem ofCursor_of_spaced {ts : List (Token Unit)} {rest : List Char} (h : Spaced ts rest) :
    (ofCursor (.behind file before rest)).tokens.map (Token.map fun _ => ()) = ts ∧
      ∃ l, (ofCursor (.behind file before rest)).ending = .complete l := by
  induction h generalizing before with
  | @nil gap hblank =>
    obtain ⟨l, hend⟩ := ofCursor_nil file (before ++ gap)
    rw [← List.append_nil gap, ofCursor_blanks hblank, hend]
    exact ⟨rfl, l, rfl⟩
  | @cons t ts gap spelling rest hblank hspells hrest h ih =>
    obtain ⟨htokens, hending⟩ := @ih (before ++ gap ++ spelling)
    rw [ofCursor_blanks hblank, ofCursor_of_start hspells (Scan.start_of_not_grows hspells hrest)]
    refine ⟨?_, hending⟩
    rw [cons, List.map_cons, htokens, String.ofList_toList]
    rfl

theorem ofText_of_spaced {ts : List (Token Unit)} {text : String} (h : Spaced ts text.toList)
    (file : String) :
    (ofText text file).tokens.map (Token.map fun _ => ()) = ts ∧
      ∃ l, (ofText text file).ending = .complete l := by
  have hcursor : Cursor.ofText text file = .behind file [] text.toList := rfl
  rw [ofText, hcursor]
  exact ofCursor_of_spaced h

end TokenStream

/-! ### The slices of a text -/

/-- What stands in the text in the place of the token. -/
def Token.slice (t : Token Location) (text : String) : String :=
  String.Pos.Raw.extract text ⟨t.location.span.start⟩ ⟨t.location.span.stop⟩

/-- The slices of the tokens, each behind a gap of its own, and what comes behind the last one. -/
def respaced (text : String) (pieces : List (String × Token Location)) (trail : String) : String :=
  String.join (pieces.map fun p => p.1 ++ p.2.slice text) ++ trail

theorem StandsIn.slice_eq {text : String} {t : Token Location} {spelling after : List Char}
    (h : StandsIn file text.toList t before spelling after) :
    t.slice text = String.ofList spelling := by
  have htext : text = String.ofList (before ++ spelling ++ after) := by
    rw [← h.split, String.ofList_toList]
  rw [Token.slice, h.place, htext]
  simp only [Location.behind, byteSize, String.utf8ByteSize_ofList]
  exact String.extract_of_valid before spelling after

theorem spells_slice {text : String} {ts : List (Token Location)}
    (h : tokenize text file = .ok ts) :
    ∀ t ∈ ts, Spells t.kind t.lexeme.toList (t.slice text).toList := by
  obtain ⟨rfl, -⟩ := tokens_of_tokenize h
  intro t ht
  obtain ⟨before, spelling, after, hstands⟩ := (TokenStream.tiles_ofText text file).standsIn t ht
  rw [hstands.slice_eq, String.toList_ofList]
  exact hstands.spells

/-- The token would go on with the head of the text. -/
def Token.fuses (t : Token Location) (next : String) : Bool := next.toList.head?.any t.kind.grows

section

variable {text trail : String} {pieces : List (String × Token Location)}

theorem respaced_nil : respaced text [] trail = trail := by
  simp [respaced]

theorem toList_respaced_cons (p : String × Token Location) :
    (respaced text (p :: pieces) trail).toList =
      p.1.toList ++ ((p.2.slice text).toList ++ (respaced text pieces trail).toList) := by
  simp [respaced, String.append_assoc]

theorem head_respaced {t : Token Location}
    (hspells : ∀ p ∈ pieces, Spells p.2.kind p.2.lexeme.toList (p.2.slice text).toList)
    (hblank : ∀ p ∈ pieces, ∀ c ∈ p.1.toList, isBlank c) (htrail : ∀ c ∈ trail.toList, isBlank c)
    (hfirst : ∀ p, pieces.head? = some p → p.1 = "" → t.fuses (p.2.slice text) = false) :
    ∀ c, (respaced text pieces trail).toList.head? = some c → t.kind.grows c = false := by
  intro c hc
  -- Behind the token comes the trail, a blank of the next gap or, if that is empty, a slice.
  cases pieces with
  | nil =>
    rw [respaced_nil] at hc
    exact t.kind.grows_of_isBlank (htrail c (List.mem_of_mem_head? hc))
  | cons p pieces =>
    rw [toList_respaced_cons] at hc
    by_cases hgap : p.1 = ""
    · have hfuses := hfirst p rfl hgap
      obtain ⟨d, ds, hslice, -⟩ := (hspells p List.mem_cons_self).head_not_blank
      rw [Token.fuses, hslice] at hfuses
      rw [hgap, hslice] at hc
      cases hc
      exact hfuses
    · rw [List.head?_append_of_ne_nil _ (by simpa using hgap)] at hc
      exact t.kind.grows_of_isBlank (hblank p List.mem_cons_self c (List.mem_of_mem_head? hc))

theorem spaced_respaced
    (hspells : ∀ p ∈ pieces, Spells p.2.kind p.2.lexeme.toList (p.2.slice text).toList)
    (hblank : ∀ p ∈ pieces, ∀ c ∈ p.1.toList, isBlank c) (htrail : ∀ c ∈ trail.toList, isBlank c)
    (hgaps : pieces.IsChain fun p q => q.1 = "" → p.2.fuses (q.2.slice text) = false) :
    Spaced (pieces.map fun p => p.2.map fun _ => ()) (respaced text pieces trail).toList := by
  induction pieces with
  | nil =>
    rw [respaced_nil]
    exact .nil htrail
  | cons p pieces ih =>
    rw [List.forall_mem_cons] at hspells hblank
    rw [List.isChain_cons] at hgaps
    rw [toList_respaced_cons]
    exact .cons hblank.1 hspells.1 (head_respaced hspells.2 hblank.2 htrail hgaps.1)
      (ih hspells.2 hblank.2 hgaps.2)

/-- A text without lexical errors keeps its tokens, but for their places, if other blanks are put
around its slices; a gap can be empty unless two tokens fuse there. -/
theorem tokenize_respaced (h : tokenize text file = .ok (pieces.map Prod.snd))
    (hblank : ∀ p ∈ pieces, ∀ c ∈ p.1.toList, isBlank c) (htrail : ∀ c ∈ trail.toList, isBlank c)
    (hgaps : pieces.IsChain fun p q => q.1 = "" → p.2.fuses (q.2.slice text) = false)
    (file' : String) :
    ∃ ts, tokenize (respaced text pieces trail) file' = .ok ts ∧
      ts.map (Token.map fun _ => ()) = pieces.map fun p => p.2.map fun _ => () := by
  have hspaced := spaced_respaced (List.forall_mem_map.mp (spells_slice h)) hblank htrail hgaps
  obtain ⟨htokens, l, hending⟩ := TokenStream.ofText_of_spaced hspaced file'
  exact ⟨_, tokenize_of_ending hending, htokens⟩

end

/-- Blanks of two and three bytes, and no gaps between signs, behind a number and at a string. -/
theorem tokenize_respaced_of_signs :
    let text := "a == = 1 b \"= =\" < 2"
    let tokens := (TokenStream.ofText text "f").tokens
    let pieces := ["\u3000", "", "", "", "", "", "", "\u0085 "].zip tokens
    respaced text pieces "\n" = "\u3000a===1b\"= =\"<\u0085 2\n" ∧
    ∃ ts, tokenize (respaced text pieces "\n") "g" = .ok ts ∧
      ts.map (Token.map fun _ => ()) =
        [⟨.identifier, "a", ()⟩, ⟨.equal, "==", ()⟩, ⟨.assign, "=", ()⟩, ⟨.integer, "1", ()⟩,
          ⟨.identifier, "b", ()⟩, ⟨.string, "= =", ()⟩, ⟨.less, "<", ()⟩, ⟨.integer, "2", ()⟩] := by
  intro text tokens pieces
  have hending : (TokenStream.ofText text "f").ending = .complete ⟨"f", 1, 21, ⟨20, 20⟩⟩ := by
    decide +kernel
  have htokens : tokenize text "f" = .ok (pieces.map Prod.snd) := by
    rw [tokenize_of_ending hending, List.map_snd_zip (by decide +kernel)]
  have hblank : ∀ p ∈ pieces, p.1.toList.all isBlank := by decide +kernel
  have htrail : "\n".toList.all isBlank := rfl
  obtain ⟨ts, hts, hsame⟩ := tokenize_respaced htokens
    (fun p hp => List.all_eq_true.mp (hblank p hp)) (List.all_eq_true.mp htrail)
    (by decide +kernel) "g"
  exact ⟨by decide +kernel, ts, hts, hsame.trans (by decide +kernel)⟩

end Scriptlet
