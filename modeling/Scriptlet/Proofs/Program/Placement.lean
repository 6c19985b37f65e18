import Scriptlet.Proofs.Grammar.Nodes
import Scriptlet.Proofs.Token.Tiling

/-!
Where the nodes of a program stand in its text. The place of a node covers one token, and what is
spelled there tells the node: its keyword, name, sign or literal.
-/

namespace Scriptlet

variable {α : Type}

/-- What the place of a node covers. -/
def Mark.Spelled : Mark → List Char → Prop
  | .function, cs => cs = "function".toList
  | .declaration, cs => cs = "var".toList
  | .branch, cs => cs = "if".toList
  | .loop, cs => cs = "while".toList
  | .introduced name, cs => cs = name.toList
  | .used name, cs => cs = name.toList
  | .call callee, cs => cs = callee.toList
  | .integer text, cs => cs = text.toList
  | .string value, cs => ∃ body, cs = '"' :: (body ++ ['"']) ∧ Decodes body value.toList
  | .assignment, cs => cs = "=".toList
  | .operator op, cs => cs = op.symbol.toList

theorem Spells.eq_of_spelling? {kind : TokenKind} {lexeme spelling : List Char} {text : String}
    (h : Spells kind lexeme spelling) (htext : kind.spelling? = some text) :
    spelling = text.toList := by
  cases h with
  | fixed h => rw [Option.some.inj (h.symm.trans htext)]
  | _ => cases htext

theorem Setting.spelled_of_mark? {q : Setting} {kind : TokenKind} {lexeme : String}
    {spelling : List Char} {m : Mark} (h : Spells kind lexeme.toList spelling)
    (hm : q.mark? lexeme kind = some m) : m.Spelled spelling := by
  cases kind with
  | identifier =>
    have hname := (h.lexeme_eq (by decide)).symm
    simp only [mark?, Option.some.injEq] at hm
    split at hm <;> (subst hm; exact hname)
  | integer =>
    cases hm
    exact (h.lexeme_eq (by decide)).symm
  | string =>
    cases hm
    exact h.decodes rfl
  | keywordElse | leftParen | rightParen | leftBrace | rightBrace | comma | semicolon => cases hm
  | _ =>
    cases hm
    exact h.eq_of_spelling? rfl

theorem Node.Paired.mem_used {ns : List (Node α)} (h : Paired ns) {callee : String} {l : α}
    (hcall : ⟨.call callee, l⟩ ∈ ns) : ⟨.used callee, l⟩ ∈ ns := by
  induction h with
  | nil => cases hcall
  | own hown _ ih =>
    rcases List.mem_cons.mp hcall with rfl | hcall
    · cases hown
    · exact List.mem_cons_of_mem _ (ih hcall)
  | call _ ih =>
    rcases List.mem_cons.mp hcall with heq | hcall
    · cases heq
      exact List.mem_cons_of_mem _ List.mem_cons_self
    · rcases List.mem_cons.mp hcall with heq | hcall
      · cases heq
      · exact List.mem_cons_of_mem _ (List.mem_cons_of_mem _ (ih hcall))

namespace Program

variable {text file : String} {p : Program Location}

/-- The node stands in the text, and its own spelling is what its place covers. -/
def Placed (text file : String) (n : Node Location) : Prop :=
  ∃ before spelling after, text.toList = before ++ spelling ++ after ∧
    n.location = .behind file before spelling ∧ n.mark.Spelled spelling

theorem placed_of_token {q : Setting} {t : Token Location} {n : Node Location}
    (ht : t ∈ (TokenStream.ofText text file).tokens) (hn : q.node? t t.kind = some n) :
    Placed text file n := by
  obtain ⟨before, spelling, after, hstands⟩ :=
    (TokenStream.tiles_ofText text file).standsIn t ht
  obtain ⟨m, hm, rfl⟩ := Option.map_eq_some_iff.mp hn
  exact ⟨before, spelling, after, hstands.split, hstands.place,
    Setting.spelled_of_mark? hstands.spells hm⟩

theorem starts_ordered (text file : String) : (TokenStream.ofText text file).tokens.Pairwise
    fun t u => t.location.span.start < u.location.span.start := by
  have htiles := TokenStream.tiles_ofText text file
  refine htiles.ordered.imp_of_mem fun ht _ hle => ?_
  obtain ⟨before, spelling, after, hstands⟩ := htiles.standsIn _ ht
  exact Nat.lt_of_lt_of_le hstands.nonempty hle

/-- Each node of a program that is read from a text covers its own spelling there, and no place in
the program is left out. The nodes start one behind the other in the order in which they are listed,
but a call starts with its callee. -/
theorem nodes_cover_spellings (h : parse text file = .ok p) :
    (∀ n ∈ p.nodes, Placed text file n) ∧
    (∀ f g : Location → Location, (∀ n ∈ p.nodes, f n.location = g n.location) →
      p.map f = p.map g) ∧
    (p.nodes.filter Node.ownsToken).Pairwise
      (fun m n => m.location.span.start < n.location.span.start) ∧
    Node.Paired p.nodes := by
  have hpaired := paired_of_parse h
  obtain ⟨ts, hts, hnodes⟩ := nodes_of_parse h
  obtain ⟨rfl, -⟩ := tokens_of_tokenize hts
  have hown : ∀ n ∈ p.nodes, n.ownsToken → Placed text file n := by
    intro n hn hown
    have hscan := List.mem_filter.mpr ⟨hn, hown⟩
    rw [hnodes] at hscan
    obtain ⟨q, t, ht, hnode⟩ := Setting.exists_token hscan
    exact placed_of_token ht hnode
  refine ⟨fun n hn => ?_, fun f g => map_congr, ?_, hpaired⟩
  · obtain ⟨m, l⟩ := n
    cases m with
    | call callee =>
      -- A call has no token of its own; it is spelled as its callee is.
      obtain ⟨before, spelling, after, hsplit, hplace, hspelled⟩ :=
        hown ⟨.used callee, l⟩ (hpaired.mem_used hn) rfl
      exact ⟨before, spelling, after, hsplit, hplace, hspelled⟩
    | _ => exact hown _ hn rfl
  · rw [hnodes]
    exact Setting.pairwise_nodes (R := fun l l' : Location => l.span.start < l'.span.start)
      (starts_ordered text file) .plain

/-- Nodes of every sort, over two lines; the string holds an escape and a character of two bytes. -/
theorem nodes_cover_spellings_of_call :
    let text :=
      "function g(a)\x7bvar n;\x7d if (g)\x7b\x7d while (2 < n)\x7b\nn = g(\"\u00e9\\n\"); \x7d"
    let spans : List (Mark × Span) :=
      [(.function, ⟨0, 8⟩), (.introduced "g", ⟨9, 10⟩), (.introduced "a", ⟨11, 12⟩),
        (.declaration, ⟨14, 17⟩), (.introduced "n", ⟨18, 19⟩), (.branch, ⟨22, 24⟩),
        (.used "g", ⟨26, 27⟩), (.loop, ⟨31, 36⟩), (.integer "2", ⟨38, 39⟩),
        (.operator .less, ⟨40, 41⟩), (.used "n", ⟨42, 43⟩), (.used "n", ⟨46, 47⟩),
        (.assignment, ⟨48, 49⟩), (.call "g", ⟨50, 51⟩), (.used "g", ⟨50, 51⟩),
        (.string "\u00e9\n", ⟨52, 58⟩)]
    ∃ p, parse text "f" = .ok p ∧ p.nodes.map (fun n => (n.mark, n.location.span)) = spans ∧
      (∀ n ∈ p.nodes, Placed text "f" n) ∧
      (p.nodes.filter Node.ownsToken).Pairwise
        (fun m n => m.location.span.start < n.location.span.start) ∧
      Node.Paired p.nodes := by
  intro text spans
  have hcomputed : (parse text "f").toOption.map
      (fun p => p.nodes.map fun n => (n.mark, n.location.span)) = some spans := by decide +kernel
  cases hparse : parse text "f" with
  | error e =>
    rw [hparse] at hcomputed
    cases hcomputed
  | ok p =>
    rw [hparse] at hcomputed
    obtain ⟨hplaced, -, hordered, hpaired⟩ := nodes_cover_spellings hparse
    exact ⟨p, rfl, Option.some.inj hcomputed, hplaced, hordered, hpaired⟩

end Program

end Scriptlet
