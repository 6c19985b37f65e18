import Scriptlet.Proofs.Grammar.Nodes
import Scriptlet.Proofs.Token.Tiling

/-!
Mentions and tokens. The names that a program mentions are the identifiers among its tokens, in the
same order, so each of them stands in the text behind all those mentioned before it.
-/

namespace Scriptlet

variable {α : Type}

namespace Setting

/-- The mention that an identifier is in this place. -/
def mention (q : Setting) (t : Token α) : Mention α :=
  if q.introduces then .introduced t.identifier else .used t.identifier

def mentions (q : Setting) : List (Token α) → List (Mention α)
  | [] => []
  | t :: ts =>
    if t.kind = .identifier then q.mention t :: (q.next t.kind).mentions ts
    else (q.next t.kind).mentions ts

theorem mentions_eq (q : Setting) (ts : List (Token α)) :
    q.mentions ts = (q.nodes ts).filterMap Node.mention? := by
  induction ts generalizing q with
  | nil => rfl
  | cons t ts ih =>
    rw [mentions, nodes, List.filterMap_append, ← ih]
    obtain ⟨kind, lexeme, l⟩ := t
    cases kind with
    | identifier => cases q <;> rfl
    | _ => rfl

end Setting

/-- Reading a text gives the mentions among its tokens. -/
theorem Program.mentions_of_parse {text file : String} {p : Program Location}
    (h : Program.parse text file = .ok p) :
    ∃ ts, tokenize text file = .ok ts ∧ p.mentions = Setting.plain.mentions ts := by
  obtain ⟨ts, hts, hnodes⟩ := Program.nodes_of_parse h
  refine ⟨ts, hts, ?_⟩
  rw [Setting.mentions_eq, ← hnodes, p.mentions_eq, List.filterMap_filter]
  refine List.filterMap_congr fun n _ => ?_
  by_cases hn : n.ownsToken
  · rw [if_pos hn]
  · rw [if_neg hn, Node.mention?_of_not_ownsToken (by simpa using hn)]

/-- The names that a program mentions stand in its text one behind the other. -/
theorem Program.mentions_ordered {text file : String} {p : Program Location}
    (h : Program.parse text file = .ok p) :
    p.mentions.Pairwise fun m m' =>
      m.identifier.location.span.stop ≤ m'.identifier.location.span.start := by
  obtain ⟨ts, hts, hmentions⟩ := Program.mentions_of_parse h
  obtain ⟨rfl, -⟩ := tokens_of_tokenize hts
  have htokens := (TokenStream.tiles_ofText text file).ordered
  have hnodes := Setting.pairwise_nodes
    (R := fun l l' : Location => l.span.stop ≤ l'.span.start) htokens .plain
  rw [hmentions, Setting.mentions_eq]
  refine hnodes.filterMap _ fun n n' hle m hm m' hm' => ?_
  rw [Node.location_of_mention? hm, Node.location_of_mention? hm']
  exact hle

end Scriptlet
