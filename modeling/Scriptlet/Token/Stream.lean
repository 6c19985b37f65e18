import Scriptlet.Token.Scan

/-!
Reading tokens with their places. A cursor stands in a text and reads one token at a time; the
stream of a text is all tokens before its end or before its first lexical fault.
-/

namespace Scriptlet

structure Cursor where
  file : String
  rest : List Char
  position : Position
deriving DecidableEq

inductive Reading
  | finished
  | token (t : Token Location)
  | fault (e : LexicalError Location)
deriving DecidableEq

namespace Cursor

def ofText (text file : String) : Cursor := ⟨file, text.toList, .start⟩

/-- The cursor behind `cs`, where `rest` follows. -/
def past (c : Cursor) (cs rest : List Char) : Cursor :=
  ⟨c.file, rest, c.position.advanceAll cs⟩

def skipBlanks (c : Cursor) : Cursor :=
  c.past (c.rest.takeWhile isBlank) (c.rest.dropWhile isBlank)

/-- The place of the next character; an empty place at the end of the text. -/
def location (c : Cursor) : Location := c.position.cover c.file (c.rest.take 1)

/-- A character that opens no token is not passed, so a reader meets it again; behind any other
fault reading goes on. -/
def afterFault (c : Cursor) (cause : LexicalFault) (before culprit after : List Char) : Cursor :=
  match cause with
  | .unrecognized _ => c.past before (culprit ++ after)
  | _ => c.past (before ++ culprit) after

/-- The outcome of a scan at `c`, and the cursor from which reading goes on. -/
def follow (c : Cursor) : Scan → Reading × Cursor
  | .token kind lexeme spelling rest =>
    (.token ⟨kind, String.ofList lexeme, c.position.cover c.file spelling⟩, c.past spelling rest)
  | .fault cause before culprit after =>
    (.fault ⟨cause, (c.position.advanceAll before).cover c.file culprit⟩,
      c.afterFault cause before culprit after)

/-- The next token or fault behind any blanks. -/
def read (c : Cursor) : Reading × Cursor :=
  let d := c.skipBlanks
  match d.rest with
  | [] => (.finished, d)
  | x :: xs => d.follow (Scan.start x xs)

theorem skipBlanks_length_le (c : Cursor) : c.skipBlanks.rest.length ≤ c.rest.length :=
  (List.dropWhile_sublist isBlank).length_le

theorem length_of_read_token {c d : Cursor} {t : Token Location} (h : c.read = (.token t, d)) :
    d.rest.length < c.rest.length := by
  have hle := c.skipBlanks_length_le
  unfold read at h
  simp only at h
  split at h
  · simp at h
  · rename_i x xs hrest
    have hs := Scan.splits_start x xs
    rw [hrest] at hle
    cases he : Scan.start x xs with
    | fault cause before culprit after => simp [he, follow] at h
    | token kind lexeme spelling rest =>
      rw [he] at hs
      obtain ⟨hne, happ⟩ := hs
      simp only [he, follow, Prod.mk.injEq] at h
      have hlen : (spelling ++ rest).length = (x :: xs).length := by rw [happ]
      have hpos : 0 < spelling.length := List.length_pos_iff.mpr hne
      have hd : d.rest = rest := by rw [← h.2]; rfl
      rw [List.length_append] at hlen
      rw [hd]
      omega

end Cursor

/-- How the tokens of a text end: with the text, at the given place, or at a lexical fault. -/
inductive Ending (α : Type)
  | complete (location : α)
  | broken (e : LexicalError α)
deriving DecidableEq

/-- The tokens of a text up to its end or its first lexical fault. -/
structure TokenStream (α : Type) where
  tokens : List (Token α)
  ending : Ending α
deriving DecidableEq

namespace Ending

variable {α β : Type}

def map (f : α → β) : Ending α → Ending β
  | complete l => complete (f l)
  | broken e => broken (e.map f)

end Ending

namespace TokenStream

variable {α β : Type}

def map (f : α → β) (s : TokenStream α) : TokenStream β :=
  ⟨s.tokens.map (Token.map f), s.ending.map f⟩

def cons (t : Token α) (s : TokenStream α) : TokenStream α := ⟨t :: s.tokens, s.ending⟩

def ofCursor (c : Cursor) : TokenStream Location :=
  match h : c.read with
  | (.finished, d) => ⟨[], .complete d.location⟩
  | (.token t, d) =>
    have := Cursor.length_of_read_token h
    (ofCursor d).cons t
  | (.fault e, _) => ⟨[], .broken e⟩
termination_by c.rest.length

def ofText (text file : String) : TokenStream Location := ofCursor (.ofText text file)

/-- All tokens, if the text has no lexical fault. -/
def toExcept (s : TokenStream α) : Except (LexicalError α) (List (Token α)) :=
  match s.ending with
  | .complete _ => .ok s.tokens
  | .broken e => .error e

end TokenStream

/-- All tokens of a text, or its first lexical error. -/
def tokenize (text file : String) : Except (LexicalError Location) (List (Token Location)) :=
  (TokenStream.ofText text file).toExcept

end Scriptlet
