import Scriptlet.Error
import Scriptlet.Text.Blank

/-!
Scanning one token at the head of a text. A scan only splits the text: the characters it took and
those it left make up the text again, so places can be worked out afterwards.
-/

namespace Scriptlet

/-- What follows the opening quote of a string literal. -/
inductive StringBody
  /-- The text meant, its spelling with the closing quote, and what follows. -/
  | closed (value spelling rest : List Char)
  /-- A backslash and `c`, which make no escape, between `before` and `after`. -/
  | badEscape (before : List Char) (c : Char) (after : List Char)
  | unclosed
deriving DecidableEq

namespace StringBody

/-- The body with one more character in front, `d` spelled as `spelled`. -/
def cons (d : Char) (spelled : List Char) : StringBody → StringBody
  | closed value spelling rest => closed (d :: value) (spelled ++ spelling) rest
  | badEscape before c after => badEscape (spelled ++ before) c after
  | unclosed => unclosed

/-- The character that a backslash and `c` stand for. -/
def escape? : Char → Option Char
  | 'n' => some '\n'
  | 't' => some '\t'
  | 'r' => some '\r'
  | '"' => some '"'
  | _ => none

def read : List Char → StringBody
  | [] => unclosed
  | c :: cs =>
    if c = '"' then closed [] ['"'] cs
    else if c = '\\' then
      match cs with
      | [] => unclosed
      | e :: rest => match escape? e with
        | some d => (read rest).cons d ['\\', e]
        | none => badEscape [] e rest
    else (read cs).cons c [c]

end StringBody

/-- What stands at the head of a text that does not start with a blank. -/
inductive Scan
  | token (kind : TokenKind) (lexeme spelling rest : List Char)
  /-- The characters at fault stand between `before` and `after`. -/
  | fault (cause : LexicalFault) (before culprit after : List Char)
deriving DecidableEq

namespace Scan

/-- A token that means its own spelling. -/
def plain (kind : TokenKind) (spelling rest : List Char) : Scan := token kind spelling spelling rest

/-- An ASCII letter and the letters and digits behind it: a keyword or an identifier. -/
def word (c : Char) (cs : List Char) : Scan :=
  let spelling := c :: cs.takeWhile Char.isAlphanum
  plain ((TokenKind.keyword? (String.ofList spelling)).getD .identifier) spelling
    (cs.dropWhile Char.isAlphanum)

def integer (c : Char) (cs : List Char) : Scan :=
  plain .integer (c :: cs.takeWhile Char.isDigit) (cs.dropWhile Char.isDigit)

def string (cs : List Char) : Scan :=
  match StringBody.read cs with
  | .closed value spelling rest => token .string value ('"' :: spelling) rest
  | .badEscape before c after => fault (.invalidEscape c) ('"' :: before) ['\\', c] after
  | .unclosed => fault .unterminatedString [] ('"' :: cs) []

/-- `c` alone, or `c` with an equals sign behind it. -/
def oneOrTwo (one two : TokenKind) (c : Char) : List Char → Scan
  | '=' :: rest => plain two [c, '='] rest
  | rest => plain one [c] rest

/-- `c` and `second`; `c` alone is no token. -/
def pair (kind : TokenKind) (c second : Char) : List Char → Scan
  | [] => fault (.incompletePair c second) [] [c] []
  | d :: rest =>
    if d = second then plain kind [c, d] rest
    else fault (.incompletePair c second) [] [c] (d :: rest)

/-- The token or fault that `c` opens before `cs`. -/
def start (c : Char) (cs : List Char) : Scan :=
  if c.isAlpha then word c cs
  else if c.isDigit then integer c cs
  else match c with
    | '"' => string cs
    | '+' => plain .plus [c] cs
    | '-' => plain .minus [c] cs
    | '*' => plain .star [c] cs
    | '/' => plain .slash [c] cs
    | '(' => plain .leftParen [c] cs
    | ')' => plain .rightParen [c] cs
    | '\x7b' => plain .leftBrace [c] cs
    | '\x7d' => plain .rightBrace [c] cs
    | ',' => plain .comma [c] cs
    | ';' => plain .semicolon [c] cs
    | '=' => oneOrTwo .assign .equal c cs
    | '<' => oneOrTwo .less .lessEqual c cs
    | '>' => oneOrTwo .greater .greaterEqual c cs
    | '&' => pair .logicalAnd c '&' cs
    | '|' => pair .logicalOr c '|' cs
    | '!' => pair .notEqual c '=' cs
    | _ => fault (.unrecognized c) [] [c] cs

/-- The scan splits `cs`, and a token takes at least one character of it. -/
def Splits (cs : List Char) : Scan → Prop
  | token _ _ spelling rest => spelling ≠ [] ∧ spelling ++ rest = cs
  | fault _ before culprit after => culprit ≠ [] ∧ before ++ culprit ++ after = cs

theorem splits_plain {kind : TokenKind} {spelling rest cs : List Char} (hs : spelling ≠ [])
    (h : spelling ++ rest = cs) : Splits cs (plain kind spelling rest) := ⟨hs, h⟩

theorem splits_oneOrTwo (one two : TokenKind) (c : Char) (cs : List Char) :
    Splits (c :: cs) (oneOrTwo one two c cs) := by
  unfold oneOrTwo
  split <;> exact splits_plain (by simp) (by simp)

theorem splits_pair (kind : TokenKind) (c second : Char) (cs : List Char) :
    Splits (c :: cs) (pair kind c second cs) := by
  unfold pair
  split
  · exact ⟨by simp, by simp⟩
  · split
    · exact splits_plain (by simp) (by simp)
    · exact ⟨by simp, by simp⟩

end Scan

namespace StringBody

/-- The body is a splitting of `cs`, unless it has no end. -/
def Splits (cs : List Char) : StringBody → Prop
  | closed _ spelling rest => spelling ++ rest = cs
  | badEscape before c after => before ++ '\\' :: c :: after = cs
  | unclosed => True

theorem Splits.cons {b : StringBody} {cs : List Char} (h : b.Splits cs) (d : Char)
    (spelled : List Char) : (b.cons d spelled).Splits (spelled ++ cs) := by
  cases b with
  | closed value spelling rest =>
    have he : spelling ++ rest = cs := h
    simp [StringBody.cons, Splits, ← he]
  | badEscape before c after =>
    have he : before ++ '\\' :: c :: after = cs := h
    simp [StringBody.cons, Splits, ← he]
  | unclosed => trivial

theorem splits_read (cs : List Char) : (read cs).Splits cs := by
  fun_induction read cs with
  | case1 => trivial
  | case2 cs => simp [Splits]
  | case3 => trivial
  | case4 e rest d he _ ih => exact ih.cons d ['\\', e]
  | case5 e rest he => simp [Splits]
  | case6 c cs hq hb ih => exact ih.cons c [c]

end StringBody

namespace Scan

theorem splits_string (cs : List Char) : Splits ('"' :: cs) (string cs) := by
  have h := StringBody.splits_read cs
  unfold string
  split <;> rename_i he <;> rw [he] at h
  · have hs : _ ++ _ = cs := h
    exact ⟨by simp, by simp [hs]⟩
  · have hs : _ ++ '\\' :: _ :: _ = cs := h
    exact ⟨by simp, by simp [← hs]⟩
  · exact ⟨by simp, by simp⟩

theorem splits_start (c : Char) (cs : List Char) : Splits (c :: cs) (start c cs) := by
  unfold start
  split
  · exact splits_plain (by simp) (by simp)
  split
  · exact splits_plain (by simp) (by simp)
  split
  · exact splits_string cs
  iterate 10 exact splits_plain (by simp) (by simp)
  iterate 3 exact splits_oneOrTwo _ _ _ _
  iterate 3 exact splits_pair _ _ _ _
  · exact ⟨by simp, by simp⟩

end Scan

end Scriptlet
