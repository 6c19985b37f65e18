import Scriptlet.Token

/-!
Why a program text is refused. A lexical fault is about characters, a syntax fault about tokens;
each has one wording, and an error adds the place.
-/

namespace Scriptlet

inductive LexicalFault
  | unrecognized (c : Char)
  /-- The first character of a two-character operator without the second. -/
  | incompletePair (first second : Char)
  | unterminatedString
  | invalidEscape (c : Char)
deriving DecidableEq

namespace LexicalFault

def message : LexicalFault → String
  | unrecognized c => "Unrecognized character '" ++ c.toString ++ "'"
  | incompletePair first second =>
    "Unrecognized character '" ++ first.toString ++ "' (expected '" ++ first.toString ++
      second.toString ++ "')"
  | unterminatedString => "Unterminated string literal"
  | invalidEscape c => "Invalid escape sequence '\\" ++ c.toString ++ "'"

end LexicalFault

structure LexicalError (α : Type) where
  fault : LexicalFault
  location : α
deriving DecidableEq

/-- What a reader of tokens was looking for. -/
inductive Expectation
  | token (kind : TokenKind)
  | expression
  | statement
deriving DecidableEq

inductive SyntaxFault
  /-- The text ended; the wish is missing where any token would have done. -/
  | endOfInput (wanted : Option Expectation)
  | unexpectedToken (lexeme : String) (wanted : Expectation)
deriving DecidableEq

namespace Expectation

def atEnd : Expectation → String
  | token k => k.describe
  | expression => "a primary expression"
  | statement => "a statement"

def hint : Expectation → String
  | token k => "expected " ++ k.describe
  | expression => "expected an expression"
  | statement => "expected a statement"

end Expectation

namespace SyntaxFault

def message : SyntaxFault → String
  | endOfInput none => "Unexpected end of input"
  | endOfInput (some e) => "Unexpected end of input looking for " ++ e.atEnd
  | unexpectedToken lexeme _ => "Unexpected token '" ++ lexeme ++ "'"

def help? : SyntaxFault → Option String
  | endOfInput _ => none
  | unexpectedToken _ e => some e.hint

end SyntaxFault

structure SyntaxError (α : Type) where
  fault : SyntaxFault
  location : α
deriving DecidableEq

/-- Anything that keeps a text from being a program. -/
inductive ParseError (α : Type)
  | lexical (e : LexicalError α)
  | syntactic (e : SyntaxError α)
deriving DecidableEq

variable {α β : Type}

def LexicalError.map (f : α → β) (e : LexicalError α) : LexicalError β := ⟨e.fault, f e.location⟩

def SyntaxError.map (f : α → β) (e : SyntaxError α) : SyntaxError β := ⟨e.fault, f e.location⟩

def ParseError.map (f : α → β) : ParseError α → ParseError β
  | lexical e => lexical (e.map f)
  | syntactic e => syntactic (e.map f)

end Scriptlet
