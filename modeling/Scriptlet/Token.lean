import Scriptlet.Position

/-!
Tokens: what kinds there are, how they are named and how they are described to the reader of a
message. A token carries a location of any type, so that two tokens can be compared without it.
-/

namespace Scriptlet

inductive TokenKind
  | identifier | integer | string
  | keywordVar | keywordIf | keywordElse | keywordWhile | keywordFunction
  | plus | minus | star | slash
  | assign | equal | notEqual | less | lessEqual | greater | greaterEqual
  | logicalAnd | logicalOr
  | leftParen | rightParen | leftBrace | rightBrace | comma | semicolon
deriving DecidableEq, Inhabited

namespace TokenKind

def keyword? : String → Option TokenKind
  | "var" => some .keywordVar
  | "if" => some .keywordIf
  | "else" => some .keywordElse
  | "while" => some .keywordWhile
  | "function" => some .keywordFunction
  | _ => none

def name : TokenKind → String
  | identifier => "IDENTIFIER"
  | integer => "INTEGER_LITERAL"
  | string => "STRING"
  | keywordVar => "VAR"
  | keywordIf => "IF"
  | keywordElse => "ELSE"
  | keywordWhile => "WHILE"
  | keywordFunction => "FUNCTION"
  | plus => "PLUS"
  | minus => "MINUS"
  | star => "TIMES"
  | slash => "DIVIDE"
  | assign => "ASSIGN"
  | equal => "IS_EQUAL"
  | notEqual => "NOT_EQUAL"
  | less => "LESS"
  | lessEqual => "LESS_EQUAL"
  | greater => "GREATER"
  | greaterEqual => "GREATER_EQUAL"
  | logicalAnd => "AND"
  | logicalOr => "OR"
  | leftParen => "LPAREN"
  | rightParen => "RPAREN"
  | leftBrace => "LBRACE"
  | rightBrace => "RBRACE"
  | comma => "COMMA"
  | semicolon => "SEMICOLON"

/-- The spelling of a kind that has only one. -/
def spelling? : TokenKind → Option String
  | identifier | integer | string => none
  | keywordVar => some "var"
  | keywordIf => some "if"
  | keywordElse => some "else"
  | keywordWhile => some "while"
  | keywordFunction => some "function"
  | plus => some "+"
  | minus => some "-"
  | star => some "*"
  | slash => some "/"
  | assign => some "="
  | equal => some "=="
  | notEqual => some "!="
  | less => some "<"
  | lessEqual => some "<="
  | greater => some ">"
  | greaterEqual => some ">="
  | logicalAnd => some "&&"
  | logicalOr => some "||"
  | leftParen => some "("
  | rightParen => some ")"
  | leftBrace => some "\x7b"
  | rightBrace => some "\x7d"
  | comma => some ","
  | semicolon => some ";"

/-- How the kind reads in a message that asks for it. -/
def describe (k : TokenKind) : String :=
  match k.spelling? with
  | some s => "'" ++ s ++ "'"
  | none => match k with
    | integer => "an integer literal"
    | string => "a string literal"
    | _ => "an identifier"

end TokenKind

/-- The lexeme of a string token is the text it stands for, of any other its spelling. -/
structure Token (α : Type) where
  kind : TokenKind
  lexeme : String
  location : α
deriving DecidableEq, Inhabited

namespace Token

variable {α β : Type}

def map (f : α → β) (t : Token α) : Token β := ⟨t.kind, t.lexeme, f t.location⟩

/-- One line of a token listing. -/
def listing (t : Token Location) : String :=
  toString t.location.line ++ ":" ++ toString t.location.column ++ ": " ++ t.kind.name ++
    "[" ++ t.lexeme ++ "]"

end Token

end Scriptlet
