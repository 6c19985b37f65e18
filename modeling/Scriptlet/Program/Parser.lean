import Scriptlet.Program
import Scriptlet.Token.Stream

/-!
Reading a program from its tokens. The grammar, loosest binding first:

    Program    := Item*
    Item       := Function | Statement
    Function   := 'function' ident '(' [ident (',' ident)*] ')' Block
    Block      := '{' Statement* '}'
    Statement  := 'var' ident ';'
                | 'if' '(' Assignment ')' Block ['else' Block]
                | 'while' '(' Assignment ')' Block
                | Assignment ';'
    Assignment := ident '=' Assignment | Logical
    Logical    := Relation [('&&' | '||') Relation]
    Relation   := Sum [('<' | '<=' | '>' | '>=' | '==' | '!=') Sum]
    Sum        := Product (('+' | '-') Product)*
    Product    := Primary (('*' | '/') Primary)*
    Primary    := int | string | ident | ident '(' [Logical (',' Logical)*] ')'
                | '(' Assignment ')'

Two tokens decide every choice. The tokens are given as a list, with how they end; a reader with
lookahead, which takes them from the text as they are needed, answers alike. All repetition is
bounded by a number above the count of tokens left: each nested or repeated part is read behind at
least one token more, so the bound is never reached.
-/

namespace Scriptlet

/-- A reader of tokens, given how the tokens end: a result and the tokens left, or an error. -/
def Parser (α β : Type) : Type :=
  Ending α → List (Token α) → Except (ParseError α) (β × List (Token α))

namespace Parser

variable {α β γ : Type}

@[always_inline, inline]
def pure (b : β) : Parser α β := fun _ ts => .ok (b, ts)

@[always_inline, inline]
def bind (p : Parser α β) (f : β → Parser α γ) : Parser α γ := fun ending ts =>
  match p ending ts with
  | .ok (b, rest) => f b ending rest
  | .error e => .error e

@[always_inline]
instance : Monad (Parser α) where
  pure := Parser.pure
  bind := Parser.bind

end Parser

/-- The error of a reader that finds no token left. -/
def Ending.error {α : Type} (wanted : Option Expectation) : Ending α → ParseError α
  | .complete l => .syntactic ⟨.endOfInput wanted, l⟩
  | .broken e => .lexical e

/-- The error of a reader that finds the wrong token. -/
def Token.error {α : Type} (wanted : Expectation) (t : Token α) : ParseError α :=
  .syntactic ⟨.unexpectedToken t.lexeme wanted, t.location⟩

namespace Parser

variable {α β : Type}

/-- The kind of the next token. Looking behind the last token meets the fault that stands there. -/
def peek : Parser α (Option TokenKind)
  | .complete _, [] => .ok (none, [])
  | .broken e, [] => .error (.lexical e)
  | _, t :: ts => .ok (some t.kind, t :: ts)

/-- The kind of the token after the next. -/
def peekSecond : Parser α (Option TokenKind)
  | _, t :: u :: ts => .ok (some u.kind, t :: u :: ts)
  | .complete _, ts => .ok (none, ts)
  | .broken e, _ => .error (.lexical e)

/-- The next token is not what was wanted, or there is none. -/
def refuse (wanted : Expectation) : Parser α β
  | ending, [] => .error (ending.error (some wanted))
  | _, t :: _ => .error (t.error wanted)

/-- The answer of a reader that has used up its bound; the bounds below are never used up. -/
def exhausted : Parser α β := fun ending _ => .error (ending.error none)

/-- Takes the next token, which must be of the given kind. -/
def expect (kind : TokenKind) : Parser α (Token α)
  | ending, [] => .error (ending.error (some (.token kind)))
  | _, t :: ts =>
    if t.kind = kind then .ok (t, ts) else .error (t.error (.token kind))

def identifier : Parser α (Identifier α) := do
  let t ← expect .identifier
  return ⟨t.lexeme, t.location⟩

def nextIs (kind : TokenKind) : Parser α Bool := do
  return (← peek) = some kind

/-- Takes the next token if it is of the given kind. -/
def accept (kind : TokenKind) : Parser α Bool := do
  if ← nextIs kind then
    let _ ← expect kind
    return true
  else
    return false

/-- Takes the next token if it is one of the given operators. -/
def operator (ops : TokenKind → Option BinaryOp) : Parser α (Option (BinaryOp × α))
  | .complete _, [] => .ok (none, [])
  | .broken e, [] => .error (.lexical e)
  | _, t :: ts => match ops t.kind with
    | some op => .ok (some (op, t.location), ts)
    | none => .ok (none, t :: ts)

/-- One item or more, with commas between them. -/
def separated (item : Parser α β) : Nat → Parser α (List β)
  | 0 => exhausted
  | n + 1 => do
    let x ← item
    if ← accept .comma then
      let xs ← separated item n
      return x :: xs
    else
      return [x]

/-- Any number of items in parentheses, with commas between them. -/
def listed (item : Parser α β) (bound : Nat) : Parser α (List β) := do
  let _ ← expect .leftParen
  let xs ← if ← nextIs .rightParen then pure [] else separated item bound
  let _ ← expect .rightParen
  return xs

/-! ### Expressions -/

def logicalOp : TokenKind → Option BinaryOp
  | .logicalAnd => some .and
  | .logicalOr => some .or
  | _ => none

def relationOp : TokenKind → Option BinaryOp
  | .less => some .less
  | .lessEqual => some .lessEqual
  | .greater => some .greater
  | .greaterEqual => some .greaterEqual
  | .equal => some .equal
  | .notEqual => some .notEqual
  | _ => none

def sumOp : TokenKind → Option BinaryOp
  | .plus => some .add
  | .minus => some .sub
  | _ => none

def productOp : TokenKind → Option BinaryOp
  | .star => some .mul
  | .slash => some .div
  | _ => none

/-- An operand, or two with an operator between them. -/
def atMostOne (ops : TokenKind → Option BinaryOp) (operand : Parser α (Expr α)) :
    Parser α (Expr α) := do
  let left ← operand
  match ← operator ops with
  | none => return left
  | some (op, l) =>
    let right ← operand
    return .binary op left right l

/-- Further operands behind `left`, grouped to the left. -/
def chainFrom (ops : TokenKind → Option BinaryOp) (operand : Parser α (Expr α)) :
    Nat → Expr α → Parser α (Expr α)
  | 0, _ => exhausted
  | n + 1, left => do
    match ← operator ops with
    | none => return left
    | some (op, l) =>
      let right ← operand
      chainFrom ops operand n (.binary op left right l)

/-- Operands with operators between them, grouped to the left. -/
def chain (ops : TokenKind → Option BinaryOp) (operand : Parser α (Expr α)) (bound : Nat) :
    Parser α (Expr α) := do
  let left ← operand
  chainFrom ops operand bound left

/-- A logical expression over the given primary expressions. -/
def operation (primary : Parser α (Expr α)) (bound : Nat) : Parser α (Expr α) :=
  atMostOne logicalOp (atMostOne relationOp (chain sumOp (chain productOp primary bound) bound))

/-- An identifier before a parenthesis is a callee, any other a variable. -/
def nameOrCall (logical : Parser α (Expr α)) (bound : Nat) : Parser α (Expr α) := do
  if (← peekSecond) = some .leftParen then
    let callee ← identifier
    let args ← listed logical bound
    return .callAt callee args callee.location
  else
    let id ← identifier
    return .reference id

def primary (assignment logical : Parser α (Expr α)) (bound : Nat) : Parser α (Expr α) := do
  match ← peek with
  | some .identifier => nameOrCall logical bound
  | some .integer =>
    let t ← expect .integer
    return .integer t.lexeme t.location
  | some .string =>
    let t ← expect .string
    return .string t.lexeme t.location
  | some .leftParen =>
    let _ ← expect .leftParen
    let e ← assignment
    let _ ← expect .rightParen
    return e
  | _ => refuse .expression

/-- An identifier and an assignment sign come next. -/
def startsAssignment : Parser α Bool := do
  if ← nextIs .identifier then
    return (← peekSecond) = some .assign
  else
    return false

/-- The two kinds of expression that can be nested. -/
inductive Level
  | assignment
  | logical
deriving DecidableEq

def expression : Nat → Level → Parser α (Expr α)
  | 0, _ => exhausted
  | n + 1, .logical => operation (primary (expression n .assignment) (expression n .logical) n) n
  | n + 1, .assignment => do
    if ← startsAssignment then
      let target ← identifier
      let sign ← expect .assign
      let value ← expression n .assignment
      return .assign target value sign.location
    else
      operation (primary (expression n .assignment) (expression n .logical) n) n

/-! ### Statements -/

/-- Statements up to a closing brace, which is left. -/
def statements (stmt : Parser α (Stmt α)) : Nat → Parser α (List (Stmt α))
  | 0 => exhausted
  | n + 1 => do
    if ← nextIs .rightBrace then
      return []
    else
      let s ← stmt
      let ss ← statements stmt n
      return s :: ss

def block (stmt : Parser α (Stmt α)) (bound : Nat) : Parser α (List (Stmt α)) := do
  let _ ← expect .leftBrace
  let ss ← statements stmt bound
  let _ ← expect .rightBrace
  return ss

def condition (bound : Nat) : Parser α (Expr α) := do
  let _ ← expect .leftParen
  let e ← expression bound .assignment
  let _ ← expect .rightParen
  return e

/-- The alternative of a conditional statement, if there is one. -/
def elseBlock (stmt : Parser α (Stmt α)) (bound : Nat) : Parser α (Option (List (Stmt α))) := do
  if ← accept .keywordElse then
    let ss ← block stmt bound
    return some ss
  else
    return none

def statement : Nat → Parser α (Stmt α)
  | 0 => exhausted
  | n + 1 => do
    match ← peek with
    | none => refuse .statement
    | some .keywordVar =>
      let keyword ← expect .keywordVar
      let id ← identifier
      let _ ← expect .semicolon
      return .declare id keyword.location
    | some .keywordIf =>
      let keyword ← expect .keywordIf
      let cond ← condition n
      let thenBlock ← block (statement n) n
      let otherwise ← elseBlock (statement n) n
      return .branch cond thenBlock otherwise keyword.location
    | some .keywordWhile =>
      let keyword ← expect .keywordWhile
      let cond ← condition n
      let body ← block (statement n) n
      return .loop cond body keyword.location
    | some _ =>
      let e ← expression (n + 1) .assignment
      let _ ← expect .semicolon
      return .expr e

def function (bound : Nat) : Parser α (FunctionDef α) := do
  let keyword ← expect .keywordFunction
  let id ← identifier
  let params ← listed identifier bound
  let body ← block (statement bound) bound
  return ⟨id, params, body, keyword.location⟩

def item (bound : Nat) : Parser α (Item α) := do
  if ← nextIs .keywordFunction then
    let d ← function bound
    return .function d
  else
    let s ← statement bound
    return .stmt s

/-- Items up to the end of the text. -/
def items (bound : Nat) : Nat → Parser α (List (Item α))
  | 0 => exhausted
  | n + 1 => do
    match ← peek with
    | none => return []
    | some _ =>
      let x ← item bound
      let xs ← items bound n
      return x :: xs

end Parser

namespace Program

variable {α : Type}

def ofStream (s : TokenStream α) : Except (ParseError α) (Program α) :=
  let bound := s.tokens.length + 1
  match Parser.items bound bound s.ending s.tokens with
  | .ok (items, _) => .ok ⟨items⟩
  | .error e => .error e

/-- Reads a program text; the first token that no program can continue with is an error, and so is
a lexical fault that stands before any such token. -/
def parse (text file : String) : Except (ParseError Location) (Program Location) :=
  ofStream (.ofText text file)

end Program

end Scriptlet
