import Scriptlet.Error
import Scriptlet.Evaluation

/-!
What the author of a program is told about a failure: which phase failed and why, which part of
the text to look at, and what would have been right, if that is known.
-/

namespace Scriptlet

/-- Every way in which a program text can fail. -/
inductive Failure (α : Type)
  | lexical (e : LexicalError α)
  | syntactic (e : SyntaxError α)
  | evaluation (e : EvalError α)
deriving DecidableEq

namespace Failure

variable {α : Type}

def ofParse : ParseError α → Failure α
  | .lexical e => lexical e
  | .syntactic e => syntactic e

def phase : Failure α → String
  | lexical _ => "Lexical error"
  | syntactic _ => "Syntax error"
  | evaluation _ => "Evaluation error"

def message : Failure α → String
  | lexical e => e.fault.message
  | syntactic e => e.fault.message
  | evaluation e => e.cause.message

/-- Where the failure belongs; only an evaluation can fail outside the text. -/
def location? : Failure α → Option α
  | lexical e => some e.location
  | syntactic e => some e.location
  | evaluation e => e.location

def headline (f : Failure α) : String := f.phase ++ ": " ++ f.message

def help? : Failure α → Option String
  | syntactic e => e.fault.help?
  | _ => none

/-- What is said at the place of the failure. -/
def remark : Failure α → String
  | lexical _ => "not valid here"
  | syntactic _ => "unexpected here"
  | evaluation _ => "failed here"

def location (f : Failure Location) : Location := f.location?.getD .synthetic

end Failure

/-- A remark about a range of bytes of the text. -/
structure Label where
  text : String
  offset : Nat
  length : Nat
deriving DecidableEq

structure Diagnostic where
  headline : String
  help : Option String
  label : Label
deriving DecidableEq

/-- The diagnostic of a failure; its label covers at least one byte. -/
def Failure.diagnostic (f : Failure Location) : Diagnostic where
  headline := f.headline
  help := f.help?
  label :=
    ⟨f.remark ++ " at " ++ f.location.text, f.location.span.start, max f.location.span.length 1⟩

namespace Diagnostic

/-- The diagnostic as plain lines of text. -/
def lines (d : Diagnostic) : List String :=
  [d.headline, "  " ++ d.label.text] ++ (d.help.map ("  help: " ++ ·)).toList

end Diagnostic

end Scriptlet
