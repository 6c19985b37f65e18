import Scriptlet.Program
import Scriptlet.Value

/-!
Why a running program fails. A cause has one wording; an error adds the place in the program,
and has none if the failure belongs to no part of it.
-/

namespace Scriptlet

namespace Builtin

/-- In the order in which they are listed and bound. -/
def all : List Builtin :=
  [print, println, readint, mkarr, len, get, set, push, pop, substr, strcat, strlen]

def name : Builtin → String
  | print => "print"
  | println => "println"
  | readint => "readint"
  | mkarr => "mkarr"
  | len => "len"
  | get => "get"
  | set => "set"
  | push => "push"
  | pop => "pop"
  | substr => "substr"
  | strcat => "strcat"
  | strlen => "strlen"

def names : List String := all.map name

def ofName? (n : String) : Option Builtin := all.find? fun b => b.name = n

end Builtin

inductive Cause
  | undefinedName (name : String)
  | redefinition (name : String)
  | nonNumericOperand (op : BinaryOp) (found : Kind)
  | nonNumericCondition (found : Kind)
  | divisionByZero
  | integerLiteral (text : String)
  | arityMismatch (name : String) (expected received : Nat)
  | builtinArity (b : Builtin) (expected received : Nat)
  /-- Positions count from one. -/
  | builtinArgument (b : Builtin) (position : Nat) (expected found : Kind)
  | indexOutOfBounds (index : Int64) (length : Nat)
  | emptyArray
  | substringRange (start stop : Int64) (length : Nat)
  | notCallable (name : String) (kind : Kind)
  | callDepthExceeded (limit : Nat)
  | input (message : String)
  | output (message : String)
deriving DecidableEq

namespace Cause

def intText (i : Int64) : String := toString i.toInt

def message : Cause → String
  | undefinedName name => "Reference to undefined name '" ++ name ++ "'"
  | redefinition name => "Variable '" ++ name ++ "' already defined"
  | nonNumericOperand op found =>
    "Non-numeric operand to '" ++ op.symbol ++ "': found " ++ found.describe
  | nonNumericCondition found => "Condition must be numeric, found " ++ found.describe
  | divisionByZero => "Attempt to divide by zero"
  | integerLiteral text => "Integer literal '" ++ text ++ "' is out of range"
  | arityMismatch name expected received =>
    "Function '" ++ name ++ "' requires " ++ toString expected ++ " arguments but received " ++
      toString received
  | builtinArity b expected received =>
    "Built-in '" ++ b.name ++ "' expects " ++ toString expected ++ " argument(s) but received " ++
      toString received
  | builtinArgument b position expected found =>
    "Argument " ++ toString position ++ " of built-in '" ++ b.name ++ "' must be " ++
      expected.describe ++ ", found " ++ found.describe
  | indexOutOfBounds index length =>
    "Array index out of bounds: " ++ intText index ++ " (length " ++ toString length ++ ")"
  | emptyArray => "Cannot pop from an empty array"
  | substringRange start stop length =>
    "Substring range " ++ intText start ++ ".." ++ intText stop ++
      " is invalid for a string of length " ++ toString length
  | notCallable name kind => "'" ++ name ++ "' is " ++ kind.describe ++ ", which cannot be called"
  | callDepthExceeded limit => "Maximum call depth of " ++ toString limit ++ " exceeded"
  | input message => "Failed to read input: " ++ message
  | output message => "Failed to write output: " ++ message

end Cause

structure EvalError (α : Type) where
  cause : Cause
  /-- Missing for a failure outside every part of the program. -/
  location : Option α
deriving DecidableEq

def EvalError.map {α β : Type} (f : α → β) (e : EvalError α) : EvalError β :=
  ⟨e.cause, e.location.map f⟩

end Scriptlet
