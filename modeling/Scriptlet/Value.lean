/-!
Values of a running program. Integers and built-in functions stand for themselves; functions,
arrays and strings are references to objects that all copies of the value share.
-/

namespace Scriptlet

/-- The functions that every program can call. -/
inductive Builtin
  | print | println | readint
  | mkarr | len | get | set | push | pop
  | substr | strcat | strlen
deriving DecidableEq, Inhabited

inductive Value
  | int (i : Int64)
  | builtin (b : Builtin)
  | function (ref : Nat)
  | array (ref : Nat)
  | string (ref : Nat)
deriving DecidableEq

instance : Inhabited Value := ⟨.int 0⟩

inductive Kind
  | int | function | builtin | array | string
deriving DecidableEq, Inhabited

def Kind.describe : Kind → String
  | int => "an integer"
  | function => "a function"
  | builtin => "an intrinsic function"
  | array => "an array"
  | string => "a string"

namespace Value

def kind : Value → Kind
  | int _ => .int
  | builtin _ => .builtin
  | function _ => .function
  | array _ => .array
  | string _ => .string

/-- The object that a value refers to. -/
def ref? : Value → Option Nat
  | int _ => none
  | builtin _ => none
  | function r => some r
  | array r => some r
  | string r => some r

def int? : Value → Option Int64
  | int i => some i
  | _ => none

/-- Two values share one object, or are the same built-in function. -/
def shares : Value → Value → Bool
  | function r, function s => r == s
  | array r, array s => r == s
  | string r, string s => r == s
  | builtin b, builtin c => b == c
  | _, _ => false

end Value

end Scriptlet
