import Scriptlet.Builtin
import Scriptlet.Text.Quoted

/-!
Values and built-in functions for somebody who looks into a running program: the kind of a value
with what tells it from others of the kind, and a built-in function with its signature.
-/

namespace Scriptlet

def Kind.inspect : Kind → String
  | int => "Int"
  | function => "Function"
  | builtin => "Intrinsic"
  | array => "Array"
  | string => "String"

def Param.inspect : Param → String
  | any => "Any"
  | kind k => "Kind(" ++ k.inspect ++ ")"

def Signature.inspect : Signature → String
  | fixed params => "Fixed([" ++ String.intercalate ", " (params.map Param.inspect) ++ "])"
  | variadic => "Variadic"

def Builtin.inspect (b : Builtin) : String :=
  "Intrinsic \x7b name: " ++ Quoted.quote b.name ++ ", signature: " ++ b.signature.inspect ++
    " \x7d"

namespace Heap

variable {α : Type}

def inspectContent (h : Heap α) : Value → String
  | .int i => toString i.toInt
  | .builtin b => Quoted.quote b.name
  | .function r => Quoted.quote (h.functionName r)
  | .array r => toString (h.items r).size
  | .string r => Quoted.quote (h.text r)

def inspect (h : Heap α) (v : Value) : String :=
  v.kind.inspect ++ "(" ++ h.inspectContent v ++ ")"

end Heap

end Scriptlet
