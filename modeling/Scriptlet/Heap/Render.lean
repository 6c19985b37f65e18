import Scriptlet.Heap

/-!
The text of a value. An array is written with its elements, except where it stands inside itself:
there a mark takes its place, so every text is finite.
-/

namespace Scriptlet.Heap

variable {α : Type}

def functionName (h : Heap α) (r : Nat) : String :=
  match h.function? r with
  | some (d, _) => d.name
  | none => ""

/-- The text of a value, an array being shown by the mark for an array already open. -/
def plainText (h : Heap α) : Value → String
  | .int i => toString i.toInt
  | .builtin _ => "<intrinsic function>"
  | .function r => "<function " ++ h.functionName r ++ ">"
  | .array _ => "[...]"
  | .string r => h.text r

/-- Writes the text of a value, down to a depth of `n` arrays. The state lists the arrays that are
open: an array stands on it while its elements are written. -/
def renderWithin (h : Heap α) : Nat → Value → StateM (List Nat) String
  | n + 1, .array r => do
    if r ∈ (← get) then
      return "[...]"
    modifyThe (List Nat) (r :: ·)
    let texts ← (h.items r).toList.mapM (h.renderWithin n)
    modifyThe (List Nat) List.tail
    return "[" ++ String.intercalate ", " texts ++ "]"
  | _, v => return h.plainText v

/-- The text of a value. Nested arrays that are all different are no more than the heap has. -/
def render (h : Heap α) (v : Value) : String := ((h.renderWithin (h.cells.size + 1) v).run []).1

end Scriptlet.Heap
