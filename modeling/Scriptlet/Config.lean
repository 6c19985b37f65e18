import Scriptlet.Text.Blank
import Scriptlet.Text.Decimal

/-!
Settings of a run and where they come from. Two environment variables can change them; a value
that makes no sense leaves the default in place.
-/

namespace Scriptlet

structure Config where
  /-- Check names before running. -/
  analyze : Bool
  /-- How many calls of user functions may be nested. -/
  maxCallDepth : Nat
deriving DecidableEq

namespace Config

def standard : Config := ⟨true, 1000⟩

instance : Inhabited Config := ⟨standard⟩

def skipAnalyzeKey : String := "TALLY_SKIP_ANALYZE"

def maxCallDepthKey : String := "TALLY_MAX_CALL_DEPTH"

/-- A word for yes, in any mixture of cases and with blanks around it. -/
def isTruthy (text : String) : Bool :=
  String.ofList ((trimBlanks text.toList).map Char.toLower) ∈ ["1", "true", "yes", "on"]

/-- A positive depth that fits in 64 bits, with blanks around it. -/
def depth? (text : String) : Option Nat := do
  let n ← Decimal.word? (trimBlanks text.toList)
  if 0 < n then some n else none

/-- The settings under the given environment. -/
def ofEnvironment (lookup : String → Option String) : Config where
  analyze := !((lookup skipAnalyzeKey).map isTruthy).getD false
  maxCallDepth := ((lookup maxCallDepthKey).bind depth?).getD standard.maxCallDepth

end Config

end Scriptlet
