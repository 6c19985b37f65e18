/-!
Decimal numerals: reading a run of digits, a signed 64-bit integer and an unsigned bound. The
value of a numeral is a natural number first, so no digit is lost before the range is checked.
-/

namespace Scriptlet.Decimal

def digit? (c : Char) : Option Nat :=
  if '0' ≤ c ∧ c ≤ '9' then some (c.toNat - '0'.toNat) else none

/-- The value of `cs` read behind digits of value `acc`; nothing if some character is no digit. -/
def digitsFrom? (acc : Nat) : List Char → Option Nat
  | [] => some acc
  | c :: cs => match digit? c with
    | some d => digitsFrom? (10 * acc + d) cs
    | none => none

/-- The value of a non-empty run of digits. -/
def nat? : List Char → Option Nat
  | [] => none
  | cs => digitsFrom? 0 cs

/-- The integer of an optional sign and a non-empty run of digits. -/
def int? : List Char → Option Int
  | '-' :: cs => (nat? cs).map fun n => -(n : Int)
  | '+' :: cs => (nat? cs).map Int.ofNat
  | cs => (nat? cs).map Int.ofNat

/-- The 64-bit integer a numeral stands for; nothing if its value is out of range. -/
def int64? (cs : List Char) : Option Int64 := do
  let i ← int? cs
  if Int64.minValue.toInt ≤ i ∧ i ≤ Int64.maxValue.toInt then some (Int64.ofInt i) else none

/-- The natural number below 2^64 of an optional plus sign and a non-empty run of digits. -/
def word? (cs : List Char) : Option Nat := do
  let n ← nat? (match cs with
    | '+' :: ds => ds
    | ds => ds)
  if n < UInt64.size then some n else none

end Scriptlet.Decimal
