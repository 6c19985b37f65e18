import Scriptlet.Text.Blank
import Scriptlet.Text.Decimal

/-!
Reading integers from buffered bytes. The bytes arrive in fills; where one fill ends and the next
begins makes no difference to what is read.
-/

namespace Scriptlet

structure Input where
  /-- Bytes that have arrived and are not yet read. -/
  buffer : List UInt8
  /-- Fills to come, none of them empty. -/
  fills : List (List UInt8)
  /-- Why the fill after the last one fails; without a reason the input just ends. -/
  failure : Option String
deriving DecidableEq

namespace Input

/-- Pieces of `n + 1` bytes, the last one maybe shorter. -/
def chunks (n : Nat) : List UInt8 → List (List UInt8)
  | [] => []
  | b :: bs => (b :: bs.take n) :: chunks n (bs.drop n)
termination_by bs => bs.length
decreasing_by simp only [List.length_drop, List.length_cons]; omega

/-- An input whose fills have the given capacity. Through a capacity of zero nothing arrives: as
long as there are bytes, every fill is empty, which is how an input ends. -/
def ofBytes (bytes : List UInt8) (capacity : Nat) (failure : Option String) : Input :=
  match capacity with
  | 0 => ⟨[], [], if bytes.isEmpty then failure else none⟩
  | n + 1 => ⟨[], chunks n bytes, failure⟩

/-- A further fill, unless it is empty. -/
def feed (i : Input) (bytes : List UInt8) : Input :=
  if bytes.isEmpty then i else ⟨i.buffer, i.fills ++ [bytes], i.failure⟩

/-- All bytes not yet read. -/
def unread (i : Input) : List UInt8 := i.buffer ++ i.fills.flatten

/-- The buffer without the blank bytes before a token, if none of the token has been read. -/
def body (token buffer : List UInt8) : List UInt8 :=
  if token.isEmpty then buffer.dropWhile isBlankByte else buffer

/-- What has been read of a token with the part of it that stands in the buffer. -/
def grow (token buffer : List UInt8) : List UInt8 :=
  token ++ (body token buffer).takeWhile (!isBlankByte ·)

/-- What the buffer holds behind the token: nothing, unless the token ends there. -/
def beyond (token buffer : List UInt8) : List UInt8 :=
  (body token buffer).dropWhile (!isBlankByte ·)

/-- The token that goes on from `token` in `buffer` and the fills behind it. Blank bytes before a
token are dropped, the one that ends it stays. -/
def takeToken (failure : Option String) :
    List UInt8 → List UInt8 → List (List UInt8) → Except String (List UInt8) × Input
  | token, buffer, [] =>
    if (beyond token buffer).isEmpty then
      match failure with
      | none => (.ok (grow token buffer), ⟨[], [], failure⟩)
      | some message => (.error message, ⟨[], [], failure⟩)
    else (.ok (grow token buffer), ⟨beyond token buffer, [], failure⟩)
  | token, buffer, fill :: fills =>
    if (beyond token buffer).isEmpty then takeToken failure (grow token buffer) fill fills
    else (.ok (grow token buffer), ⟨beyond token buffer, fill :: fills, failure⟩)

/-- The bytes up to the next blank, after any blanks; no bytes at the end of the input. -/
def readToken (i : Input) : Except String (List UInt8) × Input :=
  takeToken i.failure [] i.buffer i.fills

/-- Every byte as the character of its number. -/
def latin (bytes : List UInt8) : List Char := bytes.map fun b => Char.ofNat b.toNat

/-- The integer a token stands for, or why there is none. -/
def tokenInt (token : List UInt8) : Except String Int64 :=
  if token.isEmpty then .error "unexpected end of input"
  else match Decimal.int64? (latin token) with
    | some i => .ok i
    | none => .error ("'" ++ String.ofList (latin token) ++ "' is not an integer")

def readInt (i : Input) : Except String Int64 × Input :=
  match i.readToken with
  | (.ok token, rest) => (tokenInt token, rest)
  | (.error message, rest) => (.error message, rest)

end Input

end Scriptlet
