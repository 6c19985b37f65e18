/-!
Places in a program text. A position counts bytes, lines and columns at once; it moves on one
character at a time, so the position behind a text is a fold over that text.
-/

namespace Scriptlet

/-- A half-open range of byte offsets. -/
structure Span where
  start : Nat
  stop : Nat
deriving DecidableEq, Inhabited

namespace Span

/-- Zero for a span that ends before it starts. -/
def length (s : Span) : Nat := s.stop - s.start

def isEmpty (s : Span) : Bool := s.length == 0

end Span

/-- A named file, the line and column (from one) of a first character, and the bytes covered. -/
structure Location where
  file : String
  line : Nat
  column : Nat
  span : Span
deriving DecidableEq, Inhabited

namespace Location

/-- Stands for a place outside every program text. -/
def synthetic : Location := ⟨"<builtin>", 0, 0, ⟨0, 0⟩⟩

def text (l : Location) : String :=
  l.file ++ ":" ++ toString l.line ++ ":" ++ toString l.column

end Location

/-- Where the next character of a text stands: bytes before it, its line and its column. -/
structure Position where
  offset : Nat
  line : Nat
  column : Nat
deriving DecidableEq, Inhabited

namespace Position

def start : Position := ⟨0, 1, 1⟩

/-- The position behind `c`: a newline opens the next line, all else fills one column. -/
def advance (p : Position) (c : Char) : Position :=
  if c = '\n' then ⟨p.offset + c.utf8Size, p.line + 1, 1⟩
  else ⟨p.offset + c.utf8Size, p.line, p.column + 1⟩

def advanceAll (p : Position) (cs : List Char) : Position := cs.foldl advance p

/-- The place of a text that starts at `p` and consists of `cs`. -/
def cover (p : Position) (file : String) (cs : List Char) : Location :=
  ⟨file, p.line, p.column, ⟨p.offset, (p.advanceAll cs).offset⟩⟩

@[simp] theorem advanceAll_nil (p : Position) : p.advanceAll [] = p := rfl

@[simp] theorem advanceAll_cons (p : Position) (c : Char) (cs : List Char) :
    p.advanceAll (c :: cs) = (p.advance c).advanceAll cs := rfl

theorem advanceAll_append (p : Position) (cs ds : List Char) :
    p.advanceAll (cs ++ ds) = (p.advanceAll cs).advanceAll ds := List.foldl_append ..

end Position

end Scriptlet
