import Scriptlet.Token.Stream

/-!
A token reader with any lookahead. Tokens looked at wait in a queue; a fault met while looking
ahead is reported once and leaves the queue as it is.
-/

namespace Scriptlet

structure Lookahead where
  cursor : Cursor
  /-- Tokens read and not yet taken, in order. -/
  queue : List (Token Location)
  /-- The cursor has reported the end of the text. -/
  exhausted : Bool
deriving DecidableEq

namespace Lookahead

def ofText (text file : String) : Lookahead := ⟨.ofText text file, [], false⟩

/-- Reads at most `n` tokens into the queue, stopping at a fault. -/
def readAhead : Nat → Lookahead → Except (LexicalError Location) Unit × Lookahead
  | 0, r => (.ok (), r)
  | n + 1, r =>
    if r.exhausted then (.ok (), r)
    else match r.cursor.read with
      | (.finished, c) => (.ok (), ⟨c, r.queue, true⟩)
      | (.token t, c) => readAhead n ⟨c, r.queue ++ [t], false⟩
      | (.fault e, c) => (.error e, ⟨c, r.queue, false⟩)

/-- Reads until `k` tokens wait or the text has ended. -/
def fill (k : Nat) (r : Lookahead) : Except (LexicalError Location) Unit × Lookahead :=
  r.readAhead (k - r.queue.length)

/-- The `k`-th token not yet taken, counted from one; zero counts as one. -/
def peek (k : Nat) (r : Lookahead) :
    Except (LexicalError Location) (Option (Token Location)) × Lookahead :=
  match r.fill (max k 1) with
  | (.ok _, s) => (.ok s.queue[max k 1 - 1]?, s)
  | (.error e, s) => (.error e, s)

def peekKind (k : Nat) (r : Lookahead) :
    Except (LexicalError Location) (Option TokenKind) × Lookahead :=
  match r.peek k with
  | (.ok t, s) => (.ok (t.map Token.kind), s)
  | (.error e, s) => (.error e, s)

/-- Takes the next token; the end of the text is a syntax error, since a token was asked for. -/
def next (r : Lookahead) : Except (ParseError Location) (Token Location) × Lookahead :=
  match r.fill 1 with
  | (.error e, s) => (.error (.lexical e), s)
  | (.ok _, s) => match s.queue with
    | [] => (.error (.syntactic ⟨.endOfInput none, s.cursor.location⟩), s)
    | t :: ts => (.ok t, ⟨s.cursor, ts, s.exhausted⟩)

/-- The place of the next character not yet read, whatever waits in the queue. -/
def location (r : Lookahead) : Location := r.cursor.location

end Lookahead

end Scriptlet
