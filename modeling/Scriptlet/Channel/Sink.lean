/-!
Where output goes. A sink may have room for so many bytes only; a write that does not fit leaves
there the part that fits and fails.
-/

namespace Scriptlet

/-- How a full sink meets a write. -/
inductive Refusal
  | fails (reason : String)
  | acceptsNothing
deriving DecidableEq

def Refusal.message : Refusal → String
  | fails reason => reason
  | acceptsNothing => "failed to write whole buffer"

structure Sink where
  written : Array UInt8
  /-- How many bytes fit in all; without a number, any. -/
  capacity : Option Nat
  refusal : Refusal
  /-- Why flushing fails, if it does. -/
  flushFailure : Option String
deriving DecidableEq

namespace Sink

def unlimited : Sink := ⟨#[], none, .acceptsNothing, none⟩

/-- How many of `n` further bytes fit. -/
def room (s : Sink) (n : Nat) : Nat :=
  match s.capacity with
  | none => n
  | some c => min n (c - s.written.size)

def append (s : Sink) (bytes : Array UInt8) : Sink :=
  ⟨s.written ++ bytes, s.capacity, s.refusal, s.flushFailure⟩

def write (s : Sink) (bytes : Array UInt8) : Except String Unit × Sink :=
  if s.room bytes.size = bytes.size then (.ok (), s.append bytes)
  else (.error s.refusal.message, s.append (bytes.take (s.room bytes.size)))

def flush (s : Sink) : Except String Unit :=
  match s.flushFailure with
  | none => .ok ()
  | some reason => .error reason

end Sink

end Scriptlet
