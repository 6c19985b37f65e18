import Scriptlet.Config
import Scriptlet.Machine
import Scriptlet.Program.Names

/-!
A program with its settings and its world, ready to be run any number of times. Every execution
starts from fresh scopes; objects, unread input and the room left for output carry over.
-/

namespace Scriptlet

variable {α : Type}

namespace Scopes

/-- The scopes a program starts with: all built-in functions bound in the global one. -/
def withBuiltins : Scopes :=
  Builtin.all.foldl (fun s b => (s.bind globalScope b.name (.builtin b)).1) initial

end Scopes

/-- The first use of a name that neither is built in nor was introduced before. -/
def Program.analyze (p : Program α) : Except (EvalError α) Unit :=
  match p.names Builtin.names with
  | .ok _ => .ok ()
  | .error id => .error ⟨.undefinedName id.name, some id.location⟩

structure Interpreter (α : Type) where
  program : Program α
  config : Config
  /-- What the execution before has left; it is let go of when the next one starts. -/
  scopes : Scopes
  world : World α

namespace Interpreter

def new (program : Program α) (config : Config) (input : Input) (sink : Sink) : Interpreter α :=
  ⟨program, config, .initial, ⟨.empty, input, sink⟩⟩

def analyze (i : Interpreter α) : Except (EvalError α) Unit := i.program.analyze

/-- The world without the scopes. -/
def close (i : Interpreter α) : World α :=
  match i with
  | ⟨_, _, scopes, ⟨heap, input, sink⟩⟩ => ⟨heap.releaseAll scopes.values, input, sink⟩

/-- The state an execution starts in. -/
def start (i : Interpreter α) : State α :=
  ⟨.items i.program.items (.int 0), [], .withBuiltins, 0, i.close⟩

/-- Output is flushed at the end of an execution. A failure to do so counts if all went well
before, and belongs to no part of the program. -/
def flush (r : Except (EvalError α) Value) (w : World α) : Except (EvalError α) Value × World α :=
  match r, w.sink.flush with
  | .ok v, .error message => match w with
    | ⟨heap, input, sink⟩ => (.error ⟨.output message, none⟩, ⟨heap.release v, input, sink⟩)
  | r, _ => (r, w)

/-- Runs all items in order, if that takes at most `fuel` steps. The result is the value of the
last one, held by the caller. -/
def execute (fuel : Nat) (i : Interpreter α) :
    Option (Except (EvalError α) Value × Interpreter α) :=
  match i.start.run i.config.maxCallDepth fuel with
  | none => none
  | some (r, ⟨_, _, scopes, _, world⟩) => match flush r world with
    | (r, world) => some (r, ⟨i.program, i.config, scopes, world⟩)

/-- What keeps the program from being executed under its settings. -/
def objection? (i : Interpreter α) : Option (EvalError α) :=
  if i.config.analyze then
    match i.analyze with
    | .error e => some e
    | .ok _ => none
  else none

/-- Checks names, unless the settings say otherwise, and executes. -/
def run (fuel : Nat) (i : Interpreter α) :
    Option (Except (EvalError α) Value × Interpreter α) :=
  match i.objection? with
  | some e => some (.error e, i)
  | none => i.execute fuel

/-- The caller lets go of a value. -/
def discard (i : Interpreter α) (v : Value) : Interpreter α :=
  match i with
  | ⟨program, config, scopes, ⟨heap, input, sink⟩⟩ =>
    ⟨program, config, scopes, ⟨heap.release v, input, sink⟩⟩

/-- What an interpreter can be asked to do. -/
inductive Request
  | analyze
  | run
  | execute
deriving DecidableEq

/-- Names can be fine, or an execution gives a value. -/
inductive Reply
  | fine
  | value (v : Value)
deriving DecidableEq

def perform (fuel : Nat) (i : Interpreter α) :
    Request → Option (Except (EvalError α) Reply × Interpreter α)
  | .analyze => some (i.analyze.map fun _ => .fine, i)
  | .run => (i.run fuel).map fun (r, i) => (r.map .value, i)
  | .execute => (i.execute fuel).map fun (r, i) => (r.map .value, i)

end Interpreter

end Scriptlet
