import Scriptlet.Cli

/-!
The program that is run from a shell. It fetches what an invocation needs (the file, the
environment, input as it is asked for) and puts out what the invocation comes to.
-/

namespace Scriptlet.Cli

/-- Why a file could not be read, in the words of the system. -/
def reason : IO.Error → String
  | .noFileOrDirectory _ _ _ => "No such file or directory (os error 2)"
  | .inappropriateType _ _ _ => "Is a directory (os error 21)"
  | .permissionDenied _ _ _ => "Permission denied (os error 13)"
  | e => toString e

def fetch (file : String) : IO (Except String ByteArray) := do
  try
    return .ok (← IO.FS.readBinFile file)
  catch e =>
    return .error (reason e)

def settings : IO Config := do
  let skip ← IO.getEnv Config.skipAnalyzeKey
  let depth ← IO.getEnv Config.maxCallDepthKey
  return .ofEnvironment fun key =>
    if key = Config.skipAnalyzeKey then skip
    else if key = Config.maxCallDepthKey then depth
    else none

def putBytes (bytes : Array UInt8) : IO Unit := do
  let out ← IO.getStdout
  out.write ⟨bytes⟩
  out.flush

/-- Puts out a response without the first `written` bytes of it. -/
def put (r : Response) (written : Nat) : IO UInt32 := do
  putBytes (r.output.drop written)
  match r.complaint with
  | none => pure ()
  | some (.message text) => IO.eprintln text
  | some (.diagnostic d) => d.lines.forM fun l => IO.eprintln l
  return r.status.toUInt32

/-- Puts out what has been written behind the first `written` bytes; gives the number of all. -/
def putNew (sink : Sink) (written : Nat) : IO Nat := do
  if written < sink.written.size then
    putBytes (sink.written.drop written)
  return sink.written.size

/-- Runs a program, reading input when it is asked for and putting out what has been written. -/
partial def drive (limit : Nat) (s : State Location) (written : Nat) (ended : Bool) :
    IO UInt32 := do
  let written ← putNew s.world.sink written
  match s.outcome? with
  | some r =>
    let (r, world) := Interpreter.flush r s.world
    put (Invocation.finished world.sink.written r) written
  | none =>
    if s.awaitsInput && !ended then
      let bytes ← (← IO.getStdin).read 8192
      drive limit (s.feed bytes.toList) written bytes.isEmpty
    else
      drive limit (s.step limit) written ended

def answer (i : Invocation) : IO UInt32 := do
  let config ← settings
  let contents ← fetch i.file
  match i.source contents, i.command with
  | .ok text, .run =>
    i.withProgram text (put · 0) fun p =>
      let interpreter := Interpreter.new p config (.ofBytes [] 1 none) .unlimited
      match interpreter.objection? with
      | some e => put (Invocation.finished #[] (.error e)) 0
      | none => drive config.maxCallDepth interpreter.start 0 false
  | _, _ => match i.respond 0 contents config (.ofBytes [] 1 none) with
    | some r => put r 0
    | none => return 1

end Scriptlet.Cli

def main (args : List String) : IO UInt32 :=
  match Scriptlet.Cli.Invocation.ofArgs args with
  | .error text => Scriptlet.Cli.put (.refusal text) 0
  | .ok i => Scriptlet.Cli.answer i
