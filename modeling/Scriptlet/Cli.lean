import Scriptlet.Diagnostic
import Scriptlet.Interpreter
import Scriptlet.Program.Parser
import Scriptlet.Program.Tree

/-!
The command line: a command and a file, checked in that order, and what the command answers about
the text of the file.
-/

namespace Scriptlet.Cli

inductive Command
  | run | check | ast | tokens
deriving DecidableEq

namespace Command

def word : Command → String
  | run => "run"
  | check => "check"
  | ast => "ast"
  | tokens => "tokens"

def ofWord? (w : String) : Option Command := [run, check, ast, tokens].find? fun c => c.word = w

end Command

structure Invocation where
  command : Command
  file : String
deriving DecidableEq

def usage : String := "Usage: tally [run|check|ast|tokens] <filename.tly>"

/-- The invocation that the arguments ask for, or what is wrong with them. -/
def Invocation.ofArgs : List String → Except String Invocation
  | [word, file] => match Command.ofWord? word with
    | none => .error ("Invalid command. " ++ usage)
    | some command =>
      if file.endsWith ".tly" then .ok ⟨command, file⟩
      else .error "Invalid file extension. Only .tly files are allowed."
  | _ => .error usage

/-- What is said on the error output. -/
inductive Complaint
  | message (text : String)
  | diagnostic (d : Diagnostic)
deriving DecidableEq

structure Response where
  /-- What the command has written. -/
  output : Array UInt8
  complaint : Option Complaint
deriving DecidableEq

namespace Response

/-- The exit status. -/
def status (r : Response) : Nat := if r.complaint.isSome then 1 else 0

def refusal (text : String) : Response := ⟨#[], some (.message text)⟩

def text (s : String) : Response := ⟨s.toUTF8.data, none⟩

def failure (f : Failure Location) : Response := ⟨#[], some (.diagnostic f.diagnostic)⟩

end Response

namespace Invocation

/-- The text of the file, from its bytes or the reason why there are none. -/
def source (i : Invocation) (contents : Except String ByteArray) : Except Response String :=
  let failed := fun reason => Response.refusal ("Failed to access " ++ i.file ++ ": " ++ reason)
  match contents with
  | .error reason => .error (failed reason)
  | .ok bytes => match String.fromUTF8? bytes with
    | some text => .ok text
    | none => .error (failed "stream did not contain valid UTF-8")

def tokens (i : Invocation) (text : String) : Response :=
  match tokenize text i.file with
  | .error e => .failure (.lexical e)
  | .ok ts => .text (String.join (ts.map fun t => t.listing ++ "\n"))

/-- Goes on with the program in the text, if there is one. -/
def withProgram {β : Type} (i : Invocation) (text : String) (refuse : Response → β)
    (f : Program Location → β) : β :=
  match Program.parse text i.file with
  | .error e => refuse (.failure (.ofParse e))
  | .ok p => f p

def check (i : Invocation) (p : Program Location) : Response :=
  match p.analyze with
  | .error e => .failure (.evaluation e)
  | .ok _ => .text (i.file ++ ": ok\n")

/-- The response to a run that has written `output`. -/
def finished (output : Array UInt8) : Except (EvalError Location) Value → Response
  | .ok _ => ⟨output, none⟩
  | .error e => ⟨output, some (.diagnostic (Failure.evaluation e).diagnostic)⟩

def run (fuel : Nat) (p : Program Location) (config : Config) (input : Input) : Option Response :=
  ((Interpreter.new p config input .unlimited).run fuel).map fun (r, i) =>
    finished i.world.sink.written r

/-- The response to an invocation, if running the program takes at most `fuel` steps. -/
def respond (fuel : Nat) (i : Invocation) (contents : Except String ByteArray) (config : Config)
    (input : Input) : Option Response :=
  match i.source contents with
  | .error r => some r
  | .ok text => match i.command with
    | .tokens => some (i.tokens text)
    | .ast => some (i.withProgram text id fun p => .text p.draw)
    | .check => some (i.withProgram text id i.check)
    | .run => i.withProgram text some fun p => run fuel p config input

end Invocation

end Scriptlet.Cli
