import Scriptlet.Inspect
import Scriptlet.Main
import Scriptlet.Proofs.Builtin.Arrays
import Scriptlet.Proofs.Builtin.Readint
import Scriptlet.Proofs.Builtin.Strings
import Scriptlet.Proofs.Grammar.FirstError
import Scriptlet.Proofs.Heap.Occurrences
import Scriptlet.Proofs.Interpreter.Arithmetic
import Scriptlet.Proofs.Interpreter.Layout
import Scriptlet.Proofs.Interpreter.Literals
import Scriptlet.Proofs.Interpreter.Noninterference
import Scriptlet.Proofs.Interpreter.Numbers
import Scriptlet.Proofs.Interpreter.SideEffects
import Scriptlet.Proofs.Interpreter.Termination
import Scriptlet.Proofs.Interpreter.UndefinedNames
import Scriptlet.Proofs.Interpreter.Unrolling
import Scriptlet.Proofs.Program.Depiction
import Scriptlet.Proofs.Program.Introductions
import Scriptlet.Proofs.Program.Lookahead
import Scriptlet.Proofs.Program.Placement
import Scriptlet.Proofs.Program.RoundTrip
import Scriptlet.Proofs.Scopes.Chains
import Scriptlet.Proofs.Workbench
