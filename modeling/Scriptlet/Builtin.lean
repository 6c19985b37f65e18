import Scriptlet.Channel.Input
import Scriptlet.Channel.Sink
import Scriptlet.Evaluation
import Scriptlet.Heap.Render

/-!
Calling built-in functions. The signature is checked before anything happens: first the number of
arguments, then their kinds from the left. A result that is shared has one holder more, the
caller; the arguments stay the caller's.
-/

namespace Scriptlet

/-- All that a running program shares with the outside: objects, input and output. -/
structure World (α : Type) where
  heap : Heap α
  input : Input
  sink : Sink

inductive Param
  | any
  | kind (k : Kind)
deriving DecidableEq

inductive Signature
  | fixed (params : List Param)
  | variadic
deriving DecidableEq

def Param.admits : Param → Kind → Bool
  | any, _ => true
  | kind k, found => k == found

namespace Builtin

def signature : Builtin → Signature
  | print => .fixed [.any]
  | println => .fixed [.any]
  | readint => .fixed []
  | mkarr => .variadic
  | len => .fixed [.kind .array]
  | get => .fixed [.kind .array, .kind .int]
  | set => .fixed [.kind .array, .kind .int, .any]
  | push => .fixed [.kind .array, .any]
  | pop => .fixed [.kind .array]
  | substr => .fixed [.kind .string, .kind .int, .kind .int]
  | strcat => .fixed [.kind .string, .kind .string]
  | strlen => .fixed [.kind .string]

/-- The first argument of a wrong kind, the first of the list being at `position`. -/
def mismatch? (b : Builtin) : Nat → List Param → List Value → Option Cause
  | position, .kind k :: params, v :: vs =>
    if v.kind = k then b.mismatch? (position + 1) params vs
    else some (.builtinArgument b position k v.kind)
  | position, .any :: params, _ :: vs => b.mismatch? (position + 1) params vs
  | _, _, _ => none

/-- What is wrong with the arguments of a call. -/
def objection? (b : Builtin) (args : List Value) : Option Cause :=
  match b.signature with
  | .variadic => none
  | .fixed params =>
    if params.length ≠ args.length then some (.builtinArity b params.length args.length)
    else b.mismatch? 1 params args

end Builtin

/-- The place in a sequence of `n` elements that an index names. -/
def position? (index : Int64) (n : Nat) : Option Nat :=
  if 0 ≤ index.toInt ∧ index.toInt < n then some index.toInt.toNat else none

/-- The characters from `start` to before `stop`; nothing unless both lie in the text in order. -/
def slice? (text : String) (start stop : Int64) : Option String :=
  if 0 ≤ start.toInt ∧ start.toInt ≤ stop.toInt ∧ stop.toInt ≤ text.length then
    some (String.ofList ((text.toList.drop start.toInt.toNat).take
      (stop.toInt.toNat - start.toInt.toNat)))
  else none

namespace World

variable {α : Type}

/-- What an action on the world comes to: a value or a cause of failure, and the world after. -/
abbrev Answer (α : Type) : Type := Except Cause Value × World α

def fail (w : World α) (c : Cause) : Answer α := (.error c, w)

def give (w : World α) (v : Value) : Answer α := (.ok v, w)

/-- A new object, held by whoever asked for it. -/
def make (w : World α) (o : Object α) (value : Nat → Value) : Answer α :=
  match w with
  | ⟨heap, input, sink⟩ => match heap.alloc o with
    | (r, heap) => (.ok (value r), ⟨heap, input, sink⟩)

def newString (w : World α) (text : String) : Answer α := w.make (.string text) .string

def write (w : World α) (text : String) : Answer α :=
  match w with
  | ⟨heap, input, sink⟩ => match sink.write text.toUTF8.data with
    | (.ok _, sink) => (.ok (.int 0), ⟨heap, input, sink⟩)
    | (.error message, sink) => (.error (.output message), ⟨heap, input, sink⟩)

/-- Output is flushed before anything is read; if that fails the input stays as it is. -/
def readInt (w : World α) : Answer α :=
  match w.sink.flush with
  | .error message => w.fail (.output message)
  | .ok _ => match w with
    | ⟨heap, input, sink⟩ => match input.readInt with
      | (.ok i, input) => (.ok (.int i), ⟨heap, input, sink⟩)
      | (.error message, input) => (.error (.input message), ⟨heap, input, sink⟩)

/-- A new array of the given values, which gain a holder each. -/
def newArray (w : World α) (items : List Value) : Answer α :=
  match w with
  | ⟨heap, input, sink⟩ =>
    World.make ⟨heap.retainAll items, input, sink⟩ (.array items.toArray) .array

def getItem (w : World α) (r : Nat) (index : Int64) : Answer α :=
  let items := w.heap.items r
  match position? index items.size with
  | none => w.fail (.indexOutOfBounds index items.size)
  | some n =>
    let item := items.getD n default
    match w with
    | ⟨heap, input, sink⟩ => (.ok item, ⟨heap.retain item, input, sink⟩)

/-- Puts a value in place of an element. The value gains two holders, the array and the caller;
the element before loses one, after the new one is in place. -/
def setItem (w : World α) (r : Nat) (index : Int64) (v : Value) : Answer α :=
  let size := (w.heap.items r).size
  match position? index size with
  | none => w.fail (.indexOutOfBounds index size)
  | some n =>
    let previous := (w.heap.items r).getD n default
    match w with
    | ⟨heap, input, sink⟩ =>
      let heap := ((heap.retain v).retain v).modifyItems r (·.setIfInBounds n v)
      (.ok v, ⟨heap.release previous, input, sink⟩)

def pushItem (w : World α) (r : Nat) (v : Value) : Answer α :=
  match w with
  | ⟨heap, input, sink⟩ =>
    (.ok v, ⟨((heap.retain v).retain v).modifyItems r (·.push v), input, sink⟩)

/-- The last element passes from the array to the caller. -/
def popItem (w : World α) (r : Nat) : Answer α :=
  match (w.heap.items r).back? with
  | none => w.fail .emptyArray
  | some v => match w with
    | ⟨heap, input, sink⟩ => (.ok v, ⟨heap.modifyItems r Array.pop, input, sink⟩)

def substring (w : World α) (r : Nat) (start stop : Int64) : Answer α :=
  let text := w.heap.text r
  match slice? text start stop with
  | some s => w.newString s
  | none => w.fail (.substringRange start stop text.length)

end World

namespace Builtin

variable {α : Type}

/-- The answer of a body to arguments that its signature does not admit. -/
def malformed (b : Builtin) (expected : Nat) (args : List Value) (w : World α) : World.Answer α :=
  w.fail (.builtinArity b expected args.length)

/-- What a built-in function does with arguments that its signature admits. -/
def body (b : Builtin) (args : List Value) (w : World α) : World.Answer α :=
  match b, args with
  | print, [v] => w.write (w.heap.render v)
  | println, [v] => w.write (w.heap.render v ++ "\n")
  | readint, _ => w.readInt
  | mkarr, items => w.newArray items
  | len, [.array r] => w.give (.int (Int64.ofNat (w.heap.items r).size))
  | get, [.array r, .int i] => w.getItem r i
  | set, [.array r, .int i, v] => w.setItem r i v
  | push, [.array r, v] => w.pushItem r v
  | pop, [.array r] => w.popItem r
  | substr, [.string r, .int start, .int stop] => w.substring r start stop
  | strcat, [.string r, .string s] => w.newString (w.heap.text r ++ w.heap.text s)
  | strlen, [.string r] => w.give (.int (Int64.ofNat (w.heap.text r).length))
  | print, args => malformed print 1 args w
  | println, args => malformed println 1 args w
  | len, args => malformed len 1 args w
  | get, args => malformed get 2 args w
  | set, args => malformed set 3 args w
  | push, args => malformed push 2 args w
  | pop, args => malformed pop 1 args w
  | substr, args => malformed substr 3 args w
  | strcat, args => malformed strcat 2 args w
  | strlen, args => malformed strlen 1 args w

def invoke (b : Builtin) (args : List Value) (w : World α) : World.Answer α :=
  match b.objection? args with
  | some c => w.fail c
  | none => b.body args w

end Builtin

end Scriptlet
