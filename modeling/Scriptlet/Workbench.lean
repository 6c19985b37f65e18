import Scriptlet.Builtin
import Scriptlet.Scopes

/-!
Values, built-in functions and scopes worked by hand, outside any program. Values lie in named
slots; a slot, an element of an array and a binding are one holder each of what they hold.
-/

namespace Scriptlet

variable {α : Type}

structure Workbench (α : Type) where
  slots : Bindings
  scopes : Scopes
  /-- The places of the scopes opened so far, the global one first. A place may be gone by now, or
  belong to a later scope. -/
  handles : Array Nat
  world : World α

/-- Something done to the workbench. Names are those of slots; a value that is made goes to the
slot `dest`, or is dropped if there is none. -/
inductive Operation (α : Type)
  | int (i : Int64) (dest : Option String)
  | string (text : String) (dest : Option String)
  | array (items : List String) (dest : Option String)
  | function (d : FunctionDef α) (handle : Nat) (dest : Option String)
  | builtin (name : String) (dest : Option String)
  | initial (dest : Option String)
  | copy (slot : String) (dest : Option String)
  | drop (slot : String)
  | getItem (slot : String) (index : Int64) (dest : Option String)
  | setItem (slot : String) (index : Int64) (value : String) (dest : Option String)
  | pushItem (slot value : String)
  | popItem (slot : String) (dest : Option String)
  | invoke (b : Builtin) (args : List String) (dest : Option String)
  | pushScope (parent : Nat)
  | popScope (handle : Nat)
  | define (handle : Nat) (name slot : String)
  | assign (handle : Nat) (name slot : String)
  | bind (handle : Nat) (name slot : String)
  | lookup (handle : Nat) (name : String) (dest : Option String)

/-- A value as it can be seen: its kind and its text. -/
structure Shown where
  kind : Kind
  text : String
deriving DecidableEq

/-- What an operation comes to. -/
inductive Finding
  | value (s : Shown)
  /-- There is no such value. -/
  | absent
  | done
  | dropped (present : Bool)
  | failed (c : Cause)
  | opened (handle place : Nat)
  | depth (n : Nat)
deriving DecidableEq

def Heap.display (h : Heap α) (v : Value) : Shown := ⟨v.kind, h.render v⟩

namespace Workbench

def new (input : Input) (sink : Sink) : Workbench α :=
  ⟨[], .initial, #[Scopes.globalScope], ⟨.empty, input, sink⟩⟩

def heap (b : Workbench α) : Heap α := b.world.heap

def slot? (b : Workbench α) (name : String) : Option Value := b.slots.find? name

/-- The place a handle stands for; a handle never given out stands for no place in use. -/
def place (b : Workbench α) (handle : Nat) : Nat := b.handles.getD handle b.scopes.depth

def onHeap (b : Workbench α) (f : Heap α → Heap α) : Workbench α :=
  match b with
  | ⟨slots, scopes, handles, ⟨heap, input, sink⟩⟩ =>
    ⟨slots, scopes, handles, ⟨f heap, input, sink⟩⟩

/-- Shows a value that the workbench holds, and puts it where it is to go. -/
def deliver (b : Workbench α) (dest : Option String) (v : Value) : Finding × Workbench α :=
  let shown := b.heap.display v
  match dest with
  | none => (.value shown, b.onHeap (·.release v))
  | some name =>
    let previous := b.slot? name
    match b with
    | ⟨slots, scopes, handles, world⟩ =>
      (.value shown,
        (Workbench.mk (slots.set name v) scopes handles world).onHeap
          (·.releaseAll previous.toList))

/-- As `deliver`, if there is a value. -/
def deliver? (b : Workbench α) (dest : Option String) : Option Value → Finding × Workbench α
  | none => (.absent, b)
  | some v => b.deliver dest v

/-- Goes on with the answer of the world. -/
def settle (b : Workbench α) (dest : Option String) (answer : World.Answer α) :
    Finding × Workbench α :=
  match answer with
  | (.ok v, world) => Workbench.deliver ⟨b.slots, b.scopes, b.handles, world⟩ dest v
  | (.error c, world) => (.failed c, ⟨b.slots, b.scopes, b.handles, world⟩)

def array? (b : Workbench α) (slot : String) : Option Nat :=
  match b.slot? slot with
  | some (.array r) => some r
  | _ => none

/-- Changes to the scopes let go of some values. -/
def rescope (b : Workbench α) (scopes : Scopes) (freed : List Value) : Workbench α :=
  Workbench.onHeap ⟨b.slots, scopes, b.handles, b.world⟩ (·.releaseAll freed)

/-- The values in the named slots; a name without a slot has none. -/
def values (b : Workbench α) (names : List String) : List Value := names.filterMap b.slot?

/-- Uses a copy of the value in a slot. -/
def withCopy (b : Workbench α) (slot : String)
    (f : Workbench α → Value → Finding × Workbench α) : Finding × Workbench α :=
  match b.slot? slot with
  | none => (.absent, b)
  | some v => f (b.onHeap (·.retain v)) v

def getItem (b : Workbench α) (slot : String) (index : Int64) (dest : Option String) :
    Finding × Workbench α :=
  match b.array? slot with
  | none => (.absent, b)
  | some r =>
    let items := b.heap.items r
    match position? index items.size with
    | none => (.absent, b)
    | some n => (b.onHeap (·.retain (items.getD n default))).deliver dest (items.getD n default)

/-- The element before passes from the array to the workbench. -/
def setItem (b : Workbench α) (slot : String) (index : Int64) (value : String)
    (dest : Option String) : Finding × Workbench α :=
  match b.array? slot, b.slot? value with
  | some r, some v =>
    let items := b.heap.items r
    match position? index items.size with
    | none => (.absent, b)
    | some n =>
      (b.onHeap fun h => (h.retain v).modifyItems r (·.setIfInBounds n v)).deliver dest
        (items.getD n default)
  | _, _ => (.absent, b)

def pushItem (b : Workbench α) (slot value : String) : Finding × Workbench α :=
  match b.array? slot, b.slot? value with
  | some r, some v => (.done, b.onHeap fun h => (h.retain v).modifyItems r (·.push v))
  | _, _ => (.absent, b)

def popItem (b : Workbench α) (slot : String) (dest : Option String) : Finding × Workbench α :=
  match b.array? slot with
  | none => (.absent, b)
  | some r => match (b.heap.items r).back? with
    | none => (.absent, b)
    | some v => (b.onHeap (·.modifyItems r Array.pop)).deliver dest v

def define (b : Workbench α) (handle : Nat) (name slot : String) : Finding × Workbench α :=
  b.withCopy slot fun b v => match b.scopes.define (b.place handle) name v with
    | none => (.failed (.redefinition name), b.onHeap (·.release v))
    | some (scopes, freed) => (.done, b.rescope scopes freed.toList)

def assign (b : Workbench α) (handle : Nat) (name slot : String) : Finding × Workbench α :=
  b.withCopy slot fun b v => match b.scopes.assign (b.place handle) name v with
    | none => (.failed (.undefinedName name), b.onHeap (·.release v))
    | some (scopes, freed) => (.done, b.rescope scopes freed.toList)

def bind (b : Workbench α) (handle : Nat) (name slot : String) : Finding × Workbench α :=
  b.withCopy slot fun b v => match b.scopes.bind (b.place handle) name v with
    | (scopes, freed) => (.done, b.rescope scopes freed.toList)

def lookup (b : Workbench α) (handle : Nat) (name : String) (dest : Option String) :
    Finding × Workbench α :=
  match b.scopes.lookup (b.place handle) name with
  | none => (.absent, b)
  | some v => (b.onHeap (·.retain v)).deliver dest v

def pushScope (b : Workbench α) (parent : Nat) : Finding × Workbench α :=
  match b.scopes.push (b.place parent) with
  | (id, scopes) =>
    (.opened b.handles.size id, ⟨b.slots, scopes, b.handles.push id, b.world⟩)

def popScope (b : Workbench α) (handle : Nat) : Finding × Workbench α :=
  match b.scopes.pop (b.place handle) with
  | (scopes, freed) => (.depth scopes.depth, b.rescope scopes freed)

def drop (b : Workbench α) (slot : String) : Finding × Workbench α :=
  match b.slot? slot with
  | none => (.dropped false, b)
  | some v =>
    (.dropped true,
      (Workbench.mk (b.slots.remove slot) b.scopes b.handles b.world).onHeap (·.release v))

def perform (b : Workbench α) : Operation α → Finding × Workbench α
  | .int i dest => b.deliver dest (.int i)
  | .string text dest => b.settle dest (b.world.newString text)
  | .array items dest => b.settle dest (b.world.newArray (b.values items))
  | .function d handle dest => b.settle dest (b.world.make (.function d (b.place handle)) .function)
  | .builtin name dest => b.deliver? dest ((Builtin.ofName? name).map .builtin)
  | .initial dest => b.deliver dest default
  | .copy slot dest => b.withCopy slot fun b v => b.deliver dest v
  | .drop slot => b.drop slot
  | .getItem slot index dest => b.getItem slot index dest
  | .setItem slot index value dest => b.setItem slot index value dest
  | .pushItem slot value => b.pushItem slot value
  | .popItem slot dest => b.popItem slot dest
  | .invoke f args dest => b.settle dest (f.invoke (b.values args) b.world)
  | .pushScope parent => b.pushScope parent
  | .popScope handle => b.popScope handle
  | .define handle name slot => b.define handle name slot
  | .assign handle name slot => b.assign handle name slot
  | .bind handle name slot => b.bind handle name slot
  | .lookup handle name dest => b.lookup handle name dest

/-- The world after the slots and the scopes are gone. -/
def close (b : Workbench α) : World α :=
  (b.onHeap (·.releaseAll (b.slots.values ++ b.scopes.values))).world

end Workbench

end Scriptlet
