import Scriptlet.Value

/-!
Nested scopes in one growing list. A scope names its parent by its place in the list, and scopes
are released from the end, so a place is good as long as whoever opened the scope is at work.
What an operation lets go of is handed back, so that its holder count can be put right.
-/

namespace Scriptlet

/-- Names and their values, every name once, in the order of their first binding. -/
abbrev Bindings := List (String × Value)

namespace Bindings

def find? (b : Bindings) (name : String) : Option Value := b.lookup name

/-- Binds a name, in place of its earlier value if it has one. -/
def set (name : String) (v : Value) : Bindings → Bindings
  | [] => [(name, v)]
  | (n, w) :: b => if n = name then (n, v) :: b else (n, w) :: set name v b

def remove (name : String) (b : Bindings) : Bindings := b.filter fun e => e.1 ≠ name

def values (b : Bindings) : List Value := b.map Prod.snd

end Bindings

structure Scope where
  bindings : Bindings
  parent : Option Nat
deriving DecidableEq, Inhabited

structure Scopes where
  arena : Array Scope
deriving DecidableEq

namespace Scopes

/-- The place of the scope that is always there. -/
def globalScope : Nat := 0

def initial : Scopes := ⟨#[⟨[], none⟩]⟩

def depth (s : Scopes) : Nat := s.arena.size

/-- Opens an empty scope below `parent`, at the end of the list. -/
def push (s : Scopes) (parent : Nat) : Nat × Scopes :=
  (s.arena.size, ⟨s.arena.push ⟨[], some parent⟩⟩)

/-- Closes a scope and all that were opened after it; the values they held are handed back. The
global scope stays. -/
def pop (s : Scopes) (id : Nat) : Scopes × List Value :=
  if id = globalScope then (s, [])
  else
    let freed := (s.arena.drop id).toList.flatMap fun f => f.bindings.values
    (⟨s.arena.shrink id⟩, freed)

/-- The value that `name` has in exactly this scope. -/
def find? (s : Scopes) (id : Nat) (name : String) : Option Value := do
  let f ← s.arena[id]?
  f.bindings.find? name

def defines (s : Scopes) (id : Nat) (name : String) : Bool := (s.find? id name).isSome

def modify (s : Scopes) (id : Nat) (f : Bindings → Bindings) : Scopes :=
  ⟨s.arena.modify id fun scope => ⟨f scope.bindings, scope.parent⟩⟩

/-- Binds a name in a scope, whether or not it is bound there. Handed back is the value that is
held no more: the earlier one, or the new one if there is no such scope. -/
def bind (s : Scopes) (id : Nat) (name : String) (v : Value) : Scopes × Option Value :=
  if id < s.depth then
    let previous := s.find? id name
    (s.modify id (Bindings.set name v), previous)
  else (s, some v)

/-- Follows at most `n` scopes, from `id` to its parent and on, to one that binds the name. -/
def resolveWithin (s : Scopes) (name : String) : Nat → Nat → Option Nat
  | 0, _ => none
  | n + 1, id => match s.arena[id]? with
    | none => none
    | some f =>
      if (f.bindings.find? name).isSome then some id
      else match f.parent with
        | none => none
        | some p => s.resolveWithin name n p

/-- The nearest scope that binds the name. A chain without repetition has no more scopes than
there are. A search along parents that form a circle has no end; to such a search there is no
answer, and `none` stands for it. -/
def resolve (s : Scopes) (id : Nat) (name : String) : Option Nat :=
  s.resolveWithin name s.depth id

def lookup (s : Scopes) (id : Nat) (name : String) : Option Value := do
  let r ← s.resolve id name
  s.find? r name

/-- Gives the nearest binding of a name a new value; the earlier one is handed back. Nothing
happens if the name is not bound. -/
def assign (s : Scopes) (id : Nat) (name : String) (v : Value) : Option (Scopes × Option Value) :=
  match s.resolve id name with
  | none => none
  | some owner => some (s.bind owner name v)

/-- Binds a name that is new in a scope; nothing happens if it is not. -/
def define (s : Scopes) (id : Nat) (name : String) (v : Value) : Option (Scopes × Option Value) :=
  if s.defines id name then none else some (s.bind id name v)

/-- All values held in any scope. -/
def values (s : Scopes) : List Value := s.arena.toList.flatMap fun f => f.bindings.values

end Scopes

end Scriptlet
