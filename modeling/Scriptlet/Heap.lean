import Scriptlet.Program
import Scriptlet.Value

/-!
Objects with reference counts. An object lives as long as somebody holds it: whoever stores or
hands on a value counts as one holder, an array holds its elements, and the last release frees
the object and releases what it held. Objects that hold each other in a circle are never freed.
-/

namespace Scriptlet

variable {α : Type}

inductive Object (α : Type)
  /-- A function with the index of the scope it was defined in. -/
  | function (d : FunctionDef α) (closure : Nat)
  | array (items : Array Value)
  | string (text : String)

/-- The values an object holds. -/
def Object.held : Object α → List Value
  | .array items => items.toList
  | _ => []

structure Cell (α : Type) where
  /-- How many holders the object has. -/
  count : Nat
  object : Object α

/-- Objects by the order of their making; a place is empty once its object was freed. -/
structure Heap (α : Type) where
  cells : Array (Option (Cell α))
  /-- How many objects live. -/
  live : Nat

namespace Heap

def empty : Heap α := ⟨#[], 0⟩

def cell? (h : Heap α) (r : Nat) : Option (Cell α) := h.cells[r]?.join

/-- A new object with one holder. -/
def alloc (h : Heap α) (o : Object α) : Nat × Heap α :=
  (h.cells.size, ⟨h.cells.push (some ⟨1, o⟩), h.live + 1⟩)

def modify (h : Heap α) (r : Nat) (f : Cell α → Cell α) : Heap α :=
  ⟨h.cells.modify r (Option.map f), h.live⟩

/-- The number of holders of the object behind a value. -/
def count? (h : Heap α) (v : Value) : Option Nat := do
  let r ← v.ref?
  let c ← h.cell? r
  return c.count

/-- One more holder of `v`. -/
def retain (h : Heap α) (v : Value) : Heap α :=
  match v.ref? with
  | none => h
  | some r => h.modify r fun c => ⟨c.count + 1, c.object⟩

def retainAll (h : Heap α) (vs : List Value) : Heap α := vs.foldl retain h

def free (h : Heap α) (r : Nat) : Heap α := ⟨h.cells.setIfInBounds r none, h.live - 1⟩

/-- One holder of `v` less: the heap, and the values that lost a holder with the object. -/
def unhold (h : Heap α) (v : Value) : Heap α × List Value :=
  match v.ref? with
  | none => (h, [])
  | some r => match h.cell? r with
    | none => (h, [])
    | some c =>
      if c.count ≤ 1 then (h.free r, c.object.held)
      else (h.modify r fun c => ⟨c.count - 1, c.object⟩, [])

/-- How many values the object in a place holds. -/
def cellWeight (c : Option (Cell α)) : Nat := (c.map fun c => c.object.held.length).getD 0

/-- How many values the objects in some places hold together. -/
def cellsWeight : List (Option (Cell α)) → Nat
  | [] => 0
  | c :: cs => cellWeight c + cellsWeight cs

/-- How many values all objects together hold. -/
def weight (h : Heap α) : Nat := cellsWeight h.cells.toList

theorem cellsWeight_set {cs : List (Option (Cell α))} {i : Nat} {c : Option (Cell α)}
    (d : Option (Cell α)) (h : cs[i]? = some c) :
    cellsWeight (cs.set i d) + cellWeight c = cellsWeight cs + cellWeight d := by
  induction cs generalizing i with
  | nil => simp at h
  | cons x xs ih =>
    cases i with
    | zero =>
      simp only [List.getElem?_cons_zero, Option.some.injEq] at h
      subst h
      simp only [List.set_cons_zero, cellsWeight]
      omega
    | succ i =>
      have hh := ih (by simpa using h)
      simp only [List.set_cons_succ, cellsWeight]
      omega

theorem cells_of_cell? {h : Heap α} {r : Nat} {c : Cell α} (hc : h.cell? r = some c) :
    h.cells.toList[r]? = some (some c) := by
  rw [cell?, Option.join_eq_some_iff] at hc
  rw [Array.getElem?_toList]
  exact hc

theorem weight_free {h : Heap α} {r : Nat} {c : Cell α} (hc : h.cell? r = some c) :
    (h.free r).weight + c.object.held.length = h.weight := by
  have hh := cellsWeight_set none (cells_of_cell? hc)
  simpa [weight, free, cellWeight] using hh

theorem weight_modify {h : Heap α} {r : Nat} {f : Cell α → Cell α}
    (hf : ∀ c, (f c).object = c.object) : (h.modify r f).weight = h.weight := by
  have hmap : ∀ c, cellWeight (Option.map f c) = cellWeight c := by
    intro c
    cases c <;> simp [cellWeight, hf]
  simp only [weight, modify]
  rw [Array.toList_modify]
  generalize h.cells.toList = cs
  induction cs generalizing r with
  | nil => simp
  | cons c cs ih =>
    cases r with
    | zero => simp [cellsWeight, hmap]
    | succ r => simp [cellsWeight, ih]

theorem weight_unhold (h : Heap α) (v : Value) :
    (h.unhold v).1.weight + (h.unhold v).2.length = h.weight := by
  unfold unhold
  split
  · rfl
  split
  · rfl
  rename_i r _ _ c hc
  split
  · exact weight_free hc
  · have hh : (h.modify r fun c => ⟨c.count - 1, c.object⟩).weight = h.weight :=
      weight_modify fun _ => rfl
    simpa using hh

/-- Every value of the list loses one holder, and so does all that is freed with it. -/
def releaseAll (h : Heap α) : List Value → Heap α
  | [] => h
  | v :: vs =>
    let freed := h.unhold v
    releaseAll freed.1 (freed.2 ++ vs)
termination_by vs => h.weight + vs.length
decreasing_by
  have hw := h.weight_unhold v
  simp only [List.length_append, List.length_cons]
  omega

def release (h : Heap α) (v : Value) : Heap α := h.releaseAll [v]

def function? (h : Heap α) (r : Nat) : Option (FunctionDef α × Nat) :=
  match h.cell? r with
  | some ⟨_, .function d closure⟩ => some (d, closure)
  | _ => none

def items? (h : Heap α) (r : Nat) : Option (Array Value) :=
  match h.cell? r with
  | some ⟨_, .array items⟩ => some items
  | _ => none

def text? (h : Heap α) (r : Nat) : Option String :=
  match h.cell? r with
  | some ⟨_, .string text⟩ => some text
  | _ => none

/-- The elements of an array; none where there is no array. -/
def items (h : Heap α) (r : Nat) : Array Value := (h.items? r).getD #[]

def text (h : Heap α) (r : Nat) : String := (h.text? r).getD ""

/-- Changes the elements of an array without a word about their holders. -/
def modifyItems (h : Heap α) (r : Nat) (f : Array Value → Array Value) : Heap α :=
  h.modify r fun c => match c with
    | ⟨n, .array items⟩ => ⟨n, .array (f items)⟩
    | c => c

end Heap

end Scriptlet
