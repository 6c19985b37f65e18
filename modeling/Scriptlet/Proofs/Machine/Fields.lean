import Scriptlet.Machine

/-!
The parts of a state after each elementary change, so that proofs about a step need not open the
changes it is made of.
-/

namespace Scriptlet

namespace State

variable {α : Type} (s : State α)

@[simp] theorem stack_pushFrame (f : Frame α) : (s.pushFrame f).stack = f :: s.stack := rfl
@[simp] theorem scopes_pushFrame (f : Frame α) : (s.pushFrame f).scopes = s.scopes := rfl

@[simp] theorem control_enter (p : Nat) (c : Nat → Control α) :
    (s.enter p c).control = c s.scopes.depth := rfl
@[simp] theorem stack_enter (p : Nat) (c : Nat → Control α) :
    (s.enter p c).stack = .leave s.scopes.depth :: s.stack := rfl
@[simp] theorem scopes_enter (p : Nat) (c : Nat → Control α) :
    (s.enter p c).scopes = (s.scopes.push p).2 := rfl
@[simp] theorem depth_enter (p : Nat) (c : Nat → Control α) : (s.enter p c).depth = s.depth := rfl

@[simp] theorem control_closeScope (id : Nat) : (s.closeScope id).control = s.control := rfl
@[simp] theorem stack_closeScope (id : Nat) : (s.closeScope id).stack = s.stack := rfl
@[simp] theorem scopes_closeScope (id : Nat) : (s.closeScope id).scopes = (s.scopes.pop id).1 := rfl
@[simp] theorem depth_closeScope (id : Nat) : (s.closeScope id).depth = s.depth := rfl

@[simp] theorem control_closeCall (id ref : Nat) : (s.closeCall id ref).control = s.control := rfl
@[simp] theorem stack_closeCall (id ref : Nat) : (s.closeCall id ref).stack = s.stack := rfl
@[simp] theorem scopes_closeCall (id ref : Nat) :
    (s.closeCall id ref).scopes = (s.scopes.pop id).1 := rfl
@[simp] theorem depth_closeCall (id ref : Nat) : (s.closeCall id ref).depth = s.depth - 1 := rfl

@[simp] theorem releaseAll_nil : s.releaseAll [] = s := by
  have hnil : s.world.heap.releaseAll [] = s.world.heap := by rw [Heap.releaseAll]
  change State.mk _ _ _ _ ⟨s.world.heap.releaseAll [], _, _⟩ = _
  rw [hnil]

@[simp] theorem release_int (i : Int64) : s.release (.int i) = s := by
  have hint : s.world.heap.releaseAll [.int i] = s.world.heap := by
    rw [Heap.releaseAll]
    change s.world.heap.releaseAll [] = _
    rw [Heap.releaseAll]
  change State.mk _ _ _ _ ⟨s.world.heap.releaseAll [.int i], _, _⟩ = _
  rw [hint]

variable (id : Nat) (name : String) (v : Value)

@[simp] theorem stack_bind : (s.bind id name v).stack = s.stack := rfl
@[simp] theorem scopes_bind : (s.bind id name v).scopes = (s.scopes.bind id name v).1 := rfl
@[simp] theorem depth_bind : (s.bind id name v).depth = s.depth := rfl

variable (d : FunctionDef α)

/-- The state with one more scope, below `parent`. -/
def openScope (parent : Nat) : State α :=
  ⟨s.control, s.stack, (s.scopes.push parent).2, s.depth, s.world⟩

/-- The state in which the parameters of a call are bound. -/
def withParams (closure : Nat) (args : List Value) : State α :=
  (s.openScope closure).bindParams s.scopes.depth d.params args

theorem callFunction_eq (ref closure : Nat) (args : List Value) :
    s.callFunction ref d closure args =
      ⟨.block (s.withParams d closure args).scopes.depth d.body (.int 0),
        .finish s.scopes.depth ref :: (s.withParams d closure args).stack,
        ((s.withParams d closure args).scopes.push s.scopes.depth).2,
        (s.withParams d closure args).depth + 1, (s.withParams d closure args).world⟩ := rfl

theorem bindParams_cons (id : Nat) (p : Identifier α) (params : List (Identifier α)) (v : Value)
    (args : List Value) :
    s.bindParams id (p :: params) (v :: args) =
      (s.bind id p.name v).bindParams id params args := rfl

theorem callBuiltin_eq (b : Builtin) (args : List Value) (l : α) :
    s.callBuiltin b args l =
      match (b.invoke args s.world).1 with
      | .ok v => (releaseAll ⟨s.control, s.stack, s.scopes, s.depth,
          (b.invoke args s.world).2⟩ args).give v
      | .error c => (releaseAll ⟨s.control, s.stack, s.scopes, s.depth,
          (b.invoke args s.world).2⟩ args).failAt l c := rfl

end State

end Scriptlet
