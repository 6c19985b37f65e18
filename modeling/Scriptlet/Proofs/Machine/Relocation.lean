import Scriptlet.Proofs.Builtin.Relocation
import Scriptlet.Proofs.Machine.Runs

/-!
Runs with other locations, and on an input from which the same integers are read. Every step of the
one is a step of the other, so locations never have a say in what is done.
-/

namespace Scriptlet

variable {α β : Type}

section

variable (g : α → β)

def Callee.map : Callee α → Callee β
  | .builtin b => .builtin b
  | .function ref d closure => .function ref (d.map g) closure

def Frame.map : Frame α → Frame β
  | .assign scope target => .assign scope (target.map g)
  | .leftOperand scope op right l => .leftOperand scope op (right.map g) (g l)
  | .rightOperand op left l => .rightOperand op left (g l)
  | .arguments scope callee done rest l =>
    .arguments scope (callee.map g) done (Expr.mapArgs g rest) (g l)
  | .leave scope => .leave scope
  | .finish scope ref => .finish scope ref
  | .branch scope l thenBlock elseBlock =>
    .branch scope (g l) (Stmt.mapBlock g thenBlock) (Stmt.mapElse g elseBlock)
  | .discard => .discard
  | .test scope cond body => .test scope (cond.map g) (Stmt.mapBlock g body)
  | .again scope cond body => .again scope (cond.map g) (Stmt.mapBlock g body)
  | .next scope rest => .next scope (Stmt.mapBlock g rest)
  | .nextItem rest => .nextItem (rest.map (Item.map g))

def Control.map : Control α → Control β
  | .eval scope e => .eval scope (e.map g)
  | .exec scope s => .exec scope (s.map g)
  | .block scope rest last => .block scope (Stmt.mapBlock g rest) last
  | .items rest last => .items (rest.map (Item.map g)) last
  | .loop scope cond body => .loop scope (cond.map g) (Stmt.mapBlock g body)
  | .arguments scope callee done rest l =>
    .arguments scope (callee.map g) done (Expr.mapArgs g rest) (g l)
  | .apply callee args l => .apply (callee.map g) args (g l)
  | .give v => .give v
  | .fail e => .fail (e.map g)

theorem Frame.held_map (f : Frame α) : (f.map g).held = f.held := by
  cases f with
  | arguments scope callee done rest l => cases callee <;> rfl
  | _ => rfl

end

namespace State

variable (τ : Transport α β) (s : State α)

def transport : State β :=
  ⟨s.control.map τ.place, s.stack.map (Frame.map τ.place), s.scopes, s.depth,
    s.world.transport τ⟩

/-! ### Elementary changes -/

theorem retain_transport (v : Value) :
    (s.transport τ).retain v = (s.retain v).transport τ := by
  simp only [retain, onHeap, transport, World.transport, Heap.retain_map]

theorem releaseAll_transport (vs : List Value) :
    (s.transport τ).releaseAll vs = (s.releaseAll vs).transport τ := by
  simp only [releaseAll, onHeap, transport, World.transport, Heap.releaseAll_map]

theorem release_transport (v : Value) :
    (s.transport τ).release v = (s.release v).transport τ := releaseAll_transport τ s [v]

theorem bind_transport (id : Nat) (name : String) (v : Value) :
    (s.transport τ).bind id name v = (s.bind id name v).transport τ :=
  releaseAll_transport τ ⟨s.control, s.stack, (s.scopes.bind id name v).1, s.depth, s.world⟩ _

theorem closeScope_transport (id : Nat) :
    (s.transport τ).closeScope id = (s.closeScope id).transport τ :=
  releaseAll_transport τ ⟨s.control, s.stack, (s.scopes.pop id).1, s.depth, s.world⟩ _

theorem closeCall_transport (id ref : Nat) :
    (s.transport τ).closeCall id ref = (s.closeCall id ref).transport τ := by
  have hrelease := release_transport τ ⟨s.control, s.stack, (s.closeScope id).scopes, s.depth - 1,
    (s.closeScope id).world⟩ (.function ref)
  unfold closeCall
  rw [closeScope_transport]
  exact hrelease

theorem make_transport (o : Object α) (value : Nat → Value) :
    (s.transport τ).make (o.map τ.place) value = (s.make o value).transport τ := by
  have halloc := s.world.heap.alloc_map τ.place o
  simp only [make, transport, World.transport, halloc]
  rfl

theorem defineFunction_transport (d : FunctionDef α) :
    (s.transport τ).defineFunction (d.map τ.place) = (s.defineFunction d).transport τ := by
  have halloc := s.world.heap.alloc_map τ.place (.function d Scopes.globalScope)
  simp only [Object.map] at halloc
  simp only [defineFunction, transport, World.transport, halloc]
  exact bind_transport τ (s.onHeap fun h => (h.alloc (.function d Scopes.globalScope)).2) _ _ _

/-! ### Calls -/

theorem bindParams_transport (id : Nat) (params : List (Identifier α)) (args : List Value) :
    (s.transport τ).bindParams id (params.map (Identifier.map τ.place)) args =
      (s.bindParams id params args).transport τ := by
  induction params generalizing s args with
  | nil => rfl
  | cons p params ih =>
    cases args with
    | nil => rfl
    | cons v args =>
      rw [List.map_cons, bindParams_cons, bindParams_cons, ← ih, ← bind_transport]
      rfl

theorem callFunction_transport (ref closure : Nat) (d : FunctionDef α) (args : List Value) :
    (s.transport τ).callFunction ref (d.map τ.place) closure args =
      (s.callFunction ref d closure args).transport τ := by
  have hparams : (s.transport τ).withParams (d.map τ.place) closure args =
      (s.withParams d closure args).transport τ :=
    bindParams_transport τ (s.openScope closure) s.scopes.depth d.params args
  rw [callFunction_eq, callFunction_eq, hparams]
  rfl

theorem callBuiltin_transport (b : Builtin) (args : List Value) (l : α) :
    (s.transport τ).callBuiltin b args (τ.place l) = (s.callBuiltin b args l).transport τ := by
  have hinvoke := b.invoke_transport τ args s.world
  have hrelease := releaseAll_transport τ
    ⟨s.control, s.stack, s.scopes, s.depth, (b.invoke args s.world).2⟩ args
  change b.invoke args (s.transport τ).world = _ at hinvoke
  rw [callBuiltin_eq, callBuiltin_eq, hinvoke]
  simp only [World.Answer.transport]
  cases (b.invoke args s.world).1 with
  | ok v => exact congrArg (State.give · v) hrelease
  | error cause => exact congrArg (State.failAt · (τ.place l) cause) hrelease

theorem applyCallee_transport (limit : Nat) (callee : Callee α) (args : List Value) (l : α) :
    (s.transport τ).applyCallee limit (callee.map τ.place) args (τ.place l) =
      (s.applyCallee limit callee args l).transport τ := by
  cases callee with
  | builtin b => exact callBuiltin_transport τ s b args l
  | function ref d closure =>
    have hrelease := releaseAll_transport τ s (.function ref :: args)
    have hdepth : (s.transport τ).depth = s.depth := rfl
    simp only [applyCallee, Callee.map, hdepth]
    split
    · exact congrArg (State.failAt · (τ.place l) (.callDepthExceeded limit)) hrelease
    · exact callFunction_transport τ s ref closure d args

/-! ### What the parts of a program set out to do -/

theorem call_transport (scope : Nat) (callee : Identifier α) (args : List (Expr α)) (l : α) :
    (s.transport τ).call scope (callee.map τ.place) (Expr.mapArgs τ.place args) (τ.place l) =
      (s.call scope callee args l).transport τ := by
  have hscopes : (s.transport τ).scopes = s.scopes := rfl
  have hfunction := s.world.heap.function?_map τ.place
  change ∀ r, (s.transport τ).world.heap.function? r = _ at hfunction
  simp only [call, hscopes, Identifier.map, Expr.length_mapArgs]
  split
  · rfl
  · rfl
  · rename_i r _
    rw [hfunction]
    cases s.world.heap.function? r with
    | none => rfl
    | some found =>
      obtain ⟨d, closure⟩ := found
      have harity : (d.map τ.place).arity = d.arity := List.length_map _
      simp only [Option.map_some, harity]
      split
      · rfl
      · exact congrArg (State.become · _) (retain_transport τ s (.function r))
  · rfl

theorem eval_transport (scope : Nat) (e : Expr α) :
    (s.transport τ).eval scope (e.map τ.place) = (s.eval scope e).transport τ := by
  cases e with
  | integer text l =>
    simp only [eval, Expr.map]
    split <;> rfl
  | string value l => exact make_transport τ s (.string value) .string
  | reference id =>
    have hscopes : (s.transport τ).scopes = s.scopes := rfl
    simp only [eval, Expr.map, Identifier.map, hscopes]
    split
    · exact congrArg (State.give · _) (retain_transport τ s _)
    · rfl
  | assign target value l => rfl
  | binary op left right l => rfl
  | callAt callee args l => exact call_transport τ s scope callee args l

theorem exec_transport (scope : Nat) (st : Stmt α) :
    (s.transport τ).exec scope (st.map τ.place) = (s.exec scope st).transport τ := by
  cases st with
  | declare id l =>
    have hscopes : (s.transport τ).scopes = s.scopes := rfl
    simp only [exec, Stmt.map, Identifier.map, hscopes]
    split
    · rfl
    · exact congrArg (State.give · (.int 0)) (bind_transport τ s scope id.name (.int 0))
  | branch cond thenBlock elseBlock l =>
    simp only [exec, Stmt.map, Expr.location_map]
    rfl
  | loop cond body l => rfl
  | expr e => rfl

/-! ### How answers reach the frames -/

theorem refuse_transport (v : Value) (l : α) (cause : Cause) :
    ((s.transport τ).release v).failAt (τ.place l) cause =
      ((s.release v).failAt l cause).transport τ :=
  congrArg (State.failAt · (τ.place l) cause) (release_transport τ s v)

theorem resume_transport (v : Value) (f : Frame α) :
    (s.transport τ).resume v (f.map τ.place) = (s.resume v f).transport τ := by
  have hscopes : (s.transport τ).scopes = s.scopes := rfl
  cases f with
  | assign scope target =>
    simp only [resume, Frame.map, Identifier.map, hscopes]
    split
    · exact refuse_transport τ s v _ _
    · rw [retain_transport, bind_transport]
      rfl
  | leftOperand scope op right l =>
    cases v with
    | int a =>
      simp only [resume, Frame.map]
      split <;> rfl
    | _ => exact refuse_transport τ s _ _ _
  | rightOperand op a l =>
    cases v with
    | int b =>
      simp only [resume, Frame.map]
      split <;> rfl
    | _ => exact refuse_transport τ s _ _ _
  | arguments scope callee done rest l => rfl
  | leave scope => exact closeScope_transport τ s scope
  | finish scope ref => exact closeCall_transport τ s scope ref
  | branch scope l thenBlock elseBlock =>
    cases v with
    | int i =>
      simp only [resume, Frame.map]
      split
      · rfl
      · cases elseBlock <;> rfl
    | _ => exact refuse_transport τ s _ _ _
  | discard => exact congrArg (State.give · (.int 0)) (release_transport τ s v)
  | test scope cond body =>
    cases v with
    | int i =>
      simp only [resume, Frame.map]
      split <;> rfl
    | _ =>
      simp only [resume, Frame.map, Expr.location_map]
      exact refuse_transport τ s _ _ _
  | again scope cond body =>
    exact congrArg (State.become · (.loop scope (cond.map τ.place) (Stmt.mapBlock τ.place body)))
      (release_transport τ s v)
  | next scope rest => rfl
  | nextItem rest => rfl

theorem unwind_transport (f : Frame α) :
    (s.transport τ).unwind (f.map τ.place) = (s.unwind f).transport τ := by
  have hrelease : (s.transport τ).releaseAll (f.map τ.place).held =
      (s.releaseAll f.held).transport τ := by
    rw [Frame.held_map, releaseAll_transport]
  cases f with
  | leave scope => exact closeScope_transport τ s scope
  | finish scope ref => exact closeCall_transport τ s scope ref
  | _ => exact hrelease

/-! ### Steps and runs -/

theorem step_transport (limit : Nat) :
    (s.transport τ).step limit = (s.step limit).transport τ := by
  have hrelease := release_transport τ s
  obtain ⟨control, stack, scopes, depth, world⟩ := s
  cases control with
  | eval scope e => exact eval_transport τ _ scope e
  | exec scope st => exact exec_transport τ _ scope st
  | block scope rest last =>
    cases rest with
    | nil => rfl
    | cons st rest => exact congrArg (State.await · _ _) (hrelease last)
  | items rest last =>
    cases rest with
    | nil => rfl
    | cons item rest =>
      cases item with
      | function d =>
        have hdefine := defineFunction_transport τ
          (State.release ⟨.items (.function d :: rest) last, stack, scopes, depth, world⟩ last) d
        rw [← hrelease] at hdefine
        exact congrArg (State.become · _) hdefine
      | stmt st => exact congrArg (State.await · _ _) (hrelease last)
  | loop scope cond body => rfl
  | arguments scope callee done rest l => cases rest <;> rfl
  | apply callee args l => exact applyCallee_transport τ _ limit callee args l
  | give v =>
    cases stack with
    | nil => rfl
    | cons f k => exact resume_transport τ ⟨.give v, k, scopes, depth, world⟩ v f
  | fail e =>
    cases stack with
    | nil => rfl
    | cons f k => exact unwind_transport τ ⟨.fail e, k, scopes, depth, world⟩ f

theorem outcome?_transport :
    (s.transport τ).outcome? = s.outcome?.map (·.mapError (EvalError.map τ.place)) := by
  obtain ⟨control, stack, scopes, depth, world⟩ := s
  cases stack with
  | nil => cases control <;> rfl
  | cons f k => cases control <;> rfl

/-- A run and its transport end after the same number of steps, if they end, and in the same way. -/
theorem run_transport (limit fuel : Nat) :
    (s.transport τ).run limit fuel = (s.run limit fuel).map fun (r, t) =>
      (r.mapError (EvalError.map τ.place), t.transport τ) :=
  run_eq_map (outcome?_transport τ) (fun u _ => step_transport τ u limit) fuel

end State

end Scriptlet
