import Scriptlet.Builtin
import Scriptlet.Scopes

/-!
Running a program step by step. The control says what is being done, the stack what waits for its
value. A value on its way is held by the control or by a frame; when a failure passes a frame, all
the frame held is released and the scope it was to close is closed.
-/

namespace Scriptlet

variable {α : Type}

namespace BinaryOp

/-- The result that the left operand alone decides. -/
def shortcut? : BinaryOp → Int64 → Option Int64
  | .and, a => if a = 0 then some 0 else none
  | .or, a => if a = 0 then none else some 1
  | _, _ => none

def ofBool (b : Bool) : Int64 := if b then 1 else 0

/-- The result of both operands, modulo 2^64; division by zero has none. -/
def compute? : BinaryOp → Int64 → Int64 → Option Int64
  | .add, a, b => some (a + b)
  | .sub, a, b => some (a - b)
  | .mul, a, b => some (a * b)
  | .div, a, b => if b = 0 then none else some (a / b)
  | .less, a, b => some (ofBool (a < b))
  | .lessEqual, a, b => some (ofBool (a ≤ b))
  | .greater, a, b => some (ofBool (b < a))
  | .greaterEqual, a, b => some (ofBool (b ≤ a))
  | .equal, a, b => some (ofBool (a = b))
  | .notEqual, a, b => some (ofBool (a ≠ b))
  | .and, _, b => some (ofBool (b ≠ 0))
  | .or, _, b => some (ofBool (b ≠ 0))

end BinaryOp

/-- What is being called. A user function is held until its call ends. -/
inductive Callee (α : Type)
  | builtin (b : Builtin)
  | function (ref : Nat) (d : FunctionDef α) (closure : Nat)

/-- The value that a callee is held by. -/
def Callee.held : Callee α → List Value
  | .builtin _ => []
  | .function ref _ _ => [.function ref]

/-- What waits for a value. -/
inductive Frame (α : Type)
  | assign (scope : Nat) (target : Identifier α)
  | leftOperand (scope : Nat) (op : BinaryOp) (right : Expr α) (location : α)
  | rightOperand (op : BinaryOp) (left : Int64) (location : α)
  /-- Some arguments have been evaluated, one is being evaluated, others follow. -/
  | arguments (scope : Nat) (callee : Callee α) (done : List Value) (rest : List (Expr α))
    (location : α)
  /-- Closes a scope. -/
  | leave (scope : Nat)
  /-- Ends the call of a user function, closing its scopes. -/
  | finish (scope : Nat) (ref : Nat)
  | branch (scope : Nat) (location : α) (thenBlock : List (Stmt α))
    (elseBlock : Option (List (Stmt α)))
  /-- The value of a block does not matter. -/
  | discard
  | test (scope : Nat) (cond : Expr α) (body : List (Stmt α))
  | again (scope : Nat) (cond : Expr α) (body : List (Stmt α))
  | next (scope : Nat) (rest : List (Stmt α))
  | nextItem (rest : List (Item α))

/-- The values that a frame holds. -/
def Frame.held : Frame α → List Value
  | .arguments _ callee done _ _ => callee.held ++ done
  | .finish _ ref => [.function ref]
  | _ => []

/-- What is being done. -/
inductive Control (α : Type)
  | eval (scope : Nat) (e : Expr α)
  | exec (scope : Nat) (s : Stmt α)
  /-- The value of the statement before is held until the next one starts. -/
  | block (scope : Nat) (rest : List (Stmt α)) (last : Value)
  | items (rest : List (Item α)) (last : Value)
  | loop (scope : Nat) (cond : Expr α) (body : List (Stmt α))
  | arguments (scope : Nat) (callee : Callee α) (done : List Value) (rest : List (Expr α))
    (location : α)
  | apply (callee : Callee α) (args : List Value) (location : α)
  | give (v : Value)
  | fail (e : EvalError α)

/-- The values that the control holds. -/
def Control.held : Control α → List Value
  | .block _ _ last => [last]
  | .items _ last => [last]
  | .arguments _ callee done _ _ => callee.held ++ done
  | .apply callee args _ => callee.held ++ args
  | .give v => [v]
  | _ => []

structure State (α : Type) where
  control : Control α
  stack : List (Frame α)
  scopes : Scopes
  /-- How many bodies of user functions are being run. -/
  depth : Nat
  world : World α

namespace State

def become (s : State α) (c : Control α) : State α :=
  match s with
  | ⟨_, k, scopes, depth, world⟩ => ⟨c, k, scopes, depth, world⟩

def pushFrame (s : State α) (f : Frame α) : State α :=
  match s with
  | ⟨c, k, scopes, depth, world⟩ => ⟨c, f :: k, scopes, depth, world⟩

/-- Goes on with `c`; its value is awaited by `f`. -/
def await (s : State α) (f : Frame α) (c : Control α) : State α := (s.pushFrame f).become c

def give (s : State α) (v : Value) : State α := s.become (.give v)

def failAt (s : State α) (location : α) (c : Cause) : State α := s.become (.fail ⟨c, some location⟩)

def onHeap (s : State α) (f : Heap α → Heap α) : State α :=
  match s with
  | ⟨c, k, scopes, depth, ⟨heap, input, sink⟩⟩ => ⟨c, k, scopes, depth, ⟨f heap, input, sink⟩⟩

def retain (s : State α) (v : Value) : State α := s.onHeap (·.retain v)

def releaseAll (s : State α) (vs : List Value) : State α := s.onHeap (·.releaseAll vs)

def release (s : State α) (v : Value) : State α := s.releaseAll [v]

/-- Goes on with `c` in a new scope below `parent`, which is closed when its value arrives. -/
def enter (s : State α) (parent : Nat) (c : Nat → Control α) : State α :=
  match s with
  | ⟨_, k, scopes, depth, world⟩ => match scopes.push parent with
    | (id, scopes) => ⟨c id, .leave id :: k, scopes, depth, world⟩

def closeScope (s : State α) (id : Nat) : State α :=
  match s with
  | ⟨c, k, scopes, depth, world⟩ => match scopes.pop id with
    | (scopes, freed) => State.releaseAll ⟨c, k, scopes, depth, world⟩ freed

/-- Closes the scopes of a call and lets go of the function. -/
def closeCall (s : State α) (scope ref : Nat) : State α :=
  match s.closeScope scope with
  | ⟨c, k, scopes, depth, world⟩ =>
    State.release ⟨c, k, scopes, depth - 1, world⟩ (.function ref)

def bind (s : State α) (scope : Nat) (name : String) (v : Value) : State α :=
  match s with
  | ⟨c, k, scopes, depth, world⟩ => match scopes.bind scope name v with
    | (scopes, freed) => State.releaseAll ⟨c, k, scopes, depth, world⟩ freed.toList

/-- A new object; the value of it comes next. -/
def make (s : State α) (o : Object α) (value : Nat → Value) : State α :=
  match s with
  | ⟨_, k, scopes, depth, ⟨heap, input, sink⟩⟩ => match heap.alloc o with
    | (r, heap) => ⟨.give (value r), k, scopes, depth, ⟨heap, input, sink⟩⟩

/-- Finds out what is called. A name without a value fails at the name, all else at the call. The
arity of a user function is checked before any argument is evaluated. -/
def call (s : State α) (scope : Nat) (callee : Identifier α) (args : List (Expr α)) (l : α) :
    State α :=
  match s.scopes.lookup scope callee.name with
  | none => s.failAt callee.location (.undefinedName callee.name)
  | some (.builtin b) => s.become (.arguments scope (.builtin b) [] args l)
  | some (.function r) => match s.world.heap.function? r with
    | none => s.failAt l (.notCallable callee.name .function)
    | some (d, closure) =>
      if args.length ≠ d.arity then
        s.failAt l (.arityMismatch d.name d.arity args.length)
      else
        (s.retain (.function r)).become (.arguments scope (.function r d closure) [] args l)
  | some v => s.failAt l (.notCallable callee.name v.kind)

def eval (s : State α) (scope : Nat) : Expr α → State α
  | .integer text l => match Decimal.int64? text.toList with
    | some i => s.give (.int i)
    | none => s.failAt l (.integerLiteral text)
  | .string value _ => s.make (.string value) .string
  | .reference id => match s.scopes.lookup scope id.name with
    | some v => (s.retain v).give v
    | none => s.failAt id.location (.undefinedName id.name)
  | .assign target value _ => s.await (.assign scope target) (.eval scope value)
  | .binary op left right l => s.await (.leftOperand scope op right l) (.eval scope left)
  | .callAt callee args l => s.call scope callee args l

def exec (s : State α) (scope : Nat) : Stmt α → State α
  | .declare id l =>
    if s.scopes.defines scope id.name then s.failAt l (.redefinition id.name)
    else (s.bind scope id.name (.int 0)).give (.int 0)
  | .branch cond thenBlock elseBlock _ =>
    s.await (.branch scope cond.location thenBlock elseBlock) (.eval scope cond)
  | .loop cond body _ => s.become (.loop scope cond body)
  | .expr e => s.become (.eval scope e)

/-- Makes a function of a definition and binds it in the global scope. -/
def defineFunction (s : State α) (d : FunctionDef α) : State α :=
  match s with
  | ⟨c, k, scopes, depth, ⟨heap, input, sink⟩⟩ =>
    match heap.alloc (.function d Scopes.globalScope) with
    | (r, heap) =>
      State.bind ⟨c, k, scopes, depth, ⟨heap, input, sink⟩⟩ Scopes.globalScope d.name (.function r)

def bindParams (s : State α) (scope : Nat) (params : List (Identifier α)) (args : List Value) :
    State α :=
  (params.zip args).foldl (fun s p => s.bind scope p.1.name p.2) s

/-- Runs the body of a user function: its parameters are bound in a scope below the one of the
definition, its statements run in a scope below that. -/
def callFunction (s : State α) (ref : Nat) (d : FunctionDef α) (closure : Nat)
    (args : List Value) : State α :=
  match s with
  | ⟨c, k, scopes, depth, world⟩ => match scopes.push closure with
    | (frame, scopes) =>
      match State.bindParams ⟨c, k, scopes, depth, world⟩ frame d.params args with
      | ⟨_, k, scopes, depth, world⟩ => match scopes.push frame with
        | (body, scopes) =>
          ⟨.block body d.body (.int 0), .finish frame ref :: k, scopes, depth + 1, world⟩

def callBuiltin (s : State α) (b : Builtin) (args : List Value) (l : α) : State α :=
  match s with
  | ⟨c, k, scopes, depth, world⟩ => match b.invoke args world with
    | (answer, world) =>
      let s := State.releaseAll ⟨c, k, scopes, depth, world⟩ args
      match answer with
      | .ok v => s.give v
      | .error cause => s.failAt l cause

def applyCallee (limit : Nat) (s : State α) (callee : Callee α) (args : List Value) (l : α) :
    State α :=
  match callee with
  | .builtin b => s.callBuiltin b args l
  | .function ref d closure =>
    if limit ≤ s.depth then
      (s.releaseAll (.function ref :: args)).failAt l (.callDepthExceeded limit)
    else s.callFunction ref d closure args

/-- A value reaches the frame that waited for it; the frame is off the stack. -/
def resume (s : State α) (v : Value) : Frame α → State α
  | .assign scope target => match s.scopes.resolve scope target.name with
    | none => (s.release v).failAt target.location (.undefinedName target.name)
    | some owner => ((s.retain v).bind owner target.name v).give v
  | .leftOperand scope op right l => match v with
    | .int a => match op.shortcut? a with
      | some i => s.give (.int i)
      | none => s.await (.rightOperand op a l) (.eval scope right)
    | v => (s.release v).failAt l (.nonNumericOperand op v.kind)
  | .rightOperand op a l => match v with
    | .int b => match op.compute? a b with
      | some i => s.give (.int i)
      | none => s.failAt l .divisionByZero
    | v => (s.release v).failAt l (.nonNumericOperand op v.kind)
  | .arguments scope callee done rest l =>
    s.become (.arguments scope callee (done ++ [v]) rest l)
  | .leave scope => s.closeScope scope
  | .finish scope ref => s.closeCall scope ref
  | .branch scope l thenBlock elseBlock => match v with
    | .int i =>
      if i ≠ 0 then (s.pushFrame .discard).enter scope (.block · thenBlock (.int 0))
      else match elseBlock with
        | none => s.give (.int 0)
        | some ss => (s.pushFrame .discard).enter scope (.block · ss (.int 0))
    | v => (s.release v).failAt l (.nonNumericCondition v.kind)
  | .discard => (s.release v).give (.int 0)
  | .test scope cond body => match v with
    | .int i =>
      if i ≠ 0 then
        (s.pushFrame (.again scope cond body)).enter scope (.block · body (.int 0))
      else s.give (.int 0)
    | v => (s.release v).failAt cond.location (.nonNumericCondition v.kind)
  | .again scope cond body => (s.release v).become (.loop scope cond body)
  | .next scope rest => s.become (.block scope rest v)
  | .nextItem rest => s.become (.items rest v)

/-- A failure passes a frame; the frame is off the stack. -/
def unwind (s : State α) : Frame α → State α
  | .leave scope => s.closeScope scope
  | .finish scope ref => s.closeCall scope ref
  | f => s.releaseAll f.held

/-- One step. A value or a failure without a frame to go to stays as it is. -/
def step (limit : Nat) (s : State α) : State α :=
  match s.control with
  | .eval scope e => s.eval scope e
  | .exec scope st => s.exec scope st
  | .block _ [] last => s.give last
  | .block scope (st :: rest) last =>
    (s.release last).await (.next scope rest) (.exec scope st)
  | .items [] last => s.give last
  | .items (.function d :: rest) last =>
    ((s.release last).defineFunction d).become (.items rest (.int 0))
  | .items (.stmt st :: rest) last =>
    (s.release last).await (.nextItem rest) (.exec Scopes.globalScope st)
  | .loop scope cond body =>
    (s.pushFrame (.test scope cond body)).enter scope (.eval · cond)
  | .arguments _ callee done [] l => s.become (.apply callee done l)
  | .arguments scope callee done (e :: rest) l =>
    s.await (.arguments scope callee done rest l) (.eval scope e)
  | .apply callee args l => s.applyCallee limit callee args l
  | .give v => match s with
    | ⟨c, f :: k, scopes, depth, world⟩ => State.resume ⟨c, k, scopes, depth, world⟩ v f
    | s => s
  | .fail _ => match s with
    | ⟨c, f :: k, scopes, depth, world⟩ => State.unwind ⟨c, k, scopes, depth, world⟩ f
    | s => s

/-- The outcome of a run that has come to its end. -/
def outcome? (s : State α) : Option (Except (EvalError α) Value) :=
  match s.stack, s.control with
  | [], .give v => some (.ok v)
  | [], .fail e => some (.error e)
  | _, _ => none

/-- An integer is about to be read, and the input may not hold all of it yet. -/
def awaitsInput (s : State α) : Bool :=
  match s.control with
  | .apply (.builtin .readint) _ _ => s.world.input.readToken.2.unread.isEmpty
  | _ => false

/-- Further bytes of input arrive. -/
def feed (s : State α) (bytes : List UInt8) : State α :=
  match s with
  | ⟨c, k, scopes, depth, ⟨heap, input, sink⟩⟩ =>
    ⟨c, k, scopes, depth, ⟨heap, input.feed bytes, sink⟩⟩

/-- Runs to the end, if that is reached in at most `fuel` steps. -/
def run (limit : Nat) : Nat → State α → Option (Except (EvalError α) Value × State α)
  | fuel, s => match s.outcome? with
    | some r => some (r, s)
    | none => match fuel with
      | 0 => none
      | fuel + 1 => run limit fuel (s.step limit)

end State

end Scriptlet
