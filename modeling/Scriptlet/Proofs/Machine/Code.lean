import Scriptlet.Proofs.Machine.Failures
import Scriptlet.Proofs.Program.Nodes

/-!
The code of a state: what is being run, waits on the stack or belongs to a function object. A step
goes on with code that was there before, so a run has no node that its program does not have.
-/

namespace Scriptlet

variable {α : Type} {P : Node α → Prop}

def Callee.nodes : Callee α → List (Node α)
  | .builtin _ => []
  | .function _ d _ => d.nodes

def Frame.nodes : Frame α → List (Node α)
  | .assign _ target => [target.use]
  | .leftOperand _ _ right _ => right.nodes
  | .rightOperand _ _ _ => []
  | .arguments _ callee _ rest _ => callee.nodes ++ Expr.argNodes rest
  | .leave _ => []
  | .finish _ _ => []
  | .branch _ _ thenBlock elseBlock =>
    Stmt.blockNodes thenBlock ++ Stmt.elseNodes elseBlock
  | .discard => []
  | .test _ cond body => cond.nodes ++ Stmt.blockNodes body
  | .again _ cond body => cond.nodes ++ Stmt.blockNodes body
  | .next _ rest => Stmt.blockNodes rest
  | .nextItem rest => rest.flatMap Item.nodes

def Control.nodes : Control α → List (Node α)
  | .eval _ e => e.nodes
  | .exec _ s => s.nodes
  | .block _ rest _ => Stmt.blockNodes rest
  | .items rest _ => rest.flatMap Item.nodes
  | .loop _ cond body => cond.nodes ++ Stmt.blockNodes body
  | .arguments _ callee _ rest _ => callee.nodes ++ Expr.argNodes rest
  | .apply callee _ _ => callee.nodes
  | .give _ => []
  | .fail _ => []

/-- Every function object consists of such nodes. -/
def Heap.Quotes (P : Node α → Prop) (h : Heap α) : Prop :=
  ∀ r d closure, h.object? r = some (.function d closure) → ∀ n ∈ d.nodes, P n

theorem Heap.Quotes.inherit {h h' : Heap α} (hc : h.Quotes P) (hi : h.Inherits h') : h'.Quotes P :=
  fun r d closure ho => hc r d closure (hi r d closure ho)

namespace State

/-- All code outside the control consists of such nodes. -/
structure Stored (P : Node α → Prop) (s : State α) : Prop where
  stack : ∀ f ∈ s.stack, ∀ n ∈ f.nodes, P n
  heap : s.world.heap.Quotes P

structure Quotes (P : Node α → Prop) (s : State α) : Prop extends Stored P s where
  control : ∀ n ∈ s.control.nodes, P n

variable {limit : Nat} {s t : State α}

namespace Stored

theorem become (h : s.Stored P) {c : Control α} (hc : ∀ n ∈ c.nodes, P n) :
    (s.become c).Quotes P := ⟨⟨h.stack, h.heap⟩, hc⟩

theorem give (h : s.Stored P) (v : Value) : (s.give v).Quotes P :=
  h.become (List.forall_mem_nil P)

theorem failAt (h : s.Stored P) (l : α) (c : Cause) : (s.failAt l c).Quotes P :=
  h.become (List.forall_mem_nil P)

theorem pushFrame (h : s.Stored P) {f : Frame α} (hf : ∀ n ∈ f.nodes, P n) :
    (s.pushFrame f).Stored P := ⟨List.forall_mem_cons.mpr ⟨hf, h.stack⟩, h.heap⟩

theorem await (h : s.Stored P) {f : Frame α} {c : Control α} (hf : ∀ n ∈ f.nodes, P n)
    (hc : ∀ n ∈ c.nodes, P n) : (s.await f c).Quotes P := (h.pushFrame hf).become hc

theorem retain (h : s.Stored P) (v : Value) : (s.retain v).Stored P :=
  ⟨h.stack, h.heap.inherit (.retain _ v)⟩

theorem releaseAll (h : s.Stored P) (vs : List Value) : (s.releaseAll vs).Stored P :=
  ⟨h.stack, h.heap.inherit (.releaseAll _ vs)⟩

theorem release (h : s.Stored P) (v : Value) : (s.release v).Stored P := h.releaseAll [v]

theorem bind (h : s.Stored P) (id : Nat) (name : String) (v : Value) :
    (s.bind id name v).Stored P := ⟨h.stack, h.heap.inherit (.releaseAll _ _)⟩

theorem enter (h : s.Stored P) (p : Nat) {c : Nat → Control α}
    (hc : ∀ n ∈ (c s.scopes.depth).nodes, P n) : (s.enter p c).Quotes P :=
  ⟨⟨List.forall_mem_cons.mpr ⟨List.forall_mem_nil P, h.stack⟩, h.heap⟩, hc⟩

theorem enterBlock (h : s.Stored P) {f : Frame α} (hf : ∀ n ∈ f.nodes, P n) (p : Nat)
    {ss : List (Stmt α)} (hss : ∀ n ∈ Stmt.blockNodes ss, P n) :
    ((s.pushFrame f).enter p (.block · ss (.int 0))).Quotes P := (h.pushFrame hf).enter p hss

theorem closeScope (h : s.Stored P) (id : Nat) : (s.closeScope id).Stored P :=
  ⟨h.stack, h.heap.inherit (.releaseAll _ _)⟩

theorem closeCall (h : s.Stored P) (id ref : Nat) : (s.closeCall id ref).Stored P :=
  ⟨h.stack, h.heap.inherit (.trans (.releaseAll _ _) (.releaseAll _ _))⟩

theorem newString (h : s.Stored P) (text : String) : (s.make (.string text) .string).Quotes P :=
  ⟨⟨h.stack, h.heap.inherit (.alloc _ (by simp))⟩, List.forall_mem_nil P⟩

theorem defineFunction (h : s.Stored P) {d : FunctionDef α} (hd : ∀ n ∈ d.nodes, P n) :
    (s.defineFunction d).Stored P := by
  have hmade : (s.world.heap.alloc (.function d Scopes.globalScope)).2.Quotes P := by
    intro r d' closure ho
    rw [Heap.object?_alloc] at ho
    split at ho
    · cases ho
      exact hd
    · exact h.heap r d' closure ho
  exact ⟨h.stack, hmade.inherit (.releaseAll _ _)⟩

theorem callFunction (h : s.Stored P) (ref closure : Nat) {d : FunctionDef α}
    (hd : ∀ n ∈ d.nodes, P n) (args : List Value) :
    (s.callFunction ref d closure args).Quotes P := by
  obtain ⟨hstack, -, -, hheap⟩ :=
    bindParams_rest (s := s.openScope closure) s.scopes.depth d.params args
  have hframes : ∀ f ∈ (s.withParams d closure args).stack, ∀ n ∈ f.nodes, P n := by
    have hsame : (s.withParams d closure args).stack = s.stack := hstack
    rw [hsame]
    exact h.stack
  have hbody : ∀ n ∈ Stmt.blockNodes d.body, P n := fun n hn =>
    hd n (List.mem_cons_of_mem _ (List.mem_cons_of_mem _ (List.mem_append_right _ hn)))
  rw [callFunction_eq]
  exact ⟨⟨List.forall_mem_cons.mpr ⟨List.forall_mem_nil P, hframes⟩, h.heap.inherit hheap⟩, hbody⟩

theorem applyCallee (h : s.Stored P) {callee : Callee α} (hc : ∀ n ∈ callee.nodes, P n)
    (args : List Value) (l : α) : (s.applyCallee limit callee args l).Quotes P := by
  cases callee with
  | builtin b =>
    have hs : Stored P ⟨s.control, s.stack, s.scopes, s.depth, (b.invoke args s.world).2⟩ :=
      ⟨h.stack, h.heap.inherit (b.inherits_invoke args s.world)⟩
    rw [State.applyCallee, callBuiltin_eq]
    split
    · exact (hs.releaseAll args).give _
    · exact (hs.releaseAll args).failAt _ _
  | function ref d closure =>
    rw [State.applyCallee]
    split
    · exact (h.releaseAll _).failAt _ _
    · exact h.callFunction ref closure hc args

theorem call (h : s.Stored P) (scope : Nat) (callee : Identifier α) {args : List (Expr α)}
    (hargs : ∀ n ∈ Expr.argNodes args, P n) (l : α) : (s.call scope callee args l).Quotes P := by
  unfold State.call
  split
  · exact h.failAt _ _
  · exact h.become hargs
  · rename_i r _
    split
    · exact h.failAt _ _
    · rename_i d closure hd
      split
      · exact h.failAt _ _
      · have hnodes := h.heap r d closure (Heap.function?_eq_some.mp hd)
        exact (h.retain _).become (List.forall_mem_append.mpr ⟨hnodes, hargs⟩)
  · exact h.failAt _ _

theorem eval (h : s.Stored P) (scope : Nat) {e : Expr α} (he : ∀ n ∈ e.nodes, P n) :
    (s.eval scope e).Quotes P := by
  cases e with
  | integer text l =>
    rw [State.eval]
    split
    · exact h.give _
    · exact h.failAt _ _
  | string value l => exact h.newString value
  | reference id =>
    rw [State.eval]
    split
    · exact (h.retain _).give _
    · exact h.failAt _ _
  | assign target value l =>
    obtain ⟨htarget, hvalue⟩ := List.forall_mem_cons.mp he
    exact h.await (List.forall_mem_singleton.mpr htarget) (List.forall_mem_cons.mp hvalue).2
  | binary op left right l =>
    obtain ⟨hleft, hright⟩ := List.forall_mem_append.mp he
    exact h.await (List.forall_mem_cons.mp hright).2 hleft
  | callAt callee args l =>
    obtain ⟨-, hcallee⟩ := List.forall_mem_cons.mp he
    exact h.call scope callee (List.forall_mem_cons.mp hcallee).2 l

theorem exec (h : s.Stored P) (scope : Nat) {st : Stmt α} (hst : ∀ n ∈ st.nodes, P n) :
    (s.exec scope st).Quotes P := by
  cases st with
  | declare id l =>
    rw [State.exec]
    split
    · exact h.failAt _ _
    · exact (h.bind _ _ _).give _
  | branch cond thenBlock elseBlock l =>
    obtain ⟨hcond, hblocks⟩ := List.forall_mem_append.mp (List.forall_mem_cons.mp hst).2
    exact h.await hblocks hcond
  | loop cond body l => exact h.become (List.forall_mem_cons.mp hst).2
  | expr e => exact h.become hst

theorem resume (h : s.Stored P) (v : Value) {f : Frame α} (hs : s.control = .give v)
    (hf : ∀ n ∈ f.nodes, P n) : (s.resume v f).Quotes P := by
  cases f with
  | assign scope target =>
    rw [State.resume]
    split
    · exact (h.release _).failAt _ _
    · exact ((h.retain _).bind _ _ _).give _
  | leftOperand scope op right l =>
    cases v with
    | int a =>
      rw [State.resume]
      split
      · exact h.give _
      · exact h.await (List.forall_mem_nil P) hf
    | _ => exact (h.release _).failAt _ _
  | rightOperand op a l =>
    cases v with
    | int b =>
      rw [State.resume]
      split
      · exact h.give _
      · exact h.failAt _ _
    | _ => exact (h.release _).failAt _ _
  | arguments scope callee done rest l => exact h.become hf
  | leave scope => exact ⟨h.closeScope scope, by simp [State.resume, hs, Control.nodes]⟩
  | finish scope ref => exact ⟨h.closeCall scope ref, by simp [State.resume, hs, Control.nodes]⟩
  | branch scope l thenBlock elseBlock =>
    obtain ⟨hthen, helse⟩ := List.forall_mem_append.mp hf
    cases v with
    | int i =>
      simp only [State.resume]
      split
      · exact h.enterBlock (f := .discard) (List.forall_mem_nil P) scope hthen
      · split
        · exact h.give _
        · exact h.enterBlock (f := .discard) (List.forall_mem_nil P) scope helse
    | _ => exact (h.release _).failAt _ _
  | discard => exact (h.release _).give _
  | test scope cond body =>
    cases v with
    | int i =>
      rw [State.resume]
      split
      · exact h.enterBlock (f := .again scope cond body) hf scope (List.forall_mem_append.mp hf).2
      · exact h.give _
    | _ => exact (h.release _).failAt _ _
  | again scope cond body => exact (h.release _).become hf
  | next scope rest => exact h.become hf
  | nextItem rest => exact h.become hf

end Stored

/-- A step goes on with code that was there before. -/
theorem Quotes.step (h : s.Quotes P) : (s.step limit).Quotes P := by
  obtain ⟨control, stack, scopes, depth, world⟩ := s
  have hc := h.control
  cases control with
  | eval scope e => exact h.toStored.eval scope hc
  | exec scope st => exact h.toStored.exec scope hc
  | block scope rest last =>
    cases rest with
    | nil => exact h.toStored.give last
    | cons st rest =>
      obtain ⟨hfirst, hrest⟩ := List.forall_mem_append.mp hc
      exact (h.toStored.release last).await hrest hfirst
  | items rest last =>
    cases rest with
    | nil => exact h.toStored.give last
    | cons item rest =>
      obtain ⟨hfirst, hrest⟩ := List.forall_mem_append.mp hc
      have hreleased := h.toStored.release last
      cases item with
      | function d => exact (hreleased.defineFunction hfirst).become hrest
      | stmt st => exact hreleased.await hrest hfirst
  | loop scope cond body =>
    exact (h.toStored.pushFrame (f := .test scope cond body) hc).enter scope
      (c := (.eval · cond)) (List.forall_mem_append.mp hc).1
  | arguments scope callee done rest l =>
    obtain ⟨hcallee, hargs⟩ := List.forall_mem_append.mp hc
    cases rest with
    | nil => exact h.toStored.become hcallee
    | cons e rest =>
      obtain ⟨hfirst, hrest⟩ := List.forall_mem_append.mp hargs
      exact h.toStored.await (List.forall_mem_append.mpr ⟨hcallee, hrest⟩) hfirst
  | apply callee args l => exact h.toStored.applyCallee hc args l
  | give v =>
    cases stack with
    | nil => exact h
    | cons f k =>
      obtain ⟨hf, hk⟩ := List.forall_mem_cons.mp h.stack
      exact Stored.resume (s := ⟨.give v, k, scopes, depth, world⟩) ⟨hk, h.heap⟩ v rfl hf
  | fail e =>
    cases stack with
    | nil => exact h
    | cons f k =>
      have hk : Stored P ⟨.fail e, k, scopes, depth, world⟩ :=
        ⟨(List.forall_mem_cons.mp h.stack).2, h.heap⟩
      cases f with
      | leave scope => exact ⟨hk.closeScope scope, List.forall_mem_nil P⟩
      | finish scope ref => exact ⟨hk.closeCall scope ref, List.forall_mem_nil P⟩
      | _ => exact ⟨hk.releaseAll _, List.forall_mem_nil P⟩

theorem Reaches.quotes (h : Reaches limit s t) (hs : s.Quotes P) : t.Quotes P := by
  induction h with
  | refl => exact hs
  | step _ ih => exact ih.step

end State

end Scriptlet
