import Scriptlet.Proofs.Builtin.Functions
import Scriptlet.Proofs.Machine.Fields
import Scriptlet.Proofs.Scopes.Parents

/-!
Scopes and waiting frames keep step. The stack alone says how many scopes are open and how many
calls are being run; a frame that closes scopes closes exactly those opened since it was pushed.
-/

namespace Scriptlet

variable {α : Type}

/-- A user function was defined in the global scope and is called with an argument for each of its
parameters. -/
def Callee.Sound : Callee α → Nat → Prop
  | .builtin _, _ => True
  | .function _ d closure, n => closure = Scopes.globalScope ∧ n = d.params.length

/-- A frame that closes no scope, and whose own scope is one of the first `n`. -/
def Frame.Sound (n : Nat) : Frame α → Prop
  | .assign scope _ => scope < n
  | .leftOperand scope _ _ _ => scope < n
  | .rightOperand _ _ _ => True
  | .arguments scope callee done rest _ =>
    scope < n ∧ callee.Sound (done.length + 1 + rest.length)
  | .leave _ => False
  | .finish _ _ => False
  | .branch scope _ _ _ => scope < n
  | .discard => True
  | .test scope _ _ => scope < n
  | .again scope _ _ => scope < n
  | .next scope _ => scope < n
  | .nextItem _ => True

def Control.Sound (n : Nat) : Control α → Prop
  | .eval scope _ => scope < n
  | .exec scope _ => scope < n
  | .block scope _ _ => scope < n
  | .items _ _ => True
  | .loop scope _ _ => scope < n
  | .arguments scope callee done rest _ => scope < n ∧ callee.Sound (done.length + rest.length)
  | .apply callee args _ => callee.Sound args.length
  | .give _ => True
  | .fail _ => True

/-- The stack waits in the first `n` scopes, with `c` calls being run. -/
inductive Fits : List (Frame α) → Nat → Nat → Prop
  | base : Fits [] 1 0
  | leave {k : List (Frame α)} {id c : Nat} (h : Fits k id c) : Fits (.leave id :: k) (id + 1) c
  | finish {k : List (Frame α)} {id c ref : Nat} (h : Fits k id c) :
    Fits (.finish id ref :: k) (id + 2) (c + 1)
  | plain {f : Frame α} {k : List (Frame α)} {n c : Nat} (h : Fits k n c) (hf : f.Sound n) :
    Fits (f :: k) n c

namespace Fits

variable {k : List (Frame α)} {n m c b : Nat}

theorem pos (h : Fits k n c) : 0 < n := by
  induction h with
  | base => exact Nat.one_pos
  | leave _ _ => omega
  | finish _ _ => omega
  | plain _ _ ih => exact ih

/-- The stack determines how many scopes are open and how many calls are being run. -/
theorem unique (h : Fits k n c) (h' : Fits k m b) : n = m ∧ c = b := by
  induction h generalizing m b with
  | base => cases h' with
    | base => exact ⟨rfl, rfl⟩
  | leave _ ih => cases h' with
    | leave h' => exact ⟨rfl, (ih h').2⟩
    | plain _ hf => exact hf.elim
  | finish _ ih => cases h' with
    | finish h' => exact ⟨rfl, congrArg (· + 1) (ih h').2⟩
    | plain _ hf => exact hf.elim
  | plain _ hf ih => cases h' with
    | leave _ => exact hf.elim
    | finish _ => exact hf.elim
    | plain h' _ => exact ih h'

/-! What the frame on top says about the frames below it. -/

theorem of_leave {id : Nat} (h : Fits (.leave id :: k) n c) : n = id + 1 ∧ Fits k id c := by
  cases h with
  | leave hk => exact ⟨rfl, hk⟩
  | plain _ hf => exact hf.elim

theorem of_finish {id ref : Nat} (h : Fits (.finish id ref :: k) n c) :
    n = id + 2 ∧ 0 < c ∧ Fits k id (c - 1) := by
  cases h with
  | finish hk => exact ⟨rfl, Nat.succ_pos _, hk⟩
  | plain _ hf => exact hf.elim

theorem of_plain {f : Frame α} (h : Fits (f :: k) n c) (hleave : ∀ id, f ≠ .leave id)
    (hfinish : ∀ id ref, f ≠ .finish id ref) : Fits k n c ∧ f.Sound n := by
  cases h with
  | leave _ => exact absurd rfl (hleave _)
  | finish _ => exact absurd rfl (hfinish _ _)
  | plain hk hf => exact ⟨hk, hf⟩

end Fits

/-- Every function object was defined in the global scope. -/
def Heap.Closed (h : Heap α) : Prop :=
  ∀ r d closure, h.object? r = some (.function d closure) → closure = Scopes.globalScope

theorem Heap.Closed.inherit {h h' : Heap α} (hc : h.Closed) (hi : h.Inherits h') : h'.Closed :=
  fun r d closure ho => hc r d closure (hi r d closure ho)

namespace State

/-- All but the control is in order: scopes, stack, objects and the number of calls. -/
structure Settled (limit : Nat) (s : State α) : Prop where
  scopes : s.scopes.Ordered
  fits : Fits s.stack s.scopes.depth s.depth
  closed : s.world.heap.Closed
  calls : s.depth ≤ limit

/-- A state that a run can be in. -/
structure Orderly (limit : Nat) (s : State α) : Prop extends Settled limit s where
  control : s.control.Sound s.scopes.depth

variable {limit : Nat} {s : State α}

namespace Settled

theorem become (h : s.Settled limit) {c : Control α} (hc : c.Sound s.scopes.depth) :
    (s.become c).Orderly limit := ⟨⟨h.scopes, h.fits, h.closed, h.calls⟩, hc⟩

theorem give (h : s.Settled limit) (v : Value) : (s.give v).Orderly limit := h.become trivial

theorem failAt (h : s.Settled limit) (l : α) (c : Cause) : (s.failAt l c).Orderly limit :=
  h.become trivial

theorem pushFrame (h : s.Settled limit) {f : Frame α} (hf : f.Sound s.scopes.depth) :
    (s.pushFrame f).Settled limit := ⟨h.scopes, h.fits.plain hf, h.closed, h.calls⟩

theorem await (h : s.Settled limit) {f : Frame α} {c : Control α} (hf : f.Sound s.scopes.depth)
    (hc : c.Sound s.scopes.depth) : (s.await f c).Orderly limit := (h.pushFrame hf).become hc

theorem retain (h : s.Settled limit) (v : Value) : (s.retain v).Settled limit :=
  ⟨h.scopes, h.fits, h.closed.inherit (.retain _ v), h.calls⟩

theorem releaseAll (h : s.Settled limit) (vs : List Value) : (s.releaseAll vs).Settled limit :=
  ⟨h.scopes, h.fits, h.closed.inherit (.releaseAll _ vs), h.calls⟩

theorem release (h : s.Settled limit) (v : Value) : (s.release v).Settled limit :=
  h.releaseAll [v]

theorem bind (h : s.Settled limit) (id : Nat) (name : String) (v : Value) :
    (s.bind id name v).Settled limit := by
  refine ⟨h.scopes.bind id name v, ?_, h.closed.inherit (.releaseAll _ _), h.calls⟩
  rw [stack_bind, scopes_bind, depth_bind, Scopes.depth_bind]
  exact h.fits

theorem enter (h : s.Settled limit) {p : Nat} {c : Nat → Control α} (hp : p < s.scopes.depth)
    (hc : (c s.scopes.depth).Sound (s.scopes.depth + 1)) : (s.enter p c).Orderly limit := by
  refine ⟨⟨h.scopes.push hp, ?_, h.closed, h.calls⟩, ?_⟩
  · rw [stack_enter, scopes_enter, depth_enter, Scopes.depth_push]
    exact h.fits.leave
  · rw [control_enter, scopes_enter, Scopes.depth_push]
    exact hc

theorem newString (h : s.Settled limit) (text : String) :
    (s.make (.string text) .string).Orderly limit :=
  ⟨⟨h.scopes, h.fits, h.closed.inherit (.alloc _ (by simp)), h.calls⟩, trivial⟩

theorem defineFunction (h : s.Settled limit) (d : FunctionDef α) :
    (s.defineFunction d).Settled limit := by
  have hclosed : (s.world.heap.alloc (.function d Scopes.globalScope)).2.Closed := by
    intro r d' closure ho
    rw [Heap.object?_alloc] at ho
    split at ho
    · cases ho
      rfl
    · exact h.closed r d' closure ho
  have hmade : (s.make (.function d Scopes.globalScope) .function).Settled limit :=
    ⟨h.scopes, h.fits, hclosed, h.calls⟩
  have hbound := hmade.bind Scopes.globalScope d.name (.function s.world.heap.cells.size)
  exact ⟨hbound.scopes, hbound.fits, hbound.closed, hbound.calls⟩

end Settled

/-! ### Opening and closing the scopes of a call -/

theorem bindParams_rest (id : Nat) (params : List (Identifier α)) (args : List Value) :
    (s.bindParams id params args).stack = s.stack ∧
      (s.bindParams id params args).depth = s.depth ∧
      (s.bindParams id params args).scopes.parents = s.scopes.parents ∧
      s.world.heap.Inherits (s.bindParams id params args).world.heap := by
  induction params generalizing s args with
  | nil => exact ⟨rfl, rfl, rfl, .refl _⟩
  | cons p params ih =>
    cases args with
    | nil => exact ⟨rfl, rfl, rfl, .refl _⟩
    | cons v args =>
      obtain ⟨hstack, hdepth, hparents, hheap⟩ := ih (s := s.bind id p.name v) args
      exact ⟨hstack, hdepth, hparents.trans (s.scopes.parents_bind id p.name v),
        .trans (.releaseAll _ _) hheap⟩

theorem Settled.callFunction (h : s.Settled limit) (hlimit : s.depth < limit) {ref closure : Nat}
    (d : FunctionDef α) (hclosure : closure = Scopes.globalScope) (args : List Value) :
    (s.callFunction ref d closure args).Orderly limit := by
  obtain ⟨hstack, hdepth, hparents, hheap⟩ :=
    bindParams_rest (s := s.openScope closure) s.scopes.depth d.params args
  have hpos : closure < s.scopes.depth := by
    rw [hclosure]
    exact h.scopes.depth_pos
  have hordered : (s.withParams d closure args).scopes.Ordered :=
    (h.scopes.push hpos).congr hparents
  have hcount : (s.withParams d closure args).scopes.depth = s.scopes.depth + 1 := by
    have hlen := congrArg List.length hparents
    rw [Scopes.length_parents, Scopes.length_parents] at hlen
    exact hlen.trans (s.scopes.depth_push closure)
  rw [callFunction_eq]
  refine ⟨⟨hordered.push ?_, ?_, h.closed.inherit hheap, ?_⟩, ?_⟩
  · rw [hcount]
    exact Nat.lt_succ_self _
  · have hcalls : (s.withParams d closure args).depth = s.depth := hdepth
    have hk : (s.withParams d closure args).stack = s.stack := hstack
    simp only [Scopes.depth_push, hcount, hcalls, hk]
    exact h.fits.finish
  · have hcalls : (s.withParams d closure args).depth = s.depth := hdepth
    simp only [hcalls]
    exact hlimit
  · simp only [Control.Sound, Scopes.depth_push]
    exact Nat.lt_succ_self _

theorem Settled.callBuiltin (h : s.Settled limit) (b : Builtin) (args : List Value) (l : α) :
    (s.callBuiltin b args l).Orderly limit := by
  have hs : Settled limit ⟨s.control, s.stack, s.scopes, s.depth, (b.invoke args s.world).2⟩ :=
    ⟨h.scopes, h.fits, h.closed.inherit (b.inherits_invoke args s.world), h.calls⟩
  rw [callBuiltin_eq]
  split
  · exact (hs.releaseAll args).give _
  · exact (hs.releaseAll args).failAt _ _

theorem Settled.applyCallee (h : s.Settled limit) {callee : Callee α} {args : List Value}
    (hc : callee.Sound args.length) (l : α) :
    (s.applyCallee limit callee args l).Orderly limit := by
  cases callee with
  | builtin b => exact h.callBuiltin b args l
  | function ref d closure =>
    rw [State.applyCallee]
    split
    · exact (h.releaseAll _).failAt _ _
    · exact h.callFunction (by omega) d hc.1 args

/-! ### A value or a failure reaches a frame -/

variable {k : List (Frame α)} {c : Control α} {scopes : Scopes} {depth : Nat} {world : World α}

theorem closeScope_orderly {id : Nat} (h : Settled limit ⟨c, .leave id :: k, scopes, depth, world⟩)
    (hc : ∀ n, c.Sound n) :
    (closeScope ⟨c, k, scopes, depth, world⟩ id).Orderly limit := by
  obtain ⟨hdepth, hk⟩ := h.fits.of_leave
  have hpos := hk.pos
  have hle : id ≤ scopes.depth := Nat.le_of_lt (Nat.lt_of_succ_le (Nat.le_of_eq hdepth.symm))
  refine ⟨⟨h.scopes.pop hpos, ?_, h.closed.inherit (.releaseAll _ _), h.calls⟩, hc _⟩
  rw [stack_closeScope, scopes_closeScope, depth_closeScope, scopes.depth_pop hpos hle]
  exact hk

theorem closeCall_orderly {id ref : Nat}
    (h : Settled limit ⟨c, .finish id ref :: k, scopes, depth, world⟩) (hc : ∀ n, c.Sound n) :
    (closeCall ⟨c, k, scopes, depth, world⟩ id ref).Orderly limit := by
  obtain ⟨hdepth, -, hk⟩ := h.fits.of_finish
  have hpos := hk.pos
  have hle : id ≤ scopes.depth := by
    simp only at hdepth
    omega
  refine ⟨⟨h.scopes.pop hpos, ?_, ?_, ?_⟩, hc _⟩
  · rw [stack_closeCall, scopes_closeCall, depth_closeCall, scopes.depth_pop hpos hle]
    exact hk
  · exact h.closed.inherit (.trans (.releaseAll _ _) (.releaseAll _ _))
  · rw [depth_closeCall]
    exact Nat.le_trans (Nat.sub_le _ _) h.calls

theorem Settled.popFrame {f : Frame α} (h : Settled limit ⟨c, f :: k, scopes, depth, world⟩)
    (hleave : ∀ id, f ≠ .leave id) (hfinish : ∀ id ref, f ≠ .finish id ref) :
    Settled limit ⟨c, k, scopes, depth, world⟩ ∧ f.Sound scopes.depth := by
  obtain ⟨hk, hf⟩ := h.fits.of_plain hleave hfinish
  exact ⟨⟨h.scopes, hk, h.closed, h.calls⟩, hf⟩

theorem Settled.call (h : s.Settled limit) {scope : Nat} (hs : scope < s.scopes.depth)
    (callee : Identifier α) (args : List (Expr α)) (l : α) :
    (s.call scope callee args l).Orderly limit := by
  unfold State.call
  split
  · exact h.failAt _ _
  · exact h.become ⟨hs, trivial⟩
  · rename_i r _
    split
    · exact h.failAt _ _
    · rename_i d closure hd
      split
      · exact h.failAt _ _
      · rename_i harity
        have hclosure := h.closed r d closure (Heap.function?_eq_some.mp hd)
        refine (h.retain _).become ⟨hs, hclosure, ?_⟩
        rw [List.length_nil, Nat.zero_add]
        exact Decidable.not_not.mp harity
  · exact h.failAt _ _

theorem Settled.eval (h : s.Settled limit) {scope : Nat} (hs : scope < s.scopes.depth)
    (e : Expr α) : (s.eval scope e).Orderly limit := by
  cases e with
  | integer text l =>
    rw [State.eval]
    split
    · exact h.give _
    · exact h.failAt _ _
  | string value l => exact h.newString value
  | reference id =>
    rw [State.eval]
    split
    · exact (h.retain _).give _
    · exact h.failAt _ _
  | assign target value l => exact h.await hs hs
  | binary op left right l => exact h.await hs hs
  | callAt callee args l => exact h.call hs callee args l

theorem Settled.exec (h : s.Settled limit) {scope : Nat} (hs : scope < s.scopes.depth)
    (st : Stmt α) : (s.exec scope st).Orderly limit := by
  cases st with
  | declare id l =>
    rw [State.exec]
    split
    · exact h.failAt _ _
    · exact (h.bind _ _ _).give _
  | branch cond thenBlock elseBlock l => exact h.await hs hs
  | loop cond body l => exact h.become hs
  | expr e => exact h.become hs

theorem Settled.enterBlock (h : s.Settled limit) {f : Frame α} (hf : f.Sound s.scopes.depth)
    {p : Nat} (hp : p < s.scopes.depth) (ss : List (Stmt α)) :
    ((s.pushFrame f).enter p (.block · ss (.int 0))).Orderly limit :=
  (h.pushFrame hf).enter hp (Nat.lt_succ_self _)

theorem Settled.resume {v : Value} {f : Frame α}
    (h : Settled limit ⟨.give v, f :: k, scopes, depth, world⟩) :
    (resume ⟨.give v, k, scopes, depth, world⟩ v f).Orderly limit := by
  cases f with
  | leave scope => exact closeScope_orderly h fun _ => trivial
  | finish scope ref => exact closeCall_orderly h fun _ => trivial
  | assign scope target =>
    obtain ⟨hk, hs⟩ := h.popFrame (by simp) (by simp)
    rw [State.resume]
    split
    · exact (hk.release _).failAt _ _
    · exact ((hk.retain _).bind _ _ _).give _
  | leftOperand scope op right l =>
    obtain ⟨hk, hs⟩ := h.popFrame (by simp) (by simp)
    cases v with
    | int a =>
      rw [State.resume]
      split
      · exact hk.give _
      · exact hk.await trivial hs
    | _ => exact (hk.release _).failAt _ _
  | rightOperand op a l =>
    obtain ⟨hk, hs⟩ := h.popFrame (by simp) (by simp)
    cases v with
    | int b =>
      rw [State.resume]
      split
      · exact hk.give _
      · exact hk.failAt _ _
    | _ => exact (hk.release _).failAt _ _
  | arguments scope callee done rest l =>
    obtain ⟨hk, hs, hcallee⟩ := h.popFrame (by simp) (by simp)
    refine hk.become ⟨hs, ?_⟩
    rw [List.length_append]
    exact hcallee
  | branch scope l thenBlock elseBlock =>
    obtain ⟨hk, hs⟩ := h.popFrame (by simp) (by simp)
    cases v with
    | int i =>
      simp only [State.resume]
      split
      · exact hk.enterBlock (f := .discard) trivial hs _
      · split
        · exact hk.give _
        · exact hk.enterBlock (f := .discard) trivial hs _
    | _ => exact (hk.release _).failAt _ _
  | discard =>
    obtain ⟨hk, -⟩ := h.popFrame (by simp) (by simp)
    exact (hk.release _).give _
  | test scope cond body =>
    obtain ⟨hk, hs⟩ := h.popFrame (by simp) (by simp)
    cases v with
    | int i =>
      rw [State.resume]
      split
      · exact hk.enterBlock (f := .again scope cond body) hs hs _
      · exact hk.give _
    | _ => exact (hk.release _).failAt _ _
  | again scope cond body =>
    obtain ⟨hk, hs⟩ := h.popFrame (by simp) (by simp)
    exact (hk.release _).become hs
  | next scope rest =>
    obtain ⟨hk, hs⟩ := h.popFrame (by simp) (by simp)
    exact hk.become hs
  | nextItem rest =>
    obtain ⟨hk, -⟩ := h.popFrame (by simp) (by simp)
    exact hk.become trivial

theorem Settled.unwind {e : EvalError α} {f : Frame α}
    (h : Settled limit ⟨.fail e, f :: k, scopes, depth, world⟩) :
    (unwind ⟨.fail e, k, scopes, depth, world⟩ f).Orderly limit := by
  cases f with
  | leave scope => exact closeScope_orderly h fun _ => trivial
  | finish scope ref => exact closeCall_orderly h fun _ => trivial
  | _ =>
    obtain ⟨hk, -⟩ := h.popFrame (by simp) (by simp)
    exact ⟨hk.releaseAll _, trivial⟩

theorem Orderly.step (h : s.Orderly limit) : (s.step limit).Orderly limit := by
  obtain ⟨control, stack, scopes, depth, world⟩ := s
  have hc := h.control
  cases control with
  | eval scope e => exact h.toSettled.eval hc e
  | exec scope st => exact h.toSettled.exec hc st
  | block scope rest last =>
    cases rest with
    | nil => exact h.toSettled.give last
    | cons st rest => exact (h.toSettled.release last).await hc hc
  | items rest last =>
    cases rest with
    | nil => exact h.toSettled.give last
    | cons item rest =>
      have hreleased := h.toSettled.release last
      cases item with
      | function d => exact (hreleased.defineFunction d).become trivial
      | stmt st => exact hreleased.await trivial h.scopes.depth_pos
  | loop scope cond body =>
    have htest := h.toSettled.pushFrame (f := .test scope cond body) hc
    exact htest.enter (c := (.eval · cond)) hc (Nat.lt_succ_self _)
  | arguments scope callee done rest l =>
    cases rest with
    | nil => exact h.toSettled.become hc.2
    | cons e rest =>
      refine h.toSettled.await ⟨hc.1, ?_⟩ hc.1
      have hn : done.length + 1 + rest.length = done.length + (e :: rest).length := by
        rw [List.length_cons]
        omega
      rw [hn]
      exact hc.2
  | apply callee args l => exact h.toSettled.applyCallee hc l
  | give v =>
    cases stack with
    | nil => exact h
    | cons f k => exact h.toSettled.resume
  | fail e =>
    cases stack with
    | nil => exact h
    | cons f k => exact h.toSettled.unwind

end State

end Scriptlet
