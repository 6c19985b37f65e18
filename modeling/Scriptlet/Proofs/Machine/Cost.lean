import Scriptlet.Proofs.Machine.Runs
import Scriptlet.Proofs.Program.Cost

/-!
Runs of programs without loops. What a state has still to do is counted: the control, and every
frame with the number of calls that are open when it goes on. A call is paid for by the number of
calls it may still open, whichever function it turns out to be, and each step takes one off.
-/

namespace Scriptlet

variable {α : Type}

/-- The steps of a call at most, if `calls` are open before it. -/
def price (ds : List (FunctionDef α)) (limit calls : Nat) : Nat := callCost ds (limit - calls)

theorem price_pos (ds : List (FunctionDef α)) (limit calls : Nat) : 0 < price ds limit calls :=
  callCost_pos ds _

theorem blockCost_lt_price {ds : List (FunctionDef α)} {limit calls : Nat} {d : FunctionDef α}
    (hd : d ∈ ds) (hlt : calls < limit) :
    Stmt.blockCost (price ds limit (calls + 1)) d.body + 1 < price ds limit calls := by
  have hle : Stmt.blockCost (price ds limit (calls + 1)) d.body ≤
      FunctionDef.bodiesCost (price ds limit (calls + 1)) ds := FunctionDef.blockCost_le hd
  have hleft : limit - calls = limit - (calls + 1) + 1 := by omega
  have hprice : price ds limit calls =
      FunctionDef.bodiesCost (price ds limit (calls + 1)) ds + 2 := by
    rw [price, hleft]
    rfl
  omega

/-- A callee that is built in or one of the functions. -/
def Callee.Straight (ds : List (FunctionDef α)) : Callee α → Prop
  | .builtin _ => True
  | .function _ d _ => d ∈ ds

/-- The item has no loop, and defines one of the functions if it defines any. -/
def Item.Straight (ds : List (FunctionDef α)) : Item α → Prop
  | .function d => d ∈ ds
  | .stmt s => s.loopFree

namespace Frame

/-- There is no loop in what comes after the value. -/
def Straight (ds : List (FunctionDef α)) : Frame α → Prop
  | .arguments _ callee _ _ _ => callee.Straight ds
  | .branch _ _ thenBlock elseBlock => Stmt.blockLoopFree thenBlock ∧ Stmt.elseLoopFree elseBlock
  | .test _ _ _ => False
  | .again _ _ _ => False
  | .next _ rest => Stmt.blockLoopFree rest
  | .nextItem rest => ∀ i ∈ rest, i.Straight ds
  | _ => True

def cost (w : Nat) : Frame α → Nat
  | .leftOperand _ _ right _ => right.cost w + 2
  | .arguments _ _ _ rest _ => Expr.argsCost w rest + w + 2
  | .branch _ _ thenBlock elseBlock => Stmt.blockCost w thenBlock + Stmt.elseCost w elseBlock + 3
  | .next _ rest => Stmt.blockCost w rest + 1
  | .nextItem rest => Item.allCost w rest + 1
  | _ => 1

theorem cost_pos (w : Nat) (f : Frame α) : 0 < f.cost w := by
  cases f <;> simp [cost]

/-- How many calls are open below the frame, if `calls` are open above it. -/
def callsBelow (calls : Nat) : Frame α → Nat
  | .finish _ _ => calls - 1
  | _ => calls

/-- The steps of all frames, from the top on. -/
def stackCost (ds : List (FunctionDef α)) (limit : Nat) : Nat → List (Frame α) → Nat
  | _, [] => 0
  | calls, f :: k => f.cost (price ds limit calls) + stackCost ds limit (f.callsBelow calls) k

end Frame

namespace Control

def Straight (ds : List (FunctionDef α)) : Control α → Prop
  | .exec _ s => s.loopFree
  | .block _ rest _ => Stmt.blockLoopFree rest
  | .items rest _ => ∀ i ∈ rest, i.Straight ds
  | .loop _ _ _ => False
  | .arguments _ callee _ _ _ => callee.Straight ds
  | .apply callee _ _ => callee.Straight ds
  | _ => True

def cost (w : Nat) : Control α → Nat
  | .eval _ e => e.cost w
  | .exec _ s => s.cost w
  | .block _ rest _ => Stmt.blockCost w rest
  | .items rest _ => Item.allCost w rest
  | .arguments _ _ _ rest _ => Expr.argsCost w rest + w + 1
  | .apply _ _ _ => w
  | _ => 0

end Control

/-- Every function object is one of the functions. -/
def Heap.Defines (ds : List (FunctionDef α)) (h : Heap α) : Prop :=
  ∀ r d closure, h.object? r = some (.function d closure) → d ∈ ds

theorem Heap.Defines.inherit {ds : List (FunctionDef α)} {h h' : Heap α} (hd : h.Defines ds)
    (hi : h.Inherits h') : h'.Defines ds := fun r d closure ho => hd r d closure (hi r d closure ho)

namespace State

variable {ds : List (FunctionDef α)} {limit m : Nat} {s t : State α}

/-- The steps that the frames of a state take. -/
def waitCost (ds : List (FunctionDef α)) (limit : Nat) (s : State α) : Nat :=
  Frame.stackCost ds limit s.depth s.stack

/-- There is no loop in anything outside the control. -/
structure Unlooped (ds : List (FunctionDef α)) (s : State α) : Prop where
  stack : ∀ f ∈ s.stack, f.Straight ds
  heap : s.world.heap.Defines ds

/-- There is no loop, and at most `m` steps are left. -/
structure EndsWithin (ds : List (FunctionDef α)) (limit m : Nat) (s : State α) : Prop
    extends Unlooped ds s where
  control : s.control.Straight ds
  cost : s.control.cost (price ds limit s.depth) + s.waitCost ds limit ≤ m

namespace Unlooped

theorem become (h : s.Unlooped ds) {c : Control α} (hc : c.Straight ds)
    (hm : c.cost (price ds limit s.depth) + s.waitCost ds limit ≤ m) :
    (s.become c).EndsWithin ds limit m := ⟨⟨h.stack, h.heap⟩, hc, hm⟩

theorem give (h : s.Unlooped ds) (v : Value) (hm : s.waitCost ds limit ≤ m) :
    (s.give v).EndsWithin ds limit m := h.become trivial (by simpa [Control.cost] using hm)

theorem failAt (h : s.Unlooped ds) (l : α) (c : Cause) (hm : s.waitCost ds limit ≤ m) :
    (s.failAt l c).EndsWithin ds limit m := h.become trivial (by simpa [Control.cost] using hm)

theorem pushFrame (h : s.Unlooped ds) {f : Frame α} (hf : f.Straight ds) :
    (s.pushFrame f).Unlooped ds := ⟨List.forall_mem_cons.mpr ⟨hf, h.stack⟩, h.heap⟩

theorem await (h : s.Unlooped ds) {f : Frame α} {c : Control α} (hf : f.Straight ds)
    (hcalls : f.callsBelow s.depth = s.depth) (hc : c.Straight ds)
    (hm : c.cost (price ds limit s.depth) + f.cost (price ds limit s.depth) +
      s.waitCost ds limit ≤ m) : (s.await f c).EndsWithin ds limit m := by
  refine (h.pushFrame hf).become hc ?_
  change c.cost (price ds limit s.depth) + Frame.stackCost ds limit s.depth (f :: s.stack) ≤ m
  rw [Frame.stackCost, hcalls, ← Nat.add_assoc]
  exact hm

theorem retain (h : s.Unlooped ds) (v : Value) : (s.retain v).Unlooped ds :=
  ⟨h.stack, h.heap.inherit (.retain _ v)⟩

theorem releaseAll (h : s.Unlooped ds) (vs : List Value) : (s.releaseAll vs).Unlooped ds :=
  ⟨h.stack, h.heap.inherit (.releaseAll _ vs)⟩

theorem release (h : s.Unlooped ds) (v : Value) : (s.release v).Unlooped ds := h.releaseAll [v]

theorem bind (h : s.Unlooped ds) (id : Nat) (name : String) (v : Value) :
    (s.bind id name v).Unlooped ds := ⟨h.stack, h.heap.inherit (.releaseAll _ _)⟩

/-- A block is run with a frame for its value and one that closes its scope. -/
theorem enterBlock (h : s.Unlooped ds) (parent : Nat) {ss : List (Stmt α)}
    (hss : Stmt.blockLoopFree ss)
    (hm : Stmt.blockCost (price ds limit s.depth) ss + 2 + s.waitCost ds limit ≤ m) :
    ((s.pushFrame .discard).enter parent (.block · ss (.int 0))).EndsWithin ds limit m := by
  refine ⟨⟨?_, h.heap⟩, hss, ?_⟩
  · exact List.forall_mem_cons.mpr ⟨trivial, List.forall_mem_cons.mpr ⟨trivial, h.stack⟩⟩
  · change Stmt.blockCost (price ds limit s.depth) ss + (1 + (1 + s.waitCost ds limit)) ≤ m
    omega

theorem closeScope (h : s.Unlooped ds) (hs : s.control.Straight ds) (id : Nat)
    (hm : s.control.cost (price ds limit s.depth) + s.waitCost ds limit ≤ m) :
    (s.closeScope id).EndsWithin ds limit m :=
  ⟨⟨h.stack, h.heap.inherit (.releaseAll _ _)⟩, hs, hm⟩

theorem closeCall (h : s.Unlooped ds) (hs : s.control.Straight ds) (id ref : Nat)
    (hm : s.control.cost (price ds limit (s.depth - 1)) +
      Frame.stackCost ds limit (s.depth - 1) s.stack ≤ m) :
    (s.closeCall id ref).EndsWithin ds limit m :=
  ⟨⟨h.stack, h.heap.inherit (.trans (.releaseAll _ _) (.releaseAll _ _))⟩, hs, hm⟩

theorem newString (h : s.Unlooped ds) (text : String) (hm : s.waitCost ds limit ≤ m) :
    (s.make (.string text) .string).EndsWithin ds limit m :=
  ⟨⟨h.stack, h.heap.inherit (.alloc _ (by simp))⟩, trivial,
    Nat.le_trans (Nat.le_of_eq (Nat.zero_add _)) hm⟩

theorem defineFunction (h : s.Unlooped ds) {d : FunctionDef α} (hd : d ∈ ds) :
    (s.defineFunction d).Unlooped ds := by
  have hmade : (s.world.heap.alloc (.function d Scopes.globalScope)).2.Defines ds := by
    intro r d' closure ho
    rw [Heap.object?_alloc] at ho
    split at ho
    · cases ho
      exact hd
    · exact h.heap r d' closure ho
  exact ⟨h.stack, hmade.inherit (.releaseAll _ _)⟩

/-- The body of the called function is run with one more call open. -/
theorem callFunction (h : s.Unlooped ds) (hds : ∀ d ∈ ds, Stmt.blockLoopFree d.body)
    (ref closure : Nat) {d : FunctionDef α} (hd : d ∈ ds) (args : List Value)
    (hlt : s.depth < limit) (hm : price ds limit s.depth + s.waitCost ds limit ≤ m + 1) :
    (s.callFunction ref d closure args).EndsWithin ds limit m := by
  obtain ⟨hstack, hdepth, -, hheap⟩ :=
    bindParams_rest (s := s.openScope closure) s.scopes.depth d.params args
  have hsame : (s.withParams d closure args).stack = s.stack := hstack
  have hcalls : (s.withParams d closure args).depth = s.depth := hdepth
  -- The price covers the bodies of all functions, so it does not matter which one is called.
  have hprice := blockCost_lt_price hd hlt
  rw [callFunction_eq, hsame, hcalls]
  refine ⟨⟨List.forall_mem_cons.mpr ⟨trivial, h.stack⟩, h.heap.inherit hheap⟩, hds d hd, ?_⟩
  change Stmt.blockCost (price ds limit (s.depth + 1)) d.body + (1 + s.waitCost ds limit) ≤ m
  omega

theorem applyCallee (h : s.Unlooped ds) (hds : ∀ d ∈ ds, Stmt.blockLoopFree d.body)
    {callee : Callee α} (hc : callee.Straight ds) (args : List Value) (l : α)
    (hm : price ds limit s.depth + s.waitCost ds limit ≤ m + 1) :
    (s.applyCallee limit callee args l).EndsWithin ds limit m := by
  have hpos := price_pos ds limit s.depth
  have hwait : s.waitCost ds limit ≤ m := by omega
  cases callee with
  | builtin b =>
    have hs : Unlooped ds ⟨s.control, s.stack, s.scopes, s.depth, (b.invoke args s.world).2⟩ :=
      ⟨h.stack, h.heap.inherit (b.inherits_invoke args s.world)⟩
    rw [State.applyCallee, callBuiltin_eq]
    split
    · exact (hs.releaseAll args).give _ hwait
    · exact (hs.releaseAll args).failAt _ _ hwait
  | function ref d closure =>
    rw [State.applyCallee]
    by_cases hlimit : limit ≤ s.depth
    · rw [if_pos hlimit]
      exact (h.releaseAll _).failAt _ _ hwait
    · rw [if_neg hlimit]
      exact h.callFunction hds ref closure hc args (Nat.lt_of_not_le hlimit) hm

theorem call (h : s.Unlooped ds) (scope : Nat) (callee : Identifier α) (args : List (Expr α))
    (l : α) (hm : Expr.argsCost (price ds limit s.depth) args + price ds limit s.depth + 1 +
      s.waitCost ds limit ≤ m) : (s.call scope callee args l).EndsWithin ds limit m := by
  have hwait : s.waitCost ds limit ≤ m := by omega
  unfold State.call
  split
  · exact h.failAt _ _ hwait
  · exact h.become trivial hm
  · rename_i r _
    split
    · exact h.failAt _ _ hwait
    · rename_i d closure hd
      split
      · exact h.failAt _ _ hwait
      · have hmem : d ∈ ds := h.heap r d closure (Heap.function?_eq_some.mp hd)
        exact (h.retain _).become hmem hm
  · exact h.failAt _ _ hwait

theorem eval (h : s.Unlooped ds) (scope : Nat) {e : Expr α}
    (hm : e.cost (price ds limit s.depth) + s.waitCost ds limit ≤ m + 1) :
    (s.eval scope e).EndsWithin ds limit m := by
  cases e with
  | integer text l =>
    rw [Expr.cost] at hm
    rw [State.eval]
    split
    · exact h.give _ (by omega)
    · exact h.failAt _ _ (by omega)
  | string value l =>
    rw [Expr.cost] at hm
    exact h.newString value (by omega)
  | reference id =>
    rw [Expr.cost] at hm
    have hwait : s.waitCost ds limit ≤ m := by omega
    rw [State.eval]
    split
    · exact (h.retain _).give _ hwait
    · exact h.failAt _ _ hwait
  | assign target value l =>
    rw [Expr.cost] at hm
    refine h.await trivial rfl trivial ?_
    simp only [Control.cost, Frame.cost]
    omega
  | binary op left right l =>
    rw [Expr.cost] at hm
    refine h.await trivial rfl trivial ?_
    simp only [Control.cost, Frame.cost]
    omega
  | callAt callee args l =>
    rw [Expr.cost] at hm
    exact h.call scope callee args l (by omega)

theorem exec (h : s.Unlooped ds) (scope : Nat) {st : Stmt α} (hst : st.loopFree)
    (hm : st.cost (price ds limit s.depth) + s.waitCost ds limit ≤ m + 1) :
    (s.exec scope st).EndsWithin ds limit m := by
  cases st with
  | declare id l =>
    rw [Stmt.cost] at hm
    have hwait : s.waitCost ds limit ≤ m := by omega
    rw [State.exec]
    split
    · exact h.failAt _ _ hwait
    · exact (h.bind _ _ _).give _ hwait
  | branch cond thenBlock elseBlock l =>
    rw [Stmt.cost] at hm
    have hblocks : Stmt.blockLoopFree thenBlock ∧ Stmt.elseLoopFree elseBlock := by
      simpa [Stmt.loopFree] using hst
    refine h.await hblocks rfl trivial ?_
    simp only [Control.cost, Frame.cost]
    omega
  | loop cond body l => simp [Stmt.loopFree] at hst
  | expr e =>
    rw [Stmt.cost] at hm
    exact h.become trivial (by simp only [Control.cost]; omega)

/-- The frame is off the stack, and so is its cost. -/
theorem resume {v : Value} {k : List (Frame α)} {scopes : Scopes} {depth : Nat} {world : World α}
    (h : Unlooped ds ⟨.give v, k, scopes, depth, world⟩) {f : Frame α} (hf : f.Straight ds)
    (hm : Frame.stackCost ds limit depth (f :: k) ≤ m + 1) :
    (State.resume ⟨.give v, k, scopes, depth, world⟩ v f).EndsWithin ds limit m := by
  have hpos := f.cost_pos (price ds limit depth)
  rw [Frame.stackCost] at hm
  cases f with
  | assign scope target =>
    have hwait : Frame.stackCost ds limit depth k ≤ m := by simp only [Frame.callsBelow] at hm; omega
    rw [State.resume]
    split
    · exact (h.release _).failAt _ _ hwait
    · exact ((h.retain _).bind _ _ _).give _ hwait
  | leftOperand scope op right l =>
    simp only [Frame.callsBelow, Frame.cost] at hm
    have hwait : Frame.stackCost ds limit depth k ≤ m := by omega
    cases v with
    | int a =>
      rw [State.resume]
      split
      · exact h.give _ hwait
      · refine h.await trivial rfl trivial ?_
        simp only [Control.cost, Frame.cost, waitCost]
        omega
    | _ => exact (h.release _).failAt _ _ hwait
  | rightOperand op a l =>
    have hwait : Frame.stackCost ds limit depth k ≤ m := by simp only [Frame.callsBelow] at hm; omega
    cases v with
    | int b =>
      rw [State.resume]
      split
      · exact h.give _ hwait
      · exact h.failAt _ _ hwait
    | _ => exact (h.release _).failAt _ _ hwait
  | arguments scope callee done rest l =>
    simp only [Frame.callsBelow, Frame.cost] at hm
    exact h.become hf (by simp only [Control.cost, waitCost]; omega)
  | leave scope =>
    simp only [Frame.callsBelow, Frame.cost] at hm
    exact h.closeScope trivial scope (by simp only [Control.cost, waitCost]; omega)
  | finish scope ref =>
    simp only [Frame.callsBelow, Frame.cost] at hm
    exact h.closeCall trivial scope ref (by simp only [Control.cost]; omega)
  | branch scope l thenBlock elseBlock =>
    obtain ⟨hthen, helse⟩ := hf
    simp only [Frame.callsBelow, Frame.cost] at hm
    have hwait : Frame.stackCost ds limit depth k ≤ m := by omega
    cases v with
    | int i =>
      simp only [State.resume]
      split
      · exact h.enterBlock scope hthen (by simp only [waitCost]; omega)
      · split
        · exact h.give _ hwait
        · rename_i ss
          rw [Stmt.elseCost] at hm
          exact h.enterBlock scope helse (by simp only [waitCost]; omega)
    | _ => exact (h.release _).failAt _ _ hwait
  | discard =>
    have hwait : Frame.stackCost ds limit depth k ≤ m := by simp only [Frame.callsBelow] at hm; omega
    exact (h.release _).give _ hwait
  | test scope cond body => exact hf.elim
  | again scope cond body => exact hf.elim
  | next scope rest =>
    simp only [Frame.callsBelow, Frame.cost] at hm
    exact h.become hf (by simp only [Control.cost, waitCost]; omega)
  | nextItem rest =>
    simp only [Frame.callsBelow, Frame.cost] at hm
    exact h.become hf (by simp only [Control.cost, waitCost]; omega)

theorem unwind {e : EvalError α} {k : List (Frame α)} {scopes : Scopes} {depth : Nat}
    {world : World α} (h : Unlooped ds ⟨.fail e, k, scopes, depth, world⟩) {f : Frame α}
    (hm : Frame.stackCost ds limit depth (f :: k) ≤ m + 1) :
    (State.unwind ⟨.fail e, k, scopes, depth, world⟩ f).EndsWithin ds limit m := by
  have hpos := f.cost_pos (price ds limit depth)
  rw [Frame.stackCost] at hm
  have hwait : 0 + Frame.stackCost ds limit (f.callsBelow depth) k ≤ m := by omega
  -- Nothing of what a frame was to do is done, but a scope or a call is still closed.
  cases f with
  | leave scope => exact h.closeScope trivial scope hwait
  | finish scope ref => exact h.closeCall trivial scope ref hwait
  | _ => exact ⟨h.releaseAll _, trivial, hwait⟩

end Unlooped

namespace EndsWithin

/-- Each step takes one off what is left. -/
theorem step (hds : ∀ d ∈ ds, Stmt.blockLoopFree d.body) (h : s.EndsWithin ds limit (m + 1))
    (hgoes : s.outcome? = none) : (s.step limit).EndsWithin ds limit m := by
  obtain ⟨control, stack, scopes, depth, world⟩ := s
  have hu := h.toUnlooped
  have hc := h.control
  have hm := h.cost
  cases control with
  | eval scope e => exact hu.eval scope hm
  | exec scope st => exact hu.exec scope hc hm
  | block scope rest last =>
    cases rest with
    | nil =>
      simp only [Control.cost, Stmt.blockCost] at hm
      exact hu.give last (by omega)
    | cons st rest =>
      simp only [Control.cost, Stmt.blockCost] at hm
      have hparts : st.loopFree ∧ Stmt.blockLoopFree rest := by
        simpa [Control.Straight, Stmt.blockLoopFree] using hc
      have hleft : st.cost (price ds limit depth) + (Stmt.blockCost (price ds limit depth) rest + 1) +
          Frame.stackCost ds limit depth stack ≤ m := by
        simp only [waitCost] at hm
        omega
      exact (hu.release last).await hparts.2 rfl hparts.1 hleft
  | items rest last =>
    cases rest with
    | nil =>
      simp only [Control.cost, Item.allCost] at hm
      exact hu.give last (by omega)
    | cons item rest =>
      obtain ⟨hfirst, hrest⟩ := List.forall_mem_cons.mp hc
      simp only [Control.cost, Item.allCost] at hm
      have hreleased := hu.release last
      cases item with
      | function d =>
        rw [Item.cost] at hm
        have hleft : Item.allCost (price ds limit depth) rest +
            Frame.stackCost ds limit depth stack ≤ m := by
          simp only [waitCost] at hm
          omega
        exact (hreleased.defineFunction hfirst).become hrest hleft
      | stmt st =>
        rw [Item.cost] at hm
        have hleft : st.cost (price ds limit depth) + (Item.allCost (price ds limit depth) rest + 1) +
            Frame.stackCost ds limit depth stack ≤ m := by
          simp only [waitCost] at hm
          omega
        exact hreleased.await hrest rfl hfirst hleft
  | loop scope cond body => exact hc.elim
  | arguments scope callee done rest l =>
    cases rest with
    | nil =>
      simp only [Control.cost, Expr.argsCost] at hm
      exact hu.become hc (by simp only [Control.cost]; omega)
    | cons e rest =>
      simp only [Control.cost, Expr.argsCost] at hm
      refine hu.await hc rfl trivial ?_
      simp only [Control.cost, Frame.cost]
      omega
  | apply callee args l => exact hu.applyCallee hds hc args l hm
  | give v =>
    cases stack with
    | nil => simp [outcome?] at hgoes
    | cons f k =>
      obtain ⟨hf, hk⟩ := List.forall_mem_cons.mp hu.stack
      exact Unlooped.resume ⟨hk, hu.heap⟩ hf (by simpa [Control.cost, waitCost] using hm)
  | fail e =>
    cases stack with
    | nil => simp [outcome?] at hgoes
    | cons f k =>
      have hk := (List.forall_mem_cons.mp hu.stack).2
      exact Unlooped.unwind ⟨hk, hu.heap⟩ (by simpa [Control.cost, waitCost] using hm)

theorem outcome?_isSome (h : s.EndsWithin ds limit 0) : s.outcome?.isSome := by
  obtain ⟨control, stack, scopes, depth, world⟩ := s
  have hc := h.control
  have hm := h.cost
  have hprice := price_pos ds limit depth
  have hstack : stack = [] := by
    cases stack with
    | nil => rfl
    | cons f k =>
      have hpos := f.cost_pos (price ds limit depth)
      simp only [waitCost, Frame.stackCost] at hm
      omega
  subst hstack
  cases control with
  | eval scope e => cases e <;> simp [Control.cost, Expr.cost] at hm
  | exec scope st => cases st <;> simp_all [Control.cost, Stmt.cost, Control.Straight, Stmt.loopFree]
  | block scope rest last => cases rest <;> simp [Control.cost, Stmt.blockCost] at hm
  | items rest last =>
    cases rest with
    | nil => simp [Control.cost, Item.allCost] at hm
    | cons item rest => cases item <;> simp [Control.cost, Item.allCost, Item.cost] at hm
  | loop scope cond body => exact hc.elim
  | arguments scope callee done rest l => simp [Control.cost] at hm
  | apply callee args l => simp only [Control.cost] at hm; omega
  | give v => rfl
  | fail e => rfl

/-- A run ends in as many steps as were counted. -/
theorem run (hds : ∀ d ∈ ds, Stmt.blockLoopFree d.body) (h : s.EndsWithin ds limit m) :
    ∃ r t, s.run limit m = some (r, t) := by
  induction m generalizing s with
  | zero =>
    obtain ⟨r, hr⟩ := Option.isSome_iff_exists.mp h.outcome?_isSome
    exact ⟨r, s, by rw [State.run, hr]⟩
  | succ m ih =>
    cases hout : s.outcome? with
    | some r => exact ⟨r, s, by rw [State.run, hout]⟩
    | none =>
      obtain ⟨r, t, hrun⟩ := ih (h.step hds hout)
      exact ⟨r, t, by rw [State.run, hout]; exact hrun⟩

end EndsWithin

end State

end Scriptlet
