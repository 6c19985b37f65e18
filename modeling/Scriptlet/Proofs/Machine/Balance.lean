import Scriptlet.Proofs.Builtin.Balance
import Scriptlet.Proofs.Machine.Arena
import Scriptlet.Proofs.Scopes.Values

/-!
Every step keeps the heap balanced against the values that the control, the waiting frames, the
scopes and somebody outside hold. The values between two of them, in the middle of a step, are
written out: a state owes them to whatever comes next.
-/

namespace Scriptlet

variable {α : Type}

namespace State

/-- The values that wait: all that is held, except by the control. -/
def waiting (s : State α) : List Value := s.stack.flatMap Frame.held ++ s.scopes.values

/-- The heap is balanced if `vs` are held besides the values that wait and those in `ext`. -/
def Owes (ext : List Value) (s : State α) (vs : List Value) : Prop :=
  s.world.heap.Balanced (vs ++ (s.waiting ++ ext))

/-- Every count is the number of holders, with `ext` held by somebody outside. -/
def Balanced (ext : List Value) (s : State α) : Prop := s.Owes ext s.control.held

namespace Owes

variable {ext : List Value} {s : State α} {vs us : List Value} {v : Value}

theorem keeps (h : s.Owes ext vs) (hv : v ∈ vs ∨ v ∈ s.waiting) : s.world.heap.Keeps v := by
  refine Heap.Balanced.keeps h v ?_
  simp only [List.mem_append]
  rcases hv with hv | hv
  · exact .inl (.inl hv)
  · exact .inl (.inr (.inl hv))

theorem congr (h : s.Owes ext vs) (hs : SameHeld vs us) : s.Owes ext us := by
  refine Heap.Balanced.congr h fun v hv => ?_
  simp only [List.count_append, hs v hv]

theorem become {c : Control α} (h : s.Owes ext c.held) : (s.become c).Balanced ext := h

theorem give (h : s.Owes ext [v]) : (s.give v).Balanced ext := h

theorem giveInt (h : s.Owes ext []) (i : Int64) : (s.give (.int i)).Balanced ext :=
  h.congr (sameHeld_cons rfl []).symm

theorem failAt (h : s.Owes ext []) (l : α) (c : Cause) : (s.failAt l c).Balanced ext := h

theorem pushFrame {f : Frame α} (h : s.Owes ext (f.held ++ vs)) : (s.pushFrame f).Owes ext vs := by
  refine Heap.Balanced.perm h ?_
  rw [List.perm_iff_count]
  intro w
  simp only [waiting, stack_pushFrame, scopes_pushFrame, List.flatMap_cons, List.count_append]
  omega

theorem popFrame {c : Control α} {f : Frame α} {k : List (Frame α)} {scopes : Scopes} {depth : Nat}
    {world : World α} (h : Owes ext ⟨c, f :: k, scopes, depth, world⟩ vs) :
    Owes ext ⟨c, k, scopes, depth, world⟩ (vs ++ f.held) := by
  unfold Owes waiting at h ⊢
  simpa only [List.flatMap_cons, List.append_assoc] using h

theorem await {f : Frame α} {c : Control α} (h : s.Owes ext (f.held ++ c.held)) :
    (s.await f c).Balanced ext := h.pushFrame.become

theorem retain (h : s.Owes ext vs) (hk : s.world.heap.Keeps v) : (s.retain v).Owes ext (v :: vs) :=
  Heap.Balanced.retain h hk

theorem releaseAll (h : s.Owes ext (us ++ vs)) : (s.releaseAll us).Owes ext vs := by
  have hb : s.world.heap.Balanced (us ++ (vs ++ (s.waiting ++ ext))) := by
    rw [← List.append_assoc]
    exact h
  exact hb.releaseAll

theorem release (h : s.Owes ext (v :: vs)) : (s.release v).Owes ext vs := by
  have hone : s.Owes ext ([v] ++ vs) := h
  exact hone.releaseAll

theorem bind {id : Nat} {name : String} (h : s.Owes ext (v :: vs)) :
    (s.bind id name v).Owes ext vs := by
  have hperm := List.perm_iff_count.mp (s.scopes.perm_bind_values id name v)
  have hb : s.world.heap.Balanced ((s.scopes.bind id name v).2.toList ++
      (vs ++ ((s.bind id name v).waiting ++ ext))) := by
    refine Heap.Balanced.perm h (List.perm_iff_count.mpr fun w => ?_)
    have hw := hperm w
    simp only [waiting, stack_bind, scopes_bind, List.cons_append, List.count_cons,
      List.count_append] at hw ⊢
    omega
  exact hb.releaseAll

theorem closeScope (h : s.Owes ext vs) (id : Nat) : (s.closeScope id).Owes ext vs := by
  have hb : s.world.heap.Balanced ((s.scopes.pop id).2 ++
      (vs ++ ((s.closeScope id).waiting ++ ext))) := by
    refine Heap.Balanced.perm h (List.perm_iff_count.mpr fun w => ?_)
    simp only [waiting, stack_closeScope, scopes_closeScope, List.count_append,
      ← s.scopes.values_pop id]
    omega
  exact hb.releaseAll

theorem closeCall {ref : Nat} (h : s.Owes ext (.function ref :: vs)) (id : Nat) :
    (s.closeCall id ref).Owes ext vs := (h.closeScope id).release

theorem enter {p : Nat} {c : Nat → Control α} (h : s.Owes ext (c s.scopes.depth).held) :
    (s.enter p c).Balanced ext := by
  have hvalues := s.scopes.values_push p
  refine Heap.Balanced.perm h ?_
  rw [List.perm_iff_count]
  intro w
  simp only [waiting, stack_enter, scopes_enter, control_enter, List.flatMap_cons, Frame.held,
    List.nil_append, hvalues]

theorem alloc (h : s.Owes ext vs) {o : Object α} (value : Nat → Value) (ho : o.held = [])
    (hv : ∀ r, (value r).ref? = some r ∧ o.kind = (value r).kind) :
    (s.make o value).Owes ext (value s.world.heap.cells.size :: vs) := by
  have hb : s.world.heap.Balanced (o.held ++ (vs ++ (s.waiting ++ ext))) := by
    rw [ho]
    exact h
  exact hb.alloc (hv _).1 (hv _).2

theorem newString (h : s.Owes ext []) (text : String) :
    (s.make (.string text) .string).Balanced ext :=
  h.alloc .string rfl fun _ => ⟨rfl, rfl⟩

theorem defineFunction (h : s.Owes ext vs) (d : FunctionDef α) :
    (s.defineFunction d).Owes ext vs := by
  have hmade := h.alloc (o := .function d Scopes.globalScope) .function rfl fun _ => ⟨rfl, rfl⟩
  exact hmade.bind

theorem bindParams {id : Nat} {params : List (Identifier α)} {args : List Value}
    (h : s.Owes ext (args ++ vs)) (hlen : args.length = params.length) :
    (s.bindParams id params args).Owes ext vs := by
  induction params generalizing s args with
  | nil =>
    obtain rfl : args = [] := List.length_eq_zero_iff.mp hlen
    exact h
  | cons p params ih =>
    cases args with
    | nil => simp at hlen
    | cons v args => exact ih (s := s.bind id p.name v) (Owes.bind h) (by simpa using hlen)

theorem openScope (h : s.Owes ext vs) (p : Nat) : (s.openScope p).Owes ext vs := by
  have hwaiting : (s.openScope p).waiting = s.waiting :=
    congrArg (s.stack.flatMap Frame.held ++ ·) (s.scopes.values_push p)
  rw [Owes, hwaiting]
  exact h

theorem callFunction {ref closure : Nat} {d : FunctionDef α} {args : List Value}
    (h : s.Owes ext (.function ref :: args)) (hlen : args.length = d.params.length) :
    (s.callFunction ref d closure args).Balanced ext := by
  have hargs : s.Owes ext (args ++ [.function ref]) :=
    h.congr (sameHeld_of_perm (List.perm_append_singleton _ _).symm)
  have hparams : (s.withParams d closure args).Owes ext [.function ref] :=
    (hargs.openScope closure).bindParams hlen
  have hframe : ((s.withParams d closure args).pushFrame (.finish s.scopes.depth ref)).Owes ext
      [] := pushFrame (f := .finish s.scopes.depth ref) hparams
  have hbody := (hframe.openScope s.scopes.depth).congr (sameHeld_cons (v := .int 0) rfl []).symm
  rw [callFunction_eq]
  exact hbody

theorem callBuiltin {args : List Value} (h : s.Owes ext args) (b : Builtin) (l : α) :
    (s.callBuiltin b args l).Balanced ext := by
  have hb := Builtin.balanced_invoke h b
  rw [callBuiltin_eq]
  unfold World.AnswerBalanced at hb
  cases hanswer : (b.invoke args s.world).1 with
  | error c =>
    rw [hanswer] at hb
    have hall : Owes ext ⟨s.control, s.stack, s.scopes, s.depth, (b.invoke args s.world).2⟩
        (args ++ []) := by
      rw [List.append_nil]
      exact hb
    exact hall.releaseAll.failAt l c
  | ok v =>
    rw [hanswer] at hb
    have hall : Owes ext ⟨s.control, s.stack, s.scopes, s.depth, (b.invoke args s.world).2⟩
        (args ++ [v]) := by
      refine Heap.Balanced.perm hb (List.perm_iff_count.mpr fun w => ?_)
      simp only [Except.toOption, Option.toList, waiting, List.count_append, List.count_cons]
      omega
    exact hall.releaseAll.give

theorem of_ints (h : s.Owes ext []) (i : Int64) : s.Owes ext [.int i] :=
  h.congr (sameHeld_cons rfl []).symm

theorem lookup_keeps (h : s.Owes ext vs) {id : Nat} {name : String}
    (hv : s.scopes.lookup id name = some v) : s.world.heap.Keeps v := by
  have hmem := s.scopes.mem_values_of_lookup hv
  exact h.keeps (.inr (List.mem_append_right _ hmem))

theorem call (h : s.Owes ext []) (scope : Nat) (callee : Identifier α) (args : List (Expr α))
    (l : α) : (s.call scope callee args l).Balanced ext := by
  unfold State.call
  split
  · exact h.failAt _ _
  · exact h.become
  · rename_i r hlookup
    split
    · exact h.failAt _ _
    · split
      · exact h.failAt _ _
      · exact (h.retain (h.lookup_keeps hlookup)).become
  · exact h.failAt _ _

theorem eval (h : s.Owes ext []) (scope : Nat) (e : Expr α) : (s.eval scope e).Balanced ext := by
  cases e with
  | integer text l =>
    rw [State.eval]
    split
    · exact h.giveInt _
    · exact h.failAt _ _
  | string value l => exact h.newString value
  | reference id =>
    rw [State.eval]
    split
    · rename_i v hlookup
      exact (h.retain (h.lookup_keeps hlookup)).give
    · exact h.failAt _ _
  | assign target value l => exact await h
  | binary op left right l => exact await h
  | callAt callee args l => exact h.call scope callee args l

theorem exec (h : s.Owes ext []) (scope : Nat) (st : Stmt α) : (s.exec scope st).Balanced ext := by
  cases st with
  | declare id l =>
    rw [State.exec]
    split
    · exact h.failAt _ _
    · exact (h.of_ints 0).bind.giveInt 0
  | branch cond thenBlock elseBlock l => exact await h
  | loop cond body l => exact h.become
  | expr e => exact h.become

theorem enterBlock {f : Frame α} (h : s.Owes ext []) (hf : f.held = []) (p : Nat)
    (ss : List (Stmt α)) : ((s.pushFrame f).enter p (.block · ss (.int 0))).Balanced ext := by
  have hpush : (s.pushFrame f).Owes ext [] := by
    apply pushFrame
    rw [hf]
    exact h
  exact (hpush.of_ints 0).enter

theorem resume {f : Frame α} (h : s.Owes ext (v :: f.held)) (hc : s.control = .give v) :
    (s.resume v f).Balanced ext := by
  cases f with
  | assign scope target =>
    rw [State.resume]
    split
    · exact h.release.failAt _ _
    · have hkeeps : s.world.heap.Keeps v := h.keeps (.inl List.mem_cons_self)
      exact (h.retain hkeeps).bind.give
  | leftOperand scope op right l =>
    cases v with
    | int a =>
      have hnone := h.congr (sameHeld_cons rfl [])
      rw [State.resume]
      split
      · exact hnone.giveInt _
      · exact await hnone
    | _ => exact h.release.failAt _ _
  | rightOperand op a l =>
    cases v with
    | int b =>
      have hnone := h.congr (sameHeld_cons rfl [])
      rw [State.resume]
      split
      · exact hnone.giveInt _
      · exact hnone.failAt _ _
    | _ => exact h.release.failAt _ _
  | arguments scope callee done rest l =>
    refine become (h.congr (sameHeld_of_perm (List.perm_iff_count.mpr fun w => ?_)))
    simp only [Frame.held, Control.held, List.count_cons, List.count_append, List.count_nil]
    omega
  | leave scope =>
    have hclosed := h.closeScope scope
    rw [State.Balanced, State.resume, control_closeScope, hc]
    exact hclosed
  | finish scope ref =>
    have hswap : s.Owes ext [.function ref, v] := h.congr (sameHeld_of_perm (List.Perm.swap ..))
    have hclosed := hswap.closeCall scope
    rw [State.Balanced, State.resume, control_closeCall, hc]
    exact hclosed
  | branch scope l thenBlock elseBlock =>
    cases v with
    | int i =>
      have hnone := h.congr (sameHeld_cons rfl [])
      simp only [State.resume]
      split
      · exact hnone.enterBlock rfl _ _
      · split
        · exact hnone.giveInt _
        · exact hnone.enterBlock rfl _ _
    | _ => exact h.release.failAt _ _
  | discard => exact h.release.giveInt 0
  | test scope cond body =>
    cases v with
    | int i =>
      have hnone := h.congr (sameHeld_cons rfl [])
      rw [State.resume]
      split
      · exact hnone.enterBlock rfl _ _
      · exact hnone.giveInt _
    | _ => exact h.release.failAt _ _
  | again scope cond body => exact h.release.become
  | next scope rest => exact h
  | nextItem rest => exact h

theorem unwind {f : Frame α} (h : s.Owes ext f.held) {e : EvalError α} (hc : s.control = .fail e) :
    (s.unwind f).Balanced ext := by
  have hheld : s.Owes ext (f.held ++ []) := by rwa [List.append_nil]
  have hreleased := hheld.releaseAll
  cases f with
  | leave scope =>
    have hclosed := h.closeScope scope
    rw [State.Balanced, State.unwind, control_closeScope, hc]
    exact hclosed
  | finish scope ref =>
    have hclosed : (s.closeCall scope ref).Owes ext [] := closeCall h scope
    rw [State.Balanced, State.unwind, control_closeCall, hc]
    exact hclosed
  | _ =>
    change (State.releaseAll s _).Owes ext s.control.held
    rw [hc]
    exact hreleased

end Owes

variable {ext : List Value} {s : State α} {limit : Nat}

theorem Owes.applyCallee {callee : Callee α} {args : List Value} {l : α}
    (h : s.Owes ext (callee.held ++ args)) (hc : callee.Sound args.length) :
    (s.applyCallee limit callee args l).Balanced ext := by
  cases callee with
  | builtin b => exact h.callBuiltin b l
  | function ref d closure =>
    rw [State.applyCallee]
    split
    · have hall : s.Owes ext ((.function ref :: args) ++ []) := by rwa [List.append_nil]
      exact hall.releaseAll.failAt _ _
    · exact h.callFunction hc.2

/-- A step needs no more than that a user function gets an argument for each parameter. -/
theorem Balanced.step_of_sound (h : s.Balanced ext)
    (hc : ∀ callee args l, s.control = .apply callee args l → callee.Sound args.length) :
    (s.step limit).Balanced ext := by
  obtain ⟨control, stack, scopes, depth, world⟩ := s
  cases control with
  | eval scope e => exact Owes.eval h scope e
  | exec scope st => exact Owes.exec h scope st
  | block scope rest last =>
    cases rest with
    | nil => exact h
    | cons st rest => exact Owes.await (Owes.release h)
  | items rest last =>
    cases rest with
    | nil => exact h
    | cons item rest =>
      cases item with
      | function d => exact ((Owes.release h).defineFunction d).of_ints 0
      | stmt st => exact Owes.await (Owes.release h)
  | loop scope cond body => exact Owes.enter (Owes.pushFrame h)
  | arguments scope callee done rest l =>
    cases rest with
    | nil => exact h
    | cons e rest =>
      refine Owes.await (f := .arguments scope callee done rest l) (c := .eval scope e) ?_
      rw [show (Control.eval scope e).held = [] from rfl, List.append_nil]
      exact h
  | apply callee args l => exact Owes.applyCallee h (hc callee args l rfl)
  | give v =>
    cases stack with
    | nil => exact h
    | cons f k =>
      exact (Owes.popFrame h).resume rfl
  | fail e =>
    cases stack with
    | nil => exact h
    | cons f k =>
      exact (Owes.popFrame h).unwind rfl

theorem Balanced.step (h : s.Balanced ext) (ho : s.Orderly limit) :
    (s.step limit).Balanced ext := by
  refine h.step_of_sound fun callee args l hcontrol => ?_
  have hsound := ho.control
  rwa [hcontrol] at hsound

end State

end Scriptlet
