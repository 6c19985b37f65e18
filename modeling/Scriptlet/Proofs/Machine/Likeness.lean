import Scriptlet.Proofs.Builtin.Likeness
import Scriptlet.Proofs.Machine.Exits
import Scriptlet.Proofs.Program.Relocation
import Scriptlet.Proofs.Scopes.Likeness

/-!
Two runs side by side. They do the same program parts, on matched objects and in matched scopes,
while different frames and different scopes may lie below. As long as neither gives its answer to
the frames below, every step of the one is a step of the other.
-/

namespace Scriptlet

variable {α β : Type}

/-- The same built-in function, or matched functions of the global scope with `n` parameters. -/
inductive Callee.Alike (c : Coupling α β) (n : Nat) : Callee α → Callee β → Prop
  | builtin (b : Builtin) : Alike c n (.builtin b) (.builtin b)
  | function {r r' : Nat} (h : c.objects.Rel r r') (d : FunctionDef c.Place)
    (hn : n = d.params.length) :
    Alike c n (.function r (d.map c.left) Scopes.globalScope)
      (.function r' (d.map c.right) Scopes.globalScope)

/-- Frames that close no scope, waiting for the same in matched scopes. -/
inductive Frame.Alike (c : Coupling α β) (k : Nat) : Frame α → Frame β → Prop
  | assign {i j : Nat} (h : c.scopes.Below k i j) (target : Identifier c.Place) :
    Alike c k (.assign i (target.map c.left)) (.assign j (target.map c.right))
  | leftOperand {i j : Nat} (h : c.scopes.Below k i j) (op : BinaryOp) (right : Expr c.Place)
    (l : c.Place) :
    Alike c k (.leftOperand i op (right.map c.left) (c.left l))
      (.leftOperand j op (right.map c.right) (c.right l))
  | rightOperand (op : BinaryOp) (left : Int64) (l : c.Place) :
    Alike c k (.rightOperand op left (c.left l)) (.rightOperand op left (c.right l))
  | arguments {i j : Nat} {f : Callee α} {f' : Callee β} {done done' : List Value}
    (h : c.scopes.Below k i j) (rest : List (Expr c.Place))
    (hf : f.Alike c (done.length + 1 + rest.length) f')
    (hdone : List.Forall₂ (Value.Alike c.objects) done done') (l : c.Place) :
    Alike c k (.arguments i f done (Expr.mapArgs c.left rest) (c.left l))
      (.arguments j f' done' (Expr.mapArgs c.right rest) (c.right l))
  | branch {i j : Nat} (h : c.scopes.Below k i j) (l : c.Place) (thenBlock : List (Stmt c.Place))
    (elseBlock : Option (List (Stmt c.Place))) :
    Alike c k
      (.branch i (c.left l) (Stmt.mapBlock c.left thenBlock) (Stmt.mapElse c.left elseBlock))
      (.branch j (c.right l) (Stmt.mapBlock c.right thenBlock) (Stmt.mapElse c.right elseBlock))
  | discard : Alike c k .discard .discard
  | test {i j : Nat} (h : c.scopes.Below k i j) (cond : Expr c.Place)
    (body : List (Stmt c.Place)) :
    Alike c k (.test i (cond.map c.left) (Stmt.mapBlock c.left body))
      (.test j (cond.map c.right) (Stmt.mapBlock c.right body))
  | again {i j : Nat} (h : c.scopes.Below k i j) (cond : Expr c.Place)
    (body : List (Stmt c.Place)) :
    Alike c k (.again i (cond.map c.left) (Stmt.mapBlock c.left body))
      (.again j (cond.map c.right) (Stmt.mapBlock c.right body))
  | next {i j : Nat} (h : c.scopes.Below k i j) (rest : List (Stmt c.Place)) :
    Alike c k (.next i (Stmt.mapBlock c.left rest)) (.next j (Stmt.mapBlock c.right rest))
  | nextItem (rest : List (Item c.Place)) :
    Alike c k (.nextItem (rest.map (Item.map c.left))) (.nextItem (rest.map (Item.map c.right)))

/-- The same work, on like values and in matched scopes. -/
inductive Control.Alike (c : Coupling α β) (k : Nat) : Control α → Control β → Prop
  | eval {i j : Nat} (h : c.scopes.Below k i j) (e : Expr c.Place) :
    Alike c k (.eval i (e.map c.left)) (.eval j (e.map c.right))
  | exec {i j : Nat} (h : c.scopes.Below k i j) (st : Stmt c.Place) :
    Alike c k (.exec i (st.map c.left)) (.exec j (st.map c.right))
  | block {i j : Nat} {v v' : Value} (h : c.scopes.Below k i j) (rest : List (Stmt c.Place))
    (hv : v.Alike c.objects v') :
    Alike c k (.block i (Stmt.mapBlock c.left rest) v) (.block j (Stmt.mapBlock c.right rest) v')
  | items {v v' : Value} (rest : List (Item c.Place)) (hv : v.Alike c.objects v') :
    Alike c k (.items (rest.map (Item.map c.left)) v) (.items (rest.map (Item.map c.right)) v')
  | loop {i j : Nat} (h : c.scopes.Below k i j) (cond : Expr c.Place)
    (body : List (Stmt c.Place)) :
    Alike c k (.loop i (cond.map c.left) (Stmt.mapBlock c.left body))
      (.loop j (cond.map c.right) (Stmt.mapBlock c.right body))
  | arguments {i j : Nat} {f : Callee α} {f' : Callee β} {done done' : List Value}
    (h : c.scopes.Below k i j) (rest : List (Expr c.Place))
    (hf : f.Alike c (done.length + rest.length) f')
    (hdone : List.Forall₂ (Value.Alike c.objects) done done') (l : c.Place) :
    Alike c k (.arguments i f done (Expr.mapArgs c.left rest) (c.left l))
      (.arguments j f' done' (Expr.mapArgs c.right rest) (c.right l))
  | apply {f : Callee α} {f' : Callee β} {args args' : List Value}
    (hf : f.Alike c args.length f') (hargs : List.Forall₂ (Value.Alike c.objects) args args')
    (l : c.Place) : Alike c k (.apply f args (c.left l)) (.apply f' args' (c.right l))
  | give {v v' : Value} (hv : v.Alike c.objects v') : Alike c k (.give v) (.give v')
  | fail (cause : Cause) (l : c.Place) :
    Alike c k (.fail ⟨cause, some (c.left l)⟩) (.fail ⟨cause, some (c.right l)⟩)

variable {c : Coupling α β}

theorem Callee.Alike.sound {n : Nat} {f : Callee α} {f' : Callee β} (h : f.Alike c n f') :
    f.Sound n ∧ f'.Sound n := by
  cases h with
  | builtin b => exact ⟨trivial, trivial⟩
  | function h d hn =>
    refine ⟨⟨rfl, ?_⟩, rfl, ?_⟩
    · rw [hn, FunctionDef.map, List.length_map]
    · rw [hn, FunctionDef.map, List.length_map]

theorem Control.Alike.answers_iff {k : Nat} {x : Control α} {y : Control β} (h : x.Alike c k y) :
    x.Answers ↔ y.Answers := by
  cases h <;> exact Iff.rfl

theorem Control.Alike.sound {k : Nat} {x : Control α} {y : Control β} (h : x.Alike c k y) :
    (∀ f args l, x = .apply f args l → f.Sound args.length) ∧
      ∀ f args l, y = .apply f args l → f.Sound args.length := by
  cases h with
  | apply hf hargs l =>
    refine ⟨fun f args l heq => ?_, fun f args l heq => ?_⟩
    · cases heq
      exact hf.sound.1
    · cases heq
      rw [← hargs.length_eq]
      exact hf.sound.2
  | _ => exact ⟨nofun, nofun⟩

/-- Stacks above `below` and `below'`. The frames that close scopes close the matched ones that
were opened since, and `k` scopes are open in the end. -/
inductive StackAlike (c : Coupling α β) (below : List (Frame α)) (below' : List (Frame β)) :
    Nat → List (Frame α) → List (Frame β) → Prop
  | base : StackAlike c below below' 0 below below'
  | leave {k : Nat} {fs : List (Frame α)} {fs' : List (Frame β)}
    (h : StackAlike c below below' k fs fs') :
    StackAlike c below below' (k + 1) (.leave (c.scopes.left + k) :: fs)
      (.leave (c.scopes.right + k) :: fs')
  | finish {k : Nat} {fs : List (Frame α)} {fs' : List (Frame β)}
    (h : StackAlike c below below' k fs fs') (r r' : Nat) :
    StackAlike c below below' (k + 2) (.finish (c.scopes.left + k) r :: fs)
      (.finish (c.scopes.right + k) r' :: fs')
  | plain {k : Nat} {f : Frame α} {f' : Frame β} {fs : List (Frame α)} {fs' : List (Frame β)}
    (h : StackAlike c below below' k fs fs') (hf : f.Alike c k f') :
    StackAlike c below below' k (f :: fs) (f' :: fs')

theorem StackAlike.exists_above {below fs : List (Frame α)} {below' fs' : List (Frame β)} {k : Nat}
    (h : StackAlike c below below' k fs fs') :
    ∃ gs gs', fs = gs ++ below ∧ fs' = gs' ++ below' ∧ gs.length = gs'.length := by
  have hcons : ∀ {hs : List (Frame α)} {hs' : List (Frame β)} (f : Frame α) (f' : Frame β),
      (∃ gs gs', hs = gs ++ below ∧ hs' = gs' ++ below' ∧ gs.length = gs'.length) →
      ∃ gs gs', f :: hs = gs ++ below ∧ f' :: hs' = gs' ++ below' ∧ gs.length = gs'.length := by
    rintro _ _ f f' ⟨gs, gs', rfl, rfl, hlen⟩
    exact ⟨f :: gs, f' :: gs', rfl, rfl, by rw [List.length_cons, List.length_cons, hlen]⟩
  induction h with
  | base => exact ⟨[], [], rfl, rfl, rfl⟩
  | leave _ ih => exact hcons _ _ ih
  | finish _ _ _ ih => exact hcons _ _ ih
  | plain _ _ ih => exact hcons _ _ ih

theorem StackAlike.eq_iff {below fs : List (Frame α)} {below' fs' : List (Frame β)} {k : Nat}
    (h : StackAlike c below below' k fs fs') : fs = below ↔ fs' = below' := by
  obtain ⟨gs, gs', rfl, rfl, hlen⟩ := h.exists_above
  rw [List.append_left_eq_self, List.append_left_eq_self, ← List.length_eq_zero_iff,
    ← List.length_eq_zero_iff, hlen]

theorem StackAlike.eq_zero {below fs : List (Frame α)} {below' fs' : List (Frame β)} {k : Nat}
    (h : StackAlike c below below' k fs fs') (hfs : fs = below) : k = 0 := by
  have hlonger : ∀ {n : Nat} {f : Frame α} {gs : List (Frame α)} {gs' : List (Frame β)},
      StackAlike c below below' n gs gs' → f :: gs ≠ below := by
    intro n f gs gs' hgs heq
    obtain ⟨hs, hs', rfl, -, -⟩ := hgs.exists_above
    have hlen := congrArg List.length heq
    rw [List.length_cons, List.length_append] at hlen
    omega
  cases h with
  | base => rfl
  | leave hk => exact absurd hfs (hlonger hk)
  | finish hk r r' => exact absurd hfs (hlonger hk)
  | plain hk hf => exact absurd hfs (hlonger hk)

namespace State

/-- Two states except for their controls, in runs that began as `s₀` and `t₀`: `n` scopes are open
since, and the stacks wait in `k` of them. -/
structure Alike (c : Coupling α β) (s₀ : State α) (t₀ : State β) (n k : Nat) (s : State α)
    (t : State β) : Prop where
  scopes : Scopes.Alike c s₀.scopes t₀.scopes n s.scopes t.scopes
  stack : StackAlike c s₀.stack t₀.stack k s.stack t.stack
  depth : s.depth = t.depth
  world : s.world.Alike c t.world

/-- Two states that are side by side in runs that began as `s₀` and `t₀`. -/
def Twins (c : Coupling α β) (s₀ : State α) (t₀ : State β) (s : State α) (t : State β) : Prop :=
  ∃ k, Alike c s₀ t₀ k k s t ∧ s.control.Alike c k t.control

variable {s₀ s : State α} {t₀ t : State β} {n k : Nat} {v v' : Value}

namespace Alike

theorem become (h : Alike c s₀ t₀ k k s t) {x : Control α} {y : Control β} (hc : x.Alike c k y) :
    Twins c s₀ t₀ (s.become x) (t.become y) :=
  ⟨k, ⟨h.scopes, h.stack, h.depth, h.world⟩, hc⟩

theorem give (h : Alike c s₀ t₀ k k s t) (hv : v.Alike c.objects v') :
    Twins c s₀ t₀ (s.give v) (t.give v') := h.become (.give hv)

theorem failAt (h : Alike c s₀ t₀ k k s t) (l : c.Place) (cause : Cause) :
    Twins c s₀ t₀ (s.failAt (c.left l) cause) (t.failAt (c.right l) cause) :=
  h.become (.fail cause l)

theorem pushFrame (h : Alike c s₀ t₀ n k s t) {f : Frame α} {f' : Frame β} (hf : f.Alike c k f') :
    Alike c s₀ t₀ n k (s.pushFrame f) (t.pushFrame f') :=
  ⟨h.scopes, h.stack.plain hf, h.depth, h.world⟩

theorem await (h : Alike c s₀ t₀ k k s t) {f : Frame α} {f' : Frame β} (hf : f.Alike c k f')
    {x : Control α} {y : Control β} (hc : x.Alike c k y) :
    Twins c s₀ t₀ (s.await f x) (t.await f' y) := (h.pushFrame hf).become hc

theorem retain (h : Alike c s₀ t₀ n k s t) (v v' : Value) :
    Alike c s₀ t₀ n k (s.retain v) (t.retain v') :=
  ⟨h.scopes, h.stack, h.depth, h.world.heap.retain v v', h.world.input, h.world.sink⟩

theorem releaseAll (h : Alike c s₀ t₀ n k s t) (vs vs' : List Value) :
    Alike c s₀ t₀ n k (s.releaseAll vs) (t.releaseAll vs') :=
  ⟨h.scopes, h.stack, h.depth, h.world.heap.releaseAll vs vs', h.world.input, h.world.sink⟩

theorem release (h : Alike c s₀ t₀ n k s t) (v v' : Value) :
    Alike c s₀ t₀ n k (s.release v) (t.release v') := h.releaseAll [v] [v']

theorem bind (h : Alike c s₀ t₀ n k s t) {i j : Nat} (hij : c.scopes.Below n i j)
    (hv : v.Alike c.objects v') (name : String) :
    Alike c s₀ t₀ n k (s.bind i name v) (t.bind j name v') := by
  have hbound : Alike c s₀ t₀ n k
      ⟨s.control, s.stack, (s.scopes.bind i name v).1, s.depth, s.world⟩
      ⟨t.control, t.stack, (t.scopes.bind j name v').1, t.depth, t.world⟩ :=
    ⟨h.scopes.bind hij hv name, h.stack, h.depth, h.world⟩
  exact hbound.releaseAll _ _

theorem openScope (h : Alike c s₀ t₀ n k s t) {p q : Nat} (hp : c.scopes.Below n p q) :
    Alike c s₀ t₀ (n + 1) k (s.openScope p) (t.openScope q) :=
  ⟨h.scopes.push hp, h.stack, h.depth, h.world⟩

theorem closeScope (h : Alike c s₀ t₀ n k s t) (hk : k ≤ n) :
    Alike c s₀ t₀ k k (s.closeScope (c.scopes.left + k)) (t.closeScope (c.scopes.right + k)) := by
  have hclosed : Alike c s₀ t₀ k k
      ⟨s.control, s.stack, (s.scopes.pop (c.scopes.left + k)).1, s.depth, s.world⟩
      ⟨t.control, t.stack, (t.scopes.pop (c.scopes.right + k)).1, t.depth, t.world⟩ :=
    ⟨h.scopes.pop hk, h.stack, h.depth, h.world⟩
  exact hclosed.releaseAll _ _

theorem closeCall (h : Alike c s₀ t₀ n k s t) (hk : k ≤ n) (r r' : Nat) :
    Alike c s₀ t₀ k k (s.closeCall (c.scopes.left + k) r)
      (t.closeCall (c.scopes.right + k) r') := by
  have hclosed := h.closeScope hk
  have hcalls : Alike c s₀ t₀ k k
      ⟨s.control, s.stack, (s.closeScope (c.scopes.left + k)).scopes, s.depth - 1,
        (s.closeScope (c.scopes.left + k)).world⟩
      ⟨t.control, t.stack, (t.closeScope (c.scopes.right + k)).scopes, t.depth - 1,
        (t.closeScope (c.scopes.right + k)).world⟩ :=
    ⟨hclosed.scopes, hclosed.stack, congrArg (· - 1) h.depth, hclosed.world⟩
  exact hcalls.release _ _

theorem enter (h : Alike c s₀ t₀ k k s t) {p q : Nat} (hp : c.scopes.Below k p q)
    {x : Nat → Control α} {y : Nat → Control β}
    (hc : (x (c.scopes.left + k)).Alike c (k + 1) (y (c.scopes.right + k))) :
    Twins c s₀ t₀ (s.enter p x) (t.enter q y) := by
  have hopen := h.openScope hp
  have hframe : Alike c s₀ t₀ (k + 1) (k + 1)
      ((s.openScope p).pushFrame (.leave (c.scopes.left + k)))
      ((t.openScope q).pushFrame (.leave (c.scopes.right + k))) :=
    ⟨hopen.scopes, hopen.stack.leave, hopen.depth, hopen.world⟩
  have htwins := hframe.become hc
  rw [← h.scopes.left, ← h.scopes.right] at htwins
  exact htwins

theorem make (h : Alike c s₀ t₀ k k s t) {o : Object α} {o' : Object β} (ho : o.Alike c o')
    {value : Nat → Value}
    (hvalue : ∀ r r', c.objects.Rel r r' → (value r).Alike c.objects (value r')) :
    Twins c s₀ t₀ (s.make o value) (t.make o' value) := by
  have hmade : Alike c s₀ t₀ k k (s.onHeap fun g => (g.alloc o).2)
      (t.onHeap fun g => (g.alloc o').2) :=
    ⟨h.scopes, h.stack, h.depth, h.world.heap.alloc ho, h.world.input, h.world.sink⟩
  exact hmade.give (hvalue _ _ h.world.heap.rel_size)

theorem below_global (c : Coupling α β) (n : Nat) :
    c.scopes.Below n Scopes.globalScope Scopes.globalScope := .inl ⟨rfl, c.global⟩

theorem defineFunction (h : Alike c s₀ t₀ n k s t) (d : FunctionDef c.Place) :
    Alike c s₀ t₀ n k (s.defineFunction (d.map c.left)) (t.defineFunction (d.map c.right)) := by
  have hmade : Alike c s₀ t₀ n k
      (s.onHeap fun g => (g.alloc (.function (d.map c.left) Scopes.globalScope)).2)
      (t.onHeap fun g => (g.alloc (.function (d.map c.right) Scopes.globalScope)).2) :=
    ⟨h.scopes, h.stack, h.depth, h.world.heap.alloc (.function d), h.world.input, h.world.sink⟩
  exact hmade.bind (below_global c n) (.function h.world.heap.rel_size) d.name

theorem bindParams (h : Alike c s₀ t₀ n k s t) {i j : Nat} (hij : c.scopes.Below n i j)
    (params : List (Identifier c.Place)) {args args' : List Value}
    (hargs : List.Forall₂ (Value.Alike c.objects) args args') :
    Alike c s₀ t₀ n k (s.bindParams i (params.map (Identifier.map c.left)) args)
      (t.bindParams j (params.map (Identifier.map c.right)) args') := by
  induction params generalizing s t args args' with
  | nil => exact h
  | cons p params ih =>
    cases hargs with
    | nil => exact h
    | cons hv hargs => exact ih (h.bind hij hv p.name) hargs

theorem callFunction (h : Alike c s₀ t₀ k k s t) (d : FunctionDef c.Place)
    {args args' : List Value} (hargs : List.Forall₂ (Value.Alike c.objects) args args')
    (r r' : Nat) :
    Twins c s₀ t₀ (s.callFunction r (d.map c.left) Scopes.globalScope args)
      (t.callFunction r' (d.map c.right) Scopes.globalScope args') := by
  have hframe : c.scopes.Below (k + 1) s.scopes.depth t.scopes.depth := by
    rw [h.scopes.left, h.scopes.right]
    exact c.scopes.below_new (Nat.lt_succ_self k)
  have hparams : Alike c s₀ t₀ (k + 1) k (s.withParams (d.map c.left) Scopes.globalScope args)
      (t.withParams (d.map c.right) Scopes.globalScope args') :=
    (h.openScope (below_global c k)).bindParams hframe d.params hargs
  have hbody := hparams.openScope hframe
  rw [callFunction_eq, callFunction_eq]
  refine ⟨k + 2, ⟨hbody.scopes, ?_, ?_, hbody.world⟩, ?_⟩
  · rw [h.scopes.left, h.scopes.right]
    exact hparams.stack.finish r r'
  · exact congrArg (· + 1) hparams.depth
  · rw [hparams.scopes.left, hparams.scopes.right]
    exact .block (c.scopes.below_new (Nat.lt_succ_self (k + 1))) d.body (.int 0)

theorem callBuiltin (h : Alike c s₀ t₀ k k s t) (b : Builtin) {args args' : List Value}
    (hargs : List.Forall₂ (Value.Alike c.objects) args args') {ext ext' : List Value}
    (hb : s.Owes ext args) (hb' : t.Owes ext' args') (l : c.Place) :
    Twins c s₀ t₀ (s.callBuiltin b args (c.left l)) (t.callBuiltin b args' (c.right l)) := by
  have hanswer := Builtin.alike_invoke b h.world hargs hb hb'
  rw [callBuiltin_eq, callBuiltin_eq]
  generalize b.invoke args s.world = x at hanswer ⊢
  generalize b.invoke args' t.world = y at hanswer ⊢
  cases hanswer with
  | @ok w w' v v' hv hw =>
    have hworld : Alike c s₀ t₀ k k ⟨s.control, s.stack, s.scopes, s.depth, w⟩
        ⟨t.control, t.stack, t.scopes, t.depth, w'⟩ := ⟨h.scopes, h.stack, h.depth, hw⟩
    exact (hworld.releaseAll args args').give hv
  | @error w w' cause hw =>
    have hworld : Alike c s₀ t₀ k k ⟨s.control, s.stack, s.scopes, s.depth, w⟩
        ⟨t.control, t.stack, t.scopes, t.depth, w'⟩ := ⟨h.scopes, h.stack, h.depth, hw⟩
    exact (hworld.releaseAll args args').failAt l cause

theorem applyCallee (h : Alike c s₀ t₀ k k s t) {f : Callee α} {f' : Callee β}
    {args args' : List Value} (hf : f.Alike c args.length f')
    (hargs : List.Forall₂ (Value.Alike c.objects) args args') {ext ext' : List Value}
    (hb : s.Owes ext (f.held ++ args)) (hb' : t.Owes ext' (f'.held ++ args')) (limit : Nat)
    (l : c.Place) :
    Twins c s₀ t₀ (s.applyCallee limit f args (c.left l))
      (t.applyCallee limit f' args' (c.right l)) := by
  cases hf with
  | builtin b => exact h.callBuiltin b hargs hb hb' l
  | @function r r' hr d hn =>
    simp only [State.applyCallee, h.depth]
    split
    · exact (h.releaseAll (.function r :: args) (.function r' :: args')).failAt l _
    · exact h.callFunction d hargs r r'

/-! ### What the parts of a program set out to do -/

variable {ext ext' vs vs' : List Value} {i j : Nat}

theorem call (h : Alike c s₀ t₀ k k s t) (hij : c.scopes.Below k i j)
    (callee : Identifier c.Place) (args : List (Expr c.Place)) (l : c.Place) (hb : s.Owes ext vs)
    (hb' : t.Owes ext' vs') :
    Twins c s₀ t₀ (s.call i (callee.map c.left) (Expr.mapArgs c.left args) (c.left l))
      (t.call j (callee.map c.right) (Expr.mapArgs c.right args) (c.right l)) := by
  have hfound := h.scopes.lookup hij callee.name
  have hk : ∀ v, s.scopes.lookup i callee.name = some v → s.world.heap.Keeps v :=
    fun v => hb.lookup_keeps
  have hk' : ∀ v, t.scopes.lookup j callee.name = some v → t.world.heap.Keeps v :=
    fun v => hb'.lookup_keeps
  simp only [State.call, Identifier.map]
  generalize s.scopes.lookup i callee.name = x at hfound hk ⊢
  generalize t.scopes.lookup j callee.name = y at hfound hk' ⊢
  cases hfound with
  | none => exact h.failAt callee.location _
  | some hv =>
    cases hv with
    | int a => exact h.failAt l _
    | array hr => exact h.failAt l _
    | string hr => exact h.failAt l _
    | builtin b => exact h.become (.arguments hij args (.builtin b) .nil l)
    | @function r r' hr =>
      obtain ⟨d, hd, hd'⟩ := h.world.heap.function? hr (hk _ rfl) (hk' _ rfl)
      have harity : (d.map c.left).arity = d.params.length := List.length_map _
      have harity' : (d.map c.right).arity = d.params.length := List.length_map _
      simp only [hd, hd', Expr.length_mapArgs, harity, harity']
      split
      · exact h.failAt l (.arityMismatch d.name _ _)
      · rename_i hlen
        have hcallee : Callee.Alike c (([] : List Value).length + args.length)
            (.function r (d.map c.left) Scopes.globalScope)
            (.function r' (d.map c.right) Scopes.globalScope) :=
          .function hr d (by simpa using Decidable.not_not.mp hlen)
        exact (h.retain _ _).become (.arguments hij args hcallee .nil l)

theorem eval (h : Alike c s₀ t₀ k k s t) (hij : c.scopes.Below k i j) (e : Expr c.Place)
    (hb : s.Owes ext vs) (hb' : t.Owes ext' vs') :
    Twins c s₀ t₀ (s.eval i (e.map c.left)) (t.eval j (e.map c.right)) := by
  cases e with
  | integer text l =>
    simp only [Expr.map, State.eval]
    split
    · exact h.give (.int _)
    · exact h.failAt l _
  | string value l => exact h.make (.string value) fun _ _ => .string
  | reference id =>
    have hfound := h.scopes.lookup hij id.name
    simp only [Expr.map, State.eval, Identifier.map]
    generalize s.scopes.lookup i id.name = x at hfound ⊢
    generalize t.scopes.lookup j id.name = y at hfound ⊢
    cases hfound with
    | none => exact h.failAt id.location _
    | some hv => exact (h.retain _ _).give hv
  | assign target value l => exact h.await (.assign hij target) (.eval hij value)
  | binary op left right l => exact h.await (.leftOperand hij op right l) (.eval hij left)
  | callAt callee args l => exact h.call hij callee args l hb hb'

theorem exec (h : Alike c s₀ t₀ k k s t) (hij : c.scopes.Below k i j) (st : Stmt c.Place) :
    Twins c s₀ t₀ (s.exec i (st.map c.left)) (t.exec j (st.map c.right)) := by
  cases st with
  | declare id l =>
    have hsame := h.scopes.defines_eq hij id.name
    simp only [Stmt.map, State.exec, Identifier.map, hsame]
    split
    · exact h.failAt l _
    · exact (h.bind hij (.int 0) id.name).give (.int 0)
  | branch cond thenBlock elseBlock l =>
    simp only [Stmt.map, State.exec, Expr.location_map]
    exact h.await (.branch hij cond.location thenBlock elseBlock) (.eval hij cond)
  | loop cond body l => exact h.become (.loop hij cond body)
  | expr e => exact h.become (.eval hij e)

/-! ### How answers reach the frames -/

theorem enterBlock (h : Alike c s₀ t₀ k k s t) {f : Frame α} {f' : Frame β}
    (hf : f.Alike c k f') (hij : c.scopes.Below k i j) (ss : List (Stmt c.Place)) :
    Twins c s₀ t₀ ((s.pushFrame f).enter i (.block · (Stmt.mapBlock c.left ss) (.int 0)))
      ((t.pushFrame f').enter j (.block · (Stmt.mapBlock c.right ss) (.int 0))) :=
  (h.pushFrame hf).enter hij (.block (c.scopes.below_new (Nat.lt_succ_self k)) ss (.int 0))

theorem refuse (h : Alike c s₀ t₀ k k s t) (hv : v.Alike c.objects v') (l : c.Place)
    (cause : Kind → Cause) :
    Twins c s₀ t₀ ((s.release v).failAt (c.left l) (cause v.kind))
      ((t.release v').failAt (c.right l) (cause v'.kind)) := by
  rw [hv.kind_eq]
  exact (h.release v v').failAt l _

theorem resume (h : Alike c s₀ t₀ k k s t) {f : Frame α} {f' : Frame β} (hf : f.Alike c k f')
    (hv : v.Alike c.objects v') : Twins c s₀ t₀ (s.resume v f) (t.resume v' f') := by
  have hrefused := h.refuse hv
  cases hf with
  | assign hij target =>
    have howner := h.scopes.resolve hij target.name
    simp only [State.resume, Identifier.map]
    generalize s.scopes.resolve _ target.name = x at howner ⊢
    generalize t.scopes.resolve _ target.name = y at howner ⊢
    cases howner with
    | none => exact (h.release v v').failAt target.location _
    | some hxy => exact ((h.retain v v').bind hxy hv target.name).give hv
  | leftOperand hij op right l =>
    cases hv with
    | int a =>
      simp only [State.resume]
      split
      · exact h.give (.int _)
      · exact h.await (.rightOperand op a l) (.eval hij right)
    | _ => exact hrefused l (.nonNumericOperand op)
  | rightOperand op a l =>
    cases hv with
    | int b =>
      simp only [State.resume]
      split
      · exact h.give (.int _)
      · exact h.failAt l _
    | _ => exact hrefused l (.nonNumericOperand op)
  | @arguments i j f f' done done' hij rest hf hdone l =>
    have hlen : done.length + 1 + rest.length = (done ++ [v]).length + rest.length := by
      rw [List.length_append, List.length_singleton]
    rw [hlen] at hf
    exact h.become (.arguments hij rest hf (List.rel_append hdone (.cons hv .nil)) l)
  | branch hij l thenBlock elseBlock =>
    cases hv with
    | int a =>
      simp only [State.resume]
      split
      · exact h.enterBlock .discard hij thenBlock
      · cases elseBlock with
        | none => exact h.give (.int 0)
        | some ss => exact h.enterBlock .discard hij ss
    | _ => exact hrefused l .nonNumericCondition
  | discard => exact (h.release v v').give (.int 0)
  | test hij cond body =>
    cases hv with
    | int a =>
      simp only [State.resume]
      split
      · exact h.enterBlock (.again hij cond body) hij body
      · exact h.give (.int 0)
    | _ =>
      simp only [State.resume, Expr.location_map]
      exact hrefused cond.location .nonNumericCondition
  | again hij cond body => exact (h.release v v').become (.loop hij cond body)
  | next hij rest => exact h.become (.block hij rest hv)
  | nextItem rest => exact h.become (.items rest hv)

theorem unwind (h : Alike c s₀ t₀ k k s t) {f : Frame α} {f' : Frame β} (hf : f.Alike c k f')
    (hc : s.control.Alike c k t.control) : Twins c s₀ t₀ (s.unwind f) (t.unwind f') := by
  have hreleased := h.releaseAll f.held f'.held
  cases hf <;> exact ⟨k, hreleased, hc⟩

end Alike

end State

end Scriptlet
