import Scriptlet.Proofs.Machine.Answers
import Scriptlet.Proofs.Machine.Confinement
import Scriptlet.Proofs.Scopes.Padding

/-!
A run beneath an empty scope. Step by step it does what the run without that scope does: the
objects are the same, and the scopes opened later have places one further on.
-/

namespace Scriptlet

variable {α : Type}

def Control.skip (P : Padding) : Control α → Control α
  | .eval scope e => .eval (P.skip scope) e
  | .exec scope st => .exec (P.skip scope) st
  | .block scope rest last => .block (P.skip scope) rest last
  | .loop scope cond body => .loop (P.skip scope) cond body
  | .arguments scope callee done rest l => .arguments (P.skip scope) callee done rest l
  | c => c

def Frame.skip (P : Padding) : Frame α → Frame α
  | .assign scope target => .assign (P.skip scope) target
  | .leftOperand scope op right l => .leftOperand (P.skip scope) op right l
  | .arguments scope callee done rest l => .arguments (P.skip scope) callee done rest l
  | .leave scope => .leave (P.skip scope)
  | .finish scope ref => .finish (P.skip scope) ref
  | .branch scope l thenBlock elseBlock => .branch (P.skip scope) l thenBlock elseBlock
  | .test scope cond body => .test (P.skip scope) cond body
  | .again scope cond body => .again (P.skip scope) cond body
  | .next scope rest => .next (P.skip scope) rest
  | f => f

/-- The same frames wait above `below` and above `below'`. -/
inductive StackSkips (P : Padding) (below below' : List (Frame α)) :
    List (Frame α) → List (Frame α) → Prop
  | base : StackSkips P below below' below below'
  | cons {k k' : List (Frame α)} (f : Frame α) (h : StackSkips P below below' k k') :
    StackSkips P below below' (f :: k) (f.skip P :: k')

theorem StackSkips.exists_above {P : Padding} {below below' k k' : List (Frame α)}
    (h : StackSkips P below below' k k') :
    ∃ fs, k = fs ++ below ∧ k' = fs.map (Frame.skip P) ++ below' := by
  induction h with
  | base => exact ⟨[], rfl, rfl⟩
  | cons f _ ih =>
    obtain ⟨fs, rfl, rfl⟩ := ih
    exact ⟨f :: fs, rfl, rfl⟩

/-- Work that finds the empty scope open, and declares nothing in it. -/
@[reducible] def Padding.region (P : Padding) : Region :=
  ⟨P.place + 1, fun _ => True, Nat.succ_pos _, trivial⟩

namespace State

variable {P : Padding} {below below' : List (Frame α)} {limit : Nat} {s t : State α}

/-- The second state is the first without the empty scope, except for the controls and for the
frames `below` and `below'`. -/
structure Skips (P : Padding) (below below' : List (Frame α)) (s t : State α) : Prop where
  scopes : Scopes.Padded P s.scopes t.scopes
  stack : StackSkips P below below' s.stack t.stack
  depth : t.depth = s.depth
  world : t.world = s.world

def Mirrors (P : Padding) (below below' : List (Frame α)) (s t : State α) : Prop :=
  s.Skips P below below' t ∧ t.control = s.control.skip P

namespace Skips

variable {v : Value} {id : Nat}

theorem become (h : s.Skips P below below' t) (c : Control α) :
    Mirrors P below below' (s.become c) (t.become (c.skip P)) :=
  ⟨⟨h.scopes, h.stack, h.depth, h.world⟩, rfl⟩

theorem give (h : s.Skips P below below' t) (v : Value) :
    Mirrors P below below' (s.give v) (t.give v) := h.become (.give v)

theorem failAt (h : s.Skips P below below' t) (l : α) (cause : Cause) :
    Mirrors P below below' (s.failAt l cause) (t.failAt l cause) := h.become _

theorem pushFrame (h : s.Skips P below below' t) (f : Frame α) :
    (s.pushFrame f).Skips P below below' (t.pushFrame (f.skip P)) :=
  ⟨h.scopes, h.stack.cons f, h.depth, h.world⟩

theorem await (h : s.Skips P below below' t) (f : Frame α) (c : Control α) :
    Mirrors P below below' (s.await f c) (t.await (f.skip P) (c.skip P)) :=
  (h.pushFrame f).become c

theorem onHeap (h : s.Skips P below below' t) (g : Heap α → Heap α) :
    (s.onHeap g).Skips P below below' (t.onHeap g) :=
  ⟨h.scopes, h.stack, h.depth,
    congrArg (fun w : World α => World.mk (g w.heap) w.input w.sink) h.world⟩

theorem retain (h : s.Skips P below below' t) (v : Value) :
    (s.retain v).Skips P below below' (t.retain v) := h.onHeap _

theorem releaseAll (h : s.Skips P below below' t) {vs vs' : List Value} (hvs : vs' = vs) :
    (s.releaseAll vs).Skips P below below' (t.releaseAll vs') := by
  rw [hvs]
  exact h.onHeap _

theorem release (h : s.Skips P below below' t) (v : Value) :
    (s.release v).Skips P below below' (t.release v) := h.releaseAll rfl

theorem bind (h : s.Skips P below below' t) (hid : id ≠ P.place) (name : String) (v : Value) :
    (s.bind id name v).Skips P below below' (t.bind (P.skip id) name v) := by
  obtain ⟨hscopes, hfreed⟩ := h.scopes.bind hid name v
  have hbound : Skips P below below'
      ⟨s.control, s.stack, (s.scopes.bind id name v).1, s.depth, s.world⟩
      ⟨t.control, t.stack, (t.scopes.bind (P.skip id) name v).1, t.depth, t.world⟩ :=
    ⟨hscopes, h.stack, h.depth, h.world⟩
  exact hbound.releaseAll (congrArg Option.toList hfreed)

theorem openScope (h : s.Skips P below below' t) (p : Nat) :
    (s.openScope p).Skips P below below' (t.openScope (P.skip p)) :=
  ⟨h.scopes.push p, h.stack, h.depth, h.world⟩

theorem closeScope (h : s.Skips P below below' t) (hid : P.place < id) (hle : id ≤ s.scopes.depth) :
    (s.closeScope id).Skips P below below' (t.closeScope (P.skip id)) := by
  obtain ⟨hscopes, hfreed⟩ := h.scopes.pop hid hle
  have hclosed : Skips P below below'
      ⟨s.control, s.stack, (s.scopes.pop id).1, s.depth, s.world⟩
      ⟨t.control, t.stack, (t.scopes.pop (P.skip id)).1, t.depth, t.world⟩ :=
    ⟨hscopes, h.stack, h.depth, h.world⟩
  exact hclosed.releaseAll hfreed

theorem closeCall (h : s.Skips P below below' t) (hid : P.place < id) (hle : id ≤ s.scopes.depth)
    (ref : Nat) :
    (s.closeCall id ref).Skips P below below' (t.closeCall (P.skip id) ref) := by
  have hclosed := h.closeScope hid hle
  have hcalls : Skips P below below'
      ⟨s.control, s.stack, (s.closeScope id).scopes, s.depth - 1, (s.closeScope id).world⟩
      ⟨t.control, t.stack, (t.closeScope (P.skip id)).scopes, t.depth - 1,
        (t.closeScope (P.skip id)).world⟩ :=
    ⟨hclosed.scopes, hclosed.stack, congrArg (· - 1) h.depth, hclosed.world⟩
  exact hcalls.release _

theorem enter (h : s.Skips P below below' t) (p : Nat) {x y : Nat → Control α}
    (hc : y (P.skip s.scopes.depth) = (x s.scopes.depth).skip P) :
    Mirrors P below below' (s.enter p x) (t.enter (P.skip p) y) := by
  have hopen := (h.openScope p).pushFrame (.leave s.scopes.depth)
  have hplace : t.scopes.depth = P.skip s.scopes.depth := h.scopes.skip_depth.symm
  refine ⟨⟨hopen.scopes, ?_, hopen.depth, hopen.world⟩, ?_⟩
  · rw [stack_enter, stack_enter, hplace]
    exact hopen.stack
  · rw [control_enter, control_enter, hplace, hc]

theorem enterBlock (h : s.Skips P below below' t) (f : Frame α) (p : Nat) (ss : List (Stmt α)) :
    Mirrors P below below' ((s.pushFrame f).enter p (.block · ss (.int 0)))
      ((t.pushFrame (f.skip P)).enter (P.skip p) (.block · ss (.int 0))) :=
  (h.pushFrame f).enter p rfl

theorem make (h : s.Skips P below below' t) (o : Object α) (value : Nat → Value) :
    Mirrors P below below' (s.make o value) (t.make o value) := by
  have hmade := h.onHeap fun g => (g.alloc o).2
  refine ⟨⟨hmade.scopes, hmade.stack, hmade.depth, hmade.world⟩, ?_⟩
  change Control.give (value t.world.heap.cells.size) = .give (value s.world.heap.cells.size)
  rw [h.world]

theorem bindParams (h : s.Skips P below below' t) (hid : id ≠ P.place)
    (params : List (Identifier α)) (args : List Value) :
    (s.bindParams id params args).Skips P below below'
      (t.bindParams (P.skip id) params args) := by
  induction params generalizing s t args with
  | nil => exact h
  | cons p params ih =>
    cases args with
    | nil => exact h
    | cons v args => exact ih (h.bind hid p.name v) args

theorem callFunction (h : s.Skips P below below' t) (d : FunctionDef α) (args : List Value)
    (ref : Nat) :
    Mirrors P below below' (s.callFunction ref d Scopes.globalScope args)
      (t.callFunction ref d Scopes.globalScope args) := by
  have hplace : t.scopes.depth = P.skip s.scopes.depth := h.scopes.skip_depth.symm
  have hparams : (s.withParams d Scopes.globalScope args).Skips P below below'
      (t.withParams d Scopes.globalScope args) := by
    have hopen := h.openScope Scopes.globalScope
    rw [P.skip_global] at hopen
    rw [withParams, withParams, hplace]
    exact hopen.bindParams h.scopes.ne_depth d.params args
  have hbody := (hparams.openScope s.scopes.depth).pushFrame (.finish s.scopes.depth ref)
  rw [callFunction_eq, callFunction_eq, hplace]
  refine ⟨⟨hbody.scopes, hbody.stack, congrArg (· + 1) hparams.depth, hbody.world⟩, ?_⟩
  change Control.block (t.withParams d Scopes.globalScope args).scopes.depth d.body (.int 0) = _
  rw [← hparams.scopes.skip_depth]
  rfl

theorem callBuiltin (h : s.Skips P below below' t) (b : Builtin) (args : List Value) (l : α) :
    Mirrors P below below' (s.callBuiltin b args l) (t.callBuiltin b args l) := by
  have hworld : Skips P below below'
      ⟨s.control, s.stack, s.scopes, s.depth, (b.invoke args s.world).2⟩
      ⟨t.control, t.stack, t.scopes, t.depth, (b.invoke args s.world).2⟩ :=
    ⟨h.scopes, h.stack, h.depth, rfl⟩
  rw [callBuiltin_eq, callBuiltin_eq, h.world]
  split
  · exact (hworld.releaseAll rfl).give _
  · exact (hworld.releaseAll rfl).failAt _ _

theorem applyCallee (h : s.Skips P below below' t) {callee : Callee α} {args : List Value}
    (hc : callee.Sound args.length) (l : α) :
    Mirrors P below below' (s.applyCallee limit callee args l)
      (t.applyCallee limit callee args l) := by
  cases callee with
  | builtin b => exact h.callBuiltin b args l
  | function ref d closure =>
    obtain rfl : closure = Scopes.globalScope := hc.1
    rw [State.applyCallee, State.applyCallee, h.depth]
    split
    · exact (h.releaseAll rfl).failAt _ _
    · exact h.callFunction d args ref

/-! ### What the parts of a program set out to do -/

section Lookup

variable (h : s.Skips P below below' t) (hs : s.scopes.Ordered) (ht : t.scopes.Ordered)
  {scope : Nat} (hscope : scope < s.scopes.depth)
include h hs ht hscope

theorem call (callee : Identifier α) (args : List (Expr α)) (l : α) :
    Mirrors P below below' (s.call scope callee args l) (t.call (P.skip scope) callee args l) := by
  unfold State.call
  rw [h.scopes.lookup hs ht hscope, h.world]
  split
  · exact h.failAt _ _
  · exact h.become (.arguments scope _ [] args l)
  · split
    · exact h.failAt _ _
    · split
      · exact h.failAt _ _
      · exact (h.retain _).become (.arguments scope _ [] args l)
  · exact h.failAt _ _

theorem eval (e : Expr α) :
    Mirrors P below below' (s.eval scope e) (t.eval (P.skip scope) e) := by
  cases e with
  | integer text l =>
    rw [State.eval, State.eval]
    split
    · exact h.give _
    · exact h.failAt _ _
  | string value l => exact h.make _ _
  | reference id =>
    rw [State.eval, State.eval, h.scopes.lookup hs ht hscope]
    split
    · exact (h.retain _).give _
    · exact h.failAt _ _
  | assign target value l => exact h.await (.assign scope target) (.eval scope value)
  | binary op left right l => exact h.await (.leftOperand scope op right l) (.eval scope left)
  | callAt callee args l => exact h.call hs ht hscope callee args l

end Lookup

theorem exec (h : s.Skips P below below' t) {scope : Nat} {st : Stmt α}
    (hst : ∀ id l, st = .declare id l → scope ≠ P.place) :
    Mirrors P below below' (s.exec scope st) (t.exec (P.skip scope) st) := by
  cases st with
  | declare id l =>
    have hne := hst id l rfl
    rw [State.exec, State.exec, h.scopes.defines hne]
    split
    · exact h.failAt _ _
    · exact (h.bind hne _ _).give _
  | branch cond thenBlock elseBlock l =>
    exact h.await (.branch scope cond.location thenBlock elseBlock) (.eval scope cond)
  | loop cond body l => exact h.become (.loop scope cond body)
  | expr e => exact h.become (.eval scope e)

/-! ### How answers reach the frames -/

section Frames

variable (h : s.Skips P below below' t) (hc : t.control = s.control.skip P) {f : Frame α}
  {k : List (Frame α)} {calls : Nat} (hf : f.Confined P.region)
  (hfits : Fits (f :: k) s.scopes.depth calls)
include h hc hf hfits

theorem close (hclosing : (∃ id, f = .leave id) ∨ ∃ id ref, f = .finish id ref) (v : Value) :
    Mirrors P below below' (s.resume v f) (t.resume v (f.skip P)) ∧
      Mirrors P below below' (s.unwind f) (t.unwind (f.skip P)) := by
  rcases hclosing with ⟨id, rfl⟩ | ⟨id, ref, rfl⟩
  · obtain ⟨hdepth, -⟩ := hfits.of_leave
    have hclosed : Mirrors P below below' (s.closeScope id) (t.closeScope (P.skip id)) :=
      ⟨h.closeScope hf (by omega), hc⟩
    exact ⟨hclosed, hclosed⟩
  · obtain ⟨hdepth, -⟩ := hfits.of_finish
    have hclosed : Mirrors P below below' (s.closeCall id ref) (t.closeCall (P.skip id) ref) :=
      ⟨h.closeCall hf (by omega) ref, hc⟩
    exact ⟨hclosed, hclosed⟩

theorem resume (hs : s.scopes.Ordered) (ht : t.scopes.Ordered) (v : Value) :
    Mirrors P below below' (s.resume v f) (t.resume v (f.skip P)) := by
  have hrefused : ∀ l cause,
      Mirrors P below below' ((s.release v).failAt l cause) ((t.release v).failAt l cause) :=
    fun l cause => (h.release v).failAt l cause
  cases f with
  | leave id => exact (h.close hc hf hfits (.inl ⟨id, rfl⟩) v).1
  | finish id ref => exact (h.close hc hf hfits (.inr ⟨id, ref, rfl⟩) v).1
  | assign scope target =>
    obtain ⟨-, hscope⟩ := hfits.of_plain (by simp) (by simp)
    simp only [Frame.skip, State.resume]
    rw [h.scopes.resolve hs ht hscope]
    cases howner : s.scopes.resolve scope target.name with
    | none => exact hrefused _ _
    | some owner =>
      have hne := h.scopes.owner_ne hs hscope howner
      exact ((h.retain v).bind hne target.name v).give v
  | leftOperand scope op right l =>
    cases v with
    | int a =>
      simp only [Frame.skip, State.resume]
      split
      · exact h.give _
      · exact h.await (.rightOperand op a l) (.eval scope right)
    | _ => exact hrefused _ _
  | rightOperand op a l =>
    cases v with
    | int b =>
      simp only [Frame.skip, State.resume]
      split
      · exact h.give _
      · exact h.failAt _ _
    | _ => exact hrefused _ _
  | arguments scope callee done rest l =>
    exact h.become (.arguments scope callee (done ++ [v]) rest l)
  | branch scope l thenBlock elseBlock =>
    cases v with
    | int i =>
      simp only [Frame.skip, State.resume]
      split
      · exact h.enterBlock .discard scope thenBlock
      · cases elseBlock with
        | none => exact h.give _
        | some ss => exact h.enterBlock .discard scope ss
    | _ => exact hrefused _ _
  | discard => exact (h.release v).give _
  | test scope cond body =>
    cases v with
    | int i =>
      simp only [Frame.skip, State.resume]
      split
      · exact h.enterBlock (.again scope cond body) scope body
      · exact h.give _
    | _ => exact hrefused _ _
  | again scope cond body => exact (h.release v).become (.loop scope cond body)
  | next scope rest => exact h.become (.block scope rest v)
  | nextItem rest => exact h.become (.items rest v)

theorem unwind : Mirrors P below below' (s.unwind f) (t.unwind (f.skip P)) := by
  cases f with
  | leave id => exact (h.close hc hf hfits (.inl ⟨id, rfl⟩) (.int 0)).2
  | finish id ref => exact (h.close hc hf hfits (.inr ⟨id, ref, rfl⟩) (.int 0)).2
  | _ => exact ⟨h.releaseAll rfl, hc⟩

end Frames

end Skips

theorem Mirrors.step (h : Mirrors P below below' s t) (hs : s.Orderly limit) (ht : t.Orderly limit)
    (hconfined : s.Confined P.region below) (hout : s.stack = below → ¬ s.control.Answers) :
    Mirrors P below below' (s.step limit) (t.step limit) := by
  obtain ⟨h, hc⟩ := h
  have hsound := hs.control
  have hplace := hconfined.stays.1
  obtain ⟨control, stack, scopes, depth, world⟩ := s
  obtain ⟨control', stack', scopes', depth', world'⟩ := t
  obtain rfl : control' = control.skip P := hc
  cases control with
  | eval scope e => exact h.eval hs.scopes ht.scopes hsound e
  | exec scope st =>
    refine h.exec fun id l hst => ?_
    rcases hplace with hlate | ⟨-, hno⟩
    · exact Nat.ne_of_gt hlate
    · exact absurd hst (hno id l)
  | block scope rest last =>
    cases rest with
    | nil => exact h.give last
    | cons st rest => exact (h.release last).await (.next scope rest) (.exec scope st)
  | items rest last => exact hplace.elim
  | loop scope cond body =>
    exact (h.pushFrame (.test scope cond body)).enter scope (x := (.eval · cond))
      (y := (.eval · cond)) rfl
  | arguments scope callee done rest l =>
    cases rest with
    | nil => exact h.become (.apply callee done l)
    | cons e rest => exact h.await (.arguments scope callee done rest l) (.eval scope e)
  | apply callee args l => exact h.applyCallee hsound l
  | give v =>
    obtain ⟨⟨-, hframes⟩, -⟩ := hconfined
    cases hframes with
    | base => exact absurd trivial (hout rfl)
    | @cons f k hf _ =>
      obtain ⟨hscopes, hstack, hdepth, hworld⟩ := h
      cases hstack with
      | base => exact absurd trivial (hout rfl)
      | @cons _ k' _ hk =>
        have hpopped : Skips P below below' ⟨.give v, k, scopes, depth, world⟩
            ⟨.give v, k', scopes', depth', world'⟩ := ⟨hscopes, hk, hdepth, hworld⟩
        exact hpopped.resume rfl hf hs.fits hs.scopes ht.scopes v
  | fail e =>
    obtain ⟨⟨-, hframes⟩, -⟩ := hconfined
    cases hframes with
    | base => exact absurd trivial (hout rfl)
    | @cons f k hf _ =>
      obtain ⟨hscopes, hstack, hdepth, hworld⟩ := h
      cases hstack with
      | base => exact absurd trivial (hout rfl)
      | @cons _ k' _ hk =>
        have hpopped : Skips P below below' ⟨.fail e, k, scopes, depth, world⟩
            ⟨.fail e, k', scopes', depth', world'⟩ := ⟨hscopes, hk, hdepth, hworld⟩
        exact hpopped.unwind rfl hf hs.fits

/-! ### Whole runs -/

theorem leads_leave {c : Control α} {σ σ' : Scopes} {n : Nat} {w : World α}
    {k k' : List (Frame α)} (h : Scopes.Padded P σ σ')
    (hs : Orderly limit ⟨c, .leave P.place :: k, σ, n, w⟩) (hc : c.Answers)
    (hk : k'.length ≤ k.length) :
    Leads limit k' ⟨c, .leave P.place :: k, σ, n, w⟩ ⟨c, k, σ', n, w⟩ := by
  obtain ⟨hdepth, -⟩ := hs.fits.of_leave
  have hpop : σ.pop P.place = (σ', []) := h.pop_place hs.scopes hdepth
  have hclose : closeScope ⟨c, k, σ, n, w⟩ P.place = ⟨c, k, σ', n, w⟩ := by
    change releaseAll ⟨c, k, (σ.pop P.place).1, n, w⟩ (σ.pop P.place).2 = _
    rw [hpop, releaseAll_nil]
  refine .step (Nat.lt_succ_of_le hk) ?_ (.refl _)
  cases c with
  | give v => exact hclose
  | fail e => exact hclose
  | _ => exact hc.elim

/-- The states that a run beneath an empty scope and the one without it come to at a time. -/
structure Merged (limit : Nat) (P : Padding) (below below' : List (Frame α)) (s t : State α) :
    Prop where
  mirrors : Mirrors P below below' s t
  left : s.Orderly limit
  right : t.Orderly limit
  confined : s.Confined P.region below

namespace Merged

variable {u v v' : State α} {k : List (Frame α)}

theorem answersTo_iff (h : Merged limit P below below' s t) :
    s.AnswersTo below ↔ t.AnswersTo below' := by
  obtain ⟨fs, hfs, hfs'⟩ := h.mirrors.1.stack.exists_above
  have hcontrol : t.control.Answers ↔ s.control.Answers := by
    rw [h.mirrors.2]
    cases s.control <;> exact Iff.rfl
  rw [AnswersTo, AnswersTo, hfs, hfs', hcontrol, List.append_left_eq_self,
    List.append_left_eq_self, List.map_eq_nil_iff]

theorem step (h : Merged limit P below below' s t) (hout : ¬ s.AnswersTo below) :
    Merged limit P below below' (s.step limit) (t.step limit) := by
  have hgoes : s.stack = below → ¬ s.control.Answers := fun hstack ha => hout ⟨hstack, ha⟩
  exact ⟨h.mirrors.step h.left h.right h.confined hgoes, h.left.step, h.right.step,
    (h.confined.step h.left hgoes).1⟩

theorem exists_right (h : Merged limit P below below' s t) (hv : FirstAnswer limit below s v) :
    ∃ v', FirstAnswer limit below' t v' ∧ Merged limit P below below' v v' := by
  induction hv generalizing t with
  | here hyes => exact ⟨t, .here (h.answersTo_iff.mp hyes), h⟩
  | later hno _ ih =>
    obtain ⟨v', hv', hmerged⟩ := ih (h.step hno)
    exact ⟨v', .later (fun hyes => hno (h.answersTo_iff.mpr hyes)) hv', hmerged⟩

theorem exists_left (h : Merged limit P below below' s t) (hv : FirstAnswer limit below' t v') :
    ∃ v, FirstAnswer limit below s v ∧ Merged limit P below below' v v' := by
  induction hv generalizing s with
  | here hyes => exact ⟨s, .here (h.answersTo_iff.mpr hyes), h⟩
  | later hno _ ih =>
    have hno' := fun hyes => hno (h.answersTo_iff.mp hyes)
    obtain ⟨v, hv, hmerged⟩ := ih (h.step hno')
    exact ⟨v, .later hno' hv, hmerged⟩

/-- Runs that are the same up to the answers for `below` and `below'` have the same answers for the
frames `k` further down if they have so from there on. -/
theorem firstAnswer_iff (h : Merged limit P below below' s t) (hk : k <:+ below)
    (hk' : k <:+ below')
    (hrest : ∀ v v', FirstAnswer limit below s v → FirstAnswer limit below' t v' →
      Merged limit P below below' v v' → (FirstAnswer limit k v u ↔ FirstAnswer limit k v' u)) :
    FirstAnswer limit k s u ↔ FirstAnswer limit k t u := by
  obtain ⟨fs, hfs, hfs'⟩ := h.mirrors.1.stack.exists_above
  rw [FirstAnswer.split (hfs ▸ List.suffix_append fs below) hk,
    FirstAnswer.split (hfs' ▸ List.suffix_append _ below') hk']
  constructor
  · rintro ⟨v, hv, hu⟩
    obtain ⟨v', hv', hmerged⟩ := h.exists_right hv
    exact ⟨v', hv', (hrest v v' hv hv' hmerged).mp hu⟩
  · rintro ⟨v', hv', hu⟩
    obtain ⟨v, hv, hmerged⟩ := h.exists_left hv'
    exact ⟨v, hv, (hrest v v' hv hv' hmerged).mpr hu⟩

theorem answer (h : Merged limit P below below' s t) (hs : s.AnswersTo below) :
    ∃ c σ σ' n w, c.Answers ∧ Scopes.Padded P σ σ' ∧ s = ⟨c, below, σ, n, w⟩ ∧
      t = ⟨c, below', σ', n, w⟩ := by
  obtain ⟨hstack, ha⟩ := hs
  obtain ⟨hstack', -⟩ := h.answersTo_iff.mp ⟨hstack, ha⟩
  have hc := h.mirrors.2
  obtain ⟨hpadded, -, hdepth, hworld⟩ := h.mirrors.1
  obtain ⟨c, _, σ, n, w⟩ := s
  obtain ⟨c', _, σ', n', w'⟩ := t
  have hskip : c.skip P = c := by
    cases c with
    | give v => rfl
    | fail e => rfl
    | _ => exact ha.elim
  obtain rfl : _ = below := hstack
  obtain rfl : _ = below' := hstack'
  obtain rfl : n' = n := hdepth
  obtain rfl : w' = w := hworld
  obtain rfl : c' = c := hc.trans hskip
  exact ⟨c', σ, σ', n', w', ha, hpadded, rfl, rfl⟩

/-- Where nothing but the empty scope is closed before the answer, it makes no difference. -/
theorem firstAnswer_iff_of_leave (h : Merged limit P (.leave P.place :: k) k s t) :
    FirstAnswer limit k s u ↔ FirstAnswer limit k t u := by
  refine h.firstAnswer_iff (List.suffix_cons _ _) (List.suffix_refl k) fun v v' hv _ hmerged => ?_
  obtain ⟨c, σ, σ', n, w, hc, hpadded, rfl, rfl⟩ := hmerged.answer hv.answersTo
  exact (leads_leave hpadded hmerged.left hc (Nat.le_refl _)).firstAnswer_iff

end Merged

/-! ### How such runs begin -/

theorem Skips.encloses (h : s.Skips P below below' t) : s.scopes.Encloses P.region :=
  ⟨h.scopes.place_lt, fun _ _ _ _ => .inr trivial⟩

theorem Mirrors.merged (h : Mirrors P s.stack t.stack s t) (hs : s.Orderly limit)
    (ht : t.Orderly limit) (hc : s.control.Confined P.region) :
    Merged limit P s.stack t.stack s t := ⟨h, hs, ht, ⟨⟨hc, .base⟩, h.1.encloses⟩⟩

theorem Skips.merged_block (h : s.Skips P s.stack t.stack t) (hs : s.Settled limit)
    (ht : t.Settled limit) (body : List (Stmt α)) :
    Merged limit P s.stack t.stack (s.enter P.place (.block · body (.int 0)))
      (t.enter P.parent (.block · body (.int 0))) := by
  have hmirrors := h.enter P.place (x := (.block · body (.int 0)))
    (y := (.block · body (.int 0))) rfl
  rw [P.skip_place] at hmirrors
  have hplace : P.place < s.scopes.depth := h.scopes.place_lt
  have hparent : P.parent < t.scopes.depth := Nat.lt_of_lt_of_le P.lt h.scopes.place_le
  exact ⟨hmirrors, hs.enter hplace (Nat.lt_succ_self _), ht.enter hparent (Nat.lt_succ_self _),
    ⟨⟨hplace, .cons hplace .base⟩, hmirrors.1.encloses⟩⟩

end State

end Scriptlet
