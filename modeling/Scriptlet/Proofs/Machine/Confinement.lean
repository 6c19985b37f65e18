import Scriptlet.Proofs.Machine.Globals

/-!
How far the work of an expression or a statement reaches. The scopes it opens it closes again. Of
those that were there before it changes only the ones that can be seen from its own scope, and of
these only the values.
-/

namespace Scriptlet

variable {α : Type}

/-- Some of the scopes: those at the place `first` and after it, and the `seen` ones. -/
structure Region where
  first : Nat
  seen : Nat → Prop
  pos : 0 < first
  global : seen Scopes.globalScope

def Region.Near (R : Region) (i : Nat) : Prop := R.first ≤ i ∨ R.seen i

theorem Region.near_global (R : Region) : R.Near Scopes.globalScope := .inr R.global

namespace Scopes

variable {R : Region} {s t u : Scopes}

/-- The region has scopes after `first` or right there, and all parents of its scopes. -/
structure Encloses (s : Scopes) (R : Region) : Prop where
  first_le : R.first ≤ s.depth
  parent : ∀ i p, R.Near i → s.parents[i]? = some (some p) → R.Near p

/-- The scopes before the region are the same as ever, but for the values of those that are seen
from it. -/
structure Spares (R : Region) (s t : Scopes) : Prop where
  defines : ∀ i < R.first, ∀ name, t.defines i name = s.defines i name
  unseen : ∀ i < R.first, ¬ R.seen i → t.arena[i]? = s.arena[i]?

/-- Opens, binds and closes only in the region, and looks for names only from there. -/
def Access.Inside (R : Region) : Access → Prop
  | .define id _ _ => R.first ≤ id
  | .bind id _ _ => R.first ≤ id
  | .assign id _ _ => R.Near id
  | .lookup id _ => R.Near id
  | .push parent => R.Near parent
  | .pop id => R.first ≤ id

namespace Spares

theorem refl (R : Region) (s : Scopes) : Spares R s s :=
  ⟨fun _ _ _ => rfl, fun _ _ _ => rfl⟩

theorem trans (h : Spares R s t) (h' : Spares R t u) : Spares R s u where
  defines i hi name := (h'.defines i hi name).trans (h.defines i hi name)
  unseen i hi hseen := (h'.unseen i hi hseen).trans (h.unseen i hi hseen)

theorem of_arena (h : ∀ i < R.first, t.arena[i]? = s.arena[i]?) : Spares R s t where
  defines i hi name := by simp only [Scopes.defines, find?, h i hi]
  unseen i hi _ := h i hi

end Spares

theorem Encloses.visits (h : s.Encloses R) {id i : Nat} (hid : R.Near id) (hi : s.Visits id i) :
    R.Near i := by
  induction hi with
  | here => exact hid
  | parent _ hp ih => exact h.parent _ _ ih hp

namespace Encloses

variable {id : Nat} {name : String} {v : Value}

theorem bind (h : s.Encloses R) (id : Nat) (name : String) (v : Value) :
    (s.bind id name v).1.Encloses R := by
  refine ⟨by simpa using h.first_le, fun i p hi hp => ?_⟩
  rw [parents_bind] at hp
  exact h.parent i p hi hp

theorem push (h : s.Encloses R) {p : Nat} (hp : R.Near p) : (s.push p).2.Encloses R := by
  refine ⟨Nat.le_trans h.first_le (by simp), fun i q hi hq => ?_⟩
  rw [parents_push] at hq
  by_cases hold : i < s.depth
  · rw [List.getElem?_append_left (by simpa using hold)] at hq
    exact h.parent i q hi hq
  · rw [List.getElem?_append_right (by simpa using hold), length_parents] at hq
    obtain ⟨-, hq⟩ : i - s.depth = 0 ∧ p = q := by
      simpa [List.getElem?_singleton] using hq
    exact hq ▸ hp

theorem pop (h : s.Encloses R) (hid : R.first ≤ id) : (s.pop id).1.Encloses R := by
  have hpos : 0 < id := Nat.lt_of_lt_of_le R.pos hid
  have hparents := parents_pop s hpos
  refine ⟨?_, fun i p hi hp => ?_⟩
  · rw [← length_parents, hparents, List.length_take, length_parents]
    exact Nat.le_min.mpr ⟨hid, h.first_le⟩
  · have hlt : i < id := by
      have hlength := (List.getElem?_eq_some_iff.mp hp).1
      rw [hparents, List.length_take] at hlength
      omega
    rw [hparents, List.getElem?_take_of_lt hlt] at hp
    exact h.parent i p hi hp

theorem spares_bind (hid : R.first ≤ id) : Spares R s (s.bind id name v).1 := by
  refine .of_arena fun i hi => ?_
  rw [getElem?_bind, if_neg (by omega)]

theorem spares_push (h : s.Encloses R) (p : Nat) : Spares R s (s.push p).2 := by
  have hle := h.first_le
  refine .of_arena fun i hi => ?_
  rw [getElem?_push, if_neg (by omega)]

theorem spares_pop (hid : R.first ≤ id) : Spares R s (s.pop id).1 := by
  have hpos : 0 < id := Nat.lt_of_lt_of_le R.pos hid
  refine .of_arena fun i hi => ?_
  rw [getElem?_pop s hpos, if_pos (by omega)]

/-- A name that is found from inside the region has its scope in the region too. -/
theorem spares_assign (h : s.Encloses R) (hid : R.Near id) {owner : Nat}
    (howner : s.resolve id name = some owner) : Spares R s (s.bind owner name v).1 := by
  rcases h.visits hid (visits_of_resolveWithin howner) with hlate | hseen
  · exact spares_bind hlate
  · have hdefined : s.defines owner name := find?_of_resolveWithin howner
    refine ⟨fun i _ other => s.defines_bind hdefined v i other, fun i _ hunseen => ?_⟩
    have hne : owner ≠ i := fun heq => hunseen (heq ▸ hseen)
    rw [getElem?_bind, if_neg hne]

theorem perform (h : s.Encloses R) {a : Access} (ha : a.Inside R) :
    (a.perform s).2.Encloses R ∧ Spares R s (a.perform s).2 := by
  cases a with
  | define id name v =>
    simp only [Access.perform, define]
    cases s.defines id name with
    | true => exact ⟨h, .refl R s⟩
    | false => exact ⟨h.bind id name v, spares_bind ha⟩
  | bind id name v => exact ⟨h.bind id name v, spares_bind ha⟩
  | assign id name v =>
    simp only [Access.perform, assign]
    cases howner : s.resolve id name with
    | none => exact ⟨h, .refl R s⟩
    | some owner => exact ⟨h.bind owner name v, h.spares_assign ha howner⟩
  | lookup id name =>
    simp only [Access.perform]
    cases s.lookup id name with
    | none => exact ⟨h, .refl R s⟩
    | some v => exact ⟨h, .refl R s⟩
  | push parent => exact ⟨h.push ha, h.spares_push parent⟩
  | pop id => exact ⟨h.pop ha, spares_pop ha⟩

theorem after {as : List Access} (h : s.Encloses R) (has : ∀ a ∈ as, a.Inside R) :
    (s.after as).Encloses R ∧ Spares R s (s.after as) := by
  induction as generalizing s with
  | nil => exact ⟨h, .refl R s⟩
  | cons a as ih =>
    obtain ⟨hfirst, hspares⟩ := h.perform (has a List.mem_cons_self)
    obtain ⟨hrest, hspares'⟩ := ih hfirst fun b hb => has b (List.mem_cons_of_mem a hb)
    exact ⟨hrest, hspares.trans hspares'⟩

end Encloses

end Scopes

/-! ### Work in a region -/

/-- The control works in the region. Statements that may be declarations run in scopes that are
not older than it. -/
def Control.Confined (R : Region) : Control α → Prop
  | .eval scope _ => R.Near scope
  | .exec scope st => R.first ≤ scope ∨ R.seen scope ∧ ∀ id l, st ≠ .declare id l
  | .block scope _ _ => R.first ≤ scope
  | .items _ _ => False
  | .loop scope _ _ => R.Near scope
  | .arguments scope _ _ _ _ => R.Near scope
  | .apply _ _ _ => True
  | .give _ => True
  | .fail _ => True

def Frame.Confined (R : Region) : Frame α → Prop
  | .assign scope _ => R.Near scope
  | .leftOperand scope _ _ _ => R.Near scope
  | .rightOperand _ _ _ => True
  | .arguments scope _ _ _ _ => R.Near scope
  | .leave scope => R.first ≤ scope
  | .finish scope _ => R.first ≤ scope
  | .branch scope _ _ _ => R.Near scope
  | .discard => True
  | .test scope _ _ => R.Near scope
  | .again scope _ _ => R.Near scope
  | .next scope _ => R.first ≤ scope
  | .nextItem _ => False

/-- The frames above `below` wait for work in the region. -/
inductive Above (R : Region) (below : List (Frame α)) : List (Frame α) → Prop
  | base : Above R below below
  | cons {f : Frame α} {k : List (Frame α)} (hf : f.Confined R) (hk : Above R below k) :
    Above R below (f :: k)

namespace State

variable {R : Region} {below : List (Frame α)} {limit : Nat} {s t : State α}

/-- Control and frames keep to the region, down to the frames `below`. -/
def Stays (R : Region) (below : List (Frame α)) (s : State α) : Prop :=
  s.control.Confined R ∧ Above R below s.stack

structure Confined (R : Region) (below : List (Frame α)) (s : State α) : Prop where
  stays : s.Stays R below
  scopes : s.scopes.Encloses R

theorem stays_call (hk : Above R below s.stack) {scope : Nat} (hs : R.Near scope)
    (callee : Identifier α) (args : List (Expr α)) (l : α) :
    (s.call scope callee args l).Stays R below := by
  unfold call
  split
  · exact ⟨trivial, hk⟩
  · exact ⟨hs, hk⟩
  · split
    · exact ⟨trivial, hk⟩
    · split
      · exact ⟨trivial, hk⟩
      · exact ⟨hs, hk⟩
  · exact ⟨trivial, hk⟩

theorem stays_eval (hk : Above R below s.stack) {scope : Nat} (hs : R.Near scope) (e : Expr α) :
    (s.eval scope e).Stays R below := by
  cases e with
  | integer text l =>
    rw [eval]
    split <;> exact ⟨trivial, hk⟩
  | string value l => exact ⟨trivial, hk⟩
  | reference id =>
    rw [eval]
    split <;> exact ⟨trivial, hk⟩
  | assign target value l => exact ⟨hs, .cons hs hk⟩
  | binary op left right l => exact ⟨hs, .cons hs hk⟩
  | callAt callee args l => exact stays_call hk hs callee args l

theorem stays_exec (hk : Above R below s.stack) {scope : Nat} (hs : R.Near scope) (st : Stmt α) :
    (s.exec scope st).Stays R below := by
  cases st with
  | declare id l =>
    rw [exec]
    split <;> exact ⟨trivial, hk⟩
  | branch cond thenBlock elseBlock l => exact ⟨hs, .cons hs hk⟩
  | loop cond body l => exact ⟨hs, hk⟩
  | expr e => exact ⟨hs, hk⟩

theorem stays_enterBlock (hk : Above R below s.stack) (hfirst : R.first ≤ s.scopes.depth)
    {f : Frame α} (hf : f.Confined R) (p : Nat) (ss : List (Stmt α)) :
    ((s.pushFrame f).enter p (.block · ss (.int 0))).Stays R below :=
  ⟨hfirst, .cons hfirst (.cons hf hk)⟩

theorem stays_resume (hk : Above R below s.stack) (hfirst : R.first ≤ s.scopes.depth) (v : Value)
    (hgive : s.control = .give v) {f : Frame α} (hf : f.Confined R) :
    (s.resume v f).Stays R below := by
  cases f with
  | assign scope target =>
    rw [resume]
    split <;> exact ⟨trivial, hk⟩
  | leftOperand scope op right l =>
    cases v with
    | int a =>
      rw [resume]
      split
      · exact ⟨trivial, hk⟩
      · exact ⟨hf, .cons trivial hk⟩
    | _ => exact ⟨trivial, hk⟩
  | rightOperand op a l =>
    cases v with
    | int b =>
      rw [resume]
      split <;> exact ⟨trivial, hk⟩
    | _ => exact ⟨trivial, hk⟩
  | arguments scope callee done rest l => exact ⟨hf, hk⟩
  | leave scope =>
    refine ⟨?_, hk⟩
    rw [resume, control_closeScope, hgive]
    trivial
  | finish scope ref =>
    refine ⟨?_, hk⟩
    rw [resume, control_closeCall, hgive]
    trivial
  | branch scope l thenBlock elseBlock =>
    cases v with
    | int i =>
      simp only [resume]
      split
      · exact stays_enterBlock (f := .discard) hk hfirst trivial scope thenBlock
      · split
        · exact ⟨trivial, hk⟩
        · exact stays_enterBlock (f := .discard) hk hfirst trivial scope _
    | _ => exact ⟨trivial, hk⟩
  | discard => exact ⟨trivial, hk⟩
  | test scope cond body =>
    cases v with
    | int i =>
      rw [resume]
      split
      · exact stays_enterBlock (f := .again scope cond body) hk hfirst hf scope body
      · exact ⟨trivial, hk⟩
    | _ => exact ⟨trivial, hk⟩
  | again scope cond body => exact ⟨hf, hk⟩
  | next scope rest => exact ⟨hf, hk⟩
  | nextItem rest => exact hf.elim

theorem stays_unwind (hk : Above R below s.stack) {e : EvalError α} (hfail : s.control = .fail e)
    (f : Frame α) : (s.unwind f).Stays R below := by
  have hc : s.control.Confined R := by
    rw [hfail]
    trivial
  cases f <;> exact ⟨hc, hk⟩

theorem stays_applyCallee (hk : Above R below s.stack) (hfirst : R.first ≤ s.scopes.depth)
    (callee : Callee α) (args : List Value) (l : α) :
    (s.applyCallee limit callee args l).Stays R below := by
  cases callee with
  | builtin b =>
    rw [applyCallee, callBuiltin_eq]
    split <;> exact ⟨trivial, hk⟩
  | function ref d closure =>
    rw [applyCallee]
    split
    · exact ⟨trivial, hk⟩
    · obtain ⟨hstack, -, hparents, -⟩ :=
        bindParams_rest (s := s.openScope closure) s.scopes.depth d.params args
      have hdepth := congrArg List.length hparents
      rw [Scopes.length_parents, Scopes.length_parents] at hdepth
      have hopened : (s.openScope closure).scopes.depth = s.scopes.depth + 1 :=
        s.scopes.depth_push closure
      rw [callFunction_eq]
      refine ⟨?_, .cons hfirst ?_⟩
      · change R.first ≤ (s.withParams d closure args).scopes.depth
        rw [withParams, hdepth, hopened]
        exact Nat.le_succ_of_le hfirst
      · rw [withParams, hstack]
        exact hk

theorem Confined.stays_step (h : s.Confined R below)
    (hout : s.stack = below → ¬ s.control.Answers) : (s.step limit).Stays R below := by
  obtain ⟨⟨hc, hk⟩, hscopes⟩ := h
  have hfirst := hscopes.first_le
  obtain ⟨control, stack, scopes, depth, world⟩ := s
  cases control with
  | eval scope e => exact stays_eval hk hc e
  | exec scope st => exact stays_exec hk (hc.imp_right And.left) st
  | block scope rest last =>
    cases rest with
    | nil => exact ⟨trivial, hk⟩
    | cons st rest => exact ⟨.inl hc, .cons hc hk⟩
  | items rest last => exact hc.elim
  | loop scope cond body => exact ⟨.inl hfirst, .cons hfirst (.cons hc hk)⟩
  | arguments scope callee done rest l =>
    cases rest with
    | nil => exact ⟨trivial, hk⟩
    | cons e rest => exact ⟨hc, .cons hc hk⟩
  | apply callee args l => exact stays_applyCallee hk hfirst callee args l
  | give v =>
    cases hk with
    | base => exact absurd trivial (hout rfl)
    | @cons f k hf hk =>
      exact stays_resume (s := ⟨.give v, k, scopes, depth, world⟩) hk hfirst v rfl hf
  | fail e =>
    cases hk with
    | base => exact absurd trivial (hout rfl)
    | @cons f k hf hk =>
      exact stays_unwind (s := ⟨.fail e, k, scopes, depth, world⟩) hk rfl f

end State

/-! ### The accesses of a step -/

namespace Frame

variable {R : Region} {f : Frame α}

theorem Confined.closes (h : f.Confined R) : ∀ a ∈ f.closes, a.Inside R := by
  cases f with
  | leave scope => exact List.forall_mem_singleton.mpr h
  | finish scope ref => exact List.forall_mem_singleton.mpr h
  | _ => simp [Frame.closes]

theorem Confined.accesses (h : f.Confined R) (v : Value) : ∀ a ∈ f.accesses v, a.Inside R := by
  have hcloses := h.closes
  cases f with
  | assign scope target => exact List.forall_mem_singleton.mpr h
  | branch scope l thenBlock elseBlock =>
    simp only [Frame.accesses]
    split
    · split
      · exact List.forall_mem_singleton.mpr h
      · simp
    · simp
  | test scope cond body =>
    simp only [Frame.accesses]
    split
    · split
      · exact List.forall_mem_singleton.mpr h
      · simp
    · simp
  | _ => exact hcloses

end Frame

namespace State

variable {R : Region} {below : List (Frame α)} {limit : Nat} {s t : State α}

theorem inside_callAccesses {n : Nat} (hn : R.first ≤ n) (d : FunctionDef α) (args : List Value) :
    ∀ a ∈ callAccesses n d Scopes.globalScope args, a.Inside R := by
  intro a ha
  simp only [callAccesses, paramAccesses, List.mem_cons, List.mem_append, List.mem_map] at ha
  rcases ha with rfl | ⟨p, -, rfl⟩ | rfl | ha
  · exact R.near_global
  · exact hn
  · exact .inl hn
  · cases ha

theorem Confined.inside (h : s.Confined R below) (ho : s.Orderly limit)
    (hout : s.stack = below → ¬ s.control.Answers) : ∀ a ∈ s.accesses limit, a.Inside R := by
  obtain ⟨⟨hc, hk⟩, hscopes⟩ := h
  have hsound := ho.control
  obtain ⟨control, stack, scopes, depth, world⟩ := s
  cases control with
  | eval scope e =>
    cases e with
    | reference id => exact List.forall_mem_singleton.mpr hc
    | callAt callee args l => exact List.forall_mem_singleton.mpr hc
    | _ => simp [accesses, Expr.accesses]
  | exec scope st =>
    cases st with
    | declare id l =>
      have hfirst : R.first ≤ scope := hc.resolve_right fun hold => hold.2 id l rfl
      exact List.forall_mem_singleton.mpr hfirst
    | _ => simp [accesses, Stmt.accesses]
  | items rest last => exact hc.elim
  | loop scope cond body => exact List.forall_mem_singleton.mpr hc
  | apply callee args l =>
    cases callee with
    | builtin b => simp [accesses]
    | function ref d closure =>
      obtain rfl : closure = Scopes.globalScope := hsound.1
      simp only [accesses]
      split
      · simp
      · exact inside_callAccesses hscopes.first_le d args
  | give v =>
    cases hk with
    | base => exact absurd trivial (hout rfl)
    | cons hf _ => exact hf.accesses v
  | fail e =>
    cases hk with
    | base => exact absurd trivial (hout rfl)
    | cons hf _ => exact hf.closes
  | _ => simp [accesses]

theorem Confined.step (h : s.Confined R below) (ho : s.Orderly limit)
    (hout : s.stack = below → ¬ s.control.Answers) :
    (s.step limit).Confined R below ∧ Scopes.Spares R s.scopes (s.step limit).scopes := by
  obtain ⟨hscopes, hspares⟩ := h.scopes.after (h.inside ho hout)
  rw [← scopes_step] at hscopes hspares
  exact ⟨⟨h.stays_step hout, hscopes⟩, hspares⟩

/-- Work that begins in a region is done there. -/
theorem Within.confined (h : Within limit s t) (hs : s.Confined R s.stack) (ho : s.Orderly limit) :
    t.Confined R s.stack ∧ Scopes.Spares R s.scopes t.scopes := by
  induction h with
  | entry => exact ⟨hs, .refl R _⟩
  | step ht hout ih =>
    obtain ⟨hconfined, hspares⟩ := ih
    obtain ⟨hnext, hspares'⟩ := hconfined.step (ht.reaches.orderly ho) hout
    exact ⟨hnext, hspares.trans hspares'⟩

end State

end Scriptlet
