import Mathlib.Logic.Function.Iterate
import Scriptlet.Proofs.Machine.Exits

/-!
The scopes during an execution. In every state they form a tree that is numbered from its root,
every step names only scopes that are there, and whatever is begun ends with the scopes and the
number of calls it began with.
-/

namespace Scriptlet

variable {α : Type}

/-- The frame that waits for the body of a user function. -/
def Frame.isCall : Frame α → Bool
  | .finish _ _ => true
  | _ => false

def Frame.callees : Frame α → List (Callee α)
  | .arguments _ callee _ _ _ => [callee]
  | _ => []

def Control.callees : Control α → List (Callee α)
  | .arguments _ callee _ _ _ => [callee]
  | .apply callee _ _ => [callee]
  | _ => []

namespace Fits

variable {k : List (Frame α)} {n c : Nat}

theorem calls_eq (h : Fits k n c) : c = k.countP Frame.isCall := by
  induction h with
  | base => rfl
  | leave _ ih => simpa [Frame.isCall] using ih
  | finish _ ih => rw [List.countP_cons, ← ih, Frame.isCall, if_pos rfl]
  | @plain f _ _ _ _ hf ih =>
    cases f with
    | finish id ref => exact hf.elim
    | _ => simpa [Frame.isCall] using ih

theorem closure_eq (h : Fits k n c) {ref closure : Nat} {d : FunctionDef α}
    (hmem : .function ref d closure ∈ k.flatMap Frame.callees) : closure = Scopes.globalScope := by
  induction h with
  | base => cases hmem
  | leave _ ih => exact ih hmem
  | finish _ ih => exact ih hmem
  | @plain f _ _ _ _ hf ih =>
    rw [List.flatMap_cons] at hmem
    rcases List.mem_append.mp hmem with hmem | hmem
    · cases f with
      | arguments scope callee done rest l =>
        obtain rfl := List.mem_singleton.mp hmem
        exact hf.2.1
      | _ => cases hmem
    · exact ih hmem

end Fits

theorem Control.closure_eq {n ref closure : Nat} {c : Control α} {d : FunctionDef α}
    (h : c.Sound n) (hmem : .function ref d closure ∈ c.callees) :
    closure = Scopes.globalScope := by
  cases c with
  | arguments scope callee done rest l =>
    obtain rfl := List.mem_singleton.mp hmem
    exact h.2.1
  | apply callee args l =>
    obtain rfl := List.mem_singleton.mp hmem
    exact h.1
  | _ => cases hmem

theorem Heap.Keeps.function {h : Heap α} {r : Nat} (hk : h.Keeps (.function r)) (hc : h.Closed) :
    ∃ d, h.function? r = some (d, Scopes.globalScope) := by
  obtain ⟨⟨n, o⟩, hcell, hkind⟩ := hk r rfl
  cases o with
  | function d closure =>
    have hobject : h.object? r = some (.function d closure) := by simp [object?, hcell]
    obtain rfl := hc r d closure hobject
    exact ⟨d, function?_eq_some.mpr hobject⟩
  | array items => cases hkind
  | string text => cases hkind

namespace State

variable {limit : Nat} {s : State α}

def callees (s : State α) : List (Callee α) :=
  s.control.callees ++ s.stack.flatMap Frame.callees

/-- How scopes, functions and calls stand in a state, and what becomes of them. -/
structure ScopesKept (limit : Nat) (s : State α) : Prop where
  /-- The global scope has no parent, every other one has a parent before it. -/
  ordered : s.scopes.Ordered
  /-- Functions that are held anywhere were defined in the global scope. -/
  functions : ∀ r, .function r ∈ s.control.held ++ s.waiting ++ s.world.heap.contents →
    ∃ d, s.world.heap.function? r = some (d, Scopes.globalScope)
  callees : ∀ ref d closure, .function ref d closure ∈ s.callees → closure = Scopes.globalScope
  /-- There is nothing between the next step and the scopes but the accesses. -/
  accesses : ∀ t : Scopes, t.replies (s.accesses limit) = s.scopes.replies (s.accesses limit) →
    (s.withScopes t).step limit = (s.step limit).withScopes (t.after (s.accesses limit))
  /-- Each of them names a scope that is there when its turn comes. -/
  sure : ∀ before a rest, s.accesses limit = before ++ a :: rest → (s.scopes.after before).Sure a
  calls : s.depth = s.stack.countP Frame.isCall
  bounded : s.depth ≤ limit
  /-- What is begun here ends with the same scopes and calls, be it by a value or by a failure. -/
  restored : ∀ t, Within limit s t → t.stack = s.stack → t.control.Answers →
    t.scopes.depth = s.scopes.depth ∧ t.scopes.parents = s.scopes.parents ∧ t.depth = s.depth
  /-- It does end, if the run does. -/
  answered : ∀ t r, Reaches limit s t → t.outcome? = some r →
    ∃ u, Within limit s u ∧ u.stack = s.stack ∧ u.control.Answers

theorem Orderly.scopesKept (h : s.Orderly limit) {ext : List Value} (hb : s.Balanced ext) :
    s.ScopesKept limit where
  ordered := h.scopes
  functions r hmem := by
    refine Heap.Keeps.function (Heap.Balanced.keeps hb _ ?_) h.closed
    simp only [List.mem_append] at hmem ⊢
    rcases hmem with (hmem | hmem) | hmem
    · exact .inl (.inl hmem)
    · exact .inl (.inr (.inl hmem))
    · exact .inr hmem
  callees ref d closure hmem := by
    rcases List.mem_append.mp hmem with hmem | hmem
    · exact Control.closure_eq h.control hmem
    · exact h.fits.closure_eq hmem
  accesses _ ht := step_withScopes ht
  sure before a rest heq := by
    have hserves := h.serves
    rw [heq] at hserves
    exact hserves.sure h.scopes
  calls := h.fits.calls_eq
  bounded := h.calls
  restored _ ht hstack _ := ht.restored h hstack
  answered _ _ ht hout := ht.exists_answer hout

theorem reaches_iterate (limit : Nat) (s : State α) (n : Nat) :
    Reaches limit s ((step limit)^[n] s) := by
  induction n with
  | zero => exact .refl
  | succ n ih =>
    rw [Function.iterate_succ_apply']
    exact ih.step

end State

namespace Scopes

/-- The built-in functions are bound before anything else is done. -/
def builtinAccesses : List Access :=
  Builtin.all.map fun b => .bind globalScope b.name (.builtin b)

theorem withBuiltins_eq : withBuiltins = initial.after builtinAccesses := by
  rw [after, builtinAccesses, List.foldl_map]
  rfl

theorem serves_builtinAccesses : initial.Serves builtinAccesses := by
  have hserves : initial.Serves (builtinAccesses ++ []) :=
    serves_binds Nat.one_pos Builtin.name .builtin Builtin.all fun _ _ => trivial
  rwa [List.append_nil] at hserves

end Scopes

namespace Interpreter

/-- An execution keeps its scopes in order from the first access to them on, in every state it
comes to, and ends with the global scope alone and outside of all calls. -/
theorem execute_keeps_scopes (program : Program α) (config : Config) (input : Input)
    (sink : Sink) :
    let i := new program config input sink
    i.start.scopes = Scopes.initial.after Scopes.builtinAccesses ∧
    (∀ before a rest, Scopes.builtinAccesses = before ++ a :: rest →
      (Scopes.initial.after before).Sure a) ∧
    (∀ s, State.Reaches config.maxCallDepth i.start s → s.ScopesKept config.maxCallDepth) ∧
    (∀ fuel r s, i.start.run config.maxCallDepth fuel = some (r, s) →
      s.scopes.depth = 1 ∧ s.depth = 0) ∧
    ∀ fuel r j, i.execute fuel = some (r, j) → j.scopes.depth = 1 := by
  intro i
  have hsound : i.Sound [] := sound_new program config input sink
  refine ⟨Scopes.withBuiltins_eq, fun before a rest heq => ?_, fun s hs => ?_,
    fun fuel r s hrun => hsound.finished hrun, fun fuel r j hrun => hsound.depth_execute hrun⟩
  · have hserves := Scopes.serves_builtinAccesses
    rw [heq] at hserves
    exact hserves.sure Scopes.ordered_initial
  · have horderly := hsound.orderly_start config.maxCallDepth
    exact (hs.orderly horderly).scopesKept (hs.balanced horderly hsound.balanced_start)

def identity : Program Unit :=
  ⟨[.function ⟨⟨"f", ()⟩, [⟨"x", ()⟩], [.expr (.reference ⟨"x", ()⟩)], ()⟩,
    .stmt (.expr (.callAt ⟨"f", ()⟩ [.integer "1" ()] ()))]⟩

/-- The scopes are in order in the middle of the call and after the execution. -/
theorem identity_keeps_scopes :
    let i := new identity .standard ⟨[], [], none⟩ .unlimited
    (∃ s, State.Reaches 1000 i.start s ∧ s.depth = 1 ∧ s.scopes.depth = 3 ∧ s.ScopesKept 1000) ∧
      ∃ r j, i.execute 20 = some (r, j) ∧ j.scopes.depth = 1 := by
  intro i
  obtain ⟨-, -, hkept, -, hend⟩ :=
    execute_keeps_scopes identity .standard ⟨[], [], none⟩ .unlimited
  have hreach := State.reaches_iterate 1000 i.start 9
  have hcall : ((State.step 1000)^[9] i.start).depth = 1 ∧
      ((State.step 1000)^[9] i.start).scopes.depth = 3 := by decide +kernel
  have hdone : (i.execute 20).isSome := by decide +kernel
  obtain ⟨⟨r, j⟩, hrun⟩ := Option.isSome_iff_exists.mp hdone
  exact ⟨⟨_, hreach, hcall.1, hcall.2, hkept _ hreach⟩, r, j, hrun, hend 20 r j hrun⟩

end Interpreter

end Scriptlet
