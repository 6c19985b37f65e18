import Scriptlet.Proofs.Machine.Runs

/-!
Where failures come from and what they do. Each step that fails has one of a few reasons, told from
the state before it. After that the frames are unwound one by one, and nothing else is done.
-/

namespace Scriptlet

variable {α : Type}

/-- What a built-in function can fail for. -/
def Cause.IsNative : Cause → Prop
  | builtinArity _ _ _ => True
  | builtinArgument _ _ _ _ => True
  | indexOutOfBounds _ _ => True
  | emptyArray => True
  | substringRange _ _ _ => True
  | input _ => True
  | output _ => True
  | _ => False

namespace World

variable {w : World α} {c : Cause}

theorem isNative_write {text : String} (h : (w.write text).1 = .error c) : c.IsNative := by
  obtain ⟨heap, input, sink⟩ := w
  simp only [write] at h
  split at h
  · cases h
  · cases h
    trivial

theorem isNative_readInt (h : w.readInt.1 = .error c) : c.IsNative := by
  unfold readInt at h
  split at h
  · cases h
    trivial
  · obtain ⟨heap, input, sink⟩ := w
    simp only at h
    split at h
    · cases h
    · cases h
      trivial

theorem isNative_getItem {r : Nat} {index : Int64} (h : (w.getItem r index).1 = .error c) :
    c.IsNative := by
  unfold getItem at h
  simp only at h
  split at h
  · cases h
    trivial
  · cases h

theorem isNative_setItem {r : Nat} {index : Int64} {v : Value}
    (h : (w.setItem r index v).1 = .error c) : c.IsNative := by
  unfold setItem at h
  simp only at h
  split at h
  · cases h
    trivial
  · cases h

theorem isNative_popItem {r : Nat} (h : (w.popItem r).1 = .error c) : c.IsNative := by
  unfold popItem at h
  split at h
  · cases h
    trivial
  · cases h

theorem isNative_substring {r : Nat} {start stop : Int64}
    (h : (w.substring r start stop).1 = .error c) : c.IsNative := by
  unfold substring at h
  simp only at h
  split at h
  · cases h
  · cases h
    trivial

end World

namespace Builtin

open World

variable {b : Builtin} {args : List Value} {w : World α} {c : Cause}

theorem isNative_mismatch? {position : Nat} {params : List Param}
    (h : b.mismatch? position params args = some c) : c.IsNative := by
  induction params generalizing position args with
  | nil => cases h
  | cons p params ih =>
    cases args with
    | nil => cases p <;> cases h
    | cons v args =>
      cases p with
      | any => exact ih h
      | kind k =>
        simp only [mismatch?] at h
        split at h
        · exact ih h
        · cases h
          trivial

theorem isNative_objection? (h : b.objection? args = some c) : c.IsNative := by
  unfold objection? at h
  split at h
  · cases h
  · split at h
    · cases h
      trivial
    · exact isNative_mismatch? h

theorem isNative_body (h : (b.body args w).1 = .error c) : c.IsNative := by
  unfold body at h
  split at h
  case h_1 => exact isNative_write h
  case h_2 => exact isNative_write h
  case h_3 => exact isNative_readInt h
  case h_6 => exact isNative_getItem h
  case h_7 => exact isNative_setItem h
  case h_9 => exact isNative_popItem h
  case h_10 => exact isNative_substring h
  all_goals
    cases h
    try trivial

theorem isNative_invoke (h : (b.invoke args w).1 = .error c) : c.IsNative := by
  unfold invoke at h
  split at h
  · rename_i hobjection
    cases h
    exact isNative_objection? hobjection
  · exact isNative_body h

end Builtin

namespace State

variable {limit : Nat} {s t u : State α} {e : EvalError α}

/-- The next step fails with this error; every step that fails does so for one of these reasons. -/
inductive Raises (limit : Nat) (s : State α) : EvalError α → Prop
  | literal {scope : Nat} {text : String} {l : α} (hc : s.control = .eval scope (.integer text l))
    (hnone : Decimal.int64? text.toList = none) : Raises limit s ⟨.integerLiteral text, some l⟩
  | reference {scope : Nat} {id : Identifier α} (hc : s.control = .eval scope (.reference id))
    (hnone : s.scopes.lookup scope id.name = none) :
    Raises limit s ⟨.undefinedName id.name, some id.location⟩
  | callee {scope : Nat} {id : Identifier α} {args : List (Expr α)} {l : α}
    (hc : s.control = .eval scope (.callAt id args l))
    (hnone : s.scopes.lookup scope id.name = none) :
    Raises limit s ⟨.undefinedName id.name, some id.location⟩
  | notCallable {scope : Nat} {id : Identifier α} {args : List (Expr α)} {l : α}
    {v : Value} (hc : s.control = .eval scope (.callAt id args l))
    (hv : s.scopes.lookup scope id.name = some v) :
    Raises limit s ⟨.notCallable id.name v.kind, some l⟩
  | arity {scope r closure : Nat} {id : Identifier α} {args : List (Expr α)} {l : α}
    {d : FunctionDef α} (hc : s.control = .eval scope (.callAt id args l))
    (hv : s.scopes.lookup scope id.name = some (.function r))
    (hd : s.world.heap.function? r = some (d, closure)) (hne : args.length ≠ d.arity) :
    Raises limit s ⟨.arityMismatch d.name d.arity args.length, some l⟩
  | redefinition {scope : Nat} {id : Identifier α} {l : α}
    (hc : s.control = .exec scope (.declare id l)) (hd : s.scopes.defines scope id.name) :
    Raises limit s ⟨.redefinition id.name, some l⟩
  | builtin {b : Builtin} {args : List Value} {l : α} {c : Cause}
    (hc : s.control = .apply (.builtin b) args l) (hb : (b.invoke args s.world).1 = .error c) :
    Raises limit s ⟨c, some l⟩
  | depth {ref closure : Nat} {d : FunctionDef α} {args : List Value} {l : α}
    (hc : s.control = .apply (.function ref d closure) args l) (hd : limit ≤ s.depth) :
    Raises limit s ⟨.callDepthExceeded limit, some l⟩
  | target {v : Value} {scope : Nat} {target : Identifier α} {k : List (Frame α)}
    (hc : s.control = .give v) (hk : s.stack = .assign scope target :: k)
    (hnone : s.scopes.resolve scope target.name = none) :
    Raises limit s ⟨.undefinedName target.name, some target.location⟩
  | leftOperand {v : Value} {scope : Nat} {op : BinaryOp} {right : Expr α} {l : α}
    {k : List (Frame α)} (hc : s.control = .give v)
    (hk : s.stack = .leftOperand scope op right l :: k) (hv : v.kind ≠ .int) :
    Raises limit s ⟨.nonNumericOperand op v.kind, some l⟩
  | rightOperand {v : Value} {op : BinaryOp} {a : Int64} {l : α} {k : List (Frame α)}
    (hc : s.control = .give v) (hk : s.stack = .rightOperand op a l :: k) (hv : v.kind ≠ .int) :
    Raises limit s ⟨.nonNumericOperand op v.kind, some l⟩
  | division {op : BinaryOp} {a b : Int64} {l : α} {k : List (Frame α)}
    (hc : s.control = .give (.int b)) (hk : s.stack = .rightOperand op a l :: k)
    (hnone : op.compute? a b = none) : Raises limit s ⟨.divisionByZero, some l⟩
  | branch {v : Value} {scope : Nat} {l : α} {thenBlock : List (Stmt α)}
    {elseBlock : Option (List (Stmt α))} {k : List (Frame α)} (hc : s.control = .give v)
    (hk : s.stack = .branch scope l thenBlock elseBlock :: k) (hv : v.kind ≠ .int) :
    Raises limit s ⟨.nonNumericCondition v.kind, some l⟩
  | test {v : Value} {scope : Nat} {cond : Expr α} {body : List (Stmt α)} {k : List (Frame α)}
    (hc : s.control = .give v) (hk : s.stack = .test scope cond body :: k) (hv : v.kind ≠ .int) :
    Raises limit s ⟨.nonNumericCondition v.kind, some cond.location⟩

theorem raises_of_call {scope : Nat} {id : Identifier α} {args : List (Expr α)} {l : α}
    (hc : s.control = .eval scope (.callAt id args l))
    (h : (s.call scope id args l).control = .fail e) : s.Raises limit e := by
  unfold call at h
  split at h
  · rename_i hnone
    cases h
    exact .callee hc hnone
  · cases h
  · rename_i hv
    split at h
    · cases h
      exact .notCallable hc hv
    · rename_i hd
      split at h
      · rename_i hne
        cases h
        exact .arity hc hv hd hne
      · cases h
  · rename_i hv
    cases h
    exact .notCallable hc hv

theorem raises_of_eval {scope : Nat} {x : Expr α} (hc : s.control = .eval scope x)
    (h : (s.eval scope x).control = .fail e) : s.Raises limit e := by
  cases x with
  | integer text l =>
    rw [eval] at h
    split at h
    · cases h
    · rename_i hnone
      cases h
      exact .literal hc hnone
  | string value l => cases h
  | reference id =>
    rw [eval] at h
    split at h
    · cases h
    · rename_i hnone
      cases h
      exact .reference hc hnone
  | assign target value l => cases h
  | binary op left right l => cases h
  | callAt callee args l => exact raises_of_call hc h

theorem raises_of_exec {scope : Nat} {st : Stmt α} (hc : s.control = .exec scope st)
    (h : (s.exec scope st).control = .fail e) : s.Raises limit e := by
  cases st with
  | declare id l =>
    rw [exec] at h
    split at h
    · rename_i hd
      cases h
      exact .redefinition hc hd
    · cases h
  | branch cond thenBlock elseBlock l => cases h
  | loop cond body l => cases h
  | expr x => cases h

theorem raises_of_applyCallee {callee : Callee α} {args : List Value} {l : α}
    (hc : s.control = .apply callee args l)
    (h : (s.applyCallee limit callee args l).control = .fail e) : s.Raises limit e := by
  cases callee with
  | builtin b =>
    rw [applyCallee, callBuiltin_eq] at h
    split at h
    · cases h
    · rename_i cause hb
      cases h
      exact .builtin hc hb
  | function ref d closure =>
    rw [applyCallee] at h
    split at h
    · rename_i hd
      cases h
      exact .depth hc hd
    · cases h

theorem raises_of_resume {v : Value} {f : Frame α} {k : List (Frame α)} {scopes : Scopes}
    {depth : Nat} {world : World α}
    (h : (resume ⟨.give v, k, scopes, depth, world⟩ v f).control = .fail e) :
    Raises limit ⟨.give v, f :: k, scopes, depth, world⟩ e := by
  cases f with
  | assign scope target =>
    rw [resume] at h
    split at h
    · rename_i hnone
      cases h
      exact .target rfl rfl hnone
    · cases h
  | leftOperand scope op right l =>
    cases v with
    | int a =>
      rw [resume] at h
      split at h <;> cases h
    | _ =>
      cases h
      exact .leftOperand rfl rfl (by simp [Value.kind])
  | rightOperand op a l =>
    cases v with
    | int b =>
      rw [resume] at h
      split at h
      · cases h
      · rename_i hnone
        cases h
        exact .division rfl rfl hnone
    | _ =>
      cases h
      exact .rightOperand rfl rfl (by simp [Value.kind])
  | branch scope l thenBlock elseBlock =>
    cases v with
    | int i =>
      simp only [resume] at h
      split at h
      · cases h
      · split at h <;> cases h
    | _ =>
      cases h
      exact .branch rfl rfl (by simp [Value.kind])
  | test scope cond body =>
    cases v with
    | int i =>
      rw [resume] at h
      split at h <;> cases h
    | _ =>
      cases h
      exact .test rfl rfl (by simp [Value.kind])
  | _ => cases h

/-- A step ends in a failure only if there was one before or if it raises one. -/
theorem raises_of_step (h : (s.step limit).control = .fail e) :
    s.control = .fail e ∨ s.Raises limit e := by
  obtain ⟨control, stack, scopes, depth, world⟩ := s
  cases control with
  | eval scope x => exact .inr (raises_of_eval rfl h)
  | exec scope st => exact .inr (raises_of_exec rfl h)
  | block scope rest last => cases rest <;> cases h
  | items rest last =>
    cases rest with
    | nil => cases h
    | cons item rest => cases item <;> cases h
  | loop scope cond body => cases h
  | arguments scope callee done rest l => cases rest <;> cases h
  | apply callee args l => exact .inr (raises_of_applyCallee rfl h)
  | give v =>
    cases stack with
    | nil => cases h
    | cons f k => exact .inr (raises_of_resume h)
  | fail e' =>
    left
    cases stack with
    | nil => exact h
    | cons f k => cases f <;> exact h

/-- A run that comes to a failure has passed the step that raised it. -/
theorem Reaches.exists_raises (h : Reaches limit s t) (ht : t.control = .fail e)
    (hs : s.control ≠ .fail e) :
    ∃ u, Reaches limit s u ∧ u.Raises limit e ∧ (u.step limit).control = .fail e ∧
      Reaches limit (u.step limit) t := by
  induction h with
  | refl => exact absurd ht hs
  | @step t hreach ih =>
    rcases raises_of_step ht with hbefore | hraises
    · obtain ⟨u, hu, hraises, hfail, hafter⟩ := ih hbefore
      exact ⟨u, hu, hraises, hfail, hafter.step⟩
    · exact ⟨t, hreach, hraises, ht, .refl⟩

/-! ### After a failure -/

/-- What is left of a state when a failure has passed some of its frames: the failure itself, input
and output, the global scope, and those objects that are still held. -/
structure Unwound (s t : State α) : Prop where
  control : t.control = s.control
  stack : t.stack <:+ s.stack
  input : t.world.input = s.world.input
  sink : t.world.sink = s.world.sink
  globals : t.scopes.arena[Scopes.globalScope]? = s.scopes.arena[Scopes.globalScope]?
  objects : ∀ r o, t.world.heap.object? r = some o → s.world.heap.object? r = some o

theorem Unwound.refl (s : State α) : Unwound s s :=
  ⟨rfl, List.suffix_refl _, rfl, rfl, rfl, fun _ _ h => h⟩

theorem Unwound.trans (h : Unwound s t) (h' : Unwound t u) : Unwound s u where
  control := h'.control.trans h.control
  stack := h'.stack.trans h.stack
  input := h'.input.trans h.input
  sink := h'.sink.trans h.sink
  globals := h'.globals.trans h.globals
  objects r o ho := h.objects r o (h'.objects r o ho)

end State

theorem Scopes.globals_pop (s : Scopes) (id : Nat) :
    (s.pop id).1.arena[globalScope]? = s.arena[globalScope]? := by
  unfold pop
  split
  · rfl
  · rename_i hid
    have hpos : globalScope < id := Nat.pos_of_ne_zero hid
    rw [← Array.getElem?_toList, Array.toList_shrink, List.getElem?_take_of_lt hpos,
      Array.getElem?_toList]

namespace State

variable {limit : Nat} {s t : State α} {e : EvalError α}

theorem unwound_releaseAll (s : State α) (vs : List Value) : Unwound s (s.releaseAll vs) :=
  ⟨rfl, List.suffix_refl _, rfl, rfl, rfl, fun _ _ ho => Heap.object?_releaseAll ho⟩

theorem unwound_closeScope (s : State α) (id : Nat) : Unwound s (s.closeScope id) :=
  ⟨rfl, List.suffix_refl _, rfl, rfl, s.scopes.globals_pop id,
    fun _ _ ho => Heap.object?_releaseAll ho⟩

theorem unwound_closeCall (s : State α) (id ref : Nat) : Unwound s (s.closeCall id ref) :=
  ⟨rfl, List.suffix_refl _, rfl, rfl, s.scopes.globals_pop id,
    fun _ _ ho => Heap.object?_releaseAll (Heap.object?_releaseAll ho)⟩

theorem unwound_unwind (s : State α) (f : Frame α) : Unwound s (s.unwind f) := by
  cases f with
  | leave id => exact s.unwound_closeScope id
  | finish id ref => exact s.unwound_closeCall id ref
  | _ => exact s.unwound_releaseAll _

theorem unwound_step (limit : Nat) (h : s.control = .fail e) : Unwound s (s.step limit) := by
  obtain ⟨control, stack, scopes, depth, world⟩ := s
  obtain rfl : control = .fail e := h
  cases stack with
  | nil => exact .refl _
  | cons f k =>
    have hpop : Unwound ⟨.fail e, f :: k, scopes, depth, world⟩
        ⟨.fail e, k, scopes, depth, world⟩ :=
      ⟨rfl, List.suffix_cons _ _, rfl, rfl, rfl, fun _ _ ho => ho⟩
    exact hpop.trans (unwound_unwind _ f)

theorem Reaches.unwound (h : Reaches limit s t) (hs : s.control = .fail e) : Unwound s t := by
  induction h with
  | refl => exact .refl s
  | step _ ih => exact ih.trans (unwound_step limit (ih.control.trans hs))

theorem stack_step_fail {f : Frame α} {k : List (Frame α)} (h : s.control = .fail e)
    (hk : s.stack = f :: k) : (s.step limit).stack = k := by
  obtain ⟨control, stack, scopes, depth, world⟩ := s
  obtain rfl : control = .fail e := h
  obtain rfl : stack = f :: k := hk
  cases f <;> rfl

/-- A failure is the outcome as soon as it has passed all frames. -/
theorem run_of_fail (limit : Nat) (h : s.control = .fail e) :
    ∃ t, s.run limit s.stack.length = some (.error e, t) := by
  -- Each step takes one frame away.
  generalize hk : s.stack = k
  induction k generalizing s with
  | nil =>
    refine ⟨s, ?_⟩
    have hout : s.outcome? = some (.error e) := by simp [outcome?, hk, h]
    unfold run
    rw [hout]
  | cons f k ih =>
    have hnone : s.outcome? = none := by simp [outcome?, hk]
    have hcontrol : (s.step limit).control = .fail e := (unwound_step limit h).control.trans h
    obtain ⟨t, ht⟩ := ih hcontrol (stack_step_fail h hk)
    refine ⟨t, ?_⟩
    unfold run
    rw [hnone]
    exact ht

theorem fail_of_outcome? (h : s.outcome? = some (.error e)) : s.control = .fail e := by
  obtain ⟨-, ⟨v, -, hv⟩ | ⟨e', hc, he⟩⟩ := outcome?_eq_some h
  · cases hv
  · cases he
    exact hc

end State

/-- An execution that fails, but not for its output, has come to that failure in its run. -/
theorem Interpreter.exists_fail {i j : Interpreter α} {fuel : Nat} {e : EvalError α}
    (h : i.execute fuel = some (.error e, j)) (he : ∀ message, e.cause ≠ .output message) :
    ∃ t, State.Reaches i.config.maxCallDepth i.start t ∧ t.control = .fail e ∧
      j.world = t.world := by
  obtain ⟨r, t, hrun, hflush, -⟩ := execute_eq_some h
  obtain ⟨hreach, hout⟩ := State.reaches_of_run hrun
  rcases flush_cases hflush with ⟨rfl, hworld⟩ | ⟨v, message, -, -, heq, -⟩
  · exact ⟨t, hreach, State.fail_of_outcome? hout, hworld⟩
  · cases heq
    exact absurd rfl (he message)

end Scriptlet
