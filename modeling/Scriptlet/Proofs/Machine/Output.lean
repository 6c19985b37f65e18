import Scriptlet.Proofs.Machine.Runs

/-!
What a run writes. Only `print` and `println` write, one text for each call. All other steps do the
same whatever the sink holds and however much room it has, as long as flushing it comes to the same.
-/

namespace Scriptlet

variable {α : Type}

namespace World

variable {w : World α} {σ : Sink}

def withSink (w : World α) (σ : Sink) : World α := ⟨w.heap, w.input, σ⟩

def written (w : World α) : List UInt8 := w.sink.written.toList

theorem readInt_withSink (hσ : σ.flush = w.sink.flush) :
    (w.withSink σ).readInt = (w.readInt.1, w.readInt.2.withSink σ) := by
  obtain ⟨heap, input, sink⟩ := w
  simp only [readInt, withSink] at hσ ⊢
  rw [hσ]
  split
  · rfl
  · split <;> rfl

theorem getItem_withSink (r : Nat) (index : Int64) :
    (w.withSink σ).getItem r index =
      ((w.getItem r index).1, (w.getItem r index).2.withSink σ) := by
  obtain ⟨heap, input, sink⟩ := w
  simp only [getItem, withSink]
  split <;> rfl

theorem setItem_withSink (r : Nat) (index : Int64) (v : Value) :
    (w.withSink σ).setItem r index v =
      ((w.setItem r index v).1, (w.setItem r index v).2.withSink σ) := by
  obtain ⟨heap, input, sink⟩ := w
  simp only [setItem, withSink]
  split <;> rfl

theorem popItem_withSink (r : Nat) :
    (w.withSink σ).popItem r = ((w.popItem r).1, (w.popItem r).2.withSink σ) := by
  obtain ⟨heap, input, sink⟩ := w
  simp only [popItem, withSink]
  split <;> rfl

theorem substring_withSink (r : Nat) (start stop : Int64) :
    (w.withSink σ).substring r start stop =
      ((w.substring r start stop).1, (w.substring r start stop).2.withSink σ) := by
  obtain ⟨heap, input, sink⟩ := w
  simp only [substring, withSink]
  split <;> rfl

end World

namespace Builtin

def output? (b : Builtin) (args : List Value) (h : Heap α) : Option String :=
  match b, args with
  | print, [v] => some (h.render v)
  | println, [v] => some (h.render v ++ "\n")
  | _, _ => none

variable {b : Builtin} {args : List Value} {w : World α} {σ : Sink} {text : String}

theorem invoke_of_output? (h : b.output? args w.heap = some text) :
    (b = print ∨ b = println) ∧ b.invoke args w = w.write text := by
  unfold output? at h
  split at h
  · cases h
    exact ⟨.inl rfl, rfl⟩
  · cases h
    exact ⟨.inr rfl, rfl⟩
  · cases h

theorem body_withSink (h : b.output? args w.heap = none) (hσ : σ.flush = w.sink.flush) :
    b.body args (w.withSink σ) = ((b.body args w).1, (b.body args w).2.withSink σ) := by
  unfold body
  split
  case h_1 => cases h
  case h_2 => cases h
  case h_3 => exact World.readInt_withSink hσ
  case h_6 => exact World.getItem_withSink _ _
  case h_7 => exact World.setItem_withSink _ _ _
  case h_9 => exact World.popItem_withSink _
  case h_10 => exact World.substring_withSink _ _ _
  all_goals rfl

theorem invoke_withSink (h : b.output? args w.heap = none) (hσ : σ.flush = w.sink.flush) :
    b.invoke args (w.withSink σ) = ((b.invoke args w).1, (b.invoke args w).2.withSink σ) := by
  unfold invoke
  split
  · rfl
  · exact body_withSink h hσ

end Builtin

namespace State

variable {limit : Nat} {s t : State α} {σ : Sink} {text : String}

def withSink (s : State α) (σ : Sink) : State α :=
  ⟨s.control, s.stack, s.scopes, s.depth, s.world.withSink σ⟩

/-- The text that the next step writes. -/
def output? (s : State α) : Option String :=
  match s.control with
  | .apply (.builtin b) args _ => b.output? args s.world.heap
  | _ => none

/-! ### A step that writes nothing -/

theorem call_withSink (scope : Nat) (callee : Identifier α) (args : List (Expr α)) (l : α) :
    (s.withSink σ).call scope callee args l = (s.call scope callee args l).withSink σ := by
  simp only [call, withSink, World.withSink]
  split
  · rfl
  · rfl
  · split
    · rfl
    · split <;> rfl
  · rfl

theorem eval_withSink (scope : Nat) (e : Expr α) :
    (s.withSink σ).eval scope e = (s.eval scope e).withSink σ := by
  cases e with
  | integer text l =>
    simp only [eval]
    split <;> rfl
  | string value l => rfl
  | reference id =>
    simp only [eval, withSink]
    split <;> rfl
  | assign target value l => rfl
  | binary op left right l => rfl
  | callAt callee args l => exact call_withSink scope callee args l

theorem exec_withSink (scope : Nat) (st : Stmt α) :
    (s.withSink σ).exec scope st = (s.exec scope st).withSink σ := by
  cases st with
  | declare id l =>
    have hscopes : (s.withSink σ).scopes = s.scopes := rfl
    rw [exec, exec, hscopes]
    by_cases hd : s.scopes.defines scope id.name
    · rw [if_pos hd, if_pos hd]
      rfl
    · rw [if_neg hd, if_neg hd]
      rfl
  | branch cond thenBlock elseBlock l => rfl
  | loop cond body l => rfl
  | expr e => rfl

theorem bindParams_withSink (id : Nat) (params : List (Identifier α)) (args : List Value) :
    (s.withSink σ).bindParams id params args = (s.bindParams id params args).withSink σ := by
  induction params generalizing s args with
  | nil => rfl
  | cons p params ih =>
    cases args with
    | nil => rfl
    | cons v args => exact ih (s := s.bind id p.name v) args

theorem callFunction_withSink (ref closure : Nat) (d : FunctionDef α) (args : List Value) :
    (s.withSink σ).callFunction ref d closure args =
      (s.callFunction ref d closure args).withSink σ := by
  have hparams : (s.withSink σ).withParams d closure args =
      (s.withParams d closure args).withSink σ :=
    bindParams_withSink (s := s.openScope closure) s.scopes.depth d.params args
  rw [callFunction_eq, callFunction_eq, hparams]
  rfl

theorem callBuiltin_withSink {b : Builtin} {args : List Value}
    (h : b.output? args s.world.heap = none) (hσ : σ.flush = s.world.sink.flush) (l : α) :
    (s.withSink σ).callBuiltin b args l = (s.callBuiltin b args l).withSink σ := by
  have hinvoke := Builtin.invoke_withSink h hσ
  rw [callBuiltin_eq, callBuiltin_eq, show (s.withSink σ).world = s.world.withSink σ from rfl,
    hinvoke]
  cases (b.invoke args s.world).1 <;> rfl

theorem applyCallee_withSink {callee : Callee α} {args : List Value} {l : α}
    (h : (s.become (.apply callee args l)).output? = none) (hσ : σ.flush = s.world.sink.flush) :
    (s.withSink σ).applyCallee limit callee args l =
      (s.applyCallee limit callee args l).withSink σ := by
  cases callee with
  | builtin b => exact callBuiltin_withSink h hσ l
  | function ref d closure =>
    have hdepth : (s.withSink σ).depth = s.depth := rfl
    rw [applyCallee, applyCallee, hdepth]
    by_cases hd : limit ≤ s.depth
    · rw [if_pos hd, if_pos hd]
      rfl
    · rw [if_neg hd, if_neg hd]
      exact callFunction_withSink ref closure d args

theorem resume_withSink (v : Value) (f : Frame α) :
    (s.withSink σ).resume v f = (s.resume v f).withSink σ := by
  cases f with
  | assign scope target =>
    simp only [resume, withSink]
    split <;> rfl
  | leftOperand scope op right l =>
    cases v with
    | int a =>
      simp only [resume]
      split <;> rfl
    | _ => rfl
  | rightOperand op a l =>
    cases v with
    | int b =>
      simp only [resume]
      split <;> rfl
    | _ => rfl
  | branch scope l thenBlock elseBlock =>
    cases v with
    | int i =>
      simp only [resume]
      split
      · rfl
      · split <;> rfl
    | _ => rfl
  | test scope cond body =>
    cases v with
    | int i =>
      simp only [resume]
      split <;> rfl
    | _ => rfl
  | _ => rfl

theorem unwind_withSink (f : Frame α) : (s.withSink σ).unwind f = (s.unwind f).withSink σ := by
  cases f <;> rfl

/-- A step that writes nothing learns no more of the sink than whether it can be flushed, and
leaves it as it is. -/
theorem step_withSink (h : s.output? = none) (hσ : σ.flush = s.world.sink.flush) :
    (s.withSink σ).step limit = (s.step limit).withSink σ := by
  obtain ⟨control, stack, scopes, depth, world⟩ := s
  cases control with
  | eval scope e => exact eval_withSink scope e
  | exec scope st => exact exec_withSink scope st
  | block scope rest last => cases rest <;> rfl
  | items rest last =>
    cases rest with
    | nil => rfl
    | cons item rest => cases item <;> rfl
  | loop scope cond body => rfl
  | arguments scope callee done rest l => cases rest <;> rfl
  | apply callee args l => exact applyCallee_withSink h hσ
  | give v =>
    cases stack with
    | nil => rfl
    | cons f k => exact resume_withSink (s := ⟨.give v, k, scopes, depth, world⟩) v f
  | fail e =>
    cases stack with
    | nil => rfl
    | cons f k => exact unwind_withSink (s := ⟨.fail e, k, scopes, depth, world⟩) f

/-! ### A step that writes -/

theorem control_of_output? (h : s.output? = some text) :
    ∃ b args l, s.control = .apply (.builtin b) args l ∧
      b.output? args s.world.heap = some text := by
  unfold output? at h
  split at h
  · rename_i b args l hc
    exact ⟨b, args, l, hc, h⟩
  · cases h

/-- The call is over: its arguments are let go of and the sink is `σ`. -/
def afterWrite (s : State α) (args : List Value) (σ : Sink) : State α :=
  (s.withSink σ).releaseAll args

theorem step_of_output? {b : Builtin} {args : List Value} {l : α}
    (hc : s.control = .apply (.builtin b) args l) (h : b.output? args s.world.heap = some text) :
    s.step limit = match s.world.sink.write text.toUTF8.data with
      | (.ok _, σ) => (s.afterWrite args σ).give (.int 0)
      | (.error message, σ) => (s.afterWrite args σ).failAt l (.output message) := by
  obtain ⟨control, stack, scopes, depth, ⟨heap, input, sink⟩⟩ := s
  obtain rfl : control = .apply (.builtin b) args l := hc
  obtain ⟨-, hinvoke⟩ := Builtin.invoke_of_output? (w := ⟨heap, input, sink⟩) h
  simp only [step, applyCallee]
  rw [callBuiltin_eq]
  simp only [hinvoke, World.write]
  cases hwrite : sink.write text.toUTF8.data with
  | mk answer σ => cases answer <;> rfl

end State

namespace Sink

theorem written_write (σ : Sink) (bytes : Array UInt8) :
    σ.written.toList <+: (σ.write bytes).2.written.toList := by
  unfold write
  split
  · simp [append]
  · simp [append]

end Sink

namespace State

variable {limit : Nat} {s t : State α}

theorem sink_step (h : s.output? = none) : (s.step limit).world.sink = s.world.sink :=
  congrArg (·.world.sink) (step_withSink (s := s) (σ := s.world.sink) h rfl)

theorem written_step (limit : Nat) (s : State α) :
    s.world.written <+: (s.step limit).world.written := by
  cases h : s.output? with
  | none =>
    have hsame : (s.step limit).world.written = s.world.written :=
      congrArg (·.written.toList) (sink_step h)
    exact hsame ▸ List.prefix_refl _
  | some text =>
    obtain ⟨b, args, l, hc, hout⟩ := control_of_output? h
    have hprefix := s.world.sink.written_write text.toUTF8.data
    rw [step_of_output? hc hout]
    cases hwrite : s.world.sink.write text.toUTF8.data with
    | mk answer σ =>
      rw [hwrite] at hprefix
      cases answer <;> exact hprefix

theorem Reaches.written (h : Reaches limit s t) : s.world.written <+: t.world.written := by
  induction h with
  | refl => exact List.prefix_refl _
  | step _ ih => exact ih.trans (written_step limit _)

end State

theorem Interpreter.written_flush {r r' : Except (EvalError α) Value} {w w' : World α}
    (h : flush r w = (r', w')) : w'.written = w.written := by
  rcases flush_cases h with ⟨-, rfl⟩ | ⟨v, message, -, -, -, rfl⟩
  · rfl
  · rfl

end Scriptlet
