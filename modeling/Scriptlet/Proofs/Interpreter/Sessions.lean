import Scriptlet.Proofs.Channel.Input
import Scriptlet.Proofs.Interpreter.Provenance
import Scriptlet.Proofs.Interpreter.Relocation
import Scriptlet.Proofs.Interpreter.Truncation
import Scriptlet.Workbench

/-!
Interpreters that are used any number of times. An execution finds objects of earlier ones on the
heap, but nothing that leads to them; it finds input partly read and a sink partly filled. So it
does what a new interpreter does on the rest of the input and with the rest of the room.
-/

namespace Scriptlet

variable {α β : Type}

/-! ### Runs to the end, side by side -/

namespace State

variable {c : Coupling α β} {s₀ s : State α} {t₀ t : State β} {limit : Nat}
  {ext ext' : List Value}

/-- Like values, or one cause of failure at two views of one place. -/
inductive OutcomeAlike (c : Coupling α β) :
    Except (EvalError α) Value → Except (EvalError β) Value → Prop
  | ok {v v' : Value} (hv : v.Alike c.objects v') : OutcomeAlike c (.ok v) (.ok v')
  | error (cause : Cause) (l : c.Place) :
    OutcomeAlike c (.error ⟨cause, some (c.left l)⟩) (.error ⟨cause, some (c.right l)⟩)

theorem outcome?_of_stack {f : Frame α} {k : List (Frame α)} (h : s.stack = f :: k) :
    s.outcome? = none := by
  rw [outcome?, h]

theorem Twins.outcome_cases (h : Twins c s₀ t₀ s t) (hs : s₀.stack = []) (ht : t₀.stack = []) :
    (s.outcome? = none ∧ t.outcome? = none) ∨
      ∃ r r', s.outcome? = some r ∧ t.outcome? = some r' ∧ OutcomeAlike c r r' := by
  obtain ⟨k, h, hc⟩ := h
  have hiff := h.stack.eq_iff
  rw [hs, ht] at hiff
  cases hstack : s.stack with
  | nil =>
    rw [outcome?, outcome?, hstack, hiff.mp hstack]
    generalize s.control = x at hc ⊢
    generalize t.control = y at hc ⊢
    cases hc with
    | give hv => exact .inr ⟨_, _, rfl, rfl, .ok hv⟩
    | fail cause l => exact .inr ⟨_, _, rfl, rfl, .error cause l⟩
    | _ => exact .inl ⟨rfl, rfl⟩
  | cons f fs =>
    cases hstack' : t.stack with
    | nil =>
      rw [hiff.mpr hstack'] at hstack
      cases hstack
    | cons f' fs' => exact .inl ⟨outcome?_of_stack hstack, outcome?_of_stack hstack'⟩

/-- Two runs have come to an end, and what they hold then is balanced against their heaps. -/
structure EndAlike (c : Coupling α β) (ext ext' : List Value)
    (x : Except (EvalError α) Value × State α) (y : Except (EvalError β) Value × State β) :
    Prop where
  outcome : OutcomeAlike c x.1 y.1
  world : x.2.world.Alike c y.2.world
  left : x.2.outcome? = some x.1 ∧ x.2.Balanced ext
  right : y.2.outcome? = some y.1 ∧ y.2.Balanced ext'

/-- Runs that begin side by side end after the same number of steps, if they end. -/
theorem Twins.run (h : Twins c s₀ t₀ s t) (hs : s₀.stack = []) (ht : t₀.stack = [])
    (hb : s.Balanced ext) (hb' : t.Balanced ext') (fuel : Nat) :
    Option.Rel (EndAlike c ext ext') (s.run limit fuel) (t.run limit fuel) := by
  have hworld := h.choose_spec.1.world
  induction fuel generalizing s t with
  | zero =>
    unfold State.run
    rcases h.outcome_cases hs ht with ⟨hl, hr⟩ | ⟨r, r', hl, hr, halike⟩
    · rw [hl, hr]
      exact .none
    · rw [hl, hr]
      exact .some ⟨halike, hworld, ⟨hl, hb⟩, hr, hb'⟩
  | succ fuel ih =>
    unfold State.run
    rcases h.outcome_cases hs ht with ⟨hl, hr⟩ | ⟨r, r', hl, hr, halike⟩
    · rw [hl, hr]
      have hsound := h.choose_spec.2.sound
      have hgoes : s.stack = s₀.stack → ¬ s.control.Answers := fun hstack hanswers =>
        not_done_of_outcome? hs hl ⟨hstack, hanswers⟩
      have hnext : Twins c s₀ t₀ (s.step limit) (t.step limit) := h.step hb hb' hgoes
      exact ih hnext (hb.step_of_sound hsound.1) (hb'.step_of_sound hsound.2)
        hnext.choose_spec.1.world
    · rw [hl, hr]
      exact .some ⟨halike, hworld, ⟨hl, hb⟩, hr, hb'⟩

end State

/-! ### A new interpreter instead of one in use -/

/-- Both runs find the first `k` and share them, and the first finds `n` more. -/
@[reducible] def Matching.behind (n k : Nat) : Matching :=
  ⟨k, n + k, k, Nat.le_add_left k n, Nat.le_refl k⟩

/-- Compares a run with one on an empty heap: of the objects that the first finds, `n` were made
before it. -/
@[reducible] def Coupling.afresh (n : Nat) : Coupling α α where
  Place := α
  left := id
  right := id
  objects := .behind n 0
  scopes := .behind 0 1
  global := Nat.one_pos

/-- The empty heap has no object to compare with. -/
theorem Heap.alike_empty (h : Heap α) : h.Alike (.afresh h.cells.size) .empty := by
  refine ⟨⟨0, rfl, rfl⟩, fun r r' o o' _ _ ho' => ?_⟩
  simp at ho'

namespace Interpreter

/-- Nothing that the answer or an array leads to has been freed. -/
def Kept (x : Except (EvalError α) Value × Interpreter α) : Prop :=
  x.2.world.heap.Sealed ∧ ∀ v, x.1 = .ok v → x.2.world.heap.Keeps v

/-- Two answers look the same to whoever asked, the input left has the same bytes, and the first
sink holds what the second one does behind `before`. Of the objects of the first heap, `n` were made
earlier; the others are, one after the other, like those of the second, and so are the values. -/
structure SameAnswer (before : List UInt8) (x y : Except (EvalError α) Value × Interpreter α) :
    Prop where
  answer : x.1.map x.2.world.heap.display = y.1.map y.2.world.heap.display
  output : x.2.world.written = before ++ y.2.world.written
  input : x.2.world.input.unread = y.2.world.input.unread
  objects : ∃ n, x.2.world.heap.Alike (.afresh n) y.2.world.heap ∧
    ∀ v v', x.1 = .ok v → y.1 = .ok v' → v.Alike (.behind n 0) v'
  kept : Kept x ∧ Kept y

variable {i : Interpreter α} {held : List Value}

theorem twins_afresh (i : Interpreter α) :
    State.Twins (.afresh i.close.heap.cells.size) i.start
      (new i.program i.config i.world.input i.world.sink).start i.start
      (new i.program i.config i.world.input i.world.sink).start := by
  have hworld : i.close.Alike (.afresh i.close.heap.cells.size)
      (new i.program i.config i.world.input i.world.sink).close := by
    rw [close_new]
    exact ⟨i.close.heap.alike_empty, rfl, rfl⟩
  refine ⟨0, ⟨Scopes.withBuiltins_alike rfl rfl, .base, rfl, hworld⟩, ?_⟩
  have hitems := Control.Alike.items (c := .afresh i.close.heap.cells.size) (k := 0)
    i.program.items (.int 0)
  have hsame : i.program.items.map (Item.map id) = i.program.items :=
    congrArg Program.items i.program.map_id
  change Control.Alike _ 0 (.items (i.program.items.map (Item.map id)) (.int 0))
    (.items (i.program.items.map (Item.map id)) (.int 0)) at hitems
  rw [hsame] at hitems
  exact hitems

theorem kept_of_balanced {r : Except (EvalError α) Value} {j : Interpreter α} {ext : List Value}
    (hb : j.world.heap.Balanced (r.toOption.toList ++ ext)) : Kept (r, j) := by
  refine ⟨hb.sealed, ?_⟩
  rintro v rfl
  exact hb.keeps v List.mem_cons_self

theorem kept_flush {r : Except (EvalError α) Value} {t : State α} {ext : List Value}
    (hb : t.Balanced ext) (hout : t.outcome? = some r) (p : Program α) (c : Config) :
    Kept ((flush r t.world).1, ⟨p, c, t.scopes, (flush r t.world).2⟩) :=
  kept_of_balanced (flush_heap rfl (hb.of_outcome? hout)).1

theorem sameAnswer_of_end {n : Nat} {ext ext' : List Value} {r r' : Except (EvalError α) Value}
    {t t' : State α} (h : State.EndAlike (.afresh n) ext ext' (r, t) (r', t'))
    (p p' : Program α) (c c' : Config) :
    SameAnswer [] ((flush r t.world).1, ⟨p, c, t.scopes, (flush r t.world).2⟩)
      ((flush r' t'.world).1, ⟨p', c', t'.scopes, (flush r' t'.world).2⟩) := by
  obtain ⟨houtcome, ⟨hheap, hinput, hsink⟩, ⟨hout, hb⟩, hout', hb'⟩ := h
  have hwritten : t.world.written = t'.world.written := congrArg (·.written.toList) hsink
  have hunread : t.world.input.unread = t'.world.input.unread := congrArg Input.unread hinput
  have hkept := And.intro (kept_flush hb hout p c) (kept_flush hb' hout' p' c')
  cases houtcome with
  | error cause l =>
    refine ⟨rfl, hwritten, hunread, ⟨n, hheap, ?_⟩, hkept⟩
    rintro v v' ⟨⟩
  | @ok v v' hv =>
    cases hflush : t.world.sink.flush with
    | error message =>
      have hflush' : t'.world.sink.flush = .error message := by rw [← hsink, hflush]
      simp only [flush, hflush, hflush'] at hkept ⊢
      refine ⟨rfl, hwritten, hunread, ⟨n, hheap.releaseAll [v] [v'], ?_⟩, hkept⟩
      rintro w w' ⟨⟩
    | ok _ =>
      have hflush' : t'.world.sink.flush = .ok () := by rw [← hsink, hflush]
      rw [flush_of_ok hflush, flush_of_ok hflush'] at hkept ⊢
      have hrender := hheap.render hkept.1.1 hkept.2.1 hv (hkept.1.2 v rfl) (hkept.2.2 v' rfl)
      have hdisplay : t.world.heap.display v = t'.world.heap.display v' := by
        rw [Heap.display, Heap.display, hv.kind_eq, hrender]
      refine ⟨congrArg Except.ok hdisplay, hwritten, hunread, ⟨n, hheap, ?_⟩, hkept⟩
      rintro w w' ⟨⟩ ⟨⟩
      exact hv

/-- The objects that earlier executions have left make no difference. -/
theorem Sound.execute_afresh (h : i.Sound held) (fuel : Nat) :
    Option.Rel (SameAnswer []) (i.execute fuel)
      ((new i.program i.config i.world.input i.world.sink).execute fuel) := by
  have hnew := sound_new i.program i.config i.world.input i.world.sink
  have hrun : Option.Rel (State.EndAlike (.afresh i.close.heap.cells.size) held [])
      (i.start.run i.config.maxCallDepth fuel)
      ((new i.program i.config i.world.input i.world.sink).start.run i.config.maxCallDepth fuel) :=
    (twins_afresh i).run rfl rfl h.balanced_start hnew.balanced_start fuel
  rw [execute_eq_map, execute_eq_map]
  have hconfig : (new i.program i.config i.world.input i.world.sink).config = i.config := rfl
  rw [hconfig]
  generalize i.start.run i.config.maxCallDepth fuel = x at hrun ⊢
  generalize (new i.program i.config i.world.input i.world.sink).start.run
    i.config.maxCallDepth fuel = y at hrun ⊢
  cases hrun with
  | none => exact .none
  | some hend => exact .some (sameAnswer_of_end hend _ _ _ _)

end Interpreter

/-! ### Other fills of the same bytes -/

/-- The same locations, and all input in the buffer. -/
def Transport.gather : Transport α α := ⟨id, Input.gathered, Input.readInt_gathered⟩

theorem transportResult_gather (r : Except (EvalError α) Value) :
    transportResult .gather r = r := by
  cases r with
  | ok v => rfl
  | error e =>
    obtain ⟨cause, location⟩ := e
    cases location <;> rfl

namespace Interpreter

/-- The same answer on the same heap; the input left has the same bytes, and the first sink holds
what the second one does behind `before`. -/
structure Agrees (before : List UInt8) (x y : Except (EvalError α) Value × Interpreter α) :
    Prop where
  answer : x.1 = y.1
  heap : x.2.world.heap = y.2.world.heap
  output : x.2.world.written = before ++ y.2.world.written
  input : x.2.world.input.unread = y.2.world.input.unread

theorem agrees_of_gather {r r' : Except (EvalError α) Value} {j j' : Interpreter α}
    (hr : r = r') (hj : j.transport .gather = j'.transport .gather) :
    Agrees [] (r, j) (r', j') where
  answer := hr
  heap := by
    have hheap : j.world.heap.map id = j'.world.heap.map id := congrArg (·.world.heap) hj
    rwa [Heap.map_id, Heap.map_id] at hheap
  output := congrArg (·.world.sink.written.toList) hj
  input := congrArg (·.world.input.buffer) hj

theorem execute_of_unread (p : Program α) (config : Config) (sink : Sink) {input input' : Input}
    (hbytes : input.unread = input'.unread) (hend : input.failure = input'.failure)
    (fuel : Nat) :
    Option.Rel (Agrees []) ((new p config input sink).execute fuel)
      ((new p config input' sink).execute fuel) := by
  have hsame : (new p config input sink).transport .gather =
      (new p config input' sink).transport .gather := by
    have hgathered : input.gathered = input'.gathered := by
      rw [Input.gathered, Input.gathered, hbytes, hend]
    simp only [new, transport, World.transport, Transport.gather, hgathered]
  have hexecute := execute_transport .gather (new p config input sink) fuel
  rw [hsame, execute_transport] at hexecute
  generalize (new p config input sink).execute fuel = x at hexecute ⊢
  generalize (new p config input' sink).execute fuel = y at hexecute ⊢
  cases x with
  | none =>
    cases y with
    | none => exact .none
    | some y => cases hexecute
  | some x =>
    cases y with
    | none => cases hexecute
    | some y =>
      obtain ⟨hr, hj⟩ := Prod.mk.inj (Option.some.inj hexecute)
      rw [transportResult_gather, transportResult_gather] at hr
      exact .some (agrees_of_gather hr.symm hj.symm)

end Interpreter

/-! ### The room that is left -/

namespace Sink

/-- An empty sink with the room that is left. -/
def remaining (σ : Sink) : Sink :=
  ⟨#[], σ.capacity.map (· - σ.written.size), σ.refusal, σ.flushFailure⟩

variable (σ : Sink) (held : List UInt8)

theorem room_remaining (n : Nat) :
    (σ.holding (σ.written.toList ++ held)).room n = (σ.remaining.holding held).room n := by
  cases hc : σ.capacity with
  | none => simp [room, holding, remaining, hc]
  | some c =>
    have hleft : c - (σ.written.size + held.length) = c - σ.written.size - held.length := by omega
    simp [room, holding, remaining, hc, hleft]

theorem write_remaining (bytes : Array UInt8) :
    ∃ answer more,
      (σ.remaining.holding held).write bytes = (answer, σ.remaining.holding (held ++ more)) ∧
      (σ.holding (σ.written.toList ++ held)).write bytes =
        (answer, σ.holding (σ.written.toList ++ (held ++ more))) := by
  have hroom := σ.room_remaining held bytes.size
  simp only [write, append_holding, hroom, List.append_assoc]
  by_cases hfits : (σ.remaining.holding held).room bytes.size = bytes.size
  · simp only [hfits, if_true]
    exact ⟨_, _, rfl, rfl⟩
  · simp only [hfits, if_false]
    exact ⟨_, _, rfl, rfl⟩

end Sink

namespace State

variable {σ : Sink} {limit : Nat} {s t : State α}

/-- The sink is `σ` but for what has been written. -/
def Fills (σ : Sink) (s : State α) : Prop := s.world.sink = σ.holding s.world.written

/-- The state with `σ` for a sink, and with the bytes that were written behind those of `σ`. -/
def behind (σ : Sink) (s : State α) : State α :=
  s.withSink (σ.holding (σ.written.toList ++ s.world.written))

theorem step_behind (hs : s.Fills σ.remaining) :
    (s.step limit).Fills σ.remaining ∧ (s.behind σ).step limit = (s.step limit).behind σ := by
  cases hout : s.output? with
  | none =>
    have hflush : (σ.holding (σ.written.toList ++ s.world.written)).flush =
        s.world.sink.flush := by
      rw [hs]
      rfl
    have hsink : (s.step limit).world.sink = s.world.sink := sink_step hout
    have hwritten : (s.step limit).world.written = s.world.written :=
      congrArg (·.written.toList) hsink
    refine ⟨?_, ?_⟩
    · rw [Fills, hsink, hwritten]
      exact hs
    · rw [behind, step_withSink hout hflush, behind, hwritten]
  | some text =>
    obtain ⟨b, args, l, hc, htext⟩ := control_of_output? hout
    obtain ⟨answer, more, hwrite, hwrite'⟩ :=
      σ.write_remaining s.world.written text.toUTF8.data
    rw [← hs] at hwrite
    have hsink : (s.behind σ).world.sink =
        σ.holding (σ.written.toList ++ s.world.written) := rfl
    rw [step_of_output? hc htext, step_of_output? (s := s.behind σ) hc htext, hsink, hwrite,
      hwrite']
    cases answer <;> exact ⟨rfl, rfl⟩

theorem Reaches.fills (h : Reaches limit s t) (hs : s.Fills σ.remaining) :
    t.Fills σ.remaining := by
  induction h with
  | refl => exact hs
  | step _ ih => exact (step_behind ih).1

theorem run_behind (hs : s.Fills σ.remaining) (fuel : Nat) :
    (s.behind σ).run limit fuel =
      (s.run limit fuel).map fun (r, t) => (r, t.behind σ) := by
  have hout : ∀ u : State α, (u.behind σ).outcome? = u.outcome?.map id := by
    intro u
    rw [Option.map_id]
    rfl
  exact run_eq_map hout (fun u hu => (step_behind (hu.fills hs)).2) fuel

end State

namespace Interpreter

theorem start_behind (p : Program α) (config : Config) (input : Input) (σ : Sink) :
    (new p config input σ).start = (new p config input σ.remaining).start.behind σ := by
  have hself : σ.holding (σ.written.toList ++ []) = σ := by simp [Sink.holding]
  rw [start, start, close_new, close_new]
  simp only [State.behind, State.withSink, World.withSink]
  exact congrArg (fun σ' => State.mk _ _ _ _ ⟨_, _, σ'⟩) hself.symm

theorem agrees_behind {σ : Sink} {t : State α} (ht : t.Fills σ.remaining)
    (r : Except (EvalError α) Value) (p p' : Program α) (c c' : Config) :
    Agrees σ.written.toList
      ((flush r (t.behind σ).world).1, ⟨p, c, t.scopes, (flush r (t.behind σ).world).2⟩)
      ((flush r t.world).1, ⟨p', c', t.scopes, (flush r t.world).2⟩) := by
  have hflush : (t.behind σ).world.sink.flush = t.world.sink.flush := by
    rw [ht]
    rfl
  cases r with
  | error e => exact ⟨rfl, rfl, rfl, rfl⟩
  | ok v =>
    simp only [flush, hflush]
    cases t.world.sink.flush with
    | ok _ => exact ⟨rfl, rfl, rfl, rfl⟩
    | error message => exact ⟨rfl, rfl, rfl, rfl⟩

theorem execute_of_remaining (p : Program α) (config : Config) (input : Input) (σ : Sink)
    (fuel : Nat) :
    Option.Rel (Agrees σ.written.toList) ((new p config input σ).execute fuel)
      ((new p config input σ.remaining).execute fuel) := by
  have hstart : (new p config input σ.remaining).start.Fills σ.remaining := by
    rw [start, close_new]
    rfl
  rw [execute_eq_map, execute_eq_map, start_behind]
  change Option.Rel _ (((new p config input σ.remaining).start.behind σ).run
    config.maxCallDepth fuel |>.map _) ((new p config input σ.remaining).start.run
    config.maxCallDepth fuel |>.map _)
  rw [State.run_behind hstart]
  cases hrun : (new p config input σ.remaining).start.run config.maxCallDepth fuel with
  | none => exact .none
  | some x =>
    have hfills := (State.reaches_of_run hrun).1.fills hstart
    exact .some (agrees_behind hfills x.1 _ _ _ _)

/-! ### Any number of calls -/

variable {i : Interpreter α} {held : List Value}

theorem SameAnswer.trans_agrees {a b : List UInt8}
    {x y z : Except (EvalError α) Value × Interpreter α} (h : SameAnswer a x y)
    (h' : Agrees b y z) : SameAnswer (a ++ b) x z := by
  obtain ⟨hanswer, houtput, hinput, hobjects, hkept⟩ := h
  refine ⟨?_, ?_, hinput.trans h'.input, ?_, ?_⟩
  · rw [hanswer, h'.answer, h'.heap]
  · rw [houtput, h'.output, List.append_assoc]
  · rwa [h'.answer, h'.heap] at hobjects
  · rwa [Kept, Kept, h'.answer, h'.heap] at hkept

theorem sameAnswer_trans_agrees {a b : List UInt8}
    {x y z : Option (Except (EvalError α) Value × Interpreter α)}
    (h : Option.Rel (SameAnswer a) x y) (h' : Option.Rel (Agrees b) y z) :
    Option.Rel (SameAnswer (a ++ b)) x z := by
  cases h with
  | none =>
    cases h'
    exact .none
  | some hxy =>
    cases h' with
    | some hyz => exact .some (hxy.trans_agrees hyz)

theorem Used.sound {i₀ : Interpreter α} (h : Used i₀ held i) (h₀ : i₀.Sound []) :
    i.Sound held := by
  induction h with
  | fresh => exact h₀
  | run _ hrun ih => exact ih.run hrun
  | execute _ hrun ih => exact ih.execute hrun
  | discard _ hheld ih => exact ih.discard hheld

theorem Used.same_program {i₀ : Interpreter α} (h : Used i₀ held i) :
    i.program = i₀.program ∧ i.config = i₀.config := by
  have hexecute : ∀ {i j : Interpreter α} {fuel : Nat} {r : Except (EvalError α) Value},
      i.execute fuel = some (r, j) → j.program = i.program ∧ j.config = i.config := by
    intro i j fuel r hrun
    obtain ⟨-, t, -, -, hj⟩ := execute_eq_some hrun
    rw [hj]
    exact ⟨rfl, rfl⟩
  induction h with
  | fresh => exact ⟨rfl, rfl⟩
  | run _ hrun ih =>
    rcases run_cases hrun with ⟨e, -, -, rfl⟩ | ⟨-, hrun⟩
    · exact ih
    · exact ⟨(hexecute hrun).1.trans ih.1, (hexecute hrun).2.trans ih.2⟩
  | execute _ hrun ih => exact ⟨(hexecute hrun).1.trans ih.1, (hexecute hrun).2.trans ih.2⟩
  | discard _ _ ih => exact ih

/-- Whatever an interpreter was used for before, a call has the answer and the output of the same
call to a new one that is given the bytes not yet read and the room not yet filled. Checking names
leaves everything as it is. -/
theorem calls_do_as_of_new {program : Program α} {config : Config} {input input' : Input}
    {sink : Sink} (h : Used (new program config input sink) held i)
    (hbytes : i.world.input.unread = input'.unread)
    (hend : i.world.input.failure = input'.failure) (fuel : Nat) :
    let fresh := new program config input' i.world.sink.remaining
    i.analyze = fresh.analyze ∧
    i.perform fuel .analyze = some (i.analyze.map fun _ => .fine, i) ∧
    Option.Rel (SameAnswer i.world.written) (i.run fuel) (fresh.run fuel) ∧
    Option.Rel (SameAnswer i.world.written) (i.execute fuel) (fresh.execute fuel) := by
  intro fresh
  have hsound := h.sound (sound_new program config input sink)
  obtain ⟨hprogram, hconfig⟩ := h.same_program
  change i.program = program at hprogram
  change i.config = config at hconfig
  have hexecute : Option.Rel (SameAnswer i.world.written) (i.execute fuel)
      (fresh.execute fuel) := by
    -- First the heap is exchanged, then the fills of the input, then the sink.
    have hafresh := hsound.execute_afresh fuel
    rw [hprogram, hconfig] at hafresh
    have hunread := execute_of_unread program config i.world.sink hbytes hend fuel
    have hroom := execute_of_remaining program config input' i.world.sink fuel
    exact sameAnswer_trans_agrees (sameAnswer_trans_agrees hafresh hunread) hroom
  have hanalyze : i.analyze = fresh.analyze := congrArg Program.analyze hprogram
  have hobjection : i.objection? = fresh.objection? := by
    rw [objection?, objection?, hanalyze, hconfig]
    rfl
  refine ⟨hanalyze, rfl, ?_, hexecute⟩
  rw [Interpreter.run, Interpreter.run, hobjection]
  cases fresh.objection? with
  | none => exact hexecute
  | some e =>
    have hkept : Kept (.error e, i) := kept_of_balanced hsound.balanced
    have hkept' : Kept (.error e, fresh) := kept_of_balanced (sound_new _ _ _ _).balanced
    refine .some ⟨rfl, (List.append_nil _).symm, hbytes, ⟨_, i.world.heap.alike_empty, ?_⟩,
      hkept, hkept'⟩
    rintro v v' ⟨⟩

/-- Reads a number, puts it into an array that contains itself, and prints the array. -/
def knottedEcho : Program Unit :=
  let a : Identifier Unit := ⟨"a", ()⟩
  ⟨[.stmt (.declare a ()),
    .stmt (.expr (.assign a (.callAt ⟨"mkarr", ()⟩ [.callAt ⟨"readint", ()⟩ [] ()] ()) ())),
    .stmt (.expr (.callAt ⟨"push", ()⟩ [.reference a, .reference a] ())),
    .stmt (.expr (.callAt ⟨"println", ()⟩ [.reference a] ()))]⟩

/-- The first run leaves its array behind; the second reads the other number, and its output does
not fit. So it is with a new interpreter, the rest of the input and the rest of the room. -/
theorem knottedEcho_does_as_of_new :
    let bytes (text : String) := text.toUTF8.data.toList
    let i₀ := new knottedEcho .standard (.ofBytes (bytes "12 7") 3 none)
      ⟨#[], some 20, .acceptsNothing, none⟩
    let fresh := new knottedEcho .standard ⟨bytes " 7", [], none⟩
      ⟨#[], some 8, .acceptsNothing, none⟩
    ∃ r i, i₀.run 100 = some (r, i) ∧ i.world.heap.live = 1 ∧
      Option.Rel (SameAnswer (bytes "[12, [...]]\n")) (i.run 100) (fresh.run 100) ∧
      (fresh.run 100).map (fun (r, j) => (r.toOption, j.world.written)) =
        some (none, bytes "[7, [...") := by
  intro bytes i₀ fresh
  have hfirst : (i₀.run 100).map (fun (_, i) => (i.world.heap.live, i.world.sink,
      i.world.input.unread, i.world.input.failure)) =
      some (1, ⟨(bytes "[12, [...]]\n").toArray, some 20, .acceptsNothing, none⟩, bytes " 7",
        none) := by
    decide +kernel
  obtain ⟨⟨r, i⟩, hrun, hleft⟩ := Option.map_eq_some_iff.mp hfirst
  obtain ⟨hlive, hleft⟩ := Prod.mk.inj hleft
  obtain ⟨hsink, hleft⟩ := Prod.mk.inj hleft
  have hbytes : i.world.input.unread = Input.unread ⟨bytes " 7", [], none⟩ := (Prod.mk.inj hleft).1
  obtain ⟨-, -, hsecond, -⟩ :=
    calls_do_as_of_new (Used.fresh.run hrun) hbytes (Prod.mk.inj hleft).2 100
  have hroom : i.world.sink.remaining = ⟨#[], some 8, .acceptsNothing, none⟩ := by
    rw [hsink]
    decide +kernel
  have hwritten : i.world.written = bytes "[12, [...]]\n" := by rw [World.written, hsink]
  rw [hroom, hwritten] at hsecond
  exact ⟨r, i, hrun, hlive, hsecond, by decide +kernel⟩

end Interpreter

end Scriptlet
