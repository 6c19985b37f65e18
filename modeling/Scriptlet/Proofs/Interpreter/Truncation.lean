import Scriptlet.Proofs.Interpreter.CallDepth
import Scriptlet.Proofs.Machine.Failures
import Scriptlet.Proofs.Machine.Output

/-!
Runs with little room for output. As long as the output fits, a run into a limited sink is the run
into an unlimited one. The first call that does not fit fills the sink and fails, and all that
follows is unwinding.
-/

namespace Scriptlet

variable {α : Type}

namespace Sink

/-- Room for `n` bytes; flushing succeeds. -/
def limited (n : Nat) (refusal : Refusal) : Sink := ⟨#[], some n, refusal, none⟩

/-- The sink with these bytes written to it. -/
def holding (σ : Sink) (bytes : List UInt8) : Sink :=
  ⟨bytes.toArray, σ.capacity, σ.refusal, σ.flushFailure⟩

variable {n : Nat} {refusal : Refusal} {held : List UInt8} {bytes : Array UInt8}

theorem append_holding (σ : Sink) (held : List UInt8) (bytes : Array UInt8) :
    (σ.holding held).append bytes = σ.holding (held ++ bytes.toList) := by
  simp [append, holding]

theorem write_unlimited (held : List UInt8) (bytes : Array UInt8) :
    (unlimited.holding held).write bytes = (.ok (), unlimited.holding (held ++ bytes.toList)) := by
  have hroom : (unlimited.holding held).room bytes.size = bytes.size := rfl
  rw [write, if_pos hroom, append_holding]

theorem room_limited (n : Nat) (refusal : Refusal) (held : List UInt8) (k : Nat) :
    ((limited n refusal).holding held).room k = min k (n - held.length) := rfl

theorem write_of_fits (h : held.length + bytes.size ≤ n) :
    ((limited n refusal).holding held).write bytes =
      (.ok (), (limited n refusal).holding (held ++ bytes.toList)) := by
  have hroom : ((limited n refusal).holding held).room bytes.size = bytes.size := by
    rw [room_limited]
    omega
  rw [write, if_pos hroom, append_holding]

theorem write_of_overflows (hheld : held.length ≤ n) (h : n < held.length + bytes.size) :
    ((limited n refusal).holding held).write bytes =
      (.error refusal.message, (limited n refusal).holding ((held ++ bytes.toList).take n)) := by
  have hroom : ((limited n refusal).holding held).room bytes.size = n - held.length := by
    rw [room_limited]
    omega
  have hfull : ((limited n refusal).holding held).room bytes.size ≠ bytes.size := by omega
  have hpart : held ++ (bytes.take (n - held.length)).toList = (held ++ bytes.toList).take n := by
    rw [List.take_append, List.take_of_length_le hheld]
    simp
  rw [write, if_neg hfull, append_holding, hroom, hpart]
  rfl

end Sink

namespace State

variable {limit n : Nat} {refusal : Refusal} {s t u : State α}

def limited (n : Nat) (refusal : Refusal) (s : State α) : State α :=
  s.withSink ((Sink.limited n refusal).holding s.world.written)

def Unlimited (s : State α) : Prop := s.world.sink = Sink.unlimited.holding s.world.written

theorem step_unlimited {b : Builtin} {args : List Value} {l : α} {text : String}
    (hs : s.Unlimited) (hc : s.control = .apply (.builtin b) args l)
    (hout : b.output? args s.world.heap = some text) :
    s.step limit = (s.afterWrite args
      (Sink.unlimited.holding (s.world.written ++ text.toUTF8.data.toList))).give (.int 0) := by
  rw [step_of_output? hc hout, hs, Sink.write_unlimited]

theorem Unlimited.step (hs : s.Unlimited) : (s.step limit).Unlimited := by
  cases hout : s.output? with
  | none =>
    unfold Unlimited World.written
    rw [sink_step hout]
    exact hs
  | some text =>
    obtain ⟨b, args, l, hc, htext⟩ := control_of_output? hout
    rw [step_unlimited hs hc htext]
    rfl

theorem Reaches.unlimited (h : Reaches limit s t) (hs : s.Unlimited) : t.Unlimited := by
  induction h with
  | refl => exact hs
  | step _ ih => exact ih.step

theorem step_limited (hs : s.Unlimited) (hn : (s.step limit).world.written.length ≤ n) :
    (s.limited n refusal).step limit = (s.step limit).limited n refusal := by
  cases hout : s.output? with
  | none =>
    -- Nothing is written, and flushing succeeds with either sink.
    have hflush : ((Sink.limited n refusal).holding s.world.written).flush =
        s.world.sink.flush := by
      rw [hs]
      rfl
    have hwritten : (s.step limit).world.written = s.world.written := by
      rw [World.written, sink_step hout]
      rfl
    rw [limited, step_withSink hout hflush, limited, hwritten]
  | some text =>
    obtain ⟨b, args, l, hc, htext⟩ := control_of_output? hout
    rw [step_unlimited hs hc htext] at hn ⊢
    have hfits : (s.world.written ++ text.toUTF8.data.toList).length ≤ n := hn
    rw [List.length_append, Array.length_toList] at hfits
    have hsink : (s.limited n refusal).world.sink =
        (Sink.limited n refusal).holding s.world.written := rfl
    rw [step_of_output? (s := s.limited n refusal) hc htext, hsink, Sink.write_of_fits hfits]
    rfl

theorem Reaches.limited (h : Reaches limit s t) (hs : s.Unlimited)
    (hn : t.world.written.length ≤ n) :
    Reaches limit (s.limited n refusal) (t.limited n refusal) := by
  induction h with
  | refl => exact .refl
  | @step t hreach ih =>
    have hgrows := (written_step limit t).length_le
    have hbefore := ih (by omega)
    rw [← step_limited (hreach.unlimited hs) hn]
    exact hbefore.step

/-- The call at `l` writes byte `n + 1`, counting from one. -/
structure Overflows (limit n : Nat) (l : α) (u : State α) : Prop where
  call : ∃ b args, u.control = .apply (.builtin b) args l ∧ (b = .print ∨ b = .println)
  before : u.world.written.length ≤ n
  after : n < (u.step limit).world.written.length

theorem Reaches.exists_overflows (h : Reaches limit s t) (hs : s.world.written.length ≤ n)
    (ht : n < t.world.written.length) :
    ∃ u l, Reaches limit s u ∧ u.Overflows limit n l ∧ Reaches limit (u.step limit) t := by
  induction h with
  | refl => omega
  | @step t hreach ih =>
    by_cases hbefore : n < t.world.written.length
    · obtain ⟨u, l, hu, hover, hafter⟩ := ih hbefore
      exact ⟨u, l, hu, hover, hafter.step⟩
    · cases hout : t.output? with
      | none =>
        rw [World.written, sink_step hout] at ht
        exact absurd ht hbefore
      | some text =>
        obtain ⟨b, args, l, hc, htext⟩ := control_of_output? hout
        obtain ⟨hb, -⟩ := Builtin.invoke_of_output? htext
        exact ⟨t, l, hreach, ⟨⟨b, args, hc, hb⟩, by omega, ht⟩, .refl⟩

/-- The state in which a call at `l` has failed because the sink is full of these bytes. -/
def stopped (n : Nat) (refusal : Refusal) (bytes : List UInt8) (l : α) (u : State α) : State α :=
  (u.withSink ((Sink.limited n refusal).holding bytes)).failAt l (.output refusal.message)

theorem Overflows.step {l : α} (h : u.Overflows limit n l) (hu : u.Unlimited)
    (refusal : Refusal) :
    ((u.limited n refusal).step limit).control = .fail ⟨.output refusal.message, some l⟩ ∧
      Unwound (u.stopped n refusal ((u.step limit).world.written.take n) l)
        ((u.limited n refusal).step limit) := by
  cases hout : u.output? with
  | none =>
    have hafter := h.after
    have hbefore := h.before
    rw [World.written, sink_step hout] at hafter
    exact absurd hafter (by rw [World.written] at hbefore; omega)
  | some text =>
    obtain ⟨b, args, l', hc, htext⟩ := control_of_output? hout
    obtain ⟨b', args', hc', -⟩ := h.call
    cases hc.symm.trans hc'
    have hafter := h.after
    rw [step_unlimited hu hc htext] at hafter ⊢
    have hover : n < (u.world.written ++ text.toUTF8.data.toList).length := hafter
    rw [List.length_append, Array.length_toList] at hover
    have hsink : (u.limited n refusal).world.sink =
        (Sink.limited n refusal).holding u.world.written := rfl
    rw [step_of_output? (s := u.limited n refusal) hc htext, hsink,
      Sink.write_of_overflows h.before hover]
    exact ⟨rfl, unwound_releaseAll (u.stopped n refusal _ l) args⟩

theorem run_limited (hs : s.Unlimited) {fuel : Nat} {r : Except (EvalError α) Value}
    (h : s.run limit fuel = some (r, t)) (hn : t.world.written.length ≤ n)
    (refusal : Refusal) :
    (s.limited n refusal).run limit fuel = some (r, t.limited n refusal) := by
  refine run_map (fun _ => rfl) (fun u hu hafter => step_limited (hu.unlimited hs) ?_) h
  exact Nat.le_trans hafter.written.length_le hn

end State

namespace Interpreter

variable {i j : Interpreter α} {n fuel : Nat} {refusal : Refusal} {r : Except (EvalError α) Value}

def limited (n : Nat) (refusal : Refusal) (i : Interpreter α) : Interpreter α :=
  ⟨i.program, i.config, i.scopes,
    i.world.withSink ((Sink.limited n refusal).holding i.world.written)⟩

theorem objection?_limited (n : Nat) (refusal : Refusal) (i : Interpreter α) :
    (i.limited n refusal).objection? = i.objection? := rfl

theorem execute_limited (hi : i.start.Unlimited) (h : i.execute fuel = some (r, j))
    (hn : j.world.written.length ≤ n) :
    (i.limited n refusal).execute fuel = some (r, j.limited n refusal) := by
  obtain ⟨r₀, t, hrun, hflush, hj⟩ := execute_eq_some h
  obtain ⟨hreach, -⟩ := State.reaches_of_run hrun
  have ht : t.world.sink.flush = .ok () := by
    rw [hreach.unlimited hi]
    rfl
  rw [flush_of_ok ht] at hflush
  obtain ⟨rfl, hworld⟩ := Prod.mk.inj hflush
  have hfits : t.world.written.length ≤ n := by
    rw [hworld]
    exact hn
  have hrun' := State.run_limited hi hrun hfits refusal
  have hflush' := flush_of_ok (r := r₀) (w := (t.limited n refusal).world) rfl
  have hexecute := execute_of_run (i := i.limited n refusal) hrun' hflush'
  rw [hexecute, hj, ← hworld]
  rfl

/-- How an execution that would have written `out` goes with room for `n` bytes: `u` is the state in
which it makes the call that does not fit, at `l`. -/
structure Truncated (n : Nat) (refusal : Refusal) (out : List UInt8) (l : α) (u : State α)
    (i : Interpreter α) : Prop where
  reached : State.Reaches i.config.maxCallDepth i.start u
  overflows : u.Overflows i.config.maxCallDepth n l
  /-- The bytes that the call would have written are part of the output. -/
  part : (u.step i.config.maxCallDepth).world.written <+: out
  /-- Up to the call the room makes no difference. -/
  same : State.Reaches i.config.maxCallDepth (i.limited n refusal).start (u.limited n refusal)
  /-- The call fails with the sink full, and all that follows is unwinding. -/
  later : ∀ t, State.Reaches i.config.maxCallDepth
      ((u.limited n refusal).step i.config.maxCallDepth) t →
    State.Unwound (u.stopped n refusal (out.take n) l) t

theorem exists_truncated (hi : i.start.Unlimited) (hs : i.start.world.written.length ≤ n)
    (h : i.execute fuel = some (r, j)) (hn : n < j.world.written.length)
    (refusal : Refusal) : ∃ l u, i.Truncated n refusal j.world.written l u := by
  obtain ⟨r₀, t, hrun, hflush, -⟩ := execute_eq_some h
  obtain ⟨hreach, -⟩ := State.reaches_of_run hrun
  rw [written_flush hflush] at hn ⊢
  obtain ⟨u, l, hu, hover, hafter⟩ := hreach.exists_overflows hs hn
  have hprefix := hafter.written
  obtain ⟨hfail, hunwound⟩ := hover.step (hu.unlimited hi) refusal
  have htake : (u.step i.config.maxCallDepth).world.written.take n = t.world.written.take n := by
    obtain ⟨rest, hrest⟩ := hprefix
    rw [← hrest, List.take_append_of_le_length (Nat.le_of_lt hover.after)]
  rw [htake] at hunwound
  exact ⟨l, u, hu, hover, hprefix, hu.limited hi hover.before,
    fun t' ht' => hunwound.trans (ht'.unwound hfail)⟩

theorem Truncated.execute {out : List UInt8} {l : α} {u : State α}
    (h : i.Truncated n refusal out l u) :
    ∃ fuel j, (i.limited n refusal).execute fuel =
      some (.error ⟨.output refusal.message, some l⟩, j) ∧ j.world.written = out.take n := by
  have hfail : ((u.limited n refusal).step i.config.maxCallDepth).control =
      .fail ⟨.output refusal.message, some l⟩ := (h.later _ .refl).control
  obtain ⟨t, ht⟩ := State.run_of_fail i.config.maxCallDepth hfail
  have hsink := (h.later t (State.reaches_of_run ht).1).sink
  have hflush : t.world.sink.flush = .ok () := by
    rw [hsink]
    rfl
  obtain ⟨fuel, hrun⟩ := h.same.step.run ht
  refine ⟨fuel, _, execute_of_run (i := i.limited n refusal) hrun (flush_of_ok hflush), ?_⟩
  rw [World.written, hsink]
  rfl

/-- A sink with room for `n` bytes truncates a run and changes nothing else. If the output fits, the
run is the same. If not, it is the same up to the call of `print` or `println` that writes byte
`n + 1`; it ends with the failure of that call, the first `n` bytes written. -/
theorem run_truncated (program : Program α) (config : Config) (input : Input) (n : Nat)
    (refusal : Refusal) {fuel : Nat} {r : Except (EvalError α) Value} {j : Interpreter α}
    (h : (new program config input .unlimited).run fuel = some (r, j)) :
    let i := new program config input .unlimited
    let i' := new program config input (.limited n refusal)
    let out := j.world.written
    (out.length ≤ n → i'.run fuel = some (r, j.limited n refusal)) ∧
    (n < out.length → ∃ l u, i.Truncated n refusal out l u ∧
      ∃ fuel' j', i'.run fuel' = some (.error ⟨.output refusal.message, some l⟩, j') ∧
        j'.world.written = out.take n) := by
  intro i i' out
  have hi : i.start.Unlimited := rfl
  have hsame : i' = i.limited n refusal := rfl
  rcases run_cases h with ⟨e, hobjection, rfl, rfl⟩ | ⟨hnone, hexecute⟩
  · refine ⟨fun _ => ?_, fun hn => absurd hn (Nat.not_lt_zero n)⟩
    unfold Interpreter.run
    rw [hsame, objection?_limited, hobjection]
  · have hrun : ∀ fuel, i'.run fuel = i'.execute fuel := by
      intro fuel
      unfold Interpreter.run
      rw [hsame, objection?_limited, hnone]
    refine ⟨fun hn => (hrun fuel).trans (execute_limited hi hexecute hn), fun hn => ?_⟩
    obtain ⟨l, u, htruncated⟩ := exists_truncated hi (Nat.zero_le n) hexecute hn refusal
    obtain ⟨fuel', j', hexecute', hwritten⟩ := htruncated.execute
    exact ⟨l, u, htruncated, fuel', j', (hrun fuel').trans hexecute', hwritten⟩

/-- Room for one byte is too little for counting down from two, and room for three is enough. -/
theorem descent_truncated :
    let refusal : Refusal := .fails "no space"
    let i (sink : Sink) := new descent .standard ⟨[], [], none⟩ sink
    ∃ r j, (i .unlimited).run 200 = some (r, j) ∧ j.world.written = [50, 49, 48] ∧
      (i (.limited 3 refusal)).run 200 = some (r, j.limited 3 refusal) ∧
      ∃ u, (i .unlimited).Truncated 1 refusal [50, 49, 48] () u ∧
        ∃ fuel j', (i (.limited 1 refusal)).run fuel =
          some (.error ⟨.output "no space", some ()⟩, j') ∧ j'.world.written = [50] := by
  intro refusal i
  have hcomputed : ((i .unlimited).run 200).map report = some (none, [50, 49, 48]) := by
    decide +kernel
  obtain ⟨⟨r, j⟩, hrun, hreport⟩ := Option.map_eq_some_iff.mp hcomputed
  have hwritten : j.world.written = [50, 49, 48] := congrArg Prod.snd hreport
  obtain ⟨hfits, -⟩ := run_truncated descent .standard ⟨[], [], none⟩ 3 refusal hrun
  obtain ⟨-, hover⟩ := run_truncated descent .standard ⟨[], [], none⟩ 1 refusal hrun
  rw [hwritten] at hfits hover
  obtain ⟨⟨⟩, u, htruncated, fuel, j', hrun', hwritten'⟩ := hover (by decide)
  exact ⟨r, j, hrun, hwritten, hfits (by decide), u, htruncated, fuel, j', hrun', hwritten'⟩

end Interpreter

end Scriptlet
