import Scriptlet.Proofs.Interpreter.Scoping
import Scriptlet.Proofs.Machine.Failures
import Scriptlet.Proofs.Machine.Output

/-!
The limit on nested calls. It is read in one place only, where a user function is about to be called
with all its arguments at hand. So a run under a higher limit does the same, step by step, until a
run under the lower one fails there.
-/

namespace Scriptlet

variable {α : Type}

namespace State

variable {limit d d' : Nat} {s t u : State α}

/-! ### One step under two limits -/

/-- A user function is about to be called at `l`: all its arguments are there, and as many bodies of
user functions are being run as the limit allows. -/
def CallsAtLimit (limit : Nat) (l : α) (s : State α) : Prop :=
  ∃ ref f closure args, s.control = .apply (.function ref f closure) args l ∧
    args.length = f.params.length ∧ s.stack.countP Frame.isCall = limit

theorem Raises.apply_of_callDepth {e : EvalError α} {n : Nat} (h : s.Raises limit e)
    (he : e.cause = .callDepthExceeded n) :
    n = limit ∧ ∃ ref f closure args l, s.control = .apply (.function ref f closure) args l ∧
      e.location = some l ∧ limit ≤ s.depth := by
  cases h with
  | depth hc hd =>
    cases he
    exact ⟨rfl, _, _, _, _, _, hc, rfl, hd⟩
  | builtin hc hb =>
    have hnative := Builtin.isNative_invoke hb
    cases he
    exact hnative.elim
  | _ => cases he

theorem Orderly.callsAtLimit {e : EvalError α} {n : Nat} (h : s.Orderly limit)
    (hraises : s.Raises limit e) (he : e.cause = .callDepthExceeded n) :
    n = limit ∧ ∃ l, e.location = some l ∧ s.CallsAtLimit limit l := by
  obtain ⟨hn, ref, f, closure, args, l, hc, hl, hd⟩ := hraises.apply_of_callDepth he
  have hcontrol := h.control
  rw [hc] at hcontrol
  have hcalls : s.stack.countP Frame.isCall = limit := by
    rw [← h.fits.calls_eq]
    exact Nat.le_antisymm h.calls hd
  exact ⟨hn, l, hl, ref, f, closure, args, hc, hcontrol.2, hcalls⟩

/-- A step under a higher limit is the same, unless the lower one makes it fail. -/
theorem step_deeper (hd : d ≤ d') (s : State α) :
    s.step d' = s.step d ∨
      ∃ l, (s.step d).control = .fail ⟨.callDepthExceeded d, some l⟩ := by
  obtain ⟨control, stack, scopes, depth, world⟩ := s
  cases control with
  | apply callee args l =>
    cases callee with
    | builtin b => exact .inl rfl
    | function ref f closure =>
      by_cases hreached : d ≤ depth
      · refine .inr ⟨l, ?_⟩
        simp only [step, applyCallee, if_pos hreached]
        rfl
      · have hroom : ¬ d' ≤ depth := by omega
        left
        simp only [step, applyCallee, if_neg hreached, if_neg hroom]
  | block scope rest last => left; cases rest <;> rfl
  | items rest last =>
    left
    cases rest with
    | nil => rfl
    | cons item rest => cases item <;> rfl
  | arguments scope callee done rest l => left; cases rest <;> rfl
  | _ => exact .inl rfl

/-- Up to the failure a run under the lower limit is a run under the higher one. -/
theorem Reaches.deeper (hd : d ≤ d') (h : Reaches d s t) (ht : ∀ e, t.control ≠ .fail e) :
    Reaches d' s t := by
  induction h with
  | refl => exact .refl
  | @step t _ ih =>
    -- A failure stays one, so there was none before.
    have hbefore : ∀ e, t.control ≠ .fail e := fun e he =>
      ht e ((unwound_step d he).control.trans he)
    rcases step_deeper hd t with heq | ⟨l, hfail⟩
    · rw [← heq]
      exact (ih hbefore).step
    · exact absurd hfail (ht _)

end State

def EvalError.IsCallDepth (e : EvalError α) : Prop := ∃ n, e.cause = .callDepthExceeded n

namespace State

variable {limit d d' : Nat} {s t u : State α}

theorem run_deeper (hd : d ≤ d') {fuel : Nat} {r : Except (EvalError α) Value}
    (h : s.run d fuel = some (r, t)) (hr : ∀ e, r = .error e → ¬ e.IsCallDepth) :
    s.run d' fuel = some (r, t) := by
  obtain ⟨-, hout⟩ := reaches_of_run h
  refine run_map (f := id) (fun _ => rfl) (fun u _ hafter => ?_) h
  rcases step_deeper hd u with heq | ⟨l, hfail⟩
  · exact heq
  · -- The failure would be the outcome.
    have hcontrol := (hafter.unwound hfail).control.trans hfail
    obtain ⟨-, ⟨v, hgive, -⟩ | ⟨e, hc, rfl⟩⟩ := outcome?_eq_some hout
    · cases hcontrol.symm.trans hgive
    · cases hcontrol.symm.trans hc
      exact absurd ⟨d, rfl⟩ (hr _ rfl)

/-- From the call that goes too deep on, nothing is written. -/
theorem Reaches.exists_callDepth {e : EvalError α} (h : Reaches d s t)
    (hs : s.control ≠ .fail e) (ht : t.control = .fail e) (he : e.IsCallDepth) :
    ∃ u, Reaches d s u ∧ u.Raises d e ∧ t.world.written = u.world.written := by
  obtain ⟨u, hu, hraises, hfail, hafter⟩ := h.exists_raises ht hs
  obtain ⟨n, hn⟩ := he
  obtain ⟨-, ref, f, closure, args, l, hc, -, -⟩ := hraises.apply_of_callDepth hn
  have hquiet : u.output? = none := by simp [output?, hc]
  refine ⟨u, hu, hraises, ?_⟩
  rw [World.written, (hafter.unwound hfail).sink, sink_step hquiet]
  rfl

end State

namespace Interpreter

variable {i j : Interpreter α} {d d' fuel : Nat} {r : Except (EvalError α) Value}

def withLimit (i : Interpreter α) (limit : Nat) : Interpreter α :=
  ⟨i.program, ⟨i.config.analyze, limit⟩, i.scopes, i.world⟩

theorem objection?_withLimit (i : Interpreter α) (limit : Nat) :
    (i.withLimit limit).objection? = i.objection? := rfl

theorem cause_of_objection? {e : EvalError α} (h : i.objection? = some e) : ¬ e.IsCallDepth := by
  have hanalyze := analyze_of_objection? h
  unfold Interpreter.analyze Program.analyze at hanalyze
  split at hanalyze
  · cases hanalyze
  · cases hanalyze
    rintro ⟨n, hn⟩
    cases hn

theorem execute_withLimit (hd : i.config.maxCallDepth ≤ d') (h : i.execute fuel = some (r, j))
    (hr : ∀ e, r = .error e → ¬ e.IsCallDepth) :
    (i.withLimit d').execute fuel = some (r, j.withLimit d') := by
  obtain ⟨r₀, t, hrun, hflush, hj⟩ := execute_eq_some h
  have hr₀ : ∀ e, r₀ = .error e → ¬ e.IsCallDepth := by
    rintro e rfl
    have hsame : r = .error e := (congrArg Prod.fst hflush).symm
    exact hr e hsame
  have hrun' := State.run_deeper hd hrun hr₀
  have hexecute := execute_of_run (i := i.withLimit d') hrun' hflush
  rw [hexecute, hj]
  rfl

theorem run_withLimit (hd : i.config.maxCallDepth ≤ d') (h : i.run fuel = some (r, j))
    (hr : ∀ e, r = .error e → ¬ e.IsCallDepth) :
    (i.withLimit d').run fuel = some (r, j.withLimit d') := by
  unfold Interpreter.run
  rw [objection?_withLimit]
  rcases run_cases h with ⟨e, hobjection, rfl, rfl⟩ | ⟨hnone, hexecute⟩
  · rw [hobjection]
  · rw [hnone]
    exact execute_withLimit hd hexecute hr

/-- An execution that goes too deep has come to a call at the limit, and has written no more than it
had by then. -/
theorem Sound.exists_callsAtLimit {ext : List Value} (hi : i.Sound ext) {e : EvalError α}
    (h : i.execute fuel = some (.error e, j)) (he : e.IsCallDepth) :
    ∃ u l, State.Reaches i.config.maxCallDepth i.start u ∧
      u.CallsAtLimit i.config.maxCallDepth l ∧
      e = ⟨.callDepthExceeded i.config.maxCallDepth, some l⟩ ∧
      j.world.written = u.world.written := by
  obtain ⟨n, hn⟩ := he
  have hcause : ∀ message, e.cause ≠ .output message := by
    rw [hn]
    exact nofun
  obtain ⟨t, hreach, hfail, hworld⟩ := exists_fail h hcause
  obtain ⟨u, hu, hraises, hquiet⟩ := hreach.exists_callDepth nofun hfail ⟨n, hn⟩
  have horderly := hu.orderly (hi.orderly_start _)
  obtain ⟨rfl, l, hl, hcall⟩ := horderly.callsAtLimit hraises hn
  refine ⟨u, l, hu, hcall, ?_, by rw [hworld, hquiet]⟩
  rw [← hn, ← hl]

theorem written_deeper {u : State α} {l : α} {r' : Except (EvalError α) Value}
    {j' : Interpreter α} (hd : i.config.maxCallDepth ≤ d')
    (hu : State.Reaches i.config.maxCallDepth i.start u)
    (hcall : u.CallsAtLimit i.config.maxCallDepth l)
    (h : (i.withLimit d').execute fuel = some (r', j')) : u.world.written <+: j'.world.written := by
  obtain ⟨r₀, t, hrun, hflush, -⟩ := execute_eq_some h
  obtain ⟨hreach, hout⟩ := State.reaches_of_run hrun
  obtain ⟨ref, f, closure, args, hc, -, -⟩ := hcall
  have hnot : ∀ e, u.control ≠ .fail e := by
    intro e he
    cases hc.symm.trans he
  have hsame : State.Reaches d' i.start u := hu.deeper hd hnot
  rw [written_flush hflush]
  exact (hsame.to_end hreach hout).written

/-- Raising the limit on nested calls only extends runs. What does not fail at the lower limit ends
under the higher one in the same way, with the same value or error and the same world; what does
fail there has written the beginning of what is written under the higher limit. The failure comes
from a call of a user function that has all its arguments, with as many calls open as the limit
says. -/
theorem run_deeper_extends (program : Program α) (analyze : Bool) (input : Input) (sink : Sink)
    {d d' : Nat} (hd : d ≤ d') :
    let i := new program ⟨analyze, d⟩ input sink
    let i' := new program ⟨analyze, d'⟩ input sink
    (∀ fuel r j, i.run fuel = some (r, j) → (∀ e, r = .error e → ¬ e.IsCallDepth) →
      i'.run fuel = some (r, j.withLimit d')) ∧
    (∀ fuel e j, i.run fuel = some (.error e, j) → e.IsCallDepth →
      (∃ s l, State.Reaches d i.start s ∧ s.CallsAtLimit d l ∧
        e = ⟨.callDepthExceeded d, some l⟩) ∧
      ∀ fuel' r' j', i'.run fuel' = some (r', j') → j.world.written <+: j'.world.written) ∧
    ∀ s e, State.Reaches d i.start s → (∀ e', s.control ≠ .fail e') →
      (s.step d).control = .fail e → e.IsCallDepth →
      ∃ l, e = ⟨.callDepthExceeded d, some l⟩ ∧ s.CallsAtLimit d l := by
  intro i i'
  have hsound : i.Sound [] := sound_new program _ input sink
  refine ⟨fun fuel r j hrun hr => run_withLimit hd hrun hr, fun fuel e j hrun he => ?_,
    fun s e hs hnot hfail he => ?_⟩
  · rcases run_cases hrun with ⟨e', hobjection, heq, -⟩ | ⟨hnone, hexecute⟩
    · cases heq
      exact absurd he (cause_of_objection? hobjection)
    · obtain ⟨u, l, hu, hcall, heq, hwritten⟩ := hsound.exists_callsAtLimit hexecute he
      refine ⟨⟨u, l, hu, hcall, heq⟩, fun fuel' r' j' hrun' => ?_⟩
      rcases run_cases hrun' with ⟨e', hobjection, -, -⟩ | ⟨-, hexecute'⟩
      · cases hnone.symm.trans hobjection
      · rw [hwritten]
        exact written_deeper hd hu hcall hexecute'
  · rcases State.raises_of_step hfail with hbefore | hraises
    · exact absurd hbefore (hnot e)
    · obtain ⟨n, hn⟩ := he
      have horderly := hs.orderly (hsound.orderly_start d)
      obtain ⟨rfl, l, hl, hcall⟩ := horderly.callsAtLimit hraises hn
      refine ⟨l, ?_, hcall⟩
      rw [← hn, ← hl]

/-- Prints its argument and all numbers below it, in calls nested in each other. -/
def descent : Program Unit :=
  let x : Expr Unit := .reference ⟨"x", ()⟩
  let below : Expr Unit := .callAt ⟨"f", ()⟩ [.binary .sub x (.integer "1" ()) ()] ()
  ⟨[.function ⟨⟨"f", ()⟩, [⟨"x", ()⟩],
      [.expr (.callAt ⟨"print", ()⟩ [x] ()), .branch x [.expr below] none ()], ()⟩,
    .stmt (.expr (.callAt ⟨"f", ()⟩ [.integer "2" ()] ()))]⟩

def report (x : Except (EvalError α) Value × Interpreter α) : Option Cause × List UInt8 :=
  (match x.1 with
    | .error e => some e.cause
    | .ok _ => none, x.2.world.written)

/-- Two calls are one too few for counting down from two; a higher limit than three adds nothing. -/
theorem descent_deeper_extends :
    let i (limit : Nat) := new descent ⟨true, limit⟩ ⟨[], [], none⟩ .unlimited
    (∃ e j, (i 2).run 200 = some (.error e, j) ∧ e = ⟨.callDepthExceeded 2, some ()⟩ ∧
      ∃ r j', (i 3).run 200 = some (r, j') ∧ j.world.written = [50, 49] ∧
        j.world.written <+: j'.world.written) ∧
    ∃ v j, (i 3).run 200 = some (.ok v, j) ∧ (i 7).run 200 = some (.ok v, j.withLimit 7) := by
  intro i
  have hlow : ((i 2).run 200).map report = some (some (.callDepthExceeded 2), [50, 49]) := by
    decide +kernel
  have hhigh : ((i 3).run 200).map report = some (none, [50, 49, 48]) := by decide +kernel
  obtain ⟨⟨r, j⟩, hrun, hreport⟩ := Option.map_eq_some_iff.mp hlow
  obtain ⟨⟨r', j'⟩, hrun', hreport'⟩ := Option.map_eq_some_iff.mp hhigh
  obtain ⟨-, hprefix, -⟩ :=
    run_deeper_extends descent true ⟨[], [], none⟩ .unlimited (by decide : 2 ≤ 3)
  obtain ⟨hsame, -, -⟩ :=
    run_deeper_extends descent true ⟨[], [], none⟩ .unlimited (by decide : 3 ≤ 7)
  obtain ⟨hcause, hwritten⟩ := Prod.mk.inj hreport
  obtain ⟨hcause', -⟩ := Prod.mk.inj hreport'
  refine ⟨?_, ?_⟩
  · cases r with
    | ok v => cases hcause
    | error e =>
      have he : e.IsCallDepth := ⟨2, Option.some.inj hcause⟩
      obtain ⟨⟨s, l, -, -, heq⟩, hextends⟩ := hprefix 200 e j hrun he
      exact ⟨e, j, hrun, heq, r', j', hrun', hwritten, hextends 200 r' j' hrun'⟩
  · cases r' with
    | error e => cases hcause'
    | ok v => exact ⟨v, j', hrun', hsame 200 _ j' hrun' nofun⟩

end Interpreter

end Scriptlet
