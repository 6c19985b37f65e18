import Scriptlet.Interpreter
import Scriptlet.Proofs.Machine.Balance

/-!
From single steps to whole executions. An interpreter is sound if its heap is balanced against its
scopes and what its user holds; an execution keeps it so, however it ends.
-/

namespace Scriptlet

variable {α : Type}

namespace State

variable {limit : Nat} {s t : State α} {ext : List Value}

/-- The states that a run from `s` comes to. -/
inductive Reaches (limit : Nat) (s : State α) : State α → Prop
  | refl : Reaches limit s s
  | step {t : State α} (h : Reaches limit s t) : Reaches limit s (t.step limit)

namespace Reaches

theorem head (h : Reaches limit (s.step limit) t) : Reaches limit s t := by
  induction h with
  | refl => exact .step .refl
  | step _ ih => exact ih.step

theorem orderly (h : Reaches limit s t) (hs : s.Orderly limit) : t.Orderly limit := by
  induction h with
  | refl => exact hs
  | step _ ih => exact ih.step

theorem balanced (h : Reaches limit s t) (hs : s.Orderly limit) (hb : s.Balanced ext) :
    t.Balanced ext := by
  induction h with
  | refl => exact hb
  | step ht ih => exact ih.step (ht.orderly hs)

end Reaches

theorem reaches_of_run {fuel : Nat} {r : Except (EvalError α) Value}
    (h : s.run limit fuel = some (r, t)) : Reaches limit s t ∧ t.outcome? = some r := by
  induction fuel generalizing s with
  | zero =>
    unfold run at h
    split at h
    · rename_i r' ho
      cases h
      exact ⟨.refl, ho⟩
    · cases h
  | succ fuel ih =>
    unfold run at h
    split at h
    · rename_i r' ho
      cases h
      exact ⟨.refl, ho⟩
    · obtain ⟨hreach, ho⟩ := ih h
      exact ⟨hreach.head, ho⟩

/-- If `f` commutes with the steps of a run, it takes the run to one with the same outcome. -/
theorem run_map {limit' fuel : Nat} {r : Except (EvalError α) Value} {f : State α → State α}
    (hout : ∀ s, (f s).outcome? = s.outcome?)
    (hstep : ∀ u, Reaches limit s u → Reaches limit (u.step limit) t →
      (f u).step limit' = f (u.step limit))
    (h : s.run limit fuel = some (r, t)) : (f s).run limit' fuel = some (r, f t) := by
  induction fuel generalizing s with
  | zero =>
    unfold run at h ⊢
    rw [hout]
    split at h
    · cases h
      rfl
    · cases h
  | succ fuel ih =>
    unfold run at h ⊢
    rw [hout]
    split at h
    · cases h
      rfl
    · obtain ⟨hrest, -⟩ := reaches_of_run h
      simp only [hstep s .refl hrest]
      exact ih (fun u hu => hstep u hu.head) h

/-- If `f` commutes with all steps, it takes runs that do not end to such runs as well. -/
theorem run_eq_map {β : Type} {limit' : Nat} {f : State α → State β}
    {k : Except (EvalError α) Value → Except (EvalError β) Value}
    (hout : ∀ u, (f u).outcome? = u.outcome?.map k)
    (hstep : ∀ u, Reaches limit s u → (f u).step limit' = f (u.step limit)) (fuel : Nat) :
    (f s).run limit' fuel = (s.run limit fuel).map fun (r, t) => (k r, f t) := by
  induction fuel generalizing s with
  | zero =>
    unfold run
    rw [hout]
    cases s.outcome? <;> rfl
  | succ fuel ih =>
    unfold run
    rw [hout]
    cases s.outcome? with
    | some r => rfl
    | none =>
      simp only [Option.map_none, hstep s .refl]
      exact ih fun u hu => hstep u hu.head

theorem outcome?_eq_some {r : Except (EvalError α) Value} (h : s.outcome? = some r) :
    s.stack = [] ∧
      ((∃ v, s.control = .give v ∧ r = .ok v) ∨ ∃ e, s.control = .fail e ∧ r = .error e) := by
  unfold outcome? at h
  split at h
  · rename_i v hk hc
    cases h
    exact ⟨hk, .inl ⟨v, hc, rfl⟩⟩
  · rename_i e hk hc
    cases h
    exact ⟨hk, .inr ⟨e, hc, rfl⟩⟩
  · cases h

theorem step_of_outcome? {r : Except (EvalError α) Value} (h : s.outcome? = some r) :
    s.step limit = s := by
  obtain ⟨control, stack, scopes, depth, world⟩ := s
  obtain ⟨rfl, ⟨v, rfl, -⟩ | ⟨e, rfl, -⟩⟩ := outcome?_eq_some h
  · rfl
  · rfl

namespace Reaches

variable {u : State α} {r : Except (EvalError α) Value}

theorem cases_head (h : Reaches limit s t) : t = s ∨ Reaches limit (s.step limit) t := by
  induction h with
  | refl => exact .inl rfl
  | step _ ih =>
    rcases ih with rfl | hstep
    · exact .inr .refl
    · exact .inr hstep.step

/-- There is one way to go on, so of two states of a run one leads to the other. -/
theorem comparable (h : Reaches limit s t) (h' : Reaches limit s u) :
    Reaches limit t u ∨ Reaches limit u t := by
  induction h with
  | refl => exact .inl h'
  | step _ ih =>
    rcases ih with hahead | hbehind
    · rcases hahead.cases_head with rfl | hstep
      · exact .inr (.step .refl)
      · exact .inl hstep
    · exact .inr hbehind.step

theorem eq_of_outcome? (h : Reaches limit s t) (hs : s.outcome? = some r) : t = s := by
  induction h with
  | refl => rfl
  | step _ ih =>
    rw [ih]
    exact step_of_outcome? hs

/-- The end of a run comes after every other state of it. -/
theorem to_end (h : Reaches limit s u) (ht : Reaches limit s t) (hout : t.outcome? = some r) :
    Reaches limit u t := by
  rcases h.comparable ht with hahead | hbehind
  · exact hahead
  · rw [hbehind.eq_of_outcome? hout]
    exact .refl

/-- A run that goes on from a state it comes to ends as it does from there. -/
theorem run {fuel : Nat} {x : Except (EvalError α) Value × State α}
    (h : Reaches limit s t) (hrun : t.run limit fuel = some x) :
    ∃ fuel', s.run limit fuel' = some x := by
  induction h generalizing fuel with
  | refl => exact ⟨fuel, hrun⟩
  | @step t _ ih =>
    cases hout : t.outcome? with
    | some r =>
      rw [step_of_outcome? hout] at hrun
      exact ih hrun
    | none =>
      have hone : t.run limit (fuel + 1) = some x := by
        unfold State.run
        rw [hout]
        exact hrun
      exact ih hone

theorem run_of_outcome? (h : Reaches limit s t) (hout : t.outcome? = some r) :
    ∃ fuel, s.run limit fuel = some (r, t) := by
  have hrun : t.run limit 0 = some (r, t) := by
    unfold State.run
    rw [hout]
  exact h.run hrun

theorem next (h : Reaches limit s t) (hstep : t.step limit = u) : Reaches limit s u :=
  hstep ▸ h.step

end Reaches

/-- At the end of a run only the result is on its way. -/
theorem held_of_outcome? {r : Except (EvalError α) Value} (h : s.outcome? = some r) :
    s.control.held = r.toOption.toList := by
  obtain ⟨-, ⟨v, hc, rfl⟩ | ⟨e, hc, rfl⟩⟩ := outcome?_eq_some h
  · rw [hc]
    rfl
  · rw [hc]
    rfl

/-- At the end of a run the heap is balanced against the result, the scopes and what is held
outside. -/
theorem Balanced.of_outcome? {r : Except (EvalError α) Value} (hb : s.Balanced ext)
    (h : s.outcome? = some r) :
    s.world.heap.Balanced (r.toOption.toList ++ (s.scopes.values ++ ext)) := by
  obtain ⟨hstack, -⟩ := outcome?_eq_some h
  unfold Balanced Owes waiting at hb
  rw [held_of_outcome? h, hstack] at hb
  exact hb

end State

namespace Scopes

theorem values_withBuiltins : withBuiltins.values = Builtin.all.map .builtin := by decide +kernel

theorem parents_withBuiltins : withBuiltins.parents = [none] := by decide +kernel

theorem depth_withBuiltins : withBuiltins.depth = 1 := by
  rw [← length_parents, parents_withBuiltins]
  rfl

theorem ordered_withBuiltins : withBuiltins.Ordered := by
  have hdepth := depth_withBuiltins
  refine ⟨by rw [parents_withBuiltins]; rfl, fun i hi hlt => ?_⟩
  omega

end Scopes

namespace Interpreter

/-- Every count is the number of holders, with `ext` held by the user of the interpreter, and all
functions were defined in the global scope. -/
structure Sound (ext : List Value) (i : Interpreter α) : Prop where
  balanced : i.world.heap.Balanced (i.scopes.values ++ ext)
  closed : i.world.heap.Closed

theorem sound_new (program : Program α) (config : Config) (input : Input) (sink : Sink) :
    (new program config input sink).Sound [] := by
  refine ⟨Heap.Balanced.empty, fun r d closure ho => ?_⟩
  simp [new] at ho

theorem close_new (program : Program α) (config : Config) (input : Input) (sink : Sink) :
    (new program config input sink).close = ⟨.empty, input, sink⟩ := by
  simp [new, close, Scopes.values, Scopes.initial, Bindings.values, Heap.releaseAll]

variable {i j : Interpreter α} {ext : List Value}

theorem Sound.orderly_start (h : i.Sound ext) (limit : Nat) : i.start.Orderly limit where
  scopes := Scopes.ordered_withBuiltins
  fits := by
    change Fits [] Scopes.withBuiltins.depth 0
    rw [Scopes.depth_withBuiltins]
    exact .base
  closed := h.closed.inherit (.releaseAll _ _)
  calls := Nat.zero_le _
  control := trivial

theorem Sound.balanced_start (h : i.Sound ext) : i.start.Balanced ext := by
  have hclosed : i.close.heap.Balanced ext := h.balanced.releaseAll
  have hnone : ∀ w ∈ i.start.control.held ++ i.start.waiting, w.ref? = none := by
    have hvalues : i.start.waiting = Builtin.all.map .builtin := Scopes.values_withBuiltins
    rw [hvalues]
    intro w hw
    rcases List.mem_append.mp hw with hw | hw
    · rw [List.mem_singleton.mp hw]
      rfl
    · obtain ⟨b, -, rfl⟩ := List.mem_map.mp hw
      rfl
  refine hclosed.congr fun v hv => ?_
  have hmem : v ∉ i.start.control.held ++ i.start.waiting := by
    intro hmem
    rw [hnone v hmem] at hv
    cases hv
  rw [← List.append_assoc, List.count_append, List.count_eq_zero_of_not_mem hmem, Nat.zero_add]

theorem flush_cases {w w' : World α} {r r' : Except (EvalError α) Value}
    (h : flush r w = (r', w')) : (r' = r ∧ w' = w) ∨
      ∃ v message, r = .ok v ∧ w.sink.flush = .error message ∧
        r' = .error ⟨.output message, none⟩ ∧ w' = ⟨w.heap.release v, w.input, w.sink⟩ := by
  unfold flush at h
  split at h
  · rename_i v message hflush
    cases h
    exact .inr ⟨v, message, rfl, hflush, rfl, rfl⟩
  · cases h
    exact .inl ⟨rfl, rfl⟩

theorem flush_of_ok {w : World α} {r : Except (EvalError α) Value} (h : w.sink.flush = .ok ()) :
    flush r w = (r, w) := by
  unfold flush
  rw [h]
  cases r <;> rfl

/-- An execution is a run from the start, and a flush. -/
theorem execute_eq_map (i : Interpreter α) (fuel : Nat) :
    i.execute fuel = (i.start.run i.config.maxCallDepth fuel).map fun (r, t) =>
      ((flush r t.world).1, ⟨i.program, i.config, t.scopes, (flush r t.world).2⟩) := by
  unfold execute
  cases i.start.run i.config.maxCallDepth fuel <;> rfl

theorem execute_eq_some {fuel : Nat} {r : Except (EvalError α) Value}
    (h : i.execute fuel = some (r, j)) :
    ∃ r₀ t, i.start.run i.config.maxCallDepth fuel = some (r₀, t) ∧
      flush r₀ t.world = (r, j.world) ∧ j = ⟨i.program, i.config, t.scopes, j.world⟩ := by
  unfold execute at h
  split at h
  · cases h
  · rename_i r₀ control stack scopes depth world hrun
    cases hflush : flush r₀ world with
    | mk r₁ world₁ =>
      rw [hflush] at h
      cases h
      exact ⟨r₀, _, hrun, hflush, rfl⟩

theorem execute_of_run {fuel : Nat} {r₀ r : Except (EvalError α) Value} {t : State α} {w : World α}
    (hrun : i.start.run i.config.maxCallDepth fuel = some (r₀, t))
    (hflush : flush r₀ t.world = (r, w)) :
    i.execute fuel = some (r, ⟨i.program, i.config, t.scopes, w⟩) := by
  unfold execute
  rw [hrun]
  simp only [hflush]

theorem analyze_of_objection? {e : EvalError α} (h : i.objection? = some e) :
    i.analyze = .error e := by
  unfold objection? at h
  split at h
  · split at h
    · rename_i e' hanalyze
      cases h
      exact hanalyze
    · cases h
  · cases h

theorem run_cases {fuel : Nat} {r : Except (EvalError α) Value} (h : i.run fuel = some (r, j)) :
    (∃ e, i.objection? = some e ∧ r = .error e ∧ j = i) ∨
      (i.objection? = none ∧ i.execute fuel = some (r, j)) := by
  unfold Interpreter.run at h
  split at h
  · rename_i e hobjection
    cases h
    exact .inl ⟨e, hobjection, rfl, rfl⟩
  · rename_i hobjection
    exact .inr ⟨hobjection, h⟩

theorem flush_heap {r r' : Except (EvalError α) Value} {w w' : World α}
    (hflush : flush r w = (r', w')) (hb : w.heap.Balanced (r.toOption.toList ++ ext)) :
    w'.heap.Balanced (r'.toOption.toList ++ ext) ∧ w.heap.Inherits w'.heap := by
  unfold flush at hflush
  split at hflush
  · cases hflush
    exact ⟨hb.releaseAll, .releaseAll _ _⟩
  · cases hflush
    exact ⟨hb, .refl _⟩

/-- However an execution ends, only the global scope is left and no call is being run. -/
theorem Sound.finished {limit fuel : Nat} (h : i.Sound ext) {r : Except (EvalError α) Value}
    {t : State α} (hrun : i.start.run limit fuel = some (r, t)) :
    t.scopes.depth = 1 ∧ t.depth = 0 := by
  obtain ⟨hreach, hout⟩ := State.reaches_of_run hrun
  obtain ⟨hstack, -⟩ := State.outcome?_eq_some hout
  have hfits := (hreach.orderly (h.orderly_start _)).fits
  rw [hstack] at hfits
  exact hfits.unique .base

theorem Sound.depth_execute (h : i.Sound ext) {fuel : Nat} {r : Except (EvalError α) Value}
    (hrun : i.execute fuel = some (r, j)) : j.scopes.depth = 1 := by
  unfold Interpreter.execute at hrun
  split at hrun
  · cases hrun
  · rename_i r' control stack scopes depth world hstate
    obtain ⟨hdepth, -⟩ := h.finished hstate
    cases hrun
    exact hdepth

theorem Sound.execute (h : i.Sound ext) {fuel : Nat} {r : Except (EvalError α) Value}
    (hrun : i.execute fuel = some (r, j)) : j.Sound (r.toOption.toList ++ ext) := by
  unfold Interpreter.execute at hrun
  split at hrun
  · cases hrun
  · rename_i r' control stack scopes depth world hstate
    obtain ⟨hreach, hout⟩ := State.reaches_of_run hstate
    have horderly := hreach.orderly (h.orderly_start _)
    have hbalanced := hreach.balanced (h.orderly_start _) h.balanced_start
    have hheap : world.heap.Balanced (r'.toOption.toList ++ (scopes.values ++ ext)) :=
      hbalanced.of_outcome? hout
    cases hflush : flush r' world with
    | mk r'' world' =>
      rw [hflush] at hrun
      cases hrun
      obtain ⟨hb, hinherits⟩ := flush_heap hflush hheap
      refine ⟨hb.perm ?_, horderly.closed.inherit hinherits⟩
      rw [← List.append_assoc, ← List.append_assoc]
      exact List.perm_append_comm.append_right ext

theorem Sound.run (h : i.Sound ext) {fuel : Nat} {r : Except (EvalError α) Value}
    (hrun : i.run fuel = some (r, j)) : j.Sound (r.toOption.toList ++ ext) := by
  unfold Interpreter.run at hrun
  split at hrun
  · cases hrun
    exact h
  · exact h.execute hrun

theorem Sound.discard {v : Value} {rest : List Value} (h : i.Sound ext)
    (hext : ext.Perm (v :: rest)) : (i.discard v).Sound rest := by
  have hmiddle : (i.scopes.values ++ ext).Perm (v :: (i.scopes.values ++ rest)) :=
    (hext.append_left _).trans List.perm_middle
  exact ⟨(h.balanced.perm hmiddle).release, h.closed.inherit (.releaseAll _ _)⟩

end Interpreter

end Scriptlet
