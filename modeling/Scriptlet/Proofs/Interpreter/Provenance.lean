import Scriptlet.Proofs.Machine.Lockstep
import Scriptlet.Proofs.Program.Names

/-!
Where errors come from. A run compared with itself shows that no location is made up on the way:
every error stands at a location of the program, unless flushing the output failed after all went
well. This holds for an interpreter that is used any number of times, as the functions that earlier
executions have left behind are parts of the program too.
-/

namespace Scriptlet

variable {α : Type} {P : α → Prop}

/-- Compares a run with itself: every location is one of the given ones, and objects and scopes are
matched with themselves. -/
@[reducible] def Coupling.among (P : α → Prop) : Coupling α α where
  Place := Subtype P
  left := Subtype.val
  right := Subtype.val
  objects := ⟨0, 0, 0, Nat.le_refl 0, Nat.le_refl 0⟩
  scopes := ⟨1, 1, 1, Nat.le_refl 1, Nat.le_refl 1⟩
  global := Nat.one_pos

/-- Runs that share no more than the global scope begin with like scopes. -/
theorem Scopes.withBuiltins_alike {β : Type} {c : Coupling α β} (hleft : c.scopes.left = 1)
    (hright : c.scopes.right = 1) :
    Alike c withBuiltins withBuiltins 0 withBuiltins withBuiltins := by
  obtain ⟨globals, harena⟩ := Array.size_eq_one_iff.mp depth_withBuiltins
  have hglobals : withBuiltins.arena[globalScope]? = some globals := by
    rw [harena]
    rfl
  have hparent : globals.parent = none := by
    have hparents := parents_withBuiltins
    rw [parents, harena] at hparents
    exact (List.cons.inj hparents).1
  refine ⟨?_, ?_, fun i j hij => ?_, fun _ _ _ => rfl, fun _ _ _ => rfl⟩
  · rw [depth_withBuiltins, hleft]
  · rw [depth_withBuiltins, hright]
  · obtain ⟨rfl, hi⟩ := hij.of_zero
    have hcommon := c.scopes.common_le_left
    obtain rfl : i = globalScope := by
      rw [globalScope]
      omega
    refine ⟨globals, globals, hglobals, hglobals, fun name => ?_, by rw [hparent]; exact .none⟩
    cases hv : globals.bindings.find? name with
    | none => exact .none
    | some v =>
      have hmem := withBuiltins.mem_values hglobals (Bindings.mem_values_of_find? hv)
      rw [values_withBuiltins] at hmem
      obtain ⟨b, -, rfl⟩ := List.mem_map.mp hmem
      exact .some (.builtin b)

namespace State

variable {limit fuel : Nat} {s t : State α} {r : Except (EvalError α) Value}

theorem iterate_of_run (h : s.run limit fuel = some (r, t)) :
    ∃ n, (step limit)^[n] s = t ∧ ∀ m < n, ((step limit)^[m] s).outcome? = none := by
  induction fuel generalizing s with
  | zero =>
    unfold run at h
    split at h
    · cases h
      exact ⟨0, rfl, by omega⟩
    · cases h
  | succ fuel ih =>
    unfold run at h
    split at h
    · cases h
      exact ⟨0, rfl, by omega⟩
    · rename_i hnone
      obtain ⟨n, hn, hbefore⟩ := ih h
      refine ⟨n + 1, hn, fun m hm => ?_⟩
      cases m with
      | zero => exact hnone
      | succ m => exact hbefore m (by omega)

theorem not_done_of_outcome? (hs : s.stack = []) (h : t.outcome? = none) : ¬ Done s t := by
  rintro ⟨hstack, hanswers⟩
  rw [hs] at hstack
  unfold outcome? at h
  rw [hstack] at h
  cases hc : t.control with
  | give v => simp [hc] at h
  | fail e => simp [hc] at h
  | _ =>
    rw [hc] at hanswers
    exact hanswers

end State

namespace Interpreter

variable {i j : Interpreter α} {held : List Value} {fuel : Nat} {r : Except (EvalError α) Value}

/-- All locations of the interpreter are among the given ones. -/
structure Placed (P : α → Prop) (held : List Value) (i : Interpreter α) : Prop where
  program : ∃ p : Program (Subtype P), i.program = p.map Subtype.val
  sound : i.Sound held
  world : i.world.Alike (.among P) i.world

theorem placed_new (p : Program (Subtype P)) (config : Config) (input : Input) (sink : Sink) :
    (new (p.map Subtype.val) config input sink).Placed P [] := by
  refine ⟨⟨p, rfl⟩, sound_new .., ⟨⟨0, rfl, rfl⟩, fun x x' o o' _ ho => ?_⟩, rfl, rfl⟩
  simp [new] at ho

theorem Placed.twins_start (h : i.Placed P held) :
    State.Twins (.among P) i.start i.start i.start i.start := by
  obtain ⟨p, hp⟩ := h.program
  have hworld : i.close.Alike (.among P) i.close :=
    ⟨h.world.heap.releaseAll _ _, h.world.input, h.world.sink⟩
  refine ⟨0, ⟨Scopes.withBuiltins_alike rfl rfl, .base, rfl, hworld⟩, ?_⟩
  have hitems : i.program.items = p.items.map (Item.map Subtype.val) := by rw [hp]; rfl
  rw [start, hitems]
  exact Control.Alike.items (c := .among P) p.items (.int 0)

theorem Placed.finished (h : i.Placed P held) {limit : Nat} {t : State α}
    (hrun : i.start.run limit fuel = some (r, t)) :
    t.world.Alike (.among P) t.world ∧ ∀ e, r = .error e → ∃ l, e.location = some l ∧ P l := by
  -- The run is beside itself up to its end, and there the control shows where the error stands.
  obtain ⟨n, rfl, hn⟩ := State.iterate_of_run hrun
  obtain ⟨-, hout⟩ := State.reaches_of_run hrun
  obtain ⟨⟨k, halike, hc⟩, -⟩ := State.twins_iterate h.twins_start h.sound.balanced_start
    h.sound.balanced_start n fun m hm => State.not_done_of_outcome? rfl (hn m hm)
  refine ⟨halike.world, fun e he => ?_⟩
  obtain ⟨-, ⟨v, -, hr⟩ | ⟨e', hcontrol, hr⟩⟩ := State.outcome?_eq_some hout
  · rw [hr] at he
    cases he
  · rw [hr] at he
    cases he
    rw [hcontrol] at hc
    cases hc with
    | fail cause l => exact ⟨_, rfl, l.2⟩

/-- The program ran to its end and gave a value, but its output could not be flushed. -/
def FlushFails (fuel : Nat) (i : Interpreter α) (e : EvalError α) : Prop :=
  ∃ v t message, i.start.run i.config.maxCallDepth fuel = some (.ok v, t) ∧
    t.world.sink.flush = .error message ∧ e = ⟨.output message, none⟩

theorem Placed.execute (h : i.Placed P held) (hrun : i.execute fuel = some (r, j)) :
    j.Placed P (r.toOption.toList ++ held) ∧
      ∀ e, r = .error e → (∃ l, e.location = some l ∧ P l) ∨ i.FlushFails fuel e := by
  have hsound := h.sound.execute hrun
  unfold Interpreter.execute at hrun
  split at hrun
  · cases hrun
  · rename_i r₀ control stack scopes depth world hstate
    obtain ⟨hworld, hplaced⟩ := h.finished hstate
    cases hflush : flush r₀ world with
    | mk r₁ world₁ =>
      rw [hflush] at hrun
      cases hrun
      rcases flush_cases hflush with ⟨rfl, rfl⟩ | ⟨v, message, rfl, hfailed, rfl, rfl⟩
      · exact ⟨⟨h.program, hsound, hworld⟩, fun e he => .inl (hplaced e he)⟩
      · refine ⟨⟨h.program, hsound, hworld.heap.releaseAll _ _, rfl, rfl⟩, fun e he => .inr ?_⟩
        cases he
        exact ⟨v, _, message, hstate, hfailed, rfl⟩

theorem Placed.analyze (h : i.Placed P held) {e : EvalError α} (herror : i.analyze = .error e) :
    ∃ l, e.location = some l ∧ P l := by
  obtain ⟨p, hp⟩ := h.program
  rw [Interpreter.analyze, hp, Program.analyze_map, Program.analyze] at herror
  cases hnames : p.names Builtin.names with
  | ok known =>
    rw [hnames] at herror
    cases herror
  | error id =>
    rw [hnames] at herror
    cases herror
    exact ⟨_, rfl, id.location.2⟩

theorem Placed.run (h : i.Placed P held) (hrun : i.run fuel = some (r, j)) :
    j.Placed P (r.toOption.toList ++ held) ∧
      ∀ e, r = .error e → (∃ l, e.location = some l ∧ P l) ∨ i.FlushFails fuel e := by
  rcases run_cases hrun with ⟨e, hobjection, rfl, rfl⟩ | ⟨-, hexecute⟩
  · refine ⟨h, fun e' he => .inl ?_⟩
    cases he
    exact h.analyze (analyze_of_objection? hobjection)
  · exact h.execute hexecute

theorem Placed.discard {v : Value} {rest : List Value} (h : i.Placed P held)
    (hheld : held.Perm (v :: rest)) : (i.discard v).Placed P rest := by
  obtain ⟨program, config, scopes, ⟨heap, input, sink⟩⟩ := i
  exact ⟨h.program, h.sound.discard hheld, h.world.heap.releaseAll [v] [v], rfl, rfl⟩

/-- An interpreter that was used before, and the values that its user has got from it. -/
inductive Used (i₀ : Interpreter α) : List Value → Interpreter α → Prop
  | fresh : Used i₀ [] i₀
  | run {i j : Interpreter α} {held : List Value} {fuel : Nat} {r : Except (EvalError α) Value}
    (h : Used i₀ held i) (hrun : i.run fuel = some (r, j)) : Used i₀ (r.toOption.toList ++ held) j
  | execute {i j : Interpreter α} {held : List Value} {fuel : Nat}
    {r : Except (EvalError α) Value} (h : Used i₀ held i) (hrun : i.execute fuel = some (r, j)) :
    Used i₀ (r.toOption.toList ++ held) j
  | discard {i : Interpreter α} {held rest : List Value} {v : Value} (h : Used i₀ held i)
    (hheld : held.Perm (v :: rest)) : Used i₀ rest (i.discard v)

theorem Used.placed {i₀ : Interpreter α} (h : Used i₀ held i) (h₀ : i₀.Placed P []) :
    i.Placed P held := by
  induction h with
  | fresh => exact h₀
  | run _ hrun ih => exact (ih.run hrun).1
  | execute _ hrun ih => exact (ih.execute hrun).1
  | discard _ hheld ih => exact ih.discard hheld

end Interpreter

end Scriptlet
