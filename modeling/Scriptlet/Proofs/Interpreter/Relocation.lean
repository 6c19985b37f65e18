import Scriptlet.Proofs.Machine.Relocation
import Scriptlet.Proofs.Program.Names

/-!
Interpreters for a program with other locations, and on an input from which the same integers are
read. Whatever they are asked to do comes to the same, up to the locations of errors.
-/

namespace Scriptlet

variable {α β : Type} (τ : Transport α β)

/-- What an execution comes to, with other locations. -/
def transportResult (r : Except (EvalError α) Value) : Except (EvalError β) Value :=
  r.mapError (EvalError.map τ.place)

namespace Interpreter

variable (i : Interpreter α)

def transport : Interpreter β :=
  ⟨i.program.map τ.place, i.config, i.scopes, i.world.transport τ⟩

theorem close_transport : (i.transport τ).close = i.close.transport τ := by
  simp only [close, transport, World.transport, Heap.releaseAll_map]

theorem start_transport : (i.transport τ).start = i.start.transport τ := by
  rw [start, close_transport]
  rfl

theorem flush_transport (r : Except (EvalError α) Value) (w : World α) :
    flush (transportResult τ r) (w.transport τ) =
      (transportResult τ (flush r w).1, (flush r w).2.transport τ) := by
  cases r with
  | error e => rfl
  | ok v =>
    have hsink : (w.transport τ).sink = w.sink := rfl
    change flush (.ok v) (w.transport τ) = _
    simp only [flush, hsink]
    cases w.sink.flush with
    | ok _ => rfl
    | error message =>
      simp only [World.transport, Heap.release, Heap.releaseAll_map]
      rfl

theorem execute_transport (fuel : Nat) :
    (i.transport τ).execute fuel =
      (i.execute fuel).map fun (r, j) => (transportResult τ r, j.transport τ) := by
  have hrun := State.run_transport τ i.start i.config.maxCallDepth fuel
  rw [← start_transport] at hrun
  have hconfig : (i.transport τ).config = i.config := rfl
  rw [execute_eq_map, execute_eq_map, hconfig, hrun]
  cases i.start.run i.config.maxCallDepth fuel with
  | none => rfl
  | some x =>
    have hflush := flush_transport τ x.1 x.2.world
    change flush (x.1.mapError (EvalError.map τ.place)) (x.2.transport τ).world = _ at hflush
    simp only [Option.map_some, hflush]
    rfl

theorem objection?_transport :
    (i.transport τ).objection? = i.objection?.map (EvalError.map τ.place) := by
  have hconfig : (i.transport τ).config = i.config := rfl
  have hanalyze : (i.transport τ).analyze = i.analyze.mapError (EvalError.map τ.place) :=
    Program.analyze_map τ.place i.program
  simp only [objection?, hconfig, hanalyze]
  split
  · cases i.analyze <;> rfl
  · rfl

theorem run_transport (fuel : Nat) :
    (i.transport τ).run fuel =
      (i.run fuel).map fun (r, j) => (transportResult τ r, j.transport τ) := by
  rw [Interpreter.run, Interpreter.run, objection?_transport]
  cases i.objection? with
  | some e => rfl
  | none => exact execute_transport τ i fuel

end Interpreter

end Scriptlet
