import Scriptlet.Proofs.Heap.Rendering
import Scriptlet.Proofs.Machine.Cost

/-!
Executions of programs without loops. They end after a number of steps that can be told from the
program and the limit on calls, whatever functions are handed around and called; and no single step
goes on forever, as neither the search for a name nor the text of a value does.
-/

namespace Scriptlet

variable {α : Type}

namespace Program

variable {p : Program α}

theorem mem_functions {d : FunctionDef α} (h : .function d ∈ p.items) : d ∈ p.functions :=
  List.mem_filterMap.mpr ⟨.function d, h, rfl⟩

theorem function_of_mem_functions {d : FunctionDef α} (h : d ∈ p.functions) :
    .function d ∈ p.items := by
  obtain ⟨item, hitem, hd⟩ := List.mem_filterMap.mp h
  cases item with
  | function d' =>
    cases hd
    exact hitem
  | stmt s => cases hd

theorem loopFree_body (hp : p.loopFree) : ∀ d ∈ p.functions, Stmt.blockLoopFree d.body :=
  fun _ hd => List.all_eq_true.mp hp _ (function_of_mem_functions hd)

theorem straight_items (hp : p.loopFree) : ∀ item ∈ p.items, item.Straight p.functions := by
  intro item hitem
  cases item with
  | function d => exact mem_functions hitem
  | stmt s => exact List.all_eq_true.mp hp _ hitem

/-- The steps that an execution takes at most. -/
def cost (p : Program α) (limit : Nat) : Nat :=
  Item.allCost (callCost p.functions limit) p.items

end Program

namespace Interpreter

theorem endsWithin_start {p : Program α} (hp : p.loopFree) (config : Config) (input : Input)
    (sink : Sink) {fuel : Nat} (hfuel : p.cost config.maxCallDepth ≤ fuel) :
    (new p config input sink).start.EndsWithin p.functions config.maxCallDepth fuel := by
  have hdefines : (new p config input sink).close.heap.Defines p.functions := by
    intro r d closure ho
    rw [close_new] at ho
    simp at ho
  exact ⟨⟨List.forall_mem_nil _, hdefines⟩, Program.straight_items hp, hfuel⟩

/-- An execution of a program without loops ends. In every state it comes to, all texts are
finite and all searches for names end. -/
theorem loopFree_execute_ends {p : Program α} (hp : p.loopFree) (config : Config) (input : Input)
    (sink : Sink) :
    let i := new p config input sink
    (∀ fuel, p.cost config.maxCallDepth ≤ fuel → ∃ r j, i.execute fuel = some (r, j)) ∧
    ∀ s, State.Reaches config.maxCallDepth i.start s →
      (∀ v, s.world.heap.Writes [] v (s.world.heap.render v)) ∧
      ∀ id < s.scopes.depth, ∀ name, s.scopes.Searches name id (s.scopes.resolve id name) := by
  intro i
  refine ⟨fun fuel hfuel => ?_, fun s hs => ⟨s.world.heap.writes_render, fun id hid name => ?_⟩⟩
  · obtain ⟨r, t, hrun⟩ :=
      (endsWithin_start hp config input sink hfuel).run (Program.loopFree_body hp)
    obtain ⟨⟨r', w⟩, hflush⟩ : ∃ x, flush r t.world = x := ⟨_, rfl⟩
    exact ⟨r', _, execute_of_run hrun hflush⟩
  · have horderly := (sound_new p config input sink).orderly_start config.maxCallDepth
    exact (hs.orderly horderly).scopes.searches_resolve name hid

/-- A function that calls what it is given, twice, is put into an array that contains itself; the
array is printed, and the function is given to itself. -/
def selfApplication : Program Unit :=
  let ref (name : String) : Expr Unit := .reference ⟨name, ()⟩
  let call (name : String) (args : List (Expr Unit)) : Stmt Unit :=
    .expr (.callAt ⟨name, ()⟩ args ())
  ⟨[.function ⟨⟨"f", ()⟩, [⟨"g", ()⟩], [call "g" [ref "g"], call "g" [ref "g"]], ()⟩,
    .stmt (.declare ⟨"a", ()⟩ ()),
    .stmt (.expr (.assign ⟨"a", ()⟩ (.callAt ⟨"mkarr", ()⟩ [ref "f"] ()) ())),
    .stmt (call "push" [ref "a", ref "a"]),
    .stmt (call "println" [ref "a"]),
    .stmt (call "f" [ref "f"])]⟩

/-- The array is written with a mark inside, and the calls come to an end at their limit. -/
theorem selfApplication_ends :
    let i := new selfApplication ⟨false, 2⟩ ⟨[], [], none⟩ .unlimited
    selfApplication.loopFree ∧ ∃ r j,
      i.execute (selfApplication.cost 2) = some (r, j) ∧ r.toOption = none ∧
        j.world.sink.written = "[<function f>, [...]]\n".toUTF8.data := by
  intro i
  have hfree : selfApplication.loopFree := by decide +kernel
  obtain ⟨hends, -⟩ := loopFree_execute_ends hfree ⟨false, 2⟩ ⟨[], [], none⟩ .unlimited
  obtain ⟨r, j, hrun⟩ := hends (selfApplication.cost 2) (Nat.le_refl _)
  have hcomputed : (i.execute (selfApplication.cost 2)).map (fun (r, j) =>
      (r.toOption, j.world.sink.written)) =
      some (none, "[<function f>, [...]]\n".toUTF8.data) := by decide +kernel
  rw [hrun] at hcomputed
  obtain ⟨hfailed, hwritten⟩ := Prod.mk.inj (Option.some.inj hcomputed)
  exact ⟨hfree, r, j, hrun, hfailed, hwritten⟩

end Interpreter

end Scriptlet
