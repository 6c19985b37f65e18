import Scriptlet.Proofs.Heap.Cycle
import Scriptlet.Proofs.Machine.Runs

/-!
What a run leaves behind. When it has returned, objects are held by global names, by arrays and by
the result, and by nothing else; when all of these are let go of, only cycles of arrays are left.
-/

namespace Scriptlet

variable {α : Type}

theorem Scopes.values_of_depth_one {s : Scopes} (h : s.depth = 1) :
    ∃ globals : Scope, s.arena = #[globals] ∧ s.values = globals.bindings.values := by
  obtain ⟨globals, hg⟩ := Array.size_eq_one_iff.mp h
  refine ⟨globals, hg, ?_⟩
  rw [values, hg]
  exact List.append_nil _

namespace Interpreter

variable {i j : Interpreter α} {ext : List Value} {fuel : Nat} {r : Except (EvalError α) Value}

theorem Sound.depth_run (h : i.Sound ext) (hdepth : i.scopes.depth = 1)
    (hrun : i.run fuel = some (r, j)) : j.scopes.depth = 1 := by
  unfold Interpreter.run at hrun
  split at hrun
  · cases hrun
    exact hdepth
  · exact h.depth_execute hrun

/-- What is left when first the interpreter and then the result of its run are let go of. -/
def leftover (r : Except (EvalError α) Value) (i : Interpreter α) : Heap α :=
  i.close.heap.releaseAll r.toOption.toList

theorem leftover_eq (r : Except (EvalError α) Value) (i : Interpreter α) :
    i.leftover r = i.world.heap.releaseAll (i.scopes.values ++ r.toOption.toList) :=
  (Heap.releaseAll_append _ _ _).symm

/-- However a run ends, every count is the number of holders among global names, elements of
arrays and the result. Once these are gone, what lives are the objects on or below a cycle. -/
theorem run_leaves_cycles (program : Program α) (config : Config) (input : Input) (sink : Sink)
    (hrun : (new program config input sink).run fuel = some (r, i)) :
    (∃ globals : Scope, i.scopes.arena = #[globals] ∧
      ∀ x, i.world.heap.countAt x = holders x globals.bindings.values +
        holders x i.world.heap.contents + holders x r.toOption.toList) ∧
    (∀ x, ((i.leftover r).cell? x).isSome ↔ i.world.heap.CycleKept x) ∧
    (∃ kept : Finset Nat, (∀ x, x ∈ kept ↔ i.world.heap.CycleKept x) ∧
      (i.leftover r).live = (new program config input sink).world.heap.live + kept.card) ∧
    ((∀ a, ¬ i.world.heap.OnCycle a) →
      (i.leftover r).live = (new program config input sink).world.heap.live) := by
  have hsound := (sound_new program config input sink).run hrun
  have hbalanced : i.world.heap.Balanced (i.scopes.values ++ r.toOption.toList) := by
    have hb := hsound.balanced
    rwa [List.append_nil] at hb
  have hleft : ∀ x, ((i.leftover r).cell? x).isSome ↔ i.world.heap.CycleKept x := by
    intro x
    rw [leftover_eq, ← hbalanced.object?_releaseAll_isSome x, Heap.object?, Option.isSome_map]
  have hempty : (i.leftover r).Balanced [] := by
    have hb : i.world.heap.Balanced ((i.scopes.values ++ r.toOption.toList) ++ []) := by
      rwa [List.append_nil]
    rw [leftover_eq]
    exact hb.releaseAll
  have hcount : ∃ kept : Finset Nat, (∀ x, x ∈ kept ↔ i.world.heap.CycleKept x) ∧
      (i.leftover r).live = (new program config input sink).world.heap.live + kept.card := by
    refine ⟨(i.leftover r).places.toFinset, fun x => ?_, ?_⟩
    · rw [List.mem_toFinset, Heap.mem_places]
      exact hleft x
    · have hnone : (new program config input sink).world.heap.live = 0 := rfl
      rw [hempty.live_eq, hnone, Nat.zero_add, List.toFinset_card_of_nodup (Heap.nodup_places _)]
  refine ⟨?_, hleft, hcount, fun hacyclic => ?_⟩
  · have hdepth := (sound_new program config input sink).depth_run rfl hrun
    obtain ⟨globals, harena, hvalues⟩ := Scopes.values_of_depth_one hdepth
    refine ⟨globals, harena, fun x => ?_⟩
    have hx := hbalanced.count x
    rw [holders_append, hvalues] at hx
    omega
  · obtain ⟨kept, hkept, hlive⟩ := hcount
    have hnone : kept = ∅ := by
      refine Finset.eq_empty_of_forall_notMem fun x hx => ?_
      obtain ⟨a, hcycle, -⟩ := (hkept x).mp hx
      exact hacyclic a hcycle
    rw [hlive, hnone, Finset.card_empty, Nat.add_zero]

/-- An array is put into itself, and then a string is put into it. Another string is the result. -/
def knot : Program Unit :=
  ⟨[.stmt (.declare ⟨"a", ()⟩ ()),
    .stmt (.expr (.assign ⟨"a", ()⟩ (.callAt ⟨"mkarr", ()⟩ [] ()) ())),
    .stmt (.expr (.callAt ⟨"push", ()⟩ [.reference ⟨"a", ()⟩, .reference ⟨"a", ()⟩] ())),
    .stmt (.expr (.callAt ⟨"push", ()⟩ [.reference ⟨"a", ()⟩, .string "in" ()] ())),
    .stmt (.expr (.string "out" ()))]⟩

/-- The array and the string in it are left, the string outside is not. -/
theorem knot_leaves_cycle :
    ∃ (r : Except (EvalError Unit) Value) (i : Interpreter Unit),
      (new knot .standard ⟨[], [], none⟩ .unlimited).run 50 = some (r, i) ∧
        i.world.heap.live = 3 ∧ (i.leftover r).live = 2 ∧
        i.world.heap.CycleKept 0 ∧ i.world.heap.CycleKept 1 ∧ ¬ i.world.heap.CycleKept 2 := by
  have hcomputed : ((new knot .standard ⟨[], [], none⟩ .unlimited).run 50).map (fun (r, i) =>
      (i.world.heap.live, (i.leftover r).live, ((i.leftover r).cell? 0).isSome,
        ((i.leftover r).cell? 1).isSome, ((i.leftover r).cell? 2).isSome)) =
      some (3, 2, true, true, false) := by decide +kernel
  obtain ⟨⟨r, i⟩, hrun, hvalues⟩ := Option.map_eq_some_iff.mp hcomputed
  simp only [Prod.mk.injEq] at hvalues
  obtain ⟨hlive, hleft, h0, h1, h2⟩ := hvalues
  obtain ⟨-, hkept, -⟩ := run_leaves_cycles knot .standard ⟨[], [], none⟩ .unlimited hrun
  refine ⟨r, i, hrun, hlive, hleft, (hkept 0).mp h0, (hkept 1).mp h1, fun hk => ?_⟩
  exact Bool.false_ne_true (h2.symm.trans ((hkept 2).mpr hk))

end Interpreter

end Scriptlet
