import Scriptlet.Proofs.Interpreter.Sessions
import Scriptlet.Proofs.Machine.Answers
import Scriptlet.Proofs.Machine.Confinement

/-!
What the parts of a program do to the scopes around them. Only a declaration adds a name, and it
adds it to its own scope. All else may give new values to names that it can see, so what a name
refers to stays the same.
-/

namespace Scriptlet

variable {α : Type}

namespace Scopes

variable {s t : Scopes}

/-- With the current scope `id`, scopes have come to be `t` that were `s`: not one more or less, no
name more or less in any of them, and new values only where a walk from `id` leads. -/
structure Assigned (s : Scopes) (id : Nat) (t : Scopes) : Prop where
  parents : t.parents = s.parents
  names : ∀ i name, t.defines i name = s.defines i name
  values : ∀ i name, t.find? i name ≠ s.find? i name → s.Visits id i
  resolve : ∀ i name, t.resolve i name = s.resolve i name

/-- The scopes that a walk from `id` leads to, and all that are still to be opened. -/
@[reducible] def Ordered.region (h : s.Ordered) {id : Nat} (hid : id < s.depth) : Region :=
  ⟨s.depth, s.Visits id, h.depth_pos, h.visits_global hid⟩

theorem Ordered.encloses_region (h : s.Ordered) {id : Nat} (hid : id < s.depth) :
    s.Encloses (h.region hid) := by
  refine ⟨Nat.le_refl _, fun i p hi hp => ?_⟩
  rcases hi with hlate | hseen
  · rw [List.getElem?_eq_none (by simpa using hlate)] at hp
    cases hp
  · exact .inr (hseen.parent hp)

theorem Spares.assigned {id : Nat} (h : s.Ordered) (hid : id < s.depth)
    (hspares : Spares (h.region hid) s t) (hparents : t.parents = s.parents) :
    s.Assigned id t := by
  have hdepth : t.arena.size = s.arena.size := by
    have hlength := congrArg List.length hparents
    rwa [length_parents, length_parents] at hlength
  have hnone : ∀ i, ¬ i < s.depth → t.arena[i]? = none ∧ s.arena[i]? = none := by
    intro i hi
    have hle : s.arena.size ≤ i := Nat.le_of_not_lt hi
    exact ⟨Array.getElem?_eq_none (hdepth ▸ hle), Array.getElem?_eq_none hle⟩
  have hnames : ∀ i name, t.defines i name = s.defines i name := by
    intro i name
    by_cases hi : i < s.depth
    · exact hspares.defines i hi name
    · simp [Scopes.defines, find?, hnone i hi]
  refine ⟨hparents, hnames, fun i name hchanged => ?_, resolve_congr hparents hnames⟩
  by_contra hunseen
  refine hchanged ?_
  by_cases hi : i < s.depth
  · rw [find?, find?, hspares.unseen i hi hunseen]
  · rw [find?, find?, (hnone i hi).1, (hnone i hi).2]

end Scopes

namespace State

variable {limit : Nat} {s u : State α} {scope : Nat}

theorem Exit.assigned {c : Control α} (ho : s.Orderly limit) (hscope : scope < s.scopes.depth)
    (hsound : c.Sound s.scopes.depth) (hc : c.Confined (ho.scopes.region hscope))
    (hu : Exit limit (s.become c) u) : s.scopes.Assigned scope u.scopes := by
  have hentry : (s.become c).Orderly limit := ho.toSettled.become hsound
  have hconfined : (s.become c).Confined (ho.scopes.region hscope) (s.become c).stack :=
    ⟨⟨hc, .base⟩, ho.scopes.encloses_region hscope⟩
  obtain ⟨-, hspares⟩ := hu.1.confined hconfined hentry
  obtain ⟨-, hparents, -⟩ := hu.1.restored hentry hu.2.1
  exact hspares.assigned ho.scopes hscope hparents

theorem exit_declare_bound {x : Identifier α} (l : α)
    (hbound : s.scopes.defines scope x.name = true) :
    Exit limit (s.become (.exec scope (.declare x l))) u ↔
      u = s.failAt l (.redefinition x.name) :=
  exit_iff_of_step id (if_pos hbound) ⟨rfl, trivial⟩

theorem exit_declare_new {x : Identifier α} (l : α)
    (hnew : s.scopes.defines scope x.name = false) :
    Exit limit (s.become (.exec scope (.declare x l))) u ↔
      u = (s.bind scope x.name (.int 0)).give (.int 0) := by
  have hnot : ¬ s.scopes.defines scope x.name = true := by simp [hnew]
  exact exit_iff_of_step id (if_neg hnot) ⟨rfl, trivial⟩

theorem world_bind_new {name : String} (hscope : scope < s.scopes.depth)
    (hnew : s.scopes.defines scope name = false) (v : Value) :
    (s.bind scope name v).world = s.world := by
  have hfind : s.scopes.find? scope name = none := by simpa [Scopes.defines] using hnew
  have hfreed : (s.scopes.bind scope name v).2.toList = [] := by
    simp [Scopes.bind, hscope, hfind]
  change (releaseAll ⟨s.control, s.stack, _, s.depth, s.world⟩
    (s.scopes.bind scope name v).2.toList).world = _
  rw [hfreed, releaseAll_nil]

end State

namespace Interpreter

variable {i : Interpreter α} {held : List Value}

/-- What an execution can do to the scopes that are there, whatever it has come to. Expressions,
branches and loops add no name and take none away, be it that they give a value or fail, so a name
stands for the same as before. A declaration adds its name and nothing else, or fails. -/
theorem only_declarations_add_names {program : Program α} {config : Config} {input : Input}
    {sink : Sink} (hi : Used (new program config input sink) held i) {s : State α}
    (hs : State.Reaches config.maxCallDepth i.start s) {scope : Nat}
    (hscope : scope < s.scopes.depth) :
    (∀ e u, State.Exit config.maxCallDepth (s.become (.eval scope e)) u →
      s.scopes.Assigned scope u.scopes) ∧
    (∀ cond thenBlock elseBlock l u,
      State.Exit config.maxCallDepth
        (s.become (.exec scope (.branch cond thenBlock elseBlock l))) u →
      s.scopes.Assigned scope u.scopes) ∧
    (∀ cond body l u,
      State.Exit config.maxCallDepth (s.become (.exec scope (.loop cond body l))) u →
      s.scopes.Assigned scope u.scopes) ∧
    ∀ id l,
      (s.scopes.defines scope id.name = true → ∀ u,
        State.Exit config.maxCallDepth (s.become (.exec scope (.declare id l))) u ↔
          u = s.failAt l (.redefinition id.name)) ∧
      (s.scopes.defines scope id.name = false → ∃ u,
        (∀ t, State.Exit config.maxCallDepth (s.become (.exec scope (.declare id l))) t ↔ t = u) ∧
        u.control = .give (.int 0) ∧ u.world = s.world ∧ u.depth = s.depth ∧
        u.scopes.parents = s.scopes.parents ∧
        u.scopes.find? scope id.name = some (.int 0) ∧
        ∀ j name, j ≠ scope ∨ name ≠ id.name →
          u.scopes.find? j name = s.scopes.find? j name) := by
  have hsound := hi.sound (sound_new program config input sink)
  have ho : s.Orderly config.maxCallDepth := hs.orderly (hsound.orderly_start _)
  have hnear : (ho.scopes.region hscope).Near scope := .inr .here
  refine ⟨fun e u => State.Exit.assigned ho hscope hscope hnear, fun cond thenBlock elseBlock l u =>
    State.Exit.assigned ho hscope hscope (.inr ⟨.here, by simp⟩), fun cond body l u =>
    State.Exit.assigned ho hscope hscope (.inr ⟨.here, by simp⟩), fun id l => ⟨fun hbound u =>
    State.exit_declare_bound l hbound, fun hnew => ?_⟩⟩
  refine ⟨_, fun t => State.exit_declare_new l hnew, rfl, State.world_bind_new hscope hnew _, rfl,
    Scopes.parents_bind .., Scopes.find?_bind hscope _ _, fun j name hother => ?_⟩
  exact s.scopes.find?_bind_of_ne hother _

def addition : Expr Unit := .assign ⟨"x", ()⟩ (.callAt ⟨"add", ()⟩ [.integer "3" ()] ()) ()

/-- The function declares a name that its caller has too. -/
def ledger : Program Unit :=
  let total : Identifier Unit := ⟨"total", ()⟩
  let x : Identifier Unit := ⟨"x", ()⟩
  ⟨[.function ⟨⟨"add", ()⟩, [⟨"n", ()⟩],
      [.declare x (),
        .expr (.assign x (.binary .add (.reference total) (.reference ⟨"n", ()⟩) ()) ()),
        .expr (.assign total (.reference x) ())], ()⟩,
    .stmt (.declare total ()),
    .stmt (.branch (.integer "1" ()) [.declare x (), .expr addition] none ())]⟩

/-- In the block, adding changes the total and the name of the block; that name cannot be declared
once more there, but the total can. -/
theorem ledger_adds_no_names :
    let i := new ledger .standard ⟨[], [], none⟩ .unlimited
    ∃ s u t, State.Reaches 1000 i.start s ∧ 1 < s.scopes.depth ∧
      State.Exit 1000 (s.become (.eval 1 addition)) u ∧ s.scopes.Assigned 1 u.scopes ∧
      s.scopes.find? 0 "total" = some (.int 0) ∧ u.scopes.find? 0 "total" = some (.int 3) ∧
      State.Exit 1000 (s.become (.exec 1 (.declare ⟨"x", ()⟩ ())))
        (s.failAt () (.redefinition "x")) ∧
      State.Exit 1000 (s.become (.exec 1 (.declare ⟨"total", ()⟩ ()))) t ∧
      t.scopes.find? 1 "total" = some (.int 0) := by
  intro i
  have hreach := State.reaches_iterate 1000 i.start 13
  have hscope : 1 < ((State.step 1000)^[13] i.start).scopes.depth := by decide +kernel
  have hfresh : Used (new ledger .standard ⟨[], [], none⟩ .unlimited) [] i := .fresh
  obtain ⟨heval, -, -, hdeclare⟩ := only_declarations_add_names hfresh hreach hscope
  have hexit : State.Exit 1000 (((State.step 1000)^[13] i.start).become (.eval 1 addition))
      ((State.step 1000)^[29] (((State.step 1000)^[13] i.start).become (.eval 1 addition))) :=
    State.exit_of_length (by decide +kernel) (by decide +kernel)
  obtain ⟨t, ht, -, -, -, -, hnew, -⟩ := (hdeclare ⟨"total", ()⟩ ()).2 (by decide +kernel)
  exact ⟨_, _, t, hreach, hscope, hexit, heval _ _ hexit, by decide +kernel, by decide +kernel,
    ((hdeclare ⟨"x", ()⟩ ()).1 (by decide +kernel) _).mpr rfl, (ht t).mpr rfl, hnew⟩

end Interpreter

end Scriptlet
