import Scriptlet.Proofs.Diagnostics
import Scriptlet.Proofs.Grammar.Mentions
import Scriptlet.Proofs.Machine.Citations
import Scriptlet.Proofs.Machine.Globals

/-!
Names that are not found. The check before a run goes along the text and knows no scopes, while a
run goes its own way and opens and closes them. What joins the two is that a run mentions only what
its program mentions: a name that it does not find is used in the program, so the check has met an
introduction of it earlier in the text, or it is built in, and then the global scope binds it.
-/

namespace Scriptlet

variable {α : Type}

namespace State

variable {limit : Nat} {s : State α} {P : Mention α → Prop} {e : EvalError α} {x : String}

/-- A name that is not found is used in the code at hand, and no scope from the current one upwards
binds it. -/
theorem Raises.exists_used (h : s.Raises limit e) (he : e.cause = .undefinedName x)
    (hs : s.Orderly limit) (hc : s.Cites P) :
    ∃ id, P (.used id) ∧ e = ⟨.undefinedName id.name, some id.location⟩ ∧
      ¬ s.scopes.Global id.name := by
  have hscope := hs.control
  have hmentions := hc.control
  cases h with
  | @reference scope id hcontrol hnone =>
    rw [hcontrol] at hscope hmentions
    exact ⟨id, hmentions _ List.mem_cons_self, rfl,
      hs.scopes.not_global hscope (Scopes.resolve_of_lookup_none hnone)⟩
  | @callee scope id args l hcontrol hnone =>
    rw [hcontrol] at hscope hmentions
    exact ⟨id, hmentions _ List.mem_cons_self, rfl,
      hs.scopes.not_global hscope (Scopes.resolve_of_lookup_none hnone)⟩
  | @target v scope id k hcontrol hk hnone =>
    -- The target of an assignment is looked for when its value is there; a frame has kept it.
    have hfits := hs.fits
    have hframe := hc.stack (.assign scope id) (by rw [hk]; exact List.mem_cons_self)
    rw [hk] at hfits
    obtain ⟨-, hlt⟩ := hfits.of_plain (by simp) (by simp)
    exact ⟨id, hframe _ List.mem_cons_self, rfl, hs.scopes.not_global hlt hnone⟩
  | builtin hcontrol hb =>
    have hnative := Builtin.isNative_invoke hb
    cases he
    exact hnative.elim
  | _ => cases he

end State

namespace Interpreter

variable {i j : Interpreter α} {held : List Value} {fuel : Nat} {r : Except (EvalError α) Value}
  {program : Program α}

/-- The interpreter runs the program, and so do all functions that earlier executions have left. -/
structure Cited (program : Program α) (held : List Value) (i : Interpreter α) : Prop where
  program_eq : i.program = program
  sound : i.Sound held
  heap : i.world.heap.Cites (· ∈ program.mentions)

theorem cited_new (program : Program α) (config : Config) (input : Input) (sink : Sink) :
    (new program config input sink).Cited program [] := by
  refine ⟨rfl, sound_new .., fun r d closure ho => ?_⟩
  simp [new] at ho

theorem Cited.start (h : i.Cited program held) : i.start.Cites (· ∈ program.mentions) := by
  refine ⟨⟨nofun, h.heap.inherit (.releaseAll _ _)⟩, ?_⟩
  rw [← h.program_eq]
  exact fun m hm => hm

theorem inherits_flush {w w' : World α} {r' : Except (EvalError α) Value}
    (h : flush r w = (r', w')) : w.heap.Inherits w'.heap := by
  rcases flush_cases h with ⟨-, rfl⟩ | ⟨v, message, -, -, -, rfl⟩
  · exact .refl _
  · exact .releaseAll _ _

theorem Cited.execute (h : i.Cited program held) (hrun : i.execute fuel = some (r, j)) :
    j.Cited program (r.toOption.toList ++ held) := by
  have hsound := h.sound.execute hrun
  obtain ⟨r₀, t, hstate, hflush, hj⟩ := execute_eq_some hrun
  obtain ⟨hreach, -⟩ := State.reaches_of_run hstate
  have hheap := (hreach.cites h.start).heap.inherit (inherits_flush hflush)
  exact ⟨by rw [hj]; exact h.program_eq, hsound, hheap⟩

theorem Cited.run (h : i.Cited program held) (hrun : i.run fuel = some (r, j)) :
    j.Cited program (r.toOption.toList ++ held) := by
  rcases run_cases hrun with ⟨e, -, rfl, rfl⟩ | ⟨-, hexecute⟩
  · exact h
  · exact h.execute hexecute

theorem Used.cited {i₀ : Interpreter α} (h : Used i₀ held i) (h₀ : i₀.Cited program []) :
    i.Cited program held := by
  induction h with
  | fresh => exact h₀
  | run _ hrun ih => exact ih.run hrun
  | execute _ hrun ih => exact ih.execute hrun
  | discard _ hheld ih =>
    exact ⟨ih.program_eq, ih.sound.discard hheld, ih.heap.inherit (.releaseAll _ _)⟩

theorem Cited.orderly (h : i.Cited program held) {limit : Nat} {s : State α}
    (hs : State.Reaches limit i.start s) : s.Orderly limit :=
  hs.orderly (h.sound.orderly_start limit)

theorem global_builtin {limit : Nat} {s : State α} (hs : State.Reaches limit i.start s)
    (b : Builtin) : s.scopes.Global b.name := hs.global (Scopes.global_withBuiltins b)

theorem Cited.exists_used (h : i.Cited program held) {e : EvalError α} {x : String}
    (hrun : i.execute fuel = some (.error e, j)) (he : e.cause = .undefinedName x) :
    ∃ id, .used id ∈ program.mentions ∧ e = ⟨.undefinedName id.name, some id.location⟩ ∧
      id.name ∉ Builtin.names := by
  have hcause : ∀ message, e.cause ≠ .output message := by
    rw [he]
    exact nofun
  obtain ⟨t, ht, hfail, -⟩ := exists_fail hrun hcause
  obtain ⟨u, hu, hraises, -, -⟩ := ht.exists_raises hfail nofun
  obtain ⟨id, hused, heq, hunbound⟩ :=
    hraises.exists_used he (h.orderly hu) (hu.cites h.start)
  refine ⟨id, hused, heq, fun hbuiltin => ?_⟩
  obtain ⟨b, -, hname⟩ := List.mem_map.mp hbuiltin
  rw [← hname] at hunbound
  exact hunbound (global_builtin hu b)

theorem Cited.course (h : i.Cited program held) {limit : Nat} {s : State α}
    (hs : State.Reaches limit i.start s) : s.Course limit program.items := by
  have hstart : i.start.Course limit program.items := by
    have hcontrol : i.start.control = .items program.items (.int 0) := by
      rw [← h.program_eq]
      rfl
    have hnone : i.start.Bound [] := fun _ hitem => nomatch hitem
    exact .between rfl hcontrol rfl hnone
  exact hs.course hstart (h.sound.orderly_start limit)

end Interpreter

/-- A use in a program that passes the check, of a name that is not built in, stands behind an
introduction of that name. -/
theorem Program.introduced_before {text file : String} {p : Program Location}
    (hparse : Program.parse text file = .ok p) (hanalyze : p.analyze = .ok ())
    {id : Identifier Location} (hused : .used id ∈ p.mentions) (hid : id.name ∉ Builtin.names) :
    ∃ id', .introduced id' ∈ p.mentions ∧ id'.name = id.name ∧
      id'.location.span.stop ≤ id.location.span.start := by
  obtain ⟨pre, post, hsplit⟩ := List.append_of_mem hused
  rcases p.introduced_of_analyze hanalyze hsplit with hbuiltin | ⟨id', hmem, hname⟩
  · exact absurd hbuiltin hid
  · have hordered := Program.mentions_ordered hparse
    rw [hsplit] at hordered ⊢
    have hbefore := (List.pairwise_append.mp hordered).2.2 _ hmem _ List.mem_cons_self
    exact ⟨id', List.mem_append_left _ hmem, hname, hbefore⟩

namespace Interpreter

/-- If a program passes the check, a name that a run of it does not find is not built in and was
introduced before that place in the text. In every state of every run, checked or not, the global
scope binds all built-in names, and the names of all items that have been executed. -/
theorem undefined_names_are_introduced (program : Program Location) (config : Config)
    (input : Input) (sink : Sink) {held : List Value} {i : Interpreter Location}
    (hi : Used (new program config input sink) held i) :
    (∀ text file, Program.parse text file = .ok program → program.analyze = .ok () →
      ∀ fuel e j x, i.run fuel = some (.error e, j) ∨ i.execute fuel = some (.error e, j) →
        e.cause = .undefinedName x →
        x ∉ Builtin.names ∧ ∃ l id, e.location = some l ∧ .introduced id ∈ program.mentions ∧
          id.name = x ∧ id.location.span.stop ≤ l.span.start) ∧
    ∀ limit s, State.Reaches limit i.start s →
      (∀ b : Builtin, s.scopes.Global b.name) ∧
      ∀ rest, s.itemsLeft? = some rest →
        ∃ done, program.items = done ++ rest ∧ ∀ u, State.Reaches limit s u → u.Bound done := by
  have hcited := hi.cited (cited_new program config input sink)
  refine ⟨fun text file hparse hanalyze fuel e j x hrun he => ?_,
    fun limit s hs => ⟨global_builtin hs, fun rest hleft => ?_⟩⟩
  · have hexecute : i.execute fuel = some (.error e, j) := by
      rcases hrun with hrun | hrun
      · have hchecked : i.analyze = .ok () := by
          rw [Interpreter.analyze, hcited.program_eq, hanalyze]
        rcases run_cases hrun with ⟨e', hobjection, -, -⟩ | ⟨-, hexecute⟩
        · cases hchecked.symm.trans (analyze_of_objection? hobjection)
        · exact hexecute
      · exact hrun
    obtain ⟨id, hused, rfl, hid⟩ := hcited.exists_used hexecute he
    cases he
    obtain ⟨id', hmem, hname, hbefore⟩ := Program.introduced_before hparse hanalyze hused hid
    exact ⟨hid, id.location, id', rfl, hmem, hname, hbefore⟩
  · obtain ⟨done, hitems, hbound⟩ := (hcited.course hs).exists_done hleft
    exact ⟨done, hitems, fun u hu => hbound.reaches hu⟩

/-- The variable of a function is not found outside of it, though it was introduced; the function
is bound once it is defined. -/
theorem undefined_outside_function :
    let text := "function f(a) \x7b var x; \x7d x = f;"
    let i (program : Program Location) := new program .standard ⟨[], [], none⟩ .unlimited
    ∃ program e j, Program.parse text "t" = .ok program ∧ program.analyze = .ok () ∧
      (i program).run 60 = some (.error e, j) ∧ e.cause = .undefinedName "x" ∧
      (∃ l id, e.location = some l ∧ .introduced id ∈ program.mentions ∧ id.name = "x" ∧
        id.location.span.stop ≤ l.span.start) ∧
      ∃ done rest, program.items = done ++ rest ∧ done.map Item.globals = [["f"]] ∧
        State.Bound done ((i program).start.step 1000) := by
  intro text i
  have hcomputed : (failedRun text "t" .unlimited 60).map (fun x =>
      (x.2.1.cause, x.1.analyze.toOption, x.1.items.map Item.globals,
        (((i x.1).start.step 1000).itemsLeft?).map List.length)) =
      some (.undefinedName "x", some (), [["f"], []], some 1) := by decide +kernel
  obtain ⟨⟨program, e, j⟩, hout, hfacts⟩ := Option.map_eq_some_iff.mp hcomputed
  obtain ⟨hparse, hrun⟩ := failedRun_eq_some hout
  obtain ⟨hcause, hfacts⟩ := Prod.mk.inj hfacts
  obtain ⟨hchecked, hfacts⟩ := Prod.mk.inj hfacts
  obtain ⟨hglobals, hafter⟩ := Prod.mk.inj hfacts
  have hanalyze : program.analyze = .ok () := by
    cases h : program.analyze with
    | error e =>
      rw [h] at hchecked
      cases hchecked
    | ok u => rfl
  obtain ⟨rest, hrest, hlength⟩ := Option.map_eq_some_iff.mp hafter
  obtain ⟨hundefined, hcourse⟩ := undefined_names_are_introduced program .standard ⟨[], [], none⟩
    .unlimited (i := i program) .fresh
  obtain ⟨-, hintroduced⟩ := hundefined text "t" hparse hanalyze 60 e j "x" (.inl hrun) hcause
  obtain ⟨done, hitems, hbound⟩ := (hcourse 1000 _ (.step .refl)).2 rest hrest
  have hdone : done.map Item.globals = [["f"]] := by
    have happend : done.map Item.globals ++ rest.map Item.globals = [["f"]] ++ [[]] := by
      rw [← List.map_append, ← hitems]
      exact hglobals
    exact List.append_inj_left' happend (by rw [List.length_map]; exact hlength)
  exact ⟨program, e, j, hparse, hanalyze, hrun, hcause, hintroduced, done, rest, hitems, hdone,
    hbound _ .refl⟩

end Interpreter

end Scriptlet
