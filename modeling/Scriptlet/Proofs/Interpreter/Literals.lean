import Scriptlet.Proofs.Builtin.ReadBack
import Scriptlet.Proofs.Interpreter.UndefinedNames
import Scriptlet.Proofs.Machine.Code
import Scriptlet.Proofs.Machine.Fields
import Scriptlet.Proofs.Machine.Output
import Scriptlet.Proofs.Program.Placement
import Scriptlet.Proofs.Program.RoundTrip

/-!
Integer literals. A literal means the number it spells, whatever zeros stand before it, and fails if
that number has no room in 64 bits; nothing else fails on account of a literal.
-/

namespace Scriptlet

/-! ### Numerals without sign -/

theorem numeral_of_isNumeral {d : String} (h : isNumeral d) :
    Decimal.Numeral d.toList (Decimal.value d.toList) :=
  .unsigned (digits_of_isNumeral h).1 (digits_of_isNumeral h).2

theorem Decimal.Numeral.unique {cs : List Char} {m n : Int} (hm : Numeral cs m)
    (hn : Numeral cs n) : m = n :=
  Option.some.inj ((int?_eq_some.mpr hm).symm.trans (int?_eq_some.mpr hn))

theorem int64?_of_le {d : String} (h : isNumeral d) (hle : Decimal.value d.toList ≤ 2 ^ 63 - 1) :
    ∃ k : Int64, k.toInt = Decimal.value d.toList ∧ Decimal.int64? d.toList = some k := by
  refine ⟨.ofNat (Decimal.value d.toList), ?_, ?_⟩
  · exact Int64.toInt_ofNat_of_lt (by omega)
  · rw [Decimal.int64?_eq_some, Int64.toInt_ofNat_of_lt (by omega)]
    exact numeral_of_isNumeral h

theorem int64?_of_lt {d : String} (h : isNumeral d) (hlt : 2 ^ 63 - 1 < Decimal.value d.toList) :
    Decimal.int64? d.toList = none := by
  refine Option.eq_none_iff_forall_ne_some.mpr fun k hk => ?_
  have hvalue : k.toInt = Decimal.value d.toList :=
    (Decimal.int64?_eq_some.mp hk).unique (numeral_of_isNumeral h)
  have hmax := k.toInt_lt
  omega

/-! ### The text `println(d);` -/

namespace Program

/-- A program that prints a literal. -/
def printing {α : Type} (d : String) (callee literal : α) : Program α :=
  ⟨[.stmt (.expr (.callAt ⟨"println", callee⟩ [.integer d literal] callee))]⟩

theorem parse_printing {d : String} (h : isNumeral d) (file : String) :
    ∃ callee, parse ("println(" ++ d ++ ");") file =
      .ok (printing d callee (.behind file "println(".toList d.toList)) := by
  have hname : Spells .identifier "println".toList "println".toList :=
    .identifier rfl (List.all_eq_true.mp rfl) rfl
  have hnumber := spells_of_isNumeral h
  have hleft : Spells .leftParen "(".toList "(".toList := .fixed rfl
  have hright : Spells .rightParen ")".toList ")".toList := .fixed rfl
  have hsemicolon : Spells .semicolon ";".toList ";".toList := .fixed rfl
  have hopen : ∀ more, Scan.Apart ("(".toList ++ more) := by
    rintro more x ⟨⟩
    decide
  have hclose : ∀ more, Scan.Apart (")".toList ++ more) := by
    rintro more x ⟨⟩
    decide
  have htext : ("println(" ++ d ++ ");").toList =
      "println".toList ++ ("(".toList ++ (d.toList ++ (")".toList ++ (";".toList ++ [])))) := by
    rw [String.toList_append, String.toList_append, List.append_assoc]
    rfl
  have hlexeme : String.ofList d.toList = d := String.ofList_toList
  obtain ⟨l, hend⟩ := TokenStream.ofCursor_nil file
    ([] ++ "println".toList ++ "(".toList ++ d.toList ++ ")".toList ++ ";".toList)
  have hstream : TokenStream.ofText ("println(" ++ d ++ ");") file =
      TokenStream.ofCursor (.behind file [] ("println(" ++ d ++ ");").toList) := rfl
  rw [parse, hstream, htext,
    TokenStream.ofCursor_of_start hname (Scan.start_of_spells hname (hopen _)),
    TokenStream.ofCursor_of_start hleft ⟨_, _, rfl, rfl⟩,
    TokenStream.ofCursor_of_start hnumber (Scan.start_of_spells hnumber (hclose _)),
    TokenStream.ofCursor_of_start hright ⟨_, _, rfl, rfl⟩,
    TokenStream.ofCursor_of_start hsemicolon ⟨_, _, rfl, rfl⟩, hend,
    hlexeme]
  exact ⟨_, rfl⟩

end Program

/-! ### The literals of a program that was read -/

theorem Setting.kind_of_integer {q : Setting} {kind : TokenKind} {lexeme d : String}
    (h : q.mark? lexeme kind = some (.integer d)) : kind = .integer ∧ lexeme = d := by
  cases kind with
  | integer =>
    cases h
    exact ⟨rfl, rfl⟩
  | identifier =>
    simp only [mark?, Option.some.injEq] at h
    split at h <;> cases h
  | _ => cases h

/-- A literal stands in the text as a run of digits. -/
theorem Program.literal_placed {text file d : String} {p : Program Location} {l : Location}
    (h : parse text file = .ok p) (hn : ⟨.integer d, l⟩ ∈ p.nodes) :
    isNumeral d ∧ Placed text file ⟨.integer d, l⟩ := by
  obtain ⟨ts, hts, hnodes⟩ := nodes_of_parse h
  obtain ⟨rfl, -⟩ := tokens_of_tokenize hts
  have hscan : ⟨.integer d, l⟩ ∈ p.nodes.filter Node.ownsToken := List.mem_filter.mpr ⟨hn, rfl⟩
  rw [hnodes] at hscan
  obtain ⟨q, t, ht, hnode⟩ := Setting.exists_token hscan
  refine ⟨?_, placed_of_token ht hnode⟩
  obtain ⟨m, hm, hnode⟩ := Option.map_eq_some_iff.mp hnode
  cases hnode
  obtain ⟨hkind, rfl⟩ := Setting.kind_of_integer hm
  obtain ⟨before, spelling, after, hstands⟩ :=
    (TokenStream.tiles_ofText text file).standsIn t ht
  have hspells := hstands.spells
  rw [hkind] at hspells
  exact isNumeral_of_spells hspells

/-! ### Evaluating a literal -/

variable {α : Type}

namespace State

variable {scope : Nat} {s : State α} {d : String} {l : α} (limit : Nat)

theorem step_literal_of_le (hc : s.control = .eval scope (.integer d l)) (h : isNumeral d)
    (hle : Decimal.value d.toList ≤ 2 ^ 63 - 1) :
    ∃ k : Int64, k.toInt = Decimal.value d.toList ∧ s.step limit = s.give (.int k) := by
  obtain ⟨k, hk, hint⟩ := int64?_of_le h hle
  refine ⟨k, hk, ?_⟩
  simp only [step, hc, eval, hint]

theorem step_literal_of_lt (hc : s.control = .eval scope (.integer d l)) (h : isNumeral d)
    (hlt : 2 ^ 63 - 1 < Decimal.value d.toList) :
    s.step limit = s.failAt l (.integerLiteral d) := by
  simp only [step, hc, eval, int64?_of_lt h hlt]

variable {limit} in
theorem Raises.literal_of_cause {e : EvalError α} (h : s.Raises limit e)
    (he : e.cause = .integerLiteral d) :
    ∃ scope l, s.control = .eval scope (.integer d l) ∧ e.location = some l ∧
      Decimal.int64? d.toList = none := by
  cases h with
  | literal hc hnone =>
    cases he
    exact ⟨_, _, hc, rfl, hnone⟩
  | builtin hc hb =>
    have hnative := Builtin.isNative_invoke hb
    cases he
    exact hnative.elim
  | _ => cases he

end State

namespace Interpreter

variable {i j : Interpreter α} {s : State α} {scope : Nat} {d : String} {l : α}

/-- A literal that is too large ends the execution, and nothing more is written. -/
theorem execute_of_literal (hs : State.Reaches i.config.maxCallDepth i.start s)
    (hc : s.control = .eval scope (.integer d l)) (h : isNumeral d)
    (hlt : 2 ^ 63 - 1 < Decimal.value d.toList) :
    ∃ fuel j, i.execute fuel = some (.error ⟨.integerLiteral d, some l⟩, j) ∧
      j.world.sink = s.world.sink := by
  have hstep := State.step_literal_of_lt i.config.maxCallDepth hc h hlt
  have hfail : (s.step i.config.maxCallDepth).control = .fail ⟨.integerLiteral d, some l⟩ := by
    rw [hstep]
    rfl
  obtain ⟨t, hrun⟩ := State.run_of_fail i.config.maxCallDepth hfail
  obtain ⟨hreach, -⟩ := State.reaches_of_run hrun
  obtain ⟨fuel, hstart⟩ := hs.step.run hrun
  have hsink : t.world.sink = s.world.sink := by
    rw [(hreach.unwound hfail).sink, hstep]
    rfl
  exact ⟨fuel, _, execute_of_run hstart rfl, hsink⟩

/-- The code of an interpreter that runs the program. -/
structure Quoted (program : Program α) (i : Interpreter α) : Prop where
  program_eq : i.program = program
  heap : i.world.heap.Quotes (· ∈ program.nodes)

variable {program : Program α} {held : List Value} {fuel : Nat} {r : Except (EvalError α) Value}

theorem Quoted.start (h : i.Quoted program) : i.start.Quotes (· ∈ program.nodes) := by
  refine ⟨⟨nofun, h.heap.inherit (.releaseAll _ _)⟩, ?_⟩
  rw [← h.program_eq]
  exact fun n hn => hn

theorem Quoted.execute (h : i.Quoted program) (hrun : i.execute fuel = some (r, j)) :
    j.Quoted program := by
  obtain ⟨r₀, t, hstate, hflush, hj⟩ := execute_eq_some hrun
  obtain ⟨hreach, -⟩ := State.reaches_of_run hstate
  have hheap := (hreach.quotes h.start).heap.inherit (inherits_flush hflush)
  exact ⟨by rw [hj]; exact h.program_eq, hheap⟩

theorem Used.quoted {i₀ : Interpreter α} (h : Used i₀ held i) (h₀ : i₀.Quoted program) :
    i.Quoted program := by
  induction h with
  | fresh => exact h₀
  | run _ hrun ih =>
    rcases run_cases hrun with ⟨e, -, -, rfl⟩ | ⟨-, hexecute⟩
    · exact ih
    · exact ih.execute hexecute
  | execute _ hrun ih => exact ih.execute hrun
  | discard _ hheld ih => exact ⟨ih.program_eq, ih.heap.inherit (.releaseAll _ _)⟩

theorem quoted_new (program : Program α) (config : Config) (input : Input) (sink : Sink) :
    (new program config input sink).Quoted program := by
  refine ⟨rfl, fun r d closure ho => ?_⟩
  simp [new] at ho

/-- A run fails on account of a literal only if it comes to evaluate it. -/
theorem exists_literal {e : EvalError α} (hrun : i.run fuel = some (.error e, j))
    (he : e.cause = .integerLiteral d) :
    ∃ s scope l, State.Reaches i.config.maxCallDepth i.start s ∧
      s.control = .eval scope (.integer d l) ∧ e.location = some l ∧
      Decimal.int64? d.toList = none := by
  rcases run_cases hrun with ⟨e', hobjection, heq, -⟩ | ⟨-, hexecute⟩
  · have hanalyze := analyze_of_objection? hobjection
    cases heq
    unfold analyze Program.analyze at hanalyze
    split at hanalyze
    · cases hanalyze
    · cases hanalyze
      cases he
  · have hcause : ∀ message, e.cause ≠ .output message := by
      rw [he]
      exact nofun
    obtain ⟨t, ht, hfail, -⟩ := exists_fail hexecute hcause
    obtain ⟨s, hs, hraises, -, -⟩ := ht.exists_raises hfail nofun
    obtain ⟨scope, l, hc, hl, hnone⟩ := hraises.literal_of_cause he
    exact ⟨s, scope, l, hs, hc, hl, hnone⟩

/-! ### Running `println(d);` -/

/-- The argument of `println` is evaluated; nothing has been written yet. -/
def evaluating (d : String) (callee literal : α) (w : World α) : State α :=
  ⟨.eval 0 (.integer d literal), [.arguments 0 (.builtin .println) [] [] callee, .nextItem []],
    .withBuiltins, 0, w⟩

section

variable (d : String) (callee literal : α) (config : Config) (input : Input) (sink : Sink)

/-- Its only name is built in, so the program is executed. -/
theorem run_printing_eq_execute (fuel : Nat) :
    (new (Program.printing d callee literal) config input sink).run fuel =
      (new (Program.printing d callee literal) config input sink).execute fuel := by
  have hanalyze : (new (Program.printing d callee literal) config input sink).analyze = .ok () :=
    rfl
  have hnone : (new (Program.printing d callee literal) config input sink).objection? = none := by
    rw [objection?, hanalyze]
    split <;> rfl
  rw [run, hnone]

theorem reaches_evaluating (limit : Nat) :
    State.Reaches limit (new (Program.printing d callee literal) config input sink).start
      (evaluating d callee literal ⟨.empty, input, sink⟩) := by
  have hlookup : Scopes.withBuiltins.lookup 0 "println" = some (.builtin .println) := by
    decide +kernel
  have hstart : (new (Program.printing d callee literal) config input sink).start.step limit =
      ⟨.exec 0 (.expr (.callAt ⟨"println", callee⟩ [.integer d literal] callee)), [.nextItem []],
        .withBuiltins, 0, ⟨.empty, input, sink⟩⟩ := by
    rw [start, close_new, new, Program.printing]
    simp only [State.step, State.release_int]
    rfl
  have hcall : (State.mk (.eval 0 (.callAt ⟨"println", callee⟩ [.integer d literal] callee))
      [.nextItem []] .withBuiltins 0 ⟨.empty, input, sink⟩).step limit =
      ⟨.arguments 0 (.builtin .println) [] [.integer d literal] callee, [.nextItem []],
        .withBuiltins, 0, ⟨.empty, input, sink⟩⟩ := by
    simp only [State.step, State.eval, State.call, hlookup]
    rfl
  exact (((State.Reaches.refl.next hstart).next rfl).next hcall).next rfl

end

variable (callee literal : α) {w : World α}

/-- The value of the literal is written on a line, and that is the end. -/
theorem reaches_printed (limit : Nat) (k : Int64) (hroom : w.sink.capacity = none) :
    State.Reaches limit ((evaluating d callee literal w).give (.int k))
      ⟨.give (.int 0), [], .withBuiltins, 0,
        ⟨w.heap, w.input, w.sink.append (toString k.toInt ++ "\n").toUTF8.data⟩⟩ := by
  have hwrite : w.sink.write (toString k.toInt ++ "\n").toUTF8.data =
      (.ok (), w.sink.append (toString k.toInt ++ "\n").toUTF8.data) := by
    rw [Sink.write, Sink.room, hroom]
    exact if_pos rfl
  have hout : Builtin.println.output? [.int k] w.heap = some (toString k.toInt ++ "\n") := rfl
  have happly : (State.mk (.apply (.builtin .println) [.int k] callee) [.nextItem []] .withBuiltins
      0 w).step limit = ⟨.give (.int 0), [.nextItem []], .withBuiltins, 0,
        ⟨w.heap, w.input, w.sink.append (toString k.toInt ++ "\n").toUTF8.data⟩⟩ := by
    rw [State.step_of_output? rfl hout, hwrite]
    exact congrArg (State.give · (.int 0)) (State.release_int _ k)
  exact ((((State.Reaches.refl.next rfl).next rfl).next happly).next rfl).next rfl

theorem run_printing (h : isNumeral d) (config : Config) (input : Input) {sink : Sink}
    (hroom : sink.capacity = none) (hflush : sink.flush = .ok ()) :
    ∃ fuel r j, (new (Program.printing d callee literal) config input sink).run fuel = some (r, j) ∧
      (Decimal.value d.toList ≤ 2 ^ 63 - 1 → r = .ok (.int 0) ∧ j.world.written =
        sink.written.toList ++ utf8 (toString (Decimal.value d.toList) ++ "\n")) ∧
      (2 ^ 63 - 1 < Decimal.value d.toList → r = .error ⟨.integerLiteral d, some literal⟩ ∧
        j.world.written = sink.written.toList) := by
  have hsame := run_printing_eq_execute d callee literal config input sink
  have hreach := reaches_evaluating d callee literal config input sink config.maxCallDepth
  have hcontrol : (evaluating d callee literal ⟨.empty, input, sink⟩).control =
      .eval 0 (.integer d literal) := rfl
  by_cases hle : Decimal.value d.toList ≤ 2 ^ 63 - 1
  · obtain ⟨k, hk, hstep⟩ := State.step_literal_of_le config.maxCallDepth hcontrol h hle
    have hprinted := reaches_printed (d := d) callee literal config.maxCallDepth k
      (w := ⟨.empty, input, sink⟩) hroom
    have htext : toString k.toInt = toString (Decimal.value d.toList) := by
      rw [hk]
      rfl
    rw [htext] at hprinted
    obtain ⟨n, hrest⟩ := hprinted.run_of_outcome? rfl
    obtain ⟨fuel, hrun⟩ := (hreach.next hstep).run hrest
    have hexecute := execute_of_run (i := new (Program.printing d callee literal) config input sink)
      hrun (flush_of_ok hflush)
    exact ⟨fuel, _, _, (hsame fuel).trans hexecute, fun _ => ⟨rfl, Array.toList_append⟩,
      fun hlt => absurd hle (by omega)⟩
  · obtain ⟨fuel, j, hexecute, hsink⟩ := execute_of_literal
      (i := new (Program.printing d callee literal) config input sink) hreach hcontrol h (by omega)
    refine ⟨fuel, _, j, (hsame fuel).trans hexecute, fun hle' => absurd hle' hle,
      fun _ => ⟨rfl, ?_⟩⟩
    rw [World.written, hsink]
    rfl

/-! ### Literals anywhere -/

/-- What evaluating a literal in `s` comes to. -/
structure Evaluates (i : Interpreter α) (s : State α) (d : String) (l : α) : Prop where
  fits : Decimal.value d.toList ≤ 2 ^ 63 - 1 → ∃ k : Int64,
    k.toInt = Decimal.value d.toList ∧ s.step i.config.maxCallDepth = s.give (.int k)
  overflows : 2 ^ 63 - 1 < Decimal.value d.toList → ∃ fuel j,
    i.execute fuel = some (.error ⟨.integerLiteral d, some l⟩, j) ∧
      j.world.written = s.world.written

theorem evaluates_literal (hs : State.Reaches i.config.maxCallDepth i.start s)
    (hc : s.control = .eval scope (.integer d l)) (h : isNumeral d) : i.Evaluates s d l where
  fits := State.step_literal_of_le i.config.maxCallDepth hc h
  overflows hlt := by
    obtain ⟨fuel, j, hexecute, hsink⟩ := execute_of_literal hs hc h hlt
    exact ⟨fuel, j, hexecute, congrArg (·.written.toList) hsink⟩

/-- A literal means the number that its digits spell. The text `println(d);` writes that number
without leading zeros, or fails at `d` if it has no room in 64 bits; and so does every literal of a
program that was read, when it is evaluated and not before. -/
theorem literals_mean_their_value :
    (∀ (d file : String) (config : Config) (input : Input) (sink : Sink), isNumeral d →
      sink.capacity = none → sink.flush = .ok () →
      ∃ p fuel r j, Program.parse ("println(" ++ d ++ ");") file = .ok p ∧
        (new p config input sink).run fuel = some (r, j) ∧
        (Decimal.value d.toList ≤ 2 ^ 63 - 1 → r = .ok (.int 0) ∧ j.world.written =
          sink.written.toList ++ utf8 (toString (Decimal.value d.toList) ++ "\n")) ∧
        (2 ^ 63 - 1 < Decimal.value d.toList →
          r = .error ⟨.integerLiteral d, some (.behind file "println(".toList d.toList)⟩ ∧
            j.world.written = sink.written.toList)) ∧
    ∀ (text file : String) (p : Program Location) (config : Config) (input : Input) (sink : Sink)
      (held : List Value) (i : Interpreter Location), Program.parse text file = .ok p →
      Used (new p config input sink) held i →
      (∀ s scope d l, State.Reaches i.config.maxCallDepth i.start s →
        s.control = .eval scope (.integer d l) →
        isNumeral d ∧ Program.Placed text file ⟨.integer d, l⟩ ∧ i.Evaluates s d l) ∧
      ∀ fuel e j d, i.run fuel = some (.error e, j) → e.cause = .integerLiteral d →
        ∃ s scope l, State.Reaches i.config.maxCallDepth i.start s ∧
          s.control = .eval scope (.integer d l) ∧ e.location = some l ∧
          2 ^ 63 - 1 < Decimal.value d.toList := by
  refine ⟨fun d file config input sink h hroom hflush => ?_,
    fun text file p config input sink held i hparse hused => ?_⟩
  · obtain ⟨callee, hparse⟩ := Program.parse_printing h file
    obtain ⟨fuel, r, j, hrun⟩ := run_printing callee _ h config input hroom hflush
    exact ⟨_, fuel, r, j, hparse, hrun⟩
  have hquoted := hused.quoted (quoted_new p config input sink)
  have hliteral : ∀ s scope d l, State.Reaches i.config.maxCallDepth i.start s →
      s.control = .eval scope (.integer d l) →
      isNumeral d ∧ Program.Placed text file ⟨.integer d, l⟩ := by
    intro s scope d l hs hc
    have hnodes := (hs.quotes hquoted.start).control
    rw [hc] at hnodes
    exact Program.literal_placed hparse (hnodes _ List.mem_cons_self)
  refine ⟨fun s scope d l hs hc => ?_, fun fuel e j d hrun he => ?_⟩
  · obtain ⟨h, hplaced⟩ := hliteral s scope d l hs hc
    exact ⟨h, hplaced, evaluates_literal hs hc h⟩
  · obtain ⟨s, scope, l, hs, hc, hl, hnone⟩ := exists_literal hrun he
    refine ⟨s, scope, l, hs, hc, hl, ?_⟩
    obtain ⟨h, -⟩ := hliteral s scope d l hs hc
    refine Nat.lt_of_not_le fun hle => ?_
    obtain ⟨k, -, hsome⟩ := int64?_of_le h hle
    cases hnone.symm.trans hsome

/-- Zeros in front are not written again, and one more than the greatest integer fails in its
place. -/
theorem literals_mean_their_value_at_bounds :
    (∃ p fuel r j, Program.parse ("println(" ++ "00042" ++ ");") "f" = .ok p ∧
      (new p ⟨true, 1⟩ ⟨[], [], none⟩ .unlimited).run fuel = some (r, j) ∧ r = .ok (.int 0) ∧
      j.world.written = utf8 "42\n") ∧
    ∃ p fuel r j, Program.parse ("println(" ++ "09223372036854775808" ++ ");") "f" = .ok p ∧
      (new p ⟨true, 1⟩ ⟨[], [], none⟩ .unlimited).run fuel = some (r, j) ∧
      r = .error ⟨.integerLiteral "09223372036854775808", some ⟨"f", 1, 9, ⟨8, 28⟩⟩⟩ ∧
      j.world.written = [] := by
  obtain ⟨hprints, -⟩ := literals_mean_their_value
  constructor
  · obtain ⟨p, fuel, r, j, hparse, hrun, hfits, -⟩ :=
      hprints "00042" "f" ⟨true, 1⟩ ⟨[], [], none⟩ .unlimited (by decide) rfl rfl
    obtain ⟨hr, hwritten⟩ := hfits (by decide)
    exact ⟨p, fuel, r, j, hparse, hrun, hr, hwritten⟩
  · obtain ⟨p, fuel, r, j, hparse, hrun, -, hfails⟩ :=
      hprints "09223372036854775808" "f" ⟨true, 1⟩ ⟨[], [], none⟩ .unlimited (by decide) rfl rfl
    obtain ⟨hr, hwritten⟩ := hfails (by decide)
    exact ⟨p, fuel, r, j, hparse, hrun, hr, hwritten⟩

end Interpreter

end Scriptlet
