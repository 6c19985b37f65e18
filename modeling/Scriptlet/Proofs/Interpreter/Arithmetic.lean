import Mathlib.Data.Int.ModEq
import Scriptlet.Proofs.Machine.Answers
import Scriptlet.Proofs.Text.Decimal

/-!
Integer arithmetic against the integers themselves. Sums, differences and products may overflow on
the way and their value is still right modulo 2^64. A quotient is not kept by congruence, so with
division the comparison is with integers that are reduced after every step.
-/

namespace Scriptlet

variable {α : Type}

namespace BinaryOp

/-- The result over the integers; a quotient is truncated toward zero. -/
def result? : BinaryOp → Int → Int → Option Int
  | .add, a, b => some (a + b)
  | .sub, a, b => some (a - b)
  | .mul, a, b => some (a * b)
  | .div, a, b => if b = 0 then none else some (a.tdiv b)
  | _, _, _ => none

variable {op : BinaryOp} {a b a' b' : Int}

theorem eq_of_mem (hop : op ∈ [.add, .sub, .mul, .div]) :
    op = .add ∨ op = .sub ∨ op = .mul ∨ op = .div := by simpa using hop

theorem compute?_eq (hop : op ∈ [.add, .sub, .mul, .div]) (a b : Int64) :
    op.compute? a b = (op.result? a.toInt b.toInt).map Int64.ofInt := by
  have hzero : b.toInt = 0 ↔ b = 0 := by rw [← Int64.toInt_inj, Int64.toInt_zero]
  obtain rfl | rfl | rfl | rfl := eq_of_mem hop
  · simp [compute?, result?]
  · simp [compute?, result?]
  · simp [compute?, result?]
  · by_cases hb : b = 0
    · simp [compute?, result?, hb]
    · simp [compute?, result?, hb, hzero, ← Int64.toInt_inj, Int64.toInt_div]

theorem shortcut?_eq_none (hop : op ∈ [.add, .sub, .mul, .div]) (a : Int64) :
    op.shortcut? a = none := by
  obtain rfl | rfl | rfl | rfl := eq_of_mem hop
  all_goals rfl

theorem result?_eq_none (hop : op ∈ [.add, .sub, .mul, .div]) :
    op.result? a b = none ↔ op = .div ∧ b = 0 := by
  obtain rfl | rfl | rfl | rfl := eq_of_mem hop
  all_goals simp [result?]

theorem result?_modEq {m : Int} (hop : op ∈ [.add, .sub, .mul]) (ha : a ≡ a' [ZMOD m])
    (hb : b ≡ b' [ZMOD m]) :
    ∃ n n', op.result? a b = some n ∧ op.result? a' b' = some n' ∧ n ≡ n' [ZMOD m] := by
  obtain rfl | rfl | rfl : op = .add ∨ op = .sub ∨ op = .mul := by simpa using hop
  · exact ⟨_, _, rfl, rfl, ha.add hb⟩
  · exact ⟨_, _, rfl, rfl, ha.sub hb⟩
  · exact ⟨_, _, rfl, rfl, ha.mul hb⟩

end BinaryOp

namespace Expr

/-- Literals in range and variables with the integers `vals` for values, joined by `ops`. -/
inductive Arithmetic (σ : Scopes) (scope : Nat) (vals : String → Int64) (ops : List BinaryOp) :
    Expr α → Prop
  | literal {text : String} {i : Int64} (h : Decimal.Numeral text.toList i.toInt) (l : α) :
    Arithmetic σ scope vals ops (.integer text l)
  | reference {id : Identifier α} (h : σ.lookup scope id.name = some (.int (vals id.name))) :
    Arithmetic σ scope vals ops (.reference id)
  | binary {op : BinaryOp} {left right : Expr α} (hop : op ∈ ops)
    (hleft : Arithmetic σ scope vals ops left) (hright : Arithmetic σ scope vals ops right)
    (l : α) : Arithmetic σ scope vals ops (.binary op left right l)

/-- The value over the integers. -/
def exactly (vals : String → Int64) : Expr α → Int
  | .integer text _ => (Decimal.int? text.toList).getD 0
  | .reference id => (vals id.name).toInt
  | .binary op left right _ => (op.result? (left.exactly vals) (right.exactly vals)).getD 0
  | _ => 0

/-- The value if every result is reduced to 64 bits, or the first operator without a result. -/
def stepwise (vals : String → Int64) : Expr α → Except α Int
  | .integer text _ => .ok ((Decimal.int? text.toList).getD 0)
  | .reference id => .ok (vals id.name).toInt
  | .binary op left right l => do
    let a ← left.stepwise vals
    let b ← right.stepwise vals
    match op.result? a b with
    | some n => .ok (n.bmod (2 ^ 64))
    | none => .error l
  | _ => .ok 0

/-- The subexpressions in the order in which their values are found. -/
def stages : Expr α → List (Expr α)
  | .binary op left right l => left.stages ++ right.stages ++ [.binary op left right l]
  | e => [e]

/-- The first quotient with a divisor of zero is the one at `l`. -/
def FirstZeroDivisor (vals : String → Int64) (e : Expr α) (l : α) : Prop :=
  ∃ before left right after, e.stages = before ++ .binary .div left right l :: after ∧
    right.stepwise vals = .ok 0 ∧ ∀ d ∈ before, ∃ n, d.stepwise vals = .ok n

variable {σ : Scopes} {scope : Nat} {vals : String → Int64} {ops : List BinaryOp}
  {e left right : Expr α} {op : BinaryOp} {l l' : α} {n : Int}

theorem Arithmetic.mono {ops' : List BinaryOp} (h : e.Arithmetic σ scope vals ops)
    (hops : ops ⊆ ops') : e.Arithmetic σ scope vals ops' := by
  induction h with
  | literal h l => exact .literal h l
  | reference h => exact .reference h
  | binary hop _ _ l ihleft ihright => exact .binary (hops hop) ihleft ihright l

theorem stepwise_literal {text : String} {i : Int64} (h : Decimal.Numeral text.toList i.toInt) :
    stepwise vals (.integer text l) = .ok i.toInt := by
  simp only [stepwise, Decimal.int?_eq_some.mpr h, Option.getD_some]

theorem stepwise_binary_eq_ok : stepwise vals (.binary op left right l) = .ok n ↔
    ∃ a b m, left.stepwise vals = .ok a ∧ right.stepwise vals = .ok b ∧
      op.result? a b = some m ∧ m.bmod (2 ^ 64) = n := by
  simp only [stepwise, bind, Except.bind]
  cases left.stepwise vals with
  | error l₁ => simp
  | ok a =>
    cases right.stepwise vals with
    | error l₁ => simp
    | ok b => cases hm : op.result? a b <;> simp [hm]

theorem stepwise_binary_eq_error : stepwise vals (.binary op left right l) = .error l' ↔
    left.stepwise vals = .error l' ∨
    (∃ a, left.stepwise vals = .ok a ∧ right.stepwise vals = .error l') ∨
    ∃ a b, left.stepwise vals = .ok a ∧ right.stepwise vals = .ok b ∧ op.result? a b = none ∧
      l = l' := by
  simp only [stepwise, bind, Except.bind]
  cases left.stepwise vals with
  | error l₁ => simp
  | ok a =>
    cases right.stepwise vals with
    | error l₁ => simp
    | ok b => cases hm : op.result? a b <;> simp [hm]

/-- What comes out of every step is in the range of a 64-bit integer. -/
theorem Arithmetic.toInt_ofInt_eq (h : e.Arithmetic σ scope vals ops)
    (hn : e.stepwise vals = .ok n) : (Int64.ofInt n).toInt = n := by
  cases h with
  | literal h l =>
    rw [stepwise_literal h] at hn
    cases hn
    rw [Int64.ofInt_toInt]
  | reference _ =>
    cases hn
    rw [Int64.ofInt_toInt]
  | binary _ _ _ l =>
    obtain ⟨a, b, m, -, -, -, rfl⟩ := stepwise_binary_eq_ok.mp hn
    rw [Int64.toInt_ofInt]
    exact Int.bmod_bmod

theorem Arithmetic.exists_stepwise_modEq (h : e.Arithmetic σ scope vals [.add, .sub, .mul]) :
    ∃ n, e.stepwise vals = .ok n ∧ n ≡ e.exactly vals [ZMOD 2 ^ 64] := by
  induction h with
  | literal h l => exact ⟨_, rfl, rfl⟩
  | reference _ => exact ⟨_, rfl, rfl⟩
  | @binary op left right hop _ _ l ihleft ihright =>
    obtain ⟨a, hleft, ha⟩ := ihleft
    obtain ⟨b, hright, hb⟩ := ihright
    obtain ⟨m, m', hm, hm', hmod⟩ := BinaryOp.result?_modEq hop ha hb
    refine ⟨m.bmod (2 ^ 64), stepwise_binary_eq_ok.mpr ⟨a, b, m, hleft, hright, hm, rfl⟩, ?_⟩
    have hexact : exactly vals (.binary op left right l) = m' := by
      rw [exactly, hm', Option.getD_some]
    rw [hexact]
    exact Int.ModEq.trans Int.bmod_emod hmod

/-! ### The first zero divisor -/

theorem stepwise_ne_ok_of_zero_divisor (hright : right.stepwise vals = .ok 0) :
    stepwise vals (.binary .div left right l) ≠ .ok n := by
  intro hn
  obtain ⟨a, b, m, -, hb, hm, -⟩ := stepwise_binary_eq_ok.mp hn
  obtain rfl : b = 0 := by simpa [hright] using hb.symm
  simp [BinaryOp.result?] at hm

theorem Arithmetic.stages_ok (h : e.Arithmetic σ scope vals ops) (hn : e.stepwise vals = .ok n) :
    ∀ d ∈ e.stages, ∃ m, d.stepwise vals = .ok m := by
  induction h generalizing n with
  | literal h l => simpa [stages] using ⟨n, hn⟩
  | reference _ => simpa [stages] using ⟨n, hn⟩
  | binary _ _ _ l ihleft ihright =>
    obtain ⟨a, b, m, ha, hb, -, -⟩ := stepwise_binary_eq_ok.mp hn
    simp only [stages, List.forall_mem_append, List.forall_mem_singleton]
    exact ⟨⟨ihleft ha, ihright hb⟩, n, hn⟩

theorem Arithmetic.firstZeroDivisor_of_error
    (h : e.Arithmetic σ scope vals [.add, .sub, .mul, .div])
    (hl : e.stepwise vals = .error l) : e.FirstZeroDivisor vals l := by
  induction h with
  | literal h _ => cases hl
  | reference _ => cases hl
  | @binary op left right hop h₁ h₂ l' ihleft ihright =>
    obtain hleft | ⟨a, hleft, hright⟩ | ⟨a, b, hleft, hright, hnone, rfl⟩ :=
      stepwise_binary_eq_error.mp hl
    · obtain ⟨before, x, y, after, hstages, hy, hbefore⟩ := ihleft hleft
      refine ⟨before, x, y, after ++ right.stages ++ [.binary op left right l'], ?_, hy, hbefore⟩
      simp [stages, hstages]
    · obtain ⟨before, x, y, after, hstages, hy, hbefore⟩ := ihright hright
      refine ⟨left.stages ++ before, x, y, after ++ [.binary op left right l'], ?_, hy, ?_⟩
      · simp [stages, hstages]
      · exact List.forall_mem_append.mpr ⟨h₁.stages_ok hleft, hbefore⟩
    · obtain ⟨rfl, rfl⟩ := (BinaryOp.result?_eq_none hop).mp hnone
      refine ⟨left.stages ++ right.stages, left, right, [], rfl, hright, ?_⟩
      exact List.forall_mem_append.mpr ⟨h₁.stages_ok hleft, h₂.stages_ok hright⟩

/-- There is at most one first place. -/
theorem FirstZeroDivisor.unique (h : e.FirstZeroDivisor vals l) (h' : e.FirstZeroDivisor vals l') :
    l = l' := by
  have hfind : ∀ {l}, e.FirstZeroDivisor vals l → ∃ left right : Expr α,
      e.stages.find? (fun d => (d.stepwise vals).isOk = false) =
        some (.binary .div left right l) := by
    rintro l ⟨before, left, right, after, hstages, hright, hbefore⟩
    refine ⟨left, right, List.find?_eq_some_iff_append.mpr ⟨?_, before, after, hstages, ?_⟩⟩
    · cases hn : stepwise vals (.binary .div left right l) with
      | error l => rfl
      | ok n => exact absurd hn (stepwise_ne_ok_of_zero_divisor hright)
    · intro d hd
      obtain ⟨n, hn⟩ := hbefore d hd
      simp [hn, Except.isOk, Except.toBool]
  obtain ⟨left, right, h⟩ := hfind h
  obtain ⟨left', right', h'⟩ := hfind h'
  cases h.symm.trans h'
  rfl

theorem Arithmetic.stepwise_eq_error_iff
    (h : e.Arithmetic σ scope vals [.add, .sub, .mul, .div]) :
    e.stepwise vals = .error l ↔ e.FirstZeroDivisor vals l := by
  refine ⟨h.firstZeroDivisor_of_error, fun hl => ?_⟩
  cases hr : e.stepwise vals with
  | error l' => rw [hl.unique (h.firstZeroDivisor_of_error hr)]
  | ok n =>
    obtain ⟨before, left, right, after, hstages, hright, -⟩ := hl
    obtain ⟨m, hm⟩ := h.stages_ok hr (.binary .div left right l) (by simp [hstages])
    exact absurd hm (stepwise_ne_ok_of_zero_divisor hright)

end Expr

namespace State

variable {limit : Nat} {s u v : State α}

/-- The state in which a value, or a zero divisor and its place, has been found. -/
def found (s : State α) : Except α Int → State α
  | .ok n => s.give (.int (Int64.ofInt n))
  | .error l => s.failAt l .divisionByZero

theorem found_answersTo (r : Except α Int) : (s.found r).AnswersTo s.stack := by
  cases r with
  | ok n => exact ⟨rfl, trivial⟩
  | error l => exact ⟨rfl, trivial⟩

theorem firstAnswer_await_iff {f : Frame α} {c : Control α}
    (hc : ∀ v', Exit limit (s.await f c) v' ↔ v' = v) :
    FirstAnswer limit s.stack (s.await f c) u ↔ FirstAnswer limit s.stack v u := by
  have hstack : (s.await f c).stack = f :: s.stack := rfl
  rw [FirstAnswer.split (k := (s.await f c).stack) (List.suffix_refl _)
    (hstack ▸ List.suffix_cons f s.stack)]
  constructor
  · rintro ⟨v', hv', hu⟩
    rw [← exit_iff_firstAnswer, hc] at hv'
    exact hv' ▸ hu
  · exact fun hu => ⟨v, exit_iff_firstAnswer.mp ((hc v).mpr rfl), hu⟩

theorem firstAnswer_found_error_iff {f : Frame α} (hf : f.closes = []) (hheld : f.held = [])
    (l : α) : FirstAnswer limit s.stack ((s.pushFrame f).found (.error l)) u ↔
      u = s.found (.error l) := by
  have hpass : Leads limit s.stack ((s.pushFrame f).found (.error l)) (s.found (.error l)) :=
    leads_fail (Nat.le_refl _) hf hheld
  rw [hpass.firstAnswer_iff]
  exact FirstAnswer.iff_eq (found_answersTo _)

variable {scope : Nat} {vals : String → Int64} {e : Expr α}

theorem exit_eval_iff (h : e.Arithmetic s.scopes scope vals [.add, .sub, .mul, .div]) :
    Exit limit (s.become (.eval scope e)) u ↔ u = s.found (e.stepwise vals) := by
  -- An operand is evaluated below a frame of its own, so the induction is over all such states.
  generalize hσ : s.scopes = σ at h
  induction h generalizing s u with
  | @literal text i h l =>
    refine exit_iff_of_step id ?_ (found_answersTo _)
    have hi := Decimal.int64?_eq_some.mpr h
    rw [Expr.stepwise_literal h, found, Int64.ofInt_toInt]
    simp only [step, become, eval, hi]
    rfl
  | @reference id h =>
    refine exit_iff_of_step (fun h => h) ?_ (found_answersTo _)
    subst hσ
    simp only [Expr.stepwise, found, Int64.ofInt_toInt]
    simp only [step, become, eval, h]
    rfl
  | @binary op left right hop h₁ h₂ l ihleft ihright =>
    have hbegin : step limit (s.become (.eval scope (.binary op left right l))) =
        s.await (.leftOperand scope op right l) (.eval scope left) := rfl
    have hopen : ¬ (s.become (.eval scope (.binary op left right l))).AnswersTo s.stack :=
      fun h => h.2
    rw [exit_iff_firstAnswer]
    change FirstAnswer limit s.stack _ u ↔ _
    rw [FirstAnswer.iff_step hopen, hbegin,
      firstAnswer_await_iff fun v => ihleft (s := s.pushFrame _) hσ]
    cases hleft : left.stepwise vals with
    | error l₁ =>
      rw [Expr.stepwise_binary_eq_error.mpr (.inl hleft)]
      exact firstAnswer_found_error_iff rfl rfl l₁
    | ok a =>
      have hnext : step limit ((s.pushFrame (.leftOperand scope op right l)).found (.ok a)) =
          s.await (.rightOperand op (Int64.ofInt a) l) (.eval scope right) := by
        have hboth := BinaryOp.shortcut?_eq_none hop (Int64.ofInt a)
        simp only [step, found, give, pushFrame, become, resume, hboth]
        rfl
      rw [FirstAnswer.iff_step_of_lt (Nat.lt_succ_self _), hnext,
        firstAnswer_await_iff fun v => ihright (s := s.pushFrame _) hσ]
      cases hright : right.stepwise vals with
      | error l₁ =>
        rw [Expr.stepwise_binary_eq_error.mpr (.inr (.inl ⟨a, hleft, hright⟩))]
        exact firstAnswer_found_error_iff rfl rfl l₁
      | ok b =>
        have hlast : step limit
            ((s.pushFrame (.rightOperand op (Int64.ofInt a) l)).found (.ok b)) =
            s.found (Expr.stepwise vals (.binary op left right l)) := by
          have hresult := BinaryOp.compute?_eq hop (Int64.ofInt a) (Int64.ofInt b)
          rw [h₁.toInt_ofInt_eq hleft, h₂.toInt_ofInt_eq hright] at hresult
          simp only [step, found, give, pushFrame, become, resume, hresult]
          cases hm : op.result? a b with
          | none =>
            rw [Expr.stepwise_binary_eq_error.mpr
              (.inr (.inr ⟨a, b, hleft, hright, hm, rfl⟩))]
            rfl
          | some m =>
            have hreduced : Int64.ofInt (m.bmod (2 ^ 64)) = Int64.ofInt m := by
              simp [← Int64.toInt_inj]
            rw [Expr.stepwise_binary_eq_ok.mpr ⟨a, b, m, hleft, hright, hm, rfl⟩]
            simp only [Option.map_some, hreduced]
        rw [FirstAnswer.iff_step_of_lt (Nat.lt_succ_self _), hlast]
        exact FirstAnswer.iff_eq (found_answersTo _)

theorem toInt_modEq_iff {i j : Int64} {n : Int} (hi : i.toInt ≡ n [ZMOD 2 ^ 64]) :
    j.toInt ≡ n [ZMOD 2 ^ 64] ↔ j = i := by
  refine ⟨fun hj => ?_, fun hj => hj ▸ hi⟩
  have hmod : j.toInt % 2 ^ 64 = i.toInt % 2 ^ 64 := hj.trans hi.symm
  have := i.le_toInt
  have := i.toInt_lt
  have := j.le_toInt
  have := j.toInt_lt
  exact Int64.toInt_inj.mp (by omega)

/-- Evaluating `e` comes to an end, and it ends in the state `v`. -/
def EvaluatesTo (s : State α) (limit : Nat) (scope : Nat) (e : Expr α) (v : State α) : Prop :=
  ∀ u, Exit limit (s.become (.eval scope e)) u ↔ u = v

/-- Sums, differences and products of any shape have the value of the integers modulo 2^64. With
quotients, the value is that of the integers reduced after every step, and the first zero divisor
in the order of evaluation is reported where its operator stands. -/
theorem integer_arithmetic (limit : Nat) (s : State α) (scope : Nat) (vals : String → Int64)
    (e : Expr α) :
    (e.Arithmetic s.scopes scope vals [.add, .sub, .mul] →
      ∃ i : Int64, s.EvaluatesTo limit scope e (s.give (.int i)) ∧
        ∀ j : Int64, j.toInt ≡ e.exactly vals [ZMOD 2 ^ 64] ↔ j = i) ∧
    (e.Arithmetic s.scopes scope vals [.add, .sub, .mul, .div] →
      (∀ n, e.stepwise vals = .ok n →
        ∃ i : Int64, i.toInt = n ∧ s.EvaluatesTo limit scope e (s.give (.int i))) ∧
      (∀ l, e.stepwise vals = .error l ↔ e.FirstZeroDivisor vals l) ∧
      (∀ l, e.FirstZeroDivisor vals l ↔
        s.EvaluatesTo limit scope e (s.failAt l .divisionByZero)) ∧
      ∀ left right l, e = .binary .div left right l →
        left.stepwise vals = .ok Int64.minValue.toInt → right.stepwise vals = .ok (-1) →
        s.EvaluatesTo limit scope e (s.give (.int Int64.minValue))) := by
  have hvalue : ∀ n, e.Arithmetic s.scopes scope vals [.add, .sub, .mul, .div] →
      e.stepwise vals = .ok n → s.EvaluatesTo limit scope e (s.give (.int (Int64.ofInt n))) := by
    intro n h hn u
    rw [exit_eval_iff h, hn]
    rfl
  refine ⟨fun h => ?_, fun h => ⟨fun n hn => ?_, fun l => h.stepwise_eq_error_iff, fun l => ?_, ?_⟩⟩
  · have hall : e.Arithmetic s.scopes scope vals [.add, .sub, .mul, .div] := h.mono (by simp)
    obtain ⟨n, hn, hmod⟩ := h.exists_stepwise_modEq
    refine ⟨Int64.ofInt n, hvalue n hall hn, fun j => toInt_modEq_iff ?_⟩
    rw [hall.toInt_ofInt_eq hn]
    exact hmod
  · exact ⟨Int64.ofInt n, h.toInt_ofInt_eq hn, hvalue n h hn⟩
  · rw [← h.stepwise_eq_error_iff]
    constructor
    · intro hl u
      rw [exit_eval_iff h, hl]
      rfl
    · intro hl
      have hfound : s.found (e.stepwise vals) = s.failAt l .divisionByZero :=
        (hl _).mp ((exit_eval_iff h).mpr rfl)
      cases hr : e.stepwise vals with
      | ok n =>
        rw [hr] at hfound
        cases congrArg State.control hfound
      | error l' =>
        rw [hr] at hfound
        cases congrArg State.control hfound
        rfl
  · rintro left right l rfl hleft hright
    refine hvalue Int64.minValue.toInt h (Expr.stepwise_binary_eq_ok.mpr ?_)
    exact ⟨_, _, _, hleft, hright, rfl, by decide⟩

/-- Where `x` is the greatest integer, `x * x + x` is near 2^126 and comes out as the least one,
which divided by -1 stays what it is. Of the two zero divisors in `1 / (x - x) + 1 / 0` the left
one is met first. -/
theorem arithmetic_at_the_limits :
    let s : State Nat := ⟨.block 0 [] (.int 0), [],
      (Scopes.initial.bind 0 "x" (.int Int64.maxValue)).1, 0, ⟨.empty, ⟨[], [], none⟩, .unlimited⟩⟩
    let x : Expr Nat := .reference ⟨"x", 0⟩
    let near : Expr Nat := .binary .add (.binary .mul x x 1) x 2
    let quotient : Expr Nat :=
      .binary .div near (.binary .sub (.integer "0" 3) (.integer "1" 4) 5) 6
    let zeros : Expr Nat :=
      .binary .add (.binary .div (.integer "1" 3) (.binary .sub x x 4) 5)
        (.binary .div (.integer "1" 6) (.integer "0" 7) 8) 9
    s.EvaluatesTo 10 0 near (s.give (.int Int64.minValue)) ∧
      s.EvaluatesTo 10 0 quotient (s.give (.int Int64.minValue)) ∧
      s.EvaluatesTo 10 0 zeros (s.failAt 5 .divisionByZero) := by
  intro s x near quotient zeros
  have hx : ∀ ops, x.Arithmetic s.scopes 0 (fun _ => Int64.maxValue) ops :=
    fun _ => .reference (by decide +kernel)
  have hzero : Decimal.Numeral "0".toList (0 : Int64).toInt :=
    Decimal.int64?_eq_some.mp (by decide +kernel)
  have hone : Decimal.Numeral "1".toList (1 : Int64).toInt :=
    Decimal.int64?_eq_some.mp (by decide +kernel)
  have hnear : near.Arithmetic s.scopes 0 (fun _ => Int64.maxValue) [.add, .sub, .mul] :=
    .binary (by simp) (.binary (by simp) (hx _) (hx _) 1) (hx _) 2
  have hquotient : quotient.Arithmetic s.scopes 0 (fun _ => Int64.maxValue)
      [.add, .sub, .mul, .div] :=
    .binary (by simp) (hnear.mono (by simp))
      (.binary (by simp) (.literal hzero 3) (.literal hone 4) 5) 6
  have hzeros : zeros.Arithmetic s.scopes 0 (fun _ => Int64.maxValue) [.add, .sub, .mul, .div] :=
    .binary (by simp) (.binary (by simp) (.literal hone 3) (.binary (by simp) (hx _) (hx _) 4) 5)
      (.binary (by simp) (.literal hone 6) (.literal hzero 7) 8) 9
  refine ⟨?_, ?_, ?_⟩
  · obtain ⟨i, hi, hmod⟩ := (integer_arithmetic 10 s 0 _ near).1 hnear
    have hleast : Int64.minValue = i := (hmod Int64.minValue).mp (by decide +kernel)
    exact hleast ▸ hi
  · obtain ⟨-, -, -, hdivided⟩ := (integer_arithmetic 10 s 0 _ quotient).2 hquotient
    exact hdivided _ _ _ rfl (by decide +kernel) (by decide +kernel)
  · obtain ⟨-, hfirst, hfails, -⟩ := (integer_arithmetic 10 s 0 _ zeros).2 hzeros
    exact (hfails 5).mp ((hfirst 5).mp (by decide +kernel))

end State

end Scriptlet
