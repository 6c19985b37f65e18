import Scriptlet.Proofs.Interpreter.Sessions
import Scriptlet.Proofs.Machine.Padding

/-!
A loop and its first turn written out. The two open different scopes: the loop has one for its
condition, and what is written out has one around the body and the rest of the loop. All these are
empty, so it comes to the same.
-/

namespace Scriptlet

variable {α : Type}

namespace State

variable {limit : Nat} {s t u : State α} {k : List (Frame α)} {scope : Nat} {cond : Expr α}
  {body : List (Stmt α)} {v : Value} {e : EvalError α} {σ σ' : Scopes} {n : Nat} {w : World α}

/-! ### The value of a loop -/

/-- Where a run can be from the beginning of a loop to its answer for the frames `k`. -/
inductive Looping (k : List (Frame α)) (s : State α) : Prop
  | begins (scope : Nat) (cond : Expr α) (body : List (Stmt α)) (hk : s.stack = k)
    (hc : s.control = .loop scope cond body)
  | tests (scope : Nat) (cond : Expr α) (body : List (Stmt α))
    (hk : .test scope cond body :: k <:+ s.stack)
  | turns (scope : Nat) (cond : Expr α) (body : List (Stmt α))
    (hk : .again scope cond body :: k <:+ s.stack)
  | ends (hk : s.stack = k) (hc : s.control = .give (.int 0) ∨ ∃ e, s.control = .fail e)

theorem looping_tested (hs : s.AnswersTo (.test scope cond body :: k)) :
    (s.step limit).Looping k := by
  obtain ⟨control, stack, scopes, depth, world⟩ := s
  obtain ⟨hk, ha⟩ := hs
  obtain rfl : stack = _ := hk
  cases control with
  | give v =>
    cases v with
    | int i =>
      simp only [step, resume]
      split
      · exact .turns scope cond body (List.suffix_cons _ _)
      · exact .ends rfl (.inl rfl)
    | _ => exact .ends rfl (.inr ⟨_, rfl⟩)
  | fail e => exact .ends rfl (.inr ⟨e, rfl⟩)
  | _ => exact ha.elim

theorem looping_turned (hs : s.AnswersTo (.again scope cond body :: k)) :
    (s.step limit).Looping k := by
  obtain ⟨control, stack, scopes, depth, world⟩ := s
  obtain ⟨hk, ha⟩ := hs
  obtain rfl : stack = _ := hk
  cases control with
  | give v => exact .begins scope cond body rfl rfl
  | fail e => exact .ends rfl (.inr ⟨e, rfl⟩)
  | _ => exact ha.elim

theorem Looping.step (h : s.Looping k) (hout : ¬ s.AnswersTo k) : (s.step limit).Looping k := by
  cases h with
  | begins scope cond body hk hc =>
    obtain ⟨control, stack, scopes, depth, world⟩ := s
    obtain rfl : stack = k := hk
    obtain rfl : control = .loop scope cond body := hc
    exact .tests scope cond body (List.suffix_cons _ _)
  | tests scope cond body hk =>
    by_cases hyes : s.AnswersTo (.test scope cond body :: k)
    · exact looping_tested hyes
    · exact .tests scope cond body (suffix_step hk fun hstack ha => hyes ⟨hstack, ha⟩)
  | turns scope cond body hk =>
    by_cases hyes : s.AnswersTo (.again scope cond body :: k)
    · exact looping_turned hyes
    · exact .turns scope cond body (suffix_step hk fun hstack ha => hyes ⟨hstack, ha⟩)
  | ends hk hc =>
    refine absurd ⟨hk, ?_⟩ hout
    rcases hc with hc | ⟨e, hc⟩
    · rw [hc]
      trivial
    · rw [hc]
      trivial

/-- A loop that ends without failure has the value 0. -/
theorem FirstAnswer.of_looping (h : FirstAnswer limit k s u) (hs : s.Looping k) :
    u.control = .give (.int 0) ∨ ∃ e, u.control = .fail e := by
  induction h with
  | here hyes =>
    -- No other frame waits above `k`, so neither a test nor a turn is going on.
    cases hs with
    | begins scope cond body hk hc =>
      have ha := hyes.2
      rw [hc] at ha
      exact ha.elim
    | tests scope cond body hk =>
      have hlength := hk.length_le
      rw [hyes.1, List.length_cons] at hlength
      omega
    | turns scope cond body hk =>
      have hlength := hk.length_le
      rw [hyes.1, List.length_cons] at hlength
      omega
    | ends hk hc => exact hc
  | later hno _ ih => exact ih (hs.step hno)

/-! ### The steps around the body -/

/-- The first turn of a loop, and the loop. -/
def firstTurn (cond : Expr α) (body : List (Stmt α)) (l₁ l₂ l₃ : α) : List (Stmt α) :=
  [.branch (.integer "1" l₁) body none l₂, .loop cond body l₃]

theorem step_block (d : Nat) (st : Stmt α) (rest : List (Stmt α)) (i : Int64) :
    step limit ⟨.block d (st :: rest) (.int i), k, σ, n, w⟩ =
      ⟨.exec d st, .next d rest :: k, σ, n, w⟩ := by
  simp only [step, release_int]
  rfl

theorem step_branch {i : Int64} (hi : i ≠ 0) (d : Nat) (l : α) (ss : List (Stmt α))
    (elseBlock : Option (List (Stmt α))) :
    step limit ⟨.give (.int i), .branch d l ss elseBlock :: k, σ, n, w⟩ =
      enter ⟨.give (.int i), .discard :: k, σ, n, w⟩ d (.block · ss (.int 0)) := if_pos hi

theorem leads_branch_one {k' : List (Frame α)} (hk : k'.length < k.length) (d : Nat) (l₁ l₂ : α) :
    Leads limit k' ⟨.exec d (.branch (.integer "1" l₁) body none l₂), k, σ, n, w⟩
      (enter ⟨.give (.int 1), .discard :: k, σ, n, w⟩ d (.block · body (.int 0))) := by
  have hbranch : step limit ⟨.exec d (.branch (.integer "1" l₁) body none l₂), k, σ, n, w⟩ =
      ⟨.eval d (.integer "1" l₁), .branch d l₁ body none :: k, σ, n, w⟩ := rfl
  have hone : Decimal.int64? "1".toList = some 1 := by decide +kernel
  have hliteral : step limit ⟨.eval d (.integer "1" l₁), .branch d l₁ body none :: k, σ, n, w⟩ =
      ⟨.give (.int 1), .branch d l₁ body none :: k, σ, n, w⟩ := by
    simp only [step, eval, hone]
    rfl
  have hk' : k'.length < k.length + 1 := Nat.lt_succ_of_lt hk
  exact .step hk hbranch (.step hk' hliteral (.step hk' (step_branch (by decide) ..) (.refl _)))

/-- Where the condition holds, what is written out comes to its body. -/
theorem leads_to_body (k : List (Frame α)) {i : Int64} (hi : i ≠ 0) (l l₁ l₂ l₃ : α) :
    Leads limit k
      ⟨.give (.int i), .branch scope l (firstTurn cond body l₁ l₂ l₃) none :: k, σ, n, w⟩
      (enter ⟨.give (.int 1), .discard :: .next σ.depth [.loop cond body l₃] :: .leave σ.depth ::
        .discard :: k, (σ.push scope).2, n, w⟩ σ.depth (.block · body (.int 0))) := by
  refine .step (by simp) (step_branch hi ..) (.step (by simp +arith) (step_block ..) ?_)
  exact leads_branch_one (by simp +arith) _ _ _

/-- After the body, it comes to the loop. -/
theorem leads_to_loop {k' : List (Frame α)} (hk : k'.length < k.length) (d : Nat) (l₃ : α) :
    Leads limit k' ⟨.give v, .discard :: .next d [.loop cond body l₃] :: k, σ, n, w⟩
      ((release ⟨.give v, .next d [] :: k, σ, n, w⟩ v).become (.loop d cond body)) := by
  have hdiscard : step limit ⟨.give v, .discard :: .next d [.loop cond body l₃] :: k, σ, n, w⟩ =
      (release ⟨.give v, .next d [.loop cond body l₃] :: k, σ, n, w⟩ v).give (.int 0) := rfl
  have hnext : ∀ w, step limit ⟨.give (.int 0), .next d [.loop cond body l₃] :: k, σ, n, w⟩ =
      ⟨.block d [.loop cond body l₃] (.int 0), k, σ, n, w⟩ := fun _ => rfl
  have hloop : ∀ w, step limit ⟨.exec d (.loop cond body l₃), .next d [] :: k, σ, n, w⟩ =
      ⟨.loop d cond body, .next d [] :: k, σ, n, w⟩ := fun _ => rfl
  have hk' : k'.length < k.length + 1 := Nat.lt_succ_of_lt hk
  refine .step (Nat.lt_succ_of_lt hk') hdiscard (.step hk' (hnext _) ?_)
  exact .step hk (step_block ..) (.step hk' (hloop _) (.refl _))

/-! ### Beneath the empty scope -/

variable {P : Padding} {c : Control α}

/-- What waits above the frames `k` for the end of a block that is the empty scope. -/
@[reducible] def inside (P : Padding) (k : List (Frame α)) : List (Frame α) :=
  .leave P.place :: .discard :: k

theorem leads_out (h : Scopes.Padded P σ σ') (hs : Orderly limit ⟨c, inside P k, σ, n, w⟩)
    (hc : c = .give (.int 0) ∨ ∃ e, c = .fail e) :
    Leads limit k ⟨c, inside P k, σ, n, w⟩ ⟨c, k, σ', n, w⟩ := by
  rcases hc with rfl | ⟨e, rfl⟩
  · have hdiscard : step limit ⟨.give (.int 0), .discard :: k, σ', n, w⟩ =
        ⟨.give (.int 0), k, σ', n, w⟩ := by
      simp only [step, resume, release_int]
      rfl
    exact (leads_leave h hs trivial (by simp)).trans (.step (by simp) hdiscard (.refl _))
  · exact (leads_leave h hs trivial (by simp)).trans (leads_fail (Nat.le_refl _) rfl rfl)

theorem leads_out_of_loop (h : Scopes.Padded P σ σ')
    (hs : Orderly limit ⟨c, .next P.place [] :: inside P k, σ, n, w⟩)
    (hc : c = .give (.int 0) ∨ ∃ e, c = .fail e) :
    Leads limit k ⟨c, .next P.place [] :: inside P k, σ, n, w⟩ ⟨c, k, σ', n, w⟩ := by
  have hnext : Leads limit k ⟨c, .next P.place [] :: inside P k, σ, n, w⟩
      ⟨c, inside P k, σ, n, w⟩ := by
    rcases hc with rfl | ⟨e, rfl⟩
    · have hblock : step limit ⟨.give (.int 0), .next P.place [] :: inside P k, σ, n, w⟩ =
          ⟨.block P.place [] (.int 0), inside P k, σ, n, w⟩ := rfl
      exact .step (by simp +arith) hblock (.step (by simp +arith) rfl (.refl _))
    · exact leads_fail (by simp +arith) rfl rfl
  exact hnext.trans (leads_out h (hnext.orderly hs) hc)

theorem loop_beneath (h : Scopes.Padded P σ σ')
    (hs : Orderly limit ⟨.loop P.place cond body, .next P.place [] :: inside P k, σ, n, w⟩)
    (ht : Orderly limit ⟨.loop P.parent cond body, k, σ', n, w⟩) :
    FirstAnswer limit k ⟨.loop P.place cond body, .next P.place [] :: inside P k, σ, n, w⟩ u ↔
      FirstAnswer limit k ⟨.loop P.parent cond body, k, σ', n, w⟩ u := by
  have hmirrors : Mirrors P (.next P.place [] :: inside P k) k
      ⟨.loop P.place cond body, .next P.place [] :: inside P k, σ, n, w⟩
      ⟨.loop P.parent cond body, k, σ', n, w⟩ :=
    ⟨⟨h, .base, rfl, rfl⟩, congrArg (Control.loop · cond body) P.skip_place.symm⟩
  have hbelow : k <:+ .next P.place [] :: inside P k :=
    ⟨[.next P.place [], .leave P.place, .discard], rfl⟩
  refine (hmirrors.merged hs ht (.inr trivial)).firstAnswer_iff hbelow (List.suffix_refl k)
    fun v v' hv hv' hmerged => ?_
  have hzero := hv'.of_looping (.begins P.parent cond body rfl rfl)
  obtain ⟨c, ρ, ρ', m, w', -, hpadded, rfl, rfl⟩ := hmerged.answer hv.answersTo
  exact (leads_out_of_loop hpadded hmerged.left hzero).firstAnswer_iff

/-- The body in two scopes, of which the outer one stays empty, and then the loop in the outer one:
that is the body in one scope and then the loop. -/
theorem body_beneath (h : Scopes.Padded P σ σ') {x y : Control α} (l₃ : α)
    (hs : Settled limit
      ⟨x, .discard :: .next P.place [.loop cond body l₃] :: inside P k, σ, n, w⟩)
    (ht : Settled limit ⟨y, .again P.parent cond body :: k, σ', n, w⟩) :
    FirstAnswer limit k
      (enter ⟨x, .discard :: .next P.place [.loop cond body l₃] :: inside P k, σ, n, w⟩
        P.place (.block · body (.int 0))) u ↔
      FirstAnswer limit k
        (enter ⟨y, .again P.parent cond body :: k, σ', n, w⟩
          P.parent (.block · body (.int 0))) u := by
  have hskips : Skips P (.discard :: .next P.place [.loop cond body l₃] :: inside P k)
      (.again P.parent cond body :: k)
      ⟨x, .discard :: .next P.place [.loop cond body l₃] :: inside P k, σ, n, w⟩
      ⟨y, .again P.parent cond body :: k, σ', n, w⟩ := ⟨h, .base, rfl, rfl⟩
  have hbelow : k <:+ .discard :: .next P.place [.loop cond body l₃] :: inside P k :=
    ⟨[.discard, .next P.place [.loop cond body l₃], .leave P.place, .discard], rfl⟩
  refine (hskips.merged_block hs ht body).firstAnswer_iff hbelow (List.suffix_cons _ _)
    fun v v' hv _ hmerged => ?_
  obtain ⟨c, ρ, ρ', m, w', hc, hpadded, rfl, rfl⟩ := hmerged.answer hv.answersTo
  -- The loop comes next. In the empty scope it is the same as outside, but for closing that scope.
  cases c with
  | give v =>
    have hleft : Leads limit k
        ⟨.give v, .discard :: .next P.place [.loop cond body l₃] :: inside P k, ρ, m, w'⟩
        ((release ⟨.give v, .next P.place [] :: inside P k, ρ, m, w'⟩ v).become
          (.loop P.place cond body)) := leads_to_loop (by simp +arith) P.place l₃
    have hright : Leads limit k ⟨.give v, .again P.parent cond body :: k, ρ', m, w'⟩
        ((release ⟨.give v, k, ρ', m, w'⟩ v).become (.loop P.parent cond body)) :=
      .step (Nat.lt_succ_self _) rfl (.refl _)
    rw [hleft.firstAnswer_iff, hright.firstAnswer_iff]
    exact loop_beneath hpadded (hleft.orderly hmerged.left) (hright.orderly hmerged.right)
  | fail e =>
    have hleft : Leads limit k
        ⟨.fail e, .discard :: .next P.place [.loop cond body l₃] :: inside P k, ρ, m, w'⟩
        ⟨.fail e, inside P k, ρ, m, w'⟩ :=
      (leads_fail (by simp +arith) rfl rfl).trans (leads_fail (by simp +arith) rfl rfl)
    have hright : Leads limit k ⟨.fail e, .again P.parent cond body :: k, ρ', m, w'⟩
        ⟨.fail e, k, ρ', m, w'⟩ := leads_fail (Nat.le_refl _) rfl rfl
    have hout := leads_out hpadded (hleft.orderly hmerged.left) (.inr ⟨e, rfl⟩)
    rw [hleft.firstAnswer_iff, hright.firstAnswer_iff, hout.firstAnswer_iff]
  | _ => exact hc.elim

/-! ### The condition -/

theorem Settled.opened {x : Control α} (h : Settled limit ⟨x, k, σ, n, w⟩) (y : Control α)
    (hscope : scope < σ.depth) :
    Settled limit ⟨y, .leave σ.depth :: k, (σ.push scope).2, n, w⟩ := by
  have hentered := h.enter (c := fun _ => .give (.int 0)) hscope trivial
  exact ⟨hentered.scopes, hentered.fits, hentered.closed, hentered.calls⟩

theorem step_test {i : Int64} (hi : i ≠ 0) :
    step limit ⟨.give (.int i), .test scope cond body :: k, σ, n, w⟩ =
      enter ⟨.give (.int i), .again scope cond body :: k, σ, n, w⟩ scope
        (.block · body (.int 0)) := if_pos hi

/-- The answer of the condition decides alike for the loop and for what is written out. -/
theorem tested (hc : c.Answers) (l₁ l₂ l₃ : α)
    (hs : Orderly limit ⟨c, .test scope cond body :: k, σ, n, w⟩) :
    FirstAnswer limit k ⟨c, .test scope cond body :: k, σ, n, w⟩ u ↔
      FirstAnswer limit k
        ⟨c, .branch scope cond.location (firstTurn cond body l₁ l₂ l₃) none :: k, σ, n, w⟩ u := by
  have hstep : ∀ f, FirstAnswer limit k ⟨c, f :: k, σ, n, w⟩ u ↔
      FirstAnswer limit k (step limit ⟨c, f :: k, σ, n, w⟩) u :=
    fun f => FirstAnswer.iff_step_of_lt (Nat.lt_succ_self _)
  cases c with
  | give v =>
    cases v with
    | int i =>
      by_cases hi : i = 0
      · subst hi
        rw [hstep, hstep]
        exact Iff.rfl
      · obtain ⟨hk, hscope⟩ := hs.toSettled.popFrame (by simp) (by simp)
        have hblock := (hk.pushFrame (f := .discard) trivial).opened (.give (.int 1)) hscope
        have hrest := hblock.pushFrame (f := .next σ.depth [.loop cond body l₃])
          (Nat.lt_of_lt_of_eq (Nat.lt_succ_self _) (σ.depth_push scope).symm)
        rw [hstep, step_test hi, (leads_to_body k hi ..).firstAnswer_iff]
        exact (body_beneath (P := ⟨σ.depth, scope, hscope⟩) (hs.scopes.padded hscope) l₃
          (hrest.pushFrame (f := .discard) trivial)
          (hk.pushFrame (f := .again scope cond body) hscope)).symm
    | _ =>
      rw [hstep, hstep]
      exact Iff.rfl
  | fail e =>
    rw [hstep, hstep]
    exact Iff.rfl
  | _ => exact hc.elim

theorem merged_condition {x y : Control α} {k' : List (Frame α)}
    (hs : Settled limit ⟨x, k, σ, n, w⟩) (ht : Settled limit ⟨y, k', σ, n, w⟩)
    (hscope : scope < σ.depth) (cond : Expr α) :
    Merged limit ⟨σ.depth, scope, hscope⟩ (.leave σ.depth :: k) k'
      (enter ⟨x, k, σ, n, w⟩ scope (.eval · cond)) ⟨.eval scope cond, k', σ, n, w⟩ := by
  have hskip : scope = Padding.skip ⟨σ.depth, scope, hscope⟩ σ.depth :=
    (Padding.skip_place ⟨σ.depth, scope, hscope⟩).symm
  have hmirrors : Mirrors ⟨σ.depth, scope, hscope⟩ (.leave σ.depth :: k) k'
      (enter ⟨x, k, σ, n, w⟩ scope (.eval · cond)) ⟨.eval scope cond, k', σ, n, w⟩ :=
    ⟨⟨hs.scopes.padded hscope, .base, rfl, rfl⟩, congrArg (Control.eval · cond) hskip⟩
  have hleft : Orderly limit (enter ⟨x, k, σ, n, w⟩ scope (.eval · cond)) :=
    hs.enter hscope (Nat.lt_succ_self _)
  exact hmirrors.merged hleft (ht.become (c := .eval scope cond) hscope) (.inr trivial)

theorem firstAnswer_loop_iff (hs : s.Settled limit) (hscope : scope < s.scopes.depth)
    (l l₁ l₂ l₃ l₄ : α) :
    FirstAnswer limit s.stack (s.become (.exec scope (.loop cond body l))) u ↔
      FirstAnswer limit s.stack
        (s.become (.exec scope (.branch cond (firstTurn cond body l₁ l₂ l₃) none l₄))) u := by
  obtain ⟨x, k, σ, n, w⟩ := s
  have hexec : ∀ st, FirstAnswer limit k ⟨.exec scope st, k, σ, n, w⟩ u ↔
      FirstAnswer limit k (step limit ⟨.exec scope st, k, σ, n, w⟩) u :=
    fun st => FirstAnswer.iff_step And.right
  have hloop : FirstAnswer limit k ⟨.loop scope cond body, k, σ, n, w⟩ u ↔
      FirstAnswer limit k (step limit ⟨.loop scope cond body, k, σ, n, w⟩) u :=
    FirstAnswer.iff_step And.right
  have hmerged := merged_condition (hs.pushFrame (f := .test scope cond body) hscope)
    (hs.pushFrame (f := .branch scope cond.location (firstTurn cond body l₁ l₂ l₃) none) hscope)
    hscope cond
  have hbelow : k <:+ .leave σ.depth :: .test scope cond body :: k :=
    ⟨[.leave σ.depth, .test scope cond body], rfl⟩
  refine (hexec _).trans (hloop.trans (Iff.trans ?_ (hexec _).symm))
  refine hmerged.firstAnswer_iff hbelow (List.suffix_cons _ _) fun v v' hv _ hmerged => ?_
  obtain ⟨c, ρ, ρ', m, w', hc, hpadded, rfl, rfl⟩ := hmerged.answer hv.answersTo
  have hleave := leads_leave hpadded hmerged.left hc (Nat.le_succ k.length)
  rw [hleave.firstAnswer_iff]
  exact tested hc l₁ l₂ l₃ (hleave.orderly hmerged.left)

theorem firstAnswer_condition_iff (hs : s.Settled limit) (hscope : scope < s.scopes.depth) :
    FirstAnswer limit s.stack (s.enter scope (.eval · cond)) u ↔
      FirstAnswer limit s.stack (s.become (.eval scope cond)) u :=
  (merged_condition hs hs hscope cond).firstAnswer_iff_of_leave

theorem firstAnswer_body_iff (hs : s.Settled limit) (hscope : scope < s.scopes.depth)
    (c : Nat → Control α) :
    FirstAnswer limit s.stack
      ((s.enter scope c).enter s.scopes.depth (.block · body (.int 0))) u ↔
      FirstAnswer limit s.stack (s.enter scope (.block · body (.int 0))) u := by
  obtain ⟨x, k, σ, n, w⟩ := s
  have hskips : Skips ⟨σ.depth, scope, hscope⟩ (.leave σ.depth :: k) k
      (enter ⟨x, k, σ, n, w⟩ scope c) ⟨x, k, σ, n, w⟩ :=
    ⟨hs.scopes.padded hscope, .base, rfl, rfl⟩
  exact (hskips.merged_block (hs.opened _ hscope) hs body).firstAnswer_iff_of_leave

end State

namespace Interpreter

variable {i : Interpreter α} {held : List Value}

/-- A loop is its condition as a branch, around the body and the loop once more: whatever an
execution has come to, they go on for ever or they end in the same state. For a condition makes no
names, so that it needs no scope of its own; and neither does a block, around another one. -/
theorem loop_unrolls {program : Program α} {config : Config} {input : Input} {sink : Sink}
    (hi : Used (new program config input sink) held i) {s : State α}
    (hs : State.Reaches config.maxCallDepth i.start s) {scope : Nat}
    (hscope : scope < s.scopes.depth) (cond : Expr α) (body : List (Stmt α)) :
    (∀ l l₁ l₂ l₃ l₄ u,
      State.Exit config.maxCallDepth (s.become (.exec scope (.loop cond body l))) u ↔
        State.Exit config.maxCallDepth (s.become (.exec scope
          (.branch cond [.branch (.integer "1" l₁) body none l₂, .loop cond body l₃] none l₄))) u) ∧
    (∀ u, State.FirstAnswer config.maxCallDepth s.stack (s.enter scope (.eval · cond)) u ↔
      State.FirstAnswer config.maxCallDepth s.stack (s.become (.eval scope cond)) u) ∧
    ∀ c u,
      State.FirstAnswer config.maxCallDepth s.stack
        ((s.enter scope c).enter s.scopes.depth (.block · body (.int 0))) u ↔
      State.FirstAnswer config.maxCallDepth s.stack
        (s.enter scope (.block · body (.int 0))) u := by
  have hsound := hi.sound (sound_new program config input sink)
  have ho : s.Orderly config.maxCallDepth := hs.orderly (hsound.orderly_start _)
  refine ⟨fun l l₁ l₂ l₃ l₄ u => ?_, fun u => State.firstAnswer_condition_iff ho.toSettled hscope,
    fun c u => State.firstAnswer_body_iff ho.toSettled hscope c⟩
  rw [State.exit_iff_firstAnswer, State.exit_iff_firstAnswer]
  exact State.firstAnswer_loop_iff ho.toSettled hscope l l₁ l₂ l₃ l₄

def turning : Expr Unit :=
  .assign ⟨"n", ()⟩ (.binary .sub (.reference ⟨"n", ()⟩) (.integer "1" ()) ()) ()

/-- A body with a name of its own that the condition has too. -/
def shadowing : List (Stmt Unit) :=
  [.declare ⟨"n", ()⟩ (), .expr (.assign ⟨"n", ()⟩ (.integer "7" ()) ()),
    .expr (.callAt ⟨"print", ()⟩ [.reference ⟨"n", ()⟩] ())]

def countdown : Program Unit :=
  ⟨[.stmt (.declare ⟨"n", ()⟩ ()), .stmt (.expr (.assign ⟨"n", ()⟩ (.integer "3" ()) ())),
    .stmt (.loop turning shadowing ())]⟩

/-- There are two turns, and each prints the name of the body. -/
theorem countdown_unrolls :
    let i := new countdown .standard ⟨[], [], none⟩ .unlimited
    ∃ s u, State.Reaches 1000 i.start s ∧ 0 < s.scopes.depth ∧
      State.Exit 1000 (s.become (.exec 0 (.loop turning shadowing ()))) u ∧
      State.Exit 1000 (s.become (.exec 0 (.branch turning
        [.branch (.integer "1" ()) shadowing none (), .loop turning shadowing ()] none ()))) u ∧
      u.scopes.find? 0 "n" = some (.int 0) ∧ u.world.sink.written = "77".toUTF8.data := by
  intro i
  have hreach := State.reaches_iterate 1000 i.start 10
  have hscope : 0 < ((State.step 1000)^[10] i.start).scopes.depth := by decide +kernel
  have hfresh : Used (new countdown .standard ⟨[], [], none⟩ .unlimited) [] i := .fresh
  obtain ⟨hunrolls, -, -⟩ := loop_unrolls hfresh hreach hscope turning shadowing
  have hexit : State.Exit 1000
      (((State.step 1000)^[10] i.start).become (.exec 0 (.loop turning shadowing ())))
      ((State.step 1000)^[73]
        (((State.step 1000)^[10] i.start).become (.exec 0 (.loop turning shadowing ())))) :=
    State.exit_of_length (by decide +kernel) (by decide +kernel)
  exact ⟨_, _, hreach, hscope, hexit, (hunrolls () () () () () _).mp hexit, by decide +kernel,
    by decide +kernel⟩

end Interpreter

end Scriptlet
