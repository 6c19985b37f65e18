import Scriptlet.Proofs.Machine.Lockstep

/-!
The first answer that some waiting frames are given. Work for frames further down goes on where the
work for those above it has ended, so two runs can be compared piece by piece.
-/

namespace Scriptlet

variable {α : Type}

namespace State

variable {limit : Nat} {s t u v : State α} {k k' : List (Frame α)}

/-- There is a value or a failure for the frames `k`. -/
def AnswersTo (k : List (Frame α)) (s : State α) : Prop := s.stack = k ∧ s.control.Answers

/-- From `s` on, `u` is the first state with an answer for the frames `k`. -/
inductive FirstAnswer (limit : Nat) (k : List (Frame α)) : State α → State α → Prop
  | here {s : State α} (h : s.AnswersTo k) : FirstAnswer limit k s s
  | later {s u : State α} (h : ¬ s.AnswersTo k) (hrest : FirstAnswer limit k (s.step limit) u) :
    FirstAnswer limit k s u

namespace FirstAnswer

theorem answersTo (h : FirstAnswer limit k s u) : u.AnswersTo k := by
  induction h with
  | here h => exact h
  | later _ _ ih => exact ih

theorem iff_eq (h : s.AnswersTo k) : FirstAnswer limit k s u ↔ u = s := by
  constructor
  · intro hu
    cases hu with
    | here _ => rfl
    | later hno _ => exact absurd h hno
  · rintro rfl
    exact .here h

theorem iff_step (h : ¬ s.AnswersTo k) :
    FirstAnswer limit k s u ↔ FirstAnswer limit k (s.step limit) u := by
  constructor
  · intro hu
    cases hu with
    | here hyes => exact absurd hyes h
    | later _ hrest => exact hrest
  · exact .later h

/-- As long as other frames wait above, there is a step to be taken. -/
theorem iff_step_of_lt (h : k.length < s.stack.length) :
    FirstAnswer limit k s u ↔ FirstAnswer limit k (s.step limit) u := by
  refine iff_step fun hyes => ?_
  rw [hyes.1] at h
  exact Nat.lt_irrefl _ h

theorem iterate_iff : FirstAnswer limit k s u ↔
    ∃ n, (step limit)^[n] s = u ∧ u.AnswersTo k ∧ ∀ m < n, ¬ ((step limit)^[m] s).AnswersTo k := by
  constructor
  · intro h
    induction h with
    | here h => exact ⟨0, rfl, h, fun m hm => absurd hm (Nat.not_lt_zero m)⟩
    | later h _ ih =>
      obtain ⟨n, hn, hu, hbefore⟩ := ih
      refine ⟨n + 1, hn, hu, fun m hm => ?_⟩
      cases m with
      | zero => exact h
      | succ m => exact hbefore m (Nat.lt_of_succ_lt_succ hm)
  · rintro ⟨n, rfl, hu, hbefore⟩
    induction n generalizing s with
    | zero => exact .here hu
    | succ n ih =>
      refine .later (hbefore 0 (Nat.succ_pos n)) (ih hu fun m hm => ?_)
      exact hbefore (m + 1) (Nat.succ_lt_succ hm)

end FirstAnswer

theorem exit_iff_firstAnswer : Exit limit s u ↔ FirstAnswer limit s.stack s u := by
  rw [exit_iff, FirstAnswer.iterate_iff]
  rfl

/-- What answers at its first step has that for its exit. -/
theorem exit_iff_of_step (hs : ¬ s.control.Answers) (hstep : s.step limit = v)
    (hv : v.AnswersTo s.stack) : Exit limit s u ↔ u = v := by
  rw [exit_iff_firstAnswer, FirstAnswer.iff_step fun h => hs h.2, hstep]
  exact FirstAnswer.iff_eq hv

/-- The frames `k'` get their first answer after the frames `k` above them. -/
theorem FirstAnswer.split (hk : k <:+ s.stack) (hbelow : k' <:+ k) :
    FirstAnswer limit k' s u ↔ ∃ v, FirstAnswer limit k s v ∧ FirstAnswer limit k' v u := by
  constructor
  · intro h
    induction h with
    | here h =>
      have heq := hbelow.eq_of_length_le (h.1 ▸ hk).length_le
      exact ⟨_, .here (heq ▸ h), .here h⟩
    | @later s u h hrest ih =>
      by_cases hyes : s.AnswersTo k
      · exact ⟨s, .here hyes, .later h hrest⟩
      · obtain ⟨v, hv, hu⟩ := ih (suffix_step hk fun hstack ha => hyes ⟨hstack, ha⟩)
        exact ⟨v, .later hyes hv, hu⟩
  · rintro ⟨v, hv, hu⟩
    induction hv with
    | here _ => exact hu
    | @later s v h _ ih =>
      have hnext : k <:+ (s.step limit).stack := suffix_step hk fun hstack ha => h ⟨hstack, ha⟩
      refine .later (fun hyes => h ?_) (ih hnext hu)
      have heq := hbelow.eq_of_length_le (hyes.1 ▸ hk).length_le
      exact heq ▸ hyes

/-- The run goes on from `s` to `t`, and other frames wait above `k` all the way. -/
inductive Leads (limit : Nat) (k : List (Frame α)) : State α → State α → Prop
  | refl (s : State α) : Leads limit k s s
  | step {s t u : State α} (hk : k.length < s.stack.length) (hstep : s.step limit = t)
    (h : Leads limit k t u) : Leads limit k s u

namespace Leads

theorem firstAnswer_iff (h : Leads limit k s t) :
    FirstAnswer limit k s u ↔ FirstAnswer limit k t u := by
  induction h with
  | refl s => exact Iff.rfl
  | step hk hstep _ ih => rw [FirstAnswer.iff_step_of_lt hk, hstep, ih]

theorem orderly (h : Leads limit k s t) (hs : s.Orderly limit) : t.Orderly limit := by
  induction h with
  | refl s => exact hs
  | step _ hstep _ ih => exact ih (hstep ▸ hs.step)

theorem trans (h : Leads limit k s t) (h' : Leads limit k t u) : Leads limit k s u := by
  induction h with
  | refl s => exact h'
  | step hk hstep _ ih => exact .step hk hstep (ih h')

end Leads

/-- A failure passes a frame that holds nothing and closes nothing. -/
theorem leads_fail {f : Frame α} {e : EvalError α} {σ : Scopes} {n : Nat} {w : World α}
    (hk : k'.length ≤ k.length) (hf : f.closes = []) (hheld : f.held = []) :
    Leads limit k' ⟨.fail e, f :: k, σ, n, w⟩ ⟨.fail e, k, σ, n, w⟩ := by
  refine .step (Nat.lt_succ_of_le hk) ?_ (.refl _)
  have hreleased : releaseAll ⟨.fail e, k, σ, n, w⟩ f.held = ⟨.fail e, k, σ, n, w⟩ := by
    rw [hheld, releaseAll_nil]
  cases f with
  | leave id => cases hf
  | finish id ref => cases hf
  | _ => exact hreleased

end State

end Scriptlet
