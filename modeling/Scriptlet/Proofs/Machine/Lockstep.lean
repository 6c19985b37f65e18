import Mathlib.Logic.Function.Iterate
import Scriptlet.Proofs.Machine.Likeness

/-!
Two runs that begin side by side stay so until they answer, and they answer after the same number
of steps. So one of them has an exit if and only if the other has, and the exits are side by side.
-/

namespace Scriptlet

variable {α β : Type} {c : Coupling α β}

namespace State

variable {s₀ s u : State α} {t₀ t u' : State β} {limit : Nat} {ext ext' : List Value}

theorem Alike.restack {x : Control α} {y : Control β} {fs gs : List (Frame α)}
    {fs' gs' : List (Frame β)} {scopes scopes' : Scopes} {depth depth' : Nat} {world : World α}
    {world' : World β} {n k m : Nat}
    (h : Alike c s₀ t₀ n k ⟨x, fs, scopes, depth, world⟩ ⟨y, fs', scopes', depth', world'⟩)
    (hgs : StackAlike c s₀.stack t₀.stack m gs gs') :
    Alike c s₀ t₀ n m ⟨x, gs, scopes, depth, world⟩ ⟨y, gs', scopes', depth', world'⟩ :=
  ⟨h.scopes, hgs, h.depth, h.world⟩

theorem Twins.step (h : Twins c s₀ t₀ s t) (hb : s.Balanced ext) (hb' : t.Balanced ext')
    (hout : s.stack = s₀.stack → ¬ s.control.Answers) :
    Twins c s₀ t₀ (s.step limit) (t.step limit) := by
  obtain ⟨k, h, hc⟩ := h
  obtain ⟨control, stack, scopes, depth, world⟩ := s
  obtain ⟨control', stack', scopes', depth', world'⟩ := t
  cases hc with
  | eval hij e => exact h.eval hij e hb hb'
  | exec hij st => exact h.exec hij st
  | block hij rest hv =>
    cases rest with
    | nil => exact h.give hv
    | cons st rest => exact (h.release _ _).await (.next hij rest) (.exec hij st)
  | @items v v' rest hv =>
    cases rest with
    | nil => exact h.give hv
    | cons item rest =>
      have hreleased := h.release v v'
      cases item with
      | function d => exact (hreleased.defineFunction d).become (.items rest (.int 0))
      | stmt st => exact hreleased.await (.nextItem rest) (.exec (Alike.below_global c k) st)
  | loop hij cond body =>
    have htest := h.pushFrame (.test hij cond body)
    exact htest.enter (x := (.eval · (cond.map c.left))) (y := (.eval · (cond.map c.right))) hij
      (.eval (c.scopes.below_new (Nat.lt_succ_self k)) cond)
  | @arguments i j f f' done done' hij rest hf hdone l =>
    cases rest with
    | nil => exact h.become (.apply hf hdone l)
    | cons e rest =>
      have hlen : done.length + (e :: rest).length = done.length + 1 + rest.length := by
        rw [List.length_cons]
        omega
      rw [hlen] at hf
      exact h.await (.arguments hij rest hf hdone l) (.eval hij e)
  | apply hf hargs l => exact h.applyCallee hf hargs hb hb' limit l
  | give hv =>
    cases h.stack with
    | base => exact absurd trivial (hout rfl)
    | leave hfs =>
      exact ⟨_, (h.restack hfs).closeScope (Nat.le_add_right _ 1), .give hv⟩
    | finish hfs r r' =>
      exact ⟨_, (h.restack hfs).closeCall (Nat.le_add_right _ 2) r r', .give hv⟩
    | plain hfs hf => exact (h.restack hfs).resume hf hv
  | fail cause l =>
    cases h.stack with
    | base => exact absurd trivial (hout rfl)
    | leave hfs =>
      exact ⟨_, (h.restack hfs).closeScope (Nat.le_add_right _ 1), .fail cause l⟩
    | finish hfs r r' =>
      exact ⟨_, (h.restack hfs).closeCall (Nat.le_add_right _ 2) r r', .fail cause l⟩
    | plain hfs hf => exact (h.restack hfs).unwind hf (.fail cause l)

/-! ### Exits -/

instance : DecidablePred (Control.Answers (α := α))
  | .give _ => .isTrue trivial
  | .fail _ => .isTrue trivial
  | .eval _ _ => .isFalse id
  | .exec _ _ => .isFalse id
  | .block _ _ _ => .isFalse id
  | .items _ _ => .isFalse id
  | .loop _ _ _ => .isFalse id
  | .arguments _ _ _ _ _ => .isFalse id
  | .apply _ _ _ => .isFalse id

/-- The frames that waited in `s₀` are given an answer. -/
def Done (s₀ s : State α) : Prop := s.stack = s₀.stack ∧ s.control.Answers

/-- The first answer that the frames waiting in `s` are given, if they are given any. -/
def Exit (limit : Nat) (s u : State α) : Prop := Within limit s u ∧ Done s u

theorem Twins.done_iff (h : Twins c s₀ t₀ s t) : Done s₀ s ↔ Done t₀ t := by
  obtain ⟨k, h, hc⟩ := h
  exact and_congr h.stack.eq_iff hc.answers_iff

theorem within_iff : Within limit s u ↔
    ∃ n, (step limit)^[n] s = u ∧ ∀ m < n, ¬ Done s ((step limit)^[m] s) := by
  constructor
  · intro h
    induction h with
    | entry => exact ⟨0, rfl, by omega⟩
    | @step t _ hout ih =>
      obtain ⟨n, rfl, hn⟩ := ih
      refine ⟨n + 1, Function.iterate_succ_apply' .., fun m hm hdone => ?_⟩
      by_cases hlast : m = n
      · subst hlast
        exact hout hdone.1 hdone.2
      · exact hn m (by omega) hdone
  · rintro ⟨n, rfl, hn⟩
    induction n with
    | zero => exact .entry
    | succ n ih =>
      rw [Function.iterate_succ_apply']
      have hwithin := ih fun m hm => hn m (by omega)
      exact hwithin.step fun hstack ha => hn n (Nat.lt_succ_self n) ⟨hstack, ha⟩

theorem exit_iff : Exit limit s u ↔
    ∃ n, (step limit)^[n] s = u ∧ Done s u ∧ ∀ m < n, ¬ Done s ((step limit)^[m] s) := by
  rw [Exit, within_iff]
  constructor
  · rintro ⟨⟨n, hu, hn⟩, hdone⟩
    exact ⟨n, hu, hdone, hn⟩
  · rintro ⟨n, hu, hdone, hn⟩
    exact ⟨⟨n, hu, hn⟩, hdone⟩

theorem exit_of_length {n : Nat}
    (hdone : ((step limit)^[n] s).stack.length = s.stack.length ∧
      ((step limit)^[n] s).control.Answers)
    (hn : ∀ m < n, ¬ (((step limit)^[m] s).stack.length = s.stack.length ∧
      ((step limit)^[m] s).control.Answers)) : Exit limit s ((step limit)^[n] s) := by
  -- No frame of the beginning is taken before the exit, so counting the waiting ones is enough.
  have hwithin : Within limit s ((step limit)^[n] s) := within_iff.mpr ⟨n, rfl, fun m hm hd =>
    hn m hm ⟨congrArg List.length hd.1, hd.2⟩⟩
  exact ⟨hwithin, (hwithin.stack_suffix.eq_of_length hdone.1.symm).symm, hdone.2⟩

section Runs

variable (h₀ : Twins c s₀ t₀ s₀ t₀) (hb : s₀.Balanced ext) (hb' : t₀.Balanced ext')

include h₀ hb hb'

theorem twins_iterate (n : Nat) (hn : ∀ m < n, ¬ Done s₀ ((step limit)^[m] s₀)) :
    Twins c s₀ t₀ ((step limit)^[n] s₀) ((step limit)^[n] t₀) ∧
      ((step limit)^[n] s₀).Balanced ext ∧ ((step limit)^[n] t₀).Balanced ext' := by
  induction n with
  | zero => exact ⟨h₀, hb, hb'⟩
  | succ n ih =>
    obtain ⟨htwins, hleft, hright⟩ := ih fun m hm => hn m (by omega)
    have hsound := htwins.choose_spec.2.sound
    have hout := hn n (Nat.lt_succ_self n)
    rw [Function.iterate_succ_apply', Function.iterate_succ_apply']
    refine ⟨htwins.step hleft hright fun hstack ha => hout ⟨hstack, ha⟩, ?_, ?_⟩
    · exact hleft.step_of_sound hsound.1
    · exact hright.step_of_sound hsound.2

theorem not_done_of_twins {n : Nat} (hn : ∀ m < n, ¬ Done t₀ ((step limit)^[m] t₀)) :
    ∀ m < n, ¬ Done s₀ ((step limit)^[m] s₀) := by
  intro m
  induction m using Nat.strongRecOn with
  | ind m ih =>
    intro hm hdone
    have hbefore : ∀ x < m, ¬ Done s₀ ((step limit)^[x] s₀) := fun x hx => ih x hx (by omega)
    obtain ⟨htwins, -⟩ := twins_iterate h₀ hb hb' m hbefore
    exact hn m hm (htwins.done_iff.mp hdone)

theorem exists_exit_iff_of_twins : (∃ u, Exit limit s₀ u) ↔ ∃ u, Exit limit t₀ u := by
  simp only [exit_iff]
  constructor
  · rintro ⟨u, n, rfl, hdone, hn⟩
    obtain ⟨htwins, -⟩ := twins_iterate h₀ hb hb' n hn
    refine ⟨_, n, rfl, htwins.done_iff.mp hdone, fun m hm hdone' => ?_⟩
    obtain ⟨hearlier, -⟩ := twins_iterate h₀ hb hb' m fun x hx => hn x (by omega)
    exact hn m hm (hearlier.done_iff.mpr hdone')
  · rintro ⟨u, n, rfl, hdone, hn⟩
    have hleft := not_done_of_twins h₀ hb hb' hn
    obtain ⟨htwins, -⟩ := twins_iterate h₀ hb hb' n hleft
    exact ⟨_, n, rfl, htwins.done_iff.mpr hdone, hleft⟩

theorem twins_exits (hu : Exit limit s₀ u) (hu' : Exit limit t₀ u') :
    Twins c s₀ t₀ u u' ∧ u.Balanced ext ∧ u'.Balanced ext' := by
  obtain ⟨n, rfl, hdone, hn⟩ := exit_iff.mp hu
  obtain ⟨n', rfl, hdone', hn'⟩ := exit_iff.mp hu'
  have hsame : n = n' := by
    rcases Nat.lt_trichotomy n n' with hlt | heq | hlt
    · obtain ⟨htwins, -⟩ := twins_iterate h₀ hb hb' n hn
      exact absurd (htwins.done_iff.mp hdone) (hn' n hlt)
    · exact heq
    · obtain ⟨htwins, -⟩ := twins_iterate h₀ hb hb' n' fun m hm => hn m (by omega)
      exact absurd (htwins.done_iff.mpr hdone') (hn n' hlt)
  subst hsame
  exact twins_iterate h₀ hb hb' n hn

end Runs

end State

end Scriptlet
