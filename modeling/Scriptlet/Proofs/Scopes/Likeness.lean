import Scriptlet.Proofs.Heap.Likeness
import Scriptlet.Proofs.Scopes.Parents
import Scriptlet.Proofs.Scopes.Values

/-!
Scopes that a program cannot tell apart. Two runs open scopes in the same order, but they may begin
with different scopes already open. A walk from a scope opened since passes by those that were
there before, unless both runs share them; so what a walk finds is alike, and what was passed by
stays as it was.
-/

namespace Scriptlet

namespace Matching

variable {m : Matching} {i j i' j' k : Nat}

/-- Matched places that are in use when the runs have taken `k` new ones. -/
def Below (m : Matching) (k i j : Nat) : Prop :=
  (i = j ∧ i < m.common) ∨ ∃ x, x < k ∧ i = m.left + x ∧ j = m.right + x

theorem below_new (m : Matching) {x : Nat} (h : x < k) : m.Below k (m.left + x) (m.right + x) :=
  .inr ⟨x, h, rfl, rfl⟩

theorem Below.rel (h : m.Below k i j) : m.Rel i j := by
  rcases h with h | ⟨x, -, hi, hj⟩
  · exact .inl h
  · exact .inr ⟨x, hi, hj⟩

theorem Below.lt (h : m.Below k i j) : i < m.left + k ∧ j < m.right + k := by
  have hl := m.common_le_left
  have hr := m.common_le_right
  rcases h with ⟨rfl, hi⟩ | ⟨x, hx, rfl, rfl⟩ <;> omega

theorem Below.mono {n : Nat} (h : m.Below k i j) (hle : k ≤ n) : m.Below n i j := by
  rcases h with h | ⟨x, hx, hi, hj⟩
  · exact .inl h
  · exact .inr ⟨x, Nat.lt_of_lt_of_le hx hle, hi, hj⟩

theorem Below.of_zero (h : m.Below 0 i j) : i = j ∧ i < m.common := by
  rcases h with h | ⟨x, hx, -⟩
  · exact h
  · exact absurd hx (Nat.not_lt_zero x)

theorem Below.of_rel (h : m.Rel i j) (hi : i < m.left + k) : m.Below k i j := by
  rcases h with h | ⟨x, rfl, rfl⟩
  · exact .inl h
  · exact .inr ⟨x, by omega, rfl, rfl⟩

theorem Rel.lt_iff (h : m.Rel i j) (h' : m.Rel i' j') : i < i' ↔ j < j' := by
  have hl := m.common_le_left
  have hr := m.common_le_right
  rcases h with ⟨rfl, hi⟩ | ⟨x, rfl, rfl⟩
  · rcases h' with ⟨rfl, hi'⟩ | ⟨y, rfl, rfl⟩ <;> omega
  · rcases h' with ⟨rfl, hi'⟩ | ⟨y, rfl, rfl⟩ <;> omega

end Matching

namespace Bindings

variable {m : Matching} {b b' : Bindings} {v v' : Value}

def Alike (m : Matching) (b b' : Bindings) : Prop :=
  ∀ name, Option.Rel (Value.Alike m) (b.find? name) (b'.find? name)

theorem find?_set_of_ne (b : Bindings) {name other : String} (h : name ≠ other) (v : Value) :
    (b.set name v).find? other = b.find? other := by
  induction b with
  | nil => simp [set, find?_cons, h]
  | cons e b ih =>
    obtain ⟨n, w⟩ := e
    by_cases hn : n = name
    · subst hn
      simp [set, find?_cons, h]
    · simp [set, hn, find?_cons, ih]

theorem Alike.isSome_eq (h : b.Alike m b') (name : String) :
    (b.find? name).isSome = (b'.find? name).isSome := by
  have hname := h name
  generalize b.find? name = x at hname ⊢
  generalize b'.find? name = y at hname ⊢
  cases hname <;> rfl

theorem Alike.set (h : b.Alike m b') (hv : v.Alike m v') (name : String) :
    (b.set name v).Alike m (b'.set name v') := by
  intro other
  by_cases hname : name = other
  · subst hname
    rw [find?_set, find?_set]
    exact .some hv
  · rw [find?_set_of_ne b hname, find?_set_of_ne b' hname]
    exact h other

end Bindings

variable {α β : Type} {c : Coupling α β}

/-- Scopes at the places `i` and `j`: like bindings, and matched parents before them. -/
structure Scope.Alike (c : Coupling α β) (i : Nat) (f g : Scope) : Prop where
  bindings : f.bindings.Alike c.objects g.bindings
  parent : Option.Rel (fun p q => c.scopes.Rel p q ∧ p < i) f.parent g.parent

namespace Scopes

variable {s t : Scopes} {i j k : Nat}

/-- Both runs have opened `k` scopes since they began with the scopes `s₀` and `t₀`. Matched scopes
are alike, and those of the beginning that are not matched are as they were. -/
structure Alike (c : Coupling α β) (s₀ t₀ : Scopes) (k : Nat) (s t : Scopes) : Prop where
  left : s.depth = c.scopes.left + k
  right : t.depth = c.scopes.right + k
  scope : ∀ i j, c.scopes.Below k i j →
    ∃ f g, s.arena[i]? = some f ∧ t.arena[j]? = some g ∧ f.Alike c i g
  left_kept : ∀ i, c.scopes.common ≤ i → i < c.scopes.left → s.arena[i]? = s₀.arena[i]?
  right_kept : ∀ i, c.scopes.common ≤ i → i < c.scopes.right → t.arena[i]? = t₀.arena[i]?

theorem getElem?_push (s : Scopes) (p i : Nat) :
    (s.push p).2.arena[i]? = if i = s.depth then some ⟨[], some p⟩ else s.arena[i]? := by
  rw [push, Array.getElem?_push]
  rfl

theorem getElem?_pop (s : Scopes) {n : Nat} (hn : 0 < n) (i : Nat) :
    (s.pop n).1.arena[i]? = if i < n then s.arena[i]? else none := by
  have hne : n ≠ globalScope := Nat.ne_of_gt hn
  simp only [pop, if_neg hne, ← Array.getElem?_toList, Array.toList_shrink, List.getElem?_take]

theorem getElem?_bind (s : Scopes) (n : Nat) (name : String) (v : Value) (i : Nat) :
    (s.bind n name v).1.arena[i]? = if n = i then
      s.arena[i]?.map fun f => ⟨f.bindings.set name v, f.parent⟩ else s.arena[i]? := by
  unfold bind
  split
  · rw [modify, Array.getElem?_modify]
  · rename_i hn
    split
    · rename_i hi
      subst hi
      have hnone : s.arena[n]? = none := Array.getElem?_eq_none (Nat.le_of_not_lt hn)
      rw [hnone, Option.map_none]
    · rfl

namespace Alike

variable {s₀ t₀ : Scopes} {p q : Nat} {v v' : Value}

theorem push (h : Alike c s₀ t₀ k s t) (hp : c.scopes.Below k p q) :
    Alike c s₀ t₀ (k + 1) (s.push p).2 (t.push q).2 where
  left := by rw [depth_push, h.left, Nat.add_assoc]
  right := by rw [depth_push, h.right, Nat.add_assoc]
  scope i j hij := by
    have hnew := c.scopes.below_new (Nat.lt_succ_self k)
    have hiff := hij.rel.eq_iff hnew.rel
    rw [getElem?_push, getElem?_push, h.left, h.right]
    by_cases hi : i = c.scopes.left + k
    · rw [if_pos hi, if_pos (hiff.mp hi)]
      refine ⟨_, _, rfl, rfl, fun _ => .none, .some ⟨hp.rel, ?_⟩⟩
      rw [hi]
      exact hp.lt.1
    · rw [if_neg hi, if_neg fun hj => hi (hiff.mpr hj)]
      have hlt := hij.lt.1
      exact h.scope i j (.of_rel hij.rel (by omega))
  left_kept i hc hi := by
    rw [getElem?_push, h.left, if_neg (by omega)]
    exact h.left_kept i hc hi
  right_kept i hc hi := by
    rw [getElem?_push, h.right, if_neg (by omega)]
    exact h.right_kept i hc hi

theorem pop {n : Nat} (h : Alike c s₀ t₀ k s t) (hn : n ≤ k) :
    Alike c s₀ t₀ n (s.pop (c.scopes.left + n)).1 (t.pop (c.scopes.right + n)).1 := by
  have hglobal := c.global
  have hl := c.scopes.common_le_left
  have hr := c.scopes.common_le_right
  have hleft : 0 < c.scopes.left + n := by omega
  have hright : 0 < c.scopes.right + n := by omega
  refine ⟨?_, ?_, fun i j hij => ?_, fun i hc hi => ?_, fun i hc hi => ?_⟩
  · exact depth_pop s hleft (by rw [h.left]; omega)
  · exact depth_pop t hright (by rw [h.right]; omega)
  · rw [getElem?_pop s hleft, getElem?_pop t hright, if_pos hij.lt.1, if_pos hij.lt.2]
    exact h.scope i j (hij.mono hn)
  · rw [getElem?_pop s hleft, if_pos (by omega)]
    exact h.left_kept i hc hi
  · rw [getElem?_pop t hright, if_pos (by omega)]
    exact h.right_kept i hc hi

theorem bind (h : Alike c s₀ t₀ k s t) (hij : c.scopes.Below k i j)
    (hv : v.Alike c.objects v') (name : String) :
    Alike c s₀ t₀ k (s.bind i name v).1 (t.bind j name v').1 := by
  have hl := c.scopes.common_le_left
  have hr := c.scopes.common_le_right
  refine ⟨?_, ?_, fun x y hxy => ?_, fun x hc hx => ?_, fun x hc hx => ?_⟩
  · rw [depth_bind, h.left]
  · rw [depth_bind, h.right]
  · obtain ⟨f, g, hf, hg, halike⟩ := h.scope x y hxy
    have hiff := hij.rel.eq_iff hxy.rel
    rw [getElem?_bind, getElem?_bind, hf, hg]
    by_cases hx : i = x
    · rw [if_pos hx, if_pos (hiff.mp hx)]
      exact ⟨_, _, rfl, rfl, halike.bindings.set hv name, halike.parent⟩
    · rw [if_neg hx, if_neg fun hy => hx (hiff.mpr hy)]
      exact ⟨f, g, rfl, rfl, halike⟩
  · have hne : i ≠ x := by
      rcases hij with ⟨-, hi⟩ | ⟨y, -, hi, -⟩ <;> omega
    rw [getElem?_bind, if_neg hne]
    exact h.left_kept x hc hx
  · have hne : j ≠ x := by
      rcases hij with ⟨hi, hi'⟩ | ⟨y, -, -, hj⟩ <;> omega
    rw [getElem?_bind, if_neg hne]
    exact h.right_kept x hc hx

theorem find? (h : Alike c s₀ t₀ k s t) (hij : c.scopes.Below k i j) (name : String) :
    Option.Rel (Value.Alike c.objects) (s.find? i name) (t.find? j name) := by
  obtain ⟨f, g, hf, hg, halike⟩ := h.scope i j hij
  simp only [Scopes.find?, hf, hg]
  exact halike.bindings name

theorem defines_eq (h : Alike c s₀ t₀ k s t) (hij : c.scopes.Below k i j) (name : String) :
    s.defines i name = t.defines j name := by
  obtain ⟨f, g, hf, hg, halike⟩ := h.scope i j hij
  simp only [defines, Scopes.find?, hf, hg]
  exact halike.bindings.isSome_eq name

theorem resolveWithin (h : Alike c s₀ t₀ k s t) (hij : c.scopes.Below k i j) (name : String)
    {n n' : Nat} (hn : i < n) (hn' : j < n') :
    Option.Rel (c.scopes.Below k) (s.resolveWithin name n i) (t.resolveWithin name n' j) := by
  -- Neither walk is cut short: a parent stands before its scope, so the places go down.
  induction n generalizing i j n' with
  | zero => omega
  | succ n ih =>
    obtain ⟨n', rfl⟩ : ∃ x, n' = x + 1 := ⟨n' - 1, by omega⟩
    obtain ⟨f, g, hf, hg, hbindings, hparent⟩ := h.scope i j hij
    simp only [Scopes.resolveWithin, hf, hg, hbindings.isSome_eq name]
    split
    · exact .some hij
    · generalize f.parent = p at hparent ⊢
      generalize g.parent = q at hparent ⊢
      cases hparent with
      | none => exact .none
      | @some p q hpq =>
        have hlt := hij.lt.1
        have hq := (hpq.1.lt_iff hij.rel).mp hpq.2
        exact ih (.of_rel hpq.1 (by omega)) (by omega) (by omega)

theorem resolve (h : Alike c s₀ t₀ k s t) (hij : c.scopes.Below k i j) (name : String) :
    Option.Rel (c.scopes.Below k) (s.resolve i name) (t.resolve j name) :=
  h.resolveWithin hij name (by rw [h.left]; exact hij.lt.1) (by rw [h.right]; exact hij.lt.2)

theorem lookup (h : Alike c s₀ t₀ k s t) (hij : c.scopes.Below k i j) (name : String) :
    Option.Rel (Value.Alike c.objects) (s.lookup i name) (t.lookup j name) := by
  have howner := h.resolve hij name
  unfold Scopes.lookup
  generalize s.resolve i name = x at howner ⊢
  generalize t.resolve j name = y at howner ⊢
  cases howner with
  | none => exact .none
  | some hxy => exact h.find? hxy name

end Alike

end Scopes

end Scriptlet
