import Scriptlet.Proofs.Machine.Liveness
import Scriptlet.Proofs.Scopes.Search
import Scriptlet.Workbench

/-!
The algebra of scope chains. Scopes may be opened, closed and bound in any order, also by places
that are gone or belong to a later scope by now. If none is opened below a scope that is gone, every
search ends, and what a binding changes can be told for every scope and every name.
-/

namespace Scriptlet

variable {α : Type}

namespace Scopes

variable {s t : Scopes} {id owner : Nat} {x y : String} {v : Value} {as : List Access}

/-- From `id` on, a search for a name comes to the scope `place` before it has met the name. -/
inductive LeadsTo (s : Scopes) (name : String) (place : Nat) : Nat → Prop
  | here : LeadsTo s name place place
  | goes {id p : Nat} (h : s.onward? name id = some p) (hrest : LeadsTo s name place p) :
    LeadsTo s name place id

/-- No scope was opened below one that was gone by then. -/
def OpensLive (s : Scopes) (as : List Access) : Prop :=
  ∀ before p rest, as = before ++ .push p :: rest → p < (s.after before).depth

theorem opensLive_cons {a : Access} : s.OpensLive (a :: as) ↔
    (∀ p, a = .push p → p < s.depth) ∧ (a.perform s).2.OpensLive as := by
  constructor
  · intro h
    refine ⟨fun p hp => ?_, fun before p rest heq => ?_⟩
    · exact h [] p as (by rw [hp]; rfl)
    · exact h (a :: before) p rest (by rw [heq]; rfl)
  · rintro ⟨hfirst, hrest⟩ before p rest heq
    cases before with
    | nil => exact hfirst p (List.cons.inj heq).1
    | cons b before =>
      obtain ⟨rfl, hsplit⟩ := List.cons.inj heq
      exact hrest before p rest hsplit

theorem Ordered.after (h : s.Ordered) (has : s.OpensLive as) : (s.after as).Ordered := by
  induction as generalizing s with
  | nil => exact h
  | cons a as ih =>
    obtain ⟨hfirst, hrest⟩ := opensLive_cons.mp has
    exact ih (h.perform hfirst) hrest

/-! ### Searches end -/

/-- Every scope that a search goes on to has a smaller number than the one before. -/
theorem Ordered.not_endless (h : s.Ordered) {name : String} {f : Nat → Nat}
    (hf : ∀ n, s.onward? name (f n) = some (f (n + 1))) : False := by
  have hfall : ∀ n, f n + n ≤ f 0 := by
    intro n
    induction n with
    | zero => exact Nat.le_refl _
    | succ n ih =>
      have hlt := h.onward?_lt (hf n)
      omega
  have hover := hfall (f 0 + 1)
  omega

/-! ### A new value for a name -/

/-- The scopes `t` are the scopes `s` with `v` for the name `x` of the scope `owner`, which had a
value before. -/
structure Reassigned (s : Scopes) (x : String) (owner : Nat) (v : Value) (t : Scopes) : Prop where
  resolve : ∀ id y, t.resolve id y = s.resolve id y
  seen : ∀ id, s.resolve id x = some owner → t.lookup id x = some v
  unseen : ∀ id y, y ≠ x ∨ s.resolve id x ≠ some owner → t.lookup id y = s.lookup id y

theorem lookup_of_resolve (h : s.resolve id x = some owner) : s.lookup id x = s.find? owner x := by
  rw [lookup, h]
  rfl

theorem reassigned_bind (h : s.defines owner x) (v : Value) :
    s.Reassigned x owner v (s.bind owner x v).1 := by
  have hresolve := resolve_congr (s.parents_bind owner x v) (s.defines_bind h v)
  refine ⟨hresolve, fun id hid => ?_, fun id y hother => ?_⟩
  · rw [lookup_of_resolve ((hresolve id x).trans hid)]
    exact find?_bind (lt_depth_of_defines h) x v
  · cases hr : s.resolve id y with
    | none => rw [lookup, lookup, hresolve, hr]; rfl
    | some r =>
      rw [lookup_of_resolve ((hresolve id y).trans hr), lookup_of_resolve hr]
      refine s.find?_bind_of_ne ?_ v
      by_cases hy : y = x
      · subst hy
        rw [hr] at hother
        exact .inl fun heq => hother.elim (· rfl) (· (congrArg some heq))
      · exact .inr hy

theorem reassigned_of_assign {freed : Option Value} (hr : s.resolve id x = some owner)
    (h : s.assign id x v = some (t, freed)) : s.Reassigned x owner v t := by
  have hbind : s.bind owner x v = (t, freed) := by
    rw [assign, hr] at h
    exact Option.some.inj h
  have ht : t = (s.bind owner x v).1 := by rw [hbind]
  rw [ht]
  exact reassigned_bind (find?_of_resolveWithin hr) v

theorem assign_isSome_iff : (s.assign id x v).isSome ↔ ∃ owner, s.resolve id x = some owner := by
  rw [assign]
  cases s.resolve id x <;> simp

/-! ### A new name -/

/-- The scopes `t` are the scopes `s` with `v` for the name `x`, which is new in the scope
`place`. -/
structure Extended (s : Scopes) (x : String) (place : Nat) (v : Value) (t : Scopes) : Prop where
  seen : ∀ id, s.LeadsTo x place id → t.lookup id x = some v
  unseen : ∀ id y, y ≠ x ∨ ¬ s.LeadsTo x place id → t.lookup id y = s.lookup id y

section
variable {place : Nat}

theorem defines_bind_of_ne (s : Scopes) (h : id ≠ place ∨ y ≠ x) (v : Value) :
    (s.bind place x v).1.defines id y = s.defines id y := by
  rw [defines, defines, s.find?_bind_of_ne h]

theorem Ordered.resolve_bind_seen (h : s.Ordered) (hplace : place < s.depth) (v : Value)
    (hid : s.LeadsTo x place id) : (s.bind place x v).1.resolve id x = some place := by
  have ht := h.bind place x v
  have hdefines : (s.bind place x v).1.defines place x = true := by
    rw [defines, find?_bind hplace]
    rfl
  have hhere : (s.bind place x v).1.resolve place x = some place := by
    rw [ht.resolve_eq, onward?]
    simp [hdefines]
  induction hid with
  | here => exact hhere
  | @goes id p hp _ ih =>
    by_cases heq : id = place
    · rw [heq]
      exact hhere
    · have honward := onward?_congr (s.parents_bind place x v)
        (s.defines_bind_of_ne (y := x) (.inl heq) v)
      rw [ht.resolve_eq, honward, hp]
      exact ih

theorem Ordered.resolve_bind_unseen (h : s.Ordered) (v : Value)
    (hother : y ≠ x ∨ ¬ s.LeadsTo x place id) :
    (s.bind place x v).1.resolve id y = s.resolve id y := by
  have ht := h.bind place x v
  induction id using Nat.strongRecOn with
  | ind id ih =>
    have hdiffers : id ≠ place ∨ y ≠ x := by
      rcases hother with hy | hunseen
      · exact .inr hy
      · exact .inl fun heq => hunseen (heq ▸ .here)
    have hdefines := s.defines_bind_of_ne hdiffers v
    have honward := onward?_congr (s.parents_bind place x v) hdefines
    rw [ht.resolve_eq, h.resolve_eq, honward, hdefines]
    cases hp : s.onward? y id with
    | none => rfl
    | some p =>
      refine ih p (h.onward?_lt hp) ?_
      by_cases hy : y = x
      · subst hy
        exact .inr fun hleads => hother.elim (· rfl) (· (.goes hp hleads))
      · exact .inl hy

theorem Ordered.extended_bind (h : s.Ordered) (hplace : place < s.depth)
    (hnew : s.defines place x = false) (v : Value) :
    s.Extended x place v (s.bind place x v).1 := by
  refine ⟨fun id hid => ?_, fun id y hother => ?_⟩
  · rw [lookup_of_resolve (h.resolve_bind_seen hplace v hid)]
    exact find?_bind hplace x v
  · have hresolve := h.resolve_bind_unseen v hother
    cases hr : s.resolve id y with
    | none => rw [lookup, lookup, hresolve, hr]; rfl
    | some r =>
      rw [lookup_of_resolve (hresolve.trans hr), lookup_of_resolve hr]
      refine s.find?_bind_of_ne ?_ v
      by_cases hy : y = x
      · -- The scope that is found binds the name, and `place` does not.
        subst hy
        have hfound : s.defines r y := find?_of_resolveWithin hr
        refine .inl fun heq => ?_
        rw [heq, hnew] at hfound
        cases hfound
      · exact .inr hy

end

theorem Ordered.extended_of_define (h : s.Ordered) {freed : Option Value} (hid : id < s.depth)
    (hdefine : s.define id x v = some (t, freed)) : s.Extended x id v t := by
  unfold define at hdefine
  split at hdefine
  · cases hdefine
  · rename_i hnew
    have ht : t = (s.bind id x v).1 := by rw [Option.some.inj hdefine]
    rw [ht]
    exact h.extended_bind hid (Bool.not_eq_true _ ▸ hnew) v

theorem define_isSome_iff : (s.define id x v).isSome ↔ s.defines id x = false := by
  rw [define]
  cases s.defines id x <;> simp

/-! ### Failures -/

theorem scopes_withCopy {b : Workbench α} {slot : String} {c : Cause}
    {f : Workbench α → Value → Finding × Workbench α}
    (hf : ∀ b v, (f b v).1 = .failed c → (f b v).2.scopes = b.scopes)
    (h : (b.withCopy slot f).1 = .failed c) : (b.withCopy slot f).2.scopes = b.scopes := by
  unfold Workbench.withCopy at h ⊢
  split
  · rfl
  · rename_i v hv
    rw [hv] at h
    exact hf _ v h

theorem scopes_of_failed_define {b : Workbench α} {handle : Nat} {slot : String} {c : Cause}
    (h : (b.define handle x slot).1 = .failed c) :
    (b.define handle x slot).2.scopes = b.scopes := by
  refine scopes_withCopy (fun b v hfailed => ?_) h
  split
  · rfl
  · rename_i hdefine
    rw [hdefine] at hfailed
    cases hfailed

theorem scopes_of_failed_assign {b : Workbench α} {handle : Nat} {slot : String} {c : Cause}
    (h : (b.assign handle x slot).1 = .failed c) :
    (b.assign handle x slot).2.scopes = b.scopes := by
  refine scopes_withCopy (fun b v hfailed => ?_) h
  split
  · rfl
  · rename_i hassign
    rw [hassign] at hfailed
    cases hfailed

/-! ### All of it together -/

/-- How scopes behave whose chains end. -/
structure Lawful (s : Scopes) : Prop where
  ends : ∀ id name, ∃ ids, s.Looks name id ids ∧
    s.resolve id name = ids.getLast?.filter (s.defines · name)
  pop : ∀ id, 0 < id → ∀ i, (s.pop id).1.arena[i]? = if i < id then s.arena[i]? else none
  assign_iff : ∀ id x v, (s.assign id x v).isSome ↔ ∃ owner, s.resolve id x = some owner
  assign : ∀ id x v owner t freed, s.resolve id x = some owner →
    s.assign id x v = some (t, freed) → s.Reassigned x owner v t
  define_iff : ∀ id x v, id < s.depth → ((s.define id x v).isSome ↔ s.defines id x = false)
  define : ∀ id x v t freed, id < s.depth → s.define id x v = some (t, freed) →
    s.Extended x id v t

theorem Ordered.lawful (h : s.Ordered) : s.Lawful where
  ends id name := by
    obtain ⟨ids, hids⟩ := h.exists_looks id name
    exact ⟨ids, hids, hids.resolve_eq⟩
  pop _ hid := s.getElem?_pop hid
  assign_iff _ _ _ := assign_isSome_iff
  assign _ _ _ _ _ _ := reassigned_of_assign
  define_iff _ _ _ _ := define_isSome_iff
  define _ _ _ _ _ := h.extended_of_define

/-- After any accesses, a search that never ends tells that some scope was opened below one that
was gone. Otherwise every search ends, and the laws of chains hold. What fails leaves the scopes as
they were. -/
theorem chains_are_lawful (as : List Access) :
    (∀ name (f : Nat → Nat), (∀ n, (initial.after as).onward? name (f n) = some (f (n + 1))) →
      ∃ before p rest, as = before ++ .push p :: rest ∧ (initial.after before).depth ≤ p) ∧
    (initial.OpensLive as → (initial.after as).Lawful) ∧
    ∀ (b : Workbench α) handle x slot c,
      ((b.define handle x slot).1 = .failed c → (b.define handle x slot).2.scopes = b.scopes) ∧
      ((b.assign handle x slot).1 = .failed c → (b.assign handle x slot).2.scopes = b.scopes) := by
  have hordered : initial.OpensLive as → (initial.after as).Ordered := ordered_initial.after
  refine ⟨fun name f hf => ?_, fun has => (hordered has).lawful, fun b handle x slot c =>
    ⟨scopes_of_failed_define, scopes_of_failed_assign⟩⟩
  by_contra hnone
  have has : initial.OpensLive as := fun before p rest heq =>
    Nat.lt_of_not_le fun hle => hnone ⟨before, p, rest, heq, hle⟩
  exact (hordered has).not_endless hf

/-- The place 2 is closed and opened again, then below another scope; a name that is new in the
scope 1 is seen from 3 and not from 2. A scope that is its own parent is searched for ever. -/
theorem chains_of_reused_place :
    let as : List Access := [.push 0, .define 0 "x" (.int 1), .push 1, .pop 2, .push 0,
      .bind 7 "x" (.int 9), .push 1]
    let s := initial.after as
    initial.OpensLive as ∧ s.Lawful ∧
      (∃ t freed, s.define 1 "x" (.int 2) = some (t, freed) ∧ t.lookup 3 "x" = some (.int 2) ∧
        t.lookup 2 "x" = some (.int 1)) ∧
      (initial.after [.push 1]).onward? "x" 1 = some 1 ∧
      ∃ before p rest, [.push 1] = before ++ .push p :: rest ∧
        (initial.after before).depth ≤ p := by
  intro as s
  have has : initial.OpensLive as := by
    simp only [as, opensLive_cons, Access.push.injEq, reduceCtorEq, false_implies, implies_true,
      forall_eq', true_and]
    refine ⟨by decide +kernel, by decide +kernel, by decide +kernel, by decide +kernel, ?_⟩
    exact fun before p rest heq => by cases before <;> cases heq
  have hlaws := (chains_are_lawful (α := Unit) as).2.1 has
  have hplace : 1 < s.depth := by decide +kernel
  obtain ⟨⟨t, freed⟩, hdefine⟩ := Option.isSome_iff_exists.mp
    ((hlaws.define_iff 1 "x" (.int 2) hplace).mpr (by decide +kernel))
  have hextended := hlaws.define 1 "x" (.int 2) t freed hplace hdefine
  have hself : (initial.after [.push 1]).onward? "x" 1 = some 1 := by decide +kernel
  refine ⟨has, hlaws, ⟨t, freed, hdefine, hextended.seen 3 (.goes (p := 1) ?_ .here), ?_⟩, hself,
    (chains_are_lawful (α := Unit) [.push 1]).1 "x" (fun _ => 1) fun _ => hself⟩
  · decide +kernel
  · rw [hextended.unseen 2 "x" (.inr ?_)]
    · decide +kernel
    · -- From the scope 2 a search goes on to the global scope and ends there.
      intro hleads
      cases hleads with
      | goes hp hrest =>
        have hglobal : s.onward? "x" 2 = some 0 := by decide +kernel
        cases hglobal.symm.trans hp
        cases hrest with
        | goes hp _ =>
          have hend : s.onward? "x" 0 = none := by decide +kernel
          cases hend.symm.trans hp

end Scopes

end Scriptlet
