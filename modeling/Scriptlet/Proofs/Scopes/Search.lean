import Scriptlet.Proofs.Scopes.Likeness

/-!
Searching for a name. A search goes from a scope to its parent, and what it finds hangs on the names
alone. A search that ends looks at no scope twice, so the number of scopes is bound enough for it;
one without an end finds nothing. Where every scope but the first has its parent before it, all
searches end.
-/

namespace Scriptlet

namespace Scopes

variable {s t : Scopes} {id : Nat} {name : String}

theorem resolveWithin_succ (s : Scopes) (name : String) (n id : Nat) :
    s.resolveWithin name (n + 1) id =
      if s.defines id name then some id
      else match s.parents[id]? with
        | some (some p) => s.resolveWithin name n p
        | _ => none := by
  rw [resolveWithin, defines, find?, parents, List.getElem?_map, Array.getElem?_toList]
  cases s.arena[id]? with
  | none => rfl
  | some f => cases hp : f.parent <;> simp [hp]

/-- Which scope binds a name hangs on the names alone, not on the values. -/
theorem resolve_congr (hparents : t.parents = s.parents)
    (hdefines : ∀ i name, t.defines i name = s.defines i name) (id : Nat) (name : String) :
    t.resolve id name = s.resolve id name := by
  have hwithin : ∀ n id, t.resolveWithin name n id = s.resolveWithin name n id := by
    intro n
    induction n with
    | zero => exact fun _ => rfl
    | succ n ih =>
      intro id
      rw [resolveWithin_succ, resolveWithin_succ, hparents, hdefines]
      simp only [ih]
  have hdepth : t.depth = s.depth := by rw [← length_parents, hparents, length_parents]
  rw [resolve, resolve, hdepth, hwithin]

theorem find?_of_resolveWithin {n owner : Nat} (h : s.resolveWithin name n id = some owner) :
    (s.find? owner name).isSome := by
  induction n generalizing id with
  | zero => cases h
  | succ n ih =>
    simp only [resolveWithin] at h
    split at h
    · cases h
    · rename_i scope hs
      split at h
      · rename_i hfound
        cases h
        simpa [find?, hs] using hfound
      · split at h
        · cases h
        · exact ih h

theorem resolve_of_lookup_none (h : s.lookup id name = none) : s.resolve id name = none := by
  cases hr : s.resolve id name with
  | none => rfl
  | some owner =>
    have hfound := find?_of_resolveWithin hr
    have hnone : s.find? owner name = none := by simpa [lookup, hr] using h
    rw [hnone] at hfound
    cases hfound

/-! ### Names after a binding -/

theorem find?_bind_of_ne (s : Scopes) {id i : Nat} {name other : String}
    (h : i ≠ id ∨ other ≠ name) (v : Value) :
    (s.bind id name v).1.find? i other = s.find? i other := by
  rw [find?, find?, getElem?_bind]
  by_cases hi : id = i
  · subst hi
    have hname : name ≠ other := (h.resolve_left fun hne => hne rfl).symm
    cases s.arena[id]? with
    | none => simp
    | some f => simp [Bindings.find?_set_of_ne f.bindings hname]
  · rw [if_neg hi]

theorem defines_bind (s : Scopes) {id : Nat} {name : String} (hid : s.defines id name) (v : Value)
    (i : Nat) (other : String) : (s.bind id name v).1.defines i other = s.defines i other := by
  simp only [defines, find?, getElem?_bind] at hid ⊢
  by_cases hi : id = i
  · subst hi
    cases hs : s.arena[id]? with
    | none => simp [hs] at hid
    | some scope =>
      by_cases hname : name = other
      · subst hname
        simpa [hs, Bindings.find?_set] using hid
      · simp [Bindings.find?_set_of_ne _ hname]
  · simp [hi]

/-! ### A search without a bound -/

/-- Where a search for a name goes on to from `id`; nowhere if it ends there. -/
def onward? (s : Scopes) (name : String) (id : Nat) : Option Nat :=
  if s.defines id name then none else s.parents[id]?.join

theorem resolveWithin_onward? (s : Scopes) (name : String) (n id : Nat) :
    s.resolveWithin name (n + 1) id = match s.onward? name id with
      | some p => s.resolveWithin name n p
      | none => if s.defines id name then some id else none := by
  rw [resolveWithin_succ, onward?]
  by_cases hd : s.defines id name = true
  · simp [hd]
  · rcases s.parents[id]? with _ | _ | p <;> simp [hd]

theorem onward?_congr (hparents : t.parents = s.parents)
    (hdefines : t.defines id name = s.defines id name) :
    t.onward? name id = s.onward? name id := by rw [onward?, onward?, hparents, hdefines]

theorem defines_of_depth_le (h : s.depth ≤ id) (name : String) : s.defines id name = false := by
  have hnone : s.arena[id]? = none := Array.getElem?_eq_none h
  simp [defines, find?, hnone]

theorem lt_depth_of_defines (h : s.defines id name) : id < s.depth := by
  by_contra hge
  rw [defines_of_depth_le (by omega)] at h
  cases h

theorem onward?_of_depth_le (h : s.depth ≤ id) (name : String) : s.onward? name id = none := by
  have hnone : s.parents[id]? = none := List.getElem?_eq_none (by simpa using h)
  simp [onward?, hnone]

theorem Ordered.onward?_lt (h : s.Ordered) {p : Nat} (hp : s.onward? name id = some p) :
    p < id := by
  unfold onward? at hp
  split at hp
  · cases hp
  · have hparent : s.parents[id]? = some (some p) := Option.join_eq_some_iff.mp hp
    have hid : id < s.depth := by simpa using (List.getElem?_eq_some_iff.mp hparent).1
    by_cases hzero : id = 0
    · rw [hzero] at hparent
      cases h.first.symm.trans hparent
    · obtain ⟨q, hq, hpq⟩ := h.parent id (by omega) hid
      cases hpq.symm.trans hparent
      exact hq

/-- The scopes that a search for a name looks at from `id` on; the last one is where it ends. -/
inductive Looks (s : Scopes) (name : String) : Nat → List Nat → Prop
  | ends {id : Nat} (h : s.onward? name id = none) : Looks s name id [id]
  | goes {id p : Nat} {ids : List Nat} (h : s.onward? name id = some p)
    (hrest : Looks s name p ids) : Looks s name id (id :: ids)

namespace Looks

variable {ids ids' : List Nat}

theorem ne_nil (h : s.Looks name id ids) : ids ≠ [] := by
  cases h <;> exact List.cons_ne_nil _ _

theorem getLast?_cons (h : s.Looks name id ids) (i : Nat) :
    (i :: ids).getLast? = ids.getLast? := List.getLast?_cons_of_ne_nil h.ne_nil

theorem unique (h : s.Looks name id ids) (h' : s.Looks name id ids') : ids = ids' := by
  induction h generalizing ids' with
  | ends hp =>
    cases h' with
    | ends _ => rfl
    | goes hp' _ => cases hp.symm.trans hp'
  | goes hp _ ih =>
    cases h' with
    | ends hp' => cases hp.symm.trans hp'
    | goes hp' hrest' =>
      cases hp.symm.trans hp'
      rw [ih hrest']

theorem exists_suffix (h : s.Looks name id ids) {i : Nat} (hi : i ∈ ids) :
    ∃ rest, s.Looks name i rest ∧ rest <:+ ids := by
  induction h with
  | ends hp =>
    obtain rfl := List.mem_singleton.mp hi
    exact ⟨_, .ends hp, List.suffix_rfl⟩
  | goes hp hrest ih =>
    rcases List.mem_cons.mp hi with rfl | hi
    · exact ⟨_, .goes hp hrest, List.suffix_rfl⟩
    · obtain ⟨rest, hlooks, hsuffix⟩ := ih hi
      exact ⟨rest, hlooks, hsuffix.trans (List.suffix_cons _ _)⟩

/-- A search that comes back to a scope never ends. -/
theorem nodup (h : s.Looks name id ids) : ids.Nodup := by
  induction h with
  | ends _ => simp
  | goes hp hrest ih =>
    refine List.nodup_cons.mpr ⟨fun hback => ?_, ih⟩
    obtain ⟨rest, hlooks, hsuffix⟩ := hrest.exists_suffix hback
    have hle := hsuffix.length_le
    rw [hlooks.unique (.goes hp hrest), List.length_cons] at hle
    omega

theorem lt_depth (h : s.Looks name id ids) {owner : Nat} (hlast : ids.getLast? = some owner)
    (howner : owner < s.depth) : ∀ i ∈ ids, i < s.depth := by
  induction h with
  | ends _ =>
    cases hlast
    exact List.forall_mem_singleton.mpr howner
  | goes hp hrest ih =>
    refine List.forall_mem_cons.mpr ⟨?_, ih ((hrest.getLast?_cons _).symm.trans hlast)⟩
    by_contra hge
    rw [onward?_of_depth_le (by omega)] at hp
    cases hp

/-- A bound matters only to a search that would find the name beyond it. -/
theorem resolveWithin_eq (h : s.Looks name id ids) {n : Nat}
    (hn : ids.getLast?.filter (s.defines · name) = none ∨ ids.length ≤ n) :
    s.resolveWithin name n id = ids.getLast?.filter (s.defines · name) := by
  induction h generalizing n with
  | @ends id hp =>
    cases n with
    | zero => exact (hn.resolve_right (Nat.not_succ_le_zero _)).symm
    | succ n =>
      rw [resolveWithin_onward?, hp]
      simp [Option.filter]
  | goes hp hrest ih =>
    rw [hrest.getLast?_cons] at hn ⊢
    cases n with
    | zero => exact (hn.resolve_right (Nat.not_succ_le_zero _)).symm
    | succ n =>
      rw [resolveWithin_onward?, hp]
      exact ih (hn.imp_right Nat.le_of_succ_le_succ)

/-- The number of scopes is bound enough for a search that ends. -/
theorem resolve_eq (h : s.Looks name id ids) :
    s.resolve id name = ids.getLast?.filter (s.defines · name) := by
  refine h.resolveWithin_eq ?_
  cases hfound : ids.getLast?.filter (s.defines · name) with
  | none => exact .inl rfl
  | some owner =>
    obtain ⟨hlast, hdefines⟩ := Option.filter_eq_some_iff.mp hfound
    have hsubset : ids ⊆ List.range s.depth := fun i hi =>
      List.mem_range.mpr (h.lt_depth hlast (lt_depth_of_defines hdefines) i hi)
    have hle := (List.subperm_of_subset h.nodup hsubset).length_le
    rw [List.length_range] at hle
    exact .inr hle

end Looks

theorem exists_looks_of_resolveWithin {n owner : Nat}
    (h : s.resolveWithin name n id = some owner) : ∃ ids, s.Looks name id ids := by
  induction n generalizing id with
  | zero => cases h
  | succ n ih =>
    rw [resolveWithin_onward?] at h
    cases hp : s.onward? name id with
    | none => exact ⟨[id], .ends hp⟩
    | some p =>
      rw [hp] at h
      obtain ⟨ids, hids⟩ := ih h
      exact ⟨id :: ids, .goes hp hids⟩

/-- A search that ends is answered by the scope where it ends; a search without an end finds
nothing. -/
theorem resolve_cases (s : Scopes) (id : Nat) (name : String) :
    (∃ ids, s.Looks name id ids ∧ s.resolve id name = ids.getLast?.filter (s.defines · name)) ∨
      (∀ ids, ¬ s.Looks name id ids) ∧ s.resolve id name = none := by
  by_cases hends : ∃ ids, s.Looks name id ids
  · obtain ⟨ids, hids⟩ := hends
    exact .inl ⟨ids, hids, hids.resolve_eq⟩
  · refine .inr ⟨not_exists.mp hends, ?_⟩
    cases hr : s.resolve id name with
    | none => rfl
    | some owner => exact absurd (exists_looks_of_resolveWithin hr) hends

theorem Ordered.exists_looks (h : s.Ordered) (id : Nat) (name : String) :
    ∃ ids, s.Looks name id ids := by
  induction id using Nat.strongRecOn with
  | ind id ih =>
    cases hp : s.onward? name id with
    | none => exact ⟨[id], .ends hp⟩
    | some p =>
      obtain ⟨ids, hids⟩ := ih p (h.onward?_lt hp)
      exact ⟨id :: ids, .goes hp hids⟩

/-- A search that goes on finds what the search from there finds. -/
theorem Ordered.resolve_eq (h : s.Ordered) (id : Nat) (name : String) :
    s.resolve id name = match s.onward? name id with
      | some p => s.resolve p name
      | none => if s.defines id name then some id else none := by
  obtain ⟨ids, hids⟩ := h.exists_looks id name
  rw [hids.resolve_eq]
  cases hids with
  | ends hp =>
    rw [hp]
    simp [Option.filter]
  | goes hp hrest => rw [hp, hrest.getLast?_cons, ← hrest.resolve_eq]

end Scopes

end Scriptlet
