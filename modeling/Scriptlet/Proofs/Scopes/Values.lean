import Scriptlet.Proofs.Heap.Balance
import Scriptlet.Scopes

/-!
The values that scopes hold, before and after each operation. What an operation hands back is
exactly what is held no more.
-/

namespace Scriptlet

namespace Bindings

theorem find?_cons (n : String) (w : Value) (b : Bindings) (name : String) :
    find? ((n, w) :: b) name = if n = name then some w else b.find? name := by
  rw [find?, List.lookup_cons]
  by_cases hn : n = name
  · simp [hn]
  · have hne : (name == n) = false := by simp [Ne.symm hn]
    simp [hn, hne, find?]

theorem find?_set (b : Bindings) (name : String) (v : Value) :
    (b.set name v).find? name = some v := by
  induction b with
  | nil => simp [set, find?]
  | cons e b ih =>
    obtain ⟨n, w⟩ := e
    by_cases hn : n = name
    · simp [set, hn, find?_cons]
    · simp [set, hn, find?_cons, ih]

theorem perm_set_values (b : Bindings) (name : String) (v : Value) :
    ((b.find? name).toList ++ (b.set name v).values).Perm (v :: b.values) := by
  induction b with
  | nil => exact List.Perm.refl _
  | cons e b ih =>
    obtain ⟨n, w⟩ := e
    by_cases hn : n = name
    · have hfind : find? ((n, w) :: b) name = some w := by simp [find?_cons, hn]
      have hset : set name v ((n, w) :: b) = (n, v) :: b := by simp [set, hn]
      rw [hfind, hset]
      exact List.Perm.swap ..
    · have hfind : find? ((n, w) :: b) name = find? b name := by simp [find?_cons, hn]
      have hset : set name v ((n, w) :: b) = (n, w) :: set name v b := by simp [set, hn]
      rw [hfind, hset]
      have hmiddle : ((find? b name).toList ++ w :: values (set name v b)).Perm
          (w :: ((find? b name).toList ++ values (set name v b))) := List.perm_middle
      exact hmiddle.trans ((ih.cons w).trans (List.Perm.swap ..))

theorem mem_values_of_find? {b : Bindings} {name : String} {v : Value} (h : b.find? name = some v) :
    v ∈ b.values := by
  induction b with
  | nil => simp [find?] at h
  | cons e b ih =>
    obtain ⟨n, w⟩ := e
    rw [find?_cons] at h
    split at h
    · cases h
      exact List.mem_cons_self
    · exact List.mem_cons_of_mem w (ih h)

end Bindings

namespace Scopes

variable (s : Scopes)

theorem values_push (parent : Nat) : (s.push parent).2.values = s.values := by
  simp [push, values, Bindings.values]

theorem freed_pop {id : Nat} (hid : 0 < id) :
    (s.pop id).2 = (s.arena.toList.drop id).flatMap fun f => f.bindings.values := by
  have hne : id ≠ globalScope := Nat.ne_of_gt hid
  have hdrop : (s.arena.drop id).toList = s.arena.toList.drop id := by
    simp [List.take_of_length_le]
  rw [pop, if_neg hne, hdrop]

theorem values_pop (id : Nat) : (s.pop id).1.values ++ (s.pop id).2 = s.values := by
  by_cases hid : id = globalScope
  · rw [pop, if_pos hid]
    exact List.append_nil _
  · rw [freed_pop s (Nat.pos_of_ne_zero hid), pop, if_neg hid]
    simp only [values, Array.toList_shrink]
    rw [← List.flatMap_append, List.take_append_drop]

theorem mem_values {id : Nat} {scope : Scope} {v : Value} (hs : s.arena[id]? = some scope)
    (hv : v ∈ scope.bindings.values) : v ∈ s.values :=
  List.mem_flatMap.mpr ⟨scope, List.mem_of_getElem? (Array.getElem?_toList ▸ hs), hv⟩

theorem mem_values_of_find? {id : Nat} {name : String} {v : Value} (h : s.find? id name = some v) :
    v ∈ s.values := by
  unfold find? at h
  cases hs : s.arena[id]? with
  | none => simp [hs] at h
  | some scope => exact s.mem_values hs (Bindings.mem_values_of_find? (by simpa [hs] using h))

theorem mem_values_of_lookup {id : Nat} {name : String} {v : Value}
    (h : s.lookup id name = some v) : v ∈ s.values := by
  unfold lookup at h
  cases hr : s.resolve id name with
  | none => simp [hr] at h
  | some r =>
    have hfind : s.find? r name = some v := by simpa [hr] using h
    exact s.mem_values_of_find? hfind

theorem perm_bind_values (id : Nat) (name : String) (v : Value) :
    ((s.bind id name v).2.toList ++ (s.bind id name v).1.values).Perm (v :: s.values) := by
  unfold bind
  split
  · rename_i hid
    obtain ⟨scope, hs⟩ : ∃ scope, s.arena[id]? = some scope := ⟨_, Array.getElem?_eq_getElem hid⟩
    have hlist : s.arena.toList[id]? = some scope := by rw [Array.getElem?_toList]; exact hs
    have hset := perm_set hlist ⟨scope.bindings.set name v, scope.parent⟩
    have hflat := hset.flatMap_right fun f : Scope => f.bindings.values
    have hbindings := scope.bindings.perm_set_values name v
    have hfind : s.find? id name = scope.bindings.find? name := by simp [find?, hs]
    have hmodify : (s.modify id (Bindings.set name v)).values =
        (s.arena.toList.set id ⟨scope.bindings.set name v, scope.parent⟩).flatMap
          fun f => f.bindings.values := by
      simp [values, modify, List.modify_eq_set, hs]
    rw [hfind, hmodify]
    rw [List.perm_iff_count] at hflat hbindings ⊢
    intro w
    have hw := hflat w
    have hw' := hbindings w
    simp only [List.flatMap_cons, List.count_append, List.count_cons] at hw hw' ⊢
    simp only [values]
    omega
  · exact List.Perm.refl _

end Scopes

end Scriptlet
