import Scriptlet.Proofs.Builtin.Balance
import Scriptlet.Proofs.Heap.Cycle
import Scriptlet.Proofs.Heap.Freed
import Scriptlet.Proofs.Scopes.Search
import Scriptlet.Workbench

/-!
Counts by hand. Whatever is done to a workbench, and in whatever order, an object is held by slots,
by elements of arrays and by bindings in scopes; its count is the number of these, and it is freed
once, when there is none left.
-/

namespace Scriptlet

variable {α : Type}

namespace Bindings

def names (b : Bindings) : List String := b.map Prod.fst

theorem names_set (b : Bindings) (name : String) (v : Value) :
    (b.set name v).names = b.names ∨
      name ∉ b.names ∧ (b.set name v).names = b.names ++ [name] := by
  induction b with
  | nil => exact .inr ⟨List.not_mem_nil, rfl⟩
  | cons e b ih =>
    obtain ⟨n, w⟩ := e
    by_cases hn : n = name
    · exact .inl (by simp [set, hn, names])
    · have hset : set name v ((n, w) :: b) = (n, w) :: set name v b := by simp [set, hn]
      rw [hset]
      rcases ih with hsame | ⟨hnew, hmore⟩
      · exact .inl (congrArg (n :: ·) hsame)
      · refine .inr ⟨?_, congrArg (n :: ·) hmore⟩
        simpa [names, Ne.symm hn] using hnew

theorem nodup_names_set {b : Bindings} (h : b.names.Nodup) (name : String) (v : Value) :
    (b.set name v).names.Nodup := by
  rcases b.names_set name v with hsame | ⟨hnew, hmore⟩
  · rwa [hsame]
  · rw [hmore]
    exact h.append (List.nodup_singleton name) (List.disjoint_singleton.mpr hnew)

theorem nodup_names_remove {b : Bindings} (h : b.names.Nodup) (name : String) :
    (b.remove name).names.Nodup := h.sublist (List.filter_sublist.map _)

theorem remove_of_not_mem {b : Bindings} {name : String} (h : name ∉ b.names) :
    b.remove name = b := by
  refine List.filter_eq_self.mpr fun e he => ?_
  have hne : e.1 ≠ name := by
    rintro rfl
    exact h (List.mem_map_of_mem he)
  simpa using hne

/-- Where every name is there once, removing it lets go of one value. -/
theorem perm_remove_values {b : Bindings} (h : b.names.Nodup) {name : String} {v : Value}
    (hv : b.find? name = some v) : (v :: (b.remove name).values).Perm b.values := by
  induction b with
  | nil => cases hv
  | cons e b ih =>
    obtain ⟨n, w⟩ := e
    obtain ⟨hnot, hrest⟩ := List.nodup_cons.mp h
    rw [find?_cons] at hv
    by_cases hn : n = name
    · obtain rfl : w = v := by simpa [hn] using hv
      have hremove : remove name ((n, w) :: b) = b := by
        have hb : remove name b = b := remove_of_not_mem (by rwa [← hn])
        simpa [remove, hn] using hb
      rw [hremove]
      exact List.Perm.refl _
    · have hremove : remove name ((n, w) :: b) = (n, w) :: remove name b := by simp [remove, hn]
      rw [hremove]
      have hb := ih hrest (by simpa [hn] using hv)
      exact (List.Perm.swap ..).trans (hb.cons w)

end Bindings

namespace Workbench

variable {b : Workbench α} {v : Value} {owed : List Value} {h₀ : Heap α}

/-- The values in slots and scopes. -/
def held (b : Workbench α) : List Value := b.slots.values ++ b.scopes.values

/-- Every count is the number of holders, besides those in `b` the values `owed`, which are on
their way to a place or about to be dropped. The heap was once `h₀`. -/
structure Exact (h₀ : Heap α) (owed : List Value) (b : Workbench α) : Prop where
  balanced : b.heap.Balanced (owed ++ b.held)
  named : b.slots.names.Nodup
  later : h₀.Later b.heap

theorem mem_held_of_slot? {name : String} (h : b.slot? name = some v) : v ∈ b.held :=
  List.mem_append_left _ (Bindings.mem_values_of_find? h)

theorem mem_held_of_array? {slot : String} {r : Nat} (h : b.array? slot = some r) :
    .array r ∈ b.held := by
  unfold array? at h
  split at h
  · rename_i hslot
    cases h
    exact mem_held_of_slot? hslot
  · cases h

theorem mem_held_of_values {names : List String} (h : v ∈ b.values names) : v ∈ b.held := by
  obtain ⟨name, -, hslot⟩ := List.mem_filterMap.mp h
  exact mem_held_of_slot? hslot

namespace Exact

theorem keeps (h : b.Exact h₀ owed) (hv : v ∈ b.held) : b.heap.Keeps v :=
  h.balanced.keeps v (List.mem_append_left _ (List.mem_append_right _ hv))

theorem retain (h : b.Exact h₀ owed) (hk : b.heap.Keeps v) :
    (b.onHeap (·.retain v)).Exact h₀ (v :: owed) :=
  ⟨h.balanced.retain hk, h.named, h.later.trans (.retain _ v)⟩

theorem releaseAll {vs : List Value} (h : b.Exact h₀ (vs ++ owed)) :
    (b.onHeap (·.releaseAll vs)).Exact h₀ owed := by
  have hb : b.heap.Balanced (vs ++ (owed ++ b.held)) := by
    rw [← List.append_assoc]
    exact h.balanced
  exact ⟨hb.releaseAll, h.named, h.later.trans (.releaseAll _ vs)⟩

theorem release (h : b.Exact h₀ [v]) : (b.onHeap (·.release v)).Exact h₀ [] := by
  have howed : b.Exact h₀ ([v] ++ []) := h
  exact howed.releaseAll

theorem of_ref?_none (h : b.Exact h₀ []) (hv : v.ref? = none) : b.Exact h₀ [v] :=
  ⟨(Heap.Balanced.cons_of_ref?_none hv).mpr h.balanced, h.named, h.later⟩

theorem store (h : b.Exact h₀ [v]) (name : String) :
    Exact h₀ (b.slot? name).toList ⟨b.slots.set name v, b.scopes, b.handles, b.world⟩ := by
  have hset := List.perm_iff_count.mp (b.slots.perm_set_values name v)
  refine ⟨h.balanced.perm (List.perm_iff_count.mpr fun w => ?_),
    Bindings.nodup_names_set h.named name v, h.later⟩
  have hw := hset w
  simp only [held, slot?, List.cons_append, List.nil_append, List.count_cons,
    List.count_append] at hw ⊢
  omega

theorem deliver (h : b.Exact h₀ [v]) (dest : Option String) : (b.deliver dest v).2.Exact h₀ [] := by
  cases dest with
  | none => exact h.release
  | some name =>
    have hstored := h.store name
    rw [← List.append_nil (b.slot? name).toList] at hstored
    exact hstored.releaseAll

theorem settle {a : World.Answer α} (h : b.Exact h₀ []) (hb : World.AnswerBalanced b.held a)
    (hp : b.heap.Later a.2.heap) (dest : Option String) : (b.settle dest a).2.Exact h₀ [] := by
  obtain ⟨answer, world⟩ := a
  have hlater : h₀.Later world.heap := h.later.trans hp
  cases answer with
  | error c => exact ⟨hb, h.named, hlater⟩
  | ok v =>
    have howed : Exact h₀ [v] ⟨b.slots, b.scopes, b.handles, world⟩ := ⟨hb, h.named, hlater⟩
    exact howed.deliver dest

theorem rescope {scopes : Scopes} {freed : List Value} (h : b.Exact h₀ owed)
    (hs : (freed ++ scopes.values).Perm (owed ++ b.scopes.values)) :
    (b.rescope scopes freed).Exact h₀ [] := by
  have hcount := List.perm_iff_count.mp hs
  have hmoved : Exact h₀ (freed ++ []) ⟨b.slots, scopes, b.handles, b.world⟩ := by
    refine ⟨h.balanced.perm (List.perm_iff_count.mpr fun w => ?_), h.named, h.later⟩
    have hw := hcount w
    simp only [held, List.count_append, List.append_nil] at hw ⊢
    omega
  exact hmoved.releaseAll

theorem withCopy {f : Workbench α → Value → Finding × Workbench α} (h : b.Exact h₀ [])
    (slot : String) (hf : ∀ b' v, b'.Exact h₀ [v] → (f b' v).2.Exact h₀ []) :
    (b.withCopy slot f).2.Exact h₀ [] := by
  unfold Workbench.withCopy
  split
  · exact h
  · rename_i v hslot
    exact hf _ v (h.retain (h.keeps (mem_held_of_slot? hslot)))

/-! ### Arrays -/

theorem items? (h : b.Exact h₀ owed) {slot : String} {r : Nat} (hr : b.array? slot = some r) :
    b.heap.items? r = some (b.heap.items r) :=
  Heap.items?_of_keeps (h.keeps (mem_held_of_array? hr))

theorem getItem (h : b.Exact h₀ []) (slot : String) (index : Int64) (dest : Option String) :
    (b.getItem slot index dest).2.Exact h₀ [] := by
  unfold Workbench.getItem
  split
  · exact h
  · rename_i r hr
    simp only
    split
    · exact h
    · rename_i n hn
      have hk := h.balanced.keeps_item (h.items? hr) (World.position?_lt hn)
      exact (h.retain hk).deliver dest

theorem setItem (h : b.Exact h₀ []) (slot : String) (index : Int64) (value : String)
    (dest : Option String) : (b.setItem slot index value dest).2.Exact h₀ [] := by
  unfold Workbench.setItem
  split
  · rename_i r v hr hv
    simp only
    split
    · exact h
    · rename_i n hn
      have hcopy := h.retain (h.keeps (mem_held_of_slot? hv))
      have hr' : (b.onHeap (·.retain v)).array? slot = some r := hr
      have hitems := hcopy.items? hr'
      have hsame : (b.onHeap (·.retain v)).heap.items r = b.heap.items r :=
        congrArg (·.getD #[]) (b.heap.items?_retain v r)
      rw [hsame] at hitems
      have howed : Exact h₀ [(b.heap.items r).getD n default]
          (b.onHeap fun h => (h.retain v).modifyItems r (·.setIfInBounds n v)) :=
        ⟨hcopy.balanced.replaceItem hitems (World.position?_lt hn), h.named,
          hcopy.later.trans (.modifyItems _ r _)⟩
      exact howed.deliver dest
  · exact h

theorem pushItem (h : b.Exact h₀ []) (slot value : String) :
    (b.pushItem slot value).2.Exact h₀ [] := by
  unfold Workbench.pushItem
  split
  · rename_i r v hr hv
    have hcopy := h.retain (h.keeps (mem_held_of_slot? hv))
    have hr' : (b.onHeap (·.retain v)).array? slot = some r := hr
    exact ⟨hcopy.balanced.appendItem (hcopy.items? hr'), h.named,
      hcopy.later.trans (.modifyItems _ r _)⟩
  · exact h

theorem popItem (h : b.Exact h₀ []) (slot : String) (dest : Option String) :
    (b.popItem slot dest).2.Exact h₀ [] := by
  unfold Workbench.popItem
  split
  · exact h
  · rename_i r hr
    split
    · exact h
    · rename_i v hback
      have howed : Exact h₀ [v] (b.onHeap (·.modifyItems r Array.pop)) :=
        ⟨h.balanced.dropItem (h.items? hr) hback, h.named, h.later.trans (.modifyItems _ r _)⟩
      exact howed.deliver dest

/-! ### Slots and scopes -/

theorem drop (h : b.Exact h₀ []) (slot : String) : (b.drop slot).2.Exact h₀ [] := by
  unfold Workbench.drop
  split
  · exact h
  · rename_i v hv
    have hperm := List.perm_iff_count.mp (Bindings.perm_remove_values h.named hv)
    have howed : Exact h₀ [v] ⟨b.slots.remove slot, b.scopes, b.handles, b.world⟩ := by
      refine ⟨h.balanced.perm (List.perm_iff_count.mpr fun w => ?_),
        Bindings.nodup_names_remove h.named slot, h.later⟩
      have hw := hperm w
      simp only [held, List.nil_append, List.cons_append, List.count_cons,
        List.count_append] at hw ⊢
      omega
    exact howed.release

theorem bindIn (h : b.Exact h₀ [v]) (id : Nat) (name : String) :
    (b.rescope (b.scopes.bind id name v).1 (b.scopes.bind id name v).2.toList).Exact h₀ [] :=
  h.rescope (b.scopes.perm_bind_values id name v)

theorem define (h : b.Exact h₀ []) (handle : Nat) (name slot : String) :
    (b.define handle name slot).2.Exact h₀ [] := by
  refine h.withCopy slot fun b' v hb' => ?_
  simp only [Scopes.define]
  cases b'.scopes.defines (b'.place handle) name with
  | true => exact hb'.release
  | false => exact hb'.bindIn _ name

theorem assign (h : b.Exact h₀ []) (handle : Nat) (name slot : String) :
    (b.assign handle name slot).2.Exact h₀ [] := by
  refine h.withCopy slot fun b' v hb' => ?_
  simp only [Scopes.assign]
  cases b'.scopes.resolve (b'.place handle) name with
  | none => exact hb'.release
  | some owner => exact hb'.bindIn owner name

theorem lookup (h : b.Exact h₀ []) (handle : Nat) (name : String) (dest : Option String) :
    (b.lookup handle name dest).2.Exact h₀ [] := by
  unfold Workbench.lookup
  split
  · exact h
  · rename_i v hv
    have hmem : v ∈ b.held := List.mem_append_right _ (b.scopes.mem_values_of_lookup hv)
    exact (h.retain (h.keeps hmem)).deliver dest

theorem pushScope (h : b.Exact h₀ []) (parent : Nat) : (b.pushScope parent).2.Exact h₀ [] := by
  have hheld : (b.pushScope parent).2.held = b.held :=
    congrArg (b.slots.values ++ ·) (b.scopes.values_push (b.place parent))
  refine ⟨?_, h.named, h.later⟩
  rw [hheld]
  exact h.balanced

theorem popScope (h : b.Exact h₀ []) (handle : Nat) : (b.popScope handle).2.Exact h₀ [] := by
  refine h.rescope (List.perm_append_comm.trans (List.Perm.of_eq ?_))
  exact b.scopes.values_pop (b.place handle)

/-- Nothing that can be done to a workbench makes a count wrong, be it done or refused. -/
theorem perform (h : b.Exact h₀ []) (op : Operation α) : (b.perform op).2.Exact h₀ [] := by
  cases op with
  | int i dest => exact (h.of_ref?_none rfl).deliver dest
  | string text dest =>
    exact h.settle (World.balanced_newString h.balanced text)
      (b.world.worked_newString text).later dest
  | array items dest =>
    exact h.settle (World.balanced_newArray h.balanced fun v => mem_held_of_values)
      (b.world.worked_newArray _).later dest
  | function d handle dest =>
    have hmade : World.AnswerBalanced b.held
        (b.world.make (.function d (b.place handle)) .function) :=
      Heap.Balanced.alloc (o := .function d (b.place handle)) (v := .function b.heap.cells.size)
        h.balanced rfl rfl
    exact h.settle hmade (.alloc _ _) dest
  | builtin name dest =>
    cases hb : (Builtin.ofName? name).map Value.builtin with
    | none =>
      rw [Workbench.perform, hb]
      exact h
    | some v =>
      rw [Workbench.perform, hb]
      obtain ⟨f, -, rfl⟩ := Option.map_eq_some_iff.mp hb
      exact (h.of_ref?_none rfl).deliver dest
  | initial dest => exact (h.of_ref?_none rfl).deliver dest
  | copy slot dest => exact h.withCopy slot fun _ _ hb => hb.deliver dest
  | drop slot => exact h.drop slot
  | getItem slot index dest => exact h.getItem slot index dest
  | setItem slot index value dest => exact h.setItem slot index value dest
  | pushItem slot value => exact h.pushItem slot value
  | popItem slot dest => exact h.popItem slot dest
  | invoke f args dest =>
    exact h.settle (f.balanced_invoke_of_mem h.balanced fun v => mem_held_of_values)
      (f.worked_invoke _ b.world).later dest
  | pushScope parent => exact h.pushScope parent
  | popScope handle => exact h.popScope handle
  | define handle name slot => exact h.define handle name slot
  | assign handle name slot => exact h.assign handle name slot
  | bind handle name slot => exact h.withCopy slot fun _ _ hb => hb.bindIn _ name
  | lookup handle name dest => exact h.lookup handle name dest

end Exact

/-- The workbench after some operations, one after the other. -/
def after (b : Workbench α) (ops : List (Operation α)) : Workbench α :=
  ops.foldl (fun b op => (b.perform op).2) b

/-- The objects that some operations free, as they come. -/
def releases (b : Workbench α) : List (Operation α) → List Nat
  | [] => []
  | op :: ops => b.heap.freed (b.perform op).2.heap ++ (b.perform op).2.releases ops

theorem exact_new (input : Input) (sink : Sink) :
    (new input sink : Workbench α).Exact .empty [] := ⟨.empty, List.nodup_nil, .refl _⟩

theorem Exact.rebase (h : b.Exact h₀ []) : b.Exact b.heap [] := ⟨h.balanced, h.named, .refl _⟩

theorem Exact.after (h : b.Exact h₀ []) (ops : List (Operation α)) :
    (b.after ops).Exact h₀ [] := by
  induction ops generalizing b with
  | nil => exact h
  | cons op ops ih => exact ih (h.perform op)

/-- Nothing is freed twice. -/
theorem Exact.count_releases (h : b.Exact h₀ []) (ops : List (Operation α)) (r : Nat) :
    (b.releases ops).count r = if (b.after ops).heap.Gone r ∧ ¬ b.heap.Gone r then 1 else 0 := by
  induction ops generalizing b h₀ with
  | nil =>
    have hnot : ¬ ((b.after []).heap.Gone r ∧ ¬ b.heap.Gone r) := fun hr => hr.2 hr.1
    rw [if_neg hnot]
    rfl
  | cons op ops ih =>
    have hnext := h.rebase.perform op
    have hearlier : b.heap.Gone r → (b.perform op).2.heap.Gone r := hnext.later r
    have hlater : (b.perform op).2.heap.Gone r → (b.after (op :: ops)).heap.Gone r :=
      (hnext.rebase.after ops).later r
    rw [releases, List.count_append, Heap.count_freed, ih hnext]
    change _ + (if (b.after (op :: ops)).heap.Gone r ∧ _ then 1 else 0) = _
    by_cases hmid : (b.perform op).2.heap.Gone r
    · simp [hmid, hlater hmid]
    · simp [hmid, mt hearlier hmid]

theorem Exact.gone_iff (h : b.Exact h₀ []) {r : Nat} (hr : r < b.heap.cells.size) :
    b.heap.Gone r ↔ b.heap.countAt r = 0 := by
  cases hc : b.heap.cell? r with
  | none => simp [Heap.Gone, hr, hc, Heap.countAt_of_none hc]
  | some c =>
    have hpos := h.balanced.positive r c hc
    simp [Heap.Gone, hc, Heap.countAt_of_cell? hc, Nat.ne_of_gt hpos]

/-- After any operations, done or refused, every object that lives counts the slots, elements of
arrays and bindings that hold it, at least one; and all that is held lives. Of the objects made so
far, the others were freed, each of them once. The names in the operations are found by searches
along the parents of scopes. Parents that form a circle can make a search without an end, to which
there is no answer and so no state behind it; here it finds nothing. -/
theorem counts_are_exact (input : Input) (sink : Sink) (ops : List (Operation α)) :
    let b := (new input sink : Workbench α).after ops
    let holding := b.slots.values ++ b.heap.contents ++ b.scopes.values
    (∀ r c, b.heap.cell? r = some c → 0 < c.count ∧ c.count = holders r holding) ∧
    (∀ v ∈ holding, ∀ r, v.ref? = some r →
      ∃ c, b.heap.cell? r = some c ∧ c.object.kind = v.kind) ∧
    (∀ r < b.heap.cells.size, ((new input sink : Workbench α).releases ops).count r =
      if holders r holding = 0 then 1 else 0) ∧
    b.heap.live = (new input sink : Workbench α).heap.live + b.heap.places.length ∧
    ∀ id name,
      (∃ ids, b.scopes.Looks name id ids ∧
        b.scopes.resolve id name = ids.getLast?.filter (b.scopes.defines · name)) ∨
      (∀ ids, ¬ b.scopes.Looks name id ids) ∧ b.scopes.resolve id name = none := by
  intro b holding
  have h : b.Exact .empty [] := (exact_new input sink).after ops
  have hholding : ∀ r, holders r holding = b.heap.countAt r := by
    intro r
    rw [h.balanced.count]
    simp only [holding, held, holders_append, holders_nil]
    omega
  refine ⟨fun r c hc => ?_, fun v hv => ?_, fun r hr => ?_, ?_, b.scopes.resolve_cases⟩
  · rw [hholding, Heap.countAt_of_cell? hc]
    exact ⟨h.balanced.positive r c hc, rfl⟩
  · refine h.balanced.keeps v ?_
    simp only [holding, held, List.mem_append] at hv ⊢
    tauto
  · have hnew : ¬ (new input sink : Workbench α).heap.Gone r := fun hgone =>
      Nat.not_lt_zero r hgone.1
    rw [(exact_new input sink).count_releases ops r, hholding]
    exact if_congr ((and_iff_left hnew).trans (h.gone_iff hr)) rfl rfl
  · rw [h.balanced.live_eq]
    exact (Nat.zero_add _).symm

end Workbench

end Scriptlet
