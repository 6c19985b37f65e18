import Scriptlet.Proofs.Machine.Accesses
import Scriptlet.Proofs.Machine.Arena
import Scriptlet.Proofs.Scopes.Values

/-!
Every scope that a step names is there when it names it, so nothing that the scopes do silently
for a missing scope is ever done.
-/

namespace Scriptlet

variable {α : Type}

namespace Scopes

variable {s : Scopes}

theorem find?_bind {id : Nat} (hid : id < s.depth) (name : String) (v : Value) :
    (s.bind id name v).1.find? id name = some v := by
  have hs : s.arena[id]? = some s.arena[id] := Array.getElem?_eq_getElem hid
  simp [bind, hid, modify, find?, Array.getElem?_modify, hs, Bindings.find?_set]

/-- All accesses, one after the other, name scopes that are there. -/
def Serves (s : Scopes) : List Access → Prop
  | [] => True
  | a :: as => a.place < s.depth ∧ Serves (a.perform s).2 as

/-- What is certain of an access that names a scope that is there: the scopes from it upwards are
all there, a name is found in one of them if it is bound in any, and can be bound in each. -/
structure Sure (s : Scopes) (a : Access) : Prop where
  ordered : s.Ordered
  place : a.place < s.depth
  visits : ∀ i, s.Visits a.place i → i < s.depth
  found : ∀ name i, s.resolve a.place name = some i → s.Visits a.place i
  missed : ∀ name, s.resolve a.place name = none → ∀ i, s.Visits a.place i → s.find? i name = none
  binds : ∀ i, s.Visits a.place i → ∀ name v, (s.bind i name v).1.find? i name = some v

theorem Ordered.sure (h : s.Ordered) {a : Access} (ha : a.place < s.depth) : s.Sure a where
  ordered := h
  place := ha
  visits _ hi := hi.lt_depth h ha
  found _ _ hr := visits_of_resolveWithin hr
  missed _ hr := resolve_eq_none h ha hr
  binds _ hi name v := find?_bind (hi.lt_depth h ha) name v

/-- An access keeps the order, whatever scope it names, if it opens none below one that is gone. -/
theorem Ordered.perform (h : s.Ordered) {a : Access} (ha : ∀ p, a = .push p → p < s.depth) :
    (a.perform s).2.Ordered := by
  cases a with
  | define id name v =>
    simp only [Access.perform, define]
    cases s.defines id name with
    | true => exact h
    | false => exact h.bind id name v
  | bind id name v => exact h.bind id name v
  | assign id name v =>
    simp only [Access.perform, assign]
    cases s.resolve id name with
    | none => exact h
    | some owner => exact h.bind owner name v
  | lookup id name =>
    simp only [Access.perform]
    cases s.lookup id name with
    | none => exact h
    | some v => exact h
  | push parent => exact h.push (ha parent rfl)
  | pop id =>
    cases id with
    | zero => exact h
    | succ id => exact h.pop (Nat.succ_pos id)

theorem Serves.sure {before as : List Access} {a : Access} (hs : s.Serves (before ++ a :: as))
    (h : s.Ordered) : (s.after before).Sure a := by
  induction before generalizing s with
  | nil => exact h.sure hs.1
  | cons b before ih =>
    refine ih hs.2 (h.perform fun p hp => ?_)
    subst hp
    exact hs.1

theorem serves_binds {β : Type} {id : Nat} (hid : id < s.depth) (name : β → String)
    (value : β → Value) (bs : List β) {as : List Access}
    (has : ∀ t : Scopes, t.depth = s.depth → t.Serves as) :
    s.Serves (bs.map (fun b => .bind id (name b) (value b)) ++ as) := by
  induction bs generalizing s with
  | nil => exact has s rfl
  | cons b bs ih =>
    have hdepth := s.depth_bind id (name b) (value b)
    refine ⟨hid, ih ?_ fun t ht => has t (ht.trans hdepth)⟩
    exact Nat.lt_of_lt_of_eq hid hdepth.symm

end Scopes

theorem Fits.serves_closes {f : Frame α} {k : List (Frame α)} {c : Nat} {scopes : Scopes}
    (h : Fits (f :: k) scopes.depth c) : scopes.Serves f.closes := by
  cases f with
  | leave id =>
    have hdepth := h.of_leave.1
    exact ⟨by simp only [Scopes.Access.place]; omega, trivial⟩
  | finish id ref =>
    have hdepth := h.of_finish.1
    exact ⟨by simp only [Scopes.Access.place]; omega, trivial⟩
  | _ => trivial

theorem Fits.serves_accesses {f : Frame α} {k : List (Frame α)} {c : Nat} {scopes : Scopes}
    (h : Fits (f :: k) scopes.depth c) (v : Value) : scopes.Serves (f.accesses v) := by
  have hcloses := h.serves_closes
  cases f with
  | assign scope target => exact ⟨(h.of_plain (by simp) (by simp)).2, trivial⟩
  | branch scope l thenBlock elseBlock =>
    have hs : scope < scopes.depth := (h.of_plain (by simp) (by simp)).2
    cases v with
    | int i =>
      simp only [Frame.accesses]
      split
      · exact ⟨hs, trivial⟩
      · trivial
    | _ => trivial
  | test scope cond body =>
    have hs : scope < scopes.depth := (h.of_plain (by simp) (by simp)).2
    cases v with
    | int i =>
      simp only [Frame.accesses]
      split
      · exact ⟨hs, trivial⟩
      · trivial
    | _ => trivial
  | _ => exact hcloses

namespace State

variable {limit : Nat} {s : State α}

theorem Orderly.serves (h : s.Orderly limit) : s.scopes.Serves (s.accesses limit) := by
  obtain ⟨control, stack, scopes, depth, world⟩ := s
  have hc := h.control
  have hpos := h.scopes.depth_pos
  cases control with
  | eval scope e => cases e with
    | reference id => exact ⟨hc, trivial⟩
    | callAt callee args l => exact ⟨hc, trivial⟩
    | _ => trivial
  | exec scope st => cases st with
    | declare id l => exact ⟨hc, trivial⟩
    | _ => trivial
  | items rest last => cases rest with
    | nil => trivial
    | cons item rest => cases item with
      | function d => exact ⟨hpos, trivial⟩
      | stmt st => trivial
  | loop scope cond body => exact ⟨hc, trivial⟩
  | apply callee args l => cases callee with
    | builtin b => trivial
    | function ref d closure =>
      obtain ⟨rfl, -⟩ := hc
      simp only [accesses]
      split
      · trivial
      · have hframe : scopes.depth < (scopes.push Scopes.globalScope).2.depth := by
          rw [Scopes.depth_push]
          exact Nat.lt_succ_self _
        refine ⟨hpos, Scopes.serves_binds hframe _ _ _ fun t ht => ⟨?_, trivial⟩⟩
        exact Nat.lt_of_lt_of_eq hframe ht.symm
  | give v => cases stack with
    | nil => trivial
    | cons f k => exact h.fits.serves_accesses v
  | fail e => cases stack with
    | nil => trivial
    | cons f k => exact h.fits.serves_closes
  | _ => trivial

end State

end Scriptlet
