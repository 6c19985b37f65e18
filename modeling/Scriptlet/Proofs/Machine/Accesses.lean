import Scriptlet.Proofs.Machine.Fields
import Scriptlet.Proofs.Scopes.Parents

/-!
What a step asks of the scopes. The list of its accesses is all there is between a step and the
scopes: it does to them what the accesses do, and all it learns of them are the replies.
-/

namespace Scriptlet

variable {α : Type}

namespace Scopes

inductive Access
  | define (id : Nat) (name : String) (v : Value)
  | bind (id : Nat) (name : String) (v : Value)
  | assign (id : Nat) (name : String) (v : Value)
  | lookup (id : Nat) (name : String)
  | push (parent : Nat)
  | pop (id : Nat)

/-- What is learned from an access: that it is refused, the value looked up, what is held no more,
or which scope was opened. -/
inductive Reply
  | refused
  | found (v : Value)
  | freed (vs : List Value)
  | opened (id : Nat)

namespace Access

def place : Access → Nat
  | define id _ _ => id
  | bind id _ _ => id
  | assign id _ _ => id
  | lookup id _ => id
  | push parent => parent
  | pop id => id

def perform (s : Scopes) : Access → Reply × Scopes
  | define id name v => match s.define id name v with
    | none => (.refused, s)
    | some (s, freed) => (.freed freed.toList, s)
  | bind id name v => match s.bind id name v with
    | (s, freed) => (.freed freed.toList, s)
  | assign id name v => match s.assign id name v with
    | none => (.refused, s)
    | some (s, freed) => (.freed freed.toList, s)
  | lookup id name => match s.lookup id name with
    | none => (.refused, s)
    | some v => (.found v, s)
  | push parent => match s.push parent with
    | (id, s) => (.opened id, s)
  | pop id => match s.pop id with
    | (s, freed) => (.freed freed, s)

end Access

variable {s t : Scopes} {id : Nat} {name : String} {v : Value}

/-- The scopes after some accesses, one after the other. -/
def after (s : Scopes) (as : List Access) : Scopes := as.foldl (fun s a => (a.perform s).2) s

def replies (s : Scopes) : List Access → List Reply
  | [] => []
  | a :: as => (a.perform s).1 :: replies (a.perform s).2 as

theorem after_lookup (s : Scopes) (id : Nat) (name : String) : s.after [.lookup id name] = s := by
  simp only [after, List.foldl, Access.perform]
  split <;> rfl

theorem after_append (s : Scopes) (as bs : List Access) :
    s.after (as ++ bs) = (s.after as).after bs := List.foldl_append

theorem replies_append (s : Scopes) (as bs : List Access) :
    s.replies (as ++ bs) = s.replies as ++ (s.after as).replies bs := by
  induction as generalizing s with
  | nil => rfl
  | cons a as ih => exact congrArg _ (ih (a.perform s).2)

theorem length_replies (s : Scopes) (as : List Access) : (s.replies as).length = as.length := by
  induction as generalizing s with
  | nil => rfl
  | cons a as ih => exact congrArg (· + 1) (ih (a.perform s).2)

theorem replies_append_eq (as : List Access) {bs : List Access}
    (h : t.replies (as ++ bs) = s.replies (as ++ bs)) :
    t.replies as = s.replies as ∧ (t.after as).replies bs = (s.after as).replies bs := by
  rw [replies_append, replies_append] at h
  exact List.append_inj h ((length_replies t as).trans (length_replies s as).symm)

/-! ### What a reply tells -/

theorem lookup_of_reply (h : t.replies [.lookup id name] = s.replies [.lookup id name]) :
    t.lookup id name = s.lookup id name := by
  simp only [replies, Access.perform, List.cons.injEq, and_true] at h
  cases ht : t.lookup id name with
  | none =>
    cases hs : s.lookup id name with
    | none => rfl
    | some w => simp [ht, hs] at h
  | some u =>
    cases hs : s.lookup id name with
    | none => simp [ht, hs] at h
    | some w => simpa [ht, hs] using h

theorem freed_of_bind_reply (h : t.replies [.bind id name v] = s.replies [.bind id name v]) :
    (t.bind id name v).2.toList = (s.bind id name v).2.toList := by
  simpa only [replies, Access.perform, List.cons.injEq, and_true, Reply.freed.injEq] using h

theorem freed_of_pop_reply (h : t.replies [.pop id] = s.replies [.pop id]) :
    (t.pop id).2 = (s.pop id).2 := by
  simpa only [replies, Access.perform, List.cons.injEq, and_true, Reply.freed.injEq] using h

theorem depth_of_push_reply (h : t.replies [.push id] = s.replies [.push id]) :
    t.depth = s.depth := by
  simpa only [replies, Access.perform, push, depth, List.cons.injEq, and_true,
    Reply.opened.injEq] using h

theorem freed_of_define_reply (h : t.replies [.define id name v] = s.replies [.define id name v]) :
    t.defines id name = s.defines id name ∧ (s.defines id name = false →
      (t.bind id name v).2.toList = (s.bind id name v).2.toList) := by
  simp only [replies, Access.perform, define, List.cons.injEq, and_true] at h
  cases ht : t.defines id name <;> cases hs : s.defines id name <;> simp_all

theorem freed_of_assign_reply (h : t.replies [.assign id name v] = s.replies [.assign id name v]) :
    (t.resolve id name = none ∧ s.resolve id name = none) ∨
      ∃ p q, t.resolve id name = some p ∧ s.resolve id name = some q ∧
        (t.bind p name v).2.toList = (s.bind q name v).2.toList := by
  simp only [replies, Access.perform, assign, List.cons.injEq, and_true] at h
  cases ht : t.resolve id name <;> cases hs : s.resolve id name <;> simp_all

end Scopes

/-! ### The accesses of a step -/

/-- In this scope the expression is evaluated; its operands and arguments come later. -/
def Expr.accesses (scope : Nat) : Expr α → List Scopes.Access
  | .reference id => [.lookup scope id.name]
  | .callAt callee _ _ => [.lookup scope callee.name]
  | _ => []

def Stmt.accesses (scope : Nat) : Stmt α → List Scopes.Access
  | .declare id _ => [.define scope id.name (.int 0)]
  | _ => []

def Frame.closes : Frame α → List Scopes.Access
  | .leave scope => [.pop scope]
  | .finish scope _ => [.pop scope]
  | _ => []

/-- The accesses when a value reaches a frame. -/
def Frame.accesses (v : Value) : Frame α → List Scopes.Access
  | .assign scope target => [.assign scope target.name v]
  | .branch scope _ _ elseBlock => match v with
    | .int i => if i ≠ 0 ∨ elseBlock.isSome then [.push scope] else []
    | _ => []
  | .test scope _ _ => match v with
    | .int i => if i ≠ 0 then [.push scope] else []
    | _ => []
  | f => f.closes

def paramAccesses (id : Nat) (params : List (Identifier α)) (args : List Value) :
    List Scopes.Access := (params.zip args).map fun p => .bind id p.1.name p.2

/-- A call opens the scope `id` for its parameters and one more for its body. -/
def callAccesses (id : Nat) (d : FunctionDef α) (closure : Nat) (args : List Value) :
    List Scopes.Access := .push closure :: (paramAccesses id d.params args ++ [.push id])

namespace State

variable {s : State α} {limit : Nat}

/-- What a step asks of the scopes, in order. -/
def accesses (limit : Nat) (s : State α) : List Scopes.Access :=
  match s.control with
  | .eval scope e => e.accesses scope
  | .exec scope st => st.accesses scope
  | .items (.function d :: _) last =>
    [.bind Scopes.globalScope d.name (.function (s.release last).world.heap.cells.size)]
  | .loop scope _ _ => [.push scope]
  | .apply (.function _ d closure) args _ =>
    if limit ≤ s.depth then []
    else callAccesses s.scopes.depth d closure args
  | .give v => match s.stack with
    | f :: _ => f.accesses v
    | [] => []
  | .fail _ => match s.stack with
    | f :: _ => f.closes
    | [] => []
  | _ => []

def withScopes (s : State α) (t : Scopes) : State α := ⟨s.control, s.stack, t, s.depth, s.world⟩

variable {t : Scopes}

theorem bind_withScopes {p q : Nat} {name : String} {v : Value}
    (h : (t.bind p name v).2.toList = (s.scopes.bind q name v).2.toList) :
    (s.withScopes t).bind p name v = (s.bind q name v).withScopes (t.bind p name v).1 := by
  change releaseAll ⟨s.control, s.stack, (t.bind p name v).1, s.depth, s.world⟩
    (t.bind p name v).2.toList = _
  rw [h]
  rfl

theorem closeScope_withScopes {id : Nat} (h : t.replies [.pop id] = s.scopes.replies [.pop id]) :
    (s.withScopes t).closeScope id = (s.closeScope id).withScopes (t.pop id).1 := by
  change releaseAll ⟨s.control, s.stack, (t.pop id).1, s.depth, s.world⟩ (t.pop id).2 = _
  rw [Scopes.freed_of_pop_reply h]
  rfl

theorem closeCall_withScopes {id ref : Nat}
    (h : t.replies [.pop id] = s.scopes.replies [.pop id]) :
    (s.withScopes t).closeCall id ref = (s.closeCall id ref).withScopes (t.pop id).1 := by
  rw [closeCall, closeScope_withScopes h]
  rfl

theorem enter_withScopes {p : Nat} {c : Nat → Control α}
    (h : t.replies [.push p] = s.scopes.replies [.push p]) :
    (s.withScopes t).enter p c = (s.enter p c).withScopes (t.push p).2 := by
  have hdepth : t.arena.size = s.scopes.arena.size := Scopes.depth_of_push_reply h
  simp only [enter, withScopes, Scopes.push, hdepth]

theorem call_withScopes {scope : Nat} {callee : Identifier α} {args : List (Expr α)}
    {l : α} (h : t.lookup scope callee.name = s.scopes.lookup scope callee.name) :
    (s.withScopes t).call scope callee args l = (s.call scope callee args l).withScopes t := by
  unfold call
  rw [show (s.withScopes t).scopes = t from rfl, h]
  split
  · rfl
  · rfl
  · rw [show (s.withScopes t).world = s.world from rfl]
    split
    · rfl
    · split <;> rfl
  · rfl

theorem eval_withScopes {scope : Nat} {e : Expr α}
    (h : t.replies (e.accesses scope) = s.scopes.replies (e.accesses scope)) :
    (s.withScopes t).eval scope e = (s.eval scope e).withScopes (t.after (e.accesses scope)) := by
  cases e with
  | integer text l =>
    simp only [eval]
    split <;> rfl
  | string value l => rfl
  | reference id =>
    simp only [eval, Expr.accesses] at h ⊢
    rw [show (s.withScopes t).scopes = t from rfl, Scopes.lookup_of_reply h, t.after_lookup]
    split <;> rfl
  | assign target value l => rfl
  | binary op left right l => rfl
  | callAt callee args l =>
    rw [eval, Expr.accesses, t.after_lookup]
    exact call_withScopes (Scopes.lookup_of_reply h)

theorem exec_withScopes {scope : Nat} {st : Stmt α}
    (h : t.replies (st.accesses scope) = s.scopes.replies (st.accesses scope)) :
    (s.withScopes t).exec scope st =
      (s.exec scope st).withScopes (t.after (st.accesses scope)) := by
  cases st with
  | declare id l =>
    obtain ⟨hdefines, hfreed⟩ := Scopes.freed_of_define_reply h
    simp only [exec, Stmt.accesses, Scopes.after, List.foldl, Scopes.Access.perform, Scopes.define]
    rw [show (s.withScopes t).scopes = t from rfl, hdefines]
    cases hs : s.scopes.defines scope id.name with
    | true => rfl
    | false =>
      simp only [Bool.false_eq_true, if_false]
      rw [bind_withScopes (hfreed hs)]
      rfl
  | branch cond thenBlock elseBlock l => rfl
  | loop cond body l => rfl
  | expr e => rfl

theorem resume_withScopes {v : Value} {f : Frame α}
    (h : t.replies (f.accesses v) = s.scopes.replies (f.accesses v)) :
    (s.withScopes t).resume v f = (s.resume v f).withScopes (t.after (f.accesses v)) := by
  cases f with
  | assign scope target =>
    simp only [resume, Frame.accesses, Scopes.after, List.foldl, Scopes.Access.perform,
      Scopes.assign]
    rw [show (s.withScopes t).scopes = t from rfl]
    rcases Scopes.freed_of_assign_reply h with ⟨ht, hs⟩ | ⟨p, q, ht, hs, hfreed⟩
    · rw [ht, hs]
      rfl
    · rw [ht, hs]
      have hbind := bind_withScopes (s := s.retain v) hfreed
      exact congrArg (·.give v) hbind
  | leftOperand scope op right l =>
    cases v with
    | int a =>
      simp only [resume]
      split <;> rfl
    | _ => rfl
  | rightOperand op a l =>
    cases v with
    | int b =>
      simp only [resume]
      split <;> rfl
    | _ => rfl
  | leave scope => exact closeScope_withScopes h
  | finish scope ref => exact closeCall_withScopes h
  | branch scope l thenBlock elseBlock =>
    cases v with
    | int i =>
      by_cases hi : i = 0
      · cases elseBlock with
        | none =>
          simp only [resume, Frame.accesses, hi, ne_eq, not_true_eq_false, if_false]
          rfl
        | some ss =>
          simp only [Frame.accesses, Option.isSome_some, or_true, if_true] at h
          simp only [resume, Frame.accesses, hi, ne_eq, not_true_eq_false, if_false,
            Option.isSome_some, or_true, if_true]
          exact enter_withScopes (s := s.pushFrame .discard) h
      · simp only [Frame.accesses, hi, ne_eq, not_false_eq_true, true_or, if_true] at h
        simp only [resume, Frame.accesses, hi, ne_eq, not_false_eq_true, true_or, if_true]
        exact enter_withScopes (s := s.pushFrame .discard) h
    | _ => rfl
  | test scope cond body =>
    cases v with
    | int i =>
      by_cases hi : i = 0
      · simp only [resume, Frame.accesses, hi, ne_eq, not_true_eq_false, if_false]
        rfl
      · simp only [Frame.accesses, hi, ne_eq, not_false_eq_true, if_true] at h
        simp only [resume, Frame.accesses, hi, ne_eq, not_false_eq_true, if_true]
        exact enter_withScopes (s := s.pushFrame (.again scope cond body)) h
    | _ => rfl
  | _ => rfl

theorem unwind_withScopes {f : Frame α} (h : t.replies f.closes = s.scopes.replies f.closes) :
    (s.withScopes t).unwind f = (s.unwind f).withScopes (t.after f.closes) := by
  cases f with
  | leave scope => exact closeScope_withScopes h
  | finish scope ref => exact closeCall_withScopes h
  | _ => rfl

theorem bindParams_withScopes {id : Nat} {params : List (Identifier α)} {args : List Value}
    (h : t.replies (paramAccesses id params args) =
      s.scopes.replies (paramAccesses id params args)) :
    (s.withScopes t).bindParams id params args =
      (s.bindParams id params args).withScopes (t.after (paramAccesses id params args)) := by
  induction params generalizing s t args with
  | nil => rfl
  | cons p params ih =>
    cases args with
    | nil => rfl
    | cons v args =>
      obtain ⟨hone, hrest⟩ := Scopes.replies_append_eq [.bind id p.name v] h
      rw [bindParams_cons, bindParams_cons, bind_withScopes (Scopes.freed_of_bind_reply hone)]
      exact ih (s := s.bind id p.name v) hrest

theorem scopes_bindParams (s : State α) (id : Nat) (params : List (Identifier α))
    (args : List Value) :
    (s.bindParams id params args).scopes = s.scopes.after (paramAccesses id params args) :=
  congrArg State.scopes (bindParams_withScopes (s := s) (t := s.scopes) rfl)

theorem callFunction_withScopes {ref closure : Nat} {d : FunctionDef α} {args : List Value}
    (h : t.replies (callAccesses s.scopes.depth d closure args) =
      s.scopes.replies (callAccesses s.scopes.depth d closure args)) :
    (s.withScopes t).callFunction ref d closure args =
      (s.callFunction ref d closure args).withScopes
        (t.after (callAccesses s.scopes.depth d closure args)) := by
  obtain ⟨hpush, hrest⟩ := Scopes.replies_append_eq [.push closure] h
  obtain ⟨hparams, hbody⟩ := Scopes.replies_append_eq _ hrest
  have hdepth : t.depth = s.scopes.depth := Scopes.depth_of_push_reply hpush
  have hbound : (s.withScopes t).withParams d closure args =
      (s.withParams d closure args).withScopes
        ((t.push closure).2.after (paramAccesses s.scopes.depth d.params args)) := by
    unfold withParams
    rw [show (s.withScopes t).scopes = t from rfl, hdepth]
    exact bindParams_withScopes (s := s.openScope closure) hparams
  have hsame : ((t.push closure).2.after (paramAccesses s.scopes.depth d.params args)).depth =
      (s.withParams d closure args).scopes.depth := by
    have hscopes := scopes_bindParams (s.openScope closure) s.scopes.depth d.params args
    unfold withParams
    rw [hscopes]
    exact Scopes.depth_of_push_reply hbody
  have hafter : t.after (callAccesses s.scopes.depth d closure args) =
      (((t.push closure).2.after (paramAccesses s.scopes.depth d.params args)).push
        s.scopes.depth).2 :=
    Scopes.after_append (t.push closure).2 _ _
  rw [callFunction_eq, callFunction_eq, hbound, hafter, show (s.withScopes t).scopes = t from rfl,
    hdepth]
  simp only [withScopes, hsame]

theorem applyCallee_withScopes {callee : Callee α} {args : List Value} {l : α}
    (h : t.replies ((s.become (.apply callee args l)).accesses limit) =
      s.scopes.replies ((s.become (.apply callee args l)).accesses limit)) :
    (s.withScopes t).applyCallee limit callee args l =
      (s.applyCallee limit callee args l).withScopes
        (t.after ((s.become (.apply callee args l)).accesses limit)) := by
  cases callee with
  | builtin b =>
    simp only [applyCallee, callBuiltin_eq]
    rw [show (s.withScopes t).world = s.world from rfl]
    split <;> rfl
  | function ref d closure =>
    by_cases hlimit : limit ≤ s.depth
    · have hdepth : limit ≤ (s.withScopes t).depth := hlimit
      have hnone : (s.become (.apply (.function ref d closure) args l)).accesses limit = [] :=
        if_pos hlimit
      rw [applyCallee, applyCallee, if_pos hlimit, if_pos hdepth, hnone]
      rfl
    · have hdepth : ¬ limit ≤ (s.withScopes t).depth := hlimit
      have hcall : (s.become (.apply (.function ref d closure) args l)).accesses limit =
          callAccesses s.scopes.depth d closure args := if_neg hlimit
      rw [hcall] at h
      rw [applyCallee, applyCallee, if_neg hlimit, if_neg hdepth, hcall]
      exact callFunction_withScopes h

/-- Where the accesses of a step get the same replies from other scopes, the step does the same,
and leaves of the other scopes what the accesses leave of them. -/
theorem step_withScopes
    (h : t.replies (s.accesses limit) = s.scopes.replies (s.accesses limit)) :
    (s.withScopes t).step limit = (s.step limit).withScopes (t.after (s.accesses limit)) := by
  obtain ⟨control, stack, scopes, depth, world⟩ := s
  cases control with
  | eval scope e => exact eval_withScopes h
  | exec scope st => exact exec_withScopes h
  | block scope rest last => cases rest <;> rfl
  | items rest last =>
    cases rest with
    | nil => rfl
    | cons item rest =>
      cases item with
      | function d =>
        have hbind := bind_withScopes (s := (release ⟨.items (.function d :: rest) last, stack,
          scopes, depth, world⟩ last).make (.function d Scopes.globalScope) .function)
          (Scopes.freed_of_bind_reply h)
        exact congrArg (·.become (.items rest (.int 0))) hbind
      | stmt st => rfl
  | loop scope cond body =>
    exact enter_withScopes (s := ⟨.loop scope cond body, .test scope cond body :: stack, scopes,
      depth, world⟩) (c := (.eval · cond)) h
  | arguments scope callee done rest l => cases rest <;> rfl
  | apply callee args l => exact applyCallee_withScopes h
  | give v =>
    cases stack with
    | nil => rfl
    | cons f k => exact resume_withScopes (s := ⟨.give v, k, scopes, depth, world⟩) h
  | fail e =>
    cases stack with
    | nil => rfl
    | cons f k => exact unwind_withScopes (s := ⟨.fail e, k, scopes, depth, world⟩) h

theorem scopes_step (limit : Nat) (s : State α) :
    (s.step limit).scopes = s.scopes.after (s.accesses limit) :=
  congrArg State.scopes (step_withScopes (s := s) (t := s.scopes) rfl)

end State

end Scriptlet
