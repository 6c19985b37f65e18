import Scriptlet.Proofs.Machine.Code

/-!
What a state can still mention. All code that is being run, waits on the stack or belongs to a
function object is part of the program, so a run never mentions a name that its program does not.
-/

namespace Scriptlet

variable {α : Type} {P : Mention α → Prop}

def Callee.mentions : Callee α → List (Mention α)
  | .builtin _ => []
  | .function _ d _ => d.mentions

def Frame.mentions : Frame α → List (Mention α)
  | .assign _ target => [.used target]
  | .leftOperand _ _ right _ => right.mentions
  | .rightOperand _ _ _ => []
  | .arguments _ callee _ rest _ => callee.mentions ++ Expr.argMentions rest
  | .leave _ => []
  | .finish _ _ => []
  | .branch _ _ thenBlock elseBlock =>
    Stmt.blockMentions thenBlock ++ Stmt.elseMentions elseBlock
  | .discard => []
  | .test _ cond body => cond.mentions ++ Stmt.blockMentions body
  | .again _ cond body => cond.mentions ++ Stmt.blockMentions body
  | .next _ rest => Stmt.blockMentions rest
  | .nextItem rest => rest.flatMap Item.mentions

def Control.mentions : Control α → List (Mention α)
  | .eval _ e => e.mentions
  | .exec _ s => s.mentions
  | .block _ rest _ => Stmt.blockMentions rest
  | .items rest _ => rest.flatMap Item.mentions
  | .loop _ cond body => cond.mentions ++ Stmt.blockMentions body
  | .arguments _ callee _ rest _ => callee.mentions ++ Expr.argMentions rest
  | .apply callee _ _ => callee.mentions
  | .give _ => []
  | .fail _ => []

/-- Every function object mentions only such names. -/
def Heap.Cites (P : Mention α → Prop) (h : Heap α) : Prop :=
  ∀ r d closure, h.object? r = some (.function d closure) → ∀ m ∈ d.mentions, P m

theorem Heap.Cites.inherit {h h' : Heap α} (hc : h.Cites P) (hi : h.Inherits h') : h'.Cites P :=
  fun r d closure ho => hc r d closure (hi r d closure ho)

namespace State

/-- All code outside the control mentions only such names. -/
structure Backed (P : Mention α → Prop) (s : State α) : Prop where
  stack : ∀ f ∈ s.stack, ∀ m ∈ f.mentions, P m
  heap : s.world.heap.Cites P

structure Cites (P : Mention α → Prop) (s : State α) : Prop extends Backed P s where
  control : ∀ m ∈ s.control.mentions, P m

end State

/-! ### The mentions in the code -/

/-- What the node mentions, if anything, is such a name. -/
def Node.Mentions (P : Mention α → Prop) (n : Node α) : Prop := ∀ m, n.mention? = some m → P m

theorem forall_mentions {ns : List (Node α)} :
    (∀ m ∈ ns.filterMap Node.mention?, P m) ↔ ∀ n ∈ ns, n.Mentions P := by
  constructor
  · intro h n hn m hm
    exact h m (List.mem_filterMap.mpr ⟨n, hn, hm⟩)
  · intro h m hm
    obtain ⟨n, hn, hmention⟩ := List.mem_filterMap.mp hm
    exact h n hn m hmention

theorem Callee.mentions_eq (c : Callee α) : c.mentions = c.nodes.filterMap Node.mention? := by
  cases c with
  | builtin b => rfl
  | function ref d closure => exact d.mentions_eq

theorem Frame.mentions_eq (f : Frame α) : f.mentions = f.nodes.filterMap Node.mention? := by
  cases f with
  | leftOperand scope op right l => exact right.mentions_eq
  | arguments scope callee done rest l =>
    rw [mentions, nodes, List.filterMap_append, callee.mentions_eq, Expr.argMentions_eq]
  | branch scope l thenBlock elseBlock =>
    rw [mentions, nodes, List.filterMap_append, Stmt.blockMentions_eq, Stmt.elseMentions_eq]
  | test scope cond body =>
    rw [mentions, nodes, List.filterMap_append, cond.mentions_eq, Stmt.blockMentions_eq]
  | again scope cond body =>
    rw [mentions, nodes, List.filterMap_append, cond.mentions_eq, Stmt.blockMentions_eq]
  | next scope rest => exact Stmt.blockMentions_eq rest
  | nextItem rest => exact Program.mentions_eq ⟨rest⟩
  | _ => rfl

theorem Control.mentions_eq (c : Control α) : c.mentions = c.nodes.filterMap Node.mention? := by
  cases c with
  | eval scope e => exact e.mentions_eq
  | exec scope s => exact s.mentions_eq
  | block scope rest last => exact Stmt.blockMentions_eq rest
  | items rest last => exact Program.mentions_eq ⟨rest⟩
  | loop scope cond body =>
    rw [mentions, nodes, List.filterMap_append, cond.mentions_eq, Stmt.blockMentions_eq]
  | arguments scope callee done rest l =>
    rw [mentions, nodes, List.filterMap_append, callee.mentions_eq, Expr.argMentions_eq]
  | apply callee args l => exact callee.mentions_eq
  | _ => rfl

theorem Heap.cites_iff {h : Heap α} : h.Cites P ↔ h.Quotes (Node.Mentions P) := by
  unfold Cites Quotes
  simp only [FunctionDef.mentions_eq, forall_mentions]

namespace State

variable {limit : Nat} {s t : State α}

theorem cites_iff : s.Cites P ↔ s.Quotes (Node.Mentions P) := by
  constructor
  · intro h
    refine ⟨⟨fun f hf => forall_mentions.mp ?_, Heap.cites_iff.mp h.heap⟩, forall_mentions.mp ?_⟩
    · rw [← f.mentions_eq]
      exact h.stack f hf
    · rw [← s.control.mentions_eq]
      exact h.control
  · intro h
    refine ⟨⟨fun f hf => ?_, Heap.cites_iff.mpr h.heap⟩, ?_⟩
    · rw [f.mentions_eq]
      exact forall_mentions.mpr (h.stack f hf)
    · rw [s.control.mentions_eq]
      exact forall_mentions.mpr h.control

theorem Reaches.cites (h : Reaches limit s t) (hs : s.Cites P) : t.Cites P :=
  cites_iff.mpr (h.quotes (cites_iff.mp hs))

end State

end Scriptlet
