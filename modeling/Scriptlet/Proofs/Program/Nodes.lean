import Scriptlet.Proofs.Program.Mentions

/-!
The located nodes of a program, listed in the order of its text: a keyword before what it opens, a
target before the sign behind it, an operator between its operands, a call before its callee.
-/

namespace Scriptlet

variable {α : Type}

/-- What stands in one place of a program. -/
inductive Mark
  | function | declaration | branch | loop
  | introduced (name : String)
  | used (name : String)
  | call (callee : String)
  | integer (text : String)
  | string (value : String)
  | assignment
  | operator (op : BinaryOp)
deriving DecidableEq

structure Node (α : Type) where
  mark : Mark
  location : α
deriving DecidableEq

namespace Node

/-- All nodes but calls have a token that is theirs alone. -/
def ownsToken (n : Node α) : Bool :=
  match n.mark with
  | .call _ => false
  | _ => true

def mention? (n : Node α) : Option (Mention α) :=
  match n.mark with
  | .introduced name => some (.introduced ⟨name, n.location⟩)
  | .used name => some (.used ⟨name, n.location⟩)
  | _ => none

theorem location_of_mention? {n : Node α} {m : Mention α} (h : n.mention? = some m) :
    m.identifier.location = n.location := by
  unfold mention? at h
  split at h <;> cases h <;> rfl

theorem mention?_of_not_ownsToken {n : Node α} (h : n.ownsToken = false) : n.mention? = none := by
  unfold ownsToken at h
  split at h
  · rename_i hmark
    simp only [mention?, hmark]
  · cases h

/-- Behind every call stands its callee, in the same place. -/
inductive Paired : List (Node α) → Prop
  | nil : Paired []
  | own {n : Node α} {ns : List (Node α)} (h : n.ownsToken) (hns : Paired ns) : Paired (n :: ns)
  | call {callee : String} {l : α} {ns : List (Node α)} (hns : Paired ns) :
    Paired (⟨.call callee, l⟩ :: ⟨.used callee, l⟩ :: ns)

theorem Paired.append {ns ms : List (Node α)} (h : Paired ns) (h' : Paired ms) :
    Paired (ns ++ ms) := by
  induction h with
  | nil => exact h'
  | own h _ ih => exact .own h ih
  | call _ ih => exact .call ih

end Node

namespace Identifier

def introduction (id : Identifier α) : Node α := ⟨.introduced id.name, id.location⟩

def use (id : Identifier α) : Node α := ⟨.used id.name, id.location⟩

end Identifier

mutual

def Expr.nodes : Expr α → List (Node α)
  | .integer text l => [⟨.integer text, l⟩]
  | .string value l => [⟨.string value, l⟩]
  | .reference id => [id.use]
  | .assign target value l => target.use :: ⟨.assignment, l⟩ :: value.nodes
  | .binary op left right l => left.nodes ++ ⟨.operator op, l⟩ :: right.nodes
  | .callAt callee args l => ⟨.call callee.name, l⟩ :: callee.use :: Expr.argNodes args

def Expr.argNodes : List (Expr α) → List (Node α)
  | [] => []
  | e :: es => e.nodes ++ Expr.argNodes es

end

mutual

def Stmt.nodes : Stmt α → List (Node α)
  | .declare id l => [⟨.declaration, l⟩, id.introduction]
  | .branch cond thenBlock elseBlock l =>
    ⟨.branch, l⟩ :: (cond.nodes ++ (Stmt.blockNodes thenBlock ++ Stmt.elseNodes elseBlock))
  | .loop cond body l => ⟨.loop, l⟩ :: (cond.nodes ++ Stmt.blockNodes body)
  | .expr e => e.nodes

def Stmt.blockNodes : List (Stmt α) → List (Node α)
  | [] => []
  | s :: ss => s.nodes ++ Stmt.blockNodes ss

def Stmt.elseNodes : Option (List (Stmt α)) → List (Node α)
  | none => []
  | some ss => Stmt.blockNodes ss

end

theorem Expr.argNodes_eq (es : List (Expr α)) : Expr.argNodes es = es.flatMap Expr.nodes := by
  induction es with
  | nil => rfl
  | cons e es ih => rw [argNodes, ih, List.flatMap_cons]

theorem Stmt.blockNodes_eq (ss : List (Stmt α)) : Stmt.blockNodes ss = ss.flatMap Stmt.nodes := by
  induction ss with
  | nil => rfl
  | cons s ss ih => rw [blockNodes, ih, List.flatMap_cons]

def FunctionDef.nodes (d : FunctionDef α) : List (Node α) :=
  ⟨.function, d.location⟩ :: d.id.introduction ::
    (d.params.map Identifier.introduction ++ Stmt.blockNodes d.body)

def Item.nodes : Item α → List (Node α)
  | .function d => d.nodes
  | .stmt s => s.nodes

def Program.nodes (p : Program α) : List (Node α) := p.items.flatMap Item.nodes

/-! ### The mentions among the nodes -/

open Node

mutual

theorem Expr.mentions_eq : (e : Expr α) → e.mentions = e.nodes.filterMap mention?
  | .integer _ _ => rfl
  | .string _ _ => rfl
  | .reference _ => rfl
  | .assign target value _ => congrArg (Mention.used target :: ·) value.mentions_eq
  | .binary _ left right _ => by
    rw [mentions, nodes, List.filterMap_append, left.mentions_eq, right.mentions_eq]
    rfl
  | .callAt callee args _ => congrArg (Mention.used callee :: ·) (Expr.argMentions_eq args)

theorem Expr.argMentions_eq : (es : List (Expr α)) →
    Expr.argMentions es = (Expr.argNodes es).filterMap mention?
  | [] => rfl
  | e :: es => by
    rw [argMentions, argNodes, List.filterMap_append, e.mentions_eq, Expr.argMentions_eq es]

end

mutual

theorem Stmt.mentions_eq : (s : Stmt α) → s.mentions = s.nodes.filterMap mention?
  | .declare _ _ => rfl
  | .branch cond thenBlock elseBlock _ => by
    rw [mentions, nodes, List.filterMap_cons_none rfl, List.filterMap_append,
      List.filterMap_append, cond.mentions_eq, Stmt.blockMentions_eq thenBlock,
      Stmt.elseMentions_eq elseBlock]
  | .loop cond body _ => by
    rw [mentions, nodes, List.filterMap_cons_none rfl, List.filterMap_append, cond.mentions_eq,
      Stmt.blockMentions_eq body]
  | .expr e => e.mentions_eq

theorem Stmt.blockMentions_eq : (ss : List (Stmt α)) →
    Stmt.blockMentions ss = (Stmt.blockNodes ss).filterMap mention?
  | [] => rfl
  | s :: ss => by
    rw [blockMentions, blockNodes, List.filterMap_append, s.mentions_eq, Stmt.blockMentions_eq ss]

theorem Stmt.elseMentions_eq : (b : Option (List (Stmt α))) →
    Stmt.elseMentions b = (Stmt.elseNodes b).filterMap mention?
  | none => rfl
  | some ss => Stmt.blockMentions_eq ss

end

theorem FunctionDef.mentions_eq (d : FunctionDef α) : d.mentions = d.nodes.filterMap mention? := by
  have hparams : (d.params.map Identifier.introduction).filterMap mention? =
      d.params.map Mention.introduced := by
    rw [List.filterMap_map]
    exact congrFun List.filterMap_eq_map d.params
  have hrest : d.params.map Mention.introduced ++ Stmt.blockMentions d.body =
      (d.params.map Identifier.introduction ++ Stmt.blockNodes d.body).filterMap mention? := by
    rw [List.filterMap_append, hparams, Stmt.blockMentions_eq d.body]
  exact congrArg (Mention.introduced d.id :: ·) hrest

theorem Program.mentions_eq (p : Program α) : p.mentions = p.nodes.filterMap mention? := by
  have hitem : ∀ i : Item α, i.mentions = i.nodes.filterMap mention? := by
    rintro (d | s)
    · exact d.mentions_eq
    · exact s.mentions_eq
  rw [mentions, nodes, List.filterMap_flatMap]
  exact congrArg p.items.flatMap (funext hitem)

/-! ### No place but those of nodes -/

section

variable {β : Type} {f g : α → β}

theorem Identifier.map_congr {id : Identifier α} (h : f id.location = g id.location) :
    id.map f = id.map g := congrArg (Identifier.mk id.name) h

mutual

theorem Expr.map_congr : (e : Expr α) → (∀ n ∈ e.nodes, f n.location = g n.location) →
    e.map f = e.map g
  | .integer text l, h => congrArg (Expr.integer text) (h _ List.mem_cons_self)
  | .string value l, h => congrArg (Expr.string value) (h _ List.mem_cons_self)
  | .reference id, h => congrArg Expr.reference (Identifier.map_congr (h _ List.mem_cons_self))
  | .assign target value l, h => by
    simp only [nodes, List.forall_mem_cons] at h
    obtain ⟨htarget, hl, hvalue⟩ := h
    rw [map, map, Identifier.map_congr htarget, value.map_congr hvalue, hl]
  | .binary op left right l, h => by
    simp only [nodes, List.forall_mem_append, List.forall_mem_cons] at h
    obtain ⟨hleft, hl, hright⟩ := h
    rw [map, map, left.map_congr hleft, right.map_congr hright, hl]
  | .callAt callee args l, h => by
    simp only [nodes, List.forall_mem_cons] at h
    obtain ⟨hl, hcallee, hargs⟩ := h
    rw [map, map, Identifier.map_congr hcallee, Expr.mapArgs_congr args hargs, hl]

theorem Expr.mapArgs_congr : (es : List (Expr α)) →
    (∀ n ∈ Expr.argNodes es, f n.location = g n.location) → Expr.mapArgs f es = Expr.mapArgs g es
  | [], _ => rfl
  | e :: es, h => by
    obtain ⟨he, hes⟩ := List.forall_mem_append.mp h
    rw [mapArgs, mapArgs, e.map_congr he, Expr.mapArgs_congr es hes]

end

mutual

theorem Stmt.map_congr : (s : Stmt α) → (∀ n ∈ s.nodes, f n.location = g n.location) →
    s.map f = s.map g
  | .declare id l, h => by
    simp only [nodes, List.forall_mem_cons] at h
    obtain ⟨hl, hid, -⟩ := h
    rw [map, map, Identifier.map_congr hid, hl]
  | .branch cond thenBlock elseBlock l, h => by
    simp only [nodes, List.forall_mem_cons, List.forall_mem_append] at h
    obtain ⟨hl, hcond, hthen, helse⟩ := h
    rw [map, map, cond.map_congr hcond, Stmt.mapBlock_congr thenBlock hthen,
      Stmt.mapElse_congr elseBlock helse, hl]
  | .loop cond body l, h => by
    simp only [nodes, List.forall_mem_cons, List.forall_mem_append] at h
    obtain ⟨hl, hcond, hbody⟩ := h
    rw [map, map, cond.map_congr hcond, Stmt.mapBlock_congr body hbody, hl]
  | .expr e, h => congrArg Stmt.expr (e.map_congr h)

theorem Stmt.mapBlock_congr : (ss : List (Stmt α)) →
    (∀ n ∈ Stmt.blockNodes ss, f n.location = g n.location) →
    Stmt.mapBlock f ss = Stmt.mapBlock g ss
  | [], _ => rfl
  | s :: ss, h => by
    obtain ⟨hs, hss⟩ := List.forall_mem_append.mp h
    rw [mapBlock, mapBlock, s.map_congr hs, Stmt.mapBlock_congr ss hss]

theorem Stmt.mapElse_congr : (b : Option (List (Stmt α))) →
    (∀ n ∈ Stmt.elseNodes b, f n.location = g n.location) → Stmt.mapElse f b = Stmt.mapElse g b
  | none, _ => rfl
  | some ss, h => congrArg some (Stmt.mapBlock_congr ss h)

end

theorem FunctionDef.map_congr {d : FunctionDef α}
    (h : ∀ n ∈ d.nodes, f n.location = g n.location) : d.map f = d.map g := by
  simp only [nodes, List.forall_mem_cons, List.forall_mem_append, List.forall_mem_map] at h
  obtain ⟨hl, hid, hparams, hbody⟩ := h
  have hids : d.params.map (Identifier.map f) = d.params.map (Identifier.map g) :=
    List.map_congr_left fun id hid => Identifier.map_congr (hparams id hid)
  rw [map, map, Identifier.map_congr hid, hids, Stmt.mapBlock_congr d.body hbody, hl]

/-- A program has no place that none of its nodes has. -/
theorem Program.map_congr {p : Program α} (h : ∀ n ∈ p.nodes, f n.location = g n.location) :
    p.map f = p.map g := by
  refine congrArg Program.mk (List.map_congr_left fun i hi => ?_)
  have hitem : ∀ n ∈ i.nodes, f n.location = g n.location :=
    fun n hn => h n (List.mem_flatMap.mpr ⟨i, hi, hn⟩)
  cases i with
  | function d => exact congrArg Item.function (FunctionDef.map_congr hitem)
  | stmt s => exact congrArg Item.stmt (s.map_congr hitem)

end

end Scriptlet
