import Scriptlet.Proofs.Program.Drawing
import Scriptlet.Proofs.Program.Nodes
import Scriptlet.Proofs.Program.Tree
import Scriptlet.Proofs.Program.Written

/-!
Reading a program back from its drawing. Every node is told by its label and the number of its
children, so that only locations are lost.
-/

namespace Scriptlet

open Scriptlet.Tree

/-! ### Labels -/

namespace Tree

/-- What stands before the bracket of a label. -/
def tag (label : String) : String := String.ofList (label.toList.takeWhile (· ≠ '['))

/-- What stands between the first bracket of a label and its last character. -/
def payload (label : String) : String :=
  String.ofList (label.toList.dropWhile (· ≠ '[')).tail.dropLast

theorem tag_leaf {name : String} (h : name.toList.all (· ≠ '[')) (text : String) :
    tag (name ++ "[" ++ text ++ "]") = name := by
  rw [List.all_eq_true] at h
  have hopen : "[".toList = ['['] := rfl
  simp only [tag, String.toList_append, List.append_assoc, List.takeWhile_append_of_pos h, hopen]
  simp

theorem payload_leaf {name : String} (h : name.toList.all (· ≠ '[')) (text : String) :
    payload (name ++ "[" ++ text ++ "]") = text := by
  rw [List.all_eq_true] at h
  have hopen : "[".toList = ['['] := rfl
  have hclose : "]".toList = [']'] := rfl
  simp only [payload, String.toList_append, List.append_assoc, List.dropWhile_append_of_pos h,
    hopen, hclose]
  simp

/-! ### From trees to programs -/

def identifier? : Tree → Option (Identifier Unit)
  | node label _ => some ⟨payload label, ()⟩

def atom? (label : String) : Option (Expr Unit) :=
  match tag label with
  | "INT_LITERAL" => some (.integer (payload label) ())
  | "STRING_LITERAL" => some (.string (payload label) ())
  | "VARREF" => some (.reference ⟨payload label, ()⟩)
  | _ => none

end Tree

def BinaryOp.ofTag? (tag : String) : Option BinaryOp :=
  [add, sub, mul, div, less, lessEqual, greater, greaterEqual, equal, notEqual, and, or].find?
    (·.tag == tag)

theorem BinaryOp.ofTag?_tag (op : BinaryOp) : ofTag? op.tag = some op := by
  cases op <;> decide

namespace Tree

mutual

def expr? : Tree → Option (Expr Unit)
  | node label [] => atom? label
  | node "ASSIGN" [target, value] => do return .assign (← target.identifier?) (← value.expr?) ()
  | node "FNCALL" [callee, node _ args] => do
    return .callAt (← callee.identifier?) (← exprs? args) ()
  | node label [left, right] => do
    return .binary (← BinaryOp.ofTag? label) (← left.expr?) (← right.expr?) ()
  | _ => none

def exprs? : List Tree → Option (List (Expr Unit))
  | [] => some []
  | t :: ts => do return (← t.expr?) :: (← exprs? ts)

end

mutual

def stmt? : Tree → Option (Stmt Unit)
  | node _ [node "VARDEF" [id]] => do return .declare (← id.identifier?) ()
  | node _ [node "IF" [cond, node _ thenBlock]] => do
    return .branch (← cond.expr?) (← stmts? thenBlock) none ()
  | node _ [node "IF" [cond, node _ thenBlock, node _ elseBlock]] => do
    return .branch (← cond.expr?) (← stmts? thenBlock) (some (← stmts? elseBlock)) ()
  | node _ [node "WHILE" [cond, node _ body]] => do
    return .loop (← cond.expr?) (← stmts? body) ()
  | node _ [e] => do return .expr (← e.expr?)
  | _ => none

def stmts? : List Tree → Option (List (Stmt Unit))
  | [] => some []
  | t :: ts => do return (← t.stmt?) :: (← stmts? ts)

end

def item? : Tree → Option (Item Unit)
  | node "FUNCTION" [id, node _ params, node _ body] => do
    return .function ⟨← id.identifier?, ← params.mapM identifier?, ← stmts? body, ()⟩
  | t => do return .stmt (← t.stmt?)

def program? : Tree → Option (Program Unit)
  | node _ items => do return ⟨← items.mapM item?⟩

end Tree

theorem Identifier.identifier?_tree (id : Identifier Unit) : id.tree.identifier? = some id := by
  rw [Identifier.tree, leaf, identifier?, payload_leaf rfl]

/-- No operator has the tag of an assignment or of a call. -/
theorem Tree.expr?_operator (op : BinaryOp) (left right : Tree) :
    (node op.tag [left, right]).expr? =
      left.expr?.bind fun l => right.expr?.bind fun r => some (.binary op l r ()) := by
  rw [expr?, BinaryOp.ofTag?_tag]
  · rfl
  · cases op <;> simp [BinaryOp.tag]
  · cases op <;> simp [BinaryOp.tag]

mutual

theorem Expr.expr?_tree : (e : Expr Unit) → e.tree.expr? = some e
  | .integer text _ => by
    rw [Expr.tree, leaf, expr?, atom?, tag_leaf rfl, payload_leaf rfl]
    rfl
  | .string value _ => by
    rw [Expr.tree, leaf, expr?, atom?, tag_leaf rfl, payload_leaf rfl]
    rfl
  | .reference id => by
    rw [Expr.tree, Identifier.tree, leaf, expr?, atom?, tag_leaf rfl,
      payload_leaf rfl]
    rfl
  | .assign target value _ => by
    rw [Expr.tree, expr?, target.identifier?_tree, value.expr?_tree]
    rfl
  | .binary op left right _ => by
    rw [Expr.tree, expr?_operator, left.expr?_tree, right.expr?_tree]
    rfl
  | .callAt callee args _ => by
    rw [Expr.tree, expr?, callee.identifier?_tree, Expr.exprs?_trees args]
    rfl

theorem Expr.exprs?_trees : (es : List (Expr Unit)) → exprs? (Expr.trees es) = some es
  | [] => rfl
  | e :: es => by
    rw [Expr.trees, exprs?, e.expr?_tree, Expr.exprs?_trees es]
    rfl

end

/-- No expression is drawn like what a keyword opens. -/
theorem Expr.stmt?_tree (e : Expr Unit) (label : String) :
    (node label [e.tree]).stmt? = some (.expr e) := by
  have hexpr : (node label [e.tree]).stmt? = e.tree.expr?.bind fun e => some (.expr e) := by
    cases e with
    | binary op left right _ => cases op <;> rfl
    | integer _ _ => simp only [Expr.tree, leaf, stmt?]; rfl
    | string _ _ => simp only [Expr.tree, leaf, stmt?]; rfl
    | reference _ => simp only [Expr.tree, Identifier.tree, leaf, stmt?]; rfl
    | assign _ _ _ => rfl
    | callAt _ _ => rfl
  rw [hexpr, e.expr?_tree]
  rfl

mutual

theorem Stmt.stmt?_tree : (s : Stmt Unit) → s.tree.stmt? = some s
  | .declare id _ => by
    rw [Stmt.tree, stmt?, id.identifier?_tree]
    rfl
  | .branch cond thenBlock none _ => by
    rw [Stmt.tree, Stmt.elseTrees, stmt?, cond.expr?_tree, Stmt.stmts?_trees thenBlock]
    rfl
  | .branch cond thenBlock (some elseBlock) _ => by
    rw [Stmt.tree, Stmt.elseTrees, stmt?, cond.expr?_tree, Stmt.stmts?_trees thenBlock,
      Stmt.stmts?_trees elseBlock]
    rfl
  | .loop cond body _ => by
    rw [Stmt.tree, stmt?, cond.expr?_tree, Stmt.stmts?_trees body]
    rfl
  | .expr e => e.stmt?_tree "STATEMENT"

theorem Stmt.stmts?_trees : (ss : List (Stmt Unit)) → stmts? (Stmt.trees ss) = some ss
  | [] => rfl
  | s :: ss => by
    rw [Stmt.trees, stmts?, s.stmt?_tree, Stmt.stmts?_trees ss]
    rfl

end

theorem mapM_map_of_inverse {β γ : Type} {f : γ → Option β} {g : β → γ} (h : ∀ b, f (g b) = some b)
    (bs : List β) : (bs.map g).mapM f = some bs := by
  induction bs with
  | nil => rfl
  | cons b bs ih =>
    rw [List.map_cons, List.mapM_cons, h, ih]
    rfl

theorem Item.item?_tree (i : Item Unit) : i.tree.item? = some i := by
  cases i with
  | function d =>
    rw [Item.tree, FunctionDef.tree, item?, d.id.identifier?_tree, Stmt.stmts?_trees d.body,
      mapM_map_of_inverse Identifier.identifier?_tree]
    rfl
  | stmt s =>
    have hstmt : s.tree.item? = s.tree.stmt?.bind fun s => some (.stmt s) := by
      cases s <;> rfl
    rw [Item.tree, hstmt, s.stmt?_tree]
    rfl

theorem Program.program?_tree (p : Program Unit) : p.tree.program? = some p := by
  rw [Program.tree, program?, mapM_map_of_inverse Item.item?_tree]
  rfl

/-! ### What is drawn on one line -/

variable {α β : Type}

/-- Names and numbers as they are written in a program, and texts without line breaks. -/
def Mark.drawable : Mark → Bool
  | .introduced name => isName name
  | .used name => isName name
  | .call callee => isName callee
  | .integer text => isNumeral text
  | .string value => decide (OneLine value)
  | _ => true

def Program.drawable (p : Program α) : Bool := p.nodes.all fun n => n.mark.drawable

theorem oneLine_of_isName {s : String} (h : isName s) : OneLine s := by
  unfold isName at h
  split at h
  · cases h
  · rename_i c cs hs
    simp only [Bool.and_eq_true, List.all_eq_true] at h
    obtain ⟨⟨hc, hcs⟩, -⟩ := h
    rw [OneLine, hs, List.mem_cons, not_or]
    exact ⟨fun heq => absurd (heq ▸ hc) (by decide), fun hmem => absurd (hcs _ hmem) (by decide)⟩

theorem oneLine_of_isNumeral {s : String} (h : isNumeral s) : OneLine s :=
  fun hmem => absurd ((digits_of_isNumeral h).2 _ hmem) (by decide)

theorem Identifier.oneLined_tree {id : Identifier α} (h : isName id.name) : id.tree.OneLined :=
  oneLined_leaf (by decide) (oneLine_of_isName h)

mutual

theorem Expr.oneLined_tree :
    (e : Expr α) → (∀ n ∈ e.nodes, n.mark.drawable) → e.tree.OneLined
  | .integer text l, h => by
    have htext : isNumeral text := h ⟨.integer text, l⟩ List.mem_cons_self
    exact oneLined_leaf (by decide) (oneLine_of_isNumeral htext)
  | .string value l, h => by
    have hvalue : decide (OneLine value) = true := h ⟨.string value, l⟩ List.mem_cons_self
    exact oneLined_leaf (by decide) (of_decide_eq_true hvalue)
  | .reference id, h => Identifier.oneLined_tree (h id.use List.mem_cons_self)
  | .assign target value _, h => by
    simp only [nodes, List.forall_mem_cons] at h
    obtain ⟨htarget, -, hvalue⟩ := h
    rw [Expr.tree, oneLined_node, oneLinedBelow_cons, oneLinedBelow_cons]
    exact ⟨by decide, Identifier.oneLined_tree htarget, value.oneLined_tree hvalue,
      oneLinedBelow_nil⟩
  | .binary op left right _, h => by
    simp only [nodes, List.forall_mem_append, List.forall_mem_cons] at h
    obtain ⟨hleft, -, hright⟩ := h
    have htag : OneLine op.tag := by cases op <;> decide
    rw [Expr.tree, oneLined_node, oneLinedBelow_cons, oneLinedBelow_cons]
    exact ⟨htag, left.oneLined_tree hleft, right.oneLined_tree hright, oneLinedBelow_nil⟩
  | .callAt callee args _, h => by
    simp only [nodes, List.forall_mem_cons] at h
    obtain ⟨-, hcallee, hargs⟩ := h
    rw [Expr.tree, oneLined_node, oneLinedBelow_cons, oneLinedBelow_cons, oneLined_node]
    exact ⟨by decide, Identifier.oneLined_tree hcallee,
      ⟨by decide, Expr.oneLined_trees args hargs⟩, oneLinedBelow_nil⟩

theorem Expr.oneLined_trees : (es : List (Expr α)) →
    (∀ n ∈ Expr.argNodes es, n.mark.drawable) → OneLinedBelow (Expr.trees es)
  | [], _ => oneLinedBelow_nil
  | e :: es, h => by
    obtain ⟨he, hes⟩ := List.forall_mem_append.mp h
    exact oneLinedBelow_cons.mpr ⟨e.oneLined_tree he, Expr.oneLined_trees es hes⟩

end

mutual

theorem Stmt.oneLined_tree :
    (s : Stmt α) → (∀ n ∈ s.nodes, n.mark.drawable) → s.tree.OneLined
  | .declare id _, h => by
    simp only [nodes, List.forall_mem_cons] at h
    obtain ⟨-, hid, -⟩ := h
    simp only [Stmt.tree, oneLined_node, oneLinedBelow_cons]
    exact ⟨by decide, ⟨by decide, Identifier.oneLined_tree hid, oneLinedBelow_nil⟩,
      oneLinedBelow_nil⟩
  | .branch cond thenBlock elseBlock _, h => by
    simp only [nodes, List.forall_mem_cons, List.forall_mem_append] at h
    obtain ⟨-, hcond, hthen, helse⟩ := h
    simp only [Stmt.tree, oneLined_node, oneLinedBelow_cons]
    exact ⟨by decide, ⟨by decide, cond.oneLined_tree hcond,
      ⟨by decide, Stmt.oneLined_trees thenBlock hthen⟩, Stmt.oneLined_elseTrees elseBlock helse⟩,
      oneLinedBelow_nil⟩
  | .loop cond body _, h => by
    simp only [nodes, List.forall_mem_cons, List.forall_mem_append] at h
    obtain ⟨-, hcond, hbody⟩ := h
    simp only [Stmt.tree, oneLined_node, oneLinedBelow_cons]
    exact ⟨by decide, ⟨by decide, cond.oneLined_tree hcond,
      ⟨by decide, Stmt.oneLined_trees body hbody⟩, oneLinedBelow_nil⟩, oneLinedBelow_nil⟩
  | .expr e, h => by
    rw [Stmt.tree, oneLined_node, oneLinedBelow_cons]
    exact ⟨by decide, e.oneLined_tree h, oneLinedBelow_nil⟩

theorem Stmt.oneLined_trees : (ss : List (Stmt α)) →
    (∀ n ∈ Stmt.blockNodes ss, n.mark.drawable) → OneLinedBelow (Stmt.trees ss)
  | [], _ => oneLinedBelow_nil
  | s :: ss, h => by
    obtain ⟨hs, hss⟩ := List.forall_mem_append.mp h
    exact oneLinedBelow_cons.mpr ⟨s.oneLined_tree hs, Stmt.oneLined_trees ss hss⟩

theorem Stmt.oneLined_elseTrees : (b : Option (List (Stmt α))) →
    (∀ n ∈ Stmt.elseNodes b, n.mark.drawable) → OneLinedBelow (Stmt.elseTrees b)
  | none, _ => oneLinedBelow_nil
  | some ss, h => by
    rw [Stmt.elseTrees, oneLinedBelow_cons, oneLined_node]
    exact ⟨⟨by decide, Stmt.oneLined_trees ss h⟩, oneLinedBelow_nil⟩

end

theorem FunctionDef.oneLined_tree {d : FunctionDef α} (h : ∀ n ∈ d.nodes, n.mark.drawable) :
    d.tree.OneLined := by
  simp only [nodes, List.forall_mem_cons, List.forall_mem_append, List.forall_mem_map] at h
  obtain ⟨-, hid, hparams, hbody⟩ := h
  have hnames : OneLinedBelow (d.params.map Identifier.tree) :=
    oneLinedBelow_map fun id hmem => Identifier.oneLined_tree (hparams id hmem)
  simp only [FunctionDef.tree, oneLined_node, oneLinedBelow_cons]
  exact ⟨by decide, Identifier.oneLined_tree hid, ⟨by decide, hnames⟩,
    ⟨by decide, Stmt.oneLined_trees d.body hbody⟩, oneLinedBelow_nil⟩

theorem Program.oneLined_tree {p : Program α} (h : p.drawable) : p.tree.OneLined := by
  refine oneLined_node.mpr ⟨by decide, oneLinedBelow_map fun i hi => ?_⟩
  have hitem : ∀ n ∈ i.nodes, n.mark.drawable :=
    fun n hn => List.all_eq_true.mp h n (List.mem_flatMap.mpr ⟨i, hi, hn⟩)
  cases i with
  | function d => exact FunctionDef.oneLined_tree hitem
  | stmt s => exact s.oneLined_tree hitem

/-! ### Programs and their drawings -/

/-- The program of a drawing. -/
def Program.ofDrawing? (text : String) : Option (Program Unit) :=
  (Tree.ofDrawing? text).bind Tree.program?

theorem Program.ofDrawing?_draw {p : Program α} (h : p.drawable) :
    ofDrawing? p.draw = some p.erase := by
  have htree : Tree.ofDrawing? p.draw = some p.tree := Tree.ofDrawing?_draw (oneLined_tree h)
  rw [ofDrawing?, htree, Option.bind_some, ← p.tree_map fun _ => ()]
  exact p.erase.program?_tree

/-- Drawings tell programs apart but for their locations. -/
theorem Program.draw_eq_iff {p : Program α} {q : Program β} (hp : p.drawable) (hq : q.drawable) :
    p.draw = q.draw ↔ p.erase = q.erase := by
  constructor
  · intro hdraw
    have hread := ofDrawing?_draw hp
    rw [hdraw, ofDrawing?_draw hq] at hread
    exact (Option.some.inj hread).symm
  · intro herase
    rw [← p.draw_map fun _ => (), ← q.draw_map fun _ => ()]
    exact congrArg draw herase

theorem Program.draw_missing_ne_empty_else :
    (⟨[.stmt (.branch (.string "]|  +--IF[" 0) [] none 1)]⟩ : Program Nat).draw ≠
      (⟨[.stmt (.branch (.string "]|  +--IF[" ()) [] (some []) ())]⟩ : Program Unit).draw := by
  intro hdraw
  have herase := (Program.draw_eq_iff (by decide) (by decide)).mp hdraw
  simp [Program.erase, Program.map, Item.map, Stmt.map, Stmt.mapElse] at herase

/-- With a line break in it, one string can pass for two. -/
example :
    (⟨[.stmt (.expr (.callAt ⟨"f", ()⟩ [.string "a" (), .string "b" ()] ()))]⟩ :
        Program Unit).draw =
      (⟨[.stmt (.expr (.callAt ⟨"f", ()⟩ [.string "a]\n         +--STRING_LITERAL[b" ()] ()))]⟩ :
        Program Unit).draw := by
  decide

end Scriptlet
