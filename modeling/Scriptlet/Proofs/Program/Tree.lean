import Scriptlet.Program.Tree
import Scriptlet.Proofs.Program.Relocation

/-!
Drawings do not show locations.
-/

namespace Scriptlet

variable {α β : Type} (g : α → β)

mutual

theorem Expr.tree_map : (e : Expr α) → (e.map g).tree = e.tree
  | .integer _ _ => rfl
  | .string _ _ => rfl
  | .reference _ => rfl
  | .assign _ value _ => by rw [Expr.map, Expr.tree, value.tree_map]; rfl
  | .binary _ left right _ => by rw [Expr.map, Expr.tree, left.tree_map, right.tree_map]; rfl
  | .callAt _ args _ => by rw [Expr.map, Expr.tree, Expr.trees_map args]; rfl

theorem Expr.trees_map : (es : List (Expr α)) → Expr.trees (Expr.mapArgs g es) = Expr.trees es
  | [] => rfl
  | e :: es => by rw [Expr.mapArgs, Expr.trees, e.tree_map, Expr.trees_map es]; rfl

end

mutual

theorem Stmt.tree_map : (s : Stmt α) → (s.map g).tree = s.tree
  | .declare _ _ => rfl
  | .branch cond thenBlock elseBlock _ => by
    rw [Stmt.map, Stmt.tree, cond.tree_map, Stmt.trees_map thenBlock, Stmt.elseTrees_map elseBlock]
    rfl
  | .loop cond body _ => by rw [Stmt.map, Stmt.tree, cond.tree_map, Stmt.trees_map body]; rfl
  | .expr e => by rw [Stmt.map, Stmt.tree, e.tree_map]; rfl

theorem Stmt.trees_map : (ss : List (Stmt α)) → Stmt.trees (Stmt.mapBlock g ss) = Stmt.trees ss
  | [] => rfl
  | s :: ss => by rw [Stmt.mapBlock, Stmt.trees, s.tree_map, Stmt.trees_map ss]; rfl

theorem Stmt.elseTrees_map :
    (b : Option (List (Stmt α))) → Stmt.elseTrees (Stmt.mapElse g b) = Stmt.elseTrees b
  | none => rfl
  | some ss => by rw [Stmt.mapElse, Stmt.elseTrees, Stmt.trees_map ss]; rfl

end

theorem Item.tree_map (i : Item α) : (i.map g).tree = i.tree := by
  cases i with
  | stmt s => exact s.tree_map g
  | function d =>
    have hparams : (d.params.map (Identifier.map g)).map Identifier.tree =
        d.params.map Identifier.tree := List.map_map
    simp only [Item.map, Item.tree, FunctionDef.tree, FunctionDef.map, hparams, Stmt.trees_map]
    rfl

theorem Program.tree_map (p : Program α) : (p.map g).tree = p.tree := by
  have hitems : (p.items.map (Item.map g)).map Item.tree = p.items.map Item.tree := by
    rw [List.map_map]
    exact List.map_congr_left fun i _ => i.tree_map g
  simp only [Program.tree, Program.map, hitems]

theorem Program.draw_map (p : Program α) : (p.map g).draw = p.draw :=
  congrArg Tree.draw (p.tree_map g)

end Scriptlet
