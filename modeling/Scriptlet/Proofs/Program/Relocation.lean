import Scriptlet.Program

/-!
Giving the nodes of a program other locations leaves all else as it is.
-/

namespace Scriptlet

variable {α β : Type}

theorem Expr.location_map (f : α → β) (e : Expr α) : (e.map f).location = f e.location := by
  cases e <;> rfl

theorem Expr.mapArgs_eq_map (f : α → β) (es : List (Expr α)) :
    Expr.mapArgs f es = es.map (Expr.map f) := by
  induction es with
  | nil => rfl
  | cons e es ih => rw [Expr.mapArgs, ih, List.map_cons]

theorem Expr.length_mapArgs (f : α → β) (es : List (Expr α)) :
    (Expr.mapArgs f es).length = es.length := by
  rw [Expr.mapArgs_eq_map, List.length_map]

theorem Stmt.mapBlock_eq_map (f : α → β) (ss : List (Stmt α)) :
    Stmt.mapBlock f ss = ss.map (Stmt.map f) := by
  induction ss with
  | nil => rfl
  | cons s ss ih => rw [Stmt.mapBlock, ih, List.map_cons]

mutual

theorem Expr.map_id : (e : Expr α) → e.map id = e
  | .integer _ _ => rfl
  | .string _ _ => rfl
  | .reference _ => rfl
  | .assign _ value _ => by rw [Expr.map, value.map_id]; rfl
  | .binary _ left right _ => by rw [Expr.map, left.map_id, right.map_id]; rfl
  | .callAt _ args _ => by rw [Expr.map, Expr.mapArgs_id args]; rfl

theorem Expr.mapArgs_id : (es : List (Expr α)) → Expr.mapArgs id es = es
  | [] => rfl
  | e :: es => by rw [Expr.mapArgs, e.map_id, Expr.mapArgs_id es]

end

mutual

theorem Stmt.map_id : (s : Stmt α) → s.map id = s
  | .declare _ _ => rfl
  | .branch cond thenBlock elseBlock _ => by
    rw [Stmt.map, cond.map_id, Stmt.mapBlock_id thenBlock, Stmt.mapElse_id elseBlock]; rfl
  | .loop cond body _ => by rw [Stmt.map, cond.map_id, Stmt.mapBlock_id body]; rfl
  | .expr e => by rw [Stmt.map, e.map_id]

theorem Stmt.mapBlock_id : (ss : List (Stmt α)) → Stmt.mapBlock id ss = ss
  | [] => rfl
  | s :: ss => by rw [Stmt.mapBlock, s.map_id, Stmt.mapBlock_id ss]

theorem Stmt.mapElse_id : (b : Option (List (Stmt α))) → Stmt.mapElse id b = b
  | none => rfl
  | some ss => by rw [Stmt.mapElse, Stmt.mapBlock_id ss]

end

theorem functionDef_map_id (d : FunctionDef α) : d.map id = d := by
  have hparams : d.params.map (Identifier.map id) = d.params := List.map_id _
  rw [FunctionDef.map, hparams, Stmt.mapBlock_id]
  rfl

theorem Item.map_id (i : Item α) : i.map id = i := by
  cases i with
  | function d => rw [Item.map, functionDef_map_id]
  | stmt s => rw [Item.map, Stmt.map_id]

theorem Program.map_id (p : Program α) : p.map id = p := by
  have hitems : p.items.map (Item.map id) = p.items := by
    rw [funext Item.map_id]
    exact List.map_id _
  rw [Program.map, hitems]

end Scriptlet
