import Scriptlet.Interpreter
import Scriptlet.Proofs.Program.Relocation

/-!
Checking names does not look at locations: a program with other locations uses the same name before
it was introduced, at the place of that name.
-/

namespace Scriptlet

variable {α β : Type} (g : α → β) (known : List String)

mutual

theorem Expr.unknown?_map : (e : Expr α) →
    (e.map g).unknown? known = (e.unknown? known).map (Identifier.map g)
  | .integer _ _ => rfl
  | .string _ _ => rfl
  | .reference id => by
    simp only [Expr.map, Expr.unknown?, Identifier.map]
    split <;> rfl
  | .assign target value _ => by
    simp only [Expr.map, Expr.unknown?, Identifier.map]
    split
    · exact value.unknown?_map
    · rfl
  | .binary _ left right _ => by
    rw [Expr.map, Expr.unknown?, Expr.unknown?, left.unknown?_map, right.unknown?_map,
      Option.map_or]
  | .callAt callee args _ => by
    simp only [Expr.map, Expr.unknown?, Identifier.map]
    split
    · exact Expr.unknownArg?_map args
    · rfl

theorem Expr.unknownArg?_map : (es : List (Expr α)) →
    Expr.unknownArg? known (Expr.mapArgs g es) =
      (Expr.unknownArg? known es).map (Identifier.map g)
  | [] => rfl
  | e :: es => by
    rw [Expr.mapArgs, Expr.unknownArg?, Expr.unknownArg?, e.unknown?_map,
      Expr.unknownArg?_map es, Option.map_or]

end

theorem demand_map (id : Option (Identifier α)) :
    demand (id.map (Identifier.map g)) = (demand id).mapError (Identifier.map g) := by
  cases id <;> rfl

theorem mapError_bind {ε ε' γ δ : Type} (f : ε → ε') (x : Except ε γ) (k : γ → Except ε δ) :
    (x >>= k).mapError f = x.mapError f >>= fun a => (k a).mapError f := by
  cases x <;> rfl

mutual

theorem Stmt.names_map : (known : List String) → (s : Stmt α) →
    (s.map g).names known = (s.names known).mapError (Identifier.map g)
  | known, .declare id _ => rfl
  | known, .branch cond thenBlock elseBlock _ => by
    simp only [Stmt.map, Stmt.names, mapError_bind, Expr.unknown?_map, demand_map,
      Stmt.blockNames_map known thenBlock, Stmt.elseNames_map]
  | known, .loop cond body _ => by
    simp only [Stmt.map, Stmt.names, mapError_bind, Expr.unknown?_map, demand_map,
      Stmt.blockNames_map known body]
  | known, .expr e => by
    simp only [Stmt.map, Stmt.names, mapError_bind, Expr.unknown?_map, demand_map]
    rfl

theorem Stmt.blockNames_map : (known : List String) → (ss : List (Stmt α)) →
    Stmt.blockNames known (Stmt.mapBlock g ss) =
      (Stmt.blockNames known ss).mapError (Identifier.map g)
  | known, [] => rfl
  | known, s :: ss => by
    simp only [Stmt.mapBlock, Stmt.blockNames, mapError_bind, Stmt.names_map known s,
      fun known => Stmt.blockNames_map known ss]

theorem Stmt.elseNames_map : (known : List String) → (b : Option (List (Stmt α))) →
    Stmt.elseNames known (Stmt.mapElse g b) = (Stmt.elseNames known b).mapError (Identifier.map g)
  | _, none => rfl
  | known, some ss => Stmt.blockNames_map known ss

end

theorem Item.names_map (i : Item α) :
    (i.map g).names known = (i.names known).mapError (Identifier.map g) := by
  cases i with
  | function d =>
    have hnames : (d.map g).params.map Identifier.name = d.params.map Identifier.name := by
      rw [FunctionDef.map, List.map_map]
      rfl
    simp only [Item.map, Item.names, FunctionDef.names, hnames]
    exact Stmt.blockNames_map g _ d.body
  | stmt s => exact s.names_map g known

theorem Program.names_map (p : Program α) :
    (p.map g).names known = (p.names known).mapError (Identifier.map g) := by
  obtain ⟨is⟩ := p
  simp only [Program.map, Program.names]
  induction is generalizing known with
  | nil => rfl
  | cons i is ih =>
    simp only [List.map_cons, List.foldlM_cons, mapError_bind, Item.names_map, ih]

theorem Program.analyze_map (p : Program α) :
    (p.map g).analyze = p.analyze.mapError (EvalError.map g) := by
  rw [Program.analyze, Program.analyze, Program.names_map]
  cases p.names Builtin.names <;> rfl

end Scriptlet
