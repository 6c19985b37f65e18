import Scriptlet.Program

/-!
Every name a program uses has to be introduced earlier in its text. The names introduced so far
form one growing set: blocks and functions close no scope here, and what slips through is met
again when the program runs.
-/

namespace Scriptlet

variable {α : Type}

mutual

/-- The first name used in an expression that is not among the known ones. -/
def Expr.unknown? (known : List String) : Expr α → Option (Identifier α)
  | .integer _ _ => none
  | .string _ _ => none
  | .reference id => if id.name ∈ known then none else some id
  | .assign target value _ => if target.name ∈ known then value.unknown? known else some target
  | .binary _ left right _ => (left.unknown? known).or (right.unknown? known)
  | .call callee args =>
    if callee.name ∈ known then Expr.unknownArg? known args else some callee

def Expr.unknownArg? (known : List String) : List (Expr α) → Option (Identifier α)
  | [] => none
  | e :: es => (e.unknown? known).or (Expr.unknownArg? known es)

end

/-- Goes on unless an unknown name was used. -/
def demand (id : Option (Identifier α)) : Except (Identifier α) Unit :=
  match id with
  | none => .ok ()
  | some id => .error id

mutual

/-- The names known behind a statement, or the first unknown name used in it. -/
def Stmt.names (known : List String) : Stmt α → Except (Identifier α) (List String)
  | .declare id _ => .ok (id.name :: known)
  | .branch cond thenBlock elseBlock _ => do
    demand (cond.unknown? known)
    let known ← Stmt.blockNames known thenBlock
    Stmt.elseNames known elseBlock
  | .loop cond body _ => do
    demand (cond.unknown? known)
    Stmt.blockNames known body
  | .expr e => do
    demand (e.unknown? known)
    return known

def Stmt.blockNames (known : List String) : List (Stmt α) → Except (Identifier α) (List String)
  | [] => .ok known
  | s :: ss => do
    let known ← s.names known
    Stmt.blockNames known ss

def Stmt.elseNames (known : List String) :
    Option (List (Stmt α)) → Except (Identifier α) (List String)
  | none => .ok known
  | some ss => Stmt.blockNames known ss

end

/-- A function introduces its own name and its parameters before its body. -/
def FunctionDef.names (known : List String) (d : FunctionDef α) :
    Except (Identifier α) (List String) :=
  Stmt.blockNames ((d.params.map Identifier.name).reverse ++ d.name :: known) d.body

def Item.names (known : List String) : Item α → Except (Identifier α) (List String)
  | .function d => d.names known
  | .stmt s => s.names known

/-- The names known behind all items, or the first unknown name used in them. -/
def Program.names (known : List String) (p : Program α) : Except (Identifier α) (List String) :=
  p.items.foldlM Item.names known

end Scriptlet
