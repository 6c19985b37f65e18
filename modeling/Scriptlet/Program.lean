import Scriptlet.Position

/-!
The program tree. Every node that a message can point at carries a location of any type `α`;
mapping all locations to one point leaves the program itself.
-/

namespace Scriptlet

inductive BinaryOp
  | add | sub | mul | div
  | less | lessEqual | greater | greaterEqual | equal | notEqual
  | and | or
deriving DecidableEq, Inhabited

namespace BinaryOp

def symbol : BinaryOp → String
  | add => "+"
  | sub => "-"
  | mul => "*"
  | div => "/"
  | less => "<"
  | lessEqual => "<="
  | greater => ">"
  | greaterEqual => ">="
  | equal => "=="
  | notEqual => "!="
  | and => "&&"
  | or => "||"

end BinaryOp

structure Identifier (α : Type) where
  name : String
  location : α
deriving DecidableEq, Inhabited

/-- Locations are those of the literal, the name, the assignment sign and the operator. A call has
one besides that of its callee; the parser gives both the same. -/
inductive Expr (α : Type)
  | integer (text : String) (location : α)
  | string (value : String) (location : α)
  | reference (id : Identifier α)
  | assign (target : Identifier α) (value : Expr α) (location : α)
  | binary (op : BinaryOp) (left right : Expr α) (location : α)
  | callAt (callee : Identifier α) (args : List (Expr α)) (location : α)
deriving Inhabited

/-- A call, wherever it is located. -/
@[match_pattern]
abbrev Expr.call {α : Type} {location : α} (callee : Identifier α) (args : List (Expr α)) :
    Expr α := .callAt callee args location

/-- Locations are those of the keyword that opens the statement. -/
inductive Stmt (α : Type)
  | declare (id : Identifier α) (location : α)
  | branch (cond : Expr α) (thenBlock : List (Stmt α)) (elseBlock : Option (List (Stmt α)))
    (location : α)
  | loop (cond : Expr α) (body : List (Stmt α)) (location : α)
  | expr (e : Expr α)
deriving Inhabited

structure FunctionDef (α : Type) where
  id : Identifier α
  params : List (Identifier α)
  body : List (Stmt α)
  location : α
deriving Inhabited

/-- What may stand at the outermost level of a program. -/
inductive Item (α : Type)
  | function (d : FunctionDef α)
  | stmt (s : Stmt α)
deriving Inhabited

structure Program (α : Type) where
  items : List (Item α)
deriving Inhabited

variable {α β : Type}

def Identifier.map (f : α → β) (i : Identifier α) : Identifier β := ⟨i.name, f i.location⟩

def Expr.location : Expr α → α
  | .integer _ l => l
  | .string _ l => l
  | .reference id => id.location
  | .assign _ _ l => l
  | .binary _ _ _ l => l
  | .callAt _ _ l => l

mutual

def Expr.map (f : α → β) : Expr α → Expr β
  | .integer text l => .integer text (f l)
  | .string value l => .string value (f l)
  | .reference id => .reference (id.map f)
  | .assign target value l => .assign (target.map f) (value.map f) (f l)
  | .binary op left right l => .binary op (left.map f) (right.map f) (f l)
  | .callAt callee args l => .callAt (callee.map f) (Expr.mapArgs f args) (f l)

def Expr.mapArgs (f : α → β) : List (Expr α) → List (Expr β)
  | [] => []
  | e :: es => e.map f :: Expr.mapArgs f es

end

mutual

def Stmt.map (f : α → β) : Stmt α → Stmt β
  | .declare id l => .declare (id.map f) (f l)
  | .branch cond thenBlock elseBlock l =>
    .branch (cond.map f) (Stmt.mapBlock f thenBlock) (Stmt.mapElse f elseBlock) (f l)
  | .loop cond body l => .loop (cond.map f) (Stmt.mapBlock f body) (f l)
  | .expr e => .expr (e.map f)

def Stmt.mapBlock (f : α → β) : List (Stmt α) → List (Stmt β)
  | [] => []
  | s :: ss => s.map f :: Stmt.mapBlock f ss

def Stmt.mapElse (f : α → β) : Option (List (Stmt α)) → Option (List (Stmt β))
  | none => none
  | some b => some (Stmt.mapBlock f b)

end

def FunctionDef.map (f : α → β) (d : FunctionDef α) : FunctionDef β :=
  ⟨d.id.map f, d.params.map (Identifier.map f), Stmt.mapBlock f d.body, f d.location⟩

def FunctionDef.name (d : FunctionDef α) : String := d.id.name

def FunctionDef.arity (d : FunctionDef α) : Nat := d.params.length

def Item.map (f : α → β) : Item α → Item β
  | .function d => .function (d.map f)
  | .stmt s => .stmt (s.map f)

def Program.map (f : α → β) (p : Program α) : Program β := ⟨p.items.map (Item.map f)⟩

/-- The program without its locations. -/
def Program.erase (p : Program α) : Program Unit := p.map fun _ => ()

end Scriptlet
