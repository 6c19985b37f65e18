import Scriptlet.Program

/-!
Drawing a program as a tree, one node a line. A line shows its depth by the columns before it:
a bar below every ancestor that has a later sibling, blanks below the others.
-/

namespace Scriptlet

inductive Tree
  | node (label : String) (children : List Tree)
deriving Inhabited

namespace Tree

/-- A node that shows the text it stands for. -/
def leaf (tag payload : String) : Tree := node (tag ++ "[" ++ payload ++ "]") []

mutual

/-- The lines of a tree: `lead` stands before its label, `margin` before the lines below. -/
def lines (lead margin : String) : Tree → List String
  | node label children => (lead ++ label) :: linesBelow margin children

/-- The lines of sibling trees below a margin. -/
def linesBelow (margin : String) : List Tree → List String
  | [] => []
  | [t] => t.lines (margin ++ "+--") (margin ++ "   ")
  | t :: u :: ts => t.lines (margin ++ "+--") (margin ++ "|  ") ++ linesBelow margin (u :: ts)

end

def draw (t : Tree) : String := String.join ((t.lines "" "").map (· ++ "\n"))

end Tree

def BinaryOp.tag : BinaryOp → String
  | add => "ADD"
  | sub => "SUB"
  | mul => "MULTIPLY"
  | div => "DIVIDE"
  | less => "LESS"
  | lessEqual => "LESSEQUAL"
  | greater => "GREATER"
  | greaterEqual => "GREATEREQUAL"
  | equal => "ISEQUAL"
  | notEqual => "ISNOTEQUAL"
  | and => "LOGICAL_AND"
  | or => "LOGICAL_OR"

variable {α : Type}

def Identifier.tree (id : Identifier α) : Tree := .leaf "VARREF" id.name

mutual

def Expr.tree : Expr α → Tree
  | .integer text _ => .leaf "INT_LITERAL" text
  | .string value _ => .leaf "STRING_LITERAL" value
  | .reference id => id.tree
  | .assign target value _ => .node "ASSIGN" [target.tree, value.tree]
  | .binary op left right _ => .node op.tag [left.tree, right.tree]
  | .call callee args => .node "FNCALL" [callee.tree, .node "ARGLIST" (Expr.trees args)]

def Expr.trees : List (Expr α) → List Tree
  | [] => []
  | e :: es => e.tree :: Expr.trees es

end

mutual

def Stmt.tree : Stmt α → Tree
  | .declare id _ => .node "STATEMENT" [.node "VARDEF" [id.tree]]
  | .branch cond thenBlock elseBlock _ =>
    .node "STATEMENT"
      [.node "IF" (cond.tree :: .node "STATEMENT_LIST" (Stmt.trees thenBlock) ::
        Stmt.elseTrees elseBlock)]
  | .loop cond body _ =>
    .node "STATEMENT" [.node "WHILE" [cond.tree, .node "STATEMENT_LIST" (Stmt.trees body)]]
  | .expr e => .node "STATEMENT" [e.tree]

def Stmt.trees : List (Stmt α) → List Tree
  | [] => []
  | s :: ss => s.tree :: Stmt.trees ss

/-- An alternative is drawn even if it is empty, a missing one is not. -/
def Stmt.elseTrees : Option (List (Stmt α)) → List Tree
  | none => []
  | some ss => [.node "STATEMENT_LIST" (Stmt.trees ss)]

end

def FunctionDef.tree (d : FunctionDef α) : Tree :=
  .node "FUNCTION"
    [d.id.tree, .node "PARAMETER_LIST" (d.params.map Identifier.tree),
      .node "STATEMENT_LIST" (Stmt.trees d.body)]

def Item.tree : Item α → Tree
  | .function d => d.tree
  | .stmt s => s.tree

def Program.tree (p : Program α) : Tree := .node "UNIT" (p.items.map Item.tree)

def Program.draw (p : Program α) : String := p.tree.draw

end Scriptlet
