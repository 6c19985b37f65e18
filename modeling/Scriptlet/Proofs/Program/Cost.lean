import Scriptlet.Program

/-!
How many steps the parts of a program can take, if calling a function takes `w` steps at most. Each
part is counted with the frames it leaves to wait for it. Only loops have no such bound.
-/

namespace Scriptlet

variable {α : Type}

mutual

def Expr.cost (w : Nat) : Expr α → Nat
  | .integer _ _ => 1
  | .string _ _ => 1
  | .reference _ => 1
  | .assign _ value _ => value.cost w + 2
  | .binary _ left right _ => left.cost w + right.cost w + 3
  | .callAt _ args _ => Expr.argsCost w args + w + 2

def Expr.argsCost (w : Nat) : List (Expr α) → Nat
  | [] => 0
  | e :: es => e.cost w + Expr.argsCost w es + 2

end

mutual

def Stmt.loopFree : Stmt α → Bool
  | .declare _ _ => true
  | .branch _ thenBlock elseBlock _ =>
    Stmt.blockLoopFree thenBlock && Stmt.elseLoopFree elseBlock
  | .loop _ _ _ => false
  | .expr _ => true

def Stmt.blockLoopFree : List (Stmt α) → Bool
  | [] => true
  | s :: ss => s.loopFree && Stmt.blockLoopFree ss

def Stmt.elseLoopFree : Option (List (Stmt α)) → Bool
  | none => true
  | some ss => Stmt.blockLoopFree ss

end

mutual

def Stmt.cost (w : Nat) : Stmt α → Nat
  | .declare _ _ => 1
  | .branch cond thenBlock elseBlock _ =>
    cond.cost w + Stmt.blockCost w thenBlock + Stmt.elseCost w elseBlock + 4
  -- No number would do.
  | .loop _ _ _ => 0
  | .expr e => e.cost w + 1

def Stmt.blockCost (w : Nat) : List (Stmt α) → Nat
  | [] => 1
  | s :: ss => s.cost w + Stmt.blockCost w ss + 2

def Stmt.elseCost (w : Nat) : Option (List (Stmt α)) → Nat
  | none => 0
  | some ss => Stmt.blockCost w ss

end

def Item.loopFree : Item α → Bool
  | .function d => Stmt.blockLoopFree d.body
  | .stmt s => s.loopFree

/-- Defining a function takes one step, whatever its body. -/
def Item.cost (w : Nat) : Item α → Nat
  | .function _ => 1
  | .stmt s => s.cost w + 2

def Item.allCost (w : Nat) : List (Item α) → Nat
  | [] => 1
  | i :: is => i.cost w + Item.allCost w is

/-- There is no loop at the outermost level, in any block or in the body of any function. -/
def Program.loopFree (p : Program α) : Bool := p.items.all Item.loopFree

/-- The functions that the program defines. -/
def Program.functions (p : Program α) : List (FunctionDef α) :=
  p.items.filterMap fun
    | .function d => some d
    | .stmt _ => none

/-- The steps that one call of each function takes, without the steps of calling it. -/
def FunctionDef.bodiesCost (w : Nat) : List (FunctionDef α) → Nat
  | [] => 0
  | d :: ds => Stmt.blockCost w d.body + bodiesCost w ds

/-- The steps that a call takes at most if it may have `n` more calls open, itself included. Without
any it just fails. -/
def callCost (ds : List (FunctionDef α)) : Nat → Nat
  | 0 => 1
  | n + 1 => FunctionDef.bodiesCost (callCost ds n) ds + 2

theorem FunctionDef.blockCost_le {w : Nat} {d : FunctionDef α} {ds : List (FunctionDef α)}
    (h : d ∈ ds) : Stmt.blockCost w d.body ≤ bodiesCost w ds := by
  induction ds with
  | nil => simp at h
  | cons d' ds ih =>
    rw [bodiesCost]
    rcases List.mem_cons.mp h with rfl | h
    · omega
    · have hh := ih h
      omega

theorem callCost_pos (ds : List (FunctionDef α)) (n : Nat) : 0 < callCost ds n := by
  cases n with
  | zero => exact Nat.one_pos
  | succ n => exact Nat.succ_pos _

end Scriptlet
