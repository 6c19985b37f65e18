import Scriptlet.Program.Parser

/-!
The grammar of programs as data. A derivation is a tree that follows the right-hand sides; its
leaves are the tokens it derives, and each phrase builds its part of the program from the parts
below it.
-/

namespace Scriptlet

/-- The names on the left-hand sides. -/
inductive Phrase
  | program | item | function | block | statement
  | assignment | logical | relation | sum | product | primary
deriving DecidableEq

/-- A right-hand side. -/
inductive Form
  /-- A token of one of the given kinds. -/
  | token (kinds : List TokenKind)
  | phrase (p : Phrase)
  | seq (f g : Form)
  | alt (f g : Form)
  | opt (f : Form)
  | many (f : Form)

namespace Form

/-- One `f` or more, with commas between them. -/
abbrev separated (f : Form) : Form := seq f (many (seq (token [.comma]) f))

/-- Any number of `f` in parentheses, with commas between them. -/
abbrev listed (f : Form) : Form :=
  seq (token [.leftParen]) (seq (opt (separated f)) (token [.rightParen]))

/-- An `f`, or two with an operator between them. -/
abbrev atMostOne (ops : List TokenKind) (f : Form) : Form := seq f (opt (seq (token ops) f))

/-- One `f` or more, with operators between them. -/
abbrev chain (ops : List TokenKind) (f : Form) : Form := seq f (many (seq (token ops) f))

/-- An assignment in parentheses. -/
abbrev condition : Form :=
  seq (token [.leftParen]) (seq (phrase .assignment) (token [.rightParen]))

end Form

namespace Phrase

abbrev logicalKinds : List TokenKind := [.logicalAnd, .logicalOr]

abbrev relationKinds : List TokenKind :=
  [.less, .lessEqual, .greater, .greaterEqual, .equal, .notEqual]

abbrev sumKinds : List TokenKind := [.plus, .minus]

abbrev productKinds : List TokenKind := [.star, .slash]

open Form in
/-- The rules of the grammar. -/
def rule : Phrase → Form
  | program => many (phrase item)
  | item => alt (phrase function) (phrase statement)
  | function =>
    seq (token [.keywordFunction]) (seq (token [.identifier])
      (seq (listed (token [.identifier])) (phrase block)))
  | block => seq (token [.leftBrace]) (seq (many (phrase statement)) (token [.rightBrace]))
  | statement =>
    alt (seq (token [.keywordVar]) (seq (token [.identifier]) (token [.semicolon])))
    (alt (seq (token [.keywordIf]) (seq condition
      (seq (phrase block) (opt (seq (token [.keywordElse]) (phrase block))))))
    (alt (seq (token [.keywordWhile]) (seq condition (phrase block)))
      (seq (phrase assignment) (token [.semicolon]))))
  | assignment =>
    alt (seq (token [.identifier]) (seq (token [.assign]) (phrase assignment))) (phrase logical)
  | logical => atMostOne logicalKinds (phrase relation)
  | relation => atMostOne relationKinds (phrase sum)
  | sum => chain sumKinds (phrase product)
  | product => chain productKinds (phrase primary)
  | primary =>
    alt (token [.integer])
    (alt (token [.string])
    (alt (alt (seq (token [.identifier]) (listed (phrase logical))) (token [.identifier]))
      condition))

end Phrase

/-- A derivation of a form. -/
inductive Derivation (α : Type) : Form → Type
  | token {kinds : List TokenKind} (t : Token α) (h : t.kind ∈ kinds) :
    Derivation α (.token kinds)
  | phrase {p : Phrase} (d : Derivation α p.rule) : Derivation α (.phrase p)
  | seq {f g : Form} (d : Derivation α f) (e : Derivation α g) : Derivation α (.seq f g)
  | left {f g : Form} (d : Derivation α f) : Derivation α (.alt f g)
  | right {f g : Form} (d : Derivation α g) : Derivation α (.alt f g)
  | none {f : Form} : Derivation α (.opt f)
  | some {f : Form} (d : Derivation α f) : Derivation α (.opt f)
  | nil {f : Form} : Derivation α (.many f)
  | cons {f : Form} (d : Derivation α f) (e : Derivation α (.many f)) : Derivation α (.many f)

variable {α : Type}

/-- The part of a program that a phrase stands for. -/
def Phrase.Tree (α : Type) : Phrase → Type
  | program => Program α
  | item => Item α
  | function => FunctionDef α
  | block => List (Stmt α)
  | statement => Stmt α
  | assignment | logical | relation | sum | product | primary => Expr α

/-- What a derivation of a form hands to the phrase around it. -/
def Form.Tree (α : Type) : Form → Type
  | token _ => Token α
  | phrase p => p.Tree α
  | seq f g => f.Tree α × g.Tree α
  | alt f g => f.Tree α ⊕ g.Tree α
  | opt f => Option (f.Tree α)
  | many f => List (f.Tree α)

/-- The operator that a token of an operator's kind stands for. -/
def TokenKind.operator : TokenKind → BinaryOp
  | plus => .add
  | minus => .sub
  | star => .mul
  | slash => .div
  | less => .less
  | lessEqual => .lessEqual
  | greater => .greater
  | greaterEqual => .greaterEqual
  | equal => .equal
  | notEqual => .notEqual
  | logicalAnd => .and
  | _ => .or

namespace Token

def identifier (t : Token α) : Identifier α := ⟨t.lexeme, t.location⟩

/-- An operator between two operands. -/
def binary (t : Token α) (left right : Expr α) : Expr α :=
  .binary t.kind.operator left right t.location

end Token

namespace Phrase

/-- The items of a list with commas. -/
def items {β : Type} (x : β × List (Token α × β)) : List β := x.1 :: x.2.map Prod.snd

/-- The items between parentheses. -/
def listed {β : Type} (x : Token α × Option (β × List (Token α × β)) × Token α) : List β :=
  (x.2.1.map items).getD []

def atMostOne (x : Expr α × Option (Token α × Expr α)) : Expr α :=
  match x.2 with
  | none => x.1
  | some (t, right) => t.binary x.1 right

/-- Operands with operators between them are grouped to the left. -/
def chain (x : Expr α × List (Token α × Expr α)) : Expr α :=
  x.2.foldl (fun left y => y.1.binary left y.2) x.1

/-- Builds the part of the program that a phrase stands for. Parentheses leave no trace. -/
def build : (p : Phrase) → p.rule.Tree α → p.Tree α
  | program, xs => Program.mk xs
  | item, .inl d => Item.function d
  | item, .inr s => Item.stmt s
  | function, (keyword, id, params, body) =>
    FunctionDef.mk id.identifier ((listed params).map Token.identifier) body keyword.location
  | block, (_, ss, _) => ss
  | statement, .inl (keyword, id, _) => Stmt.declare id.identifier keyword.location
  | statement, .inr (.inl (keyword, (_, cond, _), thenBlock, elseBlock)) =>
    Stmt.branch cond thenBlock (elseBlock.map Prod.snd) keyword.location
  | statement, .inr (.inr (.inl (keyword, (_, cond, _), body))) =>
    Stmt.loop cond body keyword.location
  | statement, .inr (.inr (.inr (e, _))) => Stmt.expr e
  | assignment, .inl (id, sign, value) => Expr.assign id.identifier value sign.location
  | assignment, .inr e => e
  | logical, x => atMostOne x
  | relation, x => atMostOne x
  | sum, x => chain x
  | product, x => chain x
  | primary, .inl t => Expr.integer t.lexeme t.location
  | primary, .inr (.inl t) => Expr.string t.lexeme t.location
  | primary, .inr (.inr (.inl (.inl (callee, args)))) =>
    Expr.callAt callee.identifier (listed args) callee.location
  | primary, .inr (.inr (.inl (.inr t))) => Expr.reference t.identifier
  | primary, .inr (.inr (.inr (_, e, _))) => e

end Phrase

namespace Derivation

/-- The tokens that a derivation derives. -/
def yield : {f : Form} → Derivation α f → List (Token α)
  | _, token t _ => [t]
  | _, phrase d => d.yield
  | _, seq d e => d.yield ++ e.yield
  | _, left d => d.yield
  | _, right d => d.yield
  | _, none => []
  | _, some d => d.yield
  | _, nil => []
  | _, cons d e => d.yield ++ e.yield

def tree : {f : Form} → Derivation α f → f.Tree α
  | _, token t _ => t
  | _, @phrase _ p d => p.build d.tree
  | _, seq d e => (d.tree, e.tree)
  | _, left d => .inl d.tree
  | _, right d => .inr d.tree
  | _, none => Option.none
  | _, some d => Option.some d.tree
  | _, nil => []
  | _, cons d e => d.tree :: e.tree

end Derivation

/-! ### Facts about every part of a tree -/

section

variable {T : List TokenKind → Token α → Prop} {P : (p : Phrase) → p.Tree α → Prop}

/-- Of what a derivation hands on, every token has `T` and every part of the program has `P`. -/
def Form.Every (T : List TokenKind → Token α → Prop) (P : (p : Phrase) → p.Tree α → Prop) :
    (f : Form) → f.Tree α → Prop
  | token kinds, t => T kinds t
  | phrase p, x => P p x
  | seq f g, (x, y) => f.Every T P x ∧ g.Every T P y
  | alt f _, .inl x => f.Every T P x
  | alt _ g, .inr x => g.Every T P x
  | opt f, x => ∀ y, x = Option.some y → f.Every T P y
  | many f, xs => ∀ x, List.Mem x xs → f.Every T P x

theorem Phrase.every_listed {f : Form} {x : (Form.listed f).Tree α}
    (h : (Form.listed f).Every T P x) : ∀ y ∈ listed x, f.Every T P y := by
  obtain ⟨o, _ | ⟨y, ys⟩, c⟩ := x
  · exact List.forall_mem_nil _
  · obtain ⟨-, hsome, -⟩ := h
    obtain ⟨hy, hys⟩ := hsome _ rfl
    refine List.forall_mem_cons.mpr ⟨hy, ?_⟩
    exact List.forall_mem_map.mpr fun z hz => (hys z hz).2

/-! What operands have and operators keep, a chain of operands has. -/

theorem Phrase.every_atMostOne {Q : Expr α → Prop}
    (hbinary : ∀ (t : Token α) left right, Q left → Q right → Q (t.binary left right))
    {x : Expr α × Option (Token α × Expr α)} (hfst : Q x.1)
    (hsnd : ∀ y, x.2 = some y → Q y.2) : Q (atMostOne x) := by
  obtain ⟨e, _ | y⟩ := x
  · exact hfst
  · exact hbinary y.1 e y.2 hfst (hsnd y rfl)

theorem Phrase.every_chain {Q : Expr α → Prop}
    (hbinary : ∀ (t : Token α) left right, Q left → Q right → Q (t.binary left right))
    {x : Expr α × List (Token α × Expr α)} (hfst : Q x.1)
    (hsnd : ∀ y ∈ x.2, Q y.2) : Q (chain x) := by
  obtain ⟨e, ys⟩ := x
  induction ys generalizing e with
  | nil => exact hfst
  | cons y ys ih =>
    rw [List.forall_mem_cons] at hsnd
    exact ih (y.1.binary e y.2) (hbinary y.1 e y.2 hfst hsnd.1) hsnd.2

/-- What every phrase has as soon as its parts have it, all derived trees have. -/
theorem Derivation.every_tree
    (hbuild : ∀ (p : Phrase) (x : p.rule.Tree α), p.rule.Every T P x → P p (p.build x))
    {f : Form} (d : Derivation α f)
    (h : ∀ t ∈ d.yield, ∀ kinds, t.kind ∈ kinds → T kinds t) : f.Every T P d.tree := by
  induction d with
  | token t hkind => exact h t List.mem_cons_self _ hkind
  | @phrase p d ih => exact hbuild p d.tree (ih h)
  | seq d e ihd ihe =>
    obtain ⟨hd, he⟩ := List.forall_mem_append.mp h
    exact ⟨ihd hd, ihe he⟩
  | left d ih => exact ih h
  | right d ih => exact ih h
  | none => exact nofun
  | some d ih =>
    intro y hy
    cases hy
    exact ih h
  | nil => exact nofun
  | cons d e ihd ihe =>
    obtain ⟨hd, he⟩ := List.forall_mem_append.mp h
    exact List.forall_mem_cons.mpr ⟨ihd hd, ihe he⟩

end

end Scriptlet
