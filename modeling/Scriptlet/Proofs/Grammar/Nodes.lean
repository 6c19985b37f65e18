import Scriptlet.Proofs.Grammar.Acceptance
import Scriptlet.Proofs.Program.Nodes

/-!
Nodes and tokens. A scan along the tokens that remembers only whether it is behind `var`, behind
`function` or among the parameters of a function finds the nodes of the program that the tokens
derive, in the same order: every node but a call has a token of its own. A call is put where its
callee stands.
-/

namespace Scriptlet

variable {α : Type}

/-- Where a scan along the tokens is. -/
inductive Setting
  | plain
  /-- Behind `var`. -/
  | declaration
  /-- Behind `function`. -/
  | definition
  /-- Behind the name of a function. -/
  | named
  /-- Behind the parenthesis that opens the parameters. -/
  | parameters
deriving DecidableEq

namespace Setting

def next : Setting → TokenKind → Setting
  | _, .keywordVar => declaration
  | _, .keywordFunction => definition
  | definition, .identifier => named
  | named, .leftParen => parameters
  | parameters, .identifier => parameters
  | parameters, .comma => parameters
  | _, _ => plain

/-- A name in this place is introduced by it. -/
def introduces : Setting → Bool
  | declaration => true
  | definition => true
  | parameters => true
  | _ => false

/-- What a token of this kind stands for. -/
def mark? (q : Setting) (lexeme : String) : TokenKind → Option Mark
  | .identifier => some (if q.introduces then .introduced lexeme else .used lexeme)
  | .integer => some (.integer lexeme)
  | .string => some (.string lexeme)
  | .keywordVar => some .declaration
  | .keywordIf => some .branch
  | .keywordWhile => some .loop
  | .keywordFunction => some .function
  | .assign => some .assignment
  | .keywordElse | .leftParen | .rightParen | .leftBrace | .rightBrace | .comma | .semicolon => none
  | k => some (.operator k.operator)

/-- The node of a token that is read as one of this kind. -/
def node? (q : Setting) (t : Token α) (kind : TokenKind) : Option (Node α) :=
  (q.mark? t.lexeme kind).map fun m => ⟨m, t.location⟩

def after (q : Setting) (ts : List (Token α)) : Setting := ts.foldl (fun q t => q.next t.kind) q

def nodes (q : Setting) : List (Token α) → List (Node α)
  | [] => []
  | t :: ts => (q.node? t t.kind).toList ++ (q.next t.kind).nodes ts

theorem after_append (q : Setting) (ts us : List (Token α)) :
    q.after (ts ++ us) = (q.after ts).after us := List.foldl_append

/-- Every node is that of a token, seen from somewhere. -/
theorem exists_token {q : Setting} {ts : List (Token α)} {n : Node α} (h : n ∈ q.nodes ts) :
    ∃ q' : Setting, ∃ t ∈ ts, q'.node? t t.kind = some n := by
  induction ts generalizing q with
  | nil => cases h
  | cons t ts ih =>
    rcases List.mem_append.mp h with hn | hn
    · exact ⟨q, t, List.mem_cons_self, Option.mem_toList.mp hn⟩
    · obtain ⟨q', u, hu, hnode⟩ := ih hn
      exact ⟨q', u, List.mem_cons_of_mem t hu, hnode⟩

/-- The nodes stand where their tokens stand. -/
theorem sublist_locations (q : Setting) (ts : List (Token α)) :
    List.Sublist ((q.nodes ts).map Node.location) (ts.map Token.location) := by
  induction ts generalizing q with
  | nil => exact .slnil
  | cons t ts ih =>
    have hrest := ih (q.next t.kind)
    rw [nodes, List.map_append, List.map_cons, node?]
    cases q.mark? t.lexeme t.kind with
    | none => exact hrest.cons t.location
    | some m => exact hrest.cons_cons t.location

theorem pairwise_nodes {R : α → α → Prop} {ts : List (Token α)}
    (h : ts.Pairwise fun t u => R t.location u.location) (q : Setting) :
    (q.nodes ts).Pairwise fun m n => R m.location n.location := by
  have htokens : (ts.map Token.location).Pairwise R := List.pairwise_map.mpr h
  exact List.pairwise_map.mp (htokens.sublist (q.sublist_locations ts))

theorem nodes_append (q : Setting) (ts us : List (Token α)) :
    q.nodes (ts ++ us) = q.nodes ts ++ (q.after ts).nodes us := by
  induction ts generalizing q with
  | nil => rfl
  | cons t ts ih =>
    rw [List.cons_append, nodes, nodes, ih, List.append_assoc]
    rfl

end Setting

namespace Phrase

def nodes : (p : Phrase) → p.Tree α → List (Node α)
  | program, x => Program.nodes x
  | item, x => Item.nodes x
  | function, x => FunctionDef.nodes x
  | block, x => Stmt.blockNodes x
  | statement, x => Stmt.nodes x
  | assignment, x | logical, x | relation, x | sum, x | product, x | primary, x => Expr.nodes x

end Phrase

namespace Form

/-- Where a scan is behind the form if it was at `q` before it. -/
def after (q : Setting) : Form → Setting
  | token (k :: _) => q.next k
  | token [] => q
  | phrase _ => .plain
  | seq f g => g.after (f.after q)
  | alt f _ => f.after q
  | opt _ => q
  | many _ => q

/-- The nodes with a token of their own in what a derivation hands on. Only operators have a choice
of kinds. -/
def nodes (q : Setting) : (f : Form) → f.Tree α → List (Node α)
  | token [k], t => (q.node? t k).toList
  | token _, t => [⟨.operator (Token.kind t).operator, Token.location t⟩]
  | phrase p, x => (p.nodes x).filter Node.ownsToken
  | seq f g, (x, y) => f.nodes q x ++ g.nodes (f.after q) y
  | alt f _, .inl x => f.nodes q x
  | alt _ g, .inr y => g.nodes q y
  | opt f, x => (Option.toList x).flatMap (f.nodes q)
  | many f, xs => List.flatMap (f.nodes q) xs

/-- A scan that comes to the form at `q` leaves it at one place, whatever is derived. -/
def Steady (q : Setting) : Form → Prop
  | token [_] => True
  | token kinds => ∀ k ∈ kinds, q.next k = (token kinds).after q ∧
      ∀ lexeme, q.mark? lexeme k = some (.operator k.operator)
  | phrase _ => q = .plain
  | seq f g => f.Steady q ∧ g.Steady (f.after q)
  | alt f g => f.Steady q ∧ g.Steady q ∧ g.after q = f.after q
  | opt f => f.Steady q ∧ f.after q = q
  | many f => f.Steady q ∧ f.after q = q

end Form

/-! ### The parts of a phrase -/

namespace Phrase

theorem steady_rule (p : Phrase) : p.rule.Steady .plain := by
  cases p <;> simp [rule, Form.Steady, Form.after, Setting.next, Setting.mark?]

theorem after_rule (p : Phrase) : p.rule.after .plain = .plain := by
  cases p <;> rfl

/-! Of the tokens around the parts of a phrase none has a node. -/

theorem flatMap_listed {β γ : Type} (g : β → List γ)
    (x : Token α × Option (β × List (Token α × β)) × Token α) :
    (listed x).flatMap g =
      [] ++ (x.2.1.toList.flatMap (fun y => g y.1 ++ y.2.flatMap fun z => [] ++ g z.2) ++ []) := by
  obtain ⟨o, _ | ⟨b, bs⟩, c⟩ := x
  · rfl
  · simp [listed, items, List.flatMap_map]

theorem nodes_chain (x : Expr α × List (Token α × Expr α)) :
    (chain x).nodes.filter Node.ownsToken = x.1.nodes.filter Node.ownsToken ++
      x.2.flatMap fun y => [⟨.operator y.1.kind.operator, y.1.location⟩] ++
        y.2.nodes.filter Node.ownsToken := by
  obtain ⟨e, xs⟩ := x
  induction xs generalizing e with
  | nil => simp [chain]
  | cons y xs ih =>
    have hrest := ih (y.1.binary e y.2)
    change (chain (y.1.binary e y.2, xs)).nodes.filter Node.ownsToken = _
    rw [hrest]
    simp [Token.binary, Expr.nodes, List.filter_cons, Node.ownsToken]

theorem nodes_atMostOne (x : Expr α × Option (Token α × Expr α)) :
    (atMostOne x).nodes.filter Node.ownsToken = x.1.nodes.filter Node.ownsToken ++
      x.2.toList.flatMap fun y => [⟨.operator y.1.kind.operator, y.1.location⟩] ++
        y.2.nodes.filter Node.ownsToken := by
  obtain ⟨e, _ | ⟨t, right⟩⟩ := x
  · simp [atMostOne]
  · simp [atMostOne, Token.binary, Expr.nodes, List.filter_cons, Node.ownsToken]

theorem nodes_block (ss : List (Stmt α)) :
    (Stmt.blockNodes ss).filter Node.ownsToken =
      [] ++ (ss.flatMap (fun s => s.nodes.filter Node.ownsToken) ++ []) := by
  rw [Stmt.blockNodes_eq, List.filter_flatMap, List.append_nil, List.nil_append]

theorem nodes_args (es : List (Expr α)) :
    (Expr.argNodes es).filter Node.ownsToken =
      es.flatMap fun e => e.nodes.filter Node.ownsToken := by
  rw [Expr.argNodes_eq, List.filter_flatMap]

theorem nodes_params (ts : List (Token α)) :
    ((ts.map Token.identifier).map Identifier.introduction).filter Node.ownsToken =
      ts.flatMap fun t => [t.identifier.introduction] := by
  induction ts with
  | nil => rfl
  | cons t ts ih => exact congrArg (t.identifier.introduction :: ·) ih

theorem nodes_function (id : Token α) (body : List (Stmt α)) (keyword : α)
    (params : Token α × Option (Token α × List (Token α × Token α)) × Token α) :
    (FunctionDef.nodes ⟨id.identifier, (listed params).map Token.identifier, body,
        keyword⟩).filter Node.ownsToken =
      ⟨.function, keyword⟩ :: id.identifier.introduction ::
        ((listed params).flatMap (fun t => [t.identifier.introduction]) ++
          (Stmt.blockNodes body).filter Node.ownsToken) := by
  have hparams := nodes_params (listed params)
  rw [← hparams, ← List.filter_append]
  rfl

theorem nodes_branch (cond : Expr α) (thenBlock : List (Stmt α))
    (elseBlock : Option (Token α × List (Stmt α))) (l : α) :
    (Stmt.branch cond thenBlock (elseBlock.map Prod.snd) l).nodes.filter Node.ownsToken =
      ⟨.branch, l⟩ :: ((cond.nodes.filter Node.ownsToken ++ []) ++
        ((Stmt.blockNodes thenBlock).filter Node.ownsToken ++ elseBlock.toList.flatMap fun y =>
          (Stmt.blockNodes y.2).filter Node.ownsToken)) := by
  cases elseBlock <;> simp [Stmt.nodes, Stmt.elseNodes, List.filter_cons, Node.ownsToken]

theorem nodes_loop (cond : Expr α) (body : List (Stmt α)) (l : α) :
    (Stmt.loop cond body l).nodes.filter Node.ownsToken =
      ⟨.loop, l⟩ :: ((cond.nodes.filter Node.ownsToken ++ []) ++
        (Stmt.blockNodes body).filter Node.ownsToken) := by
  simp [Stmt.nodes, List.filter_cons, Node.ownsToken]

theorem nodes_build : (p : Phrase) → (x : p.rule.Tree α) →
    (p.nodes (p.build x)).filter Node.ownsToken = p.rule.nodes .plain x
  | program, xs => List.filter_flatMap
  | item, .inl d => rfl
  | item, .inr s => rfl
  | function, (keyword, id, params, body) => by
    have hparams := flatMap_listed (fun t => [(Token.identifier t).introduction]) params
    have hfunction := nodes_function id body (Token.location keyword) params
    rw [hparams] at hfunction
    exact hfunction
  | block, (_, ss, _) => nodes_block ss
  | statement, .inl (keyword, id, _) => rfl
  | statement, .inr (.inl (keyword, (_, cond, _), thenBlock, elseBlock)) =>
    nodes_branch cond thenBlock elseBlock (Token.location keyword)
  | statement, .inr (.inr (.inl (keyword, (_, cond, _), body))) =>
    nodes_loop cond body (Token.location keyword)
  | statement, .inr (.inr (.inr (e, _))) => (List.append_nil _).symm
  | assignment, .inl (id, sign, value) => rfl
  | assignment, .inr e => rfl
  | logical, x => nodes_atMostOne x
  | relation, x => nodes_atMostOne x
  | sum, x => nodes_chain x
  | product, x => nodes_chain x
  | primary, .inl t => rfl
  | primary, .inr (.inl t) => rfl
  | primary, .inr (.inr (.inl (.inl (callee, args)))) => by
    have hargs := flatMap_listed (fun e => (Expr.nodes e).filter Node.ownsToken) args
    have hcall := nodes_args (listed args)
    rw [hargs] at hcall
    exact congrArg ((Token.identifier callee).use :: ·) hcall
  | primary, .inr (.inr (.inl (.inr t))) => rfl
  | primary, .inr (.inr (.inr (_, e, _))) => (List.append_nil _).symm

end Phrase

namespace Derivation

/-- A scan along the tokens of a derivation finds the nodes of its tree. -/
theorem nodes_tree {f : Form} (d : Derivation α f) {q : Setting} (hf : f.Steady q) :
    q.nodes d.yield = f.nodes q d.tree ∧ q.after d.yield = f.after q := by
  induction d generalizing q with
  | @token kinds t h =>
    match kinds, h, hf with
    | [k], h, _ =>
      obtain rfl : t.kind = k := List.mem_singleton.mp h
      exact ⟨List.append_nil _, rfl⟩
    | k :: k' :: ks, h, hf =>
      -- Whichever of the kinds it is, the scan takes it for an operator and goes on alike.
      obtain ⟨hnext, hmark⟩ := hf t.kind h
      have hnode : q.node? t t.kind = Option.some ⟨.operator t.kind.operator, t.location⟩ := by
        rw [Setting.node?, hmark]
        rfl
      refine ⟨?_, hnext⟩
      rw [yield, Setting.nodes, hnode]
      rfl
  | @phrase p d ih =>
    obtain rfl : q = .plain := hf
    obtain ⟨hnodes, hafter⟩ := ih p.steady_rule
    exact ⟨hnodes.trans (p.nodes_build d.tree).symm, hafter.trans p.after_rule⟩
  | seq d e ihd ihe =>
    obtain ⟨hd, hafter⟩ := ihd hf.1
    obtain ⟨he, hend⟩ := ihe hf.2
    rw [yield, Setting.nodes_append, Setting.after_append, hd, hafter, he, hend]
    exact ⟨rfl, rfl⟩
  | left d ih => exact ih hf.1
  | right d ih =>
    obtain ⟨hnodes, hafter⟩ := ih hf.2.1
    exact ⟨hnodes, hafter.trans hf.2.2⟩
  | none => exact ⟨rfl, rfl⟩
  | @some f d ih =>
    obtain ⟨hnodes, hafter⟩ := ih hf.1
    exact ⟨hnodes.trans (List.append_nil (f.nodes q d.tree)).symm, hafter.trans hf.2⟩
  | nil => exact ⟨rfl, rfl⟩
  | cons d e ihd ihe =>
    obtain ⟨hd, hafter⟩ := ihd hf.1
    obtain ⟨he, hend⟩ := ihe hf
    rw [hf.2] at hafter
    rw [yield, Setting.nodes_append, Setting.after_append, hd, hafter, he, hend]
    exact ⟨rfl, rfl⟩

end Derivation

/-! ### Calls and their callees -/

namespace Node

theorem Paired.flatMap {β : Type} {g : β → List (Node α)} {xs : List β}
    (h : ∀ x ∈ xs, Paired (g x)) : Paired (xs.flatMap g) := by
  induction xs with
  | nil => exact .nil
  | cons x xs ih =>
    rw [List.forall_mem_cons] at h
    exact h.1.append (ih h.2)

theorem paired_block {ss : List (Stmt α)} (h : ∀ s ∈ ss, Paired s.nodes) :
    Paired (Stmt.blockNodes ss) := by
  rw [Stmt.blockNodes_eq]
  exact .flatMap h

theorem paired_args {es : List (Expr α)} (h : ∀ e ∈ es, Paired e.nodes) :
    Paired (Expr.argNodes es) := by
  rw [Expr.argNodes_eq]
  exact .flatMap h

theorem paired_introductions (ids : List (Identifier α)) :
    Paired (ids.map Identifier.introduction) := by
  induction ids with
  | nil => exact .nil
  | cons id ids ih => exact .own rfl ih

theorem paired_binary (t : Token α) (left right : Expr α) (hleft : Paired left.nodes)
    (hright : Paired right.nodes) : Paired (t.binary left right).nodes :=
  hleft.append (.own rfl hright)

end Node

/-- In what a derivation hands on, every call stands where its callee does. -/
abbrev Form.Paired (f : Form) (x : f.Tree α) : Prop :=
  f.Every (fun _ _ => True) (fun p x => Node.Paired (p.nodes x)) x

namespace Phrase

open Node

theorem paired_build : (p : Phrase) → (x : p.rule.Tree α) → p.rule.Paired x →
    Paired (p.nodes (p.build x))
  | program, xs, h => .flatMap h
  | item, .inl d, h => h
  | item, .inr s, h => h
  | function, (keyword, id, params, body), ⟨_, _, _, hbody⟩ =>
    .own rfl (.own rfl ((paired_introductions _).append hbody))
  | block, (_, ss, _), ⟨_, hss, _⟩ => paired_block hss
  | statement, .inl (keyword, id, _), _ => .own rfl (.own rfl .nil)
  | statement, .inr (.inl (keyword, (_, cond, _), thenBlock, elseBlock)),
    ⟨_, ⟨_, hcond, _⟩, hthen, helse⟩ => by
    refine .own rfl (hcond.append (hthen.append ?_))
    cases elseBlock with
    | none => exact .nil
    | some b => exact (helse b rfl).2
  | statement, .inr (.inr (.inl (keyword, (_, cond, _), body))), ⟨_, ⟨_, hcond, _⟩, hbody⟩ =>
    .own rfl (hcond.append hbody)
  | statement, .inr (.inr (.inr (e, _))), ⟨he, _⟩ => he
  | assignment, .inl (id, sign, value), ⟨_, _, hvalue⟩ => .own rfl (.own rfl hvalue)
  | assignment, .inr e, h => h
  | logical, x, h => every_atMostOne paired_binary h.1 fun y hy => (h.2 y hy).2
  | relation, x, h => every_atMostOne paired_binary h.1 fun y hy => (h.2 y hy).2
  | sum, x, h => every_chain paired_binary h.1 fun y hy => (h.2 y hy).2
  | product, x, h => every_chain paired_binary h.1 fun y hy => (h.2 y hy).2
  | primary, .inl t, _ => .own rfl .nil
  | primary, .inr (.inl t), _ => .own rfl .nil
  -- A call is put where its callee stands.
  | primary, .inr (.inr (.inl (.inl (callee, args)))), ⟨_, hargs⟩ =>
    .call (paired_args (every_listed hargs))
  | primary, .inr (.inr (.inl (.inr t))), _ => .own rfl .nil
  | primary, .inr (.inr (.inr (_, e, _))), ⟨_, he, _⟩ => he

end Phrase

/-- In a program that was read, a call stands where its callee stands. -/
theorem Program.paired_of_parse {text file : String} {p : Program Location}
    (h : Program.parse text file = .ok p) : Node.Paired p.nodes := by
  have houtcome := Program.parse_outcome text file
  rw [h] at houtcome
  cases houtcome with
  | accepted d =>
    exact d.every_tree Phrase.paired_build fun _ _ _ _ => trivial

/-- Reading a text gives the nodes of its tokens. -/
theorem Program.nodes_of_parse {text file : String} {p : Program Location}
    (h : Program.parse text file = .ok p) :
    ∃ ts, tokenize text file = .ok ts ∧
      p.nodes.filter Node.ownsToken = Setting.plain.nodes ts := by
  have houtcome := Program.parse_outcome text file
  rw [h] at houtcome
  cases houtcome with
  | accepted d hts l hending =>
    refine ⟨_, tokenize_of_ending hending, ?_⟩
    rw [← hts]
    exact (d.nodes_tree rfl).1.symm

end Scriptlet
