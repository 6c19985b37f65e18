import Mathlib.Data.List.Forall2
import Scriptlet.Proofs.Grammar.Relocation
import Scriptlet.Proofs.Program.Written

/-!
The grammar derives the tokens of every program, and the tree is the program without its locations.
A part in parentheses is a primary expression, and a primary expression is an expression of every
other level.
-/

namespace Scriptlet

variable {α : Type}

def Derives (f : Form) (ts : List (Token Unit)) (x : f.Tree Unit) : Prop :=
  ∃ d : Derivation Unit f, d.yield = ts ∧ d.tree = x

namespace Derives

variable {f g : Form} {ts us : List (Token Unit)}

theorem token {kinds : List TokenKind} {t : Token Unit} (h : t.kind ∈ kinds) :
    Derives (.token kinds) [t] t := ⟨.token t h, rfl, rfl⟩

theorem sign {kinds : List TokenKind} {kind : TokenKind} (h : kind ∈ kinds) :
    Derives (.token kinds) [kind.sign] kind.sign := token h

theorem phrase {p : Phrase} {x : p.rule.Tree Unit} (h : Derives p.rule ts x) :
    Derives (.phrase p) ts (p.build x) := by
  obtain ⟨d, rfl, rfl⟩ := h
  exact ⟨.phrase d, rfl, rfl⟩

theorem seq {x : f.Tree Unit} {y : g.Tree Unit} (hf : Derives f ts x) (hg : Derives g us y) :
    Derives (.seq f g) (ts ++ us) (x, y) := by
  obtain ⟨d, rfl, rfl⟩ := hf
  obtain ⟨e, rfl, rfl⟩ := hg
  exact ⟨.seq d e, rfl, rfl⟩

theorem left {x : f.Tree Unit} (h : Derives f ts x) : Derives (.alt f g) ts (.inl x) := by
  obtain ⟨d, rfl, rfl⟩ := h
  exact ⟨.left d, rfl, rfl⟩

theorem right {x : g.Tree Unit} (h : Derives g ts x) : Derives (.alt f g) ts (.inr x) := by
  obtain ⟨d, rfl, rfl⟩ := h
  exact ⟨.right d, rfl, rfl⟩

theorem none : Derives (.opt f) [] (Option.none : Option (f.Tree Unit)) := ⟨.none, rfl, rfl⟩

theorem some {x : f.Tree Unit} (h : Derives f ts x) :
    Derives (.opt f) ts (Option.some x : Option (f.Tree Unit)) := by
  obtain ⟨d, rfl, rfl⟩ := h
  exact ⟨.some d, rfl, rfl⟩

theorem nil : Derives (.many f) [] ([] : List (f.Tree Unit)) := ⟨.nil, rfl, rfl⟩

theorem cons {x : f.Tree Unit} {xs : List (f.Tree Unit)} (h : Derives f ts x)
    (hs : Derives (.many f) us xs) : Derives (.many f) (ts ++ us) (x :: xs : List (f.Tree Unit)) := by
  obtain ⟨d, rfl, rfl⟩ := h
  obtain ⟨e, rfl, rfl⟩ := hs
  exact ⟨.cons d e, rfl, rfl⟩

theorem single {x : f.Tree Unit} (h : Derives f ts x) :
    Derives (.many f) ts ([x] : List (f.Tree Unit)) := by
  have hcons := cons h nil
  rwa [List.append_nil] at hcons

theorem parenthesized {x : f.Tree Unit} (h : Derives f ts x) :
    Derives (.seq (.token [.leftParen]) (.seq f (.token [.rightParen]))) (parenthesized ts)
      (TokenKind.leftParen.sign, x, TokenKind.rightParen.sign) :=
  seq (sign (by decide)) (seq h (sign (by decide)))

theorem block {ss : List (Stmt Unit)} (h : Derives (.many (.phrase .statement)) ts ss) :
    Derives (.phrase .block) (braced ts) ss :=
  phrase (p := .block) (seq (sign (by decide)) (seq h (sign (by decide))))

theorem tail {tss : List (List (Token Unit))} {xs : List (f.Tree Unit)}
    (h : List.Forall₂ (Derives f) tss xs) :
    ∃ zs, Derives (.many (.seq (.token [.comma]) f)) (tss.flatMap (TokenKind.comma.sign :: ·)) zs ∧
      List.map Prod.snd (zs : List (Token Unit × f.Tree Unit)) = xs := by
  induction h with
  | nil => exact ⟨_, nil, rfl⟩
  | cons hx _ ih =>
    obtain ⟨zs, hzs, rfl⟩ := ih
    exact ⟨_, cons (seq (sign (by decide)) hx) hzs, rfl⟩

theorem enumerated {tss : List (List (Token Unit))} {xs : List (f.Tree Unit)}
    (h : List.Forall₂ (Derives f) tss xs) :
    ∃ y, Derives (.listed f) (enumerated tss) y ∧ Phrase.listed y = xs := by
  cases h with
  | nil => exact ⟨_, parenthesized none, rfl⟩
  | cons hx hs =>
    obtain ⟨zs, hzs, rfl⟩ := tail hs
    rw [Scriptlet.enumerated, intercalate_cons]
    exact ⟨_, parenthesized (some (seq hx hzs)), rfl⟩

/-! ### Levels of expressions -/

section Levels

variable {e e' : Expr Unit}

theorem product_of_primary (h : Derives (.phrase .primary) ts e) :
    Derives (.phrase .product) ts e := by
  have hseq := phrase (p := .product) (seq h nil)
  rwa [List.append_nil] at hseq

theorem sum_of_product (h : Derives (.phrase .product) ts e) : Derives (.phrase .sum) ts e := by
  have hseq := phrase (p := .sum) (seq h nil)
  rwa [List.append_nil] at hseq

theorem relation_of_sum (h : Derives (.phrase .sum) ts e) : Derives (.phrase .relation) ts e := by
  have hseq := phrase (p := .relation) (seq h none)
  rwa [List.append_nil] at hseq

theorem logical_of_relation (h : Derives (.phrase .relation) ts e) :
    Derives (.phrase .logical) ts e := by
  have hseq := phrase (p := .logical) (seq h none)
  rwa [List.append_nil] at hseq

theorem assignment_of_logical (h : Derives (.phrase .logical) ts e) :
    Derives (.phrase .assignment) ts e := phrase (p := .assignment) (right h)

theorem sum_of_primary (h : Derives (.phrase .primary) ts e) : Derives (.phrase .sum) ts e :=
  sum_of_product (product_of_primary h)

theorem relation_of_primary (h : Derives (.phrase .primary) ts e) :
    Derives (.phrase .relation) ts e := relation_of_sum (sum_of_primary h)

theorem logical_of_primary (h : Derives (.phrase .primary) ts e) :
    Derives (.phrase .logical) ts e := logical_of_relation (relation_of_primary h)

theorem assignment_of_primary (h : Derives (.phrase .primary) ts e) :
    Derives (.phrase .assignment) ts e := assignment_of_logical (logical_of_primary h)

/-- Parentheses leave no trace. -/
theorem primary_of_assignment (h : Derives (.phrase .assignment) ts e) :
    Derives (.phrase .primary) (Scriptlet.parenthesized ts) e :=
  phrase (p := .primary) (right (right (right (parenthesized h))))

theorem iterate_parenthesized (h : Derives (.phrase .assignment) ts e) (n : Nat) :
    Derives (.phrase .assignment) (Scriptlet.parenthesized^[n] ts) e := by
  induction n with
  | zero => exact h
  | succ n ih =>
    rw [Function.iterate_succ_apply']
    exact assignment_of_primary (primary_of_assignment ih)

theorem logical_of_binary (op : BinaryOp) (h : Derives (.phrase .primary) ts e)
    (h' : Derives (.phrase .primary) us e') :
    Derives (.phrase .logical) (ts ++ op.kind.sign :: us) (.binary op e e' ()) := by
  -- The operator is read on its own level, and all levels above pass it on.
  cases op with
  | mul | div =>
    exact logical_of_relation (relation_of_sum (sum_of_product (phrase (p := .product)
      (seq h (single (seq (sign (by decide)) h'))))))
  | add | sub =>
    exact logical_of_relation (relation_of_sum (phrase (p := .sum) (seq (product_of_primary h)
      (single (seq (sign (by decide)) (product_of_primary h'))))))
  | less | lessEqual | greater | greaterEqual | equal | notEqual =>
    exact logical_of_relation (phrase (p := .relation) (seq (sum_of_primary h)
      (some (seq (sign (by decide)) (sum_of_primary h')))))
  | and | or =>
    exact phrase (p := .logical) (seq (relation_of_primary h)
      (some (seq (sign (by decide)) (relation_of_primary h'))))

end Levels

end Derives

/-! ### Programs -/

mutual

theorem Expr.derives : (e : Expr α) →
    Derives (.phrase .assignment) e.tokens (e.map fun _ => ())
  | .integer text _ =>
    .assignment_of_primary (.phrase (p := .primary) (.left (.token List.mem_cons_self)))
  | .string value _ =>
    .assignment_of_primary (.phrase (p := .primary) (.right (.left (.token List.mem_cons_self))))
  | .reference id =>
    .assignment_of_primary (.phrase (p := .primary)
      (.right (.right (.left (.right (.token List.mem_cons_self))))))
  | .assign target value _ =>
    .phrase (p := .assignment) (.left (.seq (.token List.mem_cons_self) (.seq (.sign (by decide))
      (.assignment_of_primary (.primary_of_assignment value.derives)))))
  | .binary op left right _ =>
    .assignment_of_logical (.logical_of_binary op (.primary_of_assignment left.derives)
      (.primary_of_assignment right.derives))
  | .callAt callee args _ => by
    obtain ⟨y, hy, hargs⟩ := Derives.enumerated (Expr.derives_args args)
    rw [Expr.map, ← hargs]
    exact .assignment_of_primary (.phrase (p := .primary)
      (.right (.right (.left (.left (.seq (.token List.mem_cons_self) hy))))))

theorem Expr.derives_args : (es : List (Expr α)) →
    List.Forall₂ (Derives (.phrase .logical)) (Expr.argTokens es) (Expr.mapArgs (fun _ => ()) es)
  | [] => .nil
  | e :: es =>
    .cons (.logical_of_primary (.primary_of_assignment e.derives)) (Expr.derives_args es)

end

theorem Expr.derives_condition (extra : Nat) (cond : Expr α) :
    Derives .condition (cond.conditionTokens extra)
      (TokenKind.leftParen.sign, cond.map fun _ => (), TokenKind.rightParen.sign) :=
  .parenthesized (.iterate_parenthesized cond.derives extra)

mutual

theorem Stmt.derives (extra : Nat) : (s : Stmt α) →
    Derives (.phrase .statement) (s.tokens extra) (s.map fun _ => ())
  | .declare id _ =>
    .phrase (p := .statement) (.left (.seq (.sign (by decide))
      (.seq (.token List.mem_cons_self) (.sign (by decide)))))
  | .branch cond thenBlock elseBlock _ => by
    obtain ⟨y, hy, helse⟩ := Stmt.derives_else extra elseBlock
    rw [Stmt.map, ← helse]
    exact .phrase (p := .statement) (.right (.left (.seq (.sign (by decide))
      (.seq (cond.derives_condition extra) (.seq (.block (Stmt.derives_all extra thenBlock)) hy)))))
  | .loop cond body _ =>
    .phrase (p := .statement) (.right (.right (.left (.seq (.sign (by decide))
      (.seq (cond.derives_condition extra) (.block (Stmt.derives_all extra body)))))))
  | .expr e =>
    .phrase (p := .statement) (.right (.right (.right (.seq e.derives (.sign (by decide))))))

theorem Stmt.derives_all (extra : Nat) : (ss : List (Stmt α)) →
    Derives (.many (.phrase .statement)) (Stmt.allTokens extra ss)
      (Stmt.mapBlock (fun _ => ()) ss)
  | [] => .nil
  | s :: ss => .cons (s.derives extra) (Stmt.derives_all extra ss)

theorem Stmt.derives_else (extra : Nat) : (b : Option (List (Stmt α))) →
    ∃ y, Derives (.opt (.seq (.token [.keywordElse]) (.phrase .block)))
        (Stmt.elseTokens extra b) y ∧
      Option.map Prod.snd (y : Option (Token Unit × List (Stmt Unit))) =
        Stmt.mapElse (fun _ => ()) b
  | none => ⟨_, .none, rfl⟩
  | some ss => ⟨_, .some (.seq (.sign (by decide)) (.block (Stmt.derives_all extra ss))), rfl⟩

end

theorem derives_identifiers (ids : List (Identifier α)) :
    List.Forall₂ (Derives (.token [.identifier])) (ids.map fun id => [id.token])
      (ids.map Identifier.token) := by
  induction ids with
  | nil => exact .nil
  | cons id ids ih => exact .cons (.token List.mem_cons_self) ih

theorem FunctionDef.derives (extra : Nat) (d : FunctionDef α) :
    Derives (.phrase .function) (d.tokens extra) (d.map fun _ => ()) := by
  obtain ⟨y, hy, hlisted⟩ := Derives.enumerated (derives_identifiers d.params)
  have hids : (Phrase.listed y).map Token.identifier =
      d.params.map (Identifier.map fun _ => ()) :=
    (congrArg (List.map Token.identifier) hlisted).trans List.map_map
  rw [FunctionDef.map, ← hids]
  exact .phrase (p := .function) (.seq (.sign (by decide)) (.seq (.token List.mem_cons_self)
    (.seq hy (.block (Stmt.derives_all extra d.body)))))

theorem Item.derives (extra : Nat) (i : Item α) :
    Derives (.phrase .item) (i.tokens extra) (i.map fun _ => ()) := by
  cases i with
  | function d => exact .phrase (p := .item) (.left (d.derives extra))
  | stmt s => exact .phrase (p := .item) (.right (s.derives extra))

theorem Program.derives (extra : Nat) (p : Program α) :
    Derives (.phrase .program) (p.tokens extra) p.erase := by
  obtain ⟨is⟩ := p
  refine .phrase (p := .program) ?_
  induction is with
  | nil => exact .nil
  | cons i is ih => exact .cons (i.derives extra) ih

end Scriptlet
