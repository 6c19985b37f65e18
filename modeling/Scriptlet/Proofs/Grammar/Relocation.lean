import Scriptlet.Proofs.Grammar
import Scriptlet.Proofs.Program.Relocation

/-!
Derivations do not look at locations. Tokens with other locations have the derivations of the
tokens themselves, and their trees differ in the locations only.
-/

namespace Scriptlet

variable {α β : Type}

namespace Phrase

def mapTree (g : α → β) : (p : Phrase) → p.Tree α → p.Tree β
  | program, x => Program.map g x
  | item, x => Item.map g x
  | function, x => FunctionDef.map g x
  | block, x => Stmt.mapBlock g x
  | statement, x => Stmt.map g x
  | assignment, x | logical, x | relation, x | sum, x | product, x | primary, x => Expr.map g x

end Phrase

/-- What a derivation hands on, with other locations. -/
def Form.mapTree (g : α → β) : (f : Form) → f.Tree α → f.Tree β
  | token _, t => Token.map g t
  | phrase p, x => p.mapTree g x
  | seq f h, (x, y) => (f.mapTree g x, h.mapTree g y)
  | alt f _, .inl x => .inl (f.mapTree g x)
  | alt _ h, .inr x => .inr (h.mapTree g x)
  | opt f, x => Option.map (f.mapTree g) x
  | many f, xs => List.map (f.mapTree g) xs

namespace Phrase

variable (g : α → β)

theorem items_map {δ ε : Type} (h : δ → ε) (x : δ × List (Token α × δ)) :
    items (α := β) (h x.1, x.2.map fun y => (y.1.map g, h y.2)) = (items x).map h := by
  simp only [items, List.map_cons, List.map_map, Function.comp_def]

theorem listed_map {δ ε : Type} (h : δ → ε)
    (x : Token α × Option (δ × List (Token α × δ)) × Token α) :
    listed (α := β) (x.1.map g,
      x.2.1.map (fun y => (h y.1, y.2.map fun z => (z.1.map g, h z.2))), x.2.2.map g) =
      (listed x).map h := by
  obtain ⟨o, _ | y, cl⟩ := x
  · rfl
  · exact items_map g h y

theorem identifiers_map (x : Token α × Option (Token α × List (Token α × Token α)) × Token α) :
    (listed (α := β) (x.1.map g, x.2.1.map (fun y => (y.1.map g, y.2.map fun z =>
      (z.1.map g, z.2.map g))), x.2.2.map g)).map Token.identifier =
      ((listed x).map Token.identifier).map (Identifier.map g) := by
  rw [listed_map, List.map_map, List.map_map]
  rfl

theorem chain_map (x : Expr α × List (Token α × Expr α)) :
    chain (x.1.map g, x.2.map fun y => (y.1.map g, y.2.map g)) = (chain x).map g := by
  obtain ⟨e, xs⟩ := x
  induction xs generalizing e with
  | nil => rfl
  | cons y xs ih => exact ih (y.1.binary e y.2)

theorem atMostOne_map (x : Expr α × Option (Token α × Expr α)) :
    atMostOne (x.1.map g, x.2.map fun y => (y.1.map g, y.2.map g)) = (atMostOne x).map g := by
  obtain ⟨e, _ | y⟩ := x <;> rfl

theorem build_map : (p : Phrase) → (x : p.rule.Tree α) →
    p.build (p.rule.mapTree g x) = p.mapTree g (p.build x)
  | program, xs => rfl
  | item, .inl d => rfl
  | item, .inr s => rfl
  | function, (keyword, id, params, body) => by
    exact congrArg (FunctionDef.mk _ · _ _) (identifiers_map g params)
  | block, (_, ss, _) => (Stmt.mapBlock_eq_map g ss).symm
  | statement, .inl (keyword, id, _) => rfl
  | statement, .inr (.inl (keyword, (_, cond, _), thenBlock, elseBlock)) => by
    cases elseBlock <;> rfl
  | statement, .inr (.inr (.inl (keyword, (_, cond, _), body))) => rfl
  | statement, .inr (.inr (.inr (e, _))) => rfl
  | assignment, .inl (id, sign, value) => rfl
  | assignment, .inr e => rfl
  | logical, x => atMostOne_map g x
  | relation, x => atMostOne_map g x
  | sum, x => chain_map g x
  | product, x => chain_map g x
  | primary, .inl t => rfl
  | primary, .inr (.inl t) => rfl
  | primary, .inr (.inr (.inl (.inl (callee, args)))) => by
    have hargs := (listed_map g (Expr.map g) args).trans (Expr.mapArgs_eq_map g _).symm
    exact congrArg (Expr.callAt _ · _) hargs
  | primary, .inr (.inr (.inl (.inr t))) => rfl
  | primary, .inr (.inr (.inr (_, e, _))) => rfl

end Phrase

namespace Derivation

variable (g : α → β)

def map : {f : Form} → Derivation α f → Derivation β f
  | _, token t h => token (t.map g) h
  | _, phrase d => phrase d.map
  | _, seq d e => seq d.map e.map
  | _, left d => left d.map
  | _, right d => right d.map
  | _, none => none
  | _, some d => some d.map
  | _, nil => nil
  | _, cons d e => cons d.map e.map

theorem tree_map {f : Form} (d : Derivation α f) : (d.map g).tree = f.mapTree g d.tree := by
  induction d with
  | token t h => rfl
  | @phrase p d ih =>
    rw [map, tree, tree, ih]
    exact p.build_map g d.tree
  | seq d e ihd ihe => rw [map, tree, tree, ihd, ihe]; rfl
  | left d ih => rw [map, tree, tree, ih]; rfl
  | right d ih => rw [map, tree, tree, ih]; rfl
  | none => rfl
  | some d ih => rw [map, tree, tree, ih]; rfl
  | nil => rfl
  | cons d e ihd ihe => rw [map, tree, tree, ihd, ihe]; rfl

/-- A derivation of tokens with other locations is one of the tokens themselves. -/
theorem exists_map_eq {f : Form} (d : Derivation β f) {ts : List (Token α)}
    (h : d.yield = ts.map (Token.map g)) : ∃ e : Derivation α f, e.yield = ts ∧ e.map g = d := by
  -- The tokens are split as the derivation splits its yield.
  induction d generalizing ts with
  | token t hk =>
    obtain ⟨u, rfl, rfl⟩ := List.map_eq_singleton_iff.mp h.symm
    exact ⟨token u hk, rfl, rfl⟩
  | phrase d ih =>
    obtain ⟨e, hts, rfl⟩ := ih h
    exact ⟨phrase e, hts, rfl⟩
  | seq d d' ihd ihe =>
    obtain ⟨us, vs, rfl, hus, hvs⟩ := List.map_eq_append_iff.mp h.symm
    obtain ⟨e, rfl, rfl⟩ := ihd hus.symm
    obtain ⟨e', rfl, rfl⟩ := ihe hvs.symm
    exact ⟨seq e e', rfl, rfl⟩
  | left d ih =>
    obtain ⟨e, hts, rfl⟩ := ih h
    exact ⟨left e, hts, rfl⟩
  | right d ih =>
    obtain ⟨e, hts, rfl⟩ := ih h
    exact ⟨right e, hts, rfl⟩
  | none => exact ⟨none, (List.map_eq_nil_iff.mp h.symm).symm, rfl⟩
  | some d ih =>
    obtain ⟨e, hts, rfl⟩ := ih h
    exact ⟨some e, hts, rfl⟩
  | nil => exact ⟨nil, (List.map_eq_nil_iff.mp h.symm).symm, rfl⟩
  | cons d d' ihd ihe =>
    obtain ⟨us, vs, rfl, hus, hvs⟩ := List.map_eq_append_iff.mp h.symm
    obtain ⟨e, rfl, rfl⟩ := ihd hus.symm
    obtain ⟨e', rfl, rfl⟩ := ihe hvs.symm
    exact ⟨cons e e', rfl, rfl⟩

theorem exists_program_eq (d : Derivation β (.phrase .program)) {ts : List (Token α)}
    (h : d.yield = ts.map (Token.map g)) :
    ∃ e : Derivation α (.phrase .program), e.yield = ts ∧ d.tree = Program.map g e.tree := by
  obtain ⟨e, hts, rfl⟩ := exists_map_eq g d h
  exact ⟨e, hts, tree_map g e⟩

end Derivation

end Scriptlet
