import Scriptlet.Proofs.Grammar.Acceptance
import Scriptlet.Proofs.Grammar.Written
import Scriptlet.Proofs.Token.Spacing

/-!
A program that can be written is read back from its text, and every program that was read can be
written.
-/

namespace Scriptlet

variable {α : Type}

/-! ### Reading the tokens back -/

def joined (ts : List (Token α)) : List Char := [' '].intercalate (ts.map fun t => t.written.toList)

theorem joined_cons (t : Token α) (ts : List (Token α)) : joined (t :: ts) =
    t.written.toList ++ (ts.map fun t => t.written.toList).flatMap (' ' :: ·) :=
  intercalate_cons ..

theorem Spaced.cons_written {t : Token Unit} {ts : List (Token Unit)} {gap : List Char}
    (hblank : ∀ c ∈ gap, isBlank c) (ht : t.Spelled)
    (h : Spaced ts ((ts.map fun t => t.written.toList).flatMap (' ' :: ·))) :
    Spaced (t :: ts) (gap ++ joined (t :: ts)) := by
  rw [joined_cons]
  refine .cons hblank ht (fun c hc => ?_) h
  cases ts with
  | nil => cases hc
  | cons u us =>
    cases hc
    exact t.kind.grows_of_isBlank rfl

theorem spaced_written {ts : List (Token Unit)} (h : ∀ t ∈ ts, t.Spelled) :
    Spaced ts ((ts.map fun t => t.written.toList).flatMap (' ' :: ·)) := by
  induction ts with
  | nil => exact .nil (List.forall_mem_nil _)
  | cons t ts ih =>
    rw [List.forall_mem_cons] at h
    have hblank : ∀ c ∈ [' '], isBlank c := List.all_eq_true.mp rfl
    have hspaced := (ih h.2).cons_written hblank h.1
    rwa [joined_cons] at hspaced

theorem spaced_joined {ts : List (Token Unit)} (h : ∀ t ∈ ts, t.Spelled) :
    Spaced ts (joined ts) := by
  cases ts with
  | nil => exact .nil (List.forall_mem_nil _)
  | cons t ts =>
    rw [List.forall_mem_cons] at h
    exact (spaced_written h.2).cons_written (List.forall_mem_nil _) h.1

theorem TokenStream.ofText_spaced {ts : List (Token Unit)} (h : ∀ t ∈ ts, t.Spelled)
    (file : String) :
    (ofText (" ".intercalate (ts.map Token.written)) file).tokens.map (Token.map fun _ => ()) = ts ∧
      ∃ l, (ofText (" ".intercalate (ts.map Token.written)) file).ending = .complete l := by
  refine ofText_of_spaced ?_ file
  rw [String.toList_intercalate, List.map_map]
  exact spaced_joined h

/-! ### Programs that were read -/

/-- A token of one of the kinds, spelled in some way. -/
def Token.Proper (kinds : List TokenKind) (t : Token α) : Prop :=
  t.kind ∈ kinds ∧ ∃ spelling, Spells t.kind t.lexeme.toList spelling

theorem Token.Proper.isName {t : Token α} (h : t.Proper [.identifier]) : isName t.lexeme := by
  obtain ⟨hkind, spelling, hspells⟩ := h
  rw [List.mem_singleton.mp hkind] at hspells
  exact isName_of_spells hspells

theorem Token.Proper.isNumeral {t : Token α} (h : t.Proper [.integer]) : isNumeral t.lexeme := by
  obtain ⟨hkind, spelling, hspells⟩ := h
  rw [List.mem_singleton.mp hkind] at hspells
  exact isNumeral_of_spells hspells

theorem Token.Proper.isPlain {t : Token α} (h : t.Proper [.string]) : isPlain t.lexeme := by
  obtain ⟨hkind, spelling, hspells⟩ := h
  rw [List.mem_singleton.mp hkind] at hspells
  exact isPlain_of_spells hspells

theorem Stmt.allWritable_iff {ss : List (Stmt α)} :
    Stmt.allWritable ss ↔ ∀ s ∈ ss, s.writable := by
  induction ss with
  | nil => exact ⟨fun _ => nofun, fun _ => rfl⟩
  | cons s ss ih => rw [Stmt.allWritable, Bool.and_eq_true, ih, List.forall_mem_cons]

theorem Expr.allWritable_iff {es : List (Expr α)} :
    Expr.allWritable es ↔ ∀ e ∈ es, e.writable := by
  induction es with
  | nil => exact ⟨fun _ => nofun, fun _ => rfl⟩
  | cons e es ih => rw [Expr.allWritable, Bool.and_eq_true, ih, List.forall_mem_cons]

def Phrase.Writable : (p : Phrase) → p.Tree α → Prop
  | program, x => Program.writable x
  | item, x => Item.writable x
  | function, x => FunctionDef.writable x
  | block, x => Stmt.allWritable x
  | statement, x => Stmt.writable x
  | assignment, x | logical, x | relation, x | sum, x | product, x | primary, x => Expr.writable x

/-- What a derivation hands on can be written. -/
abbrev Form.Writable (f : Form) (x : f.Tree α) : Prop := f.Every Token.Proper Phrase.Writable x

namespace Phrase

theorem writable_binary (t : Token α) (left right : Expr α) (hleft : left.writable)
    (hright : right.writable) : (t.binary left right).writable :=
  Bool.and_eq_true_iff.mpr ⟨hleft, hright⟩

theorem writable_build : (p : Phrase) → (x : p.rule.Tree α) → p.rule.Writable x →
    p.Writable (p.build x)
  | program, xs, h => List.all_eq_true.mpr h
  | item, .inl d, h => h
  | item, .inr s, h => h
  | function, (keyword, id, params, body), ⟨_, hid, hparams, hbody⟩ => by
    have hnames : ((listed params).map Token.identifier).all (fun id => isName id.name) :=
      List.all_eq_true.mpr (List.forall_mem_map.mpr fun t ht => (every_listed hparams t ht).isName)
    exact Bool.and_eq_true_iff.mpr ⟨Bool.and_eq_true_iff.mpr ⟨hid.isName, hnames⟩, hbody⟩
  | block, (_, ss, _), ⟨_, hss, _⟩ => Stmt.allWritable_iff.mpr hss
  | statement, .inl (keyword, id, _), ⟨_, hid, _⟩ => Token.Proper.isName hid
  | statement, .inr (.inl (keyword, (_, cond, _), thenBlock, elseBlock)),
    ⟨_, ⟨_, hcond, _⟩, hthen, helse⟩ => by
    refine Bool.and_eq_true_iff.mpr ⟨Bool.and_eq_true_iff.mpr ⟨hcond, hthen⟩, ?_⟩
    cases elseBlock with
    | none => rfl
    | some b => exact (helse b rfl).2
  | statement, .inr (.inr (.inl (keyword, (_, cond, _), body))), ⟨_, ⟨_, hcond, _⟩, hbody⟩ =>
    Bool.and_eq_true_iff.mpr ⟨hcond, hbody⟩
  | statement, .inr (.inr (.inr (e, _))), ⟨he, _⟩ => he
  | assignment, .inl (id, sign, value), ⟨hid, _, hvalue⟩ =>
    Bool.and_eq_true_iff.mpr ⟨hid.isName, hvalue⟩
  | assignment, .inr e, h => h
  | logical, x, h => every_atMostOne writable_binary h.1 fun y hy => (h.2 y hy).2
  | relation, x, h => every_atMostOne writable_binary h.1 fun y hy => (h.2 y hy).2
  | sum, x, h => every_chain writable_binary h.1 fun y hy => (h.2 y hy).2
  | product, x, h => every_chain writable_binary h.1 fun y hy => (h.2 y hy).2
  | primary, .inl t, h => Token.Proper.isNumeral h
  | primary, .inr (.inl t), h => Token.Proper.isPlain h
  | primary, .inr (.inr (.inl (.inl (callee, args)))), ⟨hcallee, hargs⟩ =>
    Bool.and_eq_true_iff.mpr
      ⟨hcallee.isName, Expr.allWritable_iff.mpr (every_listed hargs)⟩
  | primary, .inr (.inr (.inl (.inr t))), h => Token.Proper.isName h
  | primary, .inr (.inr (.inr (_, e, _))), ⟨_, he, _⟩ => he

end Phrase

namespace Program

theorem parse_written (extra : Nat) {p : Program α} (h : p.writable) (file : String) :
    ∃ q, parse (p.written extra) file = .ok q ∧ q.erase = p.erase := by
  -- The tokens of the text are those of the program with other locations, so they have the
  -- derivation of these.
  obtain ⟨d, hd, htree⟩ := p.derives extra
  obtain ⟨htokens, l, hending⟩ := TokenStream.ofText_spaced (p.spelled_tokens extra h) file
  obtain ⟨e, he, hmap⟩ := d.exists_program_eq (fun _ => ()) (hd.trans htokens.symm)
  exact ⟨e.tree, ofStream_of_derivation hending he, hmap.symm.trans htree⟩

theorem writable_of_parse {text file : String} {q : Program Location}
    (h : parse text file = .ok q) : q.writable := by
  have hout := parse_outcome text file
  rw [h] at hout
  cases hout with
  | accepted d hts =>
    refine d.every_tree Phrase.writable_build fun t ht kinds hkind => ⟨hkind, ?_⟩
    rw [hts] at ht
    obtain ⟨before, spelling, after, hstands⟩ :=
      (TokenStream.tiles_ofText text file).standsIn t ht
    exact ⟨spelling, hstands.spells⟩

/-- Every program whose names are names, whose numbers are numerals and whose strings have no
backslash is read back from its text, and these are all the programs that any text is read as. -/
theorem parse_written_and_writable_of_parse :
    (∀ (α : Type) (p : Program α) (extra : Nat) (file : String), p.writable →
      ∃ q, parse (p.written extra) file = .ok q ∧ q.erase = p.erase) ∧
    ∀ text file q, parse text file = .ok q → q.writable :=
  ⟨fun _ _ extra file h => parse_written extra h file, fun _ _ _ h => writable_of_parse h⟩

/-- A function with an empty alternative, a branch without one, and a string with a quote and a line
break. -/
def greeting : Program Unit where
  items :=
    [.function ⟨⟨"f1", ()⟩, [⟨"x", ()⟩, ⟨"y", ()⟩],
      [.branch (.binary .less (.reference ⟨"x", ()⟩) (.integer "07" ()) ()) [] (some []) ()], ()⟩,
    .stmt (.branch (.callAt ⟨"f1", ()⟩ [.integer "1" (), .reference ⟨"iff", ()⟩] ())
      [.declare ⟨"s", ()⟩ ()] none ()),
    .stmt (.expr (.assign ⟨"s", ()⟩ (.string "say \"hi\"\n" ()) ()))]

theorem parse_written_greeting :
    greeting.writable ∧
    greeting.written 0 =
      "function f1 ( x , y ) \x7b if ( ( x ) < ( 07 ) ) \x7b \x7d else \x7b \x7d \x7d " ++
        "if ( f1 ( ( 1 ) , ( iff ) ) ) \x7b var s ; \x7d s = ( \"say \\\"hi\\\"\n\" ) ;" ∧
    ∃ q, parse (greeting.written 0) "f" = .ok q ∧ q.erase = greeting ∧ q.writable := by
  have hwritable : greeting.writable := by decide +kernel
  refine ⟨hwritable, by decide +kernel, ?_⟩
  obtain ⟨q, hparse, herase⟩ := parse_written_and_writable_of_parse.1 Unit greeting 0 "f" hwritable
  exact ⟨q, hparse, herase, parse_written_and_writable_of_parse.2 _ _ q hparse⟩

end Program

end Scriptlet
