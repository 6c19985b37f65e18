import Mathlib.Logic.Function.Iterate
import Scriptlet.Program
import Scriptlet.Proofs.Token.StringLiterals

/-!
Writing a program down: its tokens with a space between any two, and with parentheses around every
part that could be grouped in another way. What can be written is a matter of the names, numbers and
strings alone.
-/

namespace Scriptlet

variable {α : Type}

/-! ### What can be written -/

/-- A letter with letters and digits behind it, and no keyword. -/
def isName (s : String) : Bool :=
  match s.toList with
  | [] => false
  | c :: cs => c.isAlpha && cs.all Char.isAlphanum && (TokenKind.keyword? s).isNone

def isNumeral (s : String) : Bool :=
  match s.toList with
  | [] => false
  | c :: cs => c.isDigit && cs.all Char.isDigit

def isPlain (s : String) : Bool := s.toList.all (· ≠ '\\')

mutual

def Expr.writable : Expr α → Bool
  | .integer text _ => isNumeral text
  | .string value _ => isPlain value
  | .reference id => isName id.name
  | .assign target value _ => isName target.name && value.writable
  | .binary _ left right _ => left.writable && right.writable
  | .callAt callee args _ => isName callee.name && Expr.allWritable args

def Expr.allWritable : List (Expr α) → Bool
  | [] => true
  | e :: es => e.writable && Expr.allWritable es

end

mutual

def Stmt.writable : Stmt α → Bool
  | .declare id _ => isName id.name
  | .branch cond thenBlock elseBlock _ =>
    cond.writable && Stmt.allWritable thenBlock && Stmt.elseWritable elseBlock
  | .loop cond body _ => cond.writable && Stmt.allWritable body
  | .expr e => e.writable

def Stmt.allWritable : List (Stmt α) → Bool
  | [] => true
  | s :: ss => s.writable && Stmt.allWritable ss

def Stmt.elseWritable : Option (List (Stmt α)) → Bool
  | none => true
  | some ss => Stmt.allWritable ss

end

def FunctionDef.writable (d : FunctionDef α) : Bool :=
  isName d.id.name && d.params.all (fun id => isName id.name) && Stmt.allWritable d.body

def Item.writable : Item α → Bool
  | .function d => d.writable
  | .stmt s => s.writable

def Program.writable (p : Program α) : Bool := p.items.all Item.writable

/-! ### The tokens of a program -/

/-- The token of a kind that has one spelling. -/
def TokenKind.sign (kind : TokenKind) : Token Unit := ⟨kind, kind.spelling?.getD "", ()⟩

def Identifier.token (id : Identifier α) : Token Unit := ⟨.identifier, id.name, ()⟩

def BinaryOp.kind : BinaryOp → TokenKind
  | add => .plus
  | sub => .minus
  | mul => .star
  | div => .slash
  | less => .less
  | lessEqual => .lessEqual
  | greater => .greater
  | greaterEqual => .greaterEqual
  | equal => .equal
  | notEqual => .notEqual
  | and => .logicalAnd
  | or => .logicalOr

def parenthesized (ts : List (Token Unit)) : List (Token Unit) :=
  TokenKind.leftParen.sign :: (ts ++ [TokenKind.rightParen.sign])

def braced (ts : List (Token Unit)) : List (Token Unit) :=
  TokenKind.leftBrace.sign :: (ts ++ [TokenKind.rightBrace.sign])

def enumerated (tss : List (List (Token Unit))) : List (Token Unit) :=
  parenthesized ([TokenKind.comma.sign].intercalate tss)

mutual

def Expr.tokens : Expr α → List (Token Unit)
  | .integer text _ => [⟨.integer, text, ()⟩]
  | .string value _ => [⟨.string, value, ()⟩]
  | .reference id => [id.token]
  | .assign target value _ =>
    target.token :: TokenKind.assign.sign :: parenthesized value.tokens
  | .binary op left right _ =>
    parenthesized left.tokens ++ op.kind.sign :: parenthesized right.tokens
  | .callAt callee args _ => callee.token :: enumerated (Expr.argTokens args)

def Expr.argTokens : List (Expr α) → List (List (Token Unit))
  | [] => []
  | e :: es => parenthesized e.tokens :: Expr.argTokens es

end

/-- A condition stands in parentheses, and may stand in more of them. -/
def Expr.conditionTokens (extra : Nat) (cond : Expr α) : List (Token Unit) :=
  parenthesized (parenthesized^[extra] cond.tokens)

mutual

def Stmt.tokens (extra : Nat) : Stmt α → List (Token Unit)
  | .declare id _ => [TokenKind.keywordVar.sign, id.token, TokenKind.semicolon.sign]
  | .branch cond thenBlock elseBlock _ =>
    TokenKind.keywordIf.sign :: (cond.conditionTokens extra ++
      (braced (Stmt.allTokens extra thenBlock) ++ Stmt.elseTokens extra elseBlock))
  | .loop cond body _ =>
    TokenKind.keywordWhile.sign :: (cond.conditionTokens extra ++
      braced (Stmt.allTokens extra body))
  | .expr e => e.tokens ++ [TokenKind.semicolon.sign]

def Stmt.allTokens (extra : Nat) : List (Stmt α) → List (Token Unit)
  | [] => []
  | s :: ss => s.tokens extra ++ Stmt.allTokens extra ss

/-- An empty alternative is written, a missing one is not. -/
def Stmt.elseTokens (extra : Nat) : Option (List (Stmt α)) → List (Token Unit)
  | none => []
  | some ss => TokenKind.keywordElse.sign :: braced (Stmt.allTokens extra ss)

end

def FunctionDef.tokens (extra : Nat) (d : FunctionDef α) : List (Token Unit) :=
  TokenKind.keywordFunction.sign :: d.id.token ::
    (enumerated (d.params.map fun id => [id.token]) ++ braced (Stmt.allTokens extra d.body))

def Item.tokens (extra : Nat) : Item α → List (Token Unit)
  | .function d => d.tokens extra
  | .stmt s => s.tokens extra

def Program.tokens (extra : Nat) (p : Program α) : List (Token Unit) :=
  p.items.flatMap (Item.tokens extra)

/-! ### Spellings -/

/-- A quote needs a backslash, all else stands for itself. -/
def quoteBody (value : List Char) : List Char :=
  value.flatMap fun c => if c = '"' then ['\\', '"'] else [c]

/-- The text of a token: a string stands between quotes, any other token is its lexeme. -/
def Token.written (t : Token α) : String :=
  if t.kind = .string then String.ofList ('"' :: (quoteBody t.lexeme.toList ++ ['"']))
  else t.lexeme

/-- The text of a program, with `extra` pairs of parentheses more than needed around a condition. -/
def Program.written (extra : Nat) (p : Program α) : String :=
  " ".intercalate ((p.tokens extra).map Token.written)

def Token.Spelled (t : Token α) : Prop := Spells t.kind t.lexeme.toList t.written.toList

theorem spells_of_isName {s : String} (h : isName s) : Spells .identifier s.toList s.toList := by
  unfold isName at h
  split at h
  · cases h
  · rename_i c cs hs
    simp only [Bool.and_eq_true, List.all_eq_true, Option.isNone_iff_eq_none] at h
    obtain ⟨⟨hc, hcs⟩, hword⟩ := h
    rw [hs]
    refine .identifier hc hcs ?_
    rwa [← hs, String.ofList_toList]

theorem spells_of_isNumeral {s : String} (h : isNumeral s) :
    Spells .integer s.toList s.toList := by
  unfold isNumeral at h
  split at h
  · cases h
  · rename_i c cs hs
    simp only [Bool.and_eq_true, List.all_eq_true] at h
    rw [hs]
    exact .integer h.1 h.2

theorem digits_of_isNumeral {s : String} (h : isNumeral s) :
    s.toList ≠ [] ∧ ∀ c ∈ s.toList, c.isDigit := by
  unfold isNumeral at h
  split at h
  · cases h
  · rename_i c cs hs
    rw [Bool.and_eq_true, List.all_eq_true] at h
    rw [hs]
    exact ⟨List.cons_ne_nil c cs, List.forall_mem_cons.mpr h⟩

theorem decodes_quoteBody {value : List Char} (h : ∀ c ∈ value, c ≠ '\\') :
    Decodes (quoteBody value) value := by
  induction value with
  | nil => exact .nil
  | cons c cs ih =>
    have hcs := ih fun x hx => h x (List.mem_cons_of_mem _ hx)
    by_cases hc : c = '"'
    · subst hc
      exact .escape (by simp [escapes]) hcs
    · have hbody : quoteBody (c :: cs) = c :: quoteBody cs := by simp [quoteBody, hc]
      rw [hbody]
      exact .plain hc (h c List.mem_cons_self) hcs

theorem spells_of_isPlain {s : String} (h : isPlain s) :
    Spells .string s.toList ('"' :: (quoteBody s.toList ++ ['"'])) := by
  refine .string (decodes_quoteBody fun c hc => ?_)
  simpa using List.all_eq_true.mp h c hc

/-! ### What is written is spelled -/

theorem intercalate_cons {β : Type} (sep : β) (xs : List β) (xss : List (List β)) :
    [sep].intercalate (xs :: xss) = xs ++ xss.flatMap (sep :: ·) := by
  induction xss generalizing xs with
  | nil => simp
  | cons ys xss ih => rw [List.intercalate_cons_cons, ih, List.flatMap_cons]; simp

theorem TokenKind.spelled_sign {kind : TokenKind} {text : String} (h : kind.spelling? = some text) :
    kind.sign.Spelled := by
  have hkind : kind ≠ .string := by
    rintro rfl
    cases h
  have hsign : kind.sign = ⟨kind, text, ()⟩ := by rw [sign, h, Option.getD_some]
  rw [Token.Spelled, hsign, Token.written, if_neg hkind]
  exact .fixed h

theorem BinaryOp.spelled_kind (op : BinaryOp) : op.kind.sign.Spelled := by
  cases op <;> exact TokenKind.spelled_sign rfl

theorem Identifier.spelled_token {id : Identifier α} (h : isName id.name) : id.token.Spelled :=
  spells_of_isName h

theorem spelled_parenthesized {ts : List (Token Unit)} (h : ∀ t ∈ ts, t.Spelled) :
    ∀ t ∈ parenthesized ts, t.Spelled := by
  rw [parenthesized, List.forall_mem_cons, List.forall_mem_append, List.forall_mem_singleton]
  exact ⟨TokenKind.spelled_sign rfl, h, TokenKind.spelled_sign rfl⟩

theorem spelled_braced {ts : List (Token Unit)} (h : ∀ t ∈ ts, t.Spelled) :
    ∀ t ∈ braced ts, t.Spelled := by
  rw [braced, List.forall_mem_cons, List.forall_mem_append, List.forall_mem_singleton]
  exact ⟨TokenKind.spelled_sign rfl, h, TokenKind.spelled_sign rfl⟩

theorem spelled_enumerated {tss : List (List (Token Unit))}
    (h : ∀ ts ∈ tss, ∀ t ∈ ts, t.Spelled) : ∀ t ∈ enumerated tss, t.Spelled := by
  refine spelled_parenthesized ?_
  cases tss with
  | nil => exact nofun
  | cons ts tss =>
    rw [List.forall_mem_cons] at h
    rw [intercalate_cons, List.forall_mem_append, List.forall_mem_flatMap]
    exact ⟨h.1, fun us hus => List.forall_mem_cons.mpr ⟨TokenKind.spelled_sign rfl, h.2 us hus⟩⟩

mutual

theorem Expr.spelled_tokens : (e : Expr α) → e.writable → ∀ t ∈ e.tokens, t.Spelled
  | .integer text _, h => List.forall_mem_singleton.mpr (spells_of_isNumeral h)
  | .string value _, h => by
    refine List.forall_mem_singleton.mpr ?_
    rw [Token.Spelled, Token.written, if_pos rfl, String.toList_ofList]
    exact spells_of_isPlain h
  | .reference id, h => List.forall_mem_singleton.mpr (id.spelled_token h)
  | .assign target value _, h => by
    rw [Expr.writable, Bool.and_eq_true] at h
    rw [Expr.tokens, List.forall_mem_cons, List.forall_mem_cons]
    exact ⟨target.spelled_token h.1, TokenKind.spelled_sign rfl,
      spelled_parenthesized (value.spelled_tokens h.2)⟩
  | .binary op left right _, h => by
    rw [Expr.writable, Bool.and_eq_true] at h
    rw [Expr.tokens, List.forall_mem_append, List.forall_mem_cons]
    exact ⟨spelled_parenthesized (left.spelled_tokens h.1), op.spelled_kind,
      spelled_parenthesized (right.spelled_tokens h.2)⟩
  | .callAt callee args _, h => by
    rw [Expr.writable, Bool.and_eq_true] at h
    rw [Expr.tokens, List.forall_mem_cons]
    exact ⟨callee.spelled_token h.1, spelled_enumerated (Expr.spelled_argTokens args h.2)⟩

theorem Expr.spelled_argTokens : (es : List (Expr α)) → Expr.allWritable es →
    ∀ ts ∈ Expr.argTokens es, ∀ t ∈ ts, t.Spelled
  | [], _ => nofun
  | e :: es, h => by
    rw [Expr.allWritable, Bool.and_eq_true] at h
    rw [Expr.argTokens, List.forall_mem_cons]
    exact ⟨spelled_parenthesized (e.spelled_tokens h.1), Expr.spelled_argTokens es h.2⟩

end

theorem Expr.spelled_conditionTokens (extra : Nat) {cond : Expr α} (h : cond.writable) :
    ∀ t ∈ cond.conditionTokens extra, t.Spelled := by
  refine spelled_parenthesized ?_
  induction extra with
  | zero => exact cond.spelled_tokens h
  | succ n ih =>
    rw [Function.iterate_succ_apply']
    exact spelled_parenthesized ih

mutual

theorem Stmt.spelled_tokens (extra : Nat) : (s : Stmt α) → s.writable →
    ∀ t ∈ s.tokens extra, t.Spelled
  | .declare id _, h => by
    rw [Stmt.tokens, List.forall_mem_cons, List.forall_mem_cons, List.forall_mem_singleton]
    exact ⟨TokenKind.spelled_sign rfl, id.spelled_token h, TokenKind.spelled_sign rfl⟩
  | .branch cond thenBlock elseBlock _, h => by
    rw [Stmt.writable, Bool.and_eq_true, Bool.and_eq_true] at h
    rw [Stmt.tokens, List.forall_mem_cons, List.forall_mem_append, List.forall_mem_append]
    exact ⟨TokenKind.spelled_sign rfl, cond.spelled_conditionTokens extra h.1.1,
      spelled_braced (Stmt.spelled_allTokens extra thenBlock h.1.2),
      Stmt.spelled_elseTokens extra elseBlock h.2⟩
  | .loop cond body _, h => by
    rw [Stmt.writable, Bool.and_eq_true] at h
    rw [Stmt.tokens, List.forall_mem_cons, List.forall_mem_append]
    exact ⟨TokenKind.spelled_sign rfl, cond.spelled_conditionTokens extra h.1,
      spelled_braced (Stmt.spelled_allTokens extra body h.2)⟩
  | .expr e, h => by
    rw [Stmt.tokens, List.forall_mem_append, List.forall_mem_singleton]
    exact ⟨e.spelled_tokens h, TokenKind.spelled_sign rfl⟩

theorem Stmt.spelled_allTokens (extra : Nat) : (ss : List (Stmt α)) → Stmt.allWritable ss →
    ∀ t ∈ Stmt.allTokens extra ss, t.Spelled
  | [], _ => nofun
  | s :: ss, h => by
    rw [Stmt.allWritable, Bool.and_eq_true] at h
    rw [Stmt.allTokens, List.forall_mem_append]
    exact ⟨s.spelled_tokens extra h.1, Stmt.spelled_allTokens extra ss h.2⟩

theorem Stmt.spelled_elseTokens (extra : Nat) : (b : Option (List (Stmt α))) →
    Stmt.elseWritable b → ∀ t ∈ Stmt.elseTokens extra b, t.Spelled
  | none, _ => nofun
  | some ss, h => by
    rw [Stmt.elseTokens, List.forall_mem_cons]
    exact ⟨TokenKind.spelled_sign rfl, spelled_braced (Stmt.spelled_allTokens extra ss h)⟩

end

theorem FunctionDef.spelled_tokens (extra : Nat) {d : FunctionDef α} (h : d.writable) :
    ∀ t ∈ d.tokens extra, t.Spelled := by
  rw [FunctionDef.writable, Bool.and_eq_true, Bool.and_eq_true, List.all_eq_true] at h
  rw [FunctionDef.tokens, List.forall_mem_cons, List.forall_mem_cons, List.forall_mem_append]
  refine ⟨TokenKind.spelled_sign rfl, d.id.spelled_token h.1.1, spelled_enumerated ?_,
    spelled_braced (Stmt.spelled_allTokens extra d.body h.2)⟩
  rw [List.forall_mem_map]
  intro id hid
  exact List.forall_mem_singleton.mpr (id.spelled_token (h.1.2 id hid))

theorem Program.spelled_tokens (extra : Nat) {p : Program α} (h : p.writable) :
    ∀ t ∈ p.tokens extra, t.Spelled := by
  intro t ht
  obtain ⟨i, hi, ht⟩ := List.mem_flatMap.mp ht
  have hwritable := List.all_eq_true.mp h i hi
  cases i with
  | function d => exact d.spelled_tokens extra hwritable t ht
  | stmt s => exact s.spelled_tokens extra hwritable t ht

/-! ### What is spelled can be written -/

theorem isName_of_spells {s : String} {spelling : List Char}
    (h : Spells .identifier s.toList spelling) : isName s := by
  generalize hs : s.toList = lexeme at h
  cases h with
  | identifier hc hcs hword =>
    rw [← hs, String.ofList_toList] at hword
    simpa [isName, hs, hc, hword] using hcs
  | fixed h => cases h

theorem isNumeral_of_spells {s : String} {spelling : List Char}
    (h : Spells .integer s.toList spelling) : isNumeral s := by
  generalize hs : s.toList = lexeme at h
  cases h with
  | integer hc hcs =>
    simpa [isNumeral, hs, hc] using hcs
  | fixed h => cases h

theorem isPlain_of_spells {s : String} {spelling : List Char}
    (h : Spells .string s.toList spelling) : isPlain s := by
  obtain ⟨body, -, hbody⟩ := h.decodes rfl
  simpa [isPlain] using hbody.ne_backslash

end Scriptlet
