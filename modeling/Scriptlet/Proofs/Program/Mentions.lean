import Scriptlet.Interpreter

/-!
The names that a program mentions, in the order of its text. Checking names is one walk along this
list, whatever the shape of the tree: a name that is used must have been introduced before it.
-/

namespace Scriptlet

variable {α : Type}

/-- A name is introduced by a declaration, a function or a parameter, and used everywhere else. -/
inductive Mention (α : Type)
  | introduced (id : Identifier α)
  | used (id : Identifier α)
deriving DecidableEq

namespace Mention

def identifier : Mention α → Identifier α
  | introduced id => id
  | used id => id

def check (known : List String) : Mention α → Except (Identifier α) (List String)
  | introduced id => .ok (id.name :: known)
  | used id => if id.name ∈ known then .ok known else .error id

/-- Goes through a list of mentions, with some names known before it. -/
def checkAll (known : List String) (ms : List (Mention α)) : Except (Identifier α) (List String) :=
  ms.foldlM check known

variable {known known' : List String} {ms pre post : List (Mention α)} {id : Identifier α}

theorem checkAll_append (known : List String) (ms ms' : List (Mention α)) :
    checkAll known (ms ++ ms') = checkAll known ms >>= fun known => checkAll known ms' :=
  List.foldlM_append

theorem checkAll_cons (known : List String) (m : Mention α) (ms : List (Mention α)) :
    checkAll known (m :: ms) = check known m >>= fun known => checkAll known ms := List.foldlM_cons

theorem checkAll_introduced (known : List String) (ids : List (Identifier α)) :
    checkAll known (ids.map introduced) = .ok ((ids.map Identifier.name).reverse ++ known) := by
  induction ids generalizing known with
  | nil => rfl
  | cons id ids ih =>
    have hrest : checkAll known ((id :: ids).map introduced) = _ := ih (id.name :: known)
    rw [hrest]
    simp

theorem exists_introduced (h : checkAll known ms = .ok known') {name : String}
    (hname : name ∈ known') : name ∈ known ∨ ∃ id, .introduced id ∈ ms ∧ id.name = name := by
  induction ms generalizing known with
  | nil =>
    cases h
    exact .inl hname
  | cons m ms ih =>
    rw [checkAll_cons] at h
    cases m with
    | introduced id =>
      rcases ih h with hknown | ⟨id', hmem, heq⟩
      · rcases List.mem_cons.mp hknown with rfl | hold
        · exact .inr ⟨id, List.mem_cons_self, rfl⟩
        · exact .inl hold
      · exact .inr ⟨id', List.mem_cons_of_mem _ hmem, heq⟩
    | used id =>
      by_cases hid : id.name ∈ known
      · rw [check, if_pos hid] at h
        rcases ih h with hknown | ⟨id', hmem, heq⟩
        · exact .inl hknown
        · exact .inr ⟨id', List.mem_cons_of_mem _ hmem, heq⟩
      · rw [check, if_neg hid] at h
        cases h

/-- Where the walk passes a use, the name was known before the walk or introduced on the way. -/
theorem introduced_before_use (h : checkAll known (pre ++ .used id :: post) = .ok known') :
    id.name ∈ known ∨ ∃ id', .introduced id' ∈ pre ∧ id'.name = id.name := by
  rw [checkAll_append] at h
  cases hpre : checkAll known pre with
  | error e =>
    rw [hpre] at h
    cases h
  | ok between =>
    rw [hpre] at h
    by_cases hid : id.name ∈ between
    · exact exists_introduced hpre hid
    · have hstuck : checkAll between (.used id :: post) = .error id := by
        rw [checkAll_cons, check, if_neg hid]
        rfl
      cases hstuck.symm.trans h

end Mention

mutual

def Expr.mentions : Expr α → List (Mention α)
  | .integer _ _ => []
  | .string _ _ => []
  | .reference id => [.used id]
  | .assign target value _ => .used target :: value.mentions
  | .binary _ left right _ => left.mentions ++ right.mentions
  | .callAt callee args _ => .used callee :: Expr.argMentions args

def Expr.argMentions : List (Expr α) → List (Mention α)
  | [] => []
  | e :: es => e.mentions ++ Expr.argMentions es

end

mutual

def Stmt.mentions : Stmt α → List (Mention α)
  | .declare id _ => [.introduced id]
  | .branch cond thenBlock elseBlock _ =>
    cond.mentions ++ (Stmt.blockMentions thenBlock ++ Stmt.elseMentions elseBlock)
  | .loop cond body _ => cond.mentions ++ Stmt.blockMentions body
  | .expr e => e.mentions

def Stmt.blockMentions : List (Stmt α) → List (Mention α)
  | [] => []
  | s :: ss => s.mentions ++ Stmt.blockMentions ss

def Stmt.elseMentions : Option (List (Stmt α)) → List (Mention α)
  | none => []
  | some ss => Stmt.blockMentions ss

end

def FunctionDef.mentions (d : FunctionDef α) : List (Mention α) :=
  .introduced d.id :: (d.params.map .introduced ++ Stmt.blockMentions d.body)

def Item.mentions : Item α → List (Mention α)
  | .function d => d.mentions
  | .stmt s => s.mentions

def Program.mentions (p : Program α) : List (Mention α) := p.items.flatMap Item.mentions

/-! ### The check is a walk along the mentions -/

open Mention

mutual

theorem Expr.checkAll_mentions (known : List String) : (e : Expr α) →
    checkAll known e.mentions = (do demand (e.unknown? known); return known)
  | .integer _ _ => rfl
  | .string _ _ => rfl
  | .reference id => by
    rw [mentions, checkAll_cons, check, unknown?]
    split <;> rfl
  | .assign target value _ => by
    have hvalue := value.checkAll_mentions known
    rw [mentions, checkAll_cons, check, unknown?]
    split
    · exact hvalue
    · rfl
  | .binary _ left right _ => by
    have hleft := left.checkAll_mentions known
    have hright := right.checkAll_mentions known
    rw [mentions, checkAll_append, hleft, unknown?]
    cases left.unknown? known with
    | none => exact hright
    | some id => rfl
  | .callAt callee args _ => by
    have hargs := Expr.checkAll_argMentions known args
    rw [mentions, checkAll_cons, check, unknown?]
    split
    · exact hargs
    · rfl

theorem Expr.checkAll_argMentions (known : List String) : (es : List (Expr α)) →
    checkAll known (Expr.argMentions es) = (do demand (Expr.unknownArg? known es); return known)
  | [] => rfl
  | e :: es => by
    have hfirst := e.checkAll_mentions known
    have hrest := Expr.checkAll_argMentions known es
    rw [argMentions, checkAll_append, hfirst, unknownArg?]
    cases e.unknown? known with
    | none => exact hrest
    | some id => rfl

end

mutual

theorem Stmt.checkAll_mentions : (known : List String) → (s : Stmt α) →
    checkAll known s.mentions = s.names known
  | known, .declare id _ => rfl
  | known, .branch cond thenBlock elseBlock _ => by
    rw [mentions, checkAll_append, cond.checkAll_mentions, names]
    cases cond.unknown? known with
    | some id => rfl
    | none =>
      change checkAll known (blockMentions thenBlock ++ elseMentions elseBlock) = _
      rw [checkAll_append, Stmt.checkAll_blockMentions known thenBlock]
      exact bind_congr fun known => Stmt.checkAll_elseMentions known elseBlock
  | known, .loop cond body _ => by
    rw [mentions, checkAll_append, cond.checkAll_mentions, names]
    cases cond.unknown? known with
    | some id => rfl
    | none => exact Stmt.checkAll_blockMentions known body
  | known, .expr e => e.checkAll_mentions known

theorem Stmt.checkAll_blockMentions : (known : List String) → (ss : List (Stmt α)) →
    checkAll known (Stmt.blockMentions ss) = Stmt.blockNames known ss
  | known, [] => rfl
  | known, s :: ss => by
    rw [blockMentions, checkAll_append, Stmt.checkAll_mentions known s, blockNames]
    exact bind_congr fun known => Stmt.checkAll_blockMentions known ss

theorem Stmt.checkAll_elseMentions : (known : List String) → (b : Option (List (Stmt α))) →
    checkAll known (Stmt.elseMentions b) = Stmt.elseNames known b
  | _, none => rfl
  | known, some ss => Stmt.checkAll_blockMentions known ss

end

theorem FunctionDef.checkAll_mentions (known : List String) (d : FunctionDef α) :
    checkAll known d.mentions = d.names known := by
  have hparams := checkAll_introduced (d.name :: known) d.params
  have hbody := Stmt.checkAll_blockMentions
    ((d.params.map Identifier.name).reverse ++ d.name :: known) d.body
  change checkAll (d.name :: known) (d.params.map introduced ++ Stmt.blockMentions d.body) = _
  rw [checkAll_append, hparams]
  exact hbody

theorem Item.checkAll_mentions (known : List String) (i : Item α) :
    checkAll known i.mentions = i.names known := by
  cases i with
  | function d => exact d.checkAll_mentions known
  | stmt s => exact s.checkAll_mentions known

/-- Checking the names of a program is walking along its mentions. -/
theorem Program.checkAll_mentions (known : List String) (p : Program α) :
    checkAll known p.mentions = p.names known := by
  obtain ⟨items⟩ := p
  simp only [mentions, names]
  induction items generalizing known with
  | nil => rfl
  | cons i items ih =>
    rw [List.flatMap_cons, checkAll_append, i.checkAll_mentions, List.foldlM_cons]
    exact bind_congr ih

/-- In a program that passes the check, a name that is not built in has been introduced wherever it
is used. -/
theorem Program.introduced_of_analyze {p : Program α} (h : p.analyze = .ok ())
    {pre post : List (Mention α)} {id : Identifier α} (hp : p.mentions = pre ++ .used id :: post) :
    id.name ∈ Builtin.names ∨ ∃ id', .introduced id' ∈ pre ∧ id'.name = id.name := by
  cases hnames : p.names Builtin.names with
  | error id =>
    rw [analyze, hnames] at h
    cases h
  | ok known =>
    rw [← checkAll_mentions, hp] at hnames
    exact introduced_before_use hnames

end Scriptlet
