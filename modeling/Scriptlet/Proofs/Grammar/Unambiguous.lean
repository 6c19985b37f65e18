import Scriptlet.Proofs.Grammar

/-!
Two tokens decide every choice of the grammar. For each form there is a list of the kinds that its
derivations start with, of those that come second, and of those that may not follow; a form in
which these lists tell all choices apart has at most one derivation of a given text.
-/

namespace Scriptlet

variable {α : Type}

/-- The kind of the first token. -/
def look (ts : List (Token α)) : Option TokenKind := ts.head?.map Token.kind

@[simp] theorem look_nil : look ([] : List (Token α)) = none := rfl

@[simp] theorem look_cons (t : Token α) (ts : List (Token α)) : look (t :: ts) = some t.kind := rfl

theorem look_eq_none {ts : List (Token α)} : look ts = none ↔ ts = [] := by
  cases ts <;> simp

/-- What is looked at is of none of the given kinds. -/
def Avoids (kinds : List TokenKind) (o : Option TokenKind) : Prop := ∀ k ∈ kinds, o ≠ some k

instance (kinds : List TokenKind) (o : Option TokenKind) : Decidable (Avoids kinds o) :=
  inferInstanceAs (Decidable (∀ k ∈ kinds, o ≠ some k))

theorem Avoids.mono {ks ls : List TokenKind} {o : Option TokenKind} (h : Avoids ls o)
    (hsub : ∀ k ∈ ks, k ∈ ls) : Avoids ks o := fun k hk => h k (hsub k hk)

theorem avoids_none (kinds : List TokenKind) : Avoids kinds none := fun _ _ => nofun

/-- No kind is in both lists. -/
def apart (ks ls : List TokenKind) : Bool := ks.all fun k => !ls.contains k

theorem not_mem_of_apart {ks ls : List TokenKind} (h : apart ks ls = true) {k : TokenKind}
    (hk : k ∈ ks) : k ∉ ls := by
  have hh := List.all_eq_true.mp h k hk
  simpa using hh

namespace Phrase

/-- Whether the phrase derives the empty text. -/
def nullable : Phrase → Bool
  | program => true
  | _ => false

/-- Whether the phrase derives a single token. -/
def single : Phrase → Bool
  | assignment | logical | relation | sum | product | primary => true
  | _ => false

/-- The kinds that expressions start with. -/
def exprStarts : List TokenKind := [.integer, .string, .identifier, .leftParen]

def stmtStarts : List TokenKind := .keywordVar :: .keywordIf :: .keywordWhile :: exprStarts

/-- The kinds that a derivation of the phrase can start with. -/
def starts : Phrase → List TokenKind
  | program | item => .keywordFunction :: stmtStarts
  | function => [.keywordFunction]
  | block => [.leftBrace]
  | statement => stmtStarts
  | _ => exprStarts

/-- The operators that an expression can have outside all parentheses. -/
def operators : Phrase → List TokenKind
  | product => productKinds
  | sum => sumKinds ++ productKinds
  | relation => relationKinds ++ sumKinds ++ productKinds
  | logical => logicalKinds ++ relationKinds ++ sumKinds ++ productKinds
  | assignment => .assign :: logicalKinds ++ relationKinds ++ sumKinds ++ productKinds
  | _ => []

/-- The kinds that can come second in a derivation of the phrase. -/
def seconds : Phrase → List TokenKind
  | program | item | statement => .semicolon :: exprStarts ++ operators assignment
  | function => [.identifier]
  | block => .rightBrace :: stmtStarts
  | p => exprStarts ++ p.operators

/-- The kinds that would be taken for a part of the phrase if they followed it. -/
def bars : Phrase → List TokenKind
  | program => .keywordElse :: .keywordFunction :: stmtStarts
  | item | statement => [.keywordElse]
  | function | block => []
  | p => .leftParen :: p.operators

end Phrase

namespace Form

def nullable : Form → Bool
  | token _ => false
  | phrase p => p.nullable
  | seq f g => f.nullable && g.nullable
  | alt f g => f.nullable || g.nullable
  | opt _ | many _ => true

def single : Form → Bool
  | token _ => true
  | phrase p => p.single
  | seq f g => f.single && g.nullable || f.nullable && g.single
  | alt f g => f.single || g.single
  | opt f | many f => f.single

def starts : Form → List TokenKind
  | token kinds => kinds
  | phrase p => p.starts
  | seq f g => f.starts ++ if f.nullable then g.starts else []
  | alt f g => f.starts ++ g.starts
  | opt f | many f => f.starts

def seconds : Form → List TokenKind
  | token _ => []
  | phrase p => p.seconds
  | seq f g =>
    f.seconds ++ (if f.single then g.starts else []) ++ if f.nullable then g.seconds else []
  | alt f g => f.seconds ++ g.seconds
  | opt f => f.seconds
  | many f => f.seconds ++ if f.single then f.starts else []

/-- The alternatives differ in their first token. -/
def byFirst (f g : Form) : Bool := apart f.starts g.starts

def bars : Form → List TokenKind
  | token _ => []
  | phrase p => p.bars
  | seq f g => g.bars ++ if g.nullable then f.bars else []
  | alt f g =>
    f.bars ++ g.bars ++ if byFirst f g then [] else
      (if f.single then g.seconds else []) ++ if g.single then f.seconds else []
  | opt f | many f => f.bars ++ f.starts

/-- Every choice in the form is decided by the next two tokens. -/
def decided : Form → Bool
  | token _ | phrase _ => true
  | seq f g => f.decided && g.decided && apart f.bars g.starts
  | alt f g =>
    f.decided && g.decided && !f.nullable && !g.nullable &&
      (byFirst f g || apart f.seconds g.seconds && !(f.single && g.single))
  | opt f => f.decided && !f.nullable
  | many f => f.decided && !f.nullable && apart f.bars f.starts

end Form

namespace Phrase

theorem rule_nullable (p : Phrase) (h : p.rule.nullable = true) : p.nullable = true := by
  cases p <;> first | rfl | exact absurd h (by decide)

theorem rule_single (p : Phrase) (h : p.rule.single = true) : p.single = true := by
  cases p <;> first | rfl | exact absurd h (by decide)

theorem rule_starts (p : Phrase) : ∀ k ∈ p.rule.starts, k ∈ p.starts := by
  cases p <;> decide

theorem rule_seconds (p : Phrase) : ∀ k ∈ p.rule.seconds, k ∈ p.seconds := by
  cases p <;> decide

theorem rule_bars (p : Phrase) : ∀ k ∈ p.rule.bars, k ∈ p.bars := by
  cases p <;> decide

theorem rule_decided (p : Phrase) : p.rule.decided = true := by
  cases p <;> decide

end Phrase

/-- The first two tokens are such as the lists of the form say. -/
def Form.Fits (f : Form) : List (Token α) → Prop
  | [] => f.nullable = true
  | [t] => f.single = true ∧ t.kind ∈ f.starts
  | t :: u :: _ => t.kind ∈ f.starts ∧ u.kind ∈ f.seconds

theorem Form.Fits.seq {f g : Form} {ts us : List (Token α)} (hf : f.Fits ts) (hg : g.Fits us) :
    (Form.seq f g).Fits (ts ++ us) := by
  match ts, us with
  | [], [] => simp_all [Fits, nullable]
  | [], [u] => simp_all [Fits, single, starts]
  | [], u :: v :: us => simp_all [Fits, starts, seconds]
  | [t], [] => simp_all [Fits, single, starts]
  | [t], [u] => simp_all [Fits, starts, seconds]
  | [t], u :: v :: us => simp_all [Fits, starts, seconds]
  | t :: t' :: ts, us => simp_all [Fits, starts, seconds]

theorem Form.Fits.mono {f g : Form} {ts : List (Token α)} (h : f.Fits ts)
    (hn : f.nullable = true → g.nullable = true) (hs : f.single = true → g.single = true)
    (hstarts : ∀ k ∈ f.starts, k ∈ g.starts) (hseconds : ∀ k ∈ f.seconds, k ∈ g.seconds) :
    g.Fits ts := by
  match ts with
  | [] => exact hn h
  | [_] => exact ⟨hs h.1, hstarts _ h.2⟩
  | _ :: _ :: _ => exact ⟨hstarts _ h.1, hseconds _ h.2⟩

namespace Derivation

theorem fits_yield {f : Form} (d : Derivation α f) : f.Fits d.yield := by
  induction d with
  | token t h => exact ⟨rfl, h⟩
  | @phrase p d ih =>
    exact ih.mono p.rule_nullable p.rule_single p.rule_starts p.rule_seconds
  | seq d e ihd ihe => exact ihd.seq ihe
  | left d ih =>
    exact ih.mono (by simp_all [Form.nullable]) (by simp_all [Form.single])
      (by simp_all [Form.starts]) (by simp_all [Form.seconds])
  | right d ih =>
    exact ih.mono (by simp_all [Form.nullable]) (by simp_all [Form.single])
      (by simp_all [Form.starts]) (by simp_all [Form.seconds])
  | none => rfl
  | some d ih => exact ih.mono (fun _ => rfl) id (fun _ => id) (fun _ => id)
  | nil => rfl
  | @cons f d e ihd ihe =>
    refine (ihd.seq ihe).mono (fun _ => rfl) ?_ ?_ ?_
    · simp only [Form.single, Form.nullable]
      grind
    · simp only [Form.starts]
      grind
    · simp only [Form.seconds, Form.starts]
      grind

theorem nullable_of_yield {f : Form} {d : Derivation α f} (h : d.yield = []) :
    f.nullable = true := by
  have hh := d.fits_yield
  rwa [h] at hh

theorem yield_ne_nil {f : Form} (hf : f.nullable = false) (d : Derivation α f) :
    d.yield ≠ [] := by
  intro h
  simp [nullable_of_yield h] at hf

theorem look_mem_starts {f : Form} {d : Derivation α f} {t : Token α} {ts : List (Token α)}
    (h : d.yield = t :: ts) : t.kind ∈ f.starts := by
  have hh := d.fits_yield
  rw [h] at hh
  match ts with
  | [] => exact hh.2
  | _ :: _ => exact hh.1

/-- What is looked at before a derivation and what follows it. -/
theorem look_yield_append {f : Form} (d : Derivation α f) (rest : List (Token α)) :
    (d.yield = [] ∧ f.nullable = true ∧ look (d.yield ++ rest) = look rest) ∨
      ∃ k ∈ f.starts, look (d.yield ++ rest) = Option.some k := by
  cases h : d.yield with
  | nil => exact .inl ⟨rfl, nullable_of_yield h, rfl⟩
  | cons t ts => exact .inr ⟨t.kind, look_mem_starts h, rfl⟩

/-- Something no derivation starts with is not looked at before a derivation. -/
theorem not_look {f : Form} {D : Option TokenKind → Prop} (hf : f.nullable = false)
    (hstarts : ∀ k ∈ f.starts, ¬ D (Option.some k)) (d : Derivation α f)
    (rest : List (Token α)) : ¬ D (look (d.yield ++ rest)) := by
  intro ho
  rcases d.look_yield_append rest with ⟨hd, _⟩ | ⟨k, hk, hl⟩
  · exact d.yield_ne_nil hf hd
  · exact hstarts k hk (hl ▸ ho)

theorem avoids_look_append {f g : Form} (hfg : apart f.bars g.starts = true)
    {rest : List (Token α)} (e : Derivation α g)
    (hr : Avoids (Form.seq f g).bars (look rest)) : Avoids f.bars (look (e.yield ++ rest)) := by
  rcases e.look_yield_append rest with ⟨_, hn, hl⟩ | ⟨k, hk, hl⟩
  · rw [hl]
    exact hr.mono fun k hk => by simp [Form.bars, hn, hk]
  · rw [hl]
    intro j hj he
    obtain rfl := Option.some.inj he
    exact not_mem_of_apart hfg hj hk

/-- Two alternatives that two tokens tell apart derive no common text. -/
theorem ne_of_apart {f g : Form} (hf : f.nullable = false) (hg : g.nullable = false)
    (hfg : (Form.byFirst f g || apart f.seconds g.seconds && !(f.single && g.single)) = true)
    {d : Derivation α f} {e : Derivation α g} {rest rest' : List (Token α)}
    (hr : Avoids (Form.alt f g).bars (look rest)) (hr' : Avoids (Form.alt f g).bars (look rest'))
    (h : d.yield ++ rest = e.yield ++ rest') : False := by
  have hd := d.fits_yield
  have he := e.fits_yield
  cases hb : Form.byFirst f g with
  | true =>
    obtain ⟨t, ts, ht⟩ := List.exists_cons_of_ne_nil (d.yield_ne_nil hf)
    obtain ⟨u, us, hu⟩ := List.exists_cons_of_ne_nil (e.yield_ne_nil hg)
    rw [ht, hu, List.cons_append, List.cons_append] at h
    obtain rfl := (List.cons.inj h).1
    exact not_mem_of_apart hb (look_mem_starts ht) (look_mem_starts hu)
  | false =>
    simp only [hb, Bool.false_or, Bool.and_eq_true, Bool.not_eq_true'] at hfg
    simp only [Form.bars, hb, Bool.false_eq_true, if_false] at hr hr'
    match hdy : d.yield, hey : e.yield with
    | [], _ => exact d.yield_ne_nil hf hdy
    | _, [] => exact e.yield_ne_nil hg hey
    | [t], [u] =>
      rw [hdy] at hd
      rw [hey] at he
      simp [hd.1, he.1] at hfg
    | [t], u :: v :: us =>
      rw [hdy] at hd
      rw [hey] at he
      have hl : look rest = Option.some v.kind := by
        rw [hdy, hey] at h
        have hh : rest = v :: us ++ rest' := (List.cons.inj h).2
        rw [hh]
        rfl
      exact hr v.kind (by simp [hd.1, he.2]) hl
    | t :: v :: ts, [u] =>
      rw [hdy] at hd
      rw [hey] at he
      have hl : look rest' = Option.some v.kind := by
        rw [hdy, hey] at h
        have hh : v :: ts ++ rest = rest' := (List.cons.inj h).2
        rw [← hh]
        rfl
      exact hr' v.kind (by simp [hd.2, he.1]) hl
    | t :: v :: ts, u :: w :: us =>
      rw [hdy] at hd
      rw [hey] at he
      rw [hdy, hey] at h
      have hv : v = w := (List.cons.inj (List.cons.inj h).2).1
      exact not_mem_of_apart hfg.1 hd.2 (hv ▸ he.2)

theorem not_avoids_starts {f : Form} (hf : f.nullable = false) {rest rest' : List (Token α)}
    (d : Derivation α f) (h : rest = d.yield ++ rest') :
    ¬ Avoids (f.bars ++ f.starts) (look rest) := by
  rw [h]
  exact d.not_look hf (fun k hk hr => hr k (List.mem_append_right _ hk) rfl) rest'

/-- A derivation and what follows it are determined by the whole text. -/
theorem eq_of_yield_append {f : Form} (hf : f.decided = true) (d e : Derivation α f)
    {rest rest' : List (Token α)} (hr : Avoids f.bars (look rest))
    (hr' : Avoids f.bars (look rest')) (h : d.yield ++ rest = e.yield ++ rest') :
    d = e ∧ rest = rest' := by
  induction d generalizing rest rest' with
  | token t ht =>
    cases e with
    | token u hu =>
      obtain ⟨rfl, hrest⟩ := List.cons.inj h
      exact ⟨rfl, hrest⟩
  | @phrase p d ih =>
    cases e with
    | phrase e =>
      obtain ⟨rfl, hrest⟩ :=
        ih p.rule_decided e (hr.mono p.rule_bars) (hr'.mono p.rule_bars) h
      exact ⟨rfl, hrest⟩
  | @seq f g d₁ d₂ ih₁ ih₂ =>
    cases e with
    | seq e₁ e₂ =>
      simp only [Form.decided, Bool.and_eq_true] at hf
      obtain ⟨⟨hf₁, hf₂⟩, hap⟩ := hf
      simp only [yield, List.append_assoc] at h
      obtain ⟨rfl, htail⟩ :=
        ih₁ hf₁ e₁ (avoids_look_append hap d₂ hr) (avoids_look_append hap e₂ hr') h
      have hsub : ∀ k ∈ g.bars, k ∈ (Form.seq f g).bars := fun k hk => List.mem_append_left _ hk
      obtain ⟨rfl, hrest⟩ := ih₂ hf₂ e₂ (hr.mono hsub) (hr'.mono hsub) htail
      exact ⟨rfl, hrest⟩
  | left d ih =>
    simp only [Form.decided, Bool.and_eq_true, Bool.not_eq_true'] at hf
    cases e with
    | left e =>
      obtain ⟨rfl, hrest⟩ := ih hf.1.1.1.1 e (hr.mono (by simp_all [Form.bars]))
        (hr'.mono (by simp_all [Form.bars])) h
      exact ⟨rfl, hrest⟩
    | right e => exact (ne_of_apart hf.1.1.2 hf.1.2 hf.2 hr hr' h).elim
  | right d ih =>
    simp only [Form.decided, Bool.and_eq_true, Bool.not_eq_true'] at hf
    cases e with
    | left e => exact (ne_of_apart hf.1.1.2 hf.1.2 hf.2 hr' hr h.symm).elim
    | right e =>
      obtain ⟨rfl, hrest⟩ := ih hf.1.1.1.2 e (hr.mono (by simp_all [Form.bars]))
        (hr'.mono (by simp_all [Form.bars])) h
      exact ⟨rfl, hrest⟩
  | none =>
    simp only [Form.decided, Bool.and_eq_true, Bool.not_eq_true'] at hf
    cases e with
    | none => exact ⟨rfl, h⟩
    | some e => exact (not_avoids_starts hf.2 e h hr).elim
  | @some f d ih =>
    simp only [Form.decided, Bool.and_eq_true, Bool.not_eq_true'] at hf
    cases e with
    | none => exact (not_avoids_starts hf.2 d h.symm hr').elim
    | some e =>
      have hsub : ∀ k ∈ f.bars, k ∈ (Form.opt f).bars := fun k hk => List.mem_append_left _ hk
      obtain ⟨rfl, hrest⟩ := ih hf.1 e (hr.mono hsub) (hr'.mono hsub) h
      exact ⟨rfl, hrest⟩
  | nil =>
    simp only [Form.decided, Bool.and_eq_true, Bool.not_eq_true'] at hf
    cases e with
    | nil => exact ⟨rfl, h⟩
    | cons e₁ e₂ =>
      simp only [yield, List.append_assoc] at h
      exact (not_avoids_starts hf.1.2 e₁ h hr).elim
  | @cons f d₁ d₂ ih₁ ih₂ =>
    simp only [Form.decided, Bool.and_eq_true, Bool.not_eq_true'] at hf
    cases e with
    | nil =>
      simp only [yield, List.append_assoc] at h
      exact (not_avoids_starts hf.1.2 d₁ h.symm hr').elim
    | cons e₁ e₂ =>
      -- The repetition is read as one part and a shorter repetition behind it.
      have hseq : ∀ k ∈ (Form.seq f (.many f)).bars, k ∈ (Form.many f).bars := by
        simp only [Form.bars, Form.nullable, if_true]
        grind
      have hap : apart f.bars (Form.many f).starts = true := hf.2
      simp only [yield, List.append_assoc] at h
      obtain ⟨rfl, htail⟩ := ih₁ hf.1.1 e₁ (avoids_look_append hap d₂ (hr.mono hseq))
        (avoids_look_append hap e₂ (hr'.mono hseq)) h
      obtain ⟨rfl, hrest⟩ := ih₂ (by simp [Form.decided, hf]) e₂ hr hr' htail
      exact ⟨rfl, hrest⟩

end Derivation

end Scriptlet
