import Scriptlet.Proofs.Grammar.FirstError
import Scriptlet.Proofs.Grammar.Mentions

/-!
Names that are known where they are used, told from the tokens alone: an identifier introduces its
name or uses it, and what it does shows in the tokens before it. The check of a program follows the
tree, and comes to the same.
-/

namespace Scriptlet

variable {α : Type} {ts pre before after : List (Token α)} {t : Token α} {q : Setting}
  {name : String}

/-- An identifier behind these tokens introduces its name: it follows `var` or `function`, or is
among the parameters of a function. -/
inductive Introducing : List (Token α) → Prop
  | declared (pre : List (Token α)) {keyword : Token α} (h : keyword.kind = .keywordVar) :
    Introducing (pre ++ [keyword])
  | defined (pre : List (Token α)) {keyword : Token α} (h : keyword.kind = .keywordFunction) :
    Introducing (pre ++ [keyword])
  | parameter (pre : List (Token α)) {keyword id paren : Token α} {inside : List (Token α)}
    (hkeyword : keyword.kind = .keywordFunction) (hid : id.kind = .identifier)
    (hparen : paren.kind = .leftParen)
    (hinside : ∀ t ∈ inside, t.kind = .identifier ∨ t.kind = .comma) :
    Introducing (pre ++ keyword :: id :: paren :: inside)

/-- The name is built in, or has been introduced among these tokens. -/
def Known (ts : List (Token α)) (name : String) : Prop :=
  name ∈ Builtin.names ∨ ∃ before t after, ts = before ++ t :: after ∧ t.kind = .identifier ∧
    Introducing before ∧ t.lexeme = name

/-- Behind the tokens `before`, the token `t` uses a name. -/
def Uses (before : List (Token α)) (t : Token α) : Prop :=
  t.kind = .identifier ∧ ¬ Introducing before

/-- Every name is known where it is used. -/
def Founded (ts : List (Token α)) : Prop :=
  ∀ before t after, ts = before ++ t :: after → Uses before t → Known before t.lexeme

namespace Setting

/-- What a scan has gone along if it has come to a setting. -/
def Reached (ts : List (Token α)) : Setting → Prop
  | plain => True
  | declaration => ∃ pre keyword, ts = pre ++ [keyword] ∧ keyword.kind = .keywordVar
  | definition => ∃ pre keyword, ts = pre ++ [keyword] ∧ keyword.kind = .keywordFunction
  | named => ∃ pre keyword id, ts = pre ++ [keyword, id] ∧ keyword.kind = .keywordFunction ∧
      id.kind = .identifier
  | parameters => ∃ pre keyword id paren inside, ts = pre ++ keyword :: id :: paren :: inside ∧
      keyword.kind = .keywordFunction ∧ id.kind = .identifier ∧ paren.kind = .leftParen ∧
      ∀ t ∈ inside, t.kind = .identifier ∨ t.kind = .comma

theorem Reached.next (h : q.Reached ts) (t : Token α) : (q.next t.kind).Reached (ts ++ [t]) := by
  unfold Setting.next
  split
  case h_1 hkind => exact ⟨ts, t, rfl, hkind⟩
  case h_2 hkind => exact ⟨ts, t, rfl, hkind⟩
  case h_3 hkind =>
    obtain ⟨pre, keyword, rfl, hkeyword⟩ := h
    exact ⟨pre, keyword, t, by simp, hkeyword, hkind⟩
  case h_4 hkind =>
    obtain ⟨pre, keyword, id, rfl, hkeyword, hid⟩ := h
    exact ⟨pre, keyword, id, t, [], by simp, hkeyword, hid, hkind, by simp⟩
  case h_5 hkind =>
    obtain ⟨pre, keyword, id, paren, inside, rfl, hkeyword, hid, hparen, hinside⟩ := h
    refine ⟨pre, keyword, id, paren, inside ++ [t], by simp, hkeyword, hid, hparen, ?_⟩
    exact List.forall_mem_append.mpr ⟨hinside, by simpa using .inl hkind⟩
  case h_6 hkind =>
    obtain ⟨pre, keyword, id, paren, inside, rfl, hkeyword, hid, hparen, hinside⟩ := h
    refine ⟨pre, keyword, id, paren, inside ++ [t], by simp, hkeyword, hid, hparen, ?_⟩
    exact List.forall_mem_append.mpr ⟨hinside, by simpa using .inr hkind⟩
  case h_7 => trivial

theorem reached_after (ts : List (Token α)) : (plain.after ts).Reached ts := by
  induction ts using List.reverseRecOn with
  | nil => trivial
  | append_singleton ts t ih =>
    rw [after_append]
    exact ih.next t

theorem after_parameters {inside : List (Token α)}
    (h : ∀ t ∈ inside, t.kind = .identifier ∨ t.kind = .comma) :
    parameters.after inside = parameters := by
  induction inside with
  | nil => rfl
  | cons t inside ih =>
    obtain ⟨ht, hrest⟩ := List.forall_mem_cons.mp h
    have hstays : parameters.next t.kind = parameters := by
      rcases ht with ht | ht <;> rw [ht] <;> rfl
    change (parameters.next t.kind).after inside = parameters
    rw [hstays]
    exact ih hrest

/-- The scan knows where a name is introduced. -/
theorem introduces_after_iff (ts : List (Token α)) :
    (plain.after ts).introduces ↔ Introducing ts := by
  constructor
  · intro h
    have hreached := reached_after ts
    cases hq : plain.after ts with
    | plain =>
      rw [hq] at h
      cases h
    | named =>
      rw [hq] at h
      cases h
    | declaration =>
      rw [hq] at hreached
      obtain ⟨pre, keyword, rfl, hkeyword⟩ := hreached
      exact .declared pre hkeyword
    | definition =>
      rw [hq] at hreached
      obtain ⟨pre, keyword, rfl, hkeyword⟩ := hreached
      exact .defined pre hkeyword
    | parameters =>
      rw [hq] at hreached
      obtain ⟨pre, keyword, id, paren, inside, rfl, hkeyword, hid, hparen, hinside⟩ := hreached
      exact .parameter pre hkeyword hid hparen hinside
  · intro h
    cases h with
    | declared pre hkeyword =>
      rw [after_append]
      change ((plain.after pre).next _).introduces = true
      rw [hkeyword]
      cases plain.after pre <;> rfl
    | defined pre hkeyword =>
      rw [after_append]
      change ((plain.after pre).next _).introduces = true
      rw [hkeyword]
      cases plain.after pre <;> rfl
    | @parameter pre keyword id paren inside hkeyword hid hparen hinside =>
      have hopened : (plain.after pre).after (keyword :: id :: paren :: inside) =
          parameters.after inside := by
        change ((((plain.after pre).next keyword.kind).next id.kind).next
          paren.kind).after inside = _
        rw [hkeyword, hid, hparen]
        cases plain.after pre <;> rfl
      rw [after_append, hopened, after_parameters hinside]
      rfl

end Setting

/-! ### One token more -/

theorem split_append_singleton {u : Token α} (h : ts ++ [t] = before ++ u :: after) :
    (∃ rest, ts = before ++ u :: rest) ∨ (before = ts ∧ u = t) := by
  rcases Tiles.split_append h with hrest | ⟨rest, rfl, hrest⟩
  · exact .inl hrest
  · cases rest with
    | nil =>
      cases hrest
      exact .inr ⟨List.append_nil ts, rfl⟩
    | cons x rest => simp at hrest

theorem known_append_singleton : Known (ts ++ [t]) name ↔
    Known ts name ∨ (t.kind = .identifier ∧ Introducing ts ∧ t.lexeme = name) := by
  constructor
  · rintro (hbuiltin | ⟨before, u, after, hsplit, hu⟩)
    · exact .inl (.inl hbuiltin)
    · rcases split_append_singleton hsplit with ⟨rest, hrest⟩ | ⟨rfl, rfl⟩
      · exact .inl (.inr ⟨before, u, rest, hrest, hu⟩)
      · exact .inr hu
  · rintro ((hbuiltin | ⟨before, u, after, rfl, hu⟩) | ht)
    · exact .inl hbuiltin
    · exact .inr ⟨before, u, after ++ [t], by simp, hu⟩
    · exact .inr ⟨ts, t, [], rfl, ht⟩

theorem founded_append_singleton (h : Founded ts) (ht : Uses ts t → Known ts t.lexeme) :
    Founded (ts ++ [t]) := by
  intro before u after hsplit
  rcases split_append_singleton hsplit with ⟨rest, hrest⟩ | ⟨rfl, rfl⟩
  · exact h before u rest hrest
  · exact ht

theorem Founded.mono (h : Founded ts) (hpre : pre <+: ts) : Founded pre := by
  obtain ⟨rest, rfl⟩ := hpre
  intro before t after hsplit
  exact h before t (after ++ rest) (by simp [hsplit])

theorem not_founded_of_unknown (h : Uses ts t ∧ ¬ Known ts t.lexeme) : ¬ Founded (ts ++ [t]) :=
  fun hfounded => h.2 (hfounded ts t [] rfl h.1)

/-! ### The walk along the mentions -/

open Mention

/-- The walk goes on behind a token that uses no unknown name. -/
theorem checkAll_cons_of_known {known : List String}
    (hknown : ∀ name, name ∈ known ↔ Known pre name)
    (ht : Uses pre t → Known pre t.lexeme) (ts : List (Token α)) :
    ∃ known', (∀ name, name ∈ known' ↔ Known (pre ++ [t]) name) ∧
      checkAll known ((Setting.plain.after pre).mentions (t :: ts)) =
        checkAll known' ((Setting.plain.after (pre ++ [t])).mentions ts) := by
  have hafter : Setting.plain.after (pre ++ [t]) = (Setting.plain.after pre).next t.kind :=
    Setting.after_append ..
  rw [hafter, Setting.mentions]
  by_cases hkind : t.kind = .identifier
  · rw [if_pos hkind, checkAll_cons, Setting.mention]
    by_cases hintro : Introducing pre
    · rw [if_pos ((Setting.introduces_after_iff pre).mpr hintro)]
      refine ⟨t.lexeme :: known, fun name => ?_, rfl⟩
      rw [known_append_singleton, List.mem_cons, hknown]
      simp [hkind, hintro, eq_comm, or_comm]
    · rw [if_neg (mt (Setting.introduces_after_iff pre).mp hintro)]
      refine ⟨known, fun name => ?_, ?_⟩
      · rw [known_append_singleton, hknown]
        simp [hintro]
      · have hmem : t.identifier.name ∈ known := (hknown t.lexeme).mpr (ht ⟨hkind, hintro⟩)
        rw [check, if_pos hmem]
        rfl
  · rw [if_neg hkind]
    refine ⟨known, fun name => ?_, rfl⟩
    rw [known_append_singleton, hknown]
    simp [hkind]

/-- Where a name is not known, the walk ends. -/
theorem checkAll_cons_of_unknown {known : List String}
    (hknown : ∀ name, name ∈ known ↔ Known pre name) (hu : Uses pre t)
    (ht : ¬ Known pre t.lexeme) (ts : List (Token α)) :
    checkAll known ((Setting.plain.after pre).mentions (t :: ts)) = .error t.identifier := by
  have hmem : t.identifier.name ∉ known := fun hmem => ht ((hknown t.lexeme).mp hmem)
  have huses : ¬ (Setting.plain.after pre).introduces :=
    fun hintro => hu.2 ((Setting.introduces_after_iff pre).mp hintro)
  rw [Setting.mentions, if_pos hu.1, checkAll_cons, Setting.mention, if_neg huses, check,
    if_neg hmem]
  rfl

theorem checkAll_cases {known : List String} (hpre : Founded pre)
    (hknown : ∀ name, name ∈ known ↔ Known pre name) (ts : List (Token α)) :
    (Founded (pre ++ ts) ∧
      ∃ known', checkAll known ((Setting.plain.after pre).mentions ts) = .ok known') ∨
    ∃ before t after, ts = before ++ t :: after ∧ Founded (pre ++ before) ∧
      Uses (pre ++ before) t ∧ ¬ Known (pre ++ before) t.lexeme ∧
      checkAll known ((Setting.plain.after pre).mentions ts) = .error t.identifier := by
  induction ts generalizing pre known with
  | nil => exact .inl ⟨(List.append_nil pre).symm ▸ hpre, known, rfl⟩
  | cons t ts ih =>
    by_cases ht : Uses pre t → Known pre t.lexeme
    · obtain ⟨known', hknown', heq⟩ := checkAll_cons_of_known hknown ht ts
      have hrest := ih (founded_append_singleton hpre ht) hknown'
      rw [heq]
      simp only [List.append_assoc, List.singleton_append] at hrest
      rcases hrest with hok | ⟨before, u, after, rfl, hfirst⟩
      · exact .inl hok
      · exact .inr ⟨t :: before, u, after, rfl, hfirst⟩
    · obtain ⟨hu, hunknown⟩ := Classical.not_imp.mp ht
      have hends := checkAll_cons_of_unknown hknown hu hunknown ts
      rw [← List.append_nil pre] at hpre hu hunknown
      exact .inr ⟨[], t, ts, rfl, hpre, hu, hunknown, hends⟩

namespace Program

theorem analyze_cases {p : Program α} (hmentions : p.mentions = Setting.plain.mentions ts) :
    (Founded ts ∧ p.analyze = .ok ()) ∨
    ∃ before t after, ts = before ++ t :: after ∧ Founded before ∧
      (Uses before t ∧ ¬ Known before t.lexeme) ∧
      p.analyze = .error ⟨.undefinedName t.lexeme, some t.location⟩ := by
  have hnone : Founded ([] : List (Token α)) := by
    intro before t after hsplit
    simp at hsplit
  have hbuiltin : ∀ name, name ∈ Builtin.names ↔ Known ([] : List (Token α)) name := by
    simp [Known]
  rw [analyze, ← p.checkAll_mentions, hmentions]
  rcases checkAll_cases hnone hbuiltin ts with
    ⟨hfounded, known, hok⟩ | ⟨before, t, after, hsplit, hbefore, hu, hunknown, herror⟩
  · refine .inl ⟨hfounded, ?_⟩
    rw [show checkAll Builtin.names (Setting.plain.mentions ts) = .ok known from hok]
  · refine .inr ⟨before, t, after, hsplit, hbefore, ⟨hu, hunknown⟩, ?_⟩
    rw [show checkAll Builtin.names (Setting.plain.mentions ts) = .error t.identifier from herror]
    rfl

/-- The check passes a program if and only if every name that its tokens use is built in or was
introduced before, and else reports the first one that was not, where it stands. -/
theorem analyze_iff_founded {text file : String} {p : Program Location}
    (h : parse text file = .ok p) :
    ∃ ts, tokenize text file = .ok ts ∧ (p.analyze = .ok () ↔ Founded ts) ∧
      ∀ e, p.analyze = .error e ↔ ∃ before t after, ts = before ++ t :: after ∧
        Founded before ∧ (Uses before t ∧ ¬ Known before t.lexeme) ∧
        e = ⟨.undefinedName t.lexeme, some t.location⟩ := by
  obtain ⟨ts, hts, hmentions⟩ := mentions_of_parse h
  refine ⟨ts, hts, ?_⟩
  rcases analyze_cases hmentions with
    ⟨hfounded, hok⟩ | ⟨before, t, after, rfl, hbefore, ht, herror⟩
  · rw [hok]
    refine ⟨iff_of_true rfl hfounded, fun e => iff_of_false nofun ?_⟩
    rintro ⟨before, t, after, rfl, -, ht, -⟩
    exact ht.2 (hfounded before t after rfl ht.1)
  · rw [herror]
    refine ⟨iff_of_false nofun fun hfounded => ht.2 (hfounded before t after rfl ht.1), fun e => ?_⟩
    constructor
    · intro he
      exact ⟨before, t, after, rfl, hbefore, ht, (Except.error.inj he).symm⟩
    · rintro ⟨before', t', after', hsplit, hbefore', ht', rfl⟩
      rw [first_failure_unique Founded.mono hsplit hbefore (not_founded_of_unknown ht) hbefore'
        (not_founded_of_unknown ht')]

/-- A name that is used in a condition and declared in the block behind it; a name that is never
introduced comes later. -/
theorem analyze_of_late_declaration :
    let text := "function f(a) \x7b a = f; \x7d while (f(b)) \x7b var b; b = c; \x7d"
    let e : EvalError Location := ⟨.undefinedName "b", some ⟨"t", 1, 35, ⟨34, 35⟩⟩⟩
    ∃ p ts before t after, parse text "t" = .ok p ∧ tokenize text "t" = .ok ts ∧
      p.analyze = .error e ∧ ts = before ++ t :: after ∧ Founded before ∧ Uses before t ∧
      ¬ Known before t.lexeme ∧ e = ⟨.undefinedName t.lexeme, some t.location⟩ := by
  intro text e
  have hcomputed : (parse text "t").toOption.map Program.analyze = some (.error e) := by
    decide +kernel
  cases hparse : parse text "t" with
  | error e =>
    rw [hparse] at hcomputed
    cases hcomputed
  | ok p =>
    rw [hparse] at hcomputed
    have hanalyze : p.analyze = .error e := Option.some.inj hcomputed
    obtain ⟨ts, hts, -, herror⟩ := analyze_iff_founded hparse
    obtain ⟨before, t, after, hsplit, hbefore, ⟨hu, hunknown⟩, he⟩ := (herror e).mp hanalyze
    exact ⟨p, ts, before, t, after, rfl, hts, hanalyze, hsplit, hbefore, hu, hunknown, he⟩

end Program

end Scriptlet
