import Scriptlet.Proofs.Grammar.Unambiguous

/-!
What it means for a token reader to read a form of the grammar. A reader that succeeds has read a
derivation. One that fails has met the first token that no derivation goes on with, or has come to
the end of a text that some derivation goes on from. In either case the outcome depends on no
token behind the first one left, and on no bound of the reader: any reader `q` with room enough
comes to the same outcome.
-/

namespace Scriptlet

variable {α β γ : Type}

/-- Looking at the next token, or at the end of the text, meets no lexical fault. -/
def Ending.Clear (ending : Ending α) (ts : List (Token α)) : Prop :=
  ts = [] → ∃ l, ending = .complete l

theorem Ending.clear_cons (ending : Ending α) (t : Token α) (ts : List (Token α)) :
    ending.Clear (t :: ts) := nofun

theorem Ending.Clear.append {ending : Ending α} {ts : List (Token α)} (h : ending.Clear ts)
    (us : List (Token α)) : ending.Clear (us ++ ts) := by
  intro he
  exact h (List.append_eq_nil_iff.mp he).2

theorem Ending.clear_or_broken (ending : Ending α) (ts : List (Token α)) :
    ending.Clear ts ∨ ts = [] ∧ ∃ e, ending = .broken e := by
  cases ts with
  | cons t ts => exact .inl (ending.clear_cons t ts)
  | nil =>
    cases ending with
    | complete l => exact .inl fun _ => ⟨l, rfl⟩
    | broken e => exact .inr ⟨rfl, e, rfl⟩

/-- Some derivation goes on from the given tokens. -/
def Viable (f : Form) (ts : List (Token α)) : Prop := ∃ d : Derivation α f, ts <+: d.yield

theorem viable_nil (f : Form) [h : Nonempty (Derivation α f)] : Viable f ([] : List (Token α)) :=
  h.elim fun d => ⟨d, List.nil_prefix⟩

section Inhabited

/-! ### Every form has a derivation -/

instance [Inhabited α] (k : TokenKind) (ks : List TokenKind) :
    Nonempty (Derivation α (.token (k :: ks))) :=
  ⟨.token ⟨k, "", default⟩ List.mem_cons_self⟩

instance {f g : Form} [hf : Nonempty (Derivation α f)] [hg : Nonempty (Derivation α g)] :
    Nonempty (Derivation α (.seq f g)) :=
  hf.elim fun d => hg.elim fun e => ⟨.seq d e⟩

instance {f g : Form} [hf : Nonempty (Derivation α f)] : Nonempty (Derivation α (.alt f g)) :=
  hf.elim fun d => ⟨.left d⟩

instance {f : Form} : Nonempty (Derivation α (.opt f)) := ⟨.none⟩

instance {f : Form} : Nonempty (Derivation α (.many f)) := ⟨.nil⟩

theorem nonempty_phrase {p : Phrase} (h : Nonempty (Derivation α p.rule)) :
    Nonempty (Derivation α (.phrase p)) := h.elim fun d => ⟨.phrase d⟩

instance [Inhabited α] (p : Phrase) : Nonempty (Derivation α (.phrase p)) := by
  -- From the tightest phrase outwards: the rule of each has a derivation if those before have.
  have primary : Nonempty (Derivation α (.phrase .primary)) :=
    nonempty_phrase (by unfold Phrase.rule; infer_instance)
  have product : Nonempty (Derivation α (.phrase .product)) :=
    nonempty_phrase (by unfold Phrase.rule; infer_instance)
  have sum : Nonempty (Derivation α (.phrase .sum)) :=
    nonempty_phrase (by unfold Phrase.rule; infer_instance)
  have relation : Nonempty (Derivation α (.phrase .relation)) :=
    nonempty_phrase (by unfold Phrase.rule; infer_instance)
  have logical : Nonempty (Derivation α (.phrase .logical)) :=
    nonempty_phrase (by unfold Phrase.rule; infer_instance)
  have block : Nonempty (Derivation α (.phrase .block)) :=
    nonempty_phrase (by unfold Phrase.rule; infer_instance)
  have statement : Nonempty (Derivation α (.phrase .statement)) :=
    nonempty_phrase (by unfold Phrase.rule; infer_instance)
  have function : Nonempty (Derivation α (.phrase .function)) :=
    nonempty_phrase (by unfold Phrase.rule; infer_instance)
  cases p with
  | program => exact nonempty_phrase (by unfold Phrase.rule; infer_instance)
  | item => exact nonempty_phrase (by unfold Phrase.rule; infer_instance)
  | assignment => exact nonempty_phrase (logical.elim fun d => ⟨.right d⟩)
  | _ => assumption

instance [Inhabited α] (p : Phrase) : Nonempty (Derivation α p.rule) := by
  obtain ⟨d⟩ : Nonempty (Derivation α (.phrase p)) := inferInstance
  cases d with
  | phrase d => exact ⟨d⟩

end Inhabited

/-- What a reader of the form `f` may come to on tokens `ts`. The readings that `q` is said to
make too are those of fewer than `N` tokens. -/
inductive Outcome (N : Nat) (f : Form) (v : f.Tree α → β) (q : Parser α β) (ending : Ending α)
    (ts : List (Token α)) : Except (ParseError α) (β × List (Token α)) → Prop
  | read (d : Derivation α f) (rest : List (Token α)) (hts : ts = d.yield ++ rest)
      (same : ∀ ending' rest', (d.yield ++ rest').length < N → look rest' = look rest →
        (ending'.Clear rest' ∨ ending' = ending) →
        q ending' (d.yield ++ rest') = .ok (v d.tree, rest')) :
      Outcome N f v q ending ts (.ok (v d.tree, rest))
  | refused (pre : List (Token α)) (t : Token α) (rest : List (Token α)) (w : Expectation)
      (hts : ts = pre ++ t :: rest) (viable : Viable f pre)
      (same : ∀ ending' rest', (pre ++ t :: rest').length < N →
        q ending' (pre ++ t :: rest') = .error (t.error w)) :
      Outcome N f v q ending ts (.error (t.error w))
  | ended (w : Expectation) (viable : Viable f ts)
      (same : q ending ts = .error (ending.error (some w))) :
      Outcome N f v q ending ts (.error (ending.error (some w)))

/-- On fewer than `N` tokens, the first of which satisfies `D`, the reader `p` reads `f`. -/
def Reads (N : Nat) (D : Option TokenKind → Prop) (f : Form) (v : f.Tree α → β)
    (p q : Parser α β) : Prop :=
  ∀ ending ts, ts.length < N → D (look ts) → Outcome N f v q ending ts (p ending ts)

/-- The reader `p` reads every derivation of `f` that something satisfying `A` follows. -/
def Accepts (N : Nat) (D : Option TokenKind → Prop) (f : Form) (v : f.Tree α → β)
    (A : Option TokenKind → Prop) (p : Parser α β) : Prop :=
  ∀ (d : Derivation α f) ending rest, (d.yield ++ rest).length < N →
    D (look (d.yield ++ rest)) → A (look rest) → ending.Clear rest →
    p ending (d.yield ++ rest) = .ok (v d.tree, rest)

/-- Where the next token satisfies `D`, the reader `p` looks at it and goes on as `p₁`. -/
structure Follows (D : Option TokenKind → Prop) (p p₁ : Parser α β) : Prop where
  clear : ∀ ending ts, ending.Clear ts → D (look ts) → p ending ts = p₁ ending ts
  broken : ∀ e, D none → p (.broken e) [] = .error (.lexical e)

theorem look_append_congr {ts us us' : List (Token α)} (h : look us' = look us) :
    look (ts ++ us') = look (ts ++ us) := by
  cases ts with
  | nil => exact h
  | cons t ts => rfl

/-- Looking behind `ts` stays clear if what follows looks the same. -/
theorem Ending.Clear.congr {ending ending' : Ending α} {ts us us' : List (Token α)}
    (h : ending.Clear (ts ++ us)) (hlook : look us' = look us)
    (hor : ending'.Clear us' ∨ ending' = ending) : ending'.Clear (ts ++ us') := by
  rcases hor with hor | rfl
  · exact hor.append ts
  · intro he
    obtain ⟨rfl, rfl⟩ := List.append_eq_nil_iff.mp he
    have hus : us = [] := by rw [← look_eq_none, ← hlook]; rfl
    exact h (by rw [hus]; rfl)

theorem Parser.bind_of_ok {p : Parser α β} {k : β → Parser α γ} {ending : Ending α}
    {ts rest : List (Token α)} {b : β} (h : p ending ts = .ok (b, rest)) :
    (p >>= k) ending ts = k b ending rest := by
  change Parser.bind p k ending ts = _
  rw [Parser.bind, h]

theorem Parser.bind_of_error {p : Parser α β} {k : β → Parser α γ} {ending : Ending α}
    {ts : List (Token α)} {e : ParseError α} (h : p ending ts = .error e) :
    (p >>= k) ending ts = .error e := by
  change Parser.bind p k ending ts = _
  rw [Parser.bind, h]

namespace Reads

variable {N M : Nat} {D E : Option TokenKind → Prop} {f g : Form} {v : f.Tree α → β}
  {p q p₁ q₁ : Parser α β}

theorem mono (h : Reads N D f v p q) (hM : M ≤ N) (hE : ∀ o, E o → D o) : Reads M E f v p q := by
  intro ending ts hlen ho
  have hh := h ending ts (by omega) (hE _ ho)
  generalize p ending ts = r at hh
  cases hh with
  | read d rest hts same => exact .read d rest hts fun e r hl => same e r (by omega)
  | refused pre t rest w hts viable same =>
    exact .refused pre t rest w hts viable fun e r hl => same e r (by omega)
  | ended w viable same => exact .ended w viable same

theorem union (h : Reads N D f v p q) (h' : Reads N E f v p q) :
    Reads N (fun o => D o ∨ E o) f v p q := by
  intro ending ts hlen ho
  rcases ho with ho | ho
  · exact h ending ts hlen ho
  · exact h' ending ts hlen ho

theorem value {u : f.Tree α → β} (h : Reads N D f v p q) (hv : ∀ x, v x = u x) :
    Reads N D f u p q := by
  obtain rfl : v = u := funext hv
  exact h

/-- Every derivation of `f` counts as one of `g`. -/
theorem embed {v' : g.Tree α → β} (h : Reads N D f v p q)
    (hd : ∀ d : Derivation α f, ∃ e : Derivation α g, e.yield = d.yield ∧ v' e.tree = v d.tree) :
    Reads N D g v' p q := by
  have hviable : ∀ {ts : List (Token α)}, Viable f ts → Viable g ts := by
    rintro ts ⟨d, hts⟩
    obtain ⟨e, hy, _⟩ := hd d
    exact ⟨e, hy ▸ hts⟩
  intro ending ts hlen ho
  have hh := h ending ts hlen ho
  generalize p ending ts = r at hh
  cases hh with
  | read d rest hts same =>
    obtain ⟨e, hy, hv⟩ := hd d
    rw [← hy] at hts same
    rw [← hv] at same ⊢
    exact .read e rest hts same
  | refused pre t rest w hts viable same => exact .refused pre t rest w hts (hviable viable) same
  | ended w viable same => exact .ended w (hviable viable) same

theorem follows [Nonempty (Derivation α f)] (hp : Follows D p p₁) (hq : Follows D q q₁)
    (h : Reads N D f v p₁ q₁) : Reads N D f v p q := by
  intro ending ts hlen ho
  rcases ending.clear_or_broken ts with hc | ⟨rfl, e, rfl⟩
  · have hh := h ending ts hlen ho
    rw [hp.clear ending ts hc ho]
    generalize p₁ ending ts = r at hh
    cases hh with
    | read d rest hts same =>
      subst hts
      refine .read d rest rfl fun e r hl hlook hor => ?_
      rw [hq.clear e _ (hc.congr hlook hor) (by rw [look_append_congr hlook]; exact ho)]
      exact same e r hl hlook hor
    | refused pre t rest w hts viable same =>
      subst hts
      refine .refused pre t rest w rfl viable fun e r hl => ?_
      have hlook : look (pre ++ t :: r) = look (pre ++ t :: rest) := look_append_congr rfl
      rw [hq.clear e _ ((e.clear_cons t r).append pre) (by rw [hlook]; exact ho)]
      exact same e r hl
    | ended w viable same =>
      exact .ended w viable (by rw [hq.clear ending ts hc ho]; exact same)
  · have hended : Outcome N f v q (.broken e) [] (.error (.lexical e)) :=
      .ended .expression (viable_nil f) (hq.broken e ho)
    rw [hp.broken e ho]
    exact hended

theorem map {h : β → γ} (hp : Reads N D f v p q) :
    Reads N D f (fun x => h (v x)) (p >>= fun b => pure (h b)) (q >>= fun b => pure (h b)) := by
  intro ending ts hlen ho
  have hh := hp ending ts hlen ho
  generalize hr : p ending ts = r at hh
  cases hh with
  | read d rest hts same =>
    rw [Parser.bind_of_ok hr]
    exact .read d rest hts fun e r hl hlook hor => Parser.bind_of_ok (same e r hl hlook hor)
  | refused pre t rest w hts viable same =>
    rw [Parser.bind_of_error hr]
    exact .refused pre t rest w hts viable fun e r hl => Parser.bind_of_error (same e r hl)
  | ended w viable same =>
    rw [Parser.bind_of_error hr]
    exact .ended w viable (Parser.bind_of_error same)

theorem seq [hg : Nonempty (Derivation α g)] {w : β → g.Tree α → γ} {k k' : β → Parser α γ}
    (hp : Reads N D f v p q) (hk : ∀ b, Reads M (fun _ => True) g (w b) (k b) (k' b))
    (hN : N ≤ M ∨ f.nullable = false ∧ N ≤ M + 1) :
    Reads N D (.seq f g) (fun x => w (v x.1) x.2) (p >>= k) (q >>= k') := by
  intro ending ts hlen ho
  have hh := hp ending ts hlen ho
  generalize hr : p ending ts = r at hh
  cases hh with
  | read d rest hts same =>
    -- Behind a derivation of `f` there is room for a reader of fewer than `M` tokens.
    have hroom : ∀ us : List (Token α), (d.yield ++ us).length < N → us.length < M := by
      intro us hus
      rw [List.length_append] at hus
      rcases hN with hN | ⟨hf, hN⟩
      · omega
      · have := List.length_pos_iff.mpr (d.yield_ne_nil hf)
        omega
    have hkh := hk (v d.tree) ending rest (hroom rest (hts ▸ hlen)) trivial
    rw [Parser.bind_of_ok hr]
    generalize k (v d.tree) ending rest = r at hkh
    cases hkh with
    | read e rest₂ hrest same₂ =>
      refine .read (.seq d e) rest₂ (by simp [hts, hrest, Derivation.yield]) ?_
      intro e' r hl hlook hor
      simp only [Derivation.yield, List.append_assoc] at hl ⊢
      rw [Parser.bind_of_ok (same e' _ hl (by rw [hrest]; exact look_append_congr hlook)
        (hor.imp_left fun hc => hc.append _))]
      exact same₂ e' r (hroom _ hl) hlook hor
    | refused pre t rest₂ w hrest viable same₂ =>
      obtain ⟨e, he⟩ := viable
      refine .refused (d.yield ++ pre) t rest₂ w (by simp [hts, hrest])
        ⟨.seq d e, (List.prefix_append_right_inj _).mpr he⟩ fun e' r hl => ?_
      rw [List.append_assoc] at hl ⊢
      rw [Parser.bind_of_ok (same e' _ hl (by rw [hrest]; exact look_append_congr rfl)
        (.inl ((e'.clear_cons t r).append pre)))]
      exact same₂ e' r (hroom _ hl)
    | ended w viable same₂ =>
      obtain ⟨e, he⟩ := viable
      refine .ended w ⟨.seq d e, by rw [hts]; exact (List.prefix_append_right_inj _).mpr he⟩ ?_
      rw [hts, Parser.bind_of_ok (same ending rest (hts ▸ hlen) rfl (.inr rfl))]
      exact same₂
  | refused pre t rest w hts viable same =>
    obtain ⟨d, hd⟩ := viable
    obtain ⟨e⟩ := hg
    rw [Parser.bind_of_error hr]
    exact .refused pre t rest w hts ⟨.seq d e, hd.trans (List.prefix_append _ _)⟩
      fun e' r hl => Parser.bind_of_error (same e' r hl)
  | ended w viable same =>
    obtain ⟨d, hd⟩ := viable
    obtain ⟨e⟩ := hg
    rw [Parser.bind_of_error hr]
    exact .ended w ⟨.seq d e, hd.trans (List.prefix_append _ _)⟩ (Parser.bind_of_error same)

/-- A reader that takes nothing reads an empty derivation. -/
theorem pure {b : β} (d : Derivation α f) (hd : d.yield = []) (hv : v d.tree = b) :
    Reads N D f v (pure b) (pure b) := by
  intro ending ts _ _
  rw [← hv]
  refine .read d ts (by simp [hd]) fun e r _ _ _ => ?_
  rw [hd]
  rfl

theorem refuse [Nonempty (Derivation α f)] (w : Expectation) :
    Reads N D f v (Parser.refuse w) (Parser.refuse w) := by
  intro ending ts _ _
  cases ts with
  | nil => exact .ended w (viable_nil f) rfl
  | cons t ts => exact .refused [] t ts w rfl (viable_nil f) fun _ _ _ => rfl

theorem expect [Inhabited α] (k : TokenKind) :
    Reads N D (.token [k]) (fun t : Token α => t) (Parser.expect k) (Parser.expect k) := by
  intro ending ts _ _
  cases ts with
  | nil => exact .ended _ (viable_nil _) rfl
  | cons t ts =>
    by_cases h : t.kind = k
    · have hok : ∀ e us, Parser.expect k e (t :: us) = .ok (t, us) := fun e us => if_pos h
      rw [hok]
      exact .read (f := .token [k]) (.token t (List.mem_singleton.mpr h)) ts rfl
        fun e r _ _ _ => hok e r
    · have herr : ∀ e us, Parser.expect k e (t :: us) = .error (t.error (.token k)) :=
        fun e us => if_neg h
      rw [herr]
      exact .refused [] t ts _ rfl (viable_nil _) fun e r _ => herr e r

end Reads

namespace Accepts

variable {N M : Nat} {D E A B : Option TokenKind → Prop} {f g : Form} {v : f.Tree α → β}
  {p p₁ : Parser α β}

theorem mono (h : Accepts N D f v A p) (hM : M ≤ N) (hE : ∀ o, E o → D o)
    (hB : ∀ o, B o → A o) : Accepts M E f v B p :=
  fun d ending rest hlen ho ha hc => h d ending rest (by omega) (hE _ ho) (hB _ ha) hc

theorem union (h : Accepts N D f v A p) (h' : Accepts N E f v A p) :
    Accepts N (fun o => D o ∨ E o) f v A p := by
  intro d ending rest hlen ho ha hc
  rcases ho with ho | ho
  · exact h d ending rest hlen ho ha hc
  · exact h' d ending rest hlen ho ha hc

theorem value {u : f.Tree α → β} (h : Accepts N D f v A p) (hv : ∀ x, v x = u x) :
    Accepts N D f u A p := by
  obtain rfl : v = u := funext hv
  exact h

/-- Every derivation of `g` that has to be read here counts as one of `f`. -/
theorem embed {v' : g.Tree α → β} (h : Accepts N D f v A p)
    (hd : ∀ (e : Derivation α g) rest, D (look (e.yield ++ rest)) → B (look rest) →
      A (look rest) ∧ ∃ d : Derivation α f, d.yield = e.yield ∧ v d.tree = v' e.tree) :
    Accepts N D g v' B p := by
  intro e ending rest hlen ho hb hc
  obtain ⟨ha, d, hy, hv⟩ := hd e rest ho hb
  rw [← hv, ← hy]
  rw [← hy] at hlen ho
  exact h d ending rest hlen ho ha hc

theorem follows (hp : Follows D p p₁) (h : Accepts N D f v A p₁) : Accepts N D f v A p := by
  intro d ending rest hlen ho ha hc
  rw [hp.clear ending _ (hc.append _) ho]
  exact h d ending rest hlen ho ha hc

theorem map {h : β → γ} (hp : Accepts N D f v A p) :
    Accepts N D f (fun x => h (v x)) A (p >>= fun b => pure (h b)) := by
  intro d ending rest hlen ho ha hc
  rw [Parser.bind_of_ok (hp d ending rest hlen ho ha hc)]
  rfl

theorem seq {w : β → g.Tree α → γ} {k : β → Parser α γ} (hp : Accepts N D f v A p)
    (hk : ∀ b, Accepts M (fun _ => True) g (w b) B (k b))
    (hN : N ≤ M ∨ f.nullable = false ∧ N ≤ M + 1)
    (hstarts : ∀ k ∈ g.starts, A (some k)) (hnull : g.nullable = true → ∀ o, B o → A o) :
    Accepts N D (.seq f g) (fun x => w (v x.1) x.2) B (p >>= k) := by
  intro d ending rest hlen ho hb hc
  cases d with
  | seq d e =>
    simp only [Derivation.yield, List.append_assoc] at hlen ho ⊢
    have hroom : (e.yield ++ rest).length < M := by
      rw [List.length_append] at hlen
      rcases hN with hN | ⟨hf, hN⟩
      · omega
      · have := List.length_pos_iff.mpr (d.yield_ne_nil hf)
        omega
    have ha : A (look (e.yield ++ rest)) := by
      rcases e.look_yield_append rest with ⟨_, hn, hl⟩ | ⟨k, hk, hl⟩
      · rw [hl]
        exact hnull hn _ hb
      · rw [hl]
        exact hstarts k hk
    rw [Parser.bind_of_ok (hp d ending _ hlen ho ha (hc.append _))]
    exact hk (v d.tree) e ending rest hroom trivial hb hc

theorem pure {b : β} (hd : ∀ (d : Derivation α f) rest, D (look (d.yield ++ rest)) →
    A (look rest) → d.yield = [] ∧ v d.tree = b) : Accepts N D f v A (pure b) := by
  intro d ending rest _ ho ha _
  obtain ⟨hy, hv⟩ := hd d rest ho ha
  rw [hy, hv]
  rfl

theorem refuse (w : Expectation) (hf : f.nullable = false)
    (hstarts : ∀ k ∈ f.starts, ¬ D (some k)) :
    Accepts N D f v A (Parser.refuse w) := by
  intro d ending rest _ ho _ _
  exact (d.not_look hf hstarts rest ho).elim

theorem expect (k : TokenKind) :
    Accepts N D (.token [k]) (fun t : Token α => t) A (Parser.expect k) := by
  intro d ending rest _ _ _ _
  cases d with
  | token t h => exact if_pos (List.mem_singleton.mp h)

end Accepts

/-- The readers `p` and `q`, which may differ in their bounds, read the form `f` exactly. -/
structure Parses (N : Nat) (D : Option TokenKind → Prop) (f : Form) (v : f.Tree α → β)
    (A : Option TokenKind → Prop) (p q : Parser α β) : Prop where
  reads : Reads N D f v p q
  accepts : Accepts N D f v A p
  accepts' : Accepts N D f v A q

namespace Parses

variable {N M : Nat} {D E A B : Option TokenKind → Prop} {f g : Form} {v : f.Tree α → β}
  {p q p₁ q₁ : Parser α β}

theorem mono (h : Parses N D f v A p q) (hM : M ≤ N) (hE : ∀ o, E o → D o)
    (hB : ∀ o, B o → A o) : Parses M E f v B p q :=
  ⟨h.reads.mono hM hE, h.accepts.mono hM hE hB, h.accepts'.mono hM hE hB⟩

theorem union (h : Parses N D f v A p q) (h' : Parses N E f v A p q) :
    Parses N (fun o => D o ∨ E o) f v A p q :=
  ⟨h.reads.union h'.reads, h.accepts.union h'.accepts, h.accepts'.union h'.accepts'⟩

theorem value {u : f.Tree α → β} (h : Parses N D f v A p q) (hv : ∀ x, v x = u x) :
    Parses N D f u A p q :=
  ⟨h.reads.value hv, h.accepts.value hv, h.accepts'.value hv⟩

theorem embed {v' : g.Tree α → β} (h : Parses N D f v A p q)
    (hd : ∀ d : Derivation α f, ∃ e : Derivation α g, e.yield = d.yield ∧ v' e.tree = v d.tree)
    (he : ∀ (e : Derivation α g) rest, D (look (e.yield ++ rest)) → B (look rest) →
      A (look rest) ∧ ∃ d : Derivation α f, d.yield = e.yield ∧ v d.tree = v' e.tree) :
    Parses N D g v' B p q :=
  ⟨h.reads.embed hd, h.accepts.embed he, h.accepts'.embed he⟩

theorem follows [Nonempty (Derivation α f)] (hp : Follows D p p₁) (hq : Follows D q q₁)
    (h : Parses N D f v A p₁ q₁) : Parses N D f v A p q :=
  ⟨h.reads.follows hp hq, h.accepts.follows hp, h.accepts'.follows hq⟩

theorem map {h : β → γ} (hp : Parses N D f v A p q) :
    Parses N D f (fun x => h (v x)) A (p >>= fun b => Pure.pure (h b))
      (q >>= fun b => Pure.pure (h b)) :=
  ⟨hp.reads.map, hp.accepts.map, hp.accepts'.map⟩

theorem seq [Nonempty (Derivation α g)] {w : β → g.Tree α → γ} {k k' : β → Parser α γ}
    (hp : Parses N D f v A p q) (hk : ∀ b, Parses M (fun _ => True) g (w b) B (k b) (k' b))
    (hN : N ≤ M ∨ f.nullable = false ∧ N ≤ M + 1)
    (hstarts : ∀ k ∈ g.starts, A (some k)) (hnull : g.nullable = true → ∀ o, B o → A o) :
    Parses N D (.seq f g) (fun x => w (v x.1) x.2) B (p >>= k) (q >>= k') :=
  ⟨hp.reads.seq (fun b => (hk b).reads) hN,
    hp.accepts.seq (fun b => (hk b).accepts) hN hstarts hnull,
    hp.accepts'.seq (fun b => (hk b).accepts') hN hstarts hnull⟩

theorem refuse [Nonempty (Derivation α f)] (w : Expectation) (hf : f.nullable = false)
    (hstarts : ∀ k ∈ f.starts, ¬ D (some k)) :
    Parses N D f v A (Parser.refuse w) (Parser.refuse w) :=
  ⟨.refuse w, .refuse w hf hstarts, .refuse w hf hstarts⟩

theorem expect [Inhabited α] (k : TokenKind) :
    Parses N D (.token [k]) (fun t : Token α => t) A (Parser.expect k) (Parser.expect k) :=
  ⟨.expect k, .expect k, .expect k⟩

theorem zero : Parses 0 D f v A p q where
  reads _ _ hlen := absurd hlen (by omega)
  accepts _ _ _ hlen := absurd hlen (by omega)
  accepts' _ _ _ hlen := absurd hlen (by omega)

theorem total (h : Parses N D f v A p q) (h' : Parses N (fun o => ¬ D o) f v A p q) :
    Parses N (fun _ => True) f v A p q :=
  (h.union h').mono (Nat.le_refl N) (fun o _ => Classical.em (D o)) (fun _ => id)

/-! ### Derivations of one form as derivations of another -/

theorem phrase {r : Phrase} {w : r.rule.Tree α → β} {w' : r.Tree α → β}
    (h : Parses N D r.rule w A p q) (hw : ∀ x, w' (r.build x) = w x) :
    Parses N D (.phrase r) w' A p q :=
  h.embed (fun d => ⟨.phrase d, rfl, hw _⟩) fun e _ _ ha => by
    cases e with
    | phrase d => exact ⟨ha, d, rfl, (hw _).symm⟩

theorem assoc {f₁ f₂ f₃ : Form} {w : (Form.seq f₁ (.seq f₂ f₃)).Tree α → β}
    (h : Parses N D (.seq f₁ (.seq f₂ f₃)) w A p q) :
    Parses N D (.seq (.seq f₁ f₂) f₃) (fun x => w (x.1.1, x.1.2, x.2)) A p q :=
  h.embed
    (fun d => by
      cases d with
      | seq d₁ d => cases d with
        | seq d₂ d₃ => exact ⟨.seq (.seq d₁ d₂) d₃, List.append_assoc .., rfl⟩)
    (fun e _ _ ha => by
      cases e with
      | seq e e₃ => cases e with
        | seq e₁ e₂ => exact ⟨ha, .seq e₁ (.seq e₂ e₃), (List.append_assoc ..).symm, rfl⟩)

theorem left {w : (Form.alt f g).Tree α → β} (h : Parses N D f v A p q)
    (hw : ∀ x, w (.inl x) = v x) (hg : g.nullable = false)
    (hstarts : ∀ k ∈ g.starts, ¬ D (some k)) : Parses N D (.alt f g) w A p q :=
  h.embed (fun d => ⟨.left d, rfl, hw _⟩) fun e rest ho ha => by
    cases e with
    | left d => exact ⟨ha, d, rfl, (hw _).symm⟩
    | right d => exact (d.not_look hg hstarts rest ho).elim

theorem right {w : (Form.alt g f).Tree α → β} (h : Parses N D f v A p q)
    (hw : ∀ x, w (.inr x) = v x) (hg : g.nullable = false)
    (hstarts : ∀ k ∈ g.starts, ¬ D (some k)) : Parses N D (.alt g f) w A p q :=
  h.embed (fun d => ⟨.right d, rfl, hw _⟩) fun e rest ho ha => by
    cases e with
    | right d => exact ⟨ha, d, rfl, (hw _).symm⟩
    | left d => exact (d.not_look hg hstarts rest ho).elim

theorem some {w : (Form.opt f).Tree α → β} (h : Parses N D f v A p q)
    (hw : ∀ x, w (Option.some x) = v x) (hB : ∀ o, B o → A o ∧ ¬ D o) :
    Parses N D (.opt f) w B p q :=
  h.embed (fun d => ⟨.some d, rfl, hw _⟩) fun e rest ho hb => by
    cases e with
    | none => exact ((hB _ hb).2 ho).elim
    | some d => exact ⟨(hB _ hb).1, d, rfl, (hw _).symm⟩

theorem none {w : (Form.opt f).Tree α → β} {b : β} (hw : w Option.none = b)
    (hf : f.nullable = false) (hstarts : ∀ k ∈ f.starts, ¬ D (Option.some k)) :
    Parses N D (.opt f) w A (Pure.pure b) (Pure.pure b) := by
  have hd : ∀ (d : Derivation α (.opt f)) rest, D (look (d.yield ++ rest)) → A (look rest) →
      d.yield = [] ∧ w d.tree = b := by
    intro d rest ho _
    cases d with
    | none => exact ⟨rfl, hw⟩
    | some d => exact (d.not_look hf hstarts rest ho).elim
  exact ⟨.pure .none rfl hw, .pure hd, .pure hd⟩

theorem cons {w : (Form.seq f (.many f)).Tree α → β} {w' : (Form.many f).Tree α → β}
    (h : Parses N D (.seq f (.many f)) w A p q) (hw : ∀ x xs, w' (x :: xs) = w (x, xs))
    (hB : ∀ o, B o → A o ∧ ¬ D o) : Parses N D (.many f) w' B p q :=
  h.embed
    (fun d => by
      cases d with
      | seq d₁ d₂ => exact ⟨.cons d₁ d₂, rfl, hw _ _⟩)
    (fun e rest ho hb => by
      cases e with
      | nil => exact ((hB _ hb).2 ho).elim
      | cons e₁ e₂ => exact ⟨(hB _ hb).1, .seq e₁ e₂, rfl, (hw _ _).symm⟩)

theorem nil {w : (Form.many f).Tree α → β} {b : β} (hw : w [] = b) (hf : f.nullable = false)
    (hstarts : ∀ k ∈ f.starts, ¬ D (Option.some k)) :
    Parses N D (.many f) w A (Pure.pure b) (Pure.pure b) := by
  have hd : ∀ (d : Derivation α (.many f)) rest, D (look (d.yield ++ rest)) → A (look rest) →
      d.yield = [] ∧ w d.tree = b := by
    intro d rest ho _
    cases d with
    | nil => exact ⟨rfl, hw⟩
    | cons d₁ d₂ =>
      simp only [Derivation.yield, List.append_assoc] at ho
      exact (d₁.not_look hf hstarts _ ho).elim
  exact ⟨.pure .nil rfl hw, .pure hd, .pure hd⟩

end Parses

end Scriptlet
