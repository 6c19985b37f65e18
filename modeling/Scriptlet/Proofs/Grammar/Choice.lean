import Scriptlet.Proofs.Grammar.Reader

/-!
Readers that look at the next token, or at the next two, and then choose how to go on.
-/

namespace Scriptlet

variable {α β γ : Type}

namespace Parser

/-! ### Readers that look before they go on -/

theorem peek_of_clear {ending : Ending α} {ts : List (Token α)} (hc : ending.Clear ts) :
    peek ending ts = .ok (look ts, ts) := by
  cases ts with
  | nil =>
    obtain ⟨l, rfl⟩ := hc rfl
    rfl
  | cons t ts => cases ending <;> rfl

theorem peekSecond_of_clear {ending : Ending α} {t : Token α} {ts : List (Token α)}
    (hc : ending.Clear ts) : peekSecond ending (t :: ts) = .ok (look ts, t :: ts) := by
  cases ts with
  | nil =>
    obtain ⟨l, rfl⟩ := hc rfl
    rfl
  | cons u ts => cases ending <;> rfl

theorem clear_of_look {ending : Ending α} {ts : List (Token α)} {k : TokenKind}
    (h : look ts = some k) : ending.Clear ts := by
  intro he
  rw [he] at h
  exact absurd h (by simp)

theorem nextIs_of_clear {ending : Ending α} {ts : List (Token α)} (hc : ending.Clear ts)
    (k : TokenKind) : nextIs k ending ts = .ok (decide (look ts = some k), ts) :=
  bind_of_ok (peek_of_clear hc)

theorem expect_of_kind {k : TokenKind} {t : Token α} (h : t.kind = k) (ending : Ending α)
    (ts : List (Token α)) : expect k ending (t :: ts) = .ok (t, ts) := if_pos h

theorem identifier_of_kind {t : Token α} (h : t.kind = .identifier) (ending : Ending α)
    (ts : List (Token α)) : identifier ending (t :: ts) = .ok (t.identifier, ts) :=
  bind_of_ok (expect_of_kind h ending ts)

theorem accept_of_kind {k : TokenKind} {t : Token α} (h : t.kind = k) (ending : Ending α)
    (ts : List (Token α)) : accept k ending (t :: ts) = .ok (true, ts) := by
  have hn := nextIs_of_clear (ending.clear_cons t ts) k
  rw [accept, bind_of_ok hn, look_cons, h, decide_eq_true rfl, if_pos rfl,
    bind_of_ok (expect_of_kind h ending ts)]
  rfl

theorem accept_of_look {k : TokenKind} {ending : Ending α} {ts : List (Token α)}
    (hc : ending.Clear ts) (h : look ts ≠ some k) : accept k ending ts = .ok (false, ts) := by
  rw [accept, bind_of_ok (nextIs_of_clear hc k), decide_eq_false h, if_neg Bool.false_ne_true]
  rfl

/-- Takes the next token, whatever it is. -/
def next : Parser α (Token α)
  | ending, [] => .error (ending.error (some .expression))
  | _, t :: ts => .ok (t, ts)

variable {D : Option TokenKind → Prop} {p : Parser α β}

theorem follows_peek {K : Option TokenKind → Parser α β} (h : ∀ o, D o → K o = p) :
    Follows D (peek >>= K) p where
  clear ending ts hc ho := by rw [bind_of_ok (peek_of_clear hc), h _ ho]
  broken _ _ := rfl

theorem follows_peek_at {K : Option TokenKind → Parser α β} (o : Option TokenKind) :
    Follows (· = o) (peek >>= K) (K o) :=
  follows_peek fun o' ho => by rw [ho]

theorem follows_nextIs {k : TokenKind} {K : Bool → Parser α β} :
    Follows (· = some k) (nextIs k >>= K) (K true) where
  clear ending ts hc ho := by rw [bind_of_ok (nextIs_of_clear hc k), decide_eq_true ho]
  broken _ _ := rfl

theorem follows_nextIs_not {k : TokenKind} {K : Bool → Parser α β} :
    Follows (fun o => ¬ o = some k) (nextIs k >>= K) (K false) where
  clear ending ts hc ho := by rw [bind_of_ok (nextIs_of_clear hc k), decide_eq_false ho]
  broken _ _ := rfl

theorem follows_accept {k : TokenKind} {K : Bool → Parser α β} :
    Follows (· = some k) (accept k >>= K) (expect k >>= fun _ => K true) where
  clear ending ts _ ho := by
    cases ts with
    | nil => exact absurd ho (by simp)
    | cons t ts =>
      have hk : t.kind = k := Option.some.inj ho
      rw [bind_of_ok (accept_of_kind hk ending ts), bind_of_ok (expect_of_kind hk ending ts)]
  broken _ ho := absurd ho (by simp)

theorem follows_accept_not {k : TokenKind} {K : Bool → Parser α β} :
    Follows (fun o => ¬ o = some k) (accept k >>= K) (K false) where
  clear _ _ hc ho := bind_of_ok (accept_of_look hc ho)
  broken _ _ := rfl

/-- The operators in `kinds` are those that `ops` knows. -/
structure Knows (ops : TokenKind → Option BinaryOp) (kinds : List TokenKind) : Prop where
  mem : ∀ k ∈ kinds, ops k = some k.operator
  not_mem : ∀ k, k ∉ kinds → ops k = none

/-- What is looked at is one of the kinds. -/
def Among (kinds : List TokenKind) (o : Option TokenKind) : Prop := ∃ k ∈ kinds, o = some k

instance (kinds : List TokenKind) (o : Option TokenKind) : Decidable (Among kinds o) :=
  inferInstanceAs (Decidable (∃ k ∈ kinds, o = some k))

variable {ops : TokenKind → Option BinaryOp} {kinds : List TokenKind}

theorem follows_operator (h : Knows ops kinds) {K : Option (BinaryOp × α) → Parser α β} :
    Follows (Among kinds) (operator ops >>= K)
      (next >>= fun t => K (some (t.kind.operator, t.location))) where
  clear ending ts _ ho := by
    cases ts with
    | nil =>
      obtain ⟨k, _, hk⟩ := ho
      exact absurd hk (by simp)
    | cons t ts =>
      obtain ⟨k, hk, ho⟩ := ho
      obtain rfl : t.kind = k := Option.some.inj ho
      have hop : operator ops ending (t :: ts) = .ok (some (t.kind.operator, t.location), ts) := by
        cases ending <;> simp [operator, h.mem _ hk]
      rw [bind_of_ok hop]
      rfl
  broken _ ho := by
    obtain ⟨k, _, hk⟩ := ho
    exact absurd hk (by simp)

theorem follows_operator_not (h : Knows ops kinds) {K : Option (BinaryOp × α) → Parser α β} :
    Follows (fun o => ¬ Among kinds o) (operator ops >>= K) (K none) where
  clear ending ts hc ho := by
    cases ts with
    | nil =>
      obtain ⟨l, rfl⟩ := hc rfl
      rfl
    | cons t ts =>
      have hn : ops t.kind = none := h.not_mem _ fun hk => ho ⟨_, hk, rfl⟩
      have hop : operator ops ending (t :: ts) = .ok (none, t :: ts) := by
        cases ending <;> simp [operator, hn]
      rw [bind_of_ok hop]
  broken _ _ := rfl

theorem knows_logicalOp : Knows logicalOp Phrase.logicalKinds where
  mem := by decide
  not_mem k hk := by cases k <;> first | rfl | exact absurd hk (by decide)

theorem knows_relationOp : Knows relationOp Phrase.relationKinds where
  mem := by decide
  not_mem k hk := by cases k <;> first | rfl | exact absurd hk (by decide)

theorem knows_sumOp : Knows sumOp Phrase.sumKinds where
  mem := by decide
  not_mem k hk := by cases k <;> first | rfl | exact absurd hk (by decide)

theorem knows_productOp : Knows productOp Phrase.productKinds where
  mem := by decide
  not_mem k hk := by cases k <;> first | rfl | exact absurd hk (by decide)

/-- Nothing is asked of what is looked at. -/
abbrev Anything : Option TokenKind → Prop := fun _ => True

variable {N : Nat} {A B : Option TokenKind → Prop} {f : Form} {q : Parser α β} {v : f.Tree α → β}

theorem parses_next (kinds : List TokenKind) :
    Parses N (Among kinds) (.token kinds) (fun t : Token α => t) A next next := by
  have hacc : Accepts N (Among kinds) (.token kinds) (fun t : Token α => t) A next := by
    intro d ending rest _ _ _ _
    cases d with
    | token t h => rfl
  refine ⟨fun ending ts _ ho => ?_, hacc, hacc⟩
  cases ts with
  | nil =>
    obtain ⟨k, _, hk⟩ := ho
    exact absurd hk (by simp)
  | cons t ts =>
    obtain ⟨k, hk, ho⟩ := ho
    obtain rfl : t.kind = k := Option.some.inj ho
    exact .read (f := .token kinds) (.token t hk) ts rfl fun _ _ _ _ _ => rfl

theorem parses_identifier [Inhabited α] :
    Parses N D (.token [.identifier]) Token.identifier A (identifier (α := α)) identifier :=
  (Parses.expect .identifier).map

/-! ### Choices that take two tokens -/

/-- Behind an identifier, the reader `p` goes on as `r` before a token of kind `k`, and starts
over as `p₂` before any other. -/
structure Forks (k : TokenKind) (p : Parser α β) (r : Identifier α → Parser α β)
    (p₂ : Parser α β) : Prop where
  left : ∀ ending t ts, t.kind = .identifier → look ts = some k →
    p ending (t :: ts) = r t.identifier ending ts
  right : ∀ ending t ts, t.kind = .identifier → ending.Clear ts → look ts ≠ some k →
    p ending (t :: ts) = p₂ ending (t :: ts)
  broken : ∀ e t, t.kind = .identifier → p (.broken e) [t] = .error (.lexical e)

section Forks

variable {k : TokenKind} {g : Form} {p₂ q₂ : Parser α β} {r r' : Identifier α → Parser α β}
  {w : Identifier α → g.Tree α → β}

theorem Forks.accepts (hp : Forks k p r p₂) (hr : ∀ b, Accepts N Anything g (w b) A (r b))
    (h : Accepts (N + 1) (· = some .identifier) f v A p₂) (hg : g.nullable = false)
    (hstarts : ∀ k' ∈ g.starts, k' = k) (hf : f.nullable = false) (hseconds : k ∉ f.seconds)
    (hB : ∀ o, B o → A o ∧ o ≠ some k) :
    Accepts (N + 1) (· = some .identifier) (.alt (.seq (.token [.identifier]) g) f)
      (Sum.elim (fun x => w (Token.identifier x.1) x.2) v) B p := by
  intro d ending rest hlen ho hb hc
  cases d with
  | left d =>
    cases d with
    | seq d e =>
      cases d with
      | token t ht =>
        have hlook : look (e.yield ++ rest) = some k := by
          rcases e.look_yield_append rest with ⟨he, _⟩ | ⟨k', hk', hl⟩
          · exact (e.yield_ne_nil hg he).elim
          · rw [hl, hstarts k' hk']
        have hh := hr t.identifier e ending rest (by simpa [Derivation.yield] using hlen) trivial
          (hB _ hb).1 hc
        have hl := hp.left ending t (e.yield ++ rest) (List.mem_singleton.mp ht) hlook
        exact hl.trans hh
  | right e =>
    have hh := h e ending rest hlen ho (hB _ hb).1 hc
    obtain ⟨t, y, hy⟩ := List.exists_cons_of_ne_nil (e.yield_ne_nil hf)
    change p ending (e.yield ++ rest) = _
    change look (e.yield ++ rest) = _ at ho
    rw [hy, List.cons_append] at ho hh ⊢
    have hlook : look (y ++ rest) ≠ some k := by
      cases y with
      | nil => exact (hB _ hb).2
      | cons u y =>
        have hfits := e.fits_yield
        rw [hy] at hfits
        intro he
        exact hseconds (Option.some.inj he ▸ hfits.2)
    rw [hp.right ending t (y ++ rest) (Option.some.inj ho) (hc.append y) hlook]
    exact hh

theorem Forks.outcome_left (hp : Forks k p r p₂) (hq : Forks k q r' q₂)
    (hr : ∀ b, Reads N Anything g (w b) (r b) (r' b)) {ending : Ending α} {t : Token α}
    {ts : List (Token α)} (hlen : ts.length < N) (ht : t.kind = .identifier)
    (hk : look ts = some k) :
    Outcome (N + 1) (.alt (.seq (.token [.identifier]) g) f)
      (Sum.elim (fun x => w (Token.identifier x.1) x.2) v) q ending (t :: ts)
      (p ending (t :: ts)) := by
  have hviable : ∀ us, Viable g us →
      Viable (.alt (.seq (.token [.identifier]) g) f) (t :: us) := by
    rintro us ⟨e, he⟩
    exact ⟨.left (.seq (.token t (List.mem_singleton.mpr ht)) e), (List.prefix_cons_inj t).mpr he⟩
  rw [hp.left ending t ts ht hk]
  have hh := hr t.identifier ending ts hlen trivial
  generalize r t.identifier ending ts = x at hh
  cases hh with
  | read e rest hts same =>
    subst hts
    refine .read (f := .alt (.seq (.token [.identifier]) g) f)
      (.left (.seq (.token t (List.mem_singleton.mpr ht)) e)) rest rfl ?_
    intro e' us hl hlook hor
    have hleft := hq.left e' t (e.yield ++ us) ht (by rw [look_append_congr hlook]; exact hk)
    exact hleft.trans (same e' us (by simpa [Derivation.yield] using hl) hlook hor)
  | refused pre t' rest w hts viable same =>
    subst hts
    refine .refused (t :: pre) t' rest w rfl (hviable _ viable) fun e' us hl => ?_
    have hlook : look (pre ++ t' :: us) = some k := by
      rw [← hk]
      exact look_append_congr rfl
    exact (hq.left e' t _ ht hlook).trans (same e' us (by simpa using hl))
  | ended w viable same =>
    exact .ended w (hviable _ viable) ((hq.left ending t ts ht hk).trans same)

theorem Forks.outcome_right [Inhabited α] (hp : Forks k p r p₂) (hq : Forks k q r' q₂)
    (h : Reads (N + 1) (· = some .identifier) f v p₂ q₂)
    (h' : Accepts (N + 1) (· = some .identifier) f v A q₂) (hA : A none)
    (hf : f.nullable = false)
    (hone : ∀ t : Token α, t.kind = .identifier → ∃ d : Derivation α f, d.yield = [t])
    {ending : Ending α} {t : Token α} {ts : List (Token α)} (hlen : ts.length < N)
    (ht : t.kind = .identifier) (hc : ending.Clear ts) (hk : look ts ≠ some k) :
    Outcome (N + 1) (.alt (.seq (.token [.identifier]) g) f)
      (Sum.elim (fun x => w (Token.identifier x.1) x.2) v) q ending (t :: ts)
      (p ending (t :: ts)) := by
  have hviable : ∀ us : List (Token α), Viable f us →
      Viable (.alt (.seq (.token [.identifier]) g) f) us := by
    rintro us ⟨e, he⟩
    exact ⟨.right e, he⟩
  rw [hp.right ending t ts ht hc hk]
  have hh := h ending (t :: ts) (by simpa using hlen) (congrArg some ht)
  generalize p₂ ending (t :: ts) = x at hh
  cases hh with
  | read d rest hts same =>
    obtain ⟨u, y, hy⟩ := List.exists_cons_of_ne_nil (d.yield_ne_nil hf)
    refine .read (f := .alt (.seq (.token [.identifier]) g) f) (.right d) rest hts ?_
    rw [hy, List.cons_append] at hts
    obtain ⟨rfl, rfl⟩ := List.cons.inj hts
    intro e' us hl hlook hor
    have hsame := same e' us hl hlook hor
    change q e' (d.yield ++ us) = _
    rw [hy, List.cons_append] at hsame ⊢
    rw [hq.right e' t (y ++ us) ht (hc.congr hlook hor)
      (by rw [look_append_congr hlook]; exact hk)]
    exact hsame
  | refused pre t' rest w hts viable same =>
    cases pre with
    | nil =>
      -- An identifier alone is read by `q₂`, so it cannot be the token that is refused.
      obtain ⟨rfl, rfl⟩ := List.cons.inj hts
      obtain ⟨d, hd⟩ := hone t ht
      have hok := h' d (.complete default) [] (by simp [hd]; omega) (by simpa [hd] using ht) hA
        fun _ => ⟨_, rfl⟩
      have herr := same (.complete default) [] (by simp; omega)
      rw [hd] at hok
      exact absurd (hok.symm.trans herr) (by simp)
    | cons u pre =>
      rw [List.cons_append] at hts
      obtain ⟨rfl, rfl⟩ := List.cons.inj hts
      refine .refused (t :: pre) t' rest w rfl (hviable _ viable) fun e' us hl => ?_
      have hsame : look (pre ++ t' :: us) = look (pre ++ t' :: rest) := look_append_congr rfl
      have hlook : look (pre ++ t' :: us) ≠ some k := by
        rw [hsame]
        exact hk
      exact (hq.right e' t _ ht ((e'.clear_cons t' us).append pre) hlook).trans (same e' us hl)
  | ended w viable same =>
    exact .ended w (hviable _ viable) ((hq.right ending t ts ht hc hk).trans same)

theorem Forks.reads [Inhabited α] (hp : Forks k p r p₂) (hq : Forks k q r' q₂)
    (hr : ∀ b, Reads N Anything g (w b) (r b) (r' b))
    (h : Reads (N + 1) (· = some .identifier) f v p₂ q₂)
    (h' : Accepts (N + 1) (· = some .identifier) f v A q₂) (hA : A none)
    (hf : f.nullable = false)
    (hone : ∀ t : Token α, t.kind = .identifier → ∃ d : Derivation α f, d.yield = [t]) :
    Reads (N + 1) (· = some .identifier) (.alt (.seq (.token [.identifier]) g) f)
      (Sum.elim (fun x => w (Token.identifier x.1) x.2) v) p q := by
  intro ending ts hlen ho
  cases ts with
  | nil => exact absurd ho (by simp)
  | cons t ts =>
    have ht : t.kind = .identifier := Option.some.inj ho
    have hts : ts.length < N := by simpa using hlen
    by_cases hk : look ts = some k
    · exact hp.outcome_left hq hr hts ht hk
    · rcases ending.clear_or_broken ts with hc | ⟨rfl, e, rfl⟩
      · exact hp.outcome_right hq h h' hA hf hone hts ht hc hk
      · obtain ⟨d, hd⟩ := hone t ht
        have hended : Outcome (N + 1) (.alt (.seq (.token [.identifier]) g) f)
            (Sum.elim (fun x => w (Token.identifier x.1) x.2) v) q (.broken e) [t]
            (.error (.lexical e)) :=
          .ended .expression ⟨.right d, hd ▸ List.prefix_rfl⟩ (hq.broken e t ht)
        rw [hp.broken e t ht]
        exact hended

theorem Forks.parses [Inhabited α] (hp : Forks k p r p₂)
    (hq : Forks k q r' q₂) (hr : ∀ b, Parses N Anything g (w b) A (r b) (r' b))
    (h : Parses (N + 1) (· = some .identifier) f v A p₂ q₂) (hA : A none)
    (hg : g.nullable = false) (hstarts : ∀ k' ∈ g.starts, k' = k) (hf : f.nullable = false)
    (hseconds : k ∉ f.seconds) (hB : ∀ o, B o → A o ∧ o ≠ some k)
    (hone : ∀ t : Token α, t.kind = .identifier → ∃ d : Derivation α f, d.yield = [t]) :
    Parses (N + 1) (· = some .identifier) (.alt (.seq (.token [.identifier]) g) f)
      (Sum.elim (fun x => w (Token.identifier x.1) x.2) v) B p q :=
  ⟨hp.reads hq (fun b => (hr b).reads) h.reads h.accepts' hA hf hone,
    hp.accepts (fun b => (hr b).accepts) h.accepts hg hstarts hf hseconds hB,
    hq.accepts (fun b => (hr b).accepts') h.accepts' hg hstarts hf hseconds hB⟩

end Forks

end Parser

end Scriptlet
