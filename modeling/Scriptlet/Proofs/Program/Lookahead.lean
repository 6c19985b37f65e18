import Scriptlet.Proofs.Grammar.Choice
import Scriptlet.Proofs.Token.Lookahead

/-!
Parsing a text while it is read. A parser is given the tokens of a text and how they end; a reader
with lookahead has read no more of them than it was asked to show. What waits in its queue and what
its cursor would read are the tokens left. Seen so, every way to look at tokens or to take one comes
to the same in both, and so does what is put together from these.
-/

namespace Scriptlet

theorem Cursor.read_of_finished {c d : Cursor} (h : c.read = (.finished, d)) :
    d.read = (.finished, d) := by
  unfold read at h
  simp only at h
  split at h
  · rename_i hrest
    obtain rfl : c.skipBlanks = d := (Prod.mk.inj h).2
    generalize c.skipBlanks = d at hrest ⊢
    obtain ⟨file, rest, position⟩ := d
    cases hrest
    rfl
  · rename_i x xs hrest
    cases he : Scan.start x xs <;> simp [he, follow] at h

theorem TokenStream.ofCursor_eq (c : Cursor) : ofCursor c = match c.read with
    | (.finished, d) => ⟨[], .complete d.location⟩
    | (.token t, d) => (ofCursor d).cons t
    | (.fault e, _) => ⟨[], .broken e⟩ := by
  rw [ofCursor]
  split <;> simp [*]

namespace Parser

variable {α : Type}

/-- The kind of the `k`-th token, counted from one. -/
def peekAt (k : Nat) : Parser α (Option TokenKind) := fun ending ts =>
  match ts[k - 1]? with
  | some t => .ok (some t.kind, ts)
  | none => match ending with
    | .complete _ => .ok (none, ts)
    | .broken e => .error (.lexical e)

theorem peek_eq : (peek : Parser α _) = peekAt 1 := by
  funext ending ts
  cases ts with
  | nil => cases ending <;> rfl
  | cons t ts => cases ending <;> rfl

theorem peekSecond_eq : (peekSecond : Parser α _) = peekAt 2 := by
  funext ending ts
  rcases ts with - | ⟨t, - | ⟨u, ts⟩⟩
  · cases ending <;> rfl
  · cases ending <;> rfl
  · cases ending <;> rfl

end Parser

namespace Lookahead

/-! ### The tokens left -/

variable {r s : Lookahead} {n k : Nat}

/-- The tokens not yet taken, and how they end. -/
def stream (r : Lookahead) : TokenStream Location :=
  ⟨r.queue ++ (TokenStream.ofCursor r.cursor).tokens, (TokenStream.ofCursor r.cursor).ending⟩

/-- A reader that has reported the end of the text stands there. -/
def Settled (r : Lookahead) : Prop := r.exhausted → r.cursor.read = (.finished, r.cursor)

theorem settled_of_not_exhausted (h : ¬ r.exhausted) : r.Settled := fun hex => absurd hex h

theorem settled_ofText (text file : String) : (ofText text file).Settled :=
  settled_of_not_exhausted Bool.false_ne_true

theorem stream_ofText (text file : String) :
    (ofText text file).stream = TokenStream.ofText text file := rfl

theorem Settled.stream_eq (hr : r.Settled) (h : r.exhausted) :
    r.stream = ⟨r.queue, .complete r.location⟩ := by
  simp [stream, TokenStream.ofCursor_eq r.cursor, hr h, location]

/-- What looking for `n` tokens in `r` comes to: they wait, or the text has ended; or there is a
fault before the last of them. -/
inductive Looked (r : Lookahead) (n : Nat) :
    Except (LexicalError Location) Unit × Lookahead → Prop
  | fine {s : Lookahead} (settled : s.Settled) (same : s.stream = r.stream)
    (enough : s.exhausted ∨ n ≤ s.queue.length) : Looked r n (.ok (), s)
  | fault {e : LexicalError Location} {s : Lookahead} (before : r.stream = ⟨s.queue, .broken e⟩)
    (short : s.queue.length < n) : Looked r n (.error e, s)

theorem Looked.congr {x : Except (LexicalError Location) Unit × Lookahead} (h : s.Looked n x)
    (hstream : s.stream = r.stream) : r.Looked n x := by
  cases h with
  | fine settled same enough => exact .fine settled (same.trans hstream) enough
  | fault before short => exact .fault (hstream.symm.trans before) short

theorem Settled.readAhead (hr : r.Settled) (n : Nat) :
    r.Looked (r.queue.length + n) (r.readAhead n) := by
  induction n generalizing r with
  | zero => exact .fine hr rfl (.inr (Nat.le_refl _))
  | succ n ih =>
    rw [Lookahead.readAhead]
    by_cases hex : r.exhausted
    · rw [if_pos hex]
      exact .fine hr rfl (.inl hex)
    · rw [if_neg hex]
      have hunread := TokenStream.ofCursor_eq r.cursor
      split
      · rename_i c hread
        have hc := Cursor.read_of_finished hread
        refine .fine (fun _ => hc) ?_ (.inl rfl)
        rw [stream, stream, hunread, hread, TokenStream.ofCursor_eq c, hc]
      · rename_i t c hread
        -- The token goes from the text to the end of the queue.
        rw [hread] at hunread
        have hstream : stream ⟨c, r.queue ++ [t], false⟩ = r.stream := by
          simp [stream, hunread, TokenStream.cons]
        have hlength : (r.queue ++ [t]).length + n = r.queue.length + (n + 1) := by
          rw [List.length_append, List.length_singleton]
          omega
        have hrest := ih (r := ⟨c, r.queue ++ [t], false⟩)
          (settled_of_not_exhausted Bool.false_ne_true)
        rw [hlength] at hrest
        exact hrest.congr hstream
      · rename_i e c hread
        rw [hread] at hunread
        exact .fault (by simp [stream, hunread]) (by simp)

theorem Settled.fill (hr : r.Settled) (k : Nat) : r.Looked k (r.fill k) := by
  have hread := hr.readAhead (k - r.queue.length)
  rw [Lookahead.fill]
  by_cases hk : k ≤ r.queue.length
  · rw [Nat.sub_eq_zero_of_le hk]
    exact .fine hr rfl (.inr hk)
  · rwa [Nat.add_sub_cancel' (by omega)] at hread

/-! ### Parsing while reading -/

/-- What is done with a reader until the first error. -/
abbrev Action := ExceptT (ParseError Location) (StateM Lookahead)

namespace Action

variable {β γ : Type} {x : Action β} {p : Parser Location β}

def peekKind (k : Nat) : Action (Option TokenKind) := fun r =>
  ((r.peekKind k).1.mapError .lexical, (r.peekKind k).2)

def next : Action (Token Location) := Lookahead.next

/-- The text has ended where something else was wanted. -/
def endOfInput (wanted : Expectation) : Action β := fun r =>
  (.error (.syntactic ⟨.endOfInput (some wanted), r.location⟩), r)

def expect (kind : TokenKind) : Action (Token Location) := do
  if (← peekKind 1).isNone then
    endOfInput (.token kind)
  else
    let t ← next
    if t.kind = kind then return t else throw (t.error (.token kind))

def refuse (wanted : Expectation) : Action β := do
  if (← peekKind 1).isNone then
    endOfInput wanted
  else
    throw ((← next).error wanted)

def identifier : Action (Identifier Location) := do
  let t ← expect .identifier
  return ⟨t.lexeme, t.location⟩

def nextIs (kind : TokenKind) : Action Bool := do
  return (← peekKind 1) = some kind

def accept (kind : TokenKind) : Action Bool := do
  if ← nextIs kind then
    let _ ← next
    return true
  else
    return false

def operator (ops : TokenKind → Option BinaryOp) : Action (Option (BinaryOp × Location)) := do
  match (← peekKind 1).bind ops with
  | some op => return some (op, (← next).location)
  | none => return none

/-- What a reader comes to is what the parser comes to on the tokens left. -/
inductive AnswersAs (p : Parser Location β) (r : Lookahead) :
    Except (ParseError Location) β × Lookahead → Prop
  | ok {b : β} {s : Lookahead} (settled : s.Settled) (ending : s.stream.ending = r.stream.ending)
    (read : p r.stream.ending r.stream.tokens = .ok (b, s.stream.tokens)) : AnswersAs p r (.ok b, s)
  | error {e : ParseError Location} {s : Lookahead}
    (read : p r.stream.ending r.stream.tokens = .error e) : AnswersAs p r (.error e, s)

/-- The action does to any reader what the parser does to the tokens left in it. -/
def Mirrors (x : Action β) (p : Parser Location β) : Prop :=
  ∀ r : Lookahead, r.Settled → AnswersAs p r (x.run.run r)

theorem mirrors_pure (b : β) : Mirrors (pure b) (pure b) := fun _ hr => .ok hr rfl rfl

theorem run_bind (x : Action β) (f : β → Action γ) (r : Lookahead) :
    (x >>= f).run.run r = match x.run.run r with
      | (.ok b, s) => (f b).run.run s
      | (.error e, s) => (.error e, s) := by
  change (match x r with | (a, s) => ExceptT.bindCont f a s) = match x r with
    | (.ok b, s) => (f b) s
    | (.error e, s) => (.error e, s)
  obtain ⟨_ | _, s⟩ := x r <;> rfl

theorem Mirrors.bind {f : β → Action γ} {k : β → Parser Location γ} (h : Mirrors x p)
    (hf : ∀ b, Mirrors (f b) (k b)) : Mirrors (x >>= f) (p >>= k) := by
  intro r hr
  have hx := h r hr
  rw [run_bind]
  generalize x.run.run r = a at hx ⊢
  cases hx with
  | error read => exact .error (Parser.bind_of_error read)
  | @ok b s settled ending read =>
    have hrest := hf b s settled
    have hbind : (p >>= k) r.stream.ending r.stream.tokens =
        k b s.stream.ending s.stream.tokens := by
      rw [Parser.bind_of_ok read, ending]
    simp only
    generalize (f b).run.run s = a at hrest ⊢
    cases hrest with
    | ok settled' ending' read' => exact .ok settled' (ending'.trans ending) (hbind.trans read')
    | error read' => exact .error (hbind.trans read')

theorem AnswersAs.congr {a : Except (ParseError Location) β × Lookahead} (h : AnswersAs p s a)
    (hstream : s.stream = r.stream) : AnswersAs p r a := by
  cases h with
  | ok settled ending read => exact .ok settled (hstream ▸ ending) (hstream ▸ read)
  | error read => exact .error (hstream ▸ read)

/-! ### Looking at tokens -/

theorem run_peekKind (hk : 0 < k) (r : Lookahead) :
    (peekKind k).run.run r = match r.fill k with
      | (.ok _, s) => (.ok (s.queue[k - 1]?.map Token.kind), s)
      | (.error e, s) => (.error (.lexical e), s) := by
  have hmax : max k 1 = k := Nat.max_eq_left hk
  change ((r.peekKind k).1.mapError _, (r.peekKind k).2) = _
  rw [peekKind_eq, peek_eq, hmax]
  obtain ⟨_ | _, s⟩ := r.fill k <;> rfl

theorem mirrors_peekKind (hk : 0 < k) : Mirrors (peekKind k) (Parser.peekAt k) := by
  intro r hr
  have hlooked := hr.fill k
  rw [run_peekKind hk]
  generalize r.fill k = a at hlooked ⊢
  cases hlooked with
  | @fine s settled same enough =>
    refine .ok settled (congrArg TokenStream.ending same) ?_
    rw [← same]
    cases hqueue : s.queue[k - 1]? with
    | some t =>
      have htoken : s.stream.tokens[k - 1]? = some t := by
        rw [stream, List.getElem?_append_left (List.getElem?_eq_some_iff.mp hqueue).1, hqueue]
      simp only [Parser.peekAt, htoken, Option.map_some]
    | none =>
      -- The text has ended, so the queue is all that is left.
      have hshort := List.getElem?_eq_none_iff.mp hqueue
      have hstream := settled.stream_eq (enough.resolve_right (by omega))
      simp only [Parser.peekAt, hstream, hqueue, Option.map_none]
  | @fault e s before short =>
    have hqueue : s.queue[k - 1]? = none := List.getElem?_eq_none (by omega)
    refine .error ?_
    simp only [before, Parser.peekAt, hqueue]

theorem mirrors_peek : Mirrors (peekKind 1) Parser.peek := by
  rw [Parser.peek_eq]
  exact mirrors_peekKind Nat.one_pos

theorem mirrors_peekSecond : Mirrors (peekKind 2) Parser.peekSecond := by
  rw [Parser.peekSecond_eq]
  exact mirrors_peekKind Nat.two_pos

/-- After a look at the next token, a token waits or the text has ended. -/
theorem Mirrors.look {f : Option TokenKind → Action β}
    (htoken : ∀ r t ts, r.Settled → r.queue = t :: ts →
      AnswersAs p r ((f (some t.kind)).run.run r))
    (hend : ∀ r, r.Settled → r.exhausted → r.queue = [] → AnswersAs p r ((f none).run.run r))
    (hbroken : ∀ e, p (.broken e) [] = .error (.lexical e)) : Mirrors (peekKind 1 >>= f) p := by
  intro r hr
  have hlooked := hr.fill 1
  rw [run_bind, run_peekKind Nat.one_pos]
  generalize r.fill 1 = a at hlooked ⊢
  cases hlooked with
  | @fine s settled same enough =>
    refine .congr ?_ same
    cases hqueue : s.queue with
    | nil =>
      have hended := enough.resolve_right (by simp [hqueue])
      simpa [hqueue] using hend s settled hended hqueue
    | cons t ts => simpa [hqueue] using htoken s t ts settled hqueue
  | @fault e s before short =>
    have hqueue : s.queue = [] := List.length_eq_zero_iff.mp (by omega)
    refine .error ?_
    rw [before, hqueue]
    exact hbroken e

/-! ### Taking tokens -/

section

variable {t : Token Location} {ts : List (Token Location)}

theorem run_next_bind (hqueue : r.queue = t :: ts) (f : Token Location → Action β) :
    (next >>= f).run.run r = (f t).run.run ⟨r.cursor, ts, r.exhausted⟩ := by
  have hnext : next.run.run r = (.ok t, ⟨r.cursor, ts, r.exhausted⟩) := next_of_queue hqueue
  rw [run_bind, hnext]

theorem stream_of_queue (hqueue : r.queue = t :: ts) :
    r.stream = (stream ⟨r.cursor, ts, r.exhausted⟩).cons t := by
  rw [stream, hqueue]
  rfl

/-! How a parser answers where a token `t` waits. -/

theorem answersAs_taken (hr : r.Settled) (hqueue : r.queue = t :: ts) {b : β}
    (h : ∀ ending us, p ending (t :: us) = .ok (b, us)) :
    AnswersAs p r (.ok b, ⟨r.cursor, ts, r.exhausted⟩) := by
  have hstream := stream_of_queue hqueue
  refine .ok hr (by rw [hstream]; rfl) ?_
  rw [hstream]
  exact h _ _

theorem answersAs_left (hr : r.Settled) (hqueue : r.queue = t :: ts) {b : β}
    (h : ∀ ending us, p ending (t :: us) = .ok (b, t :: us)) : AnswersAs p r (.ok b, r) := by
  refine .ok hr rfl ?_
  rw [stream_of_queue hqueue]
  exact h _ _

theorem answersAs_refused (hqueue : r.queue = t :: ts) {e : ParseError Location}
    (h : ∀ ending us, p ending (t :: us) = .error e) : AnswersAs p r (.error e, s) := by
  refine .error ?_
  rw [stream_of_queue hqueue]
  exact h _ _

end

theorem answersAs_end (hr : r.Settled) (hended : r.exhausted) (hqueue : r.queue = [])
    {wanted : Expectation}
    (h : ∀ l, p (.complete l) [] = .error (.syntactic ⟨.endOfInput (some wanted), l⟩)) :
    AnswersAs p r ((endOfInput wanted : Action β).run.run r) := by
  refine .error ?_
  rw [hr.stream_eq hended, hqueue]
  exact h _

theorem answersAs_nothing (hr : r.Settled) (hended : r.exhausted) (hqueue : r.queue = []) {b : β}
    (h : ∀ l, p (.complete l) [] = .ok (b, [])) : AnswersAs p r (.ok b, r) := by
  refine .ok hr rfl ?_
  rw [hr.stream_eq hended, hqueue]
  exact h _

theorem mirrors_expect (kind : TokenKind) : Mirrors (expect kind) (Parser.expect kind) := by
  refine .look (fun r t ts hr hqueue => ?_) (fun r hr hended hqueue => ?_) fun e => rfl
  · change AnswersAs _ r ((next >>= _).run.run r)
    rw [run_next_bind hqueue]
    by_cases hkind : t.kind = kind
    · rw [if_pos hkind]
      exact answersAs_taken hr hqueue fun _ _ => if_pos hkind
    · rw [if_neg hkind]
      exact answersAs_refused hqueue fun _ _ => if_neg hkind
  · exact answersAs_end hr hended hqueue fun _ => rfl

theorem mirrors_refuse (wanted : Expectation) :
    Mirrors (refuse wanted : Action β) (Parser.refuse wanted) := by
  refine .look (fun r t ts hr hqueue => ?_) (fun r hr hended hqueue => ?_) fun e => rfl
  · change AnswersAs _ r ((next >>= _).run.run r)
    rw [run_next_bind hqueue]
    exact answersAs_refused hqueue fun _ _ => rfl
  · exact answersAs_end hr hended hqueue fun _ => rfl

theorem mirrors_operator (ops : TokenKind → Option BinaryOp) :
    Mirrors (operator ops) (Parser.operator ops) := by
  refine .look (fun r t ts hr hqueue => ?_) (fun r hr hended hqueue => ?_) fun e => rfl
  · rw [Option.bind_some]
    cases hop : ops t.kind with
    | none =>
      refine answersAs_left hr hqueue fun ending us => ?_
      cases ending <;> simp [Parser.operator, hop]
    | some op =>
      change AnswersAs _ r ((next >>= _).run.run r)
      rw [run_next_bind hqueue]
      refine answersAs_taken hr hqueue fun ending us => ?_
      cases ending <;> simp [Parser.operator, hop]
  · exact answersAs_nothing hr hended hqueue fun _ => rfl

theorem mirrors_identifier : Mirrors identifier Parser.identifier :=
  (mirrors_expect .identifier).bind fun _ => mirrors_pure _

theorem mirrors_nextIs (kind : TokenKind) : Mirrors (nextIs kind) (Parser.nextIs kind) :=
  mirrors_peek.bind fun _ => mirrors_pure _

theorem mirrors_accept (kind : TokenKind) : Mirrors (accept kind) (Parser.accept kind) := by
  have hlook : accept kind = peekKind 1 >>= fun seen =>
      if seen = some kind then next >>= fun _ => pure true else pure false := by
    simp [accept, nextIs]
  rw [hlook]
  refine .look (fun r t ts hr hqueue => ?_) (fun r hr hended hqueue => ?_) fun e => rfl
  · by_cases hkind : t.kind = kind
    · rw [if_pos (congrArg some hkind), run_next_bind hqueue]
      exact answersAs_taken hr hqueue (Parser.accept_of_kind hkind)
    · have hother : some t.kind ≠ some kind := fun h => hkind (Option.some.inj h)
      rw [if_neg hother]
      exact answersAs_left hr hqueue fun ending us =>
        Parser.accept_of_look (ending.clear_cons t us) hother
  · exact answersAs_nothing hr hended hqueue fun _ => rfl

/-- What is done with the reader of a text comes to what a parser of all its tokens comes to. -/
theorem Mirrors.answer_eq (h : Mirrors x p) (text file : String) :
    (x.run.run (ofText text file)).1 =
      (p (TokenStream.ofText text file).ending (TokenStream.ofText text file).tokens).map
        Prod.fst := by
  have hanswer := h _ (settled_ofText text file)
  rw [← stream_ofText]
  generalize x.run.run (ofText text file) = a at hanswer ⊢
  cases hanswer with
  | ok settled ending read => rw [read]; rfl
  | error read => rw [read]; rfl

end Action

end Lookahead

end Scriptlet
