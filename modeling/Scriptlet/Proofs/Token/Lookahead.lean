import Scriptlet.Token.Lookahead

/-!
A reader with lookahead is the plain sequence of readings with a queue in between. Whatever is
asked of it and in which order, the tokens taken and those that wait are the tokens read so far, and
every lexical error on the way is reported once.
-/

namespace Scriptlet

def Reading.token? : Reading → Option (Token Location)
  | .token t => some t
  | _ => none

def Reading.fault? : Reading → Option (LexicalError Location)
  | .fault e => some e
  | _ => none

namespace Cursor

/-- The first `n` readings; fewer if the end of the text is reported before. A cursor that stands
before a character that opens no token meets it again and again. -/
def readings : Nat → Cursor → List Reading
  | 0, _ => []
  | n + 1, c => match c.read with
    | (.finished, _) => []
    | (x, d) => x :: readings n d

/-- The readings `xs`, none of them the end of the text, lead from one cursor to the other. -/
inductive Reads : Cursor → List Reading → Cursor → Prop
  | nil (c : Cursor) : Reads c [] c
  | cons {c d e : Cursor} {x : Reading} {xs : List Reading} (hread : c.read = (x, d))
    (hx : x ≠ .finished) (h : Reads d xs e) : Reads c (x :: xs) e

namespace Reads

variable {c d e : Cursor} {x : Reading} {xs : List Reading}

theorem readings_eq (h : Reads c xs d) : c.readings xs.length = xs := by
  induction h with
  | nil c => rfl
  | @cons c d e x xs hread hx h ih =>
    simp only [List.length_cons, readings, hread]
    cases x with
    | finished => exact absurd rfl hx
    | token t => rw [ih]
    | fault e => rw [ih]

theorem snoc (h : Reads c xs d) (hread : d.read = (x, e)) (hx : x ≠ .finished) :
    Reads c (xs ++ [x]) e := by
  induction h with
  | nil c => exact .cons hread hx (.nil e)
  | cons hread' hx' h ih => exact .cons hread' hx' (ih hread)

end Reads

end Cursor

namespace Lookahead

inductive Use
  | next
  | peek (k : Nat)
  | peekKind (k : Nat)
  | location
deriving DecidableEq

inductive Reply
  | next (r : Except (ParseError Location) (Token Location))
  | peek (r : Except (LexicalError Location) (Option (Token Location)))
  | peekKind (r : Except (LexicalError Location) (Option TokenKind))
  | location (l : Location)

def perform (r : Lookahead) : Use → Reply × Lookahead
  | .next => (.next r.next.1, r.next.2)
  | .peek k => (.peek (r.peek k).1, (r.peek k).2)
  | .peekKind k => (.peekKind (r.peekKind k).1, (r.peekKind k).2)
  | .location => (.location r.location, r)

def run (r : Lookahead) : List Use → List Reply × Lookahead
  | [] => ([], r)
  | u :: us => ((r.perform u).1 :: ((r.perform u).2.run us).1, ((r.perform u).2.run us).2)

namespace Reply

def next? : Reply → Option (Except (ParseError Location) (Token Location))
  | next r => some r
  | _ => none

def taken? : Reply → Option (Token Location)
  | next (.ok t) => some t
  | _ => none

def fault? : Reply → Option (LexicalError Location)
  | next (.error (.lexical e)) => some e
  | peek (.error e) => some e
  | peekKind (.error e) => some e
  | _ => none

end Reply

/-- What the calls for the next token among some uses come to. -/
def answers (r : Lookahead) (us : List Use) :
    List (Except (ParseError Location) (Token Location)) := (r.run us).1.filterMap Reply.next?

def faultOf {β : Type} : Except (LexicalError Location) β → List (LexicalError Location)
  | .ok _ => []
  | .error e => [e]

/-! ### Reading ahead -/

variable {r : Lookahead} {n k : Nat}

theorem readAhead_of_exhausted (h : r.exhausted = true) (n : Nat) :
    r.readAhead n = (.ok (), r) := by
  cases n with
  | zero => rfl
  | succ n => simp [readAhead, h]

theorem queue_readAhead (n : Nat) (r : Lookahead) : r.queue <+: (r.readAhead n).2.queue := by
  induction n generalizing r with
  | zero => exact List.prefix_refl _
  | succ n ih =>
    unfold readAhead
    split
    · exact List.prefix_refl _
    · split
      · exact List.prefix_refl _
      · rename_i t c hread
        exact (List.prefix_append r.queue [t]).trans (ih ⟨c, r.queue ++ [t], false⟩)
      · exact List.prefix_refl _

/-- Without a fault, as many tokens are read as were asked for, unless the text has ended. -/
theorem readAhead_ok (h : (r.readAhead n).1 = .ok ()) :
    (r.readAhead n).2.exhausted = true ∨
      (r.readAhead n).2.queue.length = r.queue.length + n := by
  induction n generalizing r with
  | zero => exact .inr rfl
  | succ n ih =>
    unfold readAhead at h ⊢
    split
    · rename_i hex
      exact .inl hex
    · rename_i hex
      simp only [hex] at h
      split
      · exact .inl rfl
      · rename_i t c hread
        simp only [hread] at h
        have hrest := ih h
        simp only [List.length_append, List.length_singleton] at hrest
        have hsum : r.queue.length + 1 + n = r.queue.length + (n + 1) := by omega
        rwa [hsum] at hrest
      · rename_i e c hread
        simp only [hread] at h
        cases h

theorem next_of_queue {t : Token Location} {ts : List (Token Location)} (h : r.queue = t :: ts) :
    r.next = (.ok t, ⟨r.cursor, ts, r.exhausted⟩) := by
  simp [next, fill, h, readAhead]

theorem next_split (r : Lookahead) :
    (Reply.next r.next.1).fault?.toList = faultOf (r.fill 1).1 ∧
      (Reply.next r.next.1).taken?.toList ++ r.next.2.queue = (r.fill 1).2.queue ∧
      r.next.2.cursor = (r.fill 1).2.cursor ∧ r.next.2.exhausted = (r.fill 1).2.exhausted := by
  unfold next
  obtain ⟨e | _, ⟨cursor, _ | ⟨t, ts⟩, exhausted⟩⟩ := r.fill 1 <;> exact ⟨rfl, rfl, rfl, rfl⟩

theorem peek_eq (r : Lookahead) (k : Nat) : r.peek k =
    ((r.fill (max k 1)).1.map fun _ => (r.fill (max k 1)).2.queue[max k 1 - 1]?,
      (r.fill (max k 1)).2) := by
  unfold peek
  cases r.fill (max k 1) with
  | mk answer s => cases answer <;> rfl

theorem peekKind_eq (r : Lookahead) (k : Nat) :
    r.peekKind k = ((r.peek k).1.map (Option.map Token.kind), (r.peek k).2) := by
  unfold peekKind
  cases r.peek k with
  | mk answer s => cases answer <;> rfl

/-! ### The queue and the readings -/

/-- After the readings `xs` from `c` the tokens taken and those that wait are the ones read, and the
faults are those reported. -/
structure Follows (c : Cursor) (taken : List (Token Location))
    (faults : List (LexicalError Location)) (xs : List Reading) (r : Lookahead) : Prop where
  reads : ∃ d, Cursor.Reads c xs d ∧
    if r.exhausted then d.read = (.finished, r.cursor) else r.cursor = d
  tokens : taken ++ r.queue = xs.filterMap Reading.token?
  faults : faults = xs.filterMap Reading.fault?

variable {c : Cursor} {taken : List (Token Location)} {faults : List (LexicalError Location)}
  {xs : List Reading}

theorem Follows.noFault (h : Follows c taken faults xs r) :
    Follows c taken (faults ++ []) xs r := by rwa [List.append_nil]

theorem Follows.readAhead (h : Follows c taken faults xs r) (n : Nat) :
    ∃ ys, Follows c taken (faults ++ faultOf (r.readAhead n).1) ys (r.readAhead n).2 := by
  induction n generalizing r xs with
  | zero => exact ⟨xs, h.noFault⟩
  | succ n ih =>
    obtain ⟨d, hreads, hcursor⟩ := h.reads
    unfold Lookahead.readAhead
    split
    · exact ⟨xs, h.noFault⟩
    · rename_i hexhausted
      rw [if_neg hexhausted] at hcursor
      subst hcursor
      split
      · rename_i d hread
        have hended : Follows c taken faults xs ⟨d, r.queue, true⟩ :=
          ⟨⟨r.cursor, hreads, hread⟩, h.tokens, h.faults⟩
        exact ⟨xs, hended.noFault⟩
      · rename_i t d hread
        -- The token is one more reading, and it waits at the end of the queue.
        refine ih ⟨⟨d, hreads.snoc hread (by simp), rfl⟩, ?_, ?_⟩
        · rw [← List.append_assoc, h.tokens, List.filterMap_append]
          rfl
        · rw [h.faults, List.filterMap_append]
          exact (List.append_nil _).symm
      · rename_i e d hread
        -- The fault is one more reading, and what was read before it stays in the queue.
        refine ⟨xs ++ [.fault e], ⟨d, hreads.snoc hread (by simp), rfl⟩, ?_, ?_⟩
        · rw [h.tokens, List.filterMap_append]
          exact (List.append_nil _).symm
        · rw [h.faults, List.filterMap_append]
          rfl

theorem Follows.peek (h : Follows c taken faults xs r) (k : Nat) :
    ∃ ys, Follows c (taken ++ (r.perform (.peek k)).1.taken?.toList)
      (faults ++ (r.perform (.peek k)).1.fault?.toList) ys (r.perform (.peek k)).2 := by
  obtain ⟨ys, hys⟩ := h.readAhead (max k 1 - r.queue.length)
  refine ⟨ys, ?_⟩
  have hfault : (r.perform (.peek k)).1.fault?.toList =
      faultOf (r.readAhead (max k 1 - r.queue.length)).1 := by
    simp only [Lookahead.perform, peek_eq, fill]
    cases (r.readAhead (max k 1 - r.queue.length)).1 <;> rfl
  rw [hfault]
  simp only [Lookahead.perform, peek_eq, fill, Reply.taken?, Option.toList_none, List.append_nil]
  exact hys

theorem Follows.perform (h : Follows c taken faults xs r) (u : Use) :
    ∃ ys, Follows c (taken ++ (r.perform u).1.taken?.toList)
      (faults ++ (r.perform u).1.fault?.toList) ys (r.perform u).2 := by
  cases u with
  | next =>
    obtain ⟨ys, ⟨d, hreads, hcursor⟩, htokens, hfaults⟩ := h.readAhead (1 - r.queue.length)
    obtain ⟨hfault, hqueue, hsame, hexhausted⟩ := r.next_split
    refine ⟨ys, ⟨d, hreads, ?_⟩, ?_, ?_⟩
    · simp only [Lookahead.perform, hsame, hexhausted]
      exact hcursor
    · simp only [Lookahead.perform, List.append_assoc, hqueue]
      exact htokens
    · simp only [Lookahead.perform, hfault]
      exact hfaults
  | peek k => exact h.peek k
  | peekKind k =>
    obtain ⟨ys, hys⟩ := h.peek k
    refine ⟨ys, ?_⟩
    have hfault : (r.perform (.peekKind k)).1.fault? = (r.perform (.peek k)).1.fault? := by
      simp only [Lookahead.perform, peekKind_eq]
      cases (r.peek k).1 <;> rfl
    rw [hfault]
    simp only [Lookahead.perform, peekKind_eq]
    exact hys
  | location =>
    refine ⟨xs, h.reads, ?_, ?_⟩
    · rw [← h.tokens]
      simp [Lookahead.perform, Reply.taken?]
    · rw [← h.faults]
      exact List.append_nil _

theorem Follows.run (h : Follows c taken faults xs r) (us : List Use) :
    ∃ ys, Follows c (taken ++ (r.run us).1.filterMap Reply.taken?)
      (faults ++ (r.run us).1.filterMap Reply.fault?) ys (r.run us).2 := by
  induction us generalizing r taken faults xs with
  | nil =>
    refine ⟨xs, ?_⟩
    simpa only [Lookahead.run, List.filterMap_nil, List.append_nil] using h
  | cons u us ih =>
    obtain ⟨ys, hys⟩ := h.perform u
    obtain ⟨zs, hzs⟩ := ih hys
    refine ⟨zs, ?_⟩
    have hfilter : ∀ {β : Type} (f : Reply → Option β) (x : Reply) (xs : List Reply),
        (x :: xs).filterMap f = (f x).toList ++ xs.filterMap f := by
      intro β f x xs
      cases hx : f x <;> simp [hx]
    simpa only [Lookahead.run, hfilter, List.append_assoc] using hzs

/-! ### Calls for the next token -/

theorem queue_perform {u : Use} (hu : u ≠ .next) : r.queue <+: (r.perform u).2.queue := by
  cases u with
  | next => exact absurd rfl hu
  | peek k =>
    simp only [perform, peek_eq]
    exact queue_readAhead _ r
  | peekKind k =>
    simp only [perform, peekKind_eq, peek_eq]
    exact queue_readAhead _ r
  | location => exact List.prefix_refl _

theorem answers_cons {u : Use} (hu : u ≠ .next) (us : List Use) :
    r.answers (u :: us) = (r.perform u).2.answers us := by
  cases u with
  | next => exact absurd rfl hu
  | _ => rfl

/-- Tokens that wait are the next ones to be taken, whatever else is asked. -/
theorem answers_queue (us : List Use) (r : Lookahead) :
    (r.answers us).take r.queue.length = (r.queue.map Except.ok).take (us.count Use.next) := by
  induction us generalizing r with
  | nil => simp [answers, run]
  | cons u us ih =>
    by_cases hu : u = .next
    · subst hu
      cases hqueue : r.queue with
      | nil => simp
      | cons t ts =>
        have hnext := next_of_queue hqueue
        have hrest := ih ⟨r.cursor, ts, r.exhausted⟩
        simp only [answers, run, perform, hnext, List.filterMap_cons, Reply.next?,
          List.count_cons_self, List.length_cons, List.take_succ_cons, List.map_cons] at hrest ⊢
        rw [hrest]
    · -- The use may make the queue longer, but only at its end.
      obtain ⟨more, hmore⟩ := queue_perform (r := r) hu
      have hrest := congrArg (List.take r.queue.length) (ih (r.perform u).2)
      rw [answers_cons hu, List.count_cons_of_ne hu]
      rw [← hmore, List.take_take, List.length_append,
        Nat.min_eq_left (Nat.le_add_right _ _)] at hrest
      rw [hrest, List.map_append, List.take_take, Nat.min_comm, ← List.take_take]
      simp

/-- The syntax error of a reader that has come to the end of the text. -/
def endError (r : Lookahead) : ParseError Location :=
  .syntactic ⟨.endOfInput none, r.location⟩

/-- At the end of the text, no call succeeds once the queue is empty. -/
theorem answers_exhausted (us : List Use) (r : Lookahead) (h : r.exhausted = true) :
    r.answers us = (r.queue.map Except.ok).take (us.count Use.next) ++
      List.replicate (us.count Use.next - r.queue.length) (.error r.endError) := by
  induction us generalizing r with
  | nil => simp [answers, run]
  | cons u us ih =>
    by_cases hu : u = .next
    · subst hu
      have hfill : r.fill 1 = (.ok (), r) := readAhead_of_exhausted h _
      cases hqueue : r.queue with
      | nil =>
        have hnext : r.next = (.error r.endError, r) := by
          simp [Lookahead.next, hfill, hqueue, endError, location]
        have hrest := ih r h
        simp only [answers, run, perform, hnext, List.filterMap_cons, Reply.next?,
          List.count_cons_self, hqueue] at hrest ⊢
        rw [hrest]
        simp [List.replicate_succ]
      | cons t ts =>
        have hnext := next_of_queue hqueue
        have hrest := ih ⟨r.cursor, ts, r.exhausted⟩ h
        have herror : endError ⟨r.cursor, ts, r.exhausted⟩ = r.endError := rfl
        simp only [answers, run, perform, hnext, List.filterMap_cons, Reply.next?,
          List.count_cons_self, herror] at hrest ⊢
        rw [hrest]
        simp
    · have hsame : (r.perform u).2 = r := by
        cases u with
        | next => exact absurd rfl hu
        | peek k => simp only [perform, peek_eq, fill, readAhead_of_exhausted h]
        | peekKind k => simp only [perform, peekKind_eq, peek_eq, fill, readAhead_of_exhausted h]
        | location => rfl
      rw [answers_cons hu, List.count_cons_of_ne hu, hsame]
      exact ih r h

theorem peek_some {t : Token Location} (h : (r.peek k).1 = .ok (some t)) :
    (r.peek k).2.queue[max k 1 - 1]? = some t := by
  rw [peek_eq] at h ⊢
  cases hfill : (r.fill (max k 1)).1 with
  | error e =>
    rw [hfill] at h
    cases h
  | ok _ =>
    rw [hfill] at h
    exact Except.ok.inj h

theorem peek_none (h : (r.peek k).1 = .ok none) :
    (r.peek k).2.exhausted = true ∧ (r.peek k).2.queue.length < max k 1 := by
  rw [peek_eq] at h ⊢
  cases hfill : (r.fill (max k 1)).1 with
  | error e =>
    rw [hfill] at h
    cases h
  | ok _ =>
    rw [hfill] at h
    have hlength := List.getElem?_eq_none_iff.mp (Except.ok.inj h)
    refine ⟨?_, by simp only; omega⟩
    rcases readAhead_ok hfill with hex | hall
    · exact hex
    · simp only [fill] at hlength
      omega

/-- Whatever is asked of a reader, it goes through the readings of its text in order: the tokens
taken and those that wait are the tokens of the first `m` readings, and the faults of these are
reported, each once. A token looked at is the one taken when its turn comes, and where there was
none to look at, there will be none. -/
theorem uses_follow_readings (text file : String) (us : List Use) :
    let c := Cursor.ofText text file
    let replies := ((ofText text file).run us).1
    let r := ((ofText text file).run us).2
    (∃ m, (c.readings m).length = m ∧
      replies.filterMap Reply.taken? ++ r.queue = (c.readings m).filterMap Reading.token? ∧
      replies.filterMap Reply.fault? = (c.readings m).filterMap Reading.fault?) ∧
    (∀ k t, (r.peek k).1 = .ok (some t) →
      ∃ ts : List (Token Location), ts.length = max k 1 ∧ ts.getLast? = some t ∧ ∀ vs,
        ((r.peek k).2.answers vs).take (max k 1) = (ts.map Except.ok).take (vs.count Use.next)) ∧
    ∀ k, (r.peek k).1 = .ok none →
      ∃ ts : List (Token Location), ts.length < max k 1 ∧ ∀ vs, (r.peek k).2.answers vs =
        (ts.map Except.ok).take (vs.count Use.next) ++
          List.replicate (vs.count Use.next - ts.length) (.error (r.peek k).2.endError) := by
  intro c replies r
  refine ⟨?_, fun k t hpeek => ?_, fun k hpeek => ?_⟩
  · have hstart : Follows c [] [] [] (ofText text file) := ⟨⟨c, .nil c, rfl⟩, rfl, rfl⟩
    obtain ⟨xs, ⟨d, hreads, -⟩, htokens, hfaults⟩ := hstart.run us
    refine ⟨xs.length, ?_⟩
    rw [hreads.readings_eq]
    exact ⟨rfl, htokens, hfaults⟩
  · have hqueue := peek_some hpeek
    have hlength := (List.getElem?_eq_some_iff.mp hqueue).1
    refine ⟨(r.peek k).2.queue.take (max k 1), by rw [List.length_take]; omega, ?_, fun vs => ?_⟩
    · rw [List.getLast?_take, if_neg (by omega), hqueue]
      rfl
    · have hanswers := congrArg (List.take (max k 1)) (answers_queue vs (r.peek k).2)
      rw [List.take_take, Nat.min_eq_left (by omega)] at hanswers
      rw [hanswers, List.map_take, List.take_take, List.take_take, Nat.min_comm]
  · obtain ⟨hexhausted, hlength⟩ := peek_none hpeek
    exact ⟨(r.peek k).2.queue, hlength, fun vs => answers_exhausted vs _ hexhausted⟩

/-- An invalid escape is reported by the first look, and the second one sees past it. A reader of a
single token sees that there is no other. -/
theorem uses_follow_readings_past_escape :
    let r := ((ofText "a \"\\q b; @" "f").run [.peek 3]).2
    (∃ t, (r.peek 2).1 = .ok (some t) ∧ t.lexeme = "b" ∧
      ∃ ts : List (Token Location), ts.length = 2 ∧ ts.getLast? = some t ∧ ∀ vs,
        ((r.peek 2).2.answers vs).take 2 = (ts.map Except.ok).take (vs.count Use.next)) ∧
    let s := ((ofText "a" "f").run []).2
    (s.peek 2).1 = .ok none ∧ ∃ ts : List (Token Location), ts.length < 2 ∧ ∀ vs,
      (s.peek 2).2.answers vs = (ts.map Except.ok).take (vs.count Use.next) ++
        List.replicate (vs.count Use.next - ts.length) (.error (s.peek 2).2.endError) := by
  intro r
  refine ⟨?_, ?_⟩
  · have hcomputed : (r.peek 2).1.toOption.map (Option.map Token.lexeme) = some (some "b") := by
      decide +kernel
    cases hpeek : (r.peek 2).1 with
    | error e =>
      rw [hpeek] at hcomputed
      cases hcomputed
    | ok seen =>
      rw [hpeek] at hcomputed
      obtain ⟨t, rfl, hlexeme⟩ := Option.map_eq_some_iff.mp (Option.some.inj hcomputed)
      obtain ⟨-, hseen, -⟩ := uses_follow_readings "a \"\\q b; @" "f" [.peek 3]
      exact ⟨t, rfl, hlexeme, hseen 2 t hpeek⟩
  · intro s
    have hnone : (s.peek 2).1 = .ok none := by rfl
    obtain ⟨-, -, hgone⟩ := uses_follow_readings "a" "f" []
    exact ⟨hnone, hgone 2 hnone⟩

end Lookahead

end Scriptlet
