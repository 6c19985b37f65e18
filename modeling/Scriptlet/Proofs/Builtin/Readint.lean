import Scriptlet.Proofs.Channel.Input

/-!
What `readint` reads. Each call passes the blanks before a token and the token itself, and answers
with the integer that the token is a numeral of. It sees nothing of the fills in which the bytes
arrive, so any number of calls can be told from the bytes alone.
-/

namespace Scriptlet

namespace Input

/-- The unread bytes as a call divides them: blanks, a token as long as possible, and the rest. -/
structure Divides (bytes blanks token rest : List UInt8) : Prop where
  bytes_eq : bytes = blanks ++ token ++ rest
  blank : ∀ b ∈ blanks, isBlankByte b
  solid : ∀ b ∈ token, ¬ isBlankByte b
  stop : ∀ b ∈ rest.head?, isBlankByte b
  ended : token = [] → rest = []

/-- What a call answers to the unread bytes and what it leaves of them. With `failure` the input
fails where it would otherwise end. -/
inductive Reads (failure : Option String) (bytes : List UInt8) :
    Except Cause Value → List UInt8 → Prop
  | integer {blanks token rest : List UInt8} {i : Int64} (h : Divides bytes blanks token rest)
    (hend : rest = [] → failure = none) (hi : Decimal.Numeral (latin token) i.toInt) :
    Reads failure bytes (.ok (.int i)) rest
  | other {blanks token rest : List UInt8} (h : Divides bytes blanks token rest)
    (hend : rest = [] → failure = none) (hne : token ≠ [])
    (hi : ∀ i : Int64, ¬ Decimal.Numeral (latin token) i.toInt) :
    Reads failure bytes
      (.error (.input ("'" ++ String.ofList (latin token) ++ "' is not an integer"))) rest
  | finished {blanks : List UInt8} (h : Divides bytes blanks [] []) (hend : failure = none) :
    Reads failure bytes (.error (.input "unexpected end of input")) []
  /-- Whatever stands before the failure is lost, a token too. -/
  | failed {blanks token : List UInt8} {message : String} (h : Divides bytes blanks token [])
    (hend : failure = some message) : Reads failure bytes (.error (.input message)) []

theorem divides_grow_beyond (bytes : List UInt8) :
    Divides bytes (bytes.takeWhile isBlankByte) (grow [] bytes) (beyond [] bytes) := by
  have hbody : body [] bytes = bytes.dropWhile isBlankByte := rfl
  refine ⟨?_, fun b hb => ?_, fun b hb => ?_, fun b hb => ?_, fun htoken => ?_⟩
  · rw [grow, beyond, hbody, List.nil_append, List.append_assoc, List.takeWhile_append_dropWhile,
      List.takeWhile_append_dropWhile]
  · exact List.mem_takeWhile_imp hb
  · simpa using List.mem_takeWhile_imp hb
  · rw [beyond, ← List.find?_eq_head?_dropWhile_not] at hb
    exact List.find?_some hb
  -- Behind the blanks stands something else, so no token means that nothing is left.
  · have hfirst : ∀ b ∈ (body [] bytes).head?, ¬ isBlankByte b := by
      intro b hb
      rw [hbody, ← List.find?_not_eq_head?_dropWhile] at hb
      simpa using List.find?_some hb
    have hnil : body [] bytes = [] := by
      cases hb : body [] bytes with
      | nil => rfl
      | cons b rest =>
        have hb' := hfirst b (by rw [hb]; rfl)
        simp [grow, hb, hb'] at htoken
    rw [beyond, hnil]
    rfl

/-- What a program is told. -/
def answer : Except String Int64 → Except Cause Value
  | .ok i => .ok (.int i)
  | .error message => .error (.input message)

theorem reads_tokenInt {failure : Option String} {bytes blanks token rest : List UInt8}
    (h : Divides bytes blanks token rest) (hend : rest = [] → failure = none) :
    Reads failure bytes (answer (tokenInt token)) rest := by
  by_cases hnil : token = []
  · obtain rfl : rest = [] := h.ended hnil
    subst hnil
    exact .finished h (hend rfl)
  · cases hint : Decimal.int64? (latin token) with
    | some i =>
      have hok : tokenInt token = .ok i := by simp [tokenInt, hnil, hint]
      rw [hok]
      exact .integer h hend (Decimal.int64?_eq_some.mp hint)
    | none =>
      have hother : ∀ i : Int64, ¬ Decimal.Numeral (latin token) i.toInt := by
        intro i hi
        simp [Decimal.int64?_eq_some.mpr hi] at hint
      have herror : tokenInt token =
          .error ("'" ++ String.ofList (latin token) ++ "' is not an integer") := by
        simp [tokenInt, hnil, hint]
      rw [herror]
      exact .other h hend hnil hother

theorem reads_readInt (i : Input) :
    Reads i.failure i.unread (answer i.readInt.1) i.readInt.2.unread ∧
      i.readInt.2.failure = i.failure := by
  have hdivides := divides_grow_beyond i.unread
  have hsame := i.readInt_gathered
  suffices h : Reads i.failure i.unread (answer i.gathered.readInt.1)
      i.gathered.readInt.2.buffer ∧ i.gathered.readInt.2.failure = i.failure by
    rw [hsame] at h
    exact h
  by_cases hend : beyond [] i.unread = []
  · rw [hend] at hdivides
    cases hfailure : i.failure with
    | none =>
      have hread : i.gathered.readInt = (tokenInt (grow [] i.unread), ⟨[], [], none⟩) := by
        simp [readInt, readToken, gathered, takeToken, hend, hfailure]
      rw [hread]
      exact ⟨reads_tokenInt hdivides fun _ => rfl, rfl⟩
    | some message =>
      have hread : i.gathered.readInt = (.error message, ⟨[], [], some message⟩) := by
        simp [readInt, readToken, gathered, takeToken, hend, hfailure]
      rw [hread]
      exact ⟨.failed hdivides rfl, rfl⟩
  · have hread : i.gathered.readInt =
        (tokenInt (grow [] i.unread), ⟨beyond [] i.unread, [], i.failure⟩) := by
      simp [readInt, readToken, gathered, takeToken, hend]
    rw [hread]
    exact ⟨reads_tokenInt hdivides fun hnil => absurd hnil hend, rfl⟩

theorem flatten_chunks (n : Nat) (bytes : List UInt8) : (chunks n bytes).flatten = bytes := by
  fun_induction chunks n bytes with
  | case1 => rfl
  | case2 b bs ih => rw [List.flatten_cons, ih, List.cons_append, List.take_append_drop]

/-- The bytes arrive in one fill. -/
def ofFill (bytes : List UInt8) (failure : Option String) : Input :=
  feed ⟨[], [], failure⟩ bytes

theorem of_ofFill (bytes : List UInt8) (failure : Option String) :
    (ofFill bytes failure).unread = bytes ∧ (ofFill bytes failure).failure = failure := by
  by_cases hnil : bytes = []
  · subst hnil
    exact ⟨rfl, rfl⟩
  · simp [ofFill, feed, unread, hnil]

end Input

namespace World

variable {α : Type}

/-- The input is gathered into one buffer. -/
def gathered (w : World α) : World α := ⟨w.heap, w.input.gathered, w.sink⟩

theorem readInt_of_flush_error {w : World α} {message : String}
    (h : w.sink.flush = .error message) : w.readInt = (.error (.output message), w) := by
  rw [readInt, h]
  rfl

theorem readInt_of_flush_ok {w : World α} (h : w.sink.flush = .ok ()) :
    w.readInt = (Input.answer w.input.readInt.1, ⟨w.heap, w.input.readInt.2, w.sink⟩) := by
  rw [readInt, h]
  cases w.input.readInt with
  | mk answer rest => cases answer <;> rfl

theorem readInt_gathered (w : World α) :
    w.gathered.readInt = (w.readInt.1, w.readInt.2.gathered) := by
  cases hflush : w.sink.flush with
  | error message =>
    rw [readInt_of_flush_error hflush, readInt_of_flush_error (w := w.gathered) hflush]
  | ok _ =>
    rw [readInt_of_flush_ok hflush, readInt_of_flush_ok (w := w.gathered) hflush]
    simp only [gathered, Input.readInt_gathered]

/-- What `n` calls of `readint` in a row answer, and which bytes each of them leaves unread. -/
def readings : Nat → World α → List (Except Cause Value × List UInt8)
  | 0, _ => []
  | n + 1, w =>
    let called := Builtin.readint.invoke [] w
    (called.1, called.2.input.unread) :: readings n called.2

theorem invoke_readint (w : World α) : Builtin.readint.invoke [] w = w.readInt := rfl

theorem readings_gathered (n : Nat) (w : World α) : w.gathered.readings n = w.readings n := by
  induction n generalizing w with
  | zero => rfl
  | succ n ih =>
    simp only [readings, invoke_readint, readInt_gathered, ih]
    simp [gathered, Input.gathered, Input.unread]

theorem length_readings (n : Nat) (w : World α) : (w.readings n).length = n := by
  induction n generalizing w with
  | zero => rfl
  | succ n ih => simp only [readings, List.length_cons, ih]

end World

/-- Each answer is to the bytes that the one before has left. -/
def Input.Successive (failure : Option String) :
    List UInt8 → List (Except Cause Value × List UInt8) → Prop
  | _, [] => True
  | bytes, (answer, rest) :: answers =>
    Reads failure bytes answer rest ∧ Successive failure rest answers

theorem World.successive_readings {α : Type} (n : Nat) (w : World α)
    (h : w.sink.flush = .ok ()) :
    Input.Successive w.input.failure w.input.unread (w.readings n) := by
  induction n generalizing w with
  | zero => trivial
  | succ n ih =>
    obtain ⟨hreads, hfailure⟩ := w.input.reads_readInt
    have hrest := ih w.readInt.2 (by rw [readInt_of_flush_ok h]; exact h)
    rw [readings, invoke_readint]
    rw [readInt_of_flush_ok h] at hrest ⊢
    rw [show (World.mk w.heap w.input.readInt.2 w.sink).input.failure = w.input.failure
      from hfailure] at hrest
    exact ⟨hreads, hrest⟩

/-- Calls of `readint` come to the same however the bytes are cut into fills, none of them empty:
they read one token after the other off the bytes. If the output cannot be flushed, nothing is
read. -/
theorem readint_ignores_fills {α : Type} (bytes : List UInt8) (failure : Option String)
    (heap : Heap α) (sink : Sink) (n : Nat) :
    let answers := (World.mk heap (.ofFill bytes failure) sink).readings n
    (∀ fills : List (List UInt8), (∀ fill ∈ fills, fill ≠ []) → fills.flatten = bytes →
      (World.mk heap ⟨[], fills, failure⟩ sink).readings n = answers) ∧
    (∀ capacity, 0 < capacity →
      (World.mk heap (.ofBytes bytes capacity failure) sink).readings n = answers) ∧
    answers.length = n ∧
    (sink.flush = .ok () → Input.Successive failure bytes answers) ∧
    ∀ input message, sink.flush = .error message →
      Builtin.readint.invoke [] (World.mk heap input sink) =
        (.error (.output message), ⟨heap, input, sink⟩) := by
  intro answers
  obtain ⟨hfill, hfailure⟩ := Input.of_ofFill bytes failure
  have hsame : ∀ input : Input, input.unread = bytes → input.failure = failure →
      (World.mk heap input sink).readings n = answers := by
    intro input hbytes hmessage
    have hgathered : (World.mk heap input sink).gathered =
        (World.mk heap (.ofFill bytes failure) sink).gathered := by
      simp only [World.gathered, Input.gathered, hbytes, hmessage, hfill, hfailure]
    rw [← World.readings_gathered, hgathered, World.readings_gathered]
  refine ⟨fun fills _ hfills => hsame _ hfills rfl, fun capacity hcapacity => ?_,
    World.length_readings n _, fun hflush => ?_, fun input message hflush => ?_⟩
  · obtain ⟨k, rfl⟩ : ∃ k, capacity = k + 1 := ⟨capacity - 1, by omega⟩
    exact hsame _ (Input.flatten_chunks k bytes) rfl
  · have hanswers := World.successive_readings n
      (World.mk heap (.ofFill bytes failure) sink) hflush
    rwa [hfill, hfailure] at hanswers
  · exact World.readInt_of_flush_error hflush

/-- A token cut by a fill, a sign, a token that is no numeral, and one that the failure behind it
takes away. -/
theorem readint_ignores_fills_of_two_bytes :
    let bytes := "12 -7\nx1 +45".toUTF8.data.toList
    let world := fun input => World.mk (Heap.empty (α := Unit)) input .unlimited
    (world ⟨[], Input.chunks 1 bytes, some "lost"⟩).readings 5 =
      (world (.ofFill bytes (some "lost"))).readings 5 ∧
    (world (.ofBytes bytes 3 (some "lost"))).readings 5 =
      (world (.ofFill bytes (some "lost"))).readings 5 ∧
    Input.Successive (some "lost") bytes ((world (.ofFill bytes (some "lost"))).readings 5) ∧
    ((world (.ofFill bytes (some "lost"))).readings 5).map Prod.fst =
      [.ok (.int 12), .ok (.int (-7)), .error (.input "'x1' is not an integer"),
        .error (.input "lost"), .error (.input "lost")] := by
  intro bytes world
  obtain ⟨hfills, hcapacity, -, hreads, -⟩ :=
    readint_ignores_fills bytes (some "lost") (Heap.empty (α := Unit)) .unlimited 5
  exact ⟨hfills _ (by decide +kernel) (by decide +kernel), hcapacity 3 (by decide), hreads rfl,
    by decide +kernel⟩

end Scriptlet
