import Scriptlet.Proofs.Builtin.ReadBack
import Scriptlet.Proofs.Machine.Output

/-!
Programs that print integers. What the calls of a run print, in their order, is what the sink is
given, so that integers with blanks between them can be read from it again.
-/

namespace Scriptlet

variable {α : Type}

/-- What is printed: an integer, or some other text. -/
inductive Piece
  | number (i : Int64)
  | text (s : String)
deriving DecidableEq

namespace Piece

def bytes : Piece → List UInt8
  | number i => numeralBytes i
  | text s => utf8 s

def number? : Piece → Option Int64
  | number i => some i
  | text _ => none

end Piece

/-- All texts consist of blanks, and some blank stands between any two numbers. A number may come
first if `apart`. -/
def spaced (apart : Bool) : List Piece → Bool
  | [] => true
  | .number _ :: ps => apart && spaced false ps
  | .text s :: ps => (utf8 s).all isBlankByte && spaced (apart || !(utf8 s).isEmpty) ps

theorem lists_of_spaced {apart : Bool} {ps : List Piece} (h : spaced apart ps) :
    Input.Lists (ps.filterMap Piece.number?) (ps.flatMap Piece.bytes) ∧
      (apart = false → ∀ b ∈ (ps.flatMap Piece.bytes).head?, isBlankByte b) := by
  induction ps generalizing apart with
  | nil => exact ⟨.nil nofun, fun _ => nofun⟩
  | cons p ps ih =>
    cases p with
    | number i =>
      rw [spaced, Bool.and_eq_true] at h
      obtain ⟨hlists, hstop⟩ := ih h.2
      refine ⟨?_, fun hapart => absurd h.1 (by simp [hapart])⟩
      exact .cons (List.forall_mem_nil fun b => isBlankByte b) i (hstop rfl) hlists
    | text s =>
      rw [spaced, Bool.and_eq_true, List.all_eq_true] at h
      obtain ⟨hlists, hstop⟩ := ih h.2
      refine ⟨hlists.append h.1, fun hapart => ?_⟩
      rw [List.flatMap_cons, Piece.bytes]
      cases hs : utf8 s with
      | nil => exact hstop (by simp [hapart, hs])
      | cons b bs =>
        rintro c ⟨⟩
        exact h.1 b (by simp [hs])

/-! ### What a call prints -/

def Heap.piece (h : Heap α) : Value → Piece
  | .int i => .number i
  | v => .text (h.render v)

theorem Heap.bytes_piece (h : Heap α) (v : Value) : (h.piece v).bytes = utf8 (h.render v) := by
  cases v <;> rfl

def Builtin.pieces (b : Builtin) (args : List Value) (h : Heap α) : List Piece :=
  match b, args with
  | print, [v] => [h.piece v]
  | println, [v] => [h.piece v, .text "\n"]
  | _, _ => []

theorem Builtin.flatMap_pieces (b : Builtin) (args : List Value) (h : Heap α) :
    (b.pieces args h).flatMap Piece.bytes = (b.output? args h).elim [] utf8 := by
  unfold output?
  split
  · simp [pieces, h.bytes_piece]
  · have hbreak : (Piece.text "\n").bytes = utf8 "\n" := rfl
    simp [pieces, h.bytes_piece, utf8_append, hbreak]
  · rename_i hprint hprintln
    have hnone : b.pieces args h = [] := by
      unfold pieces
      split
      · exact absurd rfl (hprint _ rfl)
      · exact absurd rfl (hprintln _ rfl)
      · rfl
    rw [hnone]
    rfl

namespace Sink

theorem write_of_room {σ : Sink} {n : Nat} (bytes : Array UInt8)
    (h : σ.room (bytes.size + n) = bytes.size + n) :
    σ.write bytes = (.ok (), σ.append bytes) ∧ (σ.append bytes).room n = n := by
  obtain ⟨written, capacity, refusal, flushFailure⟩ := σ
  cases capacity with
  | none => exact ⟨if_pos rfl, rfl⟩
  | some c =>
    have hfits : min (bytes.size + n) (c - written.size) = bytes.size + n := h
    have hroom : min bytes.size (c - written.size) = bytes.size := by omega
    refine ⟨if_pos hroom, ?_⟩
    have hsize : (written ++ bytes).size = written.size + bytes.size := Array.size_append
    show min n (c - (written ++ bytes).size) = n
    omega

end Sink

namespace State

variable {limit : Nat} {s t : State α}

/-- What the next step prints. -/
def pieces (s : State α) : List Piece :=
  match s.control with
  | .apply (.builtin b) args _ => b.pieces args s.world.heap
  | _ => []

/-- What the next `n` steps print. -/
def printed (limit : Nat) : Nat → State α → List Piece
  | 0, _ => []
  | n + 1, s => s.pieces ++ printed limit n (s.step limit)

theorem flatMap_pieces (s : State α) :
    s.pieces.flatMap Piece.bytes = s.output?.elim [] utf8 := by
  obtain ⟨control, stack, scopes, depth, world⟩ := s
  cases control with
  | apply callee args l =>
    cases callee with
    | builtin b => exact b.flatMap_pieces args world.heap
    | function ref d closure => rfl
  | _ => rfl

/-- Room for `n` bytes more than the next step prints is room for `n` bytes after it. -/
theorem sink_step_of_room {n : Nat} (limit : Nat)
    (h : s.world.sink.room ((s.pieces.flatMap Piece.bytes).length + n) =
      (s.pieces.flatMap Piece.bytes).length + n) :
    (s.step limit).world.written = s.world.written ++ s.pieces.flatMap Piece.bytes ∧
      (s.step limit).world.sink.room n = n := by
  rw [flatMap_pieces] at h ⊢
  cases hout : s.output? with
  | none =>
    rw [hout] at h
    simp only [Option.elim_none, List.length_nil, Nat.zero_add] at h
    rw [World.written, sink_step hout]
    exact ⟨(List.append_nil _).symm, h⟩
  | some text =>
    rw [hout] at h
    obtain ⟨b, args, l, hc, htext⟩ := control_of_output? hout
    obtain ⟨hwrite, hroom⟩ := Sink.write_of_room text.toUTF8.data h
    rw [step_of_output? hc htext, hwrite]
    exact ⟨Array.toList_append, hroom⟩

theorem printed_of_outcome? {r : Except (EvalError α) Value} (h : s.outcome? = some r) (n : Nat) :
    s.printed limit n = [] := by
  have hpieces : s.pieces = [] := by
    obtain ⟨-, ⟨v, hc, -⟩ | ⟨e, hc, -⟩⟩ := outcome?_eq_some h
    · rw [pieces, hc]
    · rw [pieces, hc]
  induction n with
  | zero => rfl
  | succ n ih => rw [printed, hpieces, step_of_outcome? h, ih, List.nil_append]

/-- With room for all of it, a run writes what it prints and nothing else. -/
theorem written_of_run {fuel : Nat} {r : Except (EvalError α) Value}
    (h : s.run limit fuel = some (r, t))
    (hroom : s.world.sink.room ((s.printed limit fuel).flatMap Piece.bytes).length =
      ((s.printed limit fuel).flatMap Piece.bytes).length) :
    t.world.written = s.world.written ++ (s.printed limit fuel).flatMap Piece.bytes := by
  induction fuel generalizing s with
  | zero =>
    unfold run at h
    split at h
    · cases h
      exact (List.append_nil _).symm
    · cases h
  | succ fuel ih =>
    unfold run at h
    split at h
    · rename_i r' hout
      cases h
      rw [printed_of_outcome? hout]
      exact (List.append_nil _).symm
    · rw [printed, List.flatMap_append, List.length_append] at hroom
      obtain ⟨hwritten, hmore⟩ := sink_step_of_room limit hroom
      rw [ih h hmore, hwritten, printed, List.flatMap_append, List.append_assoc]

end State

namespace Interpreter

/-- What a run prints in at most `fuel` steps: nothing, if the program is not executed. -/
def printed (fuel : Nat) (i : Interpreter α) : List Piece :=
  match i.objection? with
  | some _ => []
  | none => i.start.printed i.config.maxCallDepth fuel

theorem written_of_run {i j : Interpreter α} {fuel : Nat} {r : Except (EvalError α) Value}
    (h : i.run fuel = some (r, j))
    (hroom : i.world.sink.room ((i.printed fuel).flatMap Piece.bytes).length =
      ((i.printed fuel).flatMap Piece.bytes).length) :
    j.world.written = i.world.written ++ (i.printed fuel).flatMap Piece.bytes := by
  rcases run_cases h with ⟨e, hobjection, -, rfl⟩ | ⟨hobjection, hexecute⟩
  · simp only [printed, hobjection]
    exact (List.append_nil _).symm
  · simp only [printed, hobjection] at hroom ⊢
    obtain ⟨r₀, t, hrun, hflush, -⟩ := execute_eq_some hexecute
    rw [written_flush hflush]
    exact State.written_of_run hrun hroom

/-- If a run prints integers with some blank between any two, and blanks only, then `readint` gets
the same integers from the same bytes, however they arrive, and nothing more. -/
theorem printed_numbers_read_back {i j : Interpreter α} {fuel : Nat}
    {r : Except (EvalError α) Value} (hrun : i.run fuel = some (r, j))
    (hspaced : spaced true (i.printed fuel))
    (hroom : i.world.sink.room ((i.printed fuel).flatMap Piece.bytes).length =
      ((i.printed fuel).flatMap Piece.bytes).length) :
    let numbers := (i.printed fuel).filterMap Piece.number?
    ∃ bytes, j.world.written = i.world.written ++ bytes ∧
      ∀ {β : Type} (w : World β), w.input.unread = bytes → w.input.failure = none →
        w.sink.flush = .ok () →
        (w.readings (numbers.length + 1)).map Prod.fst =
          numbers.map (fun k => .ok (.int k)) ++ [.error (.input "unexpected end of input")] := by
  intro numbers
  obtain ⟨hlists, -⟩ := lists_of_spaced hspaced
  exact ⟨_, written_of_run hrun hroom, fun w => w.readings_of_lists hlists⟩

/-- Prints the least integer on a line, and -7 and the greatest with a tab and a blank between. -/
def printExtremes : Program Unit :=
  let call (name : String) (arg : Expr Unit) : Item Unit :=
    .stmt (.expr (.callAt ⟨name, ()⟩ [arg] ()))
  let number (text : String) : Expr Unit := .integer text ()
  let difference (a b : Expr Unit) : Expr Unit := .binary .sub a b ()
  ⟨[call "println" (difference (difference (number "0") (number "9223372036854775807"))
      (number "1")),
    call "print" (difference (number "0") (number "7")),
    call "print" (.string "\t " ()),
    call "print" (number "9223372036854775807")]⟩

theorem printExtremes_read_back :
    let i := new printExtremes ⟨true, 1⟩ ⟨[], [], none⟩ .unlimited
    ∃ r j, i.run 100 = some (r, j) ∧
      ((World.mk (Heap.empty (α := Unit)) (.ofBytes j.world.written 3 none)
        .unlimited).readings 4).map Prod.fst =
        [.ok (.int Int64.minValue), .ok (.int (-7)), .ok (.int Int64.maxValue),
          .error (.input "unexpected end of input")] := by
  intro i
  have hends : (i.run 100).isSome := by decide +kernel
  obtain ⟨⟨r, j⟩, hrun⟩ := Option.isSome_iff_exists.mp hends
  have hspaced : spaced true (i.printed 100) := by decide +kernel
  have hnumbers : (i.printed 100).filterMap Piece.number? =
      [Int64.minValue, -7, Int64.maxValue] := by decide +kernel
  obtain ⟨bytes, hwritten, hread⟩ := printed_numbers_read_back hrun hspaced rfl
  refine ⟨r, j, hrun, ?_⟩
  have hunread : (Input.ofBytes j.world.written 3 none).unread = bytes := by
    rw [hwritten]
    exact Input.flatten_chunks 2 bytes
  have hanswers := hread (World.mk (Heap.empty (α := Unit)) (.ofBytes j.world.written 3 none)
    .unlimited) hunread rfl rfl
  rw [hnumbers] at hanswers
  exact hanswers

end Interpreter

end Scriptlet
