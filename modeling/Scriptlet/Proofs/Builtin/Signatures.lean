import Mathlib.Data.List.Forall2
import Scriptlet.Builtin

/-!
Signatures and bodies agree. A call is refused for the number of its arguments, or else for the
first of them that is of a wrong kind, and then nothing has happened. Every other call has just the
arguments that the body is made for, so all that can still fail is the work itself.
-/

namespace Scriptlet

variable {α : Type}

/-- What is declared of the arguments one by one. -/
def Signature.params : Signature → List Param
  | fixed params => params
  | variadic => []

namespace Builtin

variable {b : Builtin} {params : List Param} {args : List Value} {c : Cause}
  {p : Param} {v : Value} {n position : Nat} {k found : Kind}

/-- A fixed number of arguments is declared, and another number is there. -/
def WrongCount (b : Builtin) (args : List Value) (declared : Nat) : Prop :=
  ∃ params, b.signature = .fixed params ∧ params.length = declared ∧ declared ≠ args.length

/-- The argument that has `n` others before it is not of the kind declared. -/
structure Mismatch (params : List Param) (args : List Value) (n : Nat) (declared found : Kind) :
    Prop where
  param : params[n]? = some (.kind declared)
  arg : args[n]?.map Value.kind = some found
  differ : found ≠ declared

structure FirstMismatch (params : List Param) (args : List Value) (n : Nat)
    (declared found : Kind) : Prop extends Mismatch params args n declared found where
  first : ∀ m < n, ∀ declared found, ¬ Mismatch params args m declared found

/-! ### What the check finds -/

theorem mismatch_cons_zero : Mismatch (p :: params) (v :: args) 0 k found ↔
    p = .kind k ∧ v.kind = found ∧ found ≠ k :=
  ⟨fun ⟨hp, hv, hne⟩ => ⟨Option.some.inj hp, Option.some.inj hv, hne⟩,
    fun ⟨hp, hv, hne⟩ => ⟨congrArg some hp, congrArg some hv, hne⟩⟩

theorem mismatch_cons_succ : Mismatch (p :: params) (v :: args) (n + 1) k found ↔
    Mismatch params args n k found :=
  ⟨fun ⟨hp, hv, hne⟩ => ⟨hp, hv, hne⟩, fun ⟨hp, hv, hne⟩ => ⟨hp, hv, hne⟩⟩

theorem kind_of_admits (h : (Param.kind k).admits found) : found = k := (eq_of_beq h).symm

/-- Behind an argument that is admitted, the first mismatch is that of the arguments left. -/
theorem firstMismatch_cons (hp : p.admits v.kind) :
    FirstMismatch (p :: params) (v :: args) n k found ↔
      ∃ m, n = m + 1 ∧ FirstMismatch params args m k found := by
  have hhead : ∀ k found, ¬ Mismatch (p :: params) (v :: args) 0 k found := by
    intro k found h
    obtain ⟨rfl, rfl, hne⟩ := mismatch_cons_zero.mp h
    exact hne (kind_of_admits hp)
  constructor
  · intro h
    cases n with
    | zero => exact absurd h.toMismatch (hhead k found)
    | succ m =>
      refine ⟨m, rfl, mismatch_cons_succ.mp h.toMismatch, fun l hl k found hmis => ?_⟩
      exact h.first (l + 1) (by omega) k found (mismatch_cons_succ.mpr hmis)
  · rintro ⟨m, rfl, h⟩
    refine ⟨mismatch_cons_succ.mpr h.toMismatch, fun l hl k found hmis => ?_⟩
    cases l with
    | zero => exact hhead k found hmis
    | succ l => exact h.first l (by omega) k found (mismatch_cons_succ.mp hmis)

theorem firstMismatch_cons_of_ne {declared : Kind} (hv : v.kind ≠ declared) :
    FirstMismatch (.kind declared :: params) (v :: args) n k found ↔
      n = 0 ∧ k = declared ∧ found = v.kind := by
  have hhead : Mismatch (.kind declared :: params) (v :: args) 0 declared v.kind :=
    mismatch_cons_zero.mpr ⟨rfl, rfl, hv⟩
  constructor
  · intro h
    cases n with
    | zero =>
      obtain ⟨hp, hfound, -⟩ := mismatch_cons_zero.mp h.toMismatch
      exact ⟨rfl, (Param.kind.inj hp).symm, hfound.symm⟩
    | succ n => exact absurd hhead (h.first 0 (by omega) declared v.kind)
  · rintro ⟨rfl, rfl, rfl⟩
    exact ⟨hhead, by omega⟩

theorem mismatch?_eq_some : b.mismatch? position params args = some c ↔
    ∃ n k found, FirstMismatch params args n k found ∧
      c = .builtinArgument b (position + n) k found := by
  induction params generalizing position args with
  | nil => exact ⟨fun h => by simp [mismatch?] at h, fun ⟨n, k, found, h, _⟩ => nomatch h.param⟩
  | cons p params ih =>
    cases args with
    | nil => exact ⟨fun h => by simp [mismatch?] at h, fun ⟨n, k, found, h, _⟩ => nomatch h.arg⟩
    | cons v args =>
      have hbehind (hp : p.admits v.kind) : b.mismatch? (position + 1) params args = some c ↔
          ∃ n k found, FirstMismatch (p :: params) (v :: args) n k found ∧
            c = .builtinArgument b (position + n) k found := by
        simp only [ih, firstMismatch_cons hp, Nat.add_right_comm position 1]
        constructor
        · rintro ⟨m, k, found, h, rfl⟩
          exact ⟨m + 1, k, found, ⟨m, rfl, h⟩, rfl⟩
        · rintro ⟨n, k, found, ⟨m, rfl, h⟩, rfl⟩
          exact ⟨m, k, found, h, rfl⟩
      cases p with
      | any => exact hbehind rfl
      | kind declared =>
        rw [mismatch?]
        by_cases hv : v.kind = declared
        · rw [if_pos hv]
          exact hbehind (beq_iff_eq.mpr hv.symm)
        · rw [if_neg hv]
          simp only [firstMismatch_cons_of_ne hv]
          constructor
          · intro h
            exact ⟨0, declared, v.kind, ⟨rfl, rfl, rfl⟩, (Option.some.inj h).symm⟩
          · rintro ⟨n, k, found, ⟨rfl, rfl, rfl⟩, rfl⟩
            rfl

theorem exists_firstMismatch (h : Mismatch params args n k found) :
    ∃ n k found, FirstMismatch params args n k found := by
  induction n using Nat.strongRecOn generalizing k found with
  | ind n ih =>
    by_cases hfirst : ∀ m < n, ∀ k found, ¬ Mismatch params args m k found
    · exact ⟨n, k, found, h, hfirst⟩
    · push Not at hfirst
      obtain ⟨m, hm, k', found', h'⟩ := hfirst
      exact ih m hm h'

theorem kinds_of_mismatch? (hlen : params.length = args.length)
    (h : b.mismatch? position params args = none) :
    List.Forall₂ (fun p v => p.admits v.kind) params args := by
  induction params generalizing position args with
  | nil =>
    obtain rfl := List.length_eq_zero_iff.mp hlen.symm
    exact .nil
  | cons p params ih =>
    cases args with
    | nil => cases hlen
    | cons v args =>
      have hrest : params.length = args.length := Nat.succ.inj hlen
      cases p with
      | any => exact .cons rfl (ih hrest h)
      | kind k =>
        simp only [mismatch?] at h
        split at h
        · rename_i hk
          exact .cons (by simp [Param.admits, hk]) (ih hrest h)
        · cases h

theorem kinds_of_objection? (hb : b.signature = .fixed params) (h : b.objection? args = none) :
    List.Forall₂ (fun p v => p.admits v.kind) params args := by
  simp only [objection?, hb] at h
  split at h
  · cases h
  · rename_i hlen
    exact kinds_of_mismatch? (Decidable.not_not.mp hlen) h

theorem objection?_eq_some : b.objection? args = some c ↔
    (∃ declared, b.WrongCount args declared ∧ c = .builtinArity b declared args.length) ∨
    (∀ declared, ¬ b.WrongCount args declared) ∧ ∃ n k found,
      FirstMismatch b.signature.params args n k found ∧
        c = .builtinArgument b (n + 1) k found := by
  unfold objection?
  cases hb : b.signature with
  | variadic =>
    refine ⟨nofun, ?_⟩
    rintro (⟨declared, ⟨params, hparams, -⟩, -⟩ | ⟨-, n, k, found, h, -⟩)
    · cases hb.symm.trans hparams
    · cases h.param
  | fixed params =>
    have hcount : ∀ declared, b.WrongCount args declared ↔
        params.length = declared ∧ declared ≠ args.length := by
      intro declared
      refine ⟨?_, fun h => ⟨params, hb, h⟩⟩
      rintro ⟨params', hparams, h⟩
      cases hb.symm.trans hparams
      exact h
    by_cases hlen : params.length = args.length
    · simp [hcount, hlen, mismatch?_eq_some, Signature.params, Nat.add_comm 1]
    · simp [hcount, hlen, eq_comm]

theorem objection?_eq_none : b.objection? args = none ↔
    (∀ declared, ¬ b.WrongCount args declared) ∧
      ∀ n k found, ¬ Mismatch b.signature.params args n k found := by
  rw [Option.eq_none_iff_forall_ne_some]
  constructor
  · intro h
    have hcount : ∀ declared, ¬ b.WrongCount args declared := fun declared hwrong =>
      h _ (objection?_eq_some.mpr (.inl ⟨declared, hwrong, rfl⟩))
    refine ⟨hcount, fun n k found hmis => ?_⟩
    obtain ⟨m, k', found', hfirst⟩ := exists_firstMismatch hmis
    exact h _ (objection?_eq_some.mpr (.inr ⟨hcount, m, k', found', hfirst, rfl⟩))
  · rintro ⟨hcount, hkinds⟩ c hc
    rcases objection?_eq_some.mp hc with ⟨declared, hwrong, -⟩ | ⟨-, n, k, found, hfirst, -⟩
    · exact hcount declared hwrong
    · exact hkinds n k found hfirst.toMismatch

end Builtin

/-! ### What a body can fail at -/

/-- The failures of the work itself. -/
inductive World.Fault (w : World α) : Builtin → List Value → Cause → Prop
  | print (v : Value) (message : String) : Fault w .print [v] (.output message)
  | println (v : Value) (message : String) : Fault w .println [v] (.output message)
  | flush (message : String) : Fault w .readint [] (.output message)
  | read (message : String) : Fault w .readint [] (.input message)
  | get (r : Nat) (i : Int64) :
    Fault w .get [.array r, .int i] (.indexOutOfBounds i (w.heap.items r).size)
  | set (r : Nat) (i : Int64) (v : Value) :
    Fault w .set [.array r, .int i, v] (.indexOutOfBounds i (w.heap.items r).size)
  | pop (r : Nat) : Fault w .pop [.array r] .emptyArray
  | substr (r : Nat) (i j : Int64) :
    Fault w .substr [.string r, .int i, .int j] (.substringRange i j (w.heap.text r).length)

namespace World

variable {w : World α} {c : Cause} {r : Nat} {i j : Int64} {v : Value} {text : String}

theorem error_of_write (h : (w.write text).1 = .error c) : ∃ message, c = .output message := by
  obtain ⟨heap, input, sink⟩ := w
  simp only [write] at h
  split at h
  · cases h
  · cases h
    exact ⟨_, rfl⟩

theorem error_of_readInt (h : w.readInt.1 = .error c) :
    ∃ message, c = .output message ∨ c = .input message := by
  obtain ⟨heap, input, sink⟩ := w
  simp only [readInt] at h
  split at h
  · cases h
    exact ⟨_, .inl rfl⟩
  · split at h
    · cases h
    · cases h
      exact ⟨_, .inr rfl⟩

theorem error_of_getItem (h : (w.getItem r i).1 = .error c) :
    c = .indexOutOfBounds i (w.heap.items r).size := by
  unfold getItem at h
  simp only at h
  split at h
  · cases h
    rfl
  · cases h

theorem error_of_setItem (h : (w.setItem r i v).1 = .error c) :
    c = .indexOutOfBounds i (w.heap.items r).size := by
  unfold setItem at h
  simp only at h
  split at h
  · cases h
    rfl
  · cases h

theorem error_of_popItem (h : (w.popItem r).1 = .error c) : c = .emptyArray := by
  unfold popItem at h
  split at h
  · cases h
    rfl
  · cases h

theorem error_of_substring (h : (w.substring r i j).1 = .error c) :
    c = .substringRange i j (w.heap.text r).length := by
  unfold substring at h
  simp only at h
  split at h
  · cases h
  · cases h
    rfl

end World

namespace Builtin

open World

variable {b : Builtin} {args : List Value} {w : World α} {c : Cause} {v : Value}

theorem array_of_admits (h : (Param.kind .array).admits v.kind) : ∃ r, v = .array r := by
  cases v with
  | array r => exact ⟨r, rfl⟩
  | _ => cases kind_of_admits h

theorem int_of_admits (h : (Param.kind .int).admits v.kind) : ∃ i, v = .int i := by
  cases v with
  | int i => exact ⟨i, rfl⟩
  | _ => cases kind_of_admits h

theorem string_of_admits (h : (Param.kind .string).admits v.kind) : ∃ r, v = .string r := by
  cases v with
  | string r => exact ⟨r, rfl⟩
  | _ => cases kind_of_admits h

/-- Arguments to which the signature has no objection are of the form that the body expects. -/
theorem fault_of_body (hargs : b.objection? args = none) (h : (b.body args w).1 = .error c) :
    w.Fault b args c := by
  cases b with
  | print =>
    obtain _ | ⟨-, _ | _⟩ := kinds_of_objection? rfl hargs
    obtain ⟨message, rfl⟩ := error_of_write h
    exact .print _ message
  | println =>
    obtain _ | ⟨-, _ | _⟩ := kinds_of_objection? rfl hargs
    obtain ⟨message, rfl⟩ := error_of_write h
    exact .println _ message
  | readint =>
    obtain _ | _ := kinds_of_objection? rfl hargs
    obtain ⟨message, rfl | rfl⟩ := error_of_readInt h
    · exact .flush message
    · exact .read message
  | mkarr => cases h
  | len =>
    obtain _ | ⟨ha, _ | _⟩ := kinds_of_objection? rfl hargs
    obtain ⟨r, rfl⟩ := array_of_admits ha
    cases h
  | get =>
    obtain _ | ⟨ha, _ | ⟨hi, _ | _⟩⟩ := kinds_of_objection? rfl hargs
    obtain ⟨r, rfl⟩ := array_of_admits ha
    obtain ⟨i, rfl⟩ := int_of_admits hi
    exact error_of_getItem h ▸ .get r i
  | set =>
    obtain _ | ⟨ha, _ | ⟨hi, _ | ⟨-, _ | _⟩⟩⟩ := kinds_of_objection? rfl hargs
    obtain ⟨r, rfl⟩ := array_of_admits ha
    obtain ⟨i, rfl⟩ := int_of_admits hi
    exact error_of_setItem h ▸ .set r i _
  | push =>
    obtain _ | ⟨ha, _ | ⟨-, _ | _⟩⟩ := kinds_of_objection? rfl hargs
    obtain ⟨r, rfl⟩ := array_of_admits ha
    cases h
  | pop =>
    obtain _ | ⟨ha, _ | _⟩ := kinds_of_objection? rfl hargs
    obtain ⟨r, rfl⟩ := array_of_admits ha
    exact error_of_popItem h ▸ .pop r
  | substr =>
    obtain _ | ⟨hs, _ | ⟨hi, _ | ⟨hj, _ | _⟩⟩⟩ := kinds_of_objection? rfl hargs
    obtain ⟨r, rfl⟩ := string_of_admits hs
    obtain ⟨i, rfl⟩ := int_of_admits hi
    obtain ⟨j, rfl⟩ := int_of_admits hj
    exact error_of_substring h ▸ .substr r i j
  | strcat =>
    obtain _ | ⟨hs, _ | ⟨ht, _ | _⟩⟩ := kinds_of_objection? rfl hargs
    obtain ⟨r, rfl⟩ := string_of_admits hs
    obtain ⟨t, rfl⟩ := string_of_admits ht
    cases h
  | strlen =>
    obtain _ | ⟨hs, _ | _⟩ := kinds_of_objection? rfl hargs
    obtain ⟨r, rfl⟩ := string_of_admits hs
    cases h

theorem invoke_of_objection (h : b.objection? args = some c) : b.invoke args w = (.error c, w) := by
  rw [invoke, h]
  rfl

theorem invoke_of_none (h : b.objection? args = none) : b.invoke args w = b.body args w := by
  rw [invoke, h]

/-- A cause that is none of the body's comes from the signature. -/
theorem invoke_error_iff (hc : ¬ w.Fault b args c) :
    (b.invoke args w).1 = .error c ↔ b.objection? args = some c := by
  cases hobj : b.objection? args with
  | some d => simp [invoke_of_objection hobj]
  | none =>
    rw [invoke_of_none hobj]
    exact ⟨fun h => absurd (fault_of_body hobj h) hc, nofun⟩

theorem invoke_arity_iff {name : Builtin} {declared received : Nat} :
    (b.invoke args w).1 = .error (.builtinArity name declared received) ↔
      name = b ∧ b.WrongCount args declared ∧ received = args.length := by
  rw [invoke_error_iff (fun h => by cases h), objection?_eq_some]
  constructor
  · rintro (⟨n, hwrong, heq⟩ | ⟨-, n, k, found, -, heq⟩)
    · cases heq
      exact ⟨rfl, hwrong, rfl⟩
    · cases heq
  · rintro ⟨rfl, hwrong, rfl⟩
    exact .inl ⟨declared, hwrong, rfl⟩

theorem invoke_argument_iff {name : Builtin} {position : Nat} {declared found : Kind}
    (hcount : ∀ n, ¬ b.WrongCount args n) :
    (b.invoke args w).1 = .error (.builtinArgument name position declared found) ↔
      name = b ∧ ∃ n, position = n + 1 ∧
        FirstMismatch b.signature.params args n declared found := by
  rw [invoke_error_iff (fun h => by cases h), objection?_eq_some]
  constructor
  · rintro (⟨n, hwrong, -⟩ | ⟨-, n, k, found, hfirst, heq⟩)
    · exact absurd hwrong (hcount n)
    · cases heq
      exact ⟨rfl, n, rfl, hfirst⟩
  · rintro ⟨rfl, n, rfl, hfirst⟩
    exact .inr ⟨hcount, n, declared, found, hfirst, rfl⟩

/-- A call is refused for the number of its arguments if a fixed number is declared and it is
another one, and otherwise for the first argument that is not of the kind declared; a call that is
refused changes nothing. In all other calls the body runs, has arguments it is made for, and fails
only at the work itself. -/
theorem invoke_by_signature (b : Builtin) (args : List Value) (w : World α) :
    (∀ name declared received,
      (b.invoke args w).1 = .error (.builtinArity name declared received) ↔
        name = b ∧ b.WrongCount args declared ∧ received = args.length) ∧
    ((∀ n, ¬ b.WrongCount args n) →
      ((∃ name position declared found,
        (b.invoke args w).1 = .error (.builtinArgument name position declared found)) ↔
          ∃ n declared found, Mismatch b.signature.params args n declared found) ∧
      ∀ name position declared found,
        (b.invoke args w).1 = .error (.builtinArgument name position declared found) ↔
          name = b ∧ ∃ n, position = n + 1 ∧
            FirstMismatch b.signature.params args n declared found) ∧
    ((∃ n, b.WrongCount args n) ∨
      (∃ n declared found, Mismatch b.signature.params args n declared found) →
        (b.invoke args w).2 = w) ∧
    ((∀ n, ¬ b.WrongCount args n) →
      (∀ n declared found, ¬ Mismatch b.signature.params args n declared found) →
        b.invoke args w = b.body args w ∧ (∀ n, b.body args w ≠ b.malformed n args w) ∧
          ∀ c, (b.body args w).1 = .error c → w.Fault b args c) := by
  refine ⟨fun _ _ _ => invoke_arity_iff,
    fun hcount => ⟨?_, fun _ _ _ _ => invoke_argument_iff hcount⟩, fun hwrong => ?_,
    fun hcount hkinds => ?_⟩
  · simp only [invoke_argument_iff hcount]
    constructor
    · rintro ⟨-, -, declared, found, -, n, -, hfirst⟩
      exact ⟨n, declared, found, hfirst.toMismatch⟩
    · rintro ⟨n, declared, found, hmis⟩
      obtain ⟨m, declared', found', hfirst⟩ := exists_firstMismatch hmis
      exact ⟨b, m + 1, declared', found', rfl, m, rfl, hfirst⟩
  · cases hobj : b.objection? args with
    | some c => rw [invoke_of_objection hobj]
    | none =>
      obtain ⟨hcount, hkinds⟩ := objection?_eq_none.mp hobj
      rcases hwrong with ⟨n, h⟩ | ⟨n, declared, found, h⟩
      · exact absurd h (hcount n)
      · exact absurd h (hkinds n declared found)
  · have hobj := objection?_eq_none.mpr ⟨hcount, hkinds⟩
    refine ⟨invoke_of_none hobj, fun n hmalformed => ?_, fun c => fault_of_body hobj⟩
    have herror : (b.body args w).1 = .error (.builtinArity b n args.length) := by
      rw [hmalformed]
      rfl
    cases fault_of_body hobj herror

/-- With the arguments of `get` in the wrong order both are of a wrong kind, and the first one is
named. If one is missing as well, only their number matters. An array without elements has the right
kind for `pop`, which then fails at its work. -/
theorem invoke_by_signature_of_swapped :
    let w : World Unit := ⟨(Heap.empty.alloc (.array #[])).2, ⟨[], [], none⟩, .unlimited⟩
    get.invoke [.int 0, .array 0] w = (.error (.builtinArgument get 1 .array .int), w) ∧
      get.invoke [.int 0] w = (.error (.builtinArity get 2 1), w) ∧
      (pop.invoke [.array 0] w).1 = .error .emptyArray ∧
      w.Fault pop [.array 0] .emptyArray := by
  intro w
  have hpair : ∀ n, ¬ get.WrongCount [.int 0, .array 0] n := by
    rintro n ⟨params, hparams, rfl, hne⟩
    cases hparams
    exact hne rfl
  have hsingle : ∀ n, ¬ pop.WrongCount [.array 0] n := by
    rintro n ⟨params, hparams, rfl, hne⟩
    cases hparams
    exact hne rfl
  have hmissing : get.WrongCount [.int 0] 2 := ⟨_, rfl, rfl, by decide⟩
  have hswapped : Mismatch get.signature.params [.int 0, .array 0] 0 .array .int :=
    ⟨rfl, rfl, by decide⟩
  have hright : ∀ n declared found,
      ¬ Mismatch pop.signature.params [.array 0] n declared found := by
    rintro (_ | n) declared found ⟨hparam, harg, hne⟩
    · cases hparam
      cases harg
      exact hne rfl
    · cases hparam
  obtain ⟨-, hkinds, hsame, -⟩ := invoke_by_signature get [.int 0, .array 0] w
  obtain ⟨hcount, -, hsame', -⟩ := invoke_by_signature get [.int 0] w
  obtain ⟨-, -, -, hbody⟩ := invoke_by_signature pop [.array 0] w
  refine ⟨Prod.ext ?_ (hsame (.inr ⟨_, _, _, hswapped⟩)), Prod.ext ?_ (hsame' (.inl ⟨2, hmissing⟩)),
    ?_, (hbody hsingle hright).2.2 _ rfl⟩
  · exact ((hkinds hpair).2 _ _ _ _).mpr ⟨rfl, 0, rfl, hswapped, by omega⟩
  · exact (hcount _ _ _).mpr ⟨rfl, hmissing, rfl⟩
  · rw [(hbody hsingle hright).1]
    rfl

end Builtin

end Scriptlet
