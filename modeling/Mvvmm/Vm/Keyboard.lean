import Mathlib.Algebra.Ring.Parity
import Mathlib.Data.List.DropRight
import Mvvmm.Lib.Mealy

/-!
# The keyboard

Model of `keyboard_thread_func` of `main.c`, which hands over what is typed to the serial port. Ctrl+A (`0x01`) is an
escape: behind it, Ctrl+C (`0x03`) interrupts the program, a second Ctrl+A stands for itself, and any other byte is
handed over together with it. A round of the loop is `keyRound`: one call of `timed_getchar`, which may also time
out or fail, and what is made of the byte. That the handler of SIGINT then ends the program is not part of the loop.

The escape state of the loop is the parity of the run of `0x01` bytes that was typed last (`escaped_run`).
`keyboard_decodes` concludes what happens at each byte, and that a text with all its `0x01` bytes doubled is handed over
as it is.
-/

namespace Mvvmm.Vm
open Mealy

/-- What `poll` and `read` return in `timed_getchar`. -/
inductive PollResult where
  /-- `poll` fails. -/
  | failed
  /-- `poll` times out. -/
  | timeout
  /-- `poll` reports an event, which is `POLLIN` or not, and `read` returns a byte or not. -/
  | event (pollin : Bool) (read : Option UInt8)
  deriving DecidableEq, Repr

/-- The byte that was read, if there is one. -/
def PollResult.byte? : PollResult → Option UInt8
  | .event true (some c) => some c
  | _ => none

/-- C `timed_getchar`: what it returns, and `*ch` afterwards. -/
def timedGetchar (p : PollResult) (ch : Int) : Int × Int :=
  match p with
  | .event pollin read =>
    if pollin then
      match read with
      | some c => (1, c.toNat)
      | none => (0, ch)
    else
      (0, ch)
  | .timeout => (0, ch)
  | .failed => (0, ch)

/-- C `EOF`. -/
def eof : Int := -1

/-- What the loop does with a byte: it sends SIGINT to the process, or calls `write_to_serial`. -/
inductive KeyEvent where
  | sigint
  | writeToSerial (c : UInt8)
  deriving DecidableEq, Repr

/-- The variables of `keyboard_thread_func`, and whether its loop is left. -/
structure Keyboard where
  ch : Int
  escaped : Bool
  left : Bool
  deriving DecidableEq, Repr

/-- At the beginning of the loop. -/
def keyboardStart : Keyboard :=
  ⟨0, false, false⟩

/-- A round of the loop of `keyboard_thread_func`, with what `poll` and `read` return and `vm->quit`. -/
def keyRound (k : Keyboard) (input : PollResult × Bool) : List KeyEvent × Keyboard :=
  if k.left then
    ([], k)
  else
    let (ret, ch) := timedGetchar input.1 k.ch
    let k := { k with ch }
    if input.2 then
      ([], { k with left := true })
    else if ch = eof then
      ([], { k with left := true })
    else if ret = 0 then
      ([], k)
    else if k.escaped then
      let k := { k with escaped := false }
      if ch = 0x03 then
        ([.sigint], k)
      else if ch = 0x01 then
        ([.writeToSerial 0x01], k)
      else
        ([.writeToSerial 0x01, .writeToSerial (.ofInt ch)], k)
    else if ch = 0x01 then
      ([], { k with escaped := true })
    else
      ([.writeToSerial (.ofInt ch)], k)

/-- C `keyboard_thread_func` as long as the machine runs: what happens in each round, and the variables. -/
def keyboardThreadFunc (polls : List PollResult) : List (List KeyEvent) × Keyboard :=
  run keyRound keyboardStart (polls.map (·, false))

/-- The bytes that are typed. -/
def typed (polls : List PollResult) : List UInt8 :=
  polls.filterMap PollResult.byte?

/-! ## The escape -/

/-- What a byte leads to, by the escape state. -/
def decodeByte (escaped : Bool) (c : UInt8) : List KeyEvent × Bool :=
  if escaped then
    (if c = 0x03 then [.sigint] else if c = 0x01 then [.writeToSerial 0x01]
      else [.writeToSerial 0x01, .writeToSerial c], false)
  else if c = 0x01 then
    ([], true)
  else
    ([.writeToSerial c], false)

variable {k : Keyboard} {p : PollResult} {polls : List PollResult} {c x : UInt8} {s t : List UInt8} {i j : Nat}

/-- A byte is not `EOF`, and it fits into a `char`. -/
lemma byte_ch (c : UInt8) : (c.toNat : Int) ≠ eof ∧ UInt8.ofInt c.toNat = c ∧
    ((c.toNat : Int) = 0x03 ↔ c = 0x03) ∧ ((c.toNat : Int) = 0x01 ↔ c = 0x01) := by
  have eq : ∀ b : UInt8, (c.toNat : Int) = b.toNat ↔ c = b := by
    intro b
    rw [Int.natCast_inj, UInt8.toNat_inj]
  refine ⟨by simp only [eof]; omega, ?_, eq 3, eq 1⟩
  have lt := c.toNat_lt
  apply UInt8.toNat_inj.mp
  simp only [UInt8.ofInt, UInt8.toNat_ofNat']
  omega

/-- A round that reads a byte goes by the escape state only. -/
lemma keyRound_byte (left : k.left = false) (h : p.byte? = some c) :
    keyRound k (p, false) = ((decodeByte k.escaped c).1, ⟨c.toNat, (decodeByte k.escaped c).2, false⟩) := by
  obtain ⟨ne, char, three, one⟩ := byte_ch c
  obtain rfl : p = .event true (some c) := by
    unfold PollResult.byte? at h
    split at h
    · rw [Option.some.inj h]
    · cases h
  have got : timedGetchar (.event true (some c)) k.ch = (1, (c.toNat : Int)) := rfl
  simp only [keyRound, got, left, Bool.false_eq_true, if_false, if_neg ne, one_ne_zero, three, one, char, decodeByte]
  cases k.escaped with
  | false =>
    by_cases h1 : c = 0x01
    · simp [h1]
    · simp [h1]
  | true =>
    by_cases h3 : c = 0x03
    · simp [h3]
    · by_cases h1 : c = 0x01
      · simp [h1]
      · simp [h1, h3]

/-- A round that reads nothing changes nothing. -/
lemma keyRound_none (left : k.left = false) (noEof : k.ch ≠ eof) (h : p.byte? = none) :
    keyRound k (p, false) = ([], k) := by
  have got : timedGetchar p k.ch = (0, k.ch) := by
    cases p with
    | failed => rfl
    | timeout => rfl
    | event pollin read =>
      cases pollin with
      | false => rfl
      | true =>
        cases read with
        | none => rfl
        | some c => cases h
  simp only [keyRound, got, left, Bool.false_eq_true, if_false, if_neg noEof, if_true]
  cases k
  cases left
  rfl

/-- The loop goes on, in the given escape state. -/
structure Listens (k : Keyboard) (escaped : Bool) : Prop where
  left : k.left = false
  ch : k.ch ≠ eof
  state : k.escaped = escaped

/-- The thread starts without a prefix. -/
lemma listens_start : Listens keyboardStart false :=
  ⟨rfl, by decide, rfl⟩

/-- The loop decodes the bytes that are typed; the rounds that read nothing do not count. -/
lemma keyboardThreadFunc_typed :
    (keyboardThreadFunc polls).1.flatten = (run decodeByte false (typed polls)).1.flatten ∧
      Listens (keyboardThreadFunc polls).2 (run decodeByte false (typed polls)).2 := by
  have bytes : (polls.map (·, false)).filterMap (fun i : PollResult × Bool => i.1.byte?) = typed polls := by
    rw [List.filterMap_map]
    rfl
  rw [← bytes]
  refine run_stutter (R := Listens) ?_ ?_ listens_start
  · intro k e input hi none listens
    obtain ⟨p, -, rfl⟩ := List.mem_map.mp hi
    rw [keyRound_none listens.left listens.ch none]
    exact ⟨rfl, listens⟩
  · intro k e input hi c some listens
    obtain ⟨p, -, rfl⟩ := List.mem_map.mp hi
    rw [keyRound_byte listens.left some, listens.state]
    exact ⟨rfl, rfl, (byte_ch c).1, rfl⟩

/-- A byte, with `0x01` doubled. -/
def double (c : UInt8) : List UInt8 :=
  if c = 0x01 then [c, c] else [c]

/-- A doubled text is decoded to itself. -/
lemma decode_double : (run decodeByte false (s.flatMap double)).1.flatten = s.map .writeToSerial := by
  induction s with
  | nil => rfl
  | cons c s ih =>
    rw [List.flatMap_cons, List.map_cons, ← ih]
    by_cases one : c = 0x01
    · simp [double, one, decodeByte]
    · simp [double, one, decodeByte]

/-! ## What happens at a byte -/

/-- The number of `0x01` bytes in a row at the end of what was typed. -/
def onesAtEnd (t : List UInt8) : Nat :=
  (t.rtakeWhile (· == 0x01)).length

/-- Byte `j` is a `0x01` that is not escaped itself: the number of `0x01` bytes right before it is even. -/
def Unescaped (t : List UInt8) (j : Nat) : Prop :=
  t[j]? = some 0x01 ∧ Even (onesAtEnd (t.take j))

instance : Decidable (Unescaped t j) :=
  inferInstanceAs (Decidable (_ ∧ _))

/-- One more 0x01 at the end. -/
lemma onesAtEnd_append_one : onesAtEnd (t ++ [0x01]) = onesAtEnd t + 1 := by
  rw [onesAtEnd, List.rtakeWhile_concat_pos _ _ _ (by decide), List.length_append]
  rfl

/-- Another byte at the end. -/
lemma onesAtEnd_append_other (h : x ≠ 0x01) : onesAtEnd (t ++ [x]) = 0 := by
  rw [onesAtEnd, List.rtakeWhile_concat_neg _ _ _ (by simpa using h)]
  rfl

/-- The loop is in its escape state if and only if an odd number of `0x01` bytes was typed last. -/
lemma escaped_run : (run decodeByte false t).2 = true ↔ Odd (onesAtEnd t) := by
  induction t using List.reverseRecOn with
  | nil => simp [onesAtEnd]
  | append_singleton t x ih =>
    rw [run_concat]
    by_cases one : x = 0x01
    · subst one
      rw [onesAtEnd_append_one, Nat.odd_add_one, ← ih]
      cases (run decodeByte false t).2 with
      | true => simp [decodeByte]
      | false => simp [decodeByte]
    · rw [onesAtEnd_append_other one]
      cases (run decodeByte false t).2 with
      | true => simp [decodeByte]
      | false => simp [decodeByte, one]

/-- The escape state before a byte, by the byte before it. -/
lemma odd_iff_unescaped (h : i ≤ t.length) :
    Odd (onesAtEnd (t.take i)) ↔ 0 < i ∧ Unescaped t (i - 1) := by
  cases i with
  | zero => simp [onesAtEnd]
  | succ i =>
    have e : t.take (i + 1) = t.take i ++ [t[i]] := (List.take_append_getElem (by omega)).symm
    have get : t[i]? = some t[i] := List.getElem?_eq_getElem (by omega)
    simp only [Unescaped, Nat.add_sub_cancel, get, Option.some.injEq, Nat.succ_pos, true_and, e]
    by_cases one : t[i] = 0x01
    · rw [one, onesAtEnd_append_one, Nat.odd_add_one, Nat.not_odd_iff_even]
      simp
    · rw [onesAtEnd_append_other one]
      simp [one]

/-- What is to happen at byte `i` of what is typed. -/
def expected (t : List UInt8) (i : Nat) (x : UInt8) : List KeyEvent :=
  if 0 < i ∧ Unescaped t (i - 1) then
    if x = 0x03 then [.sigint] else if x = 0x01 then [.writeToSerial 0x01]
      else [.writeToSerial 0x01, .writeToSerial x]
  else if x = 0x01 then
    []
  else
    [.writeToSerial x]

/-- What the thread makes of the next byte is what is expected after those before it. -/
lemma decodeByte_expected (h : i ≤ t.length) :
    (decodeByte (run decodeByte false (t.take i)).2 x).1 = expected t i x := by
  have state := escaped_run.trans (odd_iff_unescaped h)
  unfold expected
  by_cases un : 0 < i ∧ Unescaped t (i - 1)
  · rw [state.mpr un, if_pos un]
    rfl
  · rw [Bool.eq_false_iff.mpr (fun e => un (state.mp e)), if_neg un]
    simp only [decodeByte, Bool.false_eq_true, if_false]
    split <;> rfl

/-- What is typed before a round are the first bytes of what is typed. -/
lemma typed_take (n : Nat) : typed (polls.take n) = (typed polls).take (typed (polls.take n)).length := by
  have e : typed polls = typed (polls.take n) ++ typed (polls.drop n) := by
    rw [typed, typed, typed, ← List.filterMap_append, List.take_append_drop]
  rw [e, List.take_left]

/-- What happens in a round: nothing if no byte is read, and else what is expected of the byte. -/
lemma keyboardThreadFunc_round {n : Nat} (h : polls[n]? = some p) :
    (keyboardThreadFunc polls).1[n]? = some (match p.byte? with
      | none => []
      | some x => expected (typed polls) (typed (polls.take n)).length x) := by
  obtain ⟨-, listens⟩ := @keyboardThreadFunc_typed (polls.take n)
  have before : (run keyRound keyboardStart ((polls.map (·, false)).take n)).2 =
      (keyboardThreadFunc (polls.take n)).2 := by
    rw [← List.map_take]
    rfl
  rw [keyboardThreadFunc, run_getElem?, List.getElem?_map, h, Option.map_some, Option.map_some, before]
  congr 1
  cases byte : p.byte? with
  | none => rw [keyRound_none listens.left listens.ch byte]
  | some x =>
    have len : (typed (polls.take n)).length ≤ (typed polls).length := by
      have e := congrArg List.length (@typed_take polls n)
      rw [List.length_take] at e
      omega
    rw [keyRound_byte listens.left byte, listens.state]
    nth_rewrite 1 [typed_take]
    exact decodeByte_expected len

/-- Whatever is typed, and however often nothing is read in between: a text with all its `0x01` bytes doubled is handed
over as it is, and nothing else happens; SIGINT is sent in exactly the rounds that read a `0x03` right behind an
unescaped `0x01`; and any other byte behind an unescaped `0x01` that is no `0x01` itself is handed over together with
it. -/
theorem keyboard_decodes (polls : List PollResult) :
    (∀ s : List UInt8, typed polls = s.flatMap double →
      (keyboardThreadFunc polls).1.flatten = s.map .writeToSerial) ∧
    ∀ n p, polls[n]? = some p → ∃ events, (keyboardThreadFunc polls).1[n]? = some events ∧
      (.sigint ∈ events ↔ p.byte? = some 0x03 ∧ 0 < (typed (polls.take n)).length ∧
        Unescaped (typed polls) ((typed (polls.take n)).length - 1)) ∧
      events = match p.byte? with
        | none => []
        | some x => expected (typed polls) (typed (polls.take n)).length x := by
  refine ⟨fun s text => ?_, fun n p h => ⟨_, keyboardThreadFunc_round h, ?_, rfl⟩⟩
  · rw [keyboardThreadFunc_typed.1, text, decode_double]
  · cases p.byte? with
    | none => simp
    | some x =>
      simp only [expected, Option.some.injEq]
      by_cases un : 0 < (typed (polls.take n)).length ∧ Unescaped (typed polls) ((typed (polls.take n)).length - 1)
      · rw [if_pos un]
        split
        · simp_all
        · split <;> simp_all
      · rw [if_neg un]
        split <;> simp [un]

/-- Ctrl+A twice and then Ctrl+C, with pauses, hands over Ctrl+A and Ctrl+C. -/
theorem keyboard_decodes_doubled :
    typed [.event true (some 1), .timeout, .event true (some 1), .failed, .event true (some 3)] =
      [1, 3].flatMap double ∧
    (keyboardThreadFunc
      [.event true (some 1), .timeout, .event true (some 1), .failed, .event true (some 3)]).1.flatten =
        [.writeToSerial 1, .writeToSerial 3] :=
  ⟨by decide, (keyboard_decodes _).1 [1, 3] (by decide)⟩

/-- Ctrl+A and then Ctrl+C interrupts, also behind a doubled Ctrl+A and with a pause. -/
example :
    (keyboardThreadFunc [.event true (some 1), .event true (some 1), .event true (some 1), .timeout,
      .event true (some 3)]).1 = [[], [.writeToSerial 1], [], [], [.sigint]] := by
  decide

end Mvvmm.Vm
