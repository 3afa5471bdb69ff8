import Mvvmm.Lib.Mealy
import Mvvmm.Uart.Machine

/-!
# String input and output

An exit of `KVM_EXIT_IO` may stand for several accesses: `rep outsb` to a port gives one exit with a count, and as many
bytes at `data_offset`. `handle_serial` reads and writes the first of them, whatever the count is.

`stringIo_iff` compares an exit with its bytes served one by one. They agree if and only if the other accesses
make no difference (`Harmless`): there is one byte only, or the last byte written to a register is also the first one, or
the bytes read are already there and a further read does nothing.
-/

namespace Mvvmm.Uart
open CMem Mealy Run

/-- C `handle_serial` for the bytes at `data_offset` of an exit. -/
def handleSerialExit (s : Serial) (direction : Direction) (offset : Fin numRegs) : List UInt8 → List UInt8 × Serial
  | [] => ([], s)
  | c :: rest => ((handleSerial s direction offset c).1 :: rest, (handleSerial s direction offset c).2)

/-- The bytes of an exit served by an exit each. -/
def handleEach (s : Serial) (direction : Direction) (offset : Fin numRegs) (data : List UInt8) : List UInt8 × Serial :=
  run (fun s c => handleSerial s direction offset c) s data

/-- The same registers, latch, level of IRQ 4 and output. -/
structure Alike (s t : Serial) : Prop where
  regs : s.regs = t.regs
  dl : s.dl = t.dl
  line : line s = line t
  output : s.output = t.output

/-- What the port returns when it is read once more: SCR reads as 0, and IIR says that there is no interrupt. -/
def again (s : Serial) (offset : Fin numRegs) : UInt8 :=
  if offset = 7 then 0 else if offset = 2 then 1 else s.regs offset

/-- The bytes after the first one make no difference. -/
def Harmless (s : Serial) (direction : Direction) (offset : Fin numRegs) (c : UInt8) (rest : List UInt8) : Prop :=
  rest = [] ∨ match direction with
    | .exitOut => ¬ (offset = 0 ∧ isDlabSet s = false) ∧ rest.getLast? = some c
    | .exitIn => (∀ b ∈ rest, b = again s offset) ∧
      (offset = 2 → (isRxIntrSet s && isTxIntrEnabled s) = false)

variable {s t : Serial} {direction : Direction} {offset : Fin numRegs} {c c' : UInt8} {rest data : List UInt8}

/-- A state is like itself. -/
lemma Alike.refl : Alike s s :=
  ⟨rfl, rfl, rfl, rfl⟩

/-- States are alike in both directions. -/
lemma Alike.symm (h : Alike s t) : Alike t s :=
  ⟨h.regs.symm, h.dl.symm, h.line.symm, h.output.symm⟩

/-- States that are like a third one. -/
lemma Alike.trans {u : Serial} (h : Alike s t) (h' : Alike t u) : Alike s u :=
  ⟨h.regs.trans h'.regs, h.dl.trans h'.dl, h.line.trans h'.line, h.output.trans h'.output⟩

/-! ## Writes -/

/-- A write that is stored does not open the transmitter. -/
lemma plain_store (h : ¬ (offset = 0 ∧ isDlabSet s = false)) : ¬ (offset = 0 ∧ isDlabSet (store s offset c) = false) := by
  rintro ⟨rfl, clear⟩
  rw [isDlabSet_store (by decide)] at clear
  exact h ⟨rfl, clear⟩

/-- The last write stays. -/
lemma store_store : store (store s offset c) offset c' = store s offset c' := by
  by_cases h : isDlabSet s = true ∧ offset.val < 2
  · have still : isDlabSet (store s offset c) = true ∧ offset.val < 2 := ⟨by rw [isDlabSet_store h.2, h.1], h.2⟩
    rw [store_open still]
    simp only [store_open h, writeReg, Function.update_idem]
  · have still : ¬ (isDlabSet (store s offset c) = true ∧ offset.val < 2) := by
      rintro ⟨dlab, lt⟩
      rw [isDlabSet_store lt] at dlab
      exact h ⟨dlab, lt⟩
    rw [store_closed still, store_closed h, store_closed h]
    simp only [writeReg, Function.update_idem]

/-- Writes to a register, one by one. -/
lemma handleEach_store (h : ¬ (offset = 0 ∧ isDlabSet s = false)) :
    handleEach s .exitOut offset (c :: rest) = (c :: rest, store s offset (rest.getLastD c)) := by
  induction rest generalizing s c with
  | nil => rw [handleEach, run_cons, handleSerial_store h]; rfl
  | cons b rest ih =>
    have tail := ih (s := store s offset c) (c := b) (plain_store h)
    rw [handleEach] at tail ⊢
    rw [run_cons, handleSerial_store h, tail, store_store, List.getLastD_cons]

/-- Transmitted bytes, one by one. -/
lemma handleEach_transmit (h : offset = 0 ∧ isDlabSet s = false) (data : List UInt8) :
    (handleEach s .exitOut offset data).2.output = data.reverse ++ s.output := by
  induction data generalizing s with
  | nil => rfl
  | cons c data ih =>
    have output : (transmit s c).output = c :: s.output := by
      simp only [transmit]
      split <;> rfl
    have closed : isDlabSet (transmit s c) = false := by
      rw [← h.2]
      simp only [transmit]
      split <;> rfl
    have tail := ih (s := transmit s c) ⟨h.1, closed⟩
    rw [handleEach] at tail ⊢
    rw [run_cons, handleSerial_transmit h]
    simp only
    rw [tail, output, List.reverse_cons, List.append_assoc, List.singleton_append]

/-- Stored writes leave states that are alike if and only if they are the same. -/
lemma store_alike : Alike (store s offset c) (store s offset c') ↔ c = c' := by
  constructor
  · intro h
    have same := congrFun h.regs offset
    simpa [store_regs] using same
  · rintro rfl
    exact .refl

/-! ## Reads -/

/-- A read looks at the registers only. -/
lemma readReg_alike (h : Alike s t) (offset : Fin numRegs) :
    (readReg s offset).1 = (readReg t offset).1 ∧ Alike (readReg s offset).2 (readReg t offset).2 := by
  constructor
  · simp only [readReg, h.regs]
    split
    · rfl
    · split
      · rfl
      · split <;> rfl
  by_cases two : offset = 2
  · subst two
    have same : (isRxIntrSet s && isTxIntrEnabled s) = (isRxIntrSet t && isTxIntrEnabled t) := by
      simp only [isRxIntrSet, isTxIntrEnabled, h.regs]
    rw [readReg_two, readReg_two, same]
    split
    · exact ⟨congrArg (Function.update · 2 2) h.regs, h.dl, h.line, h.output⟩
    · exact ⟨congrArg (Function.update · 2 1) h.regs, h.dl, rfl, h.output⟩
  by_cases zero : offset = 0
  · subst zero
    exact ⟨congrArg (fun regs => Function.update regs 5 (regs 5 &&& ~~~1)) h.regs, h.dl, h.line, h.output⟩
  · rw [readReg_plain two zero, readReg_plain two zero]
    exact h

/-- If a read does nothing, no number of them does anything, and all return the same. -/
lemma handleEach_settled (h : Alike (readReg s offset).2 s) (like : Alike t s) (data : List UInt8) :
    (handleEach t .exitIn offset data).1 = data.map (fun _ => (readReg s offset).1) ∧
      Alike (handleEach t .exitIn offset data).2 s := by
  induction data generalizing t with
  | nil => exact ⟨rfl, like⟩
  | cons c data ih =>
    obtain ⟨value, next⟩ := readReg_alike like offset
    obtain ⟨values, last⟩ := ih (next.trans h)
    rw [handleEach] at values last ⊢
    rw [run_cons, handleSerial_exitIn]
    exact ⟨by rw [List.map_cons, value, values], last⟩

/-- A read of IIR that finds no interrupt to give way to. -/
lemma readReg_iir (h : (isRxIntrSet s && isTxIntrEnabled s) = false) : (readReg s 2).2 = clearIrq (clearIntr s) := by
  rw [readReg_two, h]
  rfl

/-- There is no interrupt of the receiver once the interrupt has been cleared. -/
lemma isRxIntrSet_clear : isRxIntrSet (clearIrq (clearIntr s)) = false := rfl

/-- The first read settles the register, apart from one of IIR that gives way to the next interrupt. -/
lemma readReg_settles (h : offset = 2 → (isRxIntrSet s && isTxIntrEnabled s) = false) :
    Alike (readReg (readReg s offset).2 offset).2 (readReg s offset).2 := by
  by_cases two : offset = 2
  · subst two
    rw [readReg_iir (h rfl), readReg_iir (by rw [isRxIntrSet_clear, Bool.false_and])]
    refine ⟨?_, rfl, rfl, rfl⟩
    simp only [clearIrq, clearIntr, writeReg, Function.update_idem]
  by_cases zero : offset = 0
  · subst zero
    change Alike (clearDataReady (clearDataReady s)) (clearDataReady s)
    rw [clearDataReady_of_empty isRxEmpty_clearDataReady]
    exact .refl
  · rw [readReg_plain two zero, readReg_plain two zero]
    exact .refl

/-- The next read, if the first one has settled the register. -/
lemma readReg_again (h : offset = 2 → (isRxIntrSet s && isTxIntrEnabled s) = false) :
    (readReg (readReg s offset).2 offset).1 = again s offset := by
  by_cases two : offset = 2
  · subst two
    rw [readReg_iir (h rfl)]
    rfl
  by_cases zero : offset = 0
  · subst zero
    rfl
  · rw [readReg_plain two zero]
    simp only [readReg, again, two, zero, if_false]
    split <;> rfl

/-- After a read of IIR there is no interrupt of the receiver left, and one more read leaves none at all. -/
lemma handleEach_iir (none : isRxIntrSet s = false) (ne : data ≠ []) : (handleEach s .exitIn 2 data).2.regs 2 = 1 := by
  induction data generalizing s with
  | nil => exact absurd rfl ne
  | cons c data ih =>
    have first : (readReg s 2).2 = clearIrq (clearIntr s) := readReg_iir (by rw [none, Bool.false_and])
    by_cases last : data = []
    · subst last
      rw [handleEach, run_cons, handleSerial_exitIn, first]
      rfl
    · have rest := ih (s := clearIrq (clearIntr s)) rfl last
      rw [handleEach] at rest ⊢
      rw [run_cons, handleSerial_exitIn, first, rest]

/-! ## An exit -/

/-- An exit of several bytes gives the bytes, registers, interrupt and output of as many exits of one byte if and only if the
bytes after the first one make no difference. -/
theorem stringIo_iff (s : Serial) (direction : Direction) (offset : Fin numRegs) (c : UInt8) (rest : List UInt8) :
    ((handleSerialExit s direction offset (c :: rest)).1 = (handleEach s direction offset (c :: rest)).1 ∧
      Alike (handleSerialExit s direction offset (c :: rest)).2 (handleEach s direction offset (c :: rest)).2) ↔
      Harmless s direction offset c rest := by
  by_cases one : rest = []
  · subst one
    exact iff_of_true ⟨rfl, .refl⟩ (.inl rfl)
  simp only [Harmless, one, false_or]
  cases direction with
  | exitOut =>
    by_cases h : offset = 0 ∧ isDlabSet s = false
    · refine iff_of_false ?_ (fun harmless => harmless.1 h)
      rintro ⟨-, alike⟩
      have first := handleEach_transmit h [c]
      have length := congrArg List.length (alike.output.symm.trans first)
      rw [handleEach_transmit h (c :: rest)] at length
      exact one (by simpa using length)
    · rw [handleEach_store h, handleSerialExit, handleSerial_store h]
      simp only [true_and, store_alike, h, not_false_eq_true]
      rw [List.getLastD_eq_getLast?, List.getLast?_eq_some_getLast one, Option.getD_some, Option.some_inj, eq_comm]
  | exitIn =>
    -- the reads after the first one
    have each : handleEach s .exitIn offset (c :: rest) = ((readReg s offset).1 ::
        (handleEach (readReg s offset).2 .exitIn offset rest).1, (handleEach (readReg s offset).2 .exitIn offset rest).2) := by
      rw [handleEach, run_cons, handleSerial_exitIn]
      rfl
    rw [each, handleSerialExit, handleSerial_exitIn]
    simp only [List.cons.injEq, true_and]
    constructor
    · rintro ⟨bytes, alike⟩
      have settled : offset = 2 → (isRxIntrSet s && isTxIntrEnabled s) = false := by
        rintro rfl
        by_contra intr
        have first : (readReg s 2).2 = setTxIntr s := by
          rw [readReg_two, if_pos (by simpa using intr)]
        have same := congrFun alike.regs 2
        rw [first, handleEach_iir rfl one] at same
        exact absurd same (by simp [setTxIntr])
      refine ⟨?_, settled⟩
      rw [(handleEach_settled (readReg_settles settled) .refl rest).1, readReg_again settled] at bytes
      intro b hb
      rw [bytes] at hb
      obtain ⟨_, -, rfl⟩ := List.mem_map.mp hb
      rfl
    · rintro ⟨bytes, settled⟩
      obtain ⟨values, last⟩ := handleEach_settled (readReg_settles settled) .refl rest
      rw [values, readReg_again settled, List.map_const']
      exact ⟨List.eq_replicate_of_mem bytes, last.symm⟩

/-- At start-up, the guest writes two bytes to the transmit register with one instruction, and one of them is printed. -/
theorem string_prints_one_byte :
    (handleSerialExit serialInit .exitOut 0 [0x61, 0x62]).2.output = [0x61] ∧
      (handleEach serialInit .exitOut 0 [0x61, 0x62]).2.output = [0x62, 0x61] ∧
      ¬ Alike (handleSerialExit serialInit .exitOut 0 [0x61, 0x62]).2 (handleEach serialInit .exitOut 0 [0x61, 0x62]).2 := by
  have one : (handleSerialExit serialInit .exitOut 0 [0x61, 0x62]).2.output = [0x61] := by decide
  have both : (handleEach serialInit .exitOut 0 [0x61, 0x62]).2.output = [0x62, 0x61] := by decide
  refine ⟨one, both, ?_⟩
  intro h
  have same := h.output
  rw [one, both] at same
  cases same

end Mvvmm.Uart
