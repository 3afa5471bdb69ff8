import Mathlib.Algebra.GroupWithZero.Nat
import Mathlib.Logic.Function.Basic

/-!
# The serial port

Model of `serial.c`: the registers of the UART, `handleSerial` (C `handle_serial`), which serves an access
of the guest to the ports `0x3f8` to `0x3ff`, and the part of `write_to_serial` that hands over a byte
(`receive`). Both run under `rx_lock`, so that each is a function of the device.

`handle_serial` looks at neither the size nor the count of an access and moves one byte. `mvvm_run` calls it
for the eight ports only, so the offset is a `Fin 8`. The calls of `ioctl` and `putchar` are history.
-/

namespace Mvvmm.Uart

/-- The number of registers. -/
def numRegs : Nat := 8

instance : NeZero numRegs :=
  ⟨by decide⟩

/-- C `struct serial`. The two lists are history, latest first: the levels driven on IRQ 4, and the bytes
written to the terminal. -/
structure Serial where
  regs : Fin numRegs → UInt8
  dl : Fin 2 → UInt8
  irqs : List Bool
  output : List UInt8

/-- C `run->io.direction`. -/
inductive Direction where
  | exitIn
  | exitOut
  deriving DecidableEq, Repr

/-- C `write_reg`. -/
def writeReg (s : Serial) (offset : Fin numRegs) (data : UInt8) : Serial :=
  { s with regs := Function.update s.regs offset data }

/-- C `clear_intr`. -/
def clearIntr (s : Serial) : Serial :=
  writeReg s 2 1

/-- C `set_rx_intr`. -/
def setRxIntr (s : Serial) : Serial :=
  writeReg s 2 4

/-- C `is_rx_intr_set`. -/
def isRxIntrSet (s : Serial) : Bool :=
  s.regs 2 == 4

/-- C `set_tx_intr`. -/
def setTxIntr (s : Serial) : Serial :=
  writeReg s 2 2

/-- C `set_data_ready`. -/
def setDataReady (s : Serial) : Serial :=
  writeReg s 5 (s.regs 5 ||| 1)

/-- C `clear_data_ready`. -/
def clearDataReady (s : Serial) : Serial :=
  writeReg s 5 (s.regs 5 &&& ~~~1)

/-- C `is_rx_empty`. -/
def isRxEmpty (s : Serial) : Bool :=
  s.regs 5 &&& 1 == 0

/-- C `is_dlab_set`. -/
def isDlabSet (s : Serial) : Bool :=
  s.regs 3 &&& 0x80 != 0

/-- C `is_tx_intr_enabled`. -/
def isTxIntrEnabled (s : Serial) : Bool :=
  s.regs 1 &&& 2 != 0

/-- C `is_rx_intr_enabled`. -/
def isRxIntrEnabled (s : Serial) : Bool :=
  s.regs 1 &&& 1 != 0

/-- C `set_irq`. -/
def setIrq (s : Serial) : Serial :=
  { s with irqs := true :: s.irqs }

/-- C `clear_irq`. -/
def clearIrq (s : Serial) : Serial :=
  { s with irqs := false :: s.irqs }

/-- C `serial_init`. -/
def serialInit : Serial :=
  clearIntr (writeReg ⟨fun _ => 0, fun _ => 0, [], []⟩ 5 0x60)

/-- The end of `write_to_serial`, once the receive register is empty. -/
def receive (s : Serial) (c : UInt8) : Serial :=
  let s := writeReg s 0 c
  let s := if isRxIntrEnabled s then setIrq (setRxIntr s) else s
  setDataReady s

/-- C `read_reg`. The signal of `rx_cond` only wakes up callers of `write_to_serial`, which wake up at
any time in the model. -/
def readReg (s : Serial) (offset : Fin numRegs) : UInt8 × Serial :=
  if offset = 7 then
    (0, s)
  else if offset = 2 then
    (s.regs 2, if isRxIntrSet s && isTxIntrEnabled s then setTxIntr s else clearIrq (clearIntr s))
  else if offset = 0 then
    (s.regs 0, clearDataReady s)
  else
    (s.regs offset, s)

/-- The first part of `handle_serial`, the access to the divisor latch: the byte and the device. -/
def accessLatch (s : Serial) (direction : Direction) (offset : Fin numRegs) (ioData : UInt8) :
    UInt8 × Serial :=
  if h : isDlabSet s = true ∧ offset.val < 2 then
    match direction with
    | .exitOut => (ioData, { s with dl := Function.update s.dl ⟨offset, h.2⟩ ioData })
    | .exitIn => (s.dl ⟨offset, h.2⟩, s)
  else
    (ioData, s)

/-- The transmission of a byte, in `handle_serial`. -/
def transmit (s : Serial) (ioData : UInt8) : Serial :=
  let s := { s with output := ioData :: s.output }
  if isTxIntrEnabled s && !isRxIntrSet s then setIrq (setTxIntr s) else s

/-- C `handle_serial`: the byte at `io_data` and the device afterwards. -/
def handleSerial (s : Serial) (direction : Direction) (offset : Fin numRegs) (ioData : UInt8) :
    UInt8 × Serial :=
  let r := accessLatch s direction offset ioData
  match direction with
  | .exitOut =>
    if offset = 0 ∧ isDlabSet r.2 = false then
      (r.1, transmit r.2 r.1)
    else
      (r.1, writeReg r.2 offset r.1)
  | .exitIn => readReg r.2 offset

/-- The level last driven on IRQ 4; as long as there is none, the line is low. -/
def line (s : Serial) : Bool :=
  s.irqs.headD false

section Fields
variable {s : Serial} {offset k : Fin numRegs} {c data : UInt8} {direction : Direction}

/-- The registers after a write to one of them. -/
@[simp]
lemma writeReg_regs : (writeReg s offset data).regs k = if k = offset then data else s.regs k := by
  simp [writeReg, Function.update_apply]

/-- A write to a register does not touch the interrupt. -/
@[simp]
lemma writeReg_irqs : (writeReg s offset data).irqs = s.irqs := rfl

/-- Raising the interrupt keeps the registers. -/
@[simp]
lemma setIrq_regs : (setIrq s).regs = s.regs := rfl

/-- Lowering the interrupt keeps the registers. -/
@[simp]
lemma clearIrq_regs : (clearIrq s).regs = s.regs := rfl

/-- The line is high when the interrupt has been raised. -/
@[simp]
lemma line_setIrq : line (setIrq s) = true := rfl

/-- The line is low when the interrupt has been lowered. -/
@[simp]
lemma line_clearIrq : line (clearIrq s) = false := rfl

/-- A write to a register keeps the line. -/
@[simp]
lemma line_writeReg : line (writeReg s offset data) = line s := rfl

/-- The divisor latch is no register. -/
@[simp]
lemma accessLatch_regs : (accessLatch s direction offset data).2.regs = s.regs := by
  simp only [accessLatch]
  split
  · cases direction <;> rfl
  · rfl

/-- A write stores the byte of the guest. -/
@[simp]
lemma accessLatch_exitOut : (accessLatch s .exitOut offset data).1 = data := by
  simp only [accessLatch]
  split <;> rfl

/-- There is a byte when it has been announced. -/
@[simp]
lemma isRxEmpty_setDataReady : isRxEmpty (setDataReady s) = false := by
  have h : (s.regs 5 ||| 1) &&& 1 = 1 := by
    apply UInt8.toBitVec_inj.mp
    ext i hi
    simp
    omega
  simp [isRxEmpty, setDataReady, h]

/-- There is no byte when it has been taken. -/
@[simp]
lemma isRxEmpty_clearDataReady : isRxEmpty (clearDataReady s) = true := by
  simp [isRxEmpty, clearDataReady, UInt8.and_assoc]

/-- Clearing the data-ready bit when it is clear changes nothing. -/
lemma clearDataReady_of_empty (empty : isRxEmpty s = true) : clearDataReady s = s := by
  have all : ∀ b : BitVec 8, b &&& 1 = 0 → b &&& ~~~1 = b := by decide
  have clear : s.regs 5 &&& 1 = 0 := by simpa [isRxEmpty] using empty
  have kept : s.regs 5 &&& ~~~1 = s.regs 5 :=
    UInt8.toBitVec_inj.mp (all (s.regs 5).toBitVec (congrArg UInt8.toBitVec clear))
  simp only [clearDataReady, writeReg, kept, Function.update_eq_self]

/-- A read does not depend on the latch, which `read_reg` overwrites the byte of. -/
lemma handleSerial_exitIn : handleSerial s .exitIn offset data = readReg s offset := by
  have state : (accessLatch s .exitIn offset data).2 = s := by
    simp only [accessLatch]
    split <;> rfl
  simp only [handleSerial, state]

/-- A write to a register, and to the latch if it is open. -/
def store (s : Serial) (offset : Fin numRegs) (c : UInt8) : Serial :=
  writeReg (accessLatch s .exitOut offset c).2 offset c

/-- A write that does not go to the transmitter is stored. -/
lemma handleSerial_store (h : ¬ (offset = 0 ∧ isDlabSet s = false)) :
    handleSerial s .exitOut offset c = (c, store s offset c) := by
  have same : isDlabSet (accessLatch s .exitOut offset c).2 = isDlabSet s := by
    simp only [isDlabSet, accessLatch_regs]
  simp only [handleSerial, accessLatch_exitOut, same, if_neg h]
  rfl

/-- A write to the transmitter is transmitted. -/
lemma handleSerial_transmit (h : offset = 0 ∧ isDlabSet s = false) :
    handleSerial s .exitOut offset c = (c, transmit s c) := by
  have latch : accessLatch s .exitOut offset c = (c, s) := by
    simp only [accessLatch, h.2, Bool.false_eq_true, false_and, dite_false]
  simp only [handleSerial, latch, if_pos h]

/-- A write is stored in its register, with or without the latch. -/
lemma store_regs : (store s offset c).regs = Function.update s.regs offset c := by
  simp only [store, writeReg, accessLatch_regs]

/-- A write that is stored does not touch the interrupt. -/
@[simp]
lemma store_irqs : (store s offset c).irqs = s.irqs := by
  simp only [store, writeReg_irqs, accessLatch]
  split <;> rfl

/-- A write that is stored keeps the line. -/
@[simp]
lemma line_store : line (store s offset c) = line s := by
  rw [line, store_irqs, line]

/-- Writes at the offsets of the latch do not close it. -/
lemma isDlabSet_store (h : offset.val < 2) : isDlabSet (store s offset c) = isDlabSet s := by
  have ne : (3 : Fin numRegs) ≠ offset := fun e => by
    rw [← e] at h
    exact absurd h (by decide)
  simp only [isDlabSet, store_regs, Function.update_of_ne ne]

/-- With DLAB set, a write to the first two registers goes to the latch as well. -/
lemma store_open (h : isDlabSet s = true ∧ offset.val < 2) :
    store s offset c = writeReg { s with dl := Function.update s.dl ⟨offset, h.2⟩ c } offset c := by
  simp only [store, accessLatch, dif_pos h]

/-- Otherwise a write goes to its register only. -/
lemma store_closed (h : ¬ (isDlabSet s = true ∧ offset.val < 2)) : store s offset c = writeReg s offset c := by
  simp only [store, accessLatch, dif_neg h]

/-- A read of the receiver takes the byte. -/
lemma readReg_zero : readReg s 0 = (s.regs 0, clearDataReady s) := rfl

/-- A read of IER changes nothing. -/
lemma readReg_one : readReg s 1 = (s.regs 1, s) := rfl

/-- A read of IIR gives way to the interrupt of the transmitter, or clears the interrupt. -/
lemma readReg_two :
    (readReg s 2).2 = if isRxIntrSet s && isTxIntrEnabled s then setTxIntr s else clearIrq (clearIntr s) := rfl

/-- A read at one of the offsets where it is no more than that. -/
lemma readReg_plain (two : offset ≠ 2) (zero : offset ≠ 0) : (readReg s offset).2 = s := by
  simp only [readReg, if_neg two, if_neg zero]
  split <;> rfl

/-- All that a read can do to the device. -/
inductive ReadEffect (s : Serial) (offset : Fin numRegs) : Serial → Prop
  | plain (two : offset ≠ 2) (zero : offset ≠ 0) : ReadEffect s offset s
  | handOver (two : offset = 2) (rx : isRxIntrSet s = true) : ReadEffect s offset (setTxIntr s)
  | clear (two : offset = 2) : ReadEffect s offset (clearIrq (clearIntr s))
  | taken (zero : offset = 0) : ReadEffect s offset (clearDataReady s)

/-- All that a read of a register can do. -/
lemma readReg_effect (s : Serial) (offset : Fin numRegs) : ReadEffect s offset (readReg s offset).2 := by
  by_cases two : offset = 2
  · subst two
    rw [readReg_two]
    split
    · rename_i both
      exact .handOver rfl (Bool.and_eq_true_iff.mp both).1
    · exact .clear rfl
  by_cases zero : offset = 0
  · subst zero
    exact .taken rfl
  · rw [readReg_plain two zero]
    exact .plain two zero

end Fields

end Mvvmm.Uart
