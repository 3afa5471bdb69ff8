import Mvvmm.Lib.CMem
import Mvvmm.Lib.Run
import Mvvmm.Uart.Device

/-!
# The serial port between the guest and the keyboard

The serial port together with what happens to it: the guest accesses its ports, and threads call
`write_to_serial`, one call for each element of an arbitrary type `C`. A call takes `rx_lock` and hands its
byte over if the receive register is empty; else it waits, and after it was woken up, for whatever reason,
it looks again. Its wait may also time out, and then it returns without looking.

Two properties are proved over all runs, each under the exact condition on the accesses of the guest that
the code needs for it.

* `irqAgrees_run`: the line of IRQ 4 and the register IIR agree. A write to offset 2, where the FIFO
  control register of a UART is, goes into IIR.
* `lossless_run`: the guest obtains the bytes of the keyboard, all of them and in order. With the divisor
  latch open, `handle_serial` accesses the receive register as well as the latch; and a write to the line
  status register changes the flag that says that a byte is there.
-/

namespace Mvvmm.Uart
open CMem Run

/-- Where a call is in `write_to_serial`. -/
inductive CallPc where
  /-- Before it locks `rx_lock`. -/
  | start
  /-- In `pthread_cond_timedwait`. -/
  | waiting
  /-- Returned, with its byte handed over or not. -/
  | returned (accepted : Bool)
  deriving DecidableEq, Repr

/-- The serial port, the calls of `write_to_serial`, and the history of the input, oldest first: the bytes
that `write_to_serial` has handed over, and those the guest has obtained. -/
structure Machine (C : Type) where
  s : Serial
  calls : C → CallPc
  accepted : List UInt8
  obtained : List UInt8

/-- What happens to the serial port. -/
inductive Act (C : Type) where
  /-- The guest accesses a port (C `handle_serial`). -/
  | guest (direction : Direction) (offset : Fin numRegs) (ioData : UInt8)
  /-- A call looks whether the receive register is empty. -/
  | write (k : C)
  /-- The wait of a call times out. -/
  | timeout (k : C)
  deriving DecidableEq, Repr

variable {C : Type} [DecidableEq C] {char : C → UInt8} {m m' : Machine C} {a : Act C} {s : Serial}
  {direction : Direction} {offset : Fin numRegs} {v : UInt8}

/-- The guest reads offset 0 with the divisor latch closed and a byte there. -/
def obtains (s : Serial) (direction : Direction) (offset : Fin numRegs) : Bool :=
  direction == .exitIn && offset == 0 && !isDlabSet s && !isRxEmpty s

/-- An access of the guest. -/
def access (m : Machine C) (direction : Direction) (offset : Fin numRegs) (ioData : UInt8) : Machine C :=
  let r := handleSerial m.s direction offset ioData
  { m with
    s := r.2
    obtained := if obtains m.s direction offset then m.obtained ++ [r.1] else m.obtained }

/-- C `write_to_serial`, a look at the receive register. -/
def writeToSerial (char : C → UInt8) (m : Machine C) (k : C) : Except Stop (Machine C) :=
  match m.calls k with
  | .start | .waiting =>
    if isRxEmpty m.s then
      return { m with
        s := receive m.s (char k)
        calls := Function.update m.calls k (.returned true)
        accepted := m.accepted ++ [char k] }
    else
      return { m with calls := Function.update m.calls k .waiting }
  | .returned _ => .error .blocked

/-- A wait that returns `ETIMEDOUT`. -/
def timedOut (m : Machine C) (k : C) : Except Stop (Machine C) :=
  match m.calls k with
  | .waiting => return { m with calls := Function.update m.calls k (.returned false) }
  | _ => .error .blocked

/-- A step of the serial port. -/
def serialStep (char : C → UInt8) (m : Machine C) : Act C → Except Stop (Machine C)
  | .guest direction offset ioData => return access m direction offset ioData
  | .write k => writeToSerial char m k
  | .timeout k => timedOut m k

/-- The serial port at start-up. -/
def start (C : Type) : Machine C :=
  ⟨serialInit, fun _ => .start, [], []⟩

/-- All that a step of the serial port can do. -/
inductive SerialEffect (char : C → UInt8) (m : Machine C) : Act C → Machine C → Prop where
  | guest {direction offset ioData} :
    SerialEffect char m (.guest direction offset ioData) (access m direction offset ioData)
  | accept {k : C} (empty : isRxEmpty m.s = true) :
    SerialEffect char m (.write k)
      { m with
        s := receive m.s (char k)
        calls := Function.update m.calls k (.returned true)
        accepted := m.accepted ++ [char k] }
  | leave {a : Act C} {calls} (no : ∀ direction offset ioData, a ≠ .guest direction offset ioData) :
    SerialEffect char m a { m with calls }

/-- Inversion of `serialStep`. -/
lemma serialStep_effect (h : serialStep char m a = .ok m') : SerialEffect char m a m' := by
  cases a with
  | guest direction offset ioData =>
    obtain rfl := Except.ok.inj h
    exact .guest
  | write k =>
    simp only [serialStep, writeToSerial] at h
    split at h
    case h_1 | h_2 =>
      split at h
      · obtain rfl := Except.ok.inj h
        exact .accept (by assumption)
      · obtain rfl := Except.ok.inj h
        exact .leave (by simp)
    case h_3 => cases h
  | timeout k =>
    simp only [serialStep, timedOut] at h
    split at h
    · obtain rfl := Except.ok.inj h
      exact .leave (by simp)
    · cases h

/-! ## The interrupt -/

/-- A value of IIR reports a pending interrupt: its bit 0 is clear. -/
def reportsIntr (iir : UInt8) : Bool :=
  iir &&& 1 == 0

/-- IIR says 1 if there is no interrupt. -/
@[simp]
lemma reportsIntr_none : reportsIntr 1 = false := by decide

/-- IIR says 2 for the interrupt of the transmitter. -/
@[simp]
lemma reportsIntr_tx : reportsIntr 2 = true := by decide

/-- IIR says 4 for the interrupt of the receiver. -/
@[simp]
lemma reportsIntr_rx : reportsIntr 4 = true := by decide

/-- The line is high if and only if IIR reports an interrupt, and IIR has one of its values. -/
structure IrqAgrees (s : Serial) : Prop where
  line : line s = reportsIntr (s.regs 2)
  iir : s.regs 2 = 1 ∨ s.regs 2 = 2 ∨ s.regs 2 = 4

/-- What the guest writes to offset 2, if it does, is a value of IIR and agrees with the line. -/
def FitsIir (s : Serial) (direction : Direction) (offset : Fin numRegs) (v : UInt8) : Prop :=
  direction = .exitOut → offset = 2 → line s = reportsIntr v ∧ (v = 1 ∨ v = 2 ∨ v = 4)

instance : Decidable (FitsIir s direction offset v) :=
  inferInstanceAs (Decidable (_ → _ → _))

/-- The line agrees with IIR at start-up. -/
lemma irqAgrees_init : IrqAgrees serialInit := by
  constructor
  · decide
  · decide

/-- The line agrees with IIR as long as both stay. -/
lemma IrqAgrees.congr {s' : Serial} (h : IrqAgrees s) (e : s'.regs 2 = s.regs 2)
    (el : Uart.line s' = Uart.line s) : IrqAgrees s' := by
  constructor
  · rw [el, e]
    exact h.line
  · rw [e]
    exact h.iir

/-- The transmit interrupt is only raised together with the line. -/
lemma irqAgrees_transmit (h : IrqAgrees s) : IrqAgrees (transmit s v) := by
  simp only [transmit]
  split
  · exact ⟨by simp [setTxIntr], by simp [setTxIntr]⟩
  · exact h.congr rfl rfl

/-- Reading IIR hands over from the receive to the transmit interrupt, or lowers the line. -/
lemma irqAgrees_readReg (h : IrqAgrees s) : IrqAgrees (readReg s offset).2 := by
  have eff := readReg_effect s offset
  generalize (readReg s offset).2 = s' at eff ⊢
  cases eff with
  | plain _ _ => exact h
  | handOver _ rx =>
    have high := h.line
    rw [show s.regs 2 = 4 by simpa [isRxIntrSet] using rx] at high
    exact ⟨by simpa [setTxIntr] using high, by simp [setTxIntr]⟩
  | clear _ => exact ⟨by simp [clearIntr], by simp [clearIntr]⟩
  | taken _ => exact h.congr (by simp [clearDataReady]) rfl

/-- An access of the guest keeps the agreement if and only if it fits IIR. -/
lemma irqAgrees_handleSerial (h : IrqAgrees s) :
    IrqAgrees (handleSerial s direction offset v).2 ↔ FitsIir s direction offset v := by
  cases direction with
  | exitIn =>
    rw [handleSerial_exitIn]
    exact iff_of_true (irqAgrees_readReg h) (by simp [FitsIir])
  | exitOut =>
    by_cases tx : offset = 0 ∧ isDlabSet s = false
    · rw [handleSerial_transmit tx]
      refine iff_of_true (irqAgrees_transmit h) ?_
      intro _ two
      exact absurd (tx.1.symm.trans two) (by decide)
    · rw [handleSerial_store tx]
      by_cases two : offset = 2
      · subst two
        constructor
        · intro agrees _ _
          exact ⟨by simpa [store_regs] using agrees.line, by simpa [store_regs] using agrees.iir⟩
        · intro fits
          obtain ⟨level, value⟩ := fits rfl rfl
          exact ⟨by simpa [store_regs] using level, by simpa [store_regs] using value⟩
      · refine iff_of_true ?_ (fun _ e => absurd e two)
        exact h.congr (by rw [store_regs, Function.update_of_ne (Ne.symm two)]) line_store

/-- A byte from the keyboard raises IIR and the line together. -/
lemma irqAgrees_receive (h : IrqAgrees s) : IrqAgrees (receive s v) := by
  simp only [receive, setDataReady]
  split
  · exact ⟨by simp [setRxIntr, line, setIrq], by simp [setRxIntr]⟩
  · exact h.congr (by simp) rfl

/-- The access of the guest, if it is one, fits IIR. -/
def FitsIirAct (m : Machine C) : Act C → Prop
  | .guest direction offset ioData => FitsIir m.s direction offset ioData
  | _ => True

instance (a : Act C) : Decidable (FitsIirAct m a) :=
  match a with
  | .guest direction offset ioData => inferInstanceAs (Decidable (FitsIir m.s direction offset ioData))
  | .write _ => .isTrue trivial
  | .timeout _ => .isTrue trivial

/-- A step keeps the agreement if and only if it fits IIR. -/
lemma irqAgrees_step (h : IrqAgrees m.s) (e : serialStep char m a = .ok m') :
    IrqAgrees m'.s ↔ FitsIirAct m a := by
  cases serialStep_effect e with
  | guest => exact irqAgrees_handleSerial h
  | accept _ => exact iff_of_true (irqAgrees_receive h) trivial
  | leave no =>
    refine iff_of_true h ?_
    cases a with
    | guest direction offset ioData => exact absurd rfl (no direction offset ioData)
    | _ => trivial

/-- As long as all accesses of the guest fit IIR, the line of IRQ 4 and IIR agree; and the first access
that does not fit ends the agreement. -/
theorem irqAgrees_run (char : C → UInt8) (r : Reach (serialStep char) FitsIirAct (start C) m) :
    IrqAgrees m.s ∧ ∀ a m', serialStep char m a = .ok m' → (IrqAgrees m'.s ↔ FitsIirAct m a) := by
  have agrees : IrqAgrees m.s := by
    refine r.invariant (I := fun m => IrqAgrees m.s) irqAgrees_init ?_
    intro m a m' _ h fits e
    exact (irqAgrees_step h e).mpr fits
  exact ⟨agrees, fun a m' e => irqAgrees_step agrees e⟩

/-- A byte is received with its interrupt enabled, and the guest reads IIR and the byte. -/
theorem irqAgrees_receive_byte :
    ∃ m, Reach (serialStep fun _ : Unit => 0x61) FitsIirAct (start Unit) m ∧
      m.obtained = [0x61] ∧ m.s.irqs = [false, true] ∧ IrqAgrees m.s := by
  obtain ⟨m, r, t⟩ := Reach.of_test (serialStep fun _ : Unit => 0x61) FitsIirAct .blocked (start Unit)
    [.guest .exitOut 1 1, .write (), .guest .exitIn 2 0, .guest .exitIn 0 0]
    (fun m => m.obtained == [0x61] && m.s.irqs == [false, true]) (by decide +kernel)
  simp only [Bool.and_eq_true, beq_iff_eq] at t
  exact ⟨m, r, t.1, t.2, (irqAgrees_run _ r).1⟩

/-- The guest enables the FIFOs (FCR = 0xc7), and IIR has a value that it never has. -/
theorem fcr_write_breaks_iir :
    ∃ m, Reach (serialStep fun _ : Unit => 0x61) always (start Unit) m ∧ m.s.regs 2 = 0xc7 ∧
      ¬ IrqAgrees m.s := by
  obtain ⟨m, r, t⟩ := Reach.of_test (serialStep fun _ : Unit => 0x61) always .blocked (start Unit)
    [.guest .exitOut 2 0xc7] (fun m => m.s.regs 2 == 0xc7) (by decide +kernel)
  have iir : m.s.regs 2 = 0xc7 := by simpa using t
  refine ⟨m, r, iir, ?_⟩
  intro h
  have value := h.iir
  rw [iir] at value
  revert value
  decide

/-! ## The input -/

/-- The byte that is in the receive register. -/
def pending (s : Serial) : List UInt8 :=
  if isRxEmpty s then [] else [s.regs 0]

/-- The guest has obtained the bytes that were handed over, in order and but for the one that is still
pending. -/
structure Lossless (m : Machine C) : Prop where
  ordered : m.obtained <+: m.accepted
  rest : m.accepted = m.obtained ∨ isRxEmpty m.s = false ∧ m.accepted = m.obtained ++ [m.s.regs 0]

/-- The access leaves the byte in the receive register alone unless it obtains it: the divisor latch is
not accessed at offset 0 while a byte is there (but for writing that same byte), and a write to the line
status register does not change the data-ready bit. -/
def KeepsPending (s : Serial) (direction : Direction) (offset : Fin numRegs) (v : UInt8) : Prop :=
  match direction with
  | .exitIn => offset = 0 → isDlabSet s = true → isRxEmpty s = true
  | .exitOut =>
    (offset = 0 → isDlabSet s = true → isRxEmpty s = true ∨ v = s.regs 0) ∧
      (offset = 5 → v &&& 1 = s.regs 5 &&& 1)

instance : Decidable (KeepsPending s direction offset v) :=
  match direction with
  | .exitIn => inferInstanceAs (Decidable (_ → _ → _))
  | .exitOut => inferInstanceAs (Decidable ((_ → _ → _) ∧ (_ → _)))

/-- Whether a byte is pending depends on two registers. -/
lemma pending_congr {s' : Serial} (e0 : s'.regs 0 = s.regs 0) (e5 : s'.regs 5 = s.regs 5) :
    pending s' = pending s := by
  have e : isRxEmpty s' = isRxEmpty s := by simp only [isRxEmpty, e5]
  simp only [pending, e, e0]

/-- A transmission leaves a pending byte alone. -/
lemma pending_transmit : pending (transmit s v) = pending s := by
  simp only [transmit]
  split
  · exact pending_congr (by simp [setTxIntr]) (by simp [setTxIntr])
  · exact pending_congr rfl rfl

/-- A write does not touch the pending byte. -/
lemma pending_exitOut (h : KeepsPending s .exitOut offset v) :
    pending (handleSerial s .exitOut offset v).2 = pending s := by
  obtain ⟨byte, status⟩ := h
  by_cases tx : offset = 0 ∧ isDlabSet s = false
  · rw [handleSerial_transmit tx, pending_transmit]
  · rw [handleSerial_store tx]
    by_cases zero : offset = 0
    · -- the write to the latch also goes to the receive register
      subst zero
      have set : isDlabSet s = true := by simpa using tx
      obtain empty | rfl := byte rfl set
      · have empty' : isRxEmpty (store s 0 v) = true := by
          simpa [isRxEmpty, store_regs] using empty
        simp only [pending, empty, empty', if_true]
      · exact pending_congr (by simp [store_regs]) (by simp [store_regs])
    · by_cases five : offset = 5
      · subst five
        have bit := status rfl
        simp [pending, isRxEmpty, store_regs, bit]
      · exact pending_congr (by rw [store_regs, Function.update_of_ne (Ne.symm zero)])
          (by rw [store_regs, Function.update_of_ne (Ne.symm five)])

/-- A read takes the pending byte, or leaves it. -/
lemma pending_exitIn (h : KeepsPending s .exitIn offset v) :
    pending s = (if obtains s .exitIn offset then [(handleSerial s .exitIn offset v).1] else []) ++
      pending (handleSerial s .exitIn offset v).2 := by
  rw [handleSerial_exitIn]
  by_cases zero : offset = 0
  · subst zero
    have keeps := h rfl
    simp only [readReg_zero, pending, obtains]
    by_cases empty : isRxEmpty s = true
    · simp [empty]
    · have closed : isDlabSet s = false := Bool.eq_false_iff.mpr fun dlab => empty (keeps dlab)
      simp [empty, closed]
  · have no : obtains s .exitIn offset = false := by simp [obtains, zero]
    rw [no, if_neg Bool.false_ne_true, List.nil_append]
    have eff := readReg_effect s offset
    generalize (readReg s offset).2 = s' at eff ⊢
    cases eff with
    | plain _ _ => rfl
    | handOver _ _ => exact pending_congr (by simp [setTxIntr]) (by simp [setTxIntr])
    | clear _ => exact pending_congr (by simp [clearIntr]) (by simp [clearIntr])
    | taken e => exact absurd e zero

/-- A byte that has been received is pending. -/
lemma pending_receive : pending (receive s v) = [v] := by
  have zero : (receive s v).regs 0 = v := by
    simp only [receive, setDataReady]
    split <;> simp [setRxIntr]
  have ready : isRxEmpty (receive s v) = false := isRxEmpty_setDataReady
  simp [pending, ready, zero]

/-- The access of the guest, if it is one, leaves the pending byte alone. -/
def KeepsPendingAct (m : Machine C) : Act C → Prop
  | .guest direction offset ioData => KeepsPending m.s direction offset ioData
  | _ => True

instance (a : Act C) : Decidable (KeepsPendingAct m a) :=
  match a with
  | .guest direction offset ioData =>
    inferInstanceAs (Decidable (KeepsPending m.s direction offset ioData))
  | .write _ => .isTrue trivial
  | .timeout _ => .isTrue trivial

/-- What was handed over is what was obtained and what is pending. -/
def Conserved (m : Machine C) : Prop :=
  m.accepted = m.obtained ++ pending m.s

omit [DecidableEq C] in

/-- No byte is lost at start-up. -/
lemma conserved_start : Conserved (start C) := by
  have empty : pending serialInit = [] := by decide
  simp [Conserved, start, empty]

/-- A step that leaves a pending byte alone loses none. -/
lemma conserved_step (h : Conserved m) (keeps : KeepsPendingAct m a)
    (e : serialStep char m a = .ok m') : Conserved m' := by
  cases serialStep_effect e with
  | @guest direction offset ioData =>
    simp only [Conserved, access] at h ⊢
    cases direction with
    | exitIn =>
      rw [h, pending_exitIn (v := ioData) keeps]
      split <;> simp
    | exitOut =>
      rw [h, pending_exitOut keeps]
      simp [obtains]
  | accept empty =>
    simp only [Conserved, pending, empty, if_true, List.append_nil] at h
    simp only [Conserved, pending_receive, h]
  | leave _ => exact h

omit [DecidableEq C] in

/-- Where every byte is accounted for, none is lost. -/
lemma Conserved.lossless (h : Conserved m) : Lossless m := by
  refine ⟨⟨pending m.s, h.symm⟩, ?_⟩
  cases empty : isRxEmpty m.s with
  | true =>
    left
    simpa [Conserved, pending, empty] using h
  | false =>
    right
    simpa [Conserved, pending, empty] using h

/-- As long as the guest leaves the pending byte alone, serial input is lossless. -/
theorem lossless_run (char : C → UInt8) (r : Reach (serialStep char) KeepsPendingAct (start C) m) :
    Lossless m := by
  have conserved : Conserved m := by
    refine r.invariant (I := Conserved) conserved_start ?_
    intro m a m' _ h keeps e
    exact conserved_step h keeps e
  exact conserved.lossless

/-- Two keys are pressed, one of them before the guest programs the divisor latch, which it does while no
byte is there. -/
theorem lossless_two_keys :
    ∃ m, Reach (serialStep fun k : Bool => if k then 0x61 else 0x62) KeepsPendingAct (start Bool) m ∧
      m.obtained = [0x61] ∧ m.accepted = [0x61, 0x62] ∧ Lossless m := by
  obtain ⟨m, r, t⟩ := Reach.of_test (serialStep fun k : Bool => if k then 0x61 else 0x62)
    KeepsPendingAct .blocked (start Bool)
    [.write true, .write false, .guest .exitIn 0 0, .guest .exitOut 3 0x80, .guest .exitOut 0 0x0c,
      .guest .exitOut 3 0x03, .write false]
    (fun m => m.obtained == [0x61] && m.accepted == [0x61, 0x62]) (by decide +kernel)
  simp only [Bool.and_eq_true, beq_iff_eq] at t
  exact ⟨m, r, t.1, t.2, lossless_run _ r⟩

/-- The guest programs the divisor latch while a byte is there, and then obtains the divisor instead. -/
theorem latch_overwrites_input :
    ∃ m, Reach (serialStep fun _ : Unit => 0x61) always (start Unit) m ∧ m.accepted = [0x61] ∧
      m.obtained = [0x0c] ∧ ¬ Lossless m := by
  obtain ⟨m, r, t⟩ := Reach.of_test (serialStep fun _ : Unit => 0x61) always .blocked (start Unit)
    [.write (), .guest .exitOut 3 0x80, .guest .exitOut 0 0x0c, .guest .exitOut 3 0x03,
      .guest .exitIn 0 0]
    (fun m => m.accepted == [0x61] && m.obtained == [0x0c]) (by decide +kernel)
  simp only [Bool.and_eq_true, beq_iff_eq] at t
  refine ⟨m, r, t.1, t.2, ?_⟩
  intro h
  have ordered := h.ordered
  rw [t.1, t.2] at ordered
  revert ordered
  decide

end Mvvmm.Uart
