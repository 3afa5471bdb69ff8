import Mvvmm.Uart.Machine

/-!
# Received bytes and their interrupt

`write_to_serial` decides once, when it stores a byte, whether the guest is interrupted for it: it looks at the
receive-interrupt enable bit of IER and raises the interrupt at once or never. Nothing looks at the line status
register again when the guest sets that bit later, so a byte that came before is not announced.

The machine keeps a note on the byte that was stored last: whether the receive interrupt was raised since.
`tells_run` says which accesses of the guest lead to a byte that it is not told of.
-/

namespace Mvvmm.Uart
open CMem Run

/-- The receive interrupt is raised by a step: IIR is set to 0x04, and IRQ 4 is driven high. -/
def raisesRx (s s' : Serial) : Bool :=
  s'.regs 2 == 4 && s'.irqs == true :: s.irqs

/-- The serial port, and whether the receive interrupt was raised since the last byte was stored. -/
structure Watched (C : Type) where
  m : Machine C
  raised : Bool

variable {C : Type} [DecidableEq C] {char : C → UInt8} {t t' : Watched C} {a : Act C} {s : Serial}
  {direction : Direction} {offset : Fin numRegs} {v : UInt8}

/-- A step of the serial port. The interrupt for a byte may be raised by the very step that stores it. -/
def watchedStep (char : C → UInt8) (t : Watched C) (a : Act C) : Except Stop (Watched C) := do
  let m ← serialStep char t.m a
  let stored := t.m.accepted.length < m.accepted.length
  return ⟨m, raisesRx t.m.s m.s || (!stored && t.raised)⟩

/-- The serial port at start-up. -/
def watchedStart (C : Type) : Watched C :=
  ⟨start C, false⟩

/-- If a byte is there and its interrupt is enabled, then the interrupt was raised since it was stored. -/
def Tells (t : Watched C) : Prop :=
  isRxEmpty t.m.s = false → isRxIntrEnabled t.m.s = true → t.raised = true

/-- The guest does not enable the interrupt while a byte is there that it was not told of, nor does it set the
data-ready bit itself while the interrupt is enabled. -/
def AsksInTime (t : Watched C) (direction : Direction) (offset : Fin numRegs) (v : UInt8) : Prop :=
  direction = .exitOut → v &&& 1 ≠ 0 → t.raised = false →
    (offset = 1 → isRxEmpty t.m.s = true) ∧ (offset = 5 → isRxIntrEnabled t.m.s = false)

instance : Decidable (AsksInTime t direction offset v) :=
  inferInstanceAs (Decidable (_ → _ → _ → _ ∧ _))

/-- The access of the guest, if it is one, asks in time. -/
def AsksInTimeAct (t : Watched C) : Act C → Prop
  | .guest direction offset ioData => AsksInTime t direction offset ioData
  | _ => True

instance (a : Act C) : Decidable (AsksInTimeAct t a) :=
  match a with
  | .guest direction offset ioData => inferInstanceAs (Decidable (AsksInTime t direction offset ioData))
  | .write _ => .isTrue trivial
  | .timeout _ => .isTrue trivial

/-! ## Accesses of the guest -/

/-- Reading a register raises nothing: the line is left alone or lowered. -/
lemma raisesRx_readReg : raisesRx s (readReg s offset).2 = false := by
  have eff := readReg_effect s offset
  generalize (readReg s offset).2 = s' at eff ⊢
  cases eff with
  | plain _ _ => simp [raisesRx]
  | handOver _ _ => simp [raisesRx, setTxIntr]
  | clear _ => simp [raisesRx, clearIrq]
  | taken _ => simp [raisesRx, clearDataReady]

/-- Sending a byte raises the transmit interrupt, if any. -/
lemma raisesRx_transmit : raisesRx s (transmit s v) = false := by
  simp only [transmit]
  split
  · simp [raisesRx, setTxIntr]
  · simp [raisesRx]

/-- No access of the guest raises the receive interrupt. -/
lemma raisesRx_handleSerial : raisesRx s (handleSerial s direction offset v).2 = false := by
  cases direction with
  | exitIn =>
    rw [handleSerial_exitIn]
    exact raisesRx_readReg
  | exitOut =>
    by_cases tx : offset = 0 ∧ isDlabSet s = false
    · rw [handleSerial_transmit tx]
      exact raisesRx_transmit
    · rw [handleSerial_store tx]
      simp [raisesRx]

/-- A read takes the byte, or leaves the two bits alone. -/
lemma readReg_bits :
    isRxEmpty (readReg s offset).2 = (isRxEmpty s || offset == 0) ∧
      isRxIntrEnabled (readReg s offset).2 = isRxIntrEnabled s := by
  have eff := readReg_effect s offset
  generalize (readReg s offset).2 = s' at eff ⊢
  cases eff with
  | plain _ zero => simp [zero]
  | handOver two _ => simp [two, isRxEmpty, isRxIntrEnabled, setTxIntr]
  | clear two => simp [two, isRxEmpty, isRxIntrEnabled, clearIntr]
  | taken zero =>
    refine ⟨by simp [zero], ?_⟩
    simp [isRxIntrEnabled, clearDataReady]

/-- Sending a byte leaves the two bits alone. -/
lemma transmit_bits :
    isRxEmpty (transmit s v) = isRxEmpty s ∧ isRxIntrEnabled (transmit s v) = isRxIntrEnabled s := by
  simp only [transmit]
  split
  · simp [isRxEmpty, isRxIntrEnabled, setTxIntr]
  · simp [isRxEmpty, isRxIntrEnabled]

/-- A byte stored in a register changes the two bits if the register is the one that holds them. -/
lemma store_bits :
    isRxEmpty (store s offset v) = (if offset = 5 then v &&& 1 == 0 else isRxEmpty s) ∧
      isRxIntrEnabled (store s offset v) = if offset = 1 then v &&& 1 != 0 else isRxIntrEnabled s := by
  simp only [isRxEmpty, isRxIntrEnabled, store_regs, Function.update_apply, eq_comm (a := offset)]
  constructor <;> split <;> rfl

omit [DecidableEq C] in
/-- An access of the guest leaves the guest told of its byte if and only if it asks in time. -/
lemma tells_access (h : Tells t) :
    Tells ⟨access t.m direction offset v, t.raised⟩ ↔ AsksInTime t direction offset v := by
  cases direction with
  | exitIn =>
    refine iff_of_true ?_ (by simp [AsksInTime])
    intro full en
    simp only [access, handleSerial_exitIn, readReg_bits.1, readReg_bits.2] at full en
    exact h (by simp at full; exact full.1) en
  | exitOut =>
    by_cases tx : offset = 0 ∧ isDlabSet t.m.s = false
    · -- the byte goes to the terminal
      simp only [Tells, access, handleSerial_transmit tx, transmit_bits.1, transmit_bits.2]
      refine iff_of_true h ?_
      intro _ _ _
      exact ⟨fun one => absurd (tx.1.symm.trans one) (by decide),
        fun five => absurd (tx.1.symm.trans five) (by decide)⟩
    · simp only [Tells, access, handleSerial_store tx, store_bits.1, store_bits.2]
      simp only [Tells] at h
      simp only [AsksInTime, true_imp_iff]
      by_cases one : offset = 1
      · subst one
        grind
      · by_cases five : offset = 5
        · subst five
          grind
        · simp only [one, five, if_false]
          exact iff_of_true h (fun _ _ => ⟨False.elim, False.elim⟩)

/-! ## Runs -/

/-- Only a write to IER changes whether the interrupt of the receiver is enabled. -/
lemma isRxIntrEnabled_writeReg (ne : offset ≠ 1) : isRxIntrEnabled (writeReg s offset v) = isRxIntrEnabled s := by
  rw [isRxIntrEnabled, writeReg_regs, if_neg (Ne.symm ne), isRxIntrEnabled]

/-- A byte whose interrupt is enabled raises it. -/
lemma raisesRx_receive : raisesRx s (receive s v) = isRxIntrEnabled s := by
  have same : isRxIntrEnabled (writeReg s 0 v) = isRxIntrEnabled s := isRxIntrEnabled_writeReg (by decide)
  simp only [receive, same]
  cases isRxIntrEnabled s with
  | true => simp [raisesRx, setDataReady, setRxIntr, setIrq]
  | false => simp [raisesRx, setDataReady]

/-- A byte that is received does not change whether its interrupt is enabled. -/
lemma isRxIntrEnabled_receive : isRxIntrEnabled (receive s v) = isRxIntrEnabled s := by
  simp only [receive, setDataReady]
  split
  · rw [isRxIntrEnabled_writeReg (by decide)]
    change isRxIntrEnabled (writeReg (writeReg s 0 v) 2 4) = _
    rw [isRxIntrEnabled_writeReg (by decide), isRxIntrEnabled_writeReg (by decide)]
  · rw [isRxIntrEnabled_writeReg (by decide), isRxIntrEnabled_writeReg (by decide)]

/-- A step leaves the guest told of its byte if and only if it asks in time. -/
lemma tells_step (h : Tells t) (e : watchedStep char t a = .ok t') : Tells t' ↔ AsksInTimeAct t a := by
  obtain ⟨m', step, e⟩ := bind_eq_ok.mp e
  obtain rfl := Except.ok.inj e
  cases serialStep_effect step with
  | @guest direction offset ioData =>
    have length : ¬ t.m.accepted.length < (access t.m direction offset ioData).accepted.length :=
      Nat.lt_irrefl _
    have raises : raisesRx t.m.s (access t.m direction offset ioData).s = false := raisesRx_handleSerial
    simp only [length, raises, decide_false, Bool.not_false, Bool.true_and, Bool.false_or]
    exact tells_access h
  | accept empty =>
    refine iff_of_true ?_ trivial
    intro _ en
    simp only [isRxIntrEnabled_receive] at en
    simp [raisesRx_receive, en]
  | leave no =>
    have asks : AsksInTimeAct t a := by
      cases a with
      | guest direction offset ioData => exact absurd rfl (no direction offset ioData)
      | _ => trivial
    refine iff_of_true ?_ asks
    simpa [Tells, raisesRx] using h

/-- As long as the guest asks in time, it is told of every byte that is there; and the first access that does
not ask in time leaves a byte it was not told of. -/
theorem tells_run (char : C → UInt8) (r : Reach (watchedStep char) AsksInTimeAct (watchedStart C) t) :
    Tells t ∧ ∀ a t', watchedStep char t a = .ok t' → (Tells t' ↔ AsksInTimeAct t a) := by
  have tells : Tells t := by
    refine r.invariant (I := Tells) ?_ ?_
    · intro full
      have empty : isRxEmpty serialInit = true := by decide
      exact absurd (full.symm.trans empty) (by decide)
    · intro t a t' _ h asks e
      exact (tells_step h e).mpr asks
  exact ⟨tells, fun a t' e => tells_step tells e⟩

/-- The guest enables the interrupt, and a byte is announced. -/
theorem tells_enabled_first :
    ∃ t, Reach (watchedStep fun _ : Unit => 0x61) AsksInTimeAct (watchedStart Unit) t ∧
      isRxEmpty t.m.s = false ∧ t.m.s.irqs = [true] ∧ t.raised = true ∧ Tells t := by
  obtain ⟨t, r, test⟩ := Reach.of_test (watchedStep fun _ : Unit => 0x61) AsksInTimeAct .blocked
    (watchedStart Unit) [.guest .exitOut 1 1, .write ()]
    (fun t => !isRxEmpty t.m.s && t.m.s.irqs == [true] && t.raised) (by decide +kernel)
  simp only [Bool.and_eq_true, beq_iff_eq, Bool.not_eq_true'] at test
  exact ⟨t, r, test.1.1, test.1.2, test.2, (tells_run _ r).1⟩

/-- A byte is stored before the guest enables the interrupt, and no interrupt is ever raised for it. -/
theorem byte_not_announced :
    ∃ t, Reach (watchedStep fun _ : Unit => 0x61) always (watchedStart Unit) t ∧
      t.m.accepted = [0x61] ∧ isRxEmpty t.m.s = false ∧ isRxIntrEnabled t.m.s = true ∧ t.m.s.irqs = [] ∧
      ¬ Tells t := by
  obtain ⟨t, r, test⟩ := Reach.of_test (watchedStep fun _ : Unit => 0x61) always .blocked
    (watchedStart Unit) [.write (), .guest .exitOut 1 1]
    (fun t => t.m.accepted == [0x61] && !isRxEmpty t.m.s && isRxIntrEnabled t.m.s && t.m.s.irqs == [] &&
      !t.raised) (by decide +kernel)
  simp only [Bool.and_eq_true, beq_iff_eq, Bool.not_eq_true'] at test
  obtain ⟨⟨⟨⟨accepted, full⟩, enabled⟩, irqs⟩, raised⟩ := test
  refine ⟨t, r, accepted, full, enabled, irqs, ?_⟩
  intro h
  exact absurd ((h full enabled).symm.trans raised) (by decide)

end Mvvmm.Uart
