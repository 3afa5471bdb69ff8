import Mathlib.Data.List.Induction
import Mvvmm.Lib.Mealy
import Mvvmm.Uart.Machine

/-!
# The divisor latch

With the divisor latch open, offsets 0 and 1 should be the two bytes of the latch and nothing else. `handle_serial` does
access the latch then, but goes on to the registers behind it: a write also goes to the receive register or to IER, and a
read returns the register, clearing the data-ready bit at offset 0.

`Isolates` is what a guest expects of a sequence of accesses with the latch open. `latch_isolated_iff` says that it holds
of a sequence and all its beginnings if and only if each access to the latch is one that makes no difference (`Quiet`):
it writes what the register holds already, or reads a register that holds the same as the latch.
-/

namespace Mvvmm.Uart
open CMem Mealy Run

/-- An access of the guest to a port. -/
structure PortAccess where
  direction : Direction
  offset : Fin numRegs
  data : UInt8
  deriving DecidableEq, Repr

/-- C `handle_serial` for an access. -/
def accessPort (s : Serial) (a : PortAccess) : UInt8 × Serial :=
  handleSerial s a.direction a.offset a.data

/-- An access at one of the offsets of the latch. -/
def PortAccess.isLatch (a : PortAccess) : Bool :=
  a.offset.val < 2

/-- The byte that was last written to the latch, for accesses with the latch open and the latest one first. -/
def lastDivisor (dl : Fin 2 → UInt8) : List PortAccess → Fin 2 → UInt8
  | [], i => dl i
  | a :: h, i => if a.direction = .exitOut ∧ a.offset.val = i.val then a.data else lastDivisor dl h i

/-- What the guest and the keyboard see of the device apart from the latch: the receive register, IER, the data-ready bit,
IIR and the line of IRQ 4. -/
structure Undisturbed (s s' : Serial) : Prop where
  receive : s'.regs 0 = s.regs 0
  ier : s'.regs 1 = s.regs 1
  ready : isRxEmpty s' = isRxEmpty s
  iir : s'.regs 2 = s.regs 2
  line : line s' = line s

/-- Accesses with the latch open are isolated: reads of the latch return what was last written to it, and the rest of the
device is the same afterwards as without the accesses to the latch. -/
structure Isolates (s : Serial) (as : List PortAccess) : Prop where
  reads : ∀ k a (h : a.offset.val < 2), as[k]? = some a → a.direction = .exitIn →
    (run accessPort s as).1[k]? = some (lastDivisor s.dl (as.take k).reverse ⟨a.offset, h⟩)
  rest : Undisturbed (run accessPort s (as.filter fun a => !a.isLatch)).2 (run accessPort s as).2

/-- An access to the open latch that makes no difference to the register behind it. -/
def Quiet (s : Serial) (a : PortAccess) : Prop :=
  ∀ h : a.offset.val < 2, match a.direction with
    | .exitOut => a.data = s.regs a.offset
    | .exitIn => s.regs a.offset = s.dl ⟨a.offset, h⟩ ∧ (a.offset = 0 → isRxEmpty s = true)

variable {s s' : Serial} {a : PortAccess} {as : List PortAccess} {d : Fin 2 → UInt8}

/-- The device with other bytes in its latch. -/
def withDl (s : Serial) (d : Fin 2 → UInt8) : Serial :=
  { s with dl := d }

/-- The latch is not part of what is disturbed. -/
lemma undisturbed_withDl : Undisturbed s (withDl s d) :=
  ⟨rfl, rfl, rfl, rfl, rfl⟩

/-- States that do not disturb each other, the other way round. -/
lemma Undisturbed.symm (h : Undisturbed s s') : Undisturbed s' s :=
  ⟨h.receive.symm, h.ier.symm, h.ready.symm, h.iir.symm, h.line.symm⟩

/-- States that do not disturb each other, in a row. -/
lemma Undisturbed.trans {s'' : Serial} (h : Undisturbed s s') (h' : Undisturbed s' s'') : Undisturbed s s'' :=
  ⟨h'.receive.trans h.receive, h'.ier.trans h.ier, h'.ready.trans h.ready, h'.iir.trans h.iir, h'.line.trans h.line⟩

/-! ## One access -/

/-- A write to the open latch. -/
lemma accessPort_out (dlab : isDlabSet s = true) (h : a.offset.val < 2) (out : a.direction = .exitOut) :
    (accessPort s a).2 = writeReg (withDl s (Function.update s.dl ⟨a.offset, h⟩ a.data)) a.offset a.data := by
  rw [accessPort, out, handleSerial_store (by simp [dlab]), store_open ⟨dlab, h⟩]
  rfl

/-- A write at another offset is a write to the register. -/
lemma accessPort_out_other (h : ¬ a.offset.val < 2) (out : a.direction = .exitOut) :
    accessPort s a = (a.data, writeReg s a.offset a.data) := by
  have ne : ¬ a.offset = 0 := fun zero => h (by rw [zero]; decide)
  rw [accessPort, out, handleSerial_store (fun x => ne x.1), store_closed (fun x => h x.2)]

/-- A read at any offset is a read of the register. -/
lemma accessPort_in (read : a.direction = .exitIn) : accessPort s a = readReg s a.offset := by
  rw [accessPort, read, handleSerial_exitIn]

/-- The two offsets of the latch. -/
lemma offset_cases (h : a.offset.val < 2) : a.offset = 0 ∨ a.offset = 1 := by
  have two : ∀ i : Fin numRegs, i.val < 2 → i = 0 ∨ i = 1 := by decide
  exact two a.offset h

/-- With the latch open, a write changes its byte of the latch, and nothing else does. -/
lemma accessPort_dl (dlab : isDlabSet s = true) (i : Fin 2) :
    (accessPort s a).2.dl i = if a.direction = .exitOut ∧ a.offset.val = i.val then a.data else s.dl i := by
  cases e : a.direction with
  | exitIn =>
    rw [accessPort_in e, if_neg (by simp)]
    have eff := readReg_effect s a.offset
    generalize (readReg s a.offset).2 = s' at eff ⊢
    cases eff <;> rfl
  | exitOut =>
    by_cases h : a.offset.val < 2
    · rw [accessPort_out dlab h e]
      simp only [writeReg, withDl, Function.update_apply, Fin.ext_iff, true_and]
      simp only [eq_comm]
    · rw [accessPort_out_other h e, if_neg (fun x => h (by omega))]
      rfl

/-- An access at another offset does not look at the latch. -/
lemma accessPort_withDl (h : ¬ a.offset.val < 2) :
    accessPort (withDl s d) a = ((accessPort s a).1, withDl (accessPort s a).2 d) := by
  cases e : a.direction with
  | exitOut =>
    rw [accessPort_out_other h e, accessPort_out_other h e]
    rfl
  | exitIn =>
    have zero : a.offset ≠ 0 := fun zero => h (by rw [zero]; decide)
    rw [accessPort_in e, accessPort_in e]
    by_cases two : a.offset = 2
    · have same : (isRxIntrSet (withDl s d) && isTxIntrEnabled (withDl s d)) =
          (isRxIntrSet s && isTxIntrEnabled s) := rfl
      refine Prod.ext (by rw [two]; rfl) ?_
      rw [two, readReg_two, readReg_two, same]
      split <;> rfl
    · refine Prod.ext ?_ (by rw [readReg_plain two zero, readReg_plain two zero])
      simp only [readReg, if_neg two, if_neg zero]
      split <;> rfl

/-- A quiet access changes nothing but the latch. -/
lemma accessPort_quiet (dlab : isDlabSet s = true) (h : a.offset.val < 2) (quiet : Quiet s a) :
    ∃ d, (accessPort s a).2 = withDl s d := by
  have same := quiet h
  cases e : a.direction with
  | exitOut =>
    simp only [e] at same
    refine ⟨Function.update s.dl ⟨a.offset, h⟩ a.data, ?_⟩
    rw [accessPort_out dlab h e, same]
    simp only [writeReg, withDl, Function.update_eq_self]
  | exitIn =>
    simp only [e] at same
    rw [accessPort_in e]
    refine ⟨s.dl, ?_⟩
    rcases offset_cases h with zero | one
    · rw [zero, readReg_zero, clearDataReady_of_empty (same.2 zero)]
      rfl
    · rw [one, readReg_one]
      rfl

/-- Nothing else is quiet: an access that leaves the device alone writes what is there, or reads what the latch holds. -/
lemma quiet_of_undisturbed (dlab : isDlabSet s = true) (kept : Undisturbed s (accessPort s a).2)
    (read : ∀ h : a.offset.val < 2, a.direction = .exitIn → (accessPort s a).1 = s.dl ⟨a.offset, h⟩) : Quiet s a := by
  intro h
  cases e : a.direction with
  | exitOut =>
    have written : (accessPort s a).2.regs a.offset = a.data := by
      rw [accessPort_out dlab h e]
      simp
    change a.data = s.regs a.offset
    rcases offset_cases h with zero | one
    · rw [← written, zero]
      exact kept.receive
    · rw [← written, one]
      exact kept.ier
  | exitIn =>
    have value := read h e
    rw [accessPort_in e] at value kept
    rcases offset_cases h with zero | one
    · simp only [zero, readReg_zero] at value kept ⊢
      refine ⟨value, fun _ => ?_⟩
      rw [← kept.ready, isRxEmpty_clearDataReady]
    · simp only [one, readReg_one] at value ⊢
      exact ⟨value, fun zero => absurd zero (by decide)⟩

/-! ## Sequences of accesses -/

/-- The latch is open. -/
def Open (s : Serial) (_ : PortAccess) : Prop :=
  isDlabSet s = true

/-- The latch holds what was last written to it. -/
lemma dl_run (dlab : Along accessPort Open s as) : (run accessPort s as).2.dl = lastDivisor s.dl as.reverse := by
  induction as using List.reverseRecOn with
  | nil => rfl
  | append_singleton as a ih =>
    have before : Along accessPort Open s as := by
      have first := dlab.take as.length
      rwa [List.take_left] at first
    have last : Open (run accessPort s as).2 a := by
      have at_ := along_iff.mp dlab as.length a (by simp)
      rwa [List.take_left] at at_
    funext i
    rw [run_concat, accessPort_dl last, List.reverse_append, List.reverse_singleton, List.singleton_append, ih before]
    rfl

/-- Quiet accesses are isolated. -/
lemma isolates_of_quiet (dlab : Along accessPort Open s as) (quiet : Along accessPort Quiet s as) : Isolates s as := by
  constructor
  · intro k a h ha read
    have same := along_iff.mp quiet k a ha h
    simp only [read] at same
    have value : (accessPort (run accessPort s (as.take k)).2 a).1 = (run accessPort s (as.take k)).2.regs a.offset := by
      rw [accessPort_in read]
      rcases offset_cases h with zero | one
      · rw [zero, readReg_zero]
      · rw [one, readReg_one]
    rw [run_getElem?, ha, Option.map_some, value, same.1, dl_run (dlab.take k)]
  · have both : Along accessPort (fun s a => Open s a ∧ Quiet s a) s as :=
      along_iff.mpr fun k a ha => ⟨along_iff.mp dlab k a ha, along_iff.mp quiet k a ha⟩
    obtain ⟨d, e⟩ : ∃ d, (run accessPort s as).2 =
        withDl (run accessPort s (as.filter fun a => !a.isLatch)).2 d := by
      refine run_skip (R := fun s t => ∃ d, s = withDl t d) both ?_ ?_ ⟨s.dl, rfl⟩
      · rintro s t a latch ⟨dlab, quiet⟩ ⟨d, rfl⟩
        obtain ⟨d', e⟩ := accessPort_quiet dlab (by simpa [PortAccess.isLatch] using latch) quiet
        exact ⟨d', e⟩
      · rintro s t a other ⟨d, rfl⟩
        rw [accessPort_withDl (by simpa [PortAccess.isLatch] using other)]
        exact ⟨d, rfl⟩
    rw [e]
    exact undisturbed_withDl

/-- With the latch open, the accesses of a sequence are isolated at every point of it if and only if those to the latch
make no difference to the registers behind it. -/
theorem latch_isolated_iff (s : Serial) (as : List PortAccess) (dlab : Along accessPort Open s as) :
    (∀ k, Isolates s (as.take k)) ↔ Along accessPort Quiet s as := by
  constructor
  · intro isolates
    refine along_iff.mpr fun k a ha => ?_
    by_cases h : a.offset.val < 2
    swap
    · exact fun h' => absurd h' h
    have next : as.take (k + 1) = as.take k ++ [a] := by
      rw [List.take_add_one, ha]
      rfl
    have before := (isolates k).rest
    have after := isolates (k + 1)
    rw [next] at after
    -- the access is left out on the right-hand side, so that both comparisons are with the same device
    have kept : Undisturbed (run accessPort s ((as.take k).filter fun a => !a.isLatch)).2
        (accessPort (run accessPort s (as.take k)).2 a).2 := by
      have rest := after.rest
      rwa [List.filter_append, List.filter_cons_of_neg (by simp [PortAccess.isLatch, h]), List.filter_nil,
        List.append_nil, run_concat] at rest
    refine quiet_of_undisturbed (along_iff.mp dlab k a ha) (before.symm.trans kept) fun h read => ?_
    have len : (as.take k).length = k := by
      rw [List.length_take]
      have lt := (List.getElem?_eq_some_iff.mp ha).1
      omega
    have value := after.reads k a h (by rw [List.getElem?_append_right (by omega), len]; simp) read
    rw [run_getElem?, List.getElem?_append_right (by omega), len, List.take_left' len] at value
    rw [dl_run (dlab.take k)]
    simpa using value
  · intro quiet k
    exact isolates_of_quiet (dlab.take k) (quiet.take k)

/-- The guest reads the low byte of a divisor that it has programmed, writes it again and reads the high byte. -/
theorem latch_isolated_again :
    Isolates (run accessPort serialInit [⟨.exitOut, 3, 0x80⟩, ⟨.exitOut, 0, 0x0c⟩]).2
      [⟨.exitIn, 0, 0⟩, ⟨.exitOut, 0, 0x0c⟩, ⟨.exitIn, 1, 0⟩] := by
  refine (latch_isolated_iff _ [⟨.exitIn, 0, 0⟩, ⟨.exitOut, 0, 0x0c⟩, ⟨.exitIn, 1, 0⟩] ?_).mpr ?_ 3
  · exact ⟨(by decide : isDlabSet _ = true), (by decide : isDlabSet _ = true), (by decide : isDlabSet _ = true), trivial⟩
  · refine ⟨?_, ?_, ?_, trivial⟩ <;> intro h
    · exact ⟨rfl, fun _ => rfl⟩
    · rfl
    · exact ⟨rfl, fun _ => rfl⟩

/-- The guest writes the low byte of the divisor while a key is in the receive register, and the key is overwritten; or it
reads the divisor, obtains the key and marks it as read. -/
theorem latch_not_isolated :
    ∃ m, Reach (serialStep fun _ : Unit => 0x61) always (start Unit) m ∧ isDlabSet m.s = true ∧
      ¬ Isolates m.s [⟨.exitOut, 0, 0x0c⟩] ∧ ¬ Isolates m.s [⟨.exitIn, 0, 0⟩] := by
  obtain ⟨m, r, t⟩ := Reach.of_test (serialStep fun _ : Unit => 0x61) always .blocked (start Unit)
    [.write (), .guest .exitOut 3 0x80]
    (fun m => isDlabSet m.s && m.s.regs 0 == 0x61 && m.s.dl 0 == 0) (by decide +kernel)
  simp only [Bool.and_eq_true, beq_iff_eq] at t
  obtain ⟨⟨dlab, key⟩, latch⟩ := t
  refine ⟨m, r, dlab, ?_, ?_⟩
  · intro h
    have kept : (accessPort m.s ⟨.exitOut, 0, 0x0c⟩).2.regs 0 = m.s.regs 0 := h.rest.receive
    rw [accessPort_out dlab (by decide) rfl, key] at kept
    revert kept
    simp
  · intro h
    have value := h.reads 0 ⟨.exitIn, 0, 0⟩ (by decide) rfl rfl
    have read : (accessPort m.s ⟨.exitIn, 0, 0⟩).1 = 0x61 := by
      rw [accessPort_in rfl, readReg_zero, key]
    have wanted : (accessPort m.s ⟨.exitIn, 0, 0⟩).1 = m.s.dl 0 := Option.some.inj value
    rw [read, latch] at wanted
    revert wanted
    decide

end Mvvmm.Uart
