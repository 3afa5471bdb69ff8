import Mvvmm.Virtio.Machine

/-!
# The register file

What the registers of a device are, as its driver sees them. `RegEffect` says what a step of a device can
do to them: it is a write of one register, or it leaves them all as they are, but for the interrupt status,
in which it may set bit 0. The steps of both devices are of this kind, so everything about registers is
proved over `RegEffect`.

The abstract register file is a function of the history of writes (`regMap`). Of a queue register it knows
which value was written last since the last reset while the queue was selected, and nothing else. `Tracks`
is the simulation relation between it and the device.
-/

namespace Mvvmm.Virtio
open CMem

variable {B : Type} {s s' s₀ : VirtioDevice B} {q : Fin maxQueue} {r r' : Reg} {v : UInt32}

/-- A 4-byte write to a register. -/
abbrev RegWrite := Reg × UInt32

/-- The register that an action writes. -/
def DevAct.write? : DevAct → Option RegWrite
  | .mmioWrite offset val size => if size = 4 then (Reg.ofOffset offset).map fun r => (r, val) else none
  | _ => none

/-- All that can be read from the registers but for the interrupt status. -/
structure Regs where
  status : UInt32
  deviceFeaturesSel : UInt32
  queueSel : UInt32
  deviceId : UInt32
  vendorId : UInt32
  deviceFeatures : UInt32
  maxQueueNum : UInt32
  queue : Fin maxQueue → QueueState

/-- The registers of a device; `last_avail_idx` is none of them. -/
def VirtioDevice.regs (s : VirtioDevice B) : Regs :=
  ⟨s.status, s.deviceFeaturesSel, s.queueSel, s.deviceId, s.vendorId, s.deviceFeatures, s.maxQueueNum,
    fun q => { s.queue q with lastAvailIdx := 0 }⟩

/-- The registers stay as they are, but bit 0 of the interrupt status may have been set. -/
structure KeepsRegs (s s' : VirtioDevice B) : Prop where
  regs : s'.regs = s.regs
  intStatus : s'.intStatus = s.intStatus ∨ s'.intStatus = s.intStatus ||| 1

/-- A device that is not changed keeps its registers. -/
lemma KeepsRegs.refl : KeepsRegs s s :=
  ⟨rfl, .inl rfl⟩

/-- Two changes that keep the registers. -/
lemma KeepsRegs.trans {s₁ : VirtioDevice B} (h : KeepsRegs s s₁) (h' : KeepsRegs s₁ s') :
    KeepsRegs s s' := by
  refine ⟨h'.regs.trans h.regs, ?_⟩
  obtain e | e := h.intStatus <;> obtain e' | e' := h'.intStatus
  · exact .inl (e'.trans e)
  · exact .inr (by rw [e', e])
  · exact .inr (by rw [e', e])
  · exact .inr (by rw [e', e, UInt32.or_assoc, UInt32.or_self])

/-- Moving `last_avail_idx` leaves the registers alone. -/
lemma regs_updQueue {f : QueueState → QueueState}
    (h : ∀ qs, { f qs with lastAvailIdx := 0 } = { qs with lastAvailIdx := 0 }) :
    (s.updQueue q f).regs = s.regs := by
  simp only [VirtioDevice.regs, VirtioDevice.updQueue]
  congr 1
  funext q'
  rw [Function.update_apply]
  split
  · rename_i e
    rw [h, e]
  · rfl

/-- A pop keeps the registers. -/
lemma keepsRegs_advance {descIdx : Nat} : KeepsRegs s (advance s q descIdx) := by
  refine ⟨?_, .inl rfl⟩
  have e : (advance s q descIdx).regs =
      (s.updQueue q fun qs => { qs with lastAvailIdx := qs.lastAvailIdx + 1 }).regs := rfl
  rw [e]
  apply regs_updQueue
  intro qs
  rfl

/-- A completion keeps the registers. -/
lemma keepsRegs_consumeDesc {descIdx : Nat} {descLen : Int} :
    KeepsRegs s (virtioConsumeDesc s q descIdx descLen) := by
  simp only [virtioConsumeDesc]
  split
  · exact ⟨rfl, .inl rfl⟩
  · exact ⟨rfl, .inr rfl⟩

/-- The device behind the queues leaves the registers alone. -/
def RecvKeepsRegs (recv : DeviceRecv B) : Prop :=
  ∀ s q descIdx readSize writeSize ret s', recv s q descIdx readSize writeSize = .ok (ret, s') →
    KeepsRegs s s'

/-- A round of `queue_notify` keeps the registers. -/
lemma keepsRegs_round {recv : DeviceRecv B} {go : Bool} (keep : RecvKeepsRegs recv)
    (h : RoundEffect recv s q go s') : KeepsRegs s s' := by
  cases h with
  | skip _ => exact keepsRegs_advance
  | pass _ eq _ => exact (keep _ _ _ _ _ _ _ eq).trans keepsRegs_advance
  | stop _ eq _ => exact keep _ _ _ _ _ _ _ eq

/-- What a step of a device can do to the registers. -/
inductive RegEffect (s : VirtioDevice B) : Option RegWrite → VirtioDevice B → Prop where
  | write (r : Reg) (v : UInt32) : RegEffect s (some (r, v)) (writeReg s v r)
  | keep {s' : VirtioDevice B} (keeps : KeepsRegs s s') : RegEffect s none s'

/-- The registers lie below the configuration space. -/
lemma Reg.ofOffset_lt {offset : Nat} (h : Reg.ofOffset offset = some r) : offset < virtioMmioConfig := by
  simp only [Reg.ofOffset] at h
  split at h
  all_goals first | decide | cases h

/-- STATUS is at one offset only. -/
lemma Reg.ofOffset_status {offset : Nat} (h : Reg.ofOffset offset = some .status) : offset = 0x070 := by
  simp only [Reg.ofOffset] at h
  split at h
  all_goals first | rfl | cases h

/-- The configuration space is no register. -/
lemma keepsRegs_configWrite {offset size : Nat} :
    KeepsRegs s (virtioConfigWrite s offset v size) := by
  simp only [virtioConfigWrite]
  split
  all_goals
    first
      | exact .refl
      | split
        · exact ⟨rfl, .inl rfl⟩
        · exact .refl

/-- A register write, as the history notes it. -/
lemma regEffect_writeReg {offset size : Nat} :
    RegEffect s (DevAct.write? (.mmioWrite offset v size)) (virtioMmioWriteReg s offset v size) := by
  simp only [virtioMmioWriteReg, DevAct.write?]
  by_cases conf : offset ≥ virtioMmioConfig
  · have none : Reg.ofOffset offset = none := by
      cases e : Reg.ofOffset offset with
      | none => rfl
      | some r => exact absurd (Reg.ofOffset_lt e) (by omega)
    simp only [if_pos conf, none, Option.map_none, ite_self]
    exact .keep keepsRegs_configWrite
  · rw [if_neg conf]
    split
    · cases Reg.ofOffset offset with
      | none => exact .keep .refl
      | some r => exact .write r v
    · exact .keep .refl

/-- What the steps common to both devices do to the registers. -/
lemma devStep_regs {W : Type} {recv : DeviceRecv B} {c c' : Machine B W} {a : DevAct}
    (keep : RecvKeepsRegs recv) (h : DevEffect recv c a c') : RegEffect c.s a.write? c'.s := by
  cases h with
  | guest _ => exact .keep ⟨rfl, .inl rfl⟩
  | mmioRead _ _ => exact .keep .refl
  | mmioWrite _ _ => exact regEffect_writeReg
  | @start a q _ yes =>
    rw [Machine.startNotify_s]
    cases a with
    | mmioWrite offset val size =>
      -- a write that notifies is one of QUEUE_NOTIFY, which no register remembers
      simp only [DevAct.notifies?, notifies] at yes
      split at yes
      · rename_i is
        simp only [DevAct.write?, is.1, is.2, if_true, Option.map_some]
        exact .write .queueNotify val
      · cases yes
    | _ => exact .keep .refl
  | round _ _ eq => exact .keep (keepsRegs_round keep (queueNotifyRound_effect eq))
  | done _ _ => exact .keep .refl

/-! ## The abstract register file -/

/-- A write that resets the device. -/
def isReset (w : RegWrite) : Bool :=
  w.1 == .status && w.2 == 0

/-- The value last written to a register, 0 if there is none. The writes are listed latest first. -/
def lastWrite (ws : List RegWrite) (r : Reg) : UInt32 :=
  ((ws.find? fun w => w.1 == r).map Prod.snd).getD 0

/-- The writes since the last reset. -/
def sinceReset (h : List RegWrite) : List RegWrite :=
  h.takeWhile fun w => !isReset w

/-- The queue that is selected: the last value below `MAX_QUEUE`. -/
def selected (h : List RegWrite) : UInt32 :=
  (((sinceReset h).find? fun w => w.1 == .queueSel && decide (w.2.toNat < maxQueue)).map Prod.snd).getD 0

/-- The writes since the last reset that were made while the queue was selected. -/
def ofQueue (q : Nat) : List RegWrite → List RegWrite
  | [] => []
  | w :: h =>
    if isReset w then [] else if (selected h).toNat = q then w :: ofQueue q h else ofQueue q h

/-- The size of a queue: the last power of two written, or the maximum. -/
def lastNum (maxQueueNum : UInt32) (ws : List RegWrite) : UInt32 :=
  ((ws.find? fun w => w.1 == .queueNum && decide w.2.toNat.isPowerOfTwo).map Prod.snd).getD maxQueueNum

/-- What the register reads after the writes, given the device at start-up. The interrupt status does not
only depend on the writes. -/
def regMap (s₀ : VirtioDevice B) (h : List RegWrite) (r : Reg) : UInt32 :=
  let ws := ofQueue (selected h).toNat h
  match r with
  | .queueSel => selected h
  | .queueNum => lastNum s₀.maxQueueNum ws
  | .queueReady => lastWrite ws .queueReady &&& 1
  | .queueDescLow | .queueDescHigh | .queueAvailLow | .queueAvailHigh | .queueUsedLow
  | .queueUsedHigh => lastWrite ws r
  | .deviceFeaturesSel | .status => lastWrite (sinceReset h) r
  | .deviceFeatures =>
    let sel := lastWrite (sinceReset h) .deviceFeaturesSel
    if sel = 0 then s₀.deviceFeatures else if sel = 1 then 1 else 0
  | .magicValue | .version | .deviceId | .vendorId | .queueNumMax | .configGeneration | .queueNotify
  | .interruptAck | .interruptStatus => readReg s₀ r

/-- The 64-bit address with the given halves. -/
def join (high low : UInt32) : UInt64 :=
  (high.toUInt64 <<< 32) ||| low.toUInt64

section Halves
variable {high low : UInt32}

/-- The bits of the mask of the high half. -/
lemma highMask_getElem : ∀ i (h : i < 64), (0xffffffff00000000#64)[i] = decide (32 ≤ i) := by
  decide

/-- The bits of the mask of the low half. -/
lemma lowMask_getElem : ∀ i (h : i < 64), (0xffffffff#64)[i] = decide (i < 32) := by
  decide

/-- A write of the low half. -/
lemma setLow32_join : setLow32 (join high low) v = join high v := by
  apply UInt64.toBitVec_inj.mp
  ext i hi
  have mask := highMask_getElem i hi
  simp [setLow32, join, mask]
  grind

/-- A write of the high half. -/
lemma setHigh32_join : setHigh32 (join high low) v = join v low := by
  apply UInt64.toBitVec_inj.mp
  ext i hi
  have mask := lowMask_getElem i hi
  simp [setHigh32, join, mask]
  grind

/-- The low half of an address. -/
lemma join_low : (join high low).toUInt32 = low := by
  apply UInt32.toBitVec_inj.mp
  ext i hi
  simp [join]

/-- The high half of an address. -/
lemma join_high : (join high low >>> 32).toUInt32 = high := by
  apply UInt32.toBitVec_inj.mp
  ext i hi
  simp [join]
  grind

end Halves

/-! ## The simulation -/

/-- The registers of a queue hold what was last written to them. -/
structure TracksQueue (maxQueueNum : UInt32) (ws : List RegWrite) (qs : QueueState) : Prop where
  num : qs.num = lastNum maxQueueNum ws
  ready : qs.ready = lastWrite ws .queueReady &&& 1
  desc : qs.descAddr = join (lastWrite ws .queueDescHigh) (lastWrite ws .queueDescLow)
  avail : qs.availAddr = join (lastWrite ws .queueAvailHigh) (lastWrite ws .queueAvailLow)
  used : qs.usedAddr = join (lastWrite ws .queueUsedHigh) (lastWrite ws .queueUsedLow)

/-- The registers are those of the abstract register file. -/
structure Tracks (s₀ s : VirtioDevice B) (h : List RegWrite) : Prop where
  deviceId : s.deviceId = s₀.deviceId
  vendorId : s.vendorId = s₀.vendorId
  deviceFeatures : s.deviceFeatures = s₀.deviceFeatures
  maxQueueNum : s.maxQueueNum = s₀.maxQueueNum
  status : s.status = lastWrite (sinceReset h) .status
  featuresSel : s.deviceFeaturesSel = lastWrite (sinceReset h) .deviceFeaturesSel
  sel : s.queueSel = selected h
  queue : ∀ q, TracksQueue s₀.maxQueueNum (ofQueue q.val h) (s.queue q)

section Lists
variable {ws h : List RegWrite} {w : RegWrite}

/-- The last write to a register, after one more. -/
@[simp]
lemma lastWrite_cons : lastWrite ((r, v) :: ws) r' = if r = r' then v else lastWrite ws r' := by
  simp only [lastWrite, List.find?_cons]
  split
  · rename_i e
    simp [beq_iff_eq.mp e]
  · rename_i ne
    rw [if_neg]
    intro e
    simp [e] at ne

/-- The last size of a queue, after one more write. -/
lemma lastNum_cons {n : UInt32} :
    lastNum n ((r, v) :: ws) = if r = .queueNum ∧ v.toNat.isPowerOfTwo then v else lastNum n ws := by
  simp only [lastNum, List.find?_cons]
  split
  · rename_i e
    simp only [Bool.and_eq_true, beq_iff_eq, decide_eq_true_eq] at e
    rw [if_pos e]
    rfl
  · rename_i ne
    rw [if_neg]
    intro e
    simp [e.1, e.2] at ne

/-- A write that does not reset the device is remembered. -/
lemma sinceReset_cons (no : isReset w = false) : sinceReset (w :: h) = w :: sinceReset h := by
  simp [sinceReset, no]

/-- A reset forgets all writes. -/
lemma sinceReset_reset (yes : isReset w = true) : sinceReset (w :: h) = [] := by
  simp [sinceReset, yes]

/-- The queue that is selected, after one more write. -/
lemma selected_cons (no : isReset (r, v) = false) :
    selected ((r, v) :: h) = if r = .queueSel ∧ v.toNat < maxQueue then v else selected h := by
  simp only [selected, sinceReset_cons no, List.find?_cons]
  split
  · rename_i e
    simp only [Bool.and_eq_true, beq_iff_eq, decide_eq_true_eq] at e
    rw [if_pos e]
    rfl
  · rename_i ne
    rw [if_neg]
    intro e
    simp [e.1, e.2] at ne

/-- After a reset queue 0 is selected. -/
lemma selected_reset (yes : isReset w = true) : selected (w :: h) = 0 := by
  simp [selected, sinceReset_reset yes]

end Lists

/-- The check of the code is that the number is a power of two. -/
lemma isPowerOfTwo_iff : v &&& (v - 1) = 0 ∧ v > 0 ↔ v.toNat.isPowerOfTwo := by
  rw [← Nat.ne_zero_and_sub_one_eq_zero_iff_isPowerOfTwo, and_comm, ← UInt32.toNat_inj,
    UInt32.toNat_and, gt_iff_lt, UInt32.lt_iff_toNat_lt, UInt32.toNat_zero, Nat.pos_iff_ne_zero]
  refine and_congr_right ?_
  intro pos
  have one : (1 : UInt32) ≤ v := by
    rw [UInt32.le_iff_toNat_le]
    exact Nat.pos_of_ne_zero pos
  rw [UInt32.toNat_sub_of_le _ _ one]
  rfl

/-- What a write does to the selected queue. -/
def writeQueueReg (v : UInt32) (r : Reg) (qs : QueueState) : QueueState :=
  match r with
  | .queueNum => if v &&& (v - 1) = 0 ∧ v > 0 then { qs with num := v } else qs
  | .queueDescLow => { qs with descAddr := setLow32 qs.descAddr v }
  | .queueAvailLow => { qs with availAddr := setLow32 qs.availAddr v }
  | .queueUsedLow => { qs with usedAddr := setLow32 qs.usedAddr v }
  | .queueDescHigh => { qs with descAddr := setHigh32 qs.descAddr v }
  | .queueAvailHigh => { qs with availAddr := setHigh32 qs.availAddr v }
  | .queueUsedHigh => { qs with usedAddr := setHigh32 qs.usedAddr v }
  | .queueReady => { qs with ready := v &&& 1 }
  | _ => qs

/-- A write of the status that does not reset the device. -/
lemma writeReg_status_ne (no : isReset (.status, v) = false) :
    writeReg s v .status = { s with status := v } := by
  have ne : v ≠ 0 := by simpa [isReset] using no
  simp [writeReg, ne]

/-- A write that is no reset touches the selected queue only. -/
lemma writeReg_queue (no : isReset (r, v) = false) :
    (writeReg s v r).queue q = if q = s.sel then writeQueueReg v r (s.queue q) else s.queue q := by
  have upd : ∀ f : QueueState → QueueState,
      (s.updQueue s.sel f).queue q = if q = s.sel then f (s.queue q) else s.queue q := by
    intro f
    simp only [VirtioDevice.updQueue, Function.update_apply]
    split
    · rename_i e
      rw [e]
    · rfl
  cases r with
  | status =>
    rw [writeReg_status_ne no]
    simp [writeQueueReg]
  | queueNum =>
    simp only [writeReg]
    split
    · rename_i pow
      rw [upd]
      simp [writeQueueReg, pow]
    · rename_i pow
      simp [writeQueueReg, pow]
  | queueSel =>
    simp only [writeReg]
    split <;> simp [writeQueueReg]
  | queueDescLow | queueAvailLow | queueUsedLow | queueDescHigh | queueAvailHigh | queueUsedHigh
  | queueReady => simp only [writeReg, upd, writeQueueReg]
  | _ => simp [writeReg, writeQueueReg]

/-- The constants of the device are never written. -/
lemma writeReg_consts : (writeReg s v r).deviceId = s.deviceId ∧ (writeReg s v r).vendorId = s.vendorId ∧
    (writeReg s v r).deviceFeatures = s.deviceFeatures ∧ (writeReg s v r).maxQueueNum = s.maxQueueNum := by
  cases r with
  | status | queueNum | queueSel =>
    simp only [writeReg]
    split <;> exact ⟨rfl, rfl, rfl, rfl⟩
  | _ => exact ⟨rfl, rfl, rfl, rfl⟩

/-- The other registers that a write changes if it is no reset. -/
lemma writeReg_globals (no : isReset (r, v) = false) :
    (writeReg s v r).status = (if r = .status then v else s.status) ∧
      (writeReg s v r).deviceFeaturesSel = (if r = .deviceFeaturesSel then v else s.deviceFeaturesSel) ∧
      (writeReg s v r).queueSel = if r = .queueSel ∧ v.toNat < maxQueue then v else s.queueSel := by
  cases r with
  | status =>
    rw [writeReg_status_ne no]
    simp
  | queueNum =>
    simp only [writeReg]
    split <;> simp [VirtioDevice.updQueue]
  | queueSel =>
    simp only [writeReg]
    split
    · rename_i lt
      simp [lt]
    · rename_i ge
      simp [ge]
  | _ => simp [writeReg, VirtioDevice.updQueue]

/-- A write to a register of the queue is tracked. -/
lemma TracksQueue.write {n : UInt32} {ws : List RegWrite} {qs : QueueState} (h : TracksQueue n ws qs) :
    TracksQueue n ((r, v) :: ws) (writeQueueReg v r qs) := by
  obtain ⟨num, ready, desc, avail, used⟩ := h
  cases r with
  | queueNum =>
    simp only [writeQueueReg]
    split
    · rename_i pow
      have e : v = lastNum n ((.queueNum, v) :: ws) := by
        rw [lastNum_cons, if_pos ⟨rfl, isPowerOfTwo_iff.mp pow⟩]
      exact ⟨e, by simpa using ready, by simpa using desc, by simpa using avail, by simpa using used⟩
    · rename_i pow
      have e : qs.num = lastNum n ((.queueNum, v) :: ws) := by
        rw [lastNum_cons, if_neg (fun h => pow (isPowerOfTwo_iff.mpr h.2)), num]
      exact ⟨e, by simpa using ready, by simpa using desc, by simpa using avail, by simpa using used⟩
  | _ =>
    constructor <;>
      simp [writeQueueReg, lastNum_cons, num, ready, desc, avail, used, setLow32_join, setHigh32_join]

/-- A queue that was reset, with nothing written to it since. -/
lemma tracksQueue_reset {n : UInt32} {b : Bool} : TracksQueue n [] ⟨0, n, 0, 0, 0, 0, b⟩ := by
  constructor <;> rfl

/-- A reset makes the registers what they are at start-up. -/
lemma Tracks.reset {h : List RegWrite} (t : Tracks s₀ s h) :
    Tracks s₀ (writeReg s 0 .status) ((.status, 0) :: h) := by
  have yes : isReset (.status, 0) = true := rfl
  have e : writeReg s 0 .status =
      virtioReset { s with status := 0, intStatus := 0, irqs := .level 0 :: s.irqs } := by
    simp [writeReg]
  rw [e]
  refine ⟨t.deviceId, t.vendorId, t.deviceFeatures, t.maxQueueNum, ?_, ?_, ?_, ?_⟩
  · rw [sinceReset_reset yes]
    rfl
  · rw [sinceReset_reset yes]
    rfl
  · rw [selected_reset yes]
    rfl
  · intro q
    simp only [ofQueue, yes, if_true, ← t.maxQueueNum]
    exact tracksQueue_reset

/-- A write to a register is tracked. -/
lemma Tracks.write {h : List RegWrite} (t : Tracks s₀ s h) :
    Tracks s₀ (writeReg s v r) ((r, v) :: h) := by
  cases no : isReset (r, v) with
  | true =>
    obtain ⟨rfl, rfl⟩ : r = .status ∧ v = 0 := by simpa [isReset] using no
    exact t.reset
  | false =>
    obtain ⟨id, vendor, features, max⟩ : (writeReg s v r).deviceId = s.deviceId ∧ _ := writeReg_consts
    obtain ⟨status, featuresSel, sel⟩ := writeReg_globals (s := s) no
    refine ⟨id.trans t.deviceId, vendor.trans t.vendorId, features.trans t.deviceFeatures,
      max.trans t.maxQueueNum, ?_, ?_, ?_, ?_⟩
    · rw [status, sinceReset_cons no, lastWrite_cons, t.status]
    · rw [featuresSel, sinceReset_cons no, lastWrite_cons, t.featuresSel]
    · rw [sel, selected_cons no, t.sel]
    · intro q
      have same : (selected h).toNat = q.val ↔ q = s.sel := by
        rw [← t.sel, Fin.ext_iff, eq_comm]
        rfl
      simp only [ofQueue, no, Bool.false_eq_true, if_false, same]
      rw [writeReg_queue no]
      split
      · exact (t.queue q).write
      · exact t.queue q

/-- The simulation: every step keeps the registers those of the abstract register file. -/
lemma Tracks.step {h : List RegWrite} {w : Option RegWrite} (t : Tracks s₀ s h) (e : RegEffect s w s') :
    Tracks s₀ s' (w.toList ++ h) := by
  cases e with
  | write r v => exact t.write
  | keep keeps =>
    have regs := keeps.regs
    simp only [VirtioDevice.regs, Regs.mk.injEq] at regs
    obtain ⟨status, featuresSel, sel, id, vendor, features, max, queue⟩ := regs
    refine ⟨id.trans t.deviceId, vendor.trans t.vendorId, features.trans t.deviceFeatures,
      max.trans t.maxQueueNum, status.trans t.status, featuresSel.trans t.featuresSel,
      sel.trans t.sel, ?_⟩
    intro q
    have same := congrFun queue q
    simp only [QueueState.mk.injEq] at same
    obtain ⟨ready, num, -, desc, avail, used, -⟩ := same
    obtain ⟨num', ready', desc', avail', used'⟩ := t.queue q
    exact ⟨num.trans num', ready.trans ready', desc.trans desc', avail.trans avail', used.trans used'⟩

/-- The device and the abstract register file agree on what is read. -/
lemma Tracks.readReg {h : List RegWrite} (t : Tracks s₀ s h) (ne : r ≠ .interruptStatus) :
    readReg s r = regMap s₀ h r := by
  have queue : TracksQueue s₀.maxQueueNum (ofQueue (selected h).toNat h) (s.queue s.sel) := by
    rw [← t.sel]
    exact t.queue s.sel
  obtain ⟨num, ready, desc, avail, used⟩ := queue
  cases r with
  | interruptStatus => exact absurd rfl ne
  | deviceFeatures =>
    simp only [Virtio.readReg, regMap, t.featuresSel, t.deviceFeatures]
    split
    · rename_i zero
      rw [if_pos zero]
    · rename_i one
      rw [one]
      rfl
    · rename_i zero one
      rw [if_neg zero, if_neg one]
  | _ =>
    simp only [Virtio.readReg, regMap, t.deviceId, t.vendorId, t.maxQueueNum, t.status, t.featuresSel,
      t.sel, num, ready, desc, avail, used, join_low, join_high]

end Mvvmm.Virtio
