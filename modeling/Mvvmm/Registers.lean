import Mvvmm.Block.Recv
import Mvvmm.Net.Device
import Mvvmm.Virtio.Registers

/-!
# The registers of both devices

The two devices change their registers only as `RegEffect` says (`Block.blockStep_regs`,
`Net.netStep_regs`). Two results follow for all runs from start-up.

* `registers_refined`: what `virtio_mmio_read` returns is what the abstract register file returns.
* `queues_ok`: the parameters of the queues stay in their ranges. The code checks that the size of a queue is
  a power of two, but not that it is at most the advertised maximum, so this needs that the guest writes no
  larger one.
-/

namespace Mvvmm
open CMem Virtio Run

namespace Block
variable {c c' : BlockMachine} {a : BlockAct} {s s' : VirtioBlockDevice}

/-- The register that an action writes. -/
def BlockAct.write? : BlockAct → Option RegWrite
  | .dev a => a.write?
  | _ => none

/-- An answer does not touch the registers. -/
lemma keepsRegs_reqEnd {arg : BlockRequest} {buf : Obj} {ret : Int}
    (h : virtioBlockReqEnd s arg buf ret = .ok s') : KeepsRegs s s' := by
  obtain ⟨m', len, -, rfl⟩ := virtioBlockReqEnd_ok h
  have mem : KeepsRegs s { s with mem := m' } := ⟨rfl, .inl rfl⟩
  exact mem.trans keepsRegs_consumeDesc

/-- A worker that goes on does not touch the registers. -/
lemma keepsRegs_setWorker {w : Fin virtioBlkMaxQueueNum} {x : Worker} : KeepsRegs s (setWorker s w x) :=
  ⟨rfl, .inl rfl⟩

/-- The block device does not touch the registers when it receives a chain. -/
lemma recvKeepsRegs : RecvKeepsRegs virtioBlockRecvRequest := by
  intro s q descIdx readSize writeSize ret s' h
  obtain ⟨-, eff⟩ := virtioBlockRecvRequest_effect h
  cases eff with
  | drop _ => exact .refl
  | queue _ _ => exact keepsRegs_setWorker
  | refuse _ _ eq => exact keepsRegs_reqEnd eq

/-- What a step of the block device does to the registers. -/
lemma blockStep_regs (h : blockStep c a = .ok c') : RegEffect c.s a.write? c'.s := by
  cases blockStep_effect h with
  | dev eff => exact devStep_regs recvKeepsRegs eff
  | io _ _ =>
    refine .keep (KeepsRegs.trans ?_ keepsRegs_setWorker)
    exact ⟨rfl, .inl rfl⟩
  | complete _ _ eq =>
    rw [Machine.startNotify_s]
    exact .keep ((keepsRegs_reqEnd eq).trans keepsRegs_setWorker)
  | release _ _ => exact .keep keepsRegs_setWorker

end Block

namespace Net
variable {c c' : NetMachine} {a : NetAct} {s s' : VirtioNetDevice}

/-- The register that an action writes. -/
def NetAct.write? : NetAct → Option RegWrite
  | .dev a => a.write?
  | .rx _ => none

/-- The network device does not touch the registers when it receives a chain. -/
lemma recvKeepsRegs : RecvKeepsRegs virtioNetRecvRequest := by
  intro s q descIdx readSize writeSize ret s' h
  obtain ⟨-, ⟨-, rfl⟩ | ⟨dev, rfl⟩⟩ := virtioNetRecvRequest_effect h
  · exact .refl
  · have sent : KeepsRegs s { s with dev } := ⟨rfl, .inl rfl⟩
    exact sent.trans keepsRegs_consumeDesc

/-- The delivery of a packet does not touch the registers. -/
lemma keepsRegs_writePacket {pkt : List UInt8} (h : virtioNetWritePacket s pkt = .ok s') :
    KeepsRegs s s' := by
  simp only [virtioNetWritePacket] at h
  split at h
  · cases h
    exact .refl
  · obtain ⟨sizes, -, h⟩ := bind_eq_ok.mp h
    split at h
    · cases h
      exact .refl
    · split at h
      · cases h
        exact .refl
      · obtain ⟨r₁, -, h⟩ := bind_eq_ok.mp h
        obtain ⟨⟨r₂, m⟩, -, h⟩ := bind_eq_ok.mp h
        obtain rfl := Except.ok.inj h
        have mem : KeepsRegs s { s with mem := m } := ⟨rfl, .inl rfl⟩
        refine (mem.trans keepsRegs_consumeDesc).trans ⟨?_, .inl rfl⟩
        apply regs_updQueue
        intro qs
        rfl

/-- What a step of the network device does to the registers. -/
lemma netStep_regs (h : netStep c a = .ok c') : RegEffect c.s a.write? c'.s := by
  cases a with
  | dev a => exact devStep_regs recvKeepsRegs (devStep_effect h)
  | rx pkt =>
    simp only [netStep] at h
    split at h
    · obtain ⟨s', e, h⟩ := bind_eq_ok.mp h
      cases h
      exact .keep (keepsRegs_writePacket e)
    · cases h

end Net

/-! ## The refinement of the register file -/

section RegFile
variable {B : Type} {s₀ s : VirtioDevice B} {h : List RegWrite}

/-- What a read of 4 bytes at an offset returns after the writes. -/
def regMapAt (s₀ : VirtioDevice B) (h : List RegWrite) (offset : Nat) : UInt32 :=
  match Reg.ofOffset offset with
  | some r => regMap s₀ h r
  | none => 0

/-- The registers of which every queue has its own. -/
def Virtio.Reg.ofQueues : Reg → Bool
  | .queueNum | .queueReady | .queueDescLow | .queueDescHigh | .queueAvailLow | .queueAvailHigh
  | .queueUsedLow | .queueUsedHigh => true
  | _ => false

/-- The device after the driver has selected a queue. -/
def selectQueue (s : VirtioDevice B) (q : Fin maxQueue) : VirtioDevice B :=
  virtioMmioWriteReg s 0x030 (.ofNat q.val) 4

/-- The device `s`, after the given writes since it was `s₀`, behaves as a register file. -/
structure RegFile (s₀ s : VirtioDevice B) (h : List RegWrite) : Prop where
  /-- Every read but that of the interrupt status returns what the abstract register file has. -/
  reads : ∀ offset < virtioMmioConfig, Reg.ofOffset offset ≠ some .interruptStatus →
    virtioMmioRead s offset 4 = .ok (regMapAt s₀ h offset)
  /-- A write that is no reset does not change what is read with another queue selected. -/
  apart : ∀ offset val, (offset, val) ≠ (0x070, 0) → ∀ q ≠ s.sel, ∀ offset' r,
    Reg.ofOffset offset' = some r → r.ofQueues = true →
      virtioMmioRead (selectQueue (virtioMmioWriteReg s offset val 4) q) offset' 4 =
        virtioMmioRead (selectQueue s q) offset' 4
  /-- After a reset, every register reads as at start-up. -/
  reset : ∀ offset < virtioMmioConfig,
    virtioMmioRead (virtioMmioWriteReg s 0x070 0 4) offset 4 = virtioMmioRead s₀ offset 4

/-- A read of four bytes below the configuration space is one of a register, or of 0. -/
lemma virtioMmioRead_reg {offset : Nat} (lt : offset < virtioMmioConfig) :
    virtioMmioRead s offset 4 = .ok ((Reg.ofOffset offset).elim 0 (readReg s)) := by
  simp only [virtioMmioRead, if_neg (not_le.mpr lt), if_true]
  cases Reg.ofOffset offset <;> rfl

/-- A write of four bytes to a register. -/
lemma virtioMmioWriteReg_reg {offset : Nat} {val : UInt32} {r : Reg} (e : Reg.ofOffset offset = some r) :
    virtioMmioWriteReg s offset val 4 = writeReg s val r := by
  simp only [virtioMmioWriteReg, if_neg (not_le.mpr (Reg.ofOffset_lt e)), if_true, e]

/-- Reading a register of a queue reads the queue that is selected. -/
lemma readReg_ofQueues {s' : VirtioDevice B} {r : Reg} (hr : r.ofQueues = true)
    (e : s'.queue s'.sel = s.queue s.sel) : readReg s' r = readReg s r := by
  cases r with
  | queueNum | queueReady | queueDescLow | queueDescHigh | queueAvailLow | queueAvailHigh
  | queueUsedLow | queueUsedHigh => simp only [readReg, e]
  | _ => cases hr

/-- The queue that has been selected. -/
lemma selectQueue_queue (q : Fin maxQueue) :
    (selectQueue s q).queue (selectQueue s q).sel = s.queue q := by
  have e : Reg.ofOffset 0x030 = some .queueSel := rfl
  have small : (UInt32.ofNat q.val).toNat = q.val := by
    rw [UInt32.toNat_ofNat']
    exact Nat.mod_eq_of_lt (lt_trans q.isLt (by decide))
  have lt : (UInt32.ofNat q.val).toNat < maxQueue := by
    rw [small]
    exact q.isLt
  simp only [selectQueue, virtioMmioWriteReg_reg e, writeReg, dif_pos lt]
  congr 1
  exact Fin.ext small

/-- What the simulation gives for the reads. -/
lemma Virtio.Tracks.regFile (t₀ : Tracks s₀ s₀ []) (int : s₀.intStatus = 0) (t : Tracks s₀ s h) :
    RegFile s₀ s h where
  reads offset lt ne := by
    rw [virtioMmioRead_reg lt, regMapAt]
    cases e : Reg.ofOffset offset with
    | none => rfl
    | some r => exact congrArg _ (t.readReg (fun er => ne (by rw [e, er])))
  apart offset val no q hq offset' r e hr := by
    rw [virtioMmioRead_reg (Reg.ofOffset_lt e), virtioMmioRead_reg (Reg.ofOffset_lt e), e]
    refine congrArg _ (readReg_ofQueues hr ?_)
    rw [selectQueue_queue, selectQueue_queue]
    cases er : Reg.ofOffset offset with
    | none =>
      have same : (virtioMmioWriteReg s offset val 4).queue = s.queue := by
        simp only [virtioMmioWriteReg, er, if_true]
        split
        · simp only [virtioConfigWrite]
          split <;> rfl
        · rfl
      rw [same]
    | some r' =>
      have noReset : isReset (r', val) = false := by
        cases yes : isReset (r', val) with
        | false => rfl
        | true =>
          obtain ⟨rfl, rfl⟩ : r' = .status ∧ val = 0 := by simpa [isReset] using yes
          exact absurd (by rw [Reg.ofOffset_status er]) no
      rw [virtioMmioWriteReg_reg er, writeReg_queue noReset, if_neg hq]
  reset offset lt := by
    have e : Reg.ofOffset 0x070 = some .status := rfl
    rw [virtioMmioRead_reg lt, virtioMmioRead_reg lt, virtioMmioWriteReg_reg e]
    cases Reg.ofOffset offset with
    | none => rfl
    | some r =>
      refine congrArg _ ?_
      by_cases ir : r = .interruptStatus
      · subst ir
        exact int.symm
      · simp only [Option.elim_some, t.reset.readReg ir, t₀.readReg ir]
        rfl

end RegFile

/-- No write has been made to the block device at start-up. -/
lemma Block.tracks_init (mem : GuestMemMap) (disk : Block.Disk) :
    Tracks (Block.virtioBlockInit mem disk) (Block.virtioBlockInit mem disk) [] :=
  ⟨rfl, rfl, rfl, rfl, rfl, rfl, rfl, fun _ => tracksQueue_reset⟩

/-- No write has been made to the network device at start-up. -/
lemma Net.tracks_init (mem : GuestMemMap) (tap : Net.Tap) :
    Tracks (Net.virtioNetInit mem tap) (Net.virtioNetInit mem tap) [] := by
  refine ⟨rfl, rfl, rfl, rfl, rfl, rfl, rfl, ?_⟩
  intro q
  simp only [Net.virtioNetInit, VirtioDevice.updQueue, Function.update_apply]
  split
  · exact tracksQueue_reset
  · exact tracksQueue_reset

/-- In every run from start-up, in which `h` is the history of the register writes, the registers of both
devices are those of the abstract register file. -/
theorem registers_refined (mem : GuestMemMap) (disk : Block.Disk) (tap : Net.Tap) :
    (∀ c h, Reach (noted Block.blockStep Block.BlockAct.write?) always (Block.blockInit mem disk, []) (c, h) →
      RegFile (Block.virtioBlockInit mem disk) c.s h) ∧
    ∀ c h, Reach (noted Net.netStep Net.NetAct.write?) always (Net.netInit mem tap, []) (c, h) →
      RegFile (Net.virtioNetInit mem tap) c.s h := by
  constructor
  · intro c h r
    have t₀ := Block.tracks_init mem disk
    refine t₀.regFile rfl (r.invariant (I := fun t => Tracks _ t.1.s t.2) t₀ ?_)
    intro t a t' _ tracks _ e
    obtain ⟨c', step, rfl⟩ := noted_eq_ok e
    exact tracks.step (Block.blockStep_regs step)
  · intro c h r
    have t₀ := Net.tracks_init mem tap
    refine t₀.regFile rfl (r.invariant (I := fun t => Tracks _ t.1.s t.2) t₀ ?_)
    intro t a t' _ tracks _ e
    obtain ⟨c', step, rfl⟩ := noted_eq_ok e
    exact tracks.step (Net.netStep_regs step)

/-- The halves of an address are written with a write to the other queue in between, and read back. -/
theorem registers_refined_halves :
    ∃ c h, Reach (noted Block.blockStep Block.BlockAct.write?) always
        (Block.blockInit (.onePage fun _ => 0) (.zero 512), []) (c, h) ∧
      h = [(.queueSel, 0), (.queueDescLow, 5), (.queueSel, 1), (.queueDescHigh, 7)] ∧
      RegFile (Block.virtioBlockInit (.onePage fun _ => 0) (.zero 512)) c.s h ∧
      virtioMmioRead c.s 0x084 4 = .ok 7 ∧ virtioMmioRead c.s 0x080 4 = .ok 0 := by
  obtain ⟨t, r, e⟩ := Reach.of_test (noted Block.blockStep Block.BlockAct.write?) always .blocked
    (Block.blockInit (.onePage fun _ => 0) (.zero 512), [])
    [.dev (.mmioWrite 0x084 7 4), .dev (.mmioWrite 0x030 1 4), .dev (.mmioWrite 0x080 5 4),
      .dev (.mmioWrite 0x030 0 4)]
    (fun t => t.2 == [(.queueSel, 0), (.queueDescLow, 5), (.queueSel, 1), (.queueDescHigh, 7)])
    (by decide +kernel)
  obtain ⟨c, h⟩ := t
  obtain rfl := beq_iff_eq.mp e
  have file := (registers_refined _ _ Net.takesAll).1 c _ r
  refine ⟨c, _, r, rfl, file, ?_, ?_⟩
  · rw [file.reads 0x084 (by decide) (by decide)]
    rfl
  · rw [file.reads 0x080 (by decide) (by decide)]
    rfl

/-! ## The parameters of the queues -/

section Params
variable {B : Type} {s s' : VirtioDevice B} {w : Option RegWrite}

/-- The parameters of the queues are in their ranges, and so are the slots of the rings. -/
structure QueuesOk (s : VirtioDevice B) : Prop where
  sel : s.queueSel.toNat < maxQueue
  advertised : s.maxQueueNum.toNat.isPowerOfTwo
  pow : ∀ q, (s.queue q).num.toNat.isPowerOfTwo
  pos : ∀ q, 1 ≤ (s.queue q).num.toNat
  max : ∀ q, (s.queue q).num.toNat ≤ s.maxQueueNum.toNat
  ready : ∀ q, (s.queue q).ready = 0 ∨ (s.queue q).ready = 1
  intStatus : s.intStatus = 0 ∨ s.intStatus = 1
  slot : ∀ q (idx : UInt16),
    (idx.toUInt32 &&& ((s.queue q).num - 1)).toNat = idx.toNat % (s.queue q).num.toNat ∧
      idx.toNat % (s.queue q).num.toNat < s.maxQueueNum.toNat

/-- What is written to QUEUE_NUM, if it is a power of two, is at most the advertised maximum. -/
def FitsNum (maxQueueNum : UInt32) (w : Option RegWrite) : Prop :=
  ∀ v ∈ w, v.1 = .queueNum → v.2.toNat.isPowerOfTwo → v.2.toNat ≤ maxQueueNum.toNat

instance (maxQueueNum : UInt32) (w : Option RegWrite) : Decidable (FitsNum maxQueueNum w) :=
  inferInstanceAs (Decidable (∀ v ∈ w, _))

/-- The ranges of the parameters give those of the slots. -/
lemma QueuesOk.of_params (advertised : s.maxQueueNum.toNat.isPowerOfTwo)
    (pow : ∀ q, (s.queue q).num.toNat.isPowerOfTwo)
    (max : ∀ q, (s.queue q).num.toNat ≤ s.maxQueueNum.toNat)
    (ready : ∀ q, (s.queue q).ready = 0 ∨ (s.queue q).ready = 1)
    (intStatus : s.intStatus = 0 ∨ s.intStatus = 1) : QueuesOk s where
  sel := s.queueSel_lt
  advertised := advertised
  pow := pow
  pos q := Nat.pos_of_isPowerOfTwo (pow q)
  max := max
  ready := ready
  intStatus := intStatus
  slot q idx := ⟨mask_eq_mod idx (pow q),
    lt_of_lt_of_le (Nat.mod_lt _ (Nat.pos_of_isPowerOfTwo (pow q))) (max q)⟩

/-- The lowest bit is 0 or 1. -/
lemma bit_cases (v : UInt32) : v &&& 1 = 0 ∨ v &&& 1 = 1 := by
  have h := Nat.mod_two_eq_zero_or_one v.toNat
  simp only [← UInt32.toNat_inj, UInt32.toNat_and, UInt32.toNat_one, UInt32.toNat_zero,
    Nat.and_one_is_mod]
  exact h

/-- The queues are in order as long as the registers are kept. -/
lemma QueuesOk.keep (h : QueuesOk s) (keeps : KeepsRegs s s') : QueuesOk s' := by
  have regs := keeps.regs
  simp only [VirtioDevice.regs, Regs.mk.injEq] at regs
  obtain ⟨-, -, -, -, -, -, max, queue⟩ := regs
  have num : ∀ q, (s'.queue q).num = (s.queue q).num := by
    intro q
    have same := congrFun queue q
    simp only [QueueState.mk.injEq] at same
    exact same.2.1
  have ready : ∀ q, (s'.queue q).ready = (s.queue q).ready := by
    intro q
    have same := congrFun queue q
    simp only [QueueState.mk.injEq] at same
    exact same.1
  refine .of_params (max ▸ h.advertised) (fun q => num q ▸ h.pow q) ?_ (fun q => ready q ▸ h.ready q) ?_
  · intro q
    rw [num, max]
    exact h.max q
  · obtain e | e := keeps.intStatus
    · rw [e]
      exact h.intStatus
    · right
      obtain i | i := h.intStatus
      · rw [e, i]
        rfl
      · rw [e, i]
        rfl

/-- A reset brings all parameters back. -/
lemma QueuesOk.reset (h : QueuesOk s) : QueuesOk (writeReg s 0 .status) := by
  have e : writeReg s 0 .status =
      virtioReset { s with status := 0, intStatus := 0, irqs := .level 0 :: s.irqs } := by
    simp [writeReg]
  rw [e]
  exact .of_params h.advertised (fun _ => h.advertised) (fun _ => le_rfl) (fun _ => .inl rfl) (.inl rfl)

/-- Of the interrupt status only an acknowledgement takes something away. -/
lemma intStatus_writeReg {v : UInt32} {r : Reg} (no : isReset (r, v) = false)
    (h : s.intStatus = 0 ∨ s.intStatus = 1) :
    (writeReg s v r).intStatus = 0 ∨ (writeReg s v r).intStatus = 1 := by
  cases r with
  | status =>
    rw [writeReg_status_ne no]
    exact h
  | queueNum | queueSel =>
    simp only [writeReg]
    split <;> exact h
  | interruptAck =>
    simp only [writeReg]
    obtain e | e := h
    · rw [e, UInt32.zero_and]
      exact .inl rfl
    · rw [e, UInt32.and_comm]
      exact bit_cases _
  | _ => exact h

/-- What a write does to the two parameters of the selected queue that have a range. -/
lemma writeQueueReg_params {v : UInt32} {r : Reg} {qs : QueueState} :
    (writeQueueReg v r qs).num = (if r = .queueNum ∧ v.toNat.isPowerOfTwo then v else qs.num) ∧
      (writeQueueReg v r qs).ready = if r = .queueReady then v &&& 1 else qs.ready := by
  cases r with
  | queueNum =>
    simp only [writeQueueReg]
    split
    · rename_i pow
      simp [isPowerOfTwo_iff.mp pow]
    · rename_i pow
      rw [isPowerOfTwo_iff] at pow
      simp [pow]
  | _ => simp [writeQueueReg]

/-- A write of a size that fits leaves the queues in order. -/
lemma QueuesOk.write {v : UInt32} {r : Reg} (no : isReset (r, v) = false) (h : QueuesOk s)
    (fits : FitsNum s.maxQueueNum (some (r, v))) : QueuesOk (writeReg s v r) := by
  obtain ⟨-, -, -, max⟩ : (writeReg s v r).deviceId = s.deviceId ∧ _ := writeReg_consts
  have num : ∀ q, ((writeReg s v r).queue q).num = (s.queue q).num ∨
      r = .queueNum ∧ v.toNat.isPowerOfTwo ∧ ((writeReg s v r).queue q).num = v := by
    intro q
    rw [writeReg_queue no]
    split
    · rw [writeQueueReg_params.1]
      split
      · rename_i is
        exact .inr ⟨is.1, is.2, rfl⟩
      · exact .inl rfl
    · exact .inl rfl
  refine .of_params (max ▸ h.advertised) ?_ ?_ ?_ (intStatus_writeReg no h.intStatus)
  · intro q
    obtain e | ⟨-, pow, e⟩ := num q
    · rw [e]
      exact h.pow q
    · rw [e]
      exact pow
  · intro q
    rw [max]
    obtain e | ⟨is, pow, e⟩ := num q
    · rw [e]
      exact h.max q
    · rw [e]
      exact fits (r, v) rfl is pow
  · intro q
    rw [writeReg_queue no]
    split
    · rw [writeQueueReg_params.2]
      split
      · exact bit_cases v
      · exact h.ready q
    · exact h.ready q

/-- A step keeps the parameters in their ranges if and only if it writes no queue size above the maximum. -/
lemma queuesOk_step (h : QueuesOk s) (e : RegEffect s w s') : QueuesOk s' ↔ FitsNum s.maxQueueNum w := by
  cases e with
  | keep keeps =>
    refine iff_of_true (h.keep keeps) ?_
    intro v hv
    cases hv
  | write r v =>
    cases no : isReset (r, v) with
    | true =>
      obtain ⟨rfl, rfl⟩ : r = .status ∧ v = 0 := by simpa [isReset] using no
      refine iff_of_true h.reset ?_
      intro w hw is
      obtain rfl := Option.some.inj hw
      cases is
    | false =>
      refine ⟨?_, h.write no⟩
      intro h' w hw is pow
      obtain rfl := Option.some.inj hw
      have max := h'.max s.sel
      obtain rfl : r = .queueNum := is
      obtain ⟨-, -, -, same⟩ : (writeReg s v .queueNum).deviceId = s.deviceId ∧ _ := writeReg_consts
      rw [same, writeReg_queue no, if_pos rfl, writeQueueReg_params.1, if_pos ⟨rfl, pow⟩] at max
      exact max

end Params

/-- The queues of the block device are in order at start-up. -/
lemma Block.queuesOk_init (mem : GuestMemMap) (disk : Block.Disk) :
    QueuesOk (Block.virtioBlockInit mem disk) :=
  have advertised : (8 : Nat).isPowerOfTwo := ⟨3, rfl⟩
  .of_params advertised (fun _ => advertised) (fun _ => le_rfl) (fun _ => .inl rfl) (.inl rfl)

/-- The queues of the network device are in order at start-up. -/
lemma Net.queuesOk_init (mem : GuestMemMap) (tap : Net.Tap) : QueuesOk (Net.virtioNetInit mem tap) := by
  have advertised : (32 : Nat).isPowerOfTwo := ⟨5, rfl⟩
  have num : ∀ q, ((Net.virtioNetInit mem tap).queue q).num = 32 ∧
      ((Net.virtioNetInit mem tap).queue q).ready = 0 := by
    intro q
    simp only [Net.virtioNetInit, VirtioDevice.updQueue, Function.update_apply]
    split
    · exact ⟨rfl, rfl⟩
    · exact ⟨rfl, rfl⟩
  refine .of_params advertised ?_ ?_ (fun q => .inl (num q).2) (.inl rfl)
  · intro q
    rw [(num q).1]
    exact advertised
  · intro q
    rw [(num q).1]
    exact le_rfl

/-- The guest writes no queue size above the maximum. -/
def Block.Fits (c : Block.BlockMachine) (a : Block.BlockAct) : Prop :=
  FitsNum c.s.maxQueueNum a.write?

/-- The guest writes no queue size above the maximum. -/
def Net.Fits (c : Net.NetMachine) (a : Net.NetAct) : Prop :=
  FitsNum c.s.maxQueueNum a.write?

instance (c : Block.BlockMachine) (a : Block.BlockAct) : Decidable (Block.Fits c a) :=
  inferInstanceAs (Decidable (FitsNum _ _))

instance (c : Net.NetMachine) (a : Net.NetAct) : Decidable (Net.Fits c a) :=
  inferInstanceAs (Decidable (FitsNum _ _))

/-- As long as the guest writes no queue size above the advertised maximum, the parameters of the queues of
both devices are in their ranges; and the first such write ends that. -/
theorem queues_ok (mem : GuestMemMap) (disk : Block.Disk) (tap : Net.Tap) :
    (∀ c, Reach Block.blockStep Block.Fits (Block.blockInit mem disk) c →
      QueuesOk c.s ∧ ∀ a c', Block.blockStep c a = .ok c' → (QueuesOk c'.s ↔ Block.Fits c a)) ∧
    ∀ c, Reach Net.netStep Net.Fits (Net.netInit mem tap) c →
      QueuesOk c.s ∧ ∀ a c', Net.netStep c a = .ok c' → (QueuesOk c'.s ↔ Net.Fits c a) := by
  constructor
  · intro c r
    have ok : QueuesOk c.s := by
      refine r.invariant (I := fun c => QueuesOk c.s) (Block.queuesOk_init mem disk) ?_
      intro c a c' _ ok fits e
      exact (queuesOk_step ok (Block.blockStep_regs e)).mpr fits
    exact ⟨ok, fun a c' e => queuesOk_step ok (Block.blockStep_regs e)⟩
  · intro c r
    have ok : QueuesOk c.s := by
      refine r.invariant (I := fun c => QueuesOk c.s) (Net.queuesOk_init mem tap) ?_
      intro c a c' _ ok fits e
      exact (queuesOk_step ok (Net.netStep_regs e)).mpr fits
    exact ⟨ok, fun a c' e => queuesOk_step ok (Net.netStep_regs e)⟩

/-- The driver makes a queue of each device smaller. -/
theorem queues_ok_smaller :
    (∃ c, Reach Block.blockStep Block.Fits (Block.blockInit (.onePage fun _ => 0) (.zero 512)) c ∧
      (c.s.queue 0).num = 4 ∧ QueuesOk c.s) ∧
    ∃ c, Reach Net.netStep Net.Fits (Net.netInit (.onePage fun _ => 0) Net.takesAll) c ∧
      (c.s.queue 1).num = 16 ∧ QueuesOk c.s := by
  constructor
  · obtain ⟨c, r, e⟩ := Reach.of_test Block.blockStep Block.Fits .blocked
      (Block.blockInit (.onePage fun _ => 0) (.zero 512)) [.dev (.mmioWrite 0x038 4 4)]
      (fun c => (c.s.queue 0).num == 4) (by decide +kernel)
    exact ⟨c, r, beq_iff_eq.mp e, ((queues_ok _ _ Net.takesAll).1 c r).1⟩
  · obtain ⟨c, r, e⟩ := Reach.of_test Net.netStep Net.Fits .blocked (Net.netInit (.onePage fun _ => 0) Net.takesAll)
      [.dev (.mmioWrite 0x030 1 4), .dev (.mmioWrite 0x038 16 4)]
      (fun c => (c.s.queue 1).num == 16) (by decide +kernel)
    exact ⟨c, r, beq_iff_eq.mp e, ((queues_ok _ (.zero 0) _).2 c r).1⟩

/-- The block device advertises queues of 8 entries and takes one of 16. -/
theorem queue_larger_than_advertised :
    ∃ c, Reach Block.blockStep always (Block.blockInit (.onePage fun _ => 0) (.zero 512)) c ∧
      virtioMmioRead c.s 0x034 4 = .ok 8 ∧ virtioMmioRead c.s 0x038 4 = .ok 16 ∧ ¬ QueuesOk c.s := by
  obtain ⟨c, r, e⟩ := Reach.of_test Block.blockStep always .blocked
    (Block.blockInit (.onePage fun _ => 0) (.zero 512)) [.dev (.mmioWrite 0x038 16 4)]
    (fun c => decide (virtioMmioRead c.s 0x034 4 = .ok 8 ∧ virtioMmioRead c.s 0x038 4 = .ok 16 ∧
      ¬ (c.s.queue 0).num.toNat ≤ c.s.maxQueueNum.toNat)) (by decide +kernel)
  obtain ⟨max, num, gt⟩ := of_decide_eq_true e
  exact ⟨c, r, max, num, fun ok => gt (ok.max 0)⟩

end Mvvmm
