import Mvvmm.Stores
import Mvvmm.Virtio.Copy
import Mvvmm.Virtio.Ends

/-!
# When the devices return

Both devices return from a chain unless they crash, so that it is the scan that `queue_notify` and
`virtio_net_write_packet` can hang in, with the lock of the device taken. `notify_returns_iff` says when they do not. A
descriptor that is linked to itself is enough for the guest to hang them (`scan_never_returns`).
-/

namespace Mvvmm
open CMem Virtio

section Copy
variable {m : GuestMemMap} {qs : QueueState} {buf : Obj} {descIdx : Nat} {offset count : Int} {toQueue : Bool}

/-- The copier looks for a bounded number of descriptors, so it returns. -/
lemma memcpyToFromQueue_returns : Returns (memcpyToFromQueue m buf qs descIdx offset count toQueue) := by
  apply returns_of_range
  intro x h
  simp only [memcpyToFromQueue] at h
  split at h
  · cases h
  · obtain ⟨r, e⟩ : ∃ r, locate m qs descIdx offset toQueue = .ok r := locate_ok
    rw [e, ok_bind] at h
    cases r with
    | none => cases h
    | some p => exact copyLoop_error h

/-- A copy from a chain returns. -/
lemma memcpyFromQueue_returns : Returns (memcpyFromQueue m buf qs descIdx offset count) :=
  memcpyToFromQueue_returns.bind fun _ _ => returns_ok _

/-- A copy to a chain returns. -/
lemma memcpyToQueue_returns : Returns (memcpyToQueue m qs descIdx offset buf count) :=
  memcpyToFromQueue_returns.bind fun _ _ => returns_ok _

/-- An allocation returns. -/
lemma mallocZero_returns {size : Int} : Returns (mallocZero size) := by
  apply returns_of_range
  intro x h
  simp only [mallocZero] at h
  split at h
  · cases h
    rfl
  · cases h

end Copy

namespace Block
variable {s : VirtioBlockDevice} {req : BlockRequest} {buf : Obj} {ret : Int}

/-- An answer returns. -/
lemma virtioBlockReqEnd_returns : Returns (virtioBlockReqEnd s req buf ret) := by
  have store : ∀ (o : Obj) (pos : Int) (l : List UInt8), Returns (o.store pos l) :=
    fun o pos l => returns_of_range fun x => Obj.store_error
  simp only [virtioBlockReqEnd]
  split
  · exact (store _ _ _).bind fun _ _ => memcpyToQueue_returns.bind fun _ _ => returns_ok _
  · split
    · exact (store _ _ _).bind fun _ _ => memcpyToQueue_returns.bind fun _ _ => returns_ok _
    · exact returns_abort

/-- A submission returns, and so does the answer that it makes for want of a worker. -/
lemma submitted_returns {r : Int × BlockDeviceCtx} : Returns (submitted s req buf r) := by
  simp only [submitted]
  split
  · exact virtioBlockReqEnd_returns
  · exact returns_ok _

/-- The block device returns from every chain. -/
lemma recvReturns : RecvReturns virtioBlockRecvRequest := by
  intro s q descIdx readSize writeSize
  simp only [virtioBlockRecvRequest]
  refine memcpyFromQueue_returns.bind fun r _ => ?_
  split
  · exact returns_ok _
  · split
    · exact mallocZero_returns.bind fun _ _ => submitted_returns.bind fun _ _ => returns_ok _
    · split
      · split
        · exact returns_abort
        · split
          · exact returns_abort
          · exact mallocZero_returns.bind fun _ _ => memcpyFromQueue_returns.bind fun _ _ =>
              submitted_returns.bind fun _ _ => returns_ok _
      · exact returns_ok _

end Block

namespace Net
variable {s : VirtioNetDevice} {pkt : List UInt8}

/-- The network device returns from every chain. -/
lemma recvReturns : RecvReturns virtioNetRecvRequest := by
  intro s q descIdx readSize writeSize
  simp only [virtioNetRecvRequest, netRecvRequest]
  refine memcpyFromQueue_returns.bind fun r _ => ?_
  split
  · exact returns_ok _
  · exact mallocZero_returns.bind fun _ _ => memcpyFromQueue_returns.bind fun _ _ => returns_ok _

/-- The delivery of a packet does not hang if and only if the scan of the chain for it ends. -/
lemma virtioNetWritePacket_returns_iff :
    Returns (virtioNetWritePacket s pkt) ↔ (virtioNetCanWritePacket s = true → NextEnds 0 s) := by
  simp only [virtioNetWritePacket]
  cases can : virtioNetCanWritePacket s with
  | false => exact iff_of_true (returns_ok s) (by simp)
  | true =>
    simp only [Bool.not_true, Bool.false_eq_true, if_false, forall_const]
    rw [returns_bind_iff, getDescRwSize_safe.returns_iff, NextEnds, ← getDescRwSize_returns_iff]
    refine and_iff_left ?_
    rintro (_ | sizes) -
    · exact returns_ok s
    · simp only
      split
      · exact returns_ok s
      · exact memcpyToQueue_returns.bind fun _ _ => memcpyToQueue_returns.bind fun _ _ => returns_ok _

end Net

/-- `get_desc_rw_size` returns, after any number of rounds, if and only if its walk ends. `queue_notify` and
`virtio_net_write_packet` do not hang, which is to say that they return unless they crash, if and only if the scan of each
chain that they come to ends. -/
theorem notify_returns_iff (m : GuestMemMap) (qs : QueueState) (head : Nat) (blk : Block.VirtioBlockDevice)
    (net : Net.VirtioNetDevice) (q : Fin maxQueue) (pkt : List UInt8) :
    (((∃ n r, scanRounds n m qs head = .ok r) ↔ ScanEnds m qs false (scanFirst m qs head)) ∧
      ((∃ r, getDescRwSize m qs head = .ok r) ↔ ScanEnds m qs false (scanFirst m qs head))) ∧
    (Returns (queueNotify Block.virtioBlockRecvRequest blk q) ↔ ((blk.queue q).manualRecv = false →
      ∀ s', Visits Block.virtioBlockRecvRequest q (availIdx blk q) blk s' → NextEnds q s')) ∧
    (Returns (queueNotify Net.virtioNetRecvRequest net q) ↔ ((net.queue q).manualRecv = false →
      ∀ s', Visits Net.virtioNetRecvRequest q (availIdx net q) net s' → NextEnds q s')) ∧
    (Returns (Net.virtioNetWritePacket net pkt) ↔ (Net.virtioNetCanWritePacket net = true → NextEnds 0 net)) := by
  refine ⟨⟨scanRounds_returns_iff, getDescRwSize_returns_iff⟩, ?_, ?_, ?_⟩
  · exact queueNotify_returns_iff Block.recvReturns Block.recvKeeps
  · exact queueNotify_returns_iff Net.recvReturns Net.recvKeeps
  · exact Net.virtioNetWritePacket_returns_iff

/-- A readable descriptor that is linked to itself. Its address makes 1 of what `queue_notify` reads as the index of an
available ring at the same place. -/
def loopDesc : VirtioDesc :=
  ⟨0x10000, 0, 1, 0⟩

/-- A block device whose guest has put all rings of its queues at address 0, where this descriptor is. -/
def loopDevice : Block.VirtioBlockDevice :=
  Block.virtioBlockInit (twoDescs loopDesc .zero) (.zero 512)

/-- The scan stays at this descriptor. -/
lemma scanNext_loop : scanNext loopDevice.mem (loopDevice.queue 0) loopDesc = loopDesc := by
  decide +kernel

/-- The scan of this descriptor never returns, however many rounds it gets, and so `queue_notify` does not either. -/
theorem scan_never_returns :
    (∀ n r, scanRounds n loopDevice.mem (loopDevice.queue 0) 0 ≠ .ok r) ∧
      ∀ s', queueNotify Block.virtioBlockRecvRequest loopDevice 0 ≠ .ok s' := by
  have first : scanFirst loopDevice.mem (loopDevice.queue 0) 0 = loopDesc := by decide +kernel
  have head : nextHead loopDevice 0 = 0 := by decide +kernel
  constructor
  · intro n r e
    have ends := scanRounds_returns_iff.mp ⟨n, r, e⟩
    rw [first] at ends
    exact not_scanEnds_stuck rfl rfl scanNext_loop ends
  · intro s' e
    have ends := (queueNotify_returns_iff Block.recvReturns Block.recvKeeps).mp fun _ => ⟨s', e⟩
    have next := ends rfl loopDevice (.here (by decide +kernel))
    rw [NextEnds, head, first] at next
    exact not_scanEnds_stuck rfl rfl scanNext_loop next

end Mvvmm
