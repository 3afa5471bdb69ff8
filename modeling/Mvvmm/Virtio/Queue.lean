import Mvvmm.Virtio.Desc
import Mathlib.Logic.Function.Basic

/-!
# The device and its queues

Model of `struct virtio_device` and of the functions of `virtio.c` that process a queue:
`virtioConsumeDesc` (C `virtio_consume_desc`) and `queueNotify` (C `queue_notify`). The code is generic
in the device: what follows `struct virtio_device` in memory (`struct virtio_block_device`,
`struct virtio_net_device`) is the field `dev` of an arbitrary type `B`, and the function pointer
`device_recv` is the parameter `recv`.

All of it runs under `s->lock`, so each function is a pure function of the device. The round of the
loop of `queue_notify` is a definition of its own (`queueNotifyRound`), because the guest goes on
running between two rounds.
-/

namespace Mvvmm.Virtio
open Bytes CMem

/-- C `MAX_QUEUE`. -/
def maxQueue : Nat := 2

instance : NeZero maxQueue :=
  ⟨by decide⟩

/-- What the device does to its interrupt: an `ioctl` that sets the level of the line (C `set_irq`), or
a write to its eventfd (C `trigger_irqfd`). -/
inductive Irq where
  | level (level : Int)
  | trigger
  deriving DecidableEq, Repr

/-- An entry of a used ring: the queue, the head of the chain and the length reported for it. -/
structure UsedEntry where
  queue : Fin maxQueue
  head : Nat
  len : Int
  deriving DecidableEq, Repr

/-- C `struct virtio_device`, and in `dev` what the device behind it adds to it. The first three lists
are history, latest first: what was done to the interrupt, the heads that `queue_notify` has advanced
past, and the entries that have reached a used ring in guest memory. -/
structure VirtioDevice (B : Type) where
  irqs : List Irq
  popped : List (Fin maxQueue × Nat)
  used : List UsedEntry
  mem : GuestMemMap
  intStatus : UInt32
  status : UInt32
  deviceFeaturesSel : UInt32
  queueSel : UInt32
  queueSel_lt : queueSel.toNat < maxQueue
  queue : Fin maxQueue → QueueState
  deviceId : UInt32
  vendorId : UInt32
  deviceFeatures : UInt32
  configSpaceSize : UInt32
  configSpace : Nat → UInt8
  maxQueueNum : UInt32
  dev : B

/-- C `virtio_device_recv_fn`: what it returns and the device afterwards. The arguments are the queue,
the head of the chain and its readable and writable size. -/
abbrev DeviceRecv (B : Type) :=
  VirtioDevice B → Fin maxQueue → Nat → Int → Int → Except Stop (Int × VirtioDevice B)

namespace VirtioDevice
variable {B : Type}

/-- The device with one of its queues changed. -/
def updQueue (s : VirtioDevice B) (q : Fin maxQueue) (f : QueueState → QueueState) :
    VirtioDevice B :=
  { s with queue := Function.update s.queue q (f (s.queue q)) }

/-- The selected queue. -/
def sel (s : VirtioDevice B) : Fin maxQueue :=
  ⟨s.queueSel.toNat, s.queueSel_lt⟩

end VirtioDevice

variable {B : Type} {s s' : VirtioDevice B} {q : Fin maxQueue}

/-- Guest address of the slot of `idx` in the available ring. -/
def availRingAddr (qs : QueueState) (idx : UInt16) : UInt64 :=
  qs.availAddr + 4 + ((idx.toUInt32 &&& (qs.num - 1)) * 2).toUInt64

/-- Guest address of the slot of `idx` in the used ring. -/
def usedRingAddr (qs : QueueState) (idx : UInt16) : UInt64 :=
  qs.usedAddr + 4 + ((idx.toUInt32 &&& (qs.num - 1)) * 8).toUInt64

/-- In a ring whose size is a power of two, the mask is the remainder. -/
lemma mask_eq_mod {num : UInt32} (idx : UInt16) (pow : num.toNat.isPowerOfTwo) :
    (idx.toUInt32 &&& (num - 1)).toNat = idx.toNat % num.toNat := by
  have pos := Nat.pos_of_isPowerOfTwo pow
  obtain ⟨k, e⟩ := pow
  have one : (1 : UInt32) ≤ num := UInt32.le_iff_toNat_le.mpr pos
  have sub : (num - 1).toNat = 2 ^ k - 1 := by
    rw [UInt32.toNat_sub_of_le _ _ one, e]
    rfl
  rw [UInt32.toNat_and, sub, UInt16.toNat_toUInt32, Nat.and_two_pow_sub_one_eq_mod, e]

/-- The next entry of the used ring lies in guest memory, at an address that `virtio_write32` takes. -/
def UsedInside (m : GuestMemMap) (qs : QueueState) : Prop :=
  qs.usedAddr.toNat % 4 = 0 ∧
    qs.usedAddr.toNat + 12 +
      ((virtioRead16 m (qs.usedAddr + 2)).toUInt32 &&& (qs.num - 1)).toNat * 8 ≤ m.size

instance (m : GuestMemMap) (qs : QueueState) : Decidable (UsedInside m qs) :=
  inferInstanceAs (Decidable (_ ∧ _))

/-- The guest memory after a used-ring entry was published: the stores of `virtio_consume_desc`. -/
def publishUsed (m : GuestMemMap) (qs : QueueState) (descIdx : Nat) (descLen : Int) : GuestMemMap :=
  let indexAddr := qs.usedAddr + 2
  let index := virtioRead16 m indexAddr
  let ringAddr := usedRingAddr qs index
  let m := virtioWrite32 m ringAddr (.ofNat descIdx)
  let m := virtioWrite32 m (ringAddr + 4) (.ofInt descLen)
  virtioWrite16 m indexAddr (index + 1)

/-- C `virtio_consume_desc`. -/
def virtioConsumeDesc (s : VirtioDevice B) (q : Fin maxQueue) (descIdx : Nat) (descLen : Int) :
    VirtioDevice B :=
  let m := publishUsed s.mem (s.queue q) descIdx descLen
  let used := if UsedInside s.mem (s.queue q) then ⟨q, descIdx, descLen⟩ :: s.used else s.used
  if virtioRead16 m (s.queue q).availAddr &&& 1 ≠ 0 then
    { s with mem := m, used }
  else
    { s with mem := m, used, intStatus := s.intStatus ||| 1, irqs := .trigger :: s.irqs }

/-- The whole used ring lies in a guest memory of the given size, at an address that `virtio_write32`
takes. -/
def UsedRingInside (size : Nat) (qs : QueueState) : Prop :=
  qs.usedAddr.toNat % 4 = 0 ∧ qs.usedAddr.toNat + 12 + (qs.num - 1).toNat * 8 ≤ size

instance (size : Nat) (qs : QueueState) : Decidable (UsedRingInside size qs) :=
  inferInstanceAs (Decidable (_ ∧ _))

/-- If the ring lies in the memory, so does its next entry, whatever the index. -/
lemma UsedRingInside.usedInside {m : GuestMemMap} {qs : QueueState} (h : UsedRingInside m.size qs) :
    UsedInside m qs := by
  refine ⟨h.1, le_trans ?_ h.2⟩
  have le : ((virtioRead16 m (qs.usedAddr + 2)).toUInt32 &&& (qs.num - 1)).toNat ≤
      (qs.num - 1).toNat := by
    rw [UInt32.toNat_and]
    exact Nat.and_le_right
  omega

section Consume
variable {descIdx : Nat} {descLen : Int}

/-- A published entry keeps the size of the memory. -/
@[simp]
lemma publishUsed_size {m : GuestMemMap} {qs : QueueState} :
    (publishUsed m qs descIdx descLen).size = m.size := by
  simp [publishUsed]

/-- What a completion does to guest memory. -/
@[simp]
lemma virtioConsumeDesc_mem :
    (virtioConsumeDesc s q descIdx descLen).mem = publishUsed s.mem (s.queue q) descIdx descLen := by
  simp only [virtioConsumeDesc]
  split <;> rfl

/-- A completion keeps the queues. -/
@[simp]
lemma virtioConsumeDesc_queue : (virtioConsumeDesc s q descIdx descLen).queue = s.queue := by
  simp only [virtioConsumeDesc]
  split <;> rfl

/-- A completion keeps the backend. -/
@[simp]
lemma virtioConsumeDesc_dev : (virtioConsumeDesc s q descIdx descLen).dev = s.dev := by
  simp only [virtioConsumeDesc]
  split <;> rfl

/-- A completion pops nothing. -/
@[simp]
lemma virtioConsumeDesc_popped : (virtioConsumeDesc s q descIdx descLen).popped = s.popped := by
  simp only [virtioConsumeDesc]
  split <;> rfl

/-- An entry that lies in guest memory reaches the used ring. -/
lemma virtioConsumeDesc_used (descIdx : Nat) (descLen : Int) (h : UsedInside s.mem (s.queue q)) :
    (virtioConsumeDesc s q descIdx descLen).used = ⟨q, descIdx, descLen⟩ :: s.used := by
  simp only [virtioConsumeDesc, if_pos h]
  split <;> rfl

end Consume

/-- The head that the next round of `queue_notify` pops. -/
def nextHead (s : VirtioDevice B) (q : Fin maxQueue) : Nat :=
  (virtioRead16 s.mem (availRingAddr (s.queue q) (s.queue q).lastAvailIdx)).toNat

/-- Heads are 16 bits wide. -/
lemma nextHead_lt {s : VirtioDevice B} {q : Fin maxQueue} : nextHead s q < 2 ^ 16 :=
  UInt16.toNat_lt _

/-- C `qs->last_avail_idx++`, past the chain with the given head. -/
def advance (s : VirtioDevice B) (q : Fin maxQueue) (descIdx : Nat) : VirtioDevice B :=
  { s.updQueue q fun qs => { qs with lastAvailIdx := qs.lastAvailIdx + 1 } with
    popped := (q, descIdx) :: s.popped }

/-- A round of the loop of `queue_notify`; the flag tells whether the loop goes on. -/
def queueNotifyRound (recv : DeviceRecv B) (s : VirtioDevice B) (q : Fin maxQueue) :
    Except Stop (Bool × VirtioDevice B) := do
  let descIdx := nextHead s q
  match ← getDescRwSize s.mem (s.queue q) descIdx with
  | some (readSize, writeSize) =>
    let r ← recv s q descIdx readSize writeSize
    if r.1 < 0 then
      return (false, r.2)
    else
      return (true, advance r.2 q descIdx)
  | none => return (true, advance s q descIdx)

/-- The loop of `queue_notify`. -/
def queueNotifyLoop (recv : DeviceRecv B) (q : Fin maxQueue) (availIdx : UInt16) :
    Nat → VirtioDevice B → Except Stop (VirtioDevice B)
  | 0, s => if (s.queue q).lastAvailIdx = availIdx then return s else .error .diverge
  | n + 1, s => do
    if (s.queue q).lastAvailIdx = availIdx then
      return s
    else
      let r ← queueNotifyRound recv s q
      if r.1 then
        queueNotifyLoop recv q availIdx n r.2
      else
        return r.2

/-- Nothing is done for a queue that offers nothing new. -/
lemma queueNotifyLoop_done {recv : DeviceRecv B} {availIdx : UInt16} {n : Nat} (h : (s.queue q).lastAvailIdx = availIdx) :
    queueNotifyLoop recv q availIdx n s = .ok s := by
  cases n with
  | zero =>
    simp only [queueNotifyLoop, h, if_true]
    rfl
  | succ n =>
    simp only [queueNotifyLoop, h, if_true]
    rfl

/-- The index that `queue_notify` reads at its start. -/
def availIdx (s : VirtioDevice B) (q : Fin maxQueue) : UInt16 :=
  virtioRead16 s.mem ((s.queue q).availAddr + 2)

/-- C `queue_notify`. As `last_avail_idx` moves by one each round, `2 ^ 16` rounds are enough. -/
def queueNotify (recv : DeviceRecv B) (s : VirtioDevice B) (q : Fin maxQueue) :
    Except Stop (VirtioDevice B) :=
  if (s.queue q).manualRecv then
    return s
  else
    queueNotifyLoop recv q (availIdx s q) (2 ^ 16) s

end Mvvmm.Virtio
