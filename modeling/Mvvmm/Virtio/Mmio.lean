import Mvvmm.Virtio.Queue

/-!
# Registers

Model of the register layer of `virtio.c`: `virtioReset`, `virtioInit`, the configuration space
(`virtioConfigRead`, `virtioConfigWrite`) and the two entry points `virtioMmioRead`,
`virtioMmioWrite`. No device sets the hook `config_write`, which is left out. Offsets and access sizes
are natural numbers, because the code only compares them.
-/

namespace Mvvmm.Virtio
open Bytes CMem

variable {B : Type} {s s' : VirtioDevice B} {q : Fin maxQueue}

/-- What `virtio_reset` makes of a queue. -/
def resetQueue (maxQueueNum : UInt32) (qs : QueueState) : QueueState :=
  { qs with
    availAddr := 0, descAddr := 0, usedAddr := 0, lastAvailIdx := 0, ready := 0, num := maxQueueNum }

/-- C `virtio_reset`. -/
def virtioReset (s : VirtioDevice B) : VirtioDevice B :=
  { s with
    status := 0, queueSel := 0, queueSel_lt := by decide, deviceFeaturesSel := 0, intStatus := 0
    queue := fun q => resetQueue s.maxQueueNum (s.queue q) }

/-- C `virtio_init`. -/
def virtioInit (mem : GuestMemMap) (deviceId configSpaceSize maxQueueNum : UInt32) (dev : B) :
    VirtioDevice B :=
  virtioReset
    { irqs := [], popped := [], used := [], mem, intStatus := 0, status := 0, deviceFeaturesSel := 0
      queueSel := 0, queueSel_lt := by decide, queue := fun _ => ⟨0, 0, 0, 0, 0, 0, false⟩, deviceId
      vendorId := 0xffff, deviceFeatures := 0, configSpaceSize, configSpace := fun _ => 0
      maxQueueNum, dev }

/-- C `virtio_config_read`. -/
def virtioConfigRead (s : VirtioDevice B) (offset size : Nat) : Except Stop UInt32 :=
  match size with
  | 1 =>
    if offset < s.configSpaceSize.toNat then
      return (s.configSpace offset).toUInt32
    else
      return 0
  | 2 =>
    if offset < (s.configSpaceSize - 1).toNat then
      return .ofNat (leNat (slice s.configSpace offset 2))
    else
      return 0
  | 4 =>
    if offset < (s.configSpaceSize - 3).toNat then
      return .ofNat (leNat (slice s.configSpace offset 4))
    else
      return 0
  | _ => .error .abort

/-- C `virtio_config_write`. -/
def virtioConfigWrite (s : VirtioDevice B) (offset : Nat) (val : UInt32) (size : Nat) :
    VirtioDevice B :=
  match size with
  | 1 =>
    if offset < s.configSpaceSize.toNat then
      { s with configSpace := splice s.configSpace offset (leBytes 1 val.toNat) }
    else
      s
  | 2 =>
    if offset < (s.configSpaceSize - 1).toNat then
      { s with configSpace := splice s.configSpace offset (leBytes 2 val.toNat) }
    else
      s
  | 4 =>
    if offset < (s.configSpaceSize - 3).toNat then
      { s with configSpace := splice s.configSpace offset (leBytes 4 val.toNat) }
    else
      s
  | _ => s

/-- The registers below the configuration space (C `VIRTIO_MMIO_*`). -/
inductive Reg where
  | magicValue | version | deviceId | vendorId | deviceFeatures | deviceFeaturesSel | queueSel
  | queueNumMax | queueNum | queueReady | queueNotify | interruptStatus | interruptAck | status
  | queueDescLow | queueDescHigh | queueAvailLow | queueAvailHigh | queueUsedLow | queueUsedHigh
  | configGeneration
  deriving DecidableEq, Repr

/-- C `VIRTIO_MMIO_CONFIG`. -/
def virtioMmioConfig : Nat := 0x100

/-- The register at an offset. -/
def Reg.ofOffset : Nat → Option Reg
  | 0x000 => some .magicValue
  | 0x004 => some .version
  | 0x008 => some .deviceId
  | 0x00c => some .vendorId
  | 0x010 => some .deviceFeatures
  | 0x014 => some .deviceFeaturesSel
  | 0x030 => some .queueSel
  | 0x034 => some .queueNumMax
  | 0x038 => some .queueNum
  | 0x044 => some .queueReady
  | 0x050 => some .queueNotify
  | 0x060 => some .interruptStatus
  | 0x064 => some .interruptAck
  | 0x070 => some .status
  | 0x080 => some .queueDescLow
  | 0x084 => some .queueDescHigh
  | 0x090 => some .queueAvailLow
  | 0x094 => some .queueAvailHigh
  | 0x0a0 => some .queueUsedLow
  | 0x0a4 => some .queueUsedHigh
  | 0x0fc => some .configGeneration
  | _ => none

/-- The `switch` of `virtio_mmio_read`. -/
def readReg (s : VirtioDevice B) : Reg → UInt32
  | .magicValue => 0x74726976
  | .version => 2
  | .deviceId => s.deviceId
  | .vendorId => s.vendorId
  | .deviceFeatures =>
    match s.deviceFeaturesSel with
    | 0 => s.deviceFeatures
    | 1 => 1
    | _ => 0
  | .deviceFeaturesSel => s.deviceFeaturesSel
  | .queueSel => s.queueSel
  | .queueNumMax => s.maxQueueNum
  | .queueNum => (s.queue s.sel).num
  | .queueDescLow => (s.queue s.sel).descAddr.toUInt32
  | .queueAvailLow => (s.queue s.sel).availAddr.toUInt32
  | .queueUsedLow => (s.queue s.sel).usedAddr.toUInt32
  | .queueDescHigh => ((s.queue s.sel).descAddr >>> 32).toUInt32
  | .queueAvailHigh => ((s.queue s.sel).availAddr >>> 32).toUInt32
  | .queueUsedHigh => ((s.queue s.sel).usedAddr >>> 32).toUInt32
  | .queueReady => (s.queue s.sel).ready
  | .interruptStatus => s.intStatus
  | .status => s.status
  | .configGeneration => 0
  | .queueNotify => 0
  | .interruptAck => 0

/-- C `virtio_mmio_read`. -/
def virtioMmioRead (s : VirtioDevice B) (offset size : Nat) : Except Stop UInt32 :=
  if offset ≥ virtioMmioConfig then
    virtioConfigRead s (offset - virtioMmioConfig) size
  else if size = 4 then
    match Reg.ofOffset offset with
    | some r => return readReg s r
    | none => return 0
  else
    return 0

/-- C `set_low32`. -/
def setLow32 (paddr : UInt64) (val : UInt32) : UInt64 :=
  (paddr &&& (0xffffffff00000000 : UInt64)) ||| val.toUInt64

/-- C `set_high32`. -/
def setHigh32 (paddr : UInt64) (val : UInt32) : UInt64 :=
  (paddr &&& (0xffffffff : UInt64)) ||| (val.toUInt64 <<< 32)

/-- The `switch` of `virtio_mmio_write` but for `VIRTIO_MMIO_QUEUE_NOTIFY`. -/
def writeReg (s : VirtioDevice B) (val : UInt32) : Reg → VirtioDevice B
  | .deviceFeaturesSel => { s with deviceFeaturesSel := val }
  | .queueSel =>
    if h : val.toNat < maxQueue then
      { s with queueSel := val, queueSel_lt := h }
    else
      s
  | .queueNum =>
    if val &&& (val - 1) = 0 ∧ val > 0 then
      s.updQueue s.sel fun qs => { qs with num := val }
    else
      s
  | .queueDescLow => s.updQueue s.sel fun qs => { qs with descAddr := setLow32 qs.descAddr val }
  | .queueAvailLow => s.updQueue s.sel fun qs => { qs with availAddr := setLow32 qs.availAddr val }
  | .queueUsedLow => s.updQueue s.sel fun qs => { qs with usedAddr := setLow32 qs.usedAddr val }
  | .queueDescHigh => s.updQueue s.sel fun qs => { qs with descAddr := setHigh32 qs.descAddr val }
  | .queueAvailHigh => s.updQueue s.sel fun qs => { qs with availAddr := setHigh32 qs.availAddr val }
  | .queueUsedHigh => s.updQueue s.sel fun qs => { qs with usedAddr := setHigh32 qs.usedAddr val }
  | .status =>
    if val = 0 then
      virtioReset { s with status := val, intStatus := 0, irqs := .level 0 :: s.irqs }
    else
      { s with status := val }
  | .queueReady => s.updQueue s.sel fun qs => { qs with ready := val &&& 1 }
  | .interruptAck => { s with intStatus := s.intStatus &&& ~~~val }
  | _ => s

/-- The queue that a write notifies, if it is a write of `VIRTIO_MMIO_QUEUE_NOTIFY`. -/
def notifies (offset : Nat) (val : UInt32) (size : Nat) : Option (Fin maxQueue) :=
  if size = 4 ∧ Reg.ofOffset offset = some .queueNotify then
    if h : val.toNat < maxQueue then some ⟨val.toNat, h⟩ else none
  else
    none

/-- A write that notifies no queue. -/
def virtioMmioWriteReg (s : VirtioDevice B) (offset : Nat) (val : UInt32) (size : Nat) :
    VirtioDevice B :=
  if offset ≥ virtioMmioConfig then
    virtioConfigWrite s (offset - virtioMmioConfig) val size
  else if size = 4 then
    match Reg.ofOffset offset with
    | some r => writeReg s val r
    | none => s
  else
    s

/-- C `virtio_mmio_write`. -/
def virtioMmioWrite (recv : DeviceRecv B) (s : VirtioDevice B) (offset : Nat) (val : UInt32)
    (size : Nat) : Except Stop (VirtioDevice B) :=
  match notifies offset val size with
  | some q => queueNotify recv s q
  | none => return virtioMmioWriteReg s offset val size

/-- What no register access changes: the guest memory, the backend, the history of both rings, and which
queues `queue_notify` leaves alone. -/
structure Untouched (s s' : VirtioDevice B) : Prop where
  mem : s'.mem = s.mem
  dev : s'.dev = s.dev
  popped : s'.popped = s.popped
  used : s'.used = s.used
  manual : ∀ q, (s'.queue q).manualRecv = (s.queue q).manualRecv

/-- A device that is not changed is untouched. -/
lemma Untouched.refl : Untouched s s :=
  ⟨rfl, rfl, rfl, rfl, fun _ => rfl⟩

/-- A queue stays with its backend if the change keeps this. -/
lemma updQueue_manualRecv {f : QueueState → QueueState} (h : ∀ qs, (f qs).manualRecv = qs.manualRecv)
    (q' : Fin maxQueue) : ((s.updQueue q f).queue q').manualRecv = (s.queue q').manualRecv := by
  simp only [VirtioDevice.updQueue, Function.update_apply]
  split
  · rename_i e
    rw [h, e]
  · rfl

/-- A pop leaves the queues with their backends. -/
lemma advance_manualRecv (descIdx : Nat) (q' : Fin maxQueue) :
    ((advance s q descIdx).queue q').manualRecv = (s.queue q').manualRecv :=
  updQueue_manualRecv (f := fun qs => { qs with lastAvailIdx := qs.lastAvailIdx + 1 })
    (fun _ => rfl) q'

/-- A change of a queue leaves the rest untouched. -/
lemma Untouched.updQueue {f : QueueState → QueueState} (h : ∀ qs, (f qs).manualRecv = qs.manualRecv) :
    Untouched s (s.updQueue q f) :=
  ⟨rfl, rfl, rfl, rfl, updQueue_manualRecv h⟩

/-- A write to the configuration space leaves the rest untouched. -/
lemma virtioConfigWrite_untouched {offset size : Nat} {val : UInt32} :
    Untouched s (virtioConfigWrite s offset val size) := by
  simp only [virtioConfigWrite]
  split
  all_goals
    first
      | exact .refl
      | split
        · exact ⟨rfl, rfl, rfl, rfl, fun _ => rfl⟩
        · exact .refl

/-- A write to a register leaves the rest untouched. -/
lemma writeReg_untouched {val : UInt32} (r : Reg) : Untouched s (writeReg s val r) := by
  cases r with
  | queueSel =>
    simp only [writeReg]
    split
    · exact ⟨rfl, rfl, rfl, rfl, fun _ => rfl⟩
    · exact .refl
  | queueNum =>
    simp only [writeReg]
    split
    · exact .updQueue fun _ => rfl
    · exact .refl
  | status =>
    simp only [writeReg]
    split
    · exact ⟨rfl, rfl, rfl, rfl, fun _ => rfl⟩
    · exact ⟨rfl, rfl, rfl, rfl, fun _ => rfl⟩
  | queueReady | queueDescLow | queueDescHigh | queueAvailLow | queueAvailHigh | queueUsedLow
  | queueUsedHigh =>
    simp only [writeReg]
    exact .updQueue fun _ => rfl
  | _ => exact ⟨rfl, rfl, rfl, rfl, fun _ => rfl⟩

/-- A write of the guest leaves the rest untouched. -/
lemma virtioMmioWriteReg_untouched {offset size : Nat} {val : UInt32} :
    Untouched s (virtioMmioWriteReg s offset val size) := by
  simp only [virtioMmioWriteReg]
  split
  · exact virtioConfigWrite_untouched
  · split
    · split
      · exact writeReg_untouched _
      · exact .refl
    · exact .refl

end Mvvmm.Virtio
