import Mvvmm.Block.Device
import Mvvmm.Net.Device
import Mvvmm.Uart.Strings
import Mvvmm.Vm.Options
import Mvvmm.Vm.Power

/-!
# Exits of the guest

Model of the `switch` of `mvvm_run` over the reasons why `KVM_RUN` returns. Accesses to ports go to the serial port or to
`handle_power`; accesses to memory that is not there go to the device whose addresses they are in, by the upper bits of the
address. The two devices and the memory of the guest are fields of one machine, since both devices work on that memory.

The kernel is told of the devices on its command line, each with a window of 4 KB (`announcement_eq_window`).
`mmioDecode_iff` compares the windows with the decoding: it takes one address too many, and it does not ask whether there
is a device at all.
-/

namespace Mvvmm.Vm
open CMem CString Run Uart Virtio

/-- The two devices. -/
inductive Slot where
  | blk
  | net
  deriving DecidableEq, Repr

/-- C `mmio_base_addr` for a device. -/
def Slot.base : Slot → UInt64
  | .blk => virtioBlkMmioAddr
  | .net => virtioNetMmioAddr

/-- C `struct mvvm`, with the guest memory that its devices share. An absent device is a null pointer. -/
structure Mvvm where
  serial : Serial
  powerCmd : UInt8
  mem : GuestMemMap
  blk : Option Block.VirtioBlockDevice
  net : Option Net.VirtioNetDevice

/-- The device is configured. -/
def Mvvm.has (vm : Mvvm) : Slot → Bool
  | .blk => vm.blk.isSome
  | .net => vm.net.isSome

/-- C `struct kvm_run`, by `exit_reason`. The bytes of an access to a port are those at `data_offset`; of those of an
access to memory there are the four that `mvvm_run` uses. -/
inductive KvmRun where
  | io (direction : Direction) (port : UInt16) (data : List UInt8)
  | shutdown
  | mmio (physAddr : UInt64) (isWrite : Bool) (data : UInt32) (len : UInt32)
  | other (exitReason : UInt32)
  deriving DecidableEq, Repr

/-! ## The switch -/

/-- C `handle_power`: what it returns, the machine and the bytes afterwards. -/
def handlePower (vm : Mvvm) : Direction → List UInt8 → UInt8 × Mvvm × List UInt8
  | .exitIn, data => (0, { vm with powerCmd := 0 }, data.set 0 vm.powerCmd)
  | .exitOut, data => (handlePowerOut (data.headD 0), vm, data)

/-- The offset of a port of the serial port. -/
def serialOffset (port : UInt16) : Option (Fin numRegs) :=
  if h : 0x3f8 ≤ port.toNat ∧ port.toNat ≤ 0x3ff then
    some ⟨port.toNat - 0x3f8, by rw [numRegs]; omega⟩
  else
    none

/-- C `virtiodev` in `mvvm_run`, by the upper bits of the address. -/
def slotOf (physAddr : UInt64) : Option Slot :=
  if physAddr >>> 30 = 1024 then
    some .blk
  else if physAddr >>> 30 = 1025 then
    some .net
  else
    none

/-- The branch `KVM_EXIT_MMIO` of `mvvm_run` down to the call of `virtio_mmio_read` or `virtio_mmio_write`: the device
whose pointer it passes and the offset, or `none` if it breaks off before. -/
def mmioCall (physAddr : UInt64) : Option (Slot × UInt32) := do
  let d ← slotOf physAddr
  let offset := (physAddr - d.base).toUInt32
  if offset > 4096 then none else some (d, offset)

/-- The call itself, with the guest memory as it is. A null pointer is dereferenced at once, for the lock. -/
def callDevice {B : Type} (recv : DeviceRecv B) (mem : GuestMemMap) (virtiodev : Option (VirtioDevice B))
    (offset : UInt32) (isWrite : Bool) (data len : UInt32) : Except Stop (UInt32 × VirtioDevice B) :=
  match virtiodev with
  | none => .error .range
  | some s =>
    let s := { s with mem := mem }
    if isWrite then do
      let s ← virtioMmioWrite recv s offset.toNat data len.toNat
      return (data, s)
    else do
      let val ← virtioMmioRead s offset.toNat len.toNat
      return (val, s)

/-- The branch `KVM_EXIT_MMIO` of `mvvm_run`: the machine and the data afterwards. -/
def handleMmio (vm : Mvvm) (physAddr : UInt64) (isWrite : Bool) (data len : UInt32) : Except Stop (Mvvm × UInt32) :=
  match mmioCall physAddr with
  | none => return (vm, data)
  | some (.blk, offset) => do
    let (data, s) ← callDevice Block.virtioBlockRecvRequest vm.mem vm.blk offset isWrite data len
    return ({ vm with blk := some s, mem := s.mem }, data)
  | some (.net, offset) => do
    let (data, s) ← callDevice Net.virtioNetRecvRequest vm.mem vm.net offset isWrite data len
    return ({ vm with net := some s, mem := s.mem }, data)

/-- The `switch` of `mvvm_run`: the machine and the exit afterwards, and the value that `mvvm_run` returns if it leaves
its loop. -/
def handleExit (vm : Mvvm) : KvmRun → Except Stop (Mvvm × KvmRun × Option Int)
  | .io direction port data => do
    let (vm, data) :=
      match serialOffset port with
      | some offset =>
        let r := handleSerialExit vm.serial direction offset data
        ({ vm with serial := r.2 }, r.1)
      | none => (vm, data)
    if port = 0x300 then
      let (ret, vm, data) := handlePower vm direction data
      return (vm, .io direction port data, if ret ≠ 0 then some (ret.toNat : Int) else none)
    else
      return (vm, .io direction port data, none)
  | .shutdown => return (vm, .shutdown, some 1)
  | .mmio physAddr isWrite data len => do
    let (vm, data) ← handleMmio vm physAddr isWrite data len
    return (vm, .mmio physAddr isWrite data len, none)
  | .other exitReason => return (vm, .other exitReason, some 1)

/-- The loop of `mvvm_run` as steps of the machine, one for each exit that does not leave it. -/
def exitStep (vm : Mvvm) (run : KvmRun) : Except Stop Mvvm := do
  let (vm, _, ret) ← handleExit vm run
  if ret = none then return vm else .error .blocked

variable {vm vm' : Mvvm} {d : Slot} {physAddr : UInt64} {offset data len : UInt32} {isWrite : Bool} {run : KvmRun}

/-! ## Which device -/

/-- The upper bits of an address. -/
lemma shiftRight_eq_iff {k : UInt64} :
    physAddr >>> 30 = k ↔ k.toNat * 2 ^ 30 ≤ physAddr.toNat ∧ physAddr.toNat < (k.toNat + 1) * 2 ^ 30 := by
  have bits : (30 : UInt64).toNat % 64 = 30 := rfl
  rw [← UInt64.toNat_inj, UInt64.toNat_shiftRight, bits, Nat.shiftRight_eq_div_pow]
  omega

/-- Each device has the upper bits for itself. -/
lemma slotOf_iff :
    slotOf physAddr = some d ↔ d.base.toNat ≤ physAddr.toNat ∧ physAddr.toNat < d.base.toNat + 2 ^ 30 := by
  have blk : physAddr >>> 30 = 1024 ↔ 2 ^ 40 ≤ physAddr.toNat ∧ physAddr.toNat < 2 ^ 40 + 2 ^ 30 :=
    shiftRight_eq_iff (k := 1024)
  have net : physAddr >>> 30 = 1025 ↔
      2 ^ 40 + 2 ^ 30 ≤ physAddr.toNat ∧ physAddr.toNat < 2 ^ 40 + 2 ^ 30 + 2 ^ 30 :=
    shiftRight_eq_iff (k := 1025)
  have base : Slot.blk.base.toNat = 2 ^ 40 ∧ Slot.net.base.toNat = 2 ^ 40 + 2 ^ 30 := ⟨rfl, rfl⟩
  simp only [slotOf, blk, net]
  split
  · cases d <;> simp only [reduceCtorEq, Option.some.injEq, true_iff, false_iff] <;> omega
  · split
    · cases d <;> simp only [reduceCtorEq, Option.some.injEq, true_iff, false_iff] <;> omega
    · cases d <;> simp only [reduceCtorEq, false_iff] <;> omega

/-- The 32 bits of the offset are enough. -/
lemma offset_toNat (low : d.base.toNat ≤ physAddr.toNat) (high : physAddr.toNat < d.base.toNat + 2 ^ 30) :
    (physAddr - d.base).toUInt32.toNat = physAddr.toNat - d.base.toNat := by
  rw [UInt64.toNat_toUInt32, toNat_sub low]
  omega

/-- The decoding takes the window of a device and the address behind it. -/
lemma mmioCall_iff :
    mmioCall physAddr = some (d, offset) ↔ d.base.toNat ≤ physAddr.toNat ∧ physAddr.toNat ≤ d.base.toNat + 4096 ∧
      offset.toNat = physAddr.toNat - d.base.toNat := by
  have page : (4096 : UInt32).toNat = 4096 := rfl
  simp only [mmioCall, Option.bind_eq_some_iff, bind]
  constructor
  · rintro ⟨d', slot, call⟩
    obtain ⟨low, high⟩ := slotOf_iff.mp slot
    have exact := offset_toNat low high
    split at call
    · cases call
    · rename_i le
      obtain ⟨rfl, rfl⟩ := Prod.mk.inj (Option.some.inj call)
      rw [gt_iff_lt, UInt32.lt_iff_toNat_lt, exact, page] at le
      exact ⟨low, by omega, exact⟩
  · rintro ⟨low, high, eq⟩
    have exact := offset_toNat low (by omega)
    refine ⟨d, slotOf_iff.mpr ⟨low, by omega⟩, ?_⟩
    rw [if_neg (by rw [gt_iff_lt, UInt32.lt_iff_toNat_lt, exact, page]; omega)]
    rw [UInt32.toNat_inj.mp (exact.trans eq.symm)]

/-- The fragment of the command line for a device. -/
def Slot.cmdline : Slot → List UInt8
  | .blk => virtioBlkCmdline
  | .net => virtioNetCmdline

/-- What a kernel reads in a fragment `virtio_mmio.device=<size>@<base>:<irq>`. -/
def announcement (cmdline : List UInt8) : Set Nat :=
  let device := (cmdline.dropWhile (· ≠ 0x3d)).tail
  let size := (parseMemorySize (device.takeWhile (· ≠ 0x40)) 0).2
  let base := (strtoull (device.dropWhile (· ≠ 0x40)).tail).val
  span base size

/-- The windows are those on the command line. -/
lemma announcement_eq_window : announcement d.cmdline = window d.base := by
  cases d with
  | blk =>
    have size : (parseMemorySize (ofChars "4K".toList) 0).2 = 4096 := by decide +kernel
    have base : (strtoull (ofChars "0x10000000000:10".toList)).val = virtioBlkMmioAddr := by decide +kernel
    exact congrArg₂ span base size
  | net =>
    have size : (parseMemorySize (ofChars "4K".toList) 0).2 = 4096 := by decide +kernel
    have base : (strtoull (ofChars "0x10040000000:11".toList)).val = virtioNetMmioAddr := by decide +kernel
    exact congrArg₂ span base size

/-- `mvvm_run` accesses a device if and only if it is configured and the address is in its window, and then at the offset
in the window. -/
def DecodesWindow (vm : Mvvm) (physAddr : UInt64) : Prop :=
  ∀ d offset, mmioCall physAddr = some (d, offset) ↔
    vm.has d = true ∧ physAddr.toNat ∈ window d.base ∧ offset.toNat = physAddr.toNat - d.base.toNat

/-- For every configuration and every address: the access is decoded as announced if and only if the address is not the
one right behind a window, nor in the window of a device that is not there. -/
theorem mmioDecode_iff (vm : Mvvm) (physAddr : UInt64) :
    DecodesWindow vm physAddr ↔
      ∀ d : Slot, physAddr.toNat ≠ d.base.toNat + 4096 ∧ (physAddr.toNat ∈ window d.base → vm.has d = true) := by
  have page : (4096 : UInt64).toNat = 4096 := rfl
  simp only [DecodesWindow, mmioCall_iff, window, span, Set.mem_Ico, page]
  constructor
  · intro h d
    -- the access that the decoding finds for an address in the window or right behind it
    have found : d.base.toNat ≤ physAddr.toNat → physAddr.toNat ≤ d.base.toNat + 4096 →
        vm.has d = true ∧ physAddr.toNat < d.base.toNat + 4096 := by
      intro low high
      have eq : (UInt32.ofNat (physAddr.toNat - d.base.toNat)).toNat = physAddr.toNat - d.base.toNat :=
        UInt32.toNat_ofNat_of_lt' (by rw [UInt32.size]; omega)
      obtain ⟨has, ⟨-, lt⟩, -⟩ := (h d (UInt32.ofNat (physAddr.toNat - d.base.toNat))).mp ⟨low, high, eq⟩
      exact ⟨has, lt⟩
    constructor
    · intro behind
      have := (found (by omega) (by omega)).2
      omega
    · rintro ⟨low, high⟩
      exact (found low (by omega)).1
  · intro h d offset
    obtain ⟨behind, there⟩ := h d
    constructor
    · rintro ⟨low, high, eq⟩
      exact ⟨there ⟨low, by omega⟩, ⟨low, by omega⟩, eq⟩
    · rintro ⟨-, ⟨low, high⟩, eq⟩
      exact ⟨low, by omega, eq⟩

/-- A machine with a disk and no network, at start-up. -/
def diskOnly : Mvvm where
  serial := serialInit
  powerCmd := 0
  mem := .onePage fun _ => 0
  blk := some (Block.virtioBlockInit (.onePage fun _ => 0) (.zero 512))
  net := none

/-- Without a network, an access to its window dereferences a null pointer; with a disk, the address behind its window is
still taken for the device. -/
theorem mmioDecode_beyond_windows :
    diskOnly.has .net = false ∧ mmioCall virtioNetMmioAddr = some (.net, 0) ∧
      handleMmio diskOnly virtioNetMmioAddr false 0 4 = .error .range ∧ ¬ DecodesWindow diskOnly virtioNetMmioAddr ∧
      diskOnly.has .blk = true ∧ mmioCall (virtioBlkMmioAddr + 4096) = some (.blk, 4096) ∧
      ¬ DecodesWindow diskOnly (virtioBlkMmioAddr + 4096) := by
  have net : mmioCall virtioNetMmioAddr = some (.net, 0) := by decide
  have blk : mmioCall (virtioBlkMmioAddr + 4096) = some (.blk, 4096) := by decide
  refine ⟨rfl, net, ?_, ?_, rfl, blk, ?_⟩
  · rw [handleMmio, net]
    rfl
  · intro h
    exact absurd ((h .net 0).mp net).1 (by decide)
  · intro h
    obtain ⟨-, inside, -⟩ := (h .blk 4096).mp blk
    exact absurd inside.2 (by decide)

/-! ## Runs of exits -/

/-- An access to the serial port. -/
def KvmRun.serial? : KvmRun → Option (Direction × Fin numRegs × List UInt8)
  | .io direction port data => (serialOffset port).map fun offset => (direction, offset, data)
  | _ => none

/-- The serial port after some accesses, the latest one first. -/
def servedSerial (s : Serial) (l : List (Direction × Fin numRegs × List UInt8)) : Serial :=
  l.foldr (fun a s => (handleSerialExit s a.1 a.2.1 a.2.2).2) s

/-- A call returns only if there is a device. -/
lemma callDevice_isSome {B : Type} {recv : DeviceRecv B} {virtiodev : Option (VirtioDevice B)} {mem : GuestMemMap}
    {r : UInt32 × VirtioDevice B} (h : callDevice recv mem virtiodev offset isWrite data len = .ok r) :
    virtiodev.isSome = true := by
  cases virtiodev with
  | none => cases h
  | some _ => rfl

/-- An access to a device leaves the serial device alone. -/
lemma handleMmio_keeps {data' : UInt32} (h : handleMmio vm physAddr isWrite data len = .ok (vm', data')) :
    vm'.serial = vm.serial ∧ ∀ d, vm'.has d = vm.has d := by
  simp only [handleMmio] at h
  split at h
  · obtain ⟨rfl, -⟩ := Prod.mk.inj (Except.ok.inj h)
    exact ⟨rfl, fun _ => rfl⟩
  · obtain ⟨⟨data, s⟩, call, h⟩ := bind_eq_ok.mp h
    obtain ⟨rfl, -⟩ := Prod.mk.inj (Except.ok.inj h)
    refine ⟨rfl, fun d => ?_⟩
    cases d with
    | blk => exact (callDevice_isSome call).symm
    | net => rfl
  · obtain ⟨⟨data, s⟩, call, h⟩ := bind_eq_ok.mp h
    obtain ⟨rfl, -⟩ := Prod.mk.inj (Except.ok.inj h)
    refine ⟨rfl, fun d => ?_⟩
    cases d with
    | blk => rfl
    | net => exact (callDevice_isSome call).symm

/-- What an exit does to the serial port and to the configuration. -/
lemma handleExit_routes {run' : KvmRun} {ret : Option Int} (h : handleExit vm run = .ok (vm', run', ret)) :
    vm'.serial = servedSerial vm.serial run.serial?.toList ∧ ∀ d, vm'.has d = vm.has d := by
  cases run with
  | io direction port data =>
    -- `handle_power` comes after the serial port and leaves it alone
    have power : ∀ vm : Mvvm, ∀ data, (handlePower vm direction data).2.1.serial = vm.serial ∧
        ∀ d, (handlePower vm direction data).2.1.has d = vm.has d := by
      intro vm data
      cases direction <;> exact ⟨rfl, fun d => by cases d <;> rfl⟩
    simp only [handleExit] at h
    cases e : serialOffset port with
    | none =>
      have none : (KvmRun.io direction port data).serial? = none := by rw [KvmRun.serial?, e]; rfl
      rw [none]
      simp only [e] at h
      split at h
      · obtain ⟨rfl, -⟩ := Prod.mk.inj (Except.ok.inj h)
        exact power vm data
      · obtain ⟨rfl, -⟩ := Prod.mk.inj (Except.ok.inj h)
        exact ⟨rfl, fun _ => rfl⟩
    | some offset =>
      have some : (KvmRun.io direction port data).serial? = some (direction, offset, data) := by
        rw [KvmRun.serial?, e]; rfl
      rw [some]
      simp only [e] at h
      split at h
      · obtain ⟨rfl, -⟩ := Prod.mk.inj (Except.ok.inj h)
        exact power _ _
      · obtain ⟨rfl, -⟩ := Prod.mk.inj (Except.ok.inj h)
        exact ⟨rfl, fun d => by cases d <;> rfl⟩
  | shutdown =>
    obtain ⟨rfl, -⟩ := Prod.mk.inj (Except.ok.inj h)
    exact ⟨rfl, fun _ => rfl⟩
  | mmio physAddr isWrite data len =>
    obtain ⟨⟨vm₁, data'⟩, call, h⟩ := bind_eq_ok.mp h
    obtain ⟨rfl, -⟩ := Prod.mk.inj (Except.ok.inj h)
    exact handleMmio_keeps call
  | other exitReason =>
    obtain ⟨rfl, -⟩ := Prod.mk.inj (Except.ok.inj h)
    exact ⟨rfl, fun _ => rfl⟩

/-- An exit is served by the serial device if it is for it, and does not change which devices there are. -/
lemma exitStep_routes (h : exitStep vm run = .ok vm') :
    vm'.serial = servedSerial vm.serial run.serial?.toList ∧ ∀ d, vm'.has d = vm.has d := by
  obtain ⟨⟨vm₁, run', ret⟩, e, h⟩ := bind_eq_ok.mp h
  simp only at h
  split at h
  · obtain rfl := Except.ok.inj h
    exact handleExit_routes e
  · cases h

/-- Over whole runs, the serial port sees the accesses to its ports, all of them and in order, and nothing else; and the
configuration stays as it is. -/
lemma exits_route {vm₀ : Mvvm} {l : List (Direction × Fin numRegs × List UInt8)}
    (r : Reach (noted exitStep KvmRun.serial?) always (vm₀, []) (vm, l)) :
    vm.serial = servedSerial vm₀.serial l ∧ ∀ d, vm.has d = vm₀.has d := by
  refine Reach.invariant (I := fun t => t.1.serial = servedSerial vm₀.serial t.2 ∧ ∀ d, t.1.has d = vm₀.has d)
    ⟨rfl, fun _ => rfl⟩ ?_ r
  rintro ⟨vm, l⟩ run ⟨vm', l'⟩ - ⟨serial, has⟩ - e
  obtain ⟨vm'', step, eq⟩ := noted_eq_ok e
  obtain ⟨rfl, rfl⟩ := Prod.mk.inj eq
  obtain ⟨serial', has'⟩ := exitStep_routes step
  refine ⟨?_, fun d => (has' d).trans (has d)⟩
  rw [serial', serial, servedSerial, servedSerial, servedSerial, List.foldr_append]

end Mvvmm.Vm
