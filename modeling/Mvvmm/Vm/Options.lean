import Mvvmm.Lib.Strtoull
import Mvvmm.Vm.Memory

/-!
# The memory size on the command line

Model of `parse_memory_size` of `main.c`, and of the way a size takes from the option `-m` to the slots and
the table of the memory map (`startUp`). The two virtio devices are at fixed addresses behind 1 TB
(`config.h`). No one compares them with the size: `windowsClear_iff` says for which sizes the RAM of the
guest stays clear of the devices.
-/

namespace Mvvmm.Vm
open CString

/-- The multiplier of a suffix, in `parse_memory_size`. -/
def suffixMultiplier (c : UInt8) : Option UInt64 :=
  if c = 0x6b ∨ c = 0x4b then
    some 1024
  else if c = 0x6d ∨ c = 0x4d then
    some (1024 * 1024)
  else if c = 0x67 ∨ c = 0x47 then
    some (1024 * 1024 * 1024)
  else
    none

/-- C `UINT64_MAX`. -/
def uint64Max : UInt64 := 0xffffffffffffffff

/-- C `parse_memory_size`: what it returns and `*result` afterwards. -/
def parseMemorySize (str : List UInt8) (result : UInt64) : Int × UInt64 :=
  let r := strtoull str
  if r.erange then
    (-1, result)
  else
    match r.endptr with
    | none => (-1, result)
    | some [] => (0, r.val)
    | some (c :: rest) =>
      match suffixMultiplier c with
      | none => (-1, result)
      | some multiplier =>
        if rest ≠ [] then
          (-1, result)
        else if r.val > uint64Max / multiplier then
          (-1, result)
        else
          (0, r.val * multiplier)

/-- The way of the option `-m` through `parse_opts` and `mvvm_init`, with the guest memory mapped at `hostMem`:
the memory size and the slots, if both succeed. -/
def startUp (str : List UInt8) (hostMem : UInt64) : Option (UInt64 × List MemoryRegion) :=
  let (ret, memSize) := parseMemorySize str 0
  if ret ≠ 0 then
    none
  else
    (registerMemory hostMem memSize).map fun slots => (memSize, slots)

/-- C `VIRTIO_BLK_MMIO_ADDR`. -/
def virtioBlkMmioAddr : UInt64 := 1024 * 1024 * 1024 * 1024

/-- C `VIRTIO_NET_MMIO_ADDR`. -/
def virtioNetMmioAddr : UInt64 := 1025 * 1024 * 1024 * 1024

/-- C `VIRTIO_BLK_CMDLINE`. -/
def virtioBlkCmdline : List UInt8 := ofChars " virtio_mmio.device=4K@0x10000000000:10".toList

/-- C `VIRTIO_NET_CMDLINE`. -/
def virtioNetCmdline : List UInt8 := ofChars " virtio_mmio.device=4K@0x10040000000:11".toList

/-- The 4 KB window of a device. -/
def window (base : UInt64) : Set Nat :=
  span base 4096

/-- Neither a slot nor an entry of the table reaches into the window of a device. -/
def WindowsClear (memSize : UInt64) (slots : List MemoryRegion) : Prop :=
  ∀ base ∈ [virtioBlkMmioAddr, virtioNetMmioAddr],
    (∀ r ∈ slots, Disjoint r.guestSpan (window base)) ∧
      ∀ e ∈ setupE820Map memSize, e.type = e820TypeRam → Disjoint e.addrSpan (window base)

variable {str : List UInt8} {hostMem memSize : UInt64} {slots : List MemoryRegion}

/-- The slots and the RAM of the table as sets. -/
lemma windowsClear_iff_sets :
    WindowsClear memSize slots ↔ ∀ base ∈ [virtioBlkMmioAddr, virtioNetMmioAddr], ∀ a ∈ window base,
      a ∉ backed slots ∧ a ∉ ramBytes (setupE820Map memSize) := by
  simp only [WindowsClear, Set.disjoint_left, backed, ramBytes, Set.mem_ofPred_eq, not_exists, not_and]
  refine forall₂_congr fun base _ => ?_
  constructor
  · intro h a ha
    exact ⟨fun r hr hin => h.1 r hr hin ha, fun e he ram hin => h.2 e he ram hin ha⟩
  · intro h
    exact ⟨fun r hr a hin ha => (h a ha).1 r hr hin, fun e he ram a hin ha => (h a ha).2 e he ram hin⟩

/-- Between the reserved pages and the end of the memory a slot backs everything. -/
lemma Registered.mem_backed (h : Registered hostMem memSize slots) {a : Nat}
    (above : (reservedAddr + reservedSize).toNat ≤ a) (lt : a < memSize.toNat) : a ∈ backed slots := by
  have le : reservedAddr.toNat ≤ (reservedAddr + reservedSize).toNat := by decide
  cases h with
  | below size pos => omega
  | within _ size => omega
  | behind size =>
    have sub := toNat_sub size.le
    simp only [mem_backed_cons, sub]
    omega

/-- For every memory size that the command line and KVM accept: the RAM of the guest stays clear of the devices
if and only if the size is from 1 MB to 1 TB. -/
theorem windowsClear_iff (h : startUp str hostMem = some (memSize, slots)) :
    WindowsClear memSize slots ↔ 0x100000 ≤ memSize.toNat ∧ memSize.toNat ≤ virtioBlkMmioAddr.toNat := by
  have blk : virtioBlkMmioAddr.toNat = 2 ^ 40 := rfl
  have net : virtioNetMmioAddr.toNat = 2 ^ 40 + 2 ^ 30 := rfl
  have page : (4096 : UInt64).toNat = 4096 := rfl
  have reg : Registered hostMem memSize slots := by
    simp only [startUp] at h
    split at h
    · cases h
    · obtain ⟨slots', e, eq⟩ := Option.map_eq_some_iff.mp h
      obtain ⟨rfl, rfl⟩ := Prod.mk.inj eq
      exact registerMemory_registered e
  have base : 2 ^ 40 ∈ window virtioBlkMmioAddr := by
    simp only [window, span, Set.mem_Ico, blk, page]
    omega
  rw [windowsClear_iff_sets]
  constructor
  · intro clear
    obtain ⟨noSlot, noRam⟩ := clear virtioBlkMmioAddr (by simp) _ base
    constructor
    · -- below 1 MB the wrapped entry of the table covers the window, behind 1 TB a slot does
      by_contra small
      exact noRam (mem_ramBytes_wrapped (by omega) (by omega) (by omega))
    · by_contra large
      exact noSlot (reg.mem_backed (by rw [reservedEnd_toNat]; omega) (by omega))
  · rintro ⟨h1, h2⟩ base hb a ha
    have le : memSize.toNat ≤ a := by
      simp only [List.mem_cons, List.not_mem_nil, or_false] at hb
      simp only [window, span, Set.mem_Ico] at ha
      rcases hb with rfl | rfl
      · omega
      · omega
    have noSlot : a ∉ backed slots := fun hin => absurd (reg.backed_lt hin) (by omega)
    refine ⟨noSlot, ?_⟩
    rw [mem_ramBytes_iff reg h1]
    exact fun hin => noSlot hin.1

/-- With `-m 4g` the RAM stays clear of the devices. -/
theorem windowsClear_four_gb :
    startUp (ofChars ['4', 'g']) 0x7f0000000000 =
      some (0x100000000, [⟨0, 0, 0xFFFBD000, 0x7f0000000000⟩,
        ⟨1, 0xFFFC1000, 0x3F000, 0x7f00FFFC1000⟩]) ∧
      WindowsClear 0x100000000 [⟨0, 0, 0xFFFBD000, 0x7f0000000000⟩,
        ⟨1, 0xFFFC1000, 0x3F000, 0x7f00FFFC1000⟩] := by
  have run : startUp (ofChars ['4', 'g']) 0x7f0000000000 =
      some (0x100000000, [⟨0, 0, 0xFFFBD000, 0x7f0000000000⟩,
        ⟨1, 0xFFFC1000, 0x3F000, 0x7f00FFFC1000⟩]) := by
    decide +kernel
  exact ⟨run, (windowsClear_iff run).mpr (by decide)⟩

/-- With `-m 2048g` the second slot covers the block device, and so does the table; with `-m 512k` the wrapped
entry of the table does. -/
theorem ram_covers_device :
    (∃ slots, startUp (ofChars ['2', '0', '4', '8', 'g']) 0x7f0000000000 = some (0x20000000000, slots) ∧
      virtioBlkMmioAddr.toNat ∈ backed slots ∧ ¬ WindowsClear 0x20000000000 slots) ∧
    ∃ slots, startUp (ofChars ['5', '1', '2', 'k']) 0x7f0000000000 = some (0x80000, slots) ∧
      ¬ WindowsClear 0x80000 slots := by
  have base : virtioBlkMmioAddr.toNat ∈ window virtioBlkMmioAddr := by
    simp [window, span]
  constructor
  · refine ⟨[⟨0, 0, 0xFFFBD000, 0x7f0000000000⟩, ⟨1, 0xFFFC1000, 0x1FF0003F000, 0x7f00FFFC1000⟩],
      by decide +kernel, ?_⟩
    have covered : virtioBlkMmioAddr.toNat ∈
        backed [⟨0, 0, 0xFFFBD000, 0x7f0000000000⟩, ⟨1, 0xFFFC1000, 0x1FF0003F000, 0x7f00FFFC1000⟩] := by
      rw [mem_backed_cons, mem_backed_cons]
      exact .inr (.inl (by decide))
    refine ⟨covered, ?_⟩
    intro clear
    exact (windowsClear_iff_sets.mp clear _ (by simp) _ base).1 covered
  · refine ⟨[⟨0, 0, 0x80000, 0x7f0000000000⟩], by decide +kernel, ?_⟩
    intro clear
    exact (windowsClear_iff_sets.mp clear _ (by simp) _ base).2
      (mem_ramBytes_wrapped (by decide) (by decide) (by decide))

end Mvvmm.Vm
