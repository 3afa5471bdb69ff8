import Mathlib.Data.Set.Lattice
import Mathlib.Order.CompletePartialOrder
import Mathlib.Order.Interval.Set.Basic
import Mathlib.Tactic.Ring

/-!
# The memory map of the guest

Model of the two places of `mvvm.c` that lay out the memory of the guest. `registerMemory` is the part of
`mvvm_init` that registers it with KVM, in one or two slots around the reserved pages below 4 GB;
`setupE820Map` (C `setup_e820_map`) describes it to the kernel. Both compute the layout from the memory size
on their own, in 64-bit arithmetic. Of KVM it is assumed that it takes a slot if and only if it is not
empty, page-aligned and apart from the slots before it.

`mapAgrees_iff` says for which sizes the two agree: the table takes it for granted that there is memory up to
1 MB, and below that its second entry wraps around.
-/

namespace Mvvmm.Vm

/-- C `PAGE_SIZE`. -/
def pageSize : UInt64 := 4096

/-- C `TSS_PAGES`. -/
def tssPages : UInt64 := 3

/-- C `IDENTITY_MAP_PAGES`. -/
def identityMapPages : UInt64 := 1

/-- C `RESERVED_PAGES`. -/
def reservedPages : UInt64 := tssPages + identityMapPages

/-- C `RESERVED_ADDR`. -/
def reservedAddr : UInt64 := 0xFFFBD000

/-- C `RESERVED_SIZE`. -/
def reservedSize : UInt64 := reservedPages * pageSize

/-- The bytes of `size` bytes from `addr` on, as numbers, so that nothing wraps around. -/
def span (addr size : UInt64) : Set Nat :=
  Set.Ico addr.toNat (addr.toNat + size.toNat)

/-! ## Slots -/

/-- C `struct kvm_userspace_memory_region`, whose `flags` are always 0. -/
structure MemoryRegion where
  slot : UInt32
  guestPhysAddr : UInt64
  memorySize : UInt64
  userspaceAddr : UInt64
  deriving DecidableEq, Repr

namespace MemoryRegion

/-- The guest addresses of a slot. -/
def guestSpan (r : MemoryRegion) : Set Nat :=
  span r.guestPhysAddr r.memorySize

/-- The host address that a slot maps a guest address to. -/
def hostAddr (r : MemoryRegion) (a : UInt64) : UInt64 :=
  r.userspaceAddr + (a - r.guestPhysAddr)

/-- Two slots have no guest address in common. -/
def Apart (r r' : MemoryRegion) : Prop :=
  r.guestPhysAddr.toNat + r.memorySize.toNat ≤ r'.guestPhysAddr.toNat ∨
    r'.guestPhysAddr.toNat + r'.memorySize.toNat ≤ r.guestPhysAddr.toNat

instance (r r' : MemoryRegion) : Decidable (r.Apart r') :=
  inferInstanceAs (Decidable (_ ∨ _))

end MemoryRegion

/-- KVM takes a slot that is not empty, page-aligned and apart from the others. -/
@[mk_iff]
structure KvmAccepts (slots : List MemoryRegion) (r : MemoryRegion) : Prop where
  size : r.memorySize ≠ 0
  pages : r.memorySize % pageSize = 0
  guest : r.guestPhysAddr % pageSize = 0
  host : r.userspaceAddr % pageSize = 0
  apart : ∀ r' ∈ slots, r'.Apart r

instance (slots : List MemoryRegion) (r : MemoryRegion) : Decidable (KvmAccepts slots r) :=
  decidable_of_iff' _ (kvmAccepts_iff slots r)

/-- The `ioctl` `KVM_SET_USER_MEMORY_REGION`; `none` if it fails. -/
def kvmSetUserMemoryRegion (slots : List MemoryRegion) (r : MemoryRegion) : Option (List MemoryRegion) :=
  if KvmAccepts slots r then some (slots ++ [r]) else none

/-- The part of `mvvm_init` that registers the guest memory with KVM; `none` if it returns -1. -/
def registerMemory (hostMem memSize : UInt64) : Option (List MemoryRegion) := do
  if memSize ≤ reservedAddr then
    kvmSetUserMemoryRegion [] ⟨0, 0, memSize, hostMem⟩
  else
    let slots ← kvmSetUserMemoryRegion [] ⟨0, 0, reservedAddr, hostMem⟩
    let region1Start := reservedAddr + reservedSize
    if memSize > region1Start then
      kvmSetUserMemoryRegion slots ⟨1, region1Start, memSize - region1Start, hostMem + region1Start⟩
    else
      return slots

/-- The bytes that are backed by some slot. -/
def backed (slots : List MemoryRegion) : Set Nat :=
  {a | ∃ r ∈ slots, a ∈ r.guestSpan}

/-! ## The table for the kernel -/

/-- C `struct boot_e820_entry`. -/
structure E820Entry where
  addr : UInt64
  size : UInt64
  type : UInt32
  deriving DecidableEq, Repr

/-- The type of an entry that describes RAM. -/
def e820TypeRam : UInt32 := 1

/-- The addresses of an entry. -/
def E820Entry.addrSpan (e : E820Entry) : Set Nat :=
  span e.addr e.size

/-- C `setup_e820_map`: the entries of `e820_table` that `e820_entries` counts. -/
def setupE820Map (memSize : UInt64) : List E820Entry :=
  let low : E820Entry := ⟨0, 0xA0000, e820TypeRam⟩
  if memSize ≤ reservedAddr then
    [low, ⟨0x100000, memSize - 0x100000, e820TypeRam⟩]
  else if memSize > reservedAddr + reservedSize then
    [low, ⟨0x100000, reservedAddr - 0x100000, e820TypeRam⟩,
      ⟨reservedAddr + reservedSize, memSize - (reservedAddr + reservedSize), e820TypeRam⟩]
  else
    [low, ⟨0x100000, reservedAddr - 0x100000, e820TypeRam⟩]

/-- The bytes that a table describes as RAM. -/
def ramBytes (table : List E820Entry) : Set Nat :=
  {a | ∃ e ∈ table, e.type = e820TypeRam ∧ a ∈ e.addrSpan}

/-! ## Agreement -/

/-- The slots and the table describe one and the same memory. -/
structure MapAgrees (hostMem memSize : UInt64) (slots : List MemoryRegion) : Prop where
  disjoint : (setupE820Map memSize).Pairwise fun e e' => Disjoint e.addrSpan e'.addrSpan
  ram : ramBytes (setupE820Map memSize) = backed slots \ Set.Ico 0xA0000 0x100000
  reserved : Disjoint (ramBytes (setupE820Map memSize)) (span reservedAddr reservedSize)
  mapped : ∀ r ∈ slots, ∀ a : UInt64, a.toNat ∈ r.guestSpan → r.hostAddr a = hostMem + a

variable {hostMem memSize : UInt64} {slots : List MemoryRegion}

/-- The slots that a memory size can lead to: it ends below the reserved pages, in them, or behind them. -/
inductive Registered (hostMem memSize : UInt64) : List MemoryRegion → Prop where
  | below (size : memSize.toNat ≤ reservedAddr.toNat) (pos : 0 < memSize.toNat) :
    Registered hostMem memSize [⟨0, 0, memSize, hostMem⟩]
  | within (above : reservedAddr.toNat < memSize.toNat)
    (size : memSize.toNat ≤ (reservedAddr + reservedSize).toNat) :
    Registered hostMem memSize [⟨0, 0, reservedAddr, hostMem⟩]
  | behind (size : (reservedAddr + reservedSize).toNat < memSize.toNat) :
    Registered hostMem memSize
      [⟨0, 0, reservedAddr, hostMem⟩,
        ⟨1, reservedAddr + reservedSize, memSize - (reservedAddr + reservedSize),
          hostMem + (reservedAddr + reservedSize)⟩]

/-- A region that KVM takes is put behind the others. -/
lemma kvmSetUserMemoryRegion_some {r : MemoryRegion} {slots' : List MemoryRegion}
    (h : kvmSetUserMemoryRegion slots r = some slots') : KvmAccepts slots r ∧ slots' = slots ++ [r] := by
  simp only [kvmSetUserMemoryRegion] at h
  split at h
  · rename_i accepts
    exact ⟨accepts, (Option.some.inj h).symm⟩
  · cases h

/-- Inversion of `registerMemory`. -/
lemma registerMemory_registered (h : registerMemory hostMem memSize = some slots) :
    Registered hostMem memSize slots := by
  simp only [registerMemory] at h
  split at h
  · rename_i below
    obtain ⟨accepts, rfl⟩ := kvmSetUserMemoryRegion_some h
    have pos : memSize.toNat ≠ 0 := fun e => accepts.size (UInt64.toNat_inj.mp e)
    exact .below (UInt64.le_iff_toNat_le.mp below) (by omega)
  · rename_i above
    rw [UInt64.le_iff_toNat_le] at above
    obtain ⟨first, e, h⟩ := Option.bind_eq_some_iff.mp h
    obtain ⟨-, rfl⟩ := kvmSetUserMemoryRegion_some e
    split at h
    · rename_i behind
      obtain ⟨-, rfl⟩ := kvmSetUserMemoryRegion_some h
      exact .behind (UInt64.lt_iff_toNat_lt.mp behind)
    · rename_i within
      obtain rfl := Option.some.inj h
      exact .within (by omega) (not_lt.mp fun lt => within (UInt64.lt_iff_toNat_lt.mpr lt))

/-- A difference that does not wrap around. -/
lemma toNat_sub {a b : UInt64} (h : b.toNat ≤ a.toNat) : (a - b).toNat = a.toNat - b.toNat :=
  UInt64.toNat_sub_of_le a b (UInt64.le_iff_toNat_le.mpr h)

/-- A slot whose host address is that of its guest address maps all of it so. -/
lemma hostAddr_eq {slot : UInt32} {base size a : UInt64} :
    MemoryRegion.hostAddr ⟨slot, base, size, hostMem + base⟩ a = hostMem + a := by
  simp only [MemoryRegion.hostAddr]
  rw [UInt64.add_assoc, UInt64.add_comm base, UInt64.sub_add_cancel]

/-- Where the reserved range begins. -/
@[simp]
lemma reservedAddr_toNat : reservedAddr.toNat = 0xFFFBD000 := rfl

/-- How long the reserved range is. -/
@[simp]
lemma reservedSize_toNat : reservedSize.toNat = 0x4000 := rfl

/-- Where the reserved range ends. -/
@[simp]
lemma reservedEnd_toNat : (reservedAddr + reservedSize).toNat = 0xFFFC1000 := rfl

/-- The size of the memory between the first megabyte and the reserved range. -/
@[simp]
lemma highSize_toNat : (reservedAddr - 0x100000).toNat = 0xFFEBD000 := rfl

/-- The table for each of the three cases. -/
lemma setupE820Map_below (h : memSize.toNat ≤ reservedAddr.toNat) :
    setupE820Map memSize =
      [⟨0, 0xA0000, e820TypeRam⟩, ⟨0x100000, memSize - 0x100000, e820TypeRam⟩] := by
  simp only [setupE820Map, if_pos (UInt64.le_iff_toNat_le.mpr h)]

/-- The memory map if the memory ends in the reserved range. -/
lemma setupE820Map_within (above : reservedAddr.toNat < memSize.toNat)
    (h : memSize.toNat ≤ (reservedAddr + reservedSize).toNat) :
    setupE820Map memSize =
      [⟨0, 0xA0000, e820TypeRam⟩, ⟨0x100000, reservedAddr - 0x100000, e820TypeRam⟩] := by
  have h1 : ¬ memSize ≤ reservedAddr := by
    rw [UInt64.le_iff_toNat_le]
    omega
  have h2 : ¬ memSize > reservedAddr + reservedSize := by
    rw [gt_iff_lt, UInt64.lt_iff_toNat_lt]
    omega
  simp only [setupE820Map, if_neg h1, if_neg h2]

/-- The memory map if the memory ends behind the reserved range. -/
lemma setupE820Map_behind (h : (reservedAddr + reservedSize).toNat < memSize.toNat) :
    setupE820Map memSize =
      [⟨0, 0xA0000, e820TypeRam⟩, ⟨0x100000, reservedAddr - 0x100000, e820TypeRam⟩,
        ⟨reservedAddr + reservedSize, memSize - (reservedAddr + reservedSize), e820TypeRam⟩] := by
  have le : reservedAddr.toNat ≤ (reservedAddr + reservedSize).toNat := by decide
  have h1 : ¬ memSize ≤ reservedAddr := by
    rw [UInt64.le_iff_toNat_le]
    omega
  have h2 : memSize > reservedAddr + reservedSize := UInt64.lt_iff_toNat_lt.mpr h
  simp only [setupE820Map, if_neg h1, if_pos h2]

/-- The RAM of a table, by membership. -/
lemma mem_ramBytes_cons {e : E820Entry} {table : List E820Entry} {a : Nat} (ram : e.type = e820TypeRam) :
    a ∈ ramBytes (e :: table) ↔
      (e.addr.toNat ≤ a ∧ a < e.addr.toNat + e.size.toNat) ∨ a ∈ ramBytes table := by
  simp [ramBytes, ram, E820Entry.addrSpan, span]

/-- No entries say that there is no memory. -/
lemma not_mem_ramBytes_nil {a : Nat} : a ∉ ramBytes [] := by
  simp [ramBytes]

/-- The memory of the first region and of the others. -/
lemma mem_backed_cons {r : MemoryRegion} {a : Nat} :
    a ∈ backed (r :: slots) ↔
      (r.guestPhysAddr.toNat ≤ a ∧ a < r.guestPhysAddr.toNat + r.memorySize.toNat) ∨ a ∈ backed slots := by
  simp [backed, MemoryRegion.guestSpan, span]

/-- No regions have no memory. -/
lemma not_mem_backed_nil {a : Nat} : a ∉ backed [] := by
  simp [backed]

/-- Ranges one behind the other do not meet. -/
lemma disjoint_span {a n b k : UInt64} (h : a.toNat + n.toNat ≤ b.toNat ∨ b.toNat + k.toNat ≤ a.toNat) :
    Disjoint (span a n) (span b k) := by
  rw [Set.disjoint_left]
  intro i hi hi'
  simp only [span, Set.mem_Ico] at hi hi'
  omega

/-- With memory up to 1 MB, the table and the slots agree byte by byte. -/
lemma mem_ramBytes_iff (h : Registered hostMem memSize slots) (size : 0x100000 ≤ memSize.toNat) (a : Nat) :
    a ∈ ramBytes (setupE820Map memSize) ↔ a ∈ backed slots \ Set.Ico 0xA0000 0x100000 := by
  have one : (0x100000 : UInt64).toNat = 0x100000 := rfl
  have low : (0xA0000 : UInt64).toNat = 0xA0000 := rfl
  have zero : (0 : UInt64).toNat = 0 := rfl
  simp only [Set.mem_sdiff, Set.mem_Ico]
  cases h with
  | below le pos =>
    have sub := toNat_sub (show (0x100000 : UInt64).toNat ≤ memSize.toNat from size)
    rw [setupE820Map_below le, mem_ramBytes_cons rfl, mem_ramBytes_cons rfl, mem_backed_cons]
    simp only [not_mem_ramBytes_nil, not_mem_backed_nil, or_false, sub, one, low, zero]
    omega
  | within above le =>
    rw [setupE820Map_within above le, mem_ramBytes_cons rfl, mem_ramBytes_cons rfl, mem_backed_cons]
    simp only [not_mem_ramBytes_nil, not_mem_backed_nil, or_false, highSize_toNat, reservedAddr_toNat, one,
      low, zero]
    omega
  | behind lt =>
    have sub := toNat_sub lt.le
    rw [setupE820Map_behind lt, mem_ramBytes_cons rfl, mem_ramBytes_cons rfl, mem_ramBytes_cons rfl,
      mem_backed_cons, mem_backed_cons]
    simp only [not_mem_ramBytes_nil, not_mem_backed_nil, or_false, sub, highSize_toNat, reservedAddr_toNat,
      reservedEnd_toNat, one, low, zero]
    omega

/-- No slot covers a reserved page. -/
lemma Registered.not_reserved (h : Registered hostMem memSize slots) {a : Nat} (ha : a ∈ backed slots) :
    a ∉ span reservedAddr reservedSize := by
  have zero : (0 : UInt64).toNat = 0 := rfl
  simp only [span, Set.mem_Ico, reservedAddr_toNat, reservedSize_toNat]
  cases h with
  | below le pos =>
    simp only [mem_backed_cons, not_mem_backed_nil, or_false, zero] at ha
    simp only [reservedAddr_toNat] at le
    omega
  | within above le =>
    simp only [mem_backed_cons, not_mem_backed_nil, or_false, zero, reservedAddr_toNat] at ha
    omega
  | behind lt =>
    simp only [mem_backed_cons, not_mem_backed_nil, or_false, zero, reservedAddr_toNat,
      reservedEnd_toNat] at ha
    omega

/-- A guest address is at the same offset in the memory of the host, in every region. -/
lemma Registered.mapped (h : Registered hostMem memSize slots) :
    ∀ r ∈ slots, ∀ a : UInt64, r.hostAddr a = hostMem + a := by
  have first : ∀ size a : UInt64, MemoryRegion.hostAddr ⟨0, 0, size, hostMem⟩ a = hostMem + a := by
    intro size a
    simp [MemoryRegion.hostAddr]
  cases h with
  | below _ _ => simpa using first memSize
  | within _ _ => simpa using first reservedAddr
  | behind _ => simpa using ⟨first reservedAddr, fun a => hostAddr_eq⟩

/-- The entries of the table do not overlap, as each begins behind the end of the one before. -/
lemma setupE820Map_disjoint :
    (setupE820Map memSize).Pairwise fun e e' => Disjoint e.addrSpan e'.addrSpan := by
  have sorted : (setupE820Map memSize).Pairwise fun e e' => e.addr.toNat + e.size.toNat ≤ e'.addr.toNat := by
    simp only [setupE820Map]
    split
    · simp
    · split
      · simp
      · simp
  exact sorted.imp fun le => disjoint_span (.inl le)

/-- Behind the end of the memory no slot backs anything. -/
lemma Registered.backed_lt (h : Registered hostMem memSize slots) {a : Nat} (ha : a ∈ backed slots) :
    a < memSize.toNat := by
  have zero : (0 : UInt64).toNat = 0 := rfl
  cases h with
  | below le pos =>
    simp only [mem_backed_cons, not_mem_backed_nil, or_false, zero] at ha
    omega
  | within above le =>
    simp only [mem_backed_cons, not_mem_backed_nil, or_false, zero] at ha
    omega
  | behind lt =>
    have sub := toNat_sub lt.le
    simp only [mem_backed_cons, not_mem_backed_nil, or_false, zero, sub] at ha
    have le : reservedAddr.toNat ≤ (reservedAddr + reservedSize).toNat := by decide
    omega

/-- Below 1 MB the second entry of the table wraps, and describes the address space behind 1 MB as RAM. -/
lemma mem_ramBytes_wrapped (small : memSize.toNat < 0x100000) {a : Nat} (h1 : 0x100000 ≤ a) (h2 : a < 2 ^ 63) :
    a ∈ ramBytes (setupE820Map memSize) := by
  have one : (0x100000 : UInt64).toNat = 0x100000 := rfl
  have below : memSize.toNat ≤ reservedAddr.toNat := by
    rw [reservedAddr_toNat]
    omega
  rw [setupE820Map_below below, mem_ramBytes_cons rfl, mem_ramBytes_cons rfl]
  right
  left
  rw [one, UInt64.toNat_sub, one]
  omega

/-- The wrapped entry of the table covers the byte at 1 MB, which no slot backs. -/
lemma Registered.ram_wraps (h : Registered hostMem memSize slots) (size : memSize.toNat < 0x100000) :
    0x100000 ∈ ramBytes (setupE820Map memSize) ∧ 0x100000 ∉ backed slots :=
  ⟨mem_ramBytes_wrapped size le_rfl (by omega), fun hin => absurd (h.backed_lt hin) (by omega)⟩

/-- For every memory size that can be registered: the table and the slots agree if and only if there is memory
up to 1 MB. -/
theorem mapAgrees_iff (h : registerMemory hostMem memSize = some slots) :
    MapAgrees hostMem memSize slots ↔ 0x100000 ≤ memSize.toNat := by
  have reg := registerMemory_registered h
  constructor
  · intro agrees
    by_contra small
    obtain ⟨ram, out⟩ := reg.ram_wraps (by omega)
    rw [agrees.ram] at ram
    exact out ram.1
  · intro size
    have ram := Set.ext (mem_ramBytes_iff reg size)
    refine ⟨setupE820Map_disjoint, ram, ?_, fun r hr a _ => reg.mapped r hr a⟩
    rw [ram, Set.disjoint_left]
    intro a ha
    exact reg.not_reserved ha.1

/-- 1 GB, the default, is registered in one slot and described correctly. -/
theorem mapAgrees_one_gb :
    registerMemory 0x7f0000000000 0x40000000 = some [⟨0, 0, 0x40000000, 0x7f0000000000⟩] ∧
      MapAgrees 0x7f0000000000 0x40000000 [⟨0, 0, 0x40000000, 0x7f0000000000⟩] := by
  have reg : registerMemory 0x7f0000000000 0x40000000 = some [⟨0, 0, 0x40000000, 0x7f0000000000⟩] := by
    decide +kernel
  exact ⟨reg, (mapAgrees_iff reg).mpr (by decide)⟩

/-- 512 KB are registered, but the table describes RAM up to the end of the address space. -/
theorem map_wraps_below_one_mb :
    registerMemory 0x7f0000000000 0x80000 = some [⟨0, 0, 0x80000, 0x7f0000000000⟩] ∧
      (setupE820Map 0x80000).map (fun e => (e.addr, e.size)) = [(0, 0xA0000), (0x100000, 0xfffffffffff80000)] ∧
      ¬ MapAgrees 0x7f0000000000 0x80000 [⟨0, 0, 0x80000, 0x7f0000000000⟩] := by
  have reg : registerMemory 0x7f0000000000 0x80000 = some [⟨0, 0, 0x80000, 0x7f0000000000⟩] := by decide +kernel
  refine ⟨reg, by decide +kernel, ?_⟩
  intro agrees
  obtain ⟨ram, out⟩ := (registerMemory_registered reg).ram_wraps (by decide)
  rw [agrees.ram] at ram
  exact out ram.1

end Mvvmm.Vm
