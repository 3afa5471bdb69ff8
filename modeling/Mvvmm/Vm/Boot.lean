import Mvvmm.Lib.Journal
import Mvvmm.Vm.Memory

/-!
# The boot parameters and the initial RAM disk

Model of what `mvvm.c` does to the boot parameters of the kernel (`struct boot_params`, at `0x10000`) and of `load_initrd`.
The memory of the guest is a store that logs the writes to it, since nothing keeps a copy to it from going past its end. A
file is mapped as a whole; an empty file cannot be mapped.

The size of the RAM disk is recorded in 32 bits, and compared with the size of the memory but not with the hole in it.
`initrdDescribed_iff` says for which sizes the kernel finds the file where the boot parameters say.
-/

namespace Mvvmm.Vm
open Bytes Journal

/-- A file, of a size that `off_t` can hold. -/
structure File where
  size : UInt64
  bytes : Nat → UInt8
  size_lt : size.toNat < 2 ^ 63

/-- `open`, `fstat` and `mmap` of a file, or of a path where there is none. -/
def mapFile (path : Option File) : Option File :=
  path.filter fun f => f.size ≠ 0

/-- The bytes of a file from `a` on. -/
def File.read (f : File) (a n : Nat) : List UInt8 :=
  slice f.bytes a n

/-! ## The boot parameters -/

/-- C `zeropage`. -/
def zeropage : Nat := 0x10000

/-- C `sizeof(struct boot_params)`. -/
def sizeofBootParams : Nat := 4096

/-- The fields of `struct boot_params` that are accessed one by one. -/
inductive BootField where
  | e820Entries
  | setupSects
  | vidMode
  | typeOfLoader
  | loadflags
  | ramdiskImage
  | ramdiskSize
  | cmdLinePtr
  deriving DecidableEq, Repr

namespace BootField

/-- C `offsetof` of a field. -/
def offset : BootField → Nat
  | e820Entries => 0x1e8
  | setupSects => 0x1f1
  | vidMode => 0x1fa
  | typeOfLoader => 0x210
  | loadflags => 0x211
  | ramdiskImage => 0x218
  | ramdiskSize => 0x21c
  | cmdLinePtr => 0x228

/-- C `sizeof` of a field. -/
def width : BootField → Nat
  | e820Entries => 1
  | setupSects => 1
  | vidMode => 2
  | typeOfLoader => 1
  | loadflags => 1
  | ramdiskImage => 4
  | ramdiskSize => 4
  | cmdLinePtr => 4

/-- The fields do not overlap. -/
lemma apart {f g : BootField} (ne : f ≠ g) : f.offset + f.width ≤ g.offset ∨ g.offset + g.width ≤ f.offset := by
  cases f <;> cases g <;> first | exact absurd rfl ne | decide

/-- Every field lies in the parameters. -/
lemma inside (f : BootField) : f.offset + f.width ≤ sizeofBootParams := by
  cases f <;> decide

end BootField

/-- The memory of the guest, from the first byte of the mapping on. -/
abbrev HostMem := Store UInt8

/-- Store a field. -/
def setField (m : HostMem) (f : BootField) (v : Nat) : HostMem :=
  m.put (zeropage + f.offset) (leBytes f.width v)

/-- Load a field. -/
def getField (m : HostMem) (f : BootField) : Nat :=
  leNat (slice m.cells (zeropage + f.offset) f.width)

/-- Where the boot parameters are. -/
def bootArea : Nat × Nat :=
  (zeropage, sizeofBootParams)

variable {m m' : HostMem} {f g : BootField} {v : Nat} {memSize : UInt64} {file : File}

/-- A field that is set changes the parameters only. -/
lemma setField_within : Within [bootArea] m (setField m f v) := by
  have inside := f.inside
  apply within_put (List.mem_singleton.mpr rfl)
  rw [leBytes_length]
  exact area_subset (by omega) (by omega)

/-- A field that is set can be read. -/
lemma getField_setField_self (h : v < 256 ^ f.width) : getField (setField m f v) f = v := by
  rw [getField, setField, slice_put leBytes_length, leNat_leBytes, Nat.mod_eq_of_lt h]

/-- Fields do not overlap. -/
lemma getField_setField_ne (ne : f ≠ g) : getField (setField m g v) f = getField m f := by
  have apart := BootField.apart ne
  rw [getField, getField, setField, Store.put, slice_splice_disjoint (by rw [leBytes_length]; omega)]

/-- A field is not changed by what lies outside the boot parameters. -/
lemma getField_within {L : List (Nat × Nat)} (h : Within L m m') (apart : ∀ r ∈ L, Disjoint (area bootArea) (area r)) :
    getField m' f = getField m f := by
  have inside := f.inside
  rw [getField, getField, h.slice_eq]
  intro r hr
  exact Set.disjoint_of_subset_left (area_subset (by omega) (by omega)) (apart r hr)

/-! ## The initial RAM disk -/

/-- C `initrd_addr`. -/
def initrdAddr : UInt32 := 1024 * 1024 * 192

/-- C `load_initrd`: what it returns and the memory afterwards. The path may be null. -/
def loadInitrd (memSize : UInt64) (m : HostMem) : Option (Option File) → Int × HostMem
  | none => (0, setField (setField m .ramdiskImage 0) .ramdiskSize 0)
  | some path =>
    match mapFile path with
    | none => (-1, m)
    | some f =>
      if initrdAddr.toUInt64 + f.size ≥ memSize then
        (-1, m)
      else
        let m := m.put initrdAddr.toNat (f.read 0 f.size.toNat)
        let m := setField m .ramdiskImage initrdAddr.toNat
        (0, setField m .ramdiskSize f.size.toUInt32.toNat)

/-- The RAM disk in the boot parameters is the file, and in RAM. -/
structure InitrdDescribed (memSize : UInt64) (file : File) (m : HostMem) : Prop where
  length : getField m .ramdiskSize = file.size.toNat
  bytes : slice m.cells (getField m .ramdiskImage) (getField m .ramdiskSize) = file.read 0 file.size.toNat
  ram : ∃ e ∈ setupE820Map memSize, e.type = e820TypeRam ∧
    area (getField m .ramdiskImage, getField m .ramdiskSize) ⊆ e.addrSpan

/-- Where the initrd is put. -/
lemma initrdAddr_toNat : initrdAddr.toNat = 0xC000000 := rfl

/-- Inversion of `load_initrd` for a path. -/
lemma loadInitrd_path {path : Option File} (h : loadInitrd memSize m (some path) = (0, m')) :
    ∃ file, path = some file ∧ 0 < file.size.toNat ∧ initrdAddr.toNat + file.size.toNat < memSize.toNat ∧
      m' = setField (setField (m.put initrdAddr.toNat (file.read 0 file.size.toNat)) .ramdiskImage initrdAddr.toNat)
        .ramdiskSize file.size.toUInt32.toNat := by
  simp only [loadInitrd] at h
  cases e : mapFile path with
  | none =>
    rw [e] at h
    cases h
  | some file =>
    obtain ⟨found, nonempty⟩ := Option.filter_eq_some_iff.mp e
    simp only [e] at h
    split at h
    · cases h
    · rename_i fits
      have sum : (initrdAddr.toUInt64 + file.size).toNat = initrdAddr.toNat + file.size.toNat := by
        have lt := file.size_lt
        rw [UInt64.toNat_add, UInt32.toNat_toUInt64, initrdAddr_toNat]
        omega
      refine ⟨file, found, ?_, ?_, (Prod.mk.inj h).2.symm⟩
      · have ne : file.size ≠ 0 := by simpa using nonempty
        exact Nat.pos_of_ne_zero fun zero => ne (UInt64.toNat_inj.mp zero)
      · rw [ge_iff_le, UInt64.le_iff_toNat_le, sum] at fits
        omega

/-- The RAM disk lies apart from the boot parameters. -/
lemma bootArea_apart {n : Nat} : Disjoint (area bootArea) (area (initrdAddr.toNat, n)) :=
  disjoint_area (.inl (by decide))

/-- What `load_initrd` leaves behind. -/
lemma loadInitrd_fields {file : File} (e : m' = setField (setField
      (m.put initrdAddr.toNat (file.read 0 file.size.toNat)) .ramdiskImage initrdAddr.toNat) .ramdiskSize
      file.size.toUInt32.toNat) :
    getField m' .ramdiskImage = initrdAddr.toNat ∧ getField m' .ramdiskSize = file.size.toNat % 2 ^ 32 ∧
      slice m'.cells initrdAddr.toNat file.size.toNat = file.read 0 file.size.toNat := by
  subst e
  refine ⟨?_, ?_, ?_⟩
  · rw [getField_setField_ne (by decide), getField_setField_self (by decide)]
  · rw [getField_setField_self (UInt32.toNat_lt _), UInt64.toNat_toUInt32]
  · rw [(setField_within.trans setField_within).slice_eq, File.read, slice_put slice_length]
    intro r hr
    rw [List.mem_singleton.mp hr]
    exact bootArea_apart.symm

/-- The RAM of the table that the RAM disk can be in ends at the hole. -/
lemma initrd_in_ram_iff {n : Nat} (pos : 0 < n) (fits : initrdAddr.toNat + n < memSize.toNat) :
    (∃ e ∈ setupE820Map memSize, e.type = e820TypeRam ∧ area (initrdAddr.toNat, n) ⊆ e.addrSpan) ↔
      initrdAddr.toNat + n ≤ reservedAddr.toNat := by
  rw [initrdAddr_toNat] at fits ⊢
  have inside : ∀ addr size : UInt64, area (0xC000000, n) ⊆ E820Entry.addrSpan ⟨addr, size, e820TypeRam⟩ ↔
      addr.toNat ≤ 0xC000000 ∧ 0xC000000 + n ≤ addr.toNat + size.toNat := by
    intro addr size
    exact Set.Ico_subset_Ico_iff (by omega)
  have zero : (0 : UInt64).toNat = 0 := rfl
  have low : (0xA0000 : UInt64).toNat = 0xA0000 := rfl
  have mb : (0x100000 : UInt64).toNat = 0x100000 := rfl
  -- in each of the three cases the second entry is the one that can hold the RAM disk
  by_cases below : memSize.toNat ≤ reservedAddr.toNat
  · have size : (memSize - 0x100000).toNat = memSize.toNat - 0x100000 := toNat_sub (by omega)
    rw [setupE820Map_below below]
    rw [reservedAddr_toNat] at below ⊢
    simp only [List.mem_cons, exists_eq_or_imp, List.not_mem_nil, or_false, exists_eq_left, true_and, inside, size,
      zero, low, mb]
    omega
  by_cases within : memSize.toNat ≤ (reservedAddr + reservedSize).toNat
  · rw [setupE820Map_within (by omega) within]
    simp only [List.mem_cons, exists_eq_or_imp, List.not_mem_nil, or_false, exists_eq_left, true_and, inside,
      zero, low, mb, highSize_toNat, reservedAddr_toNat]
    omega
  · rw [setupE820Map_behind (by omega)]
    simp only [List.mem_cons, exists_eq_or_imp, List.not_mem_nil, or_false, exists_eq_left, true_and, inside,
      zero, low, mb, highSize_toNat, reservedAddr_toNat, reservedEnd_toNat]
    omega

/-- For every memory size and every file that `load_initrd` accepts: the kernel finds the file in RAM as the boot parameters
describe it if and only if it ends before the hole below 4 GB. -/
theorem initrdDescribed_iff (memSize : UInt64) (m : HostMem) (file : File)
    (h : (loadInitrd memSize m (some (some file))).1 = 0) :
    InitrdDescribed memSize file (loadInitrd memSize m (some (some file))).2 ↔
      initrdAddr.toNat + file.size.toNat ≤ reservedAddr.toNat := by
  obtain ⟨file', found, pos, fits, e⟩ := loadInitrd_path (Prod.ext h rfl)
  obtain rfl := Option.some.inj found
  obtain ⟨image, size, bytes⟩ := loadInitrd_fields e
  constructor
  · rintro ⟨length, -, ram⟩
    rw [image, length] at ram
    exact (initrd_in_ram_iff pos fits).mp ram
  · intro below
    have exact : file.size.toNat % 2 ^ 32 = file.size.toNat := by
      rw [reservedAddr_toNat] at below
      omega
    rw [exact] at size
    exact ⟨size, by rw [image, size, bytes], by rw [image, size]; exact (initrd_in_ram_iff pos fits).mpr below⟩

/-- A file of zero bytes. -/
def File.zeros (size : UInt64) (size_lt : size.toNat < 2 ^ 63) : File :=
  ⟨size, fun _ => 0, size_lt⟩

/-- A RAM disk of 1 MB in a memory of 1 GB. -/
theorem initrdDescribed_one_mb :
    InitrdDescribed 0x40000000 (.zeros 0x100000 (by decide))
      (loadInitrd 0x40000000 ⟨fun _ => 0, []⟩ (some (some (.zeros 0x100000 (by decide))))).2 :=
  (initrdDescribed_iff 0x40000000 ⟨fun _ => 0, []⟩ (.zeros 0x100000 (by decide)) rfl).mpr (by decide)

/-- In a memory of 8 GB, a RAM disk of 4 GB and 4 KB is recorded as one of 4 KB, and one of 4000 MB reaches beyond the
RAM below 4 GB. -/
theorem initrd_not_described :
    (∃ file m, file.size = 0x100001000 ∧ loadInitrd 0x200000000 ⟨fun _ => 0, []⟩ (some (some file)) = (0, m) ∧
      getField m .ramdiskSize = 0x1000 ∧ ¬ InitrdDescribed 0x200000000 file m) ∧
    ∃ file m, file.size = 0xFA000000 ∧ loadInitrd 0x200000000 ⟨fun _ => 0, []⟩ (some (some file)) = (0, m) ∧
      getField m .ramdiskSize = 0xFA000000 ∧ ¬ InitrdDescribed 0x200000000 file m := by
  constructor
  · refine ⟨.zeros 0x100001000 (by decide), _, rfl, rfl, (loadInitrd_fields rfl).2.1, ?_⟩
    intro h
    exact absurd ((loadInitrd_fields rfl).2.1.symm.trans h.length) (by decide)
  · refine ⟨.zeros 0xFA000000 (by decide), _, rfl, rfl, (loadInitrd_fields rfl).2.1, ?_⟩
    intro h
    have ram := h.ram
    rw [(loadInitrd_fields rfl).1, (loadInitrd_fields rfl).2.1] at ram
    exact absurd ((initrd_in_ram_iff (by decide) (by decide)).mp ram) (by decide)

end Mvvmm.Vm
