import Mvvmm.Vm.Boot
import Mvvmm.Vm.Options

/-!
# Loading the kernel

Model of `mvvm_load_kernel`: it fills in the boot parameters, puts the command line together, loads the RAM disk and copies
the kernel to 1 MB. The sizes of the kernel, of the command line and of the RAM disk are each checked on their own.

`mvvmLoadKernel_arranged` says that a load that succeeds puts everything in its place, one thing apart from the other, and
that it stays in the memory of the guest if and only if the kernel does: its size is not compared with that of the memory.
-/

namespace Mvvmm.Vm
open Bytes CString Journal

/-- C `sizeof(struct setup_header)`. -/
def sizeofSetupHeader : Nat := 123

/-- C `offsetof(struct boot_params, e820_table)`. -/
def e820Table : Nat := 0x2d0

/-- Where the command line goes. -/
def cmdlineAddr : Nat := 0x20000

/-- Where the kernel goes. -/
def kernelAddr : Nat := 0x100000

/-- The bytes of `struct boot_e820_entry`. -/
def E820Entry.bytes (e : E820Entry) : List UInt8 :=
  leBytes 8 e.addr.toNat ++ leBytes 8 e.size.toNat ++ leBytes 4 e.type.toNat

/-- C `setup_e820_map` as it writes the table to the boot parameters. -/
def putE820Map (m : HostMem) (table : List E820Entry) : HostMem :=
  (setField m .e820Entries table.length).put (zeropage + e820Table) (table.flatMap E820Entry.bytes)

/-- The part of `mvvm_load_kernel` that sets up the boot parameters. -/
def setupBootParams (memSize : UInt64) (m : HostMem) (bzImage : File) : HostMem :=
  let m := m.put zeropage (List.replicate sizeofBootParams 0)
  let m := m.put (zeropage + BootField.setupSects.offset) (bzImage.read 0x1f1 sizeofSetupHeader)
  let m := putE820Map m (setupE820Map memSize)
  let m := setField m .typeOfLoader 0xFF
  let m := setField m .loadflags (getField m .loadflags ||| 1)
  let m := setField m .vidMode 0xFFFF
  setField m .cmdLinePtr cmdlineAddr

/-- C `cmdline_concat`. -/
def cmdlineConcat (buf new : List UInt8) : Option (List UInt8) :=
  let n1 := min buf.length 2000
  let n2 := new.length
  if n1 + n2 ≥ 2000 then none else some (buf.take n1 ++ new)

/-- The fragment of a device is appended if the device is there. -/
def appendFragment (has : Bool) (buf new : List UInt8) : Option (List UInt8) :=
  if has then cmdlineConcat buf new else some buf

/-- The part of `mvvm_load_kernel` that puts the command line together. -/
def cmdlineBuf (hasBlk hasNet : Bool) (kernelArgs : List UInt8) : Option (List UInt8) := do
  let buf ← appendFragment hasBlk kernelArgs virtioBlkCmdline
  let buf ← appendFragment hasNet buf virtioNetCmdline
  if min buf.length 2000 ≥ 2000 then none else some buf

/-- C `setup_size`. -/
def setupSize (m : HostMem) : UInt32 :=
  (UInt32.ofNat (getField m .setupSects) + 1) * 512

/-- C `mvvm_load_kernel`: what it returns and the memory afterwards. -/
def mvvmLoadKernel (memSize : UInt64) (hasBlk hasNet : Bool) (m : HostMem) (kernel : Option File)
    (initrd : Option (Option File)) (kernelArgs : List UInt8) : Int × HostMem :=
  match mapFile kernel with
  | none => (-1, m)
  | some bzImage =>
    if bzImage.size ≥ 190 * 1024 * 1024 then
      (-1, m)
    else if bzImage.size ≤ 128 * 1024 then
      (-1, m)
    else
      let m := setupBootParams memSize m bzImage
      match cmdlineBuf hasBlk hasNet kernelArgs with
      | none => (-1, m)
      | some cmdline =>
        let m := m.put cmdlineAddr (cmdline ++ [0])
        let r := loadInitrd memSize m initrd
        if r.1 < 0 then
          (-1, r.2)
        else
          let len := bzImage.size - (setupSize r.2).toUInt64
          (0, r.2.put kernelAddr (bzImage.read (setupSize r.2).toNat len.toNat))

variable {memSize : UInt64} {hasBlk hasNet : Bool} {m m' : HostMem} {bzImage : File} {kernel : Option File}
  {initrd : Option (Option File)} {kernelArgs buf new cmdline : List UInt8} {n : Nat}

/-! ## The command line -/

/-- The arguments, followed by the fragments of the devices. -/
def wantedCmdline (hasBlk hasNet : Bool) (kernelArgs : List UInt8) : List UInt8 :=
  kernelArgs ++ (if hasBlk then virtioBlkCmdline else []) ++ (if hasNet then virtioNetCmdline else [])

/-- A concatenation that succeeds is one. -/
lemma cmdlineConcat_some (h : cmdlineConcat buf new = some cmdline) : cmdline = buf ++ new := by
  simp only [cmdlineConcat] at h
  split at h
  · cases h
  · rw [← Option.some.inj h, List.take_of_length_le (by omega)]

/-- A fragment that is appended successfully is behind the others, if it is wanted. -/
lemma appendFragment_some {has : Bool} (h : appendFragment has buf new = some cmdline) :
    cmdline = buf ++ if has then new else [] := by
  cases has with
  | false =>
    rw [← Option.some.inj h]
    simp
  | true => exact cmdlineConcat_some h

/-- A command line that is built is the one that is wanted, and fits. -/
lemma cmdlineBuf_some (h : cmdlineBuf hasBlk hasNet kernelArgs = some cmdline) :
    cmdline = wantedCmdline hasBlk hasNet kernelArgs ∧ cmdline.length < 2000 := by
  simp only [cmdlineBuf, bind, Option.bind_eq_some_iff] at h
  obtain ⟨buf, blk, buf', net, h⟩ := h
  split at h
  · cases h
  · rename_i short
    obtain rfl := Option.some.inj h
    refine ⟨?_, by omega⟩
    rw [appendFragment_some net, appendFragment_some blk, wantedCmdline]

/-! ## The boot parameters -/

/-- The memory map has at most three entries. -/
lemma setupE820Map_length (memSize : UInt64) : (setupE820Map memSize).length ≤ 3 := by
  simp only [setupE820Map]
  split
  · simp
  · split <;> simp

/-- The size of an entry of the memory map. -/
lemma E820Entry.bytes_length (e : E820Entry) : e.bytes.length = 20 := by
  simp [E820Entry.bytes]

/-- A table of at most 128 entries stays in the boot parameters. -/
lemma table_area {table : List E820Entry} (len : table.length ≤ 128) :
    area (zeropage + e820Table, (table.flatMap E820Entry.bytes).length) ⊆ area bootArea := by
  have bytes : (table.flatMap E820Entry.bytes).length = 20 * table.length := by
    rw [List.length_flatMap, List.map_congr_left (fun e _ => e.bytes_length), List.map_const', List.sum_replicate_nat,
      Nat.mul_comm]
  rw [bytes]
  refine area_subset (Nat.le_add_right _ _) ?_
  simp only [e820Table, sizeofBootParams]
  omega

/-- The memory map goes to the parameters. -/
lemma putE820Map_within : Within [bootArea] m (putE820Map m (setupE820Map memSize)) := by
  have len := setupE820Map_length memSize
  exact setField_within.trans (within_put (List.mem_singleton.mpr rfl) (table_area (by omega)))

/-- The parameters are set up in their own place. -/
lemma setupBootParams_within : Within [bootArea] m (setupBootParams memSize m bzImage) := by
  have zeroed : Within [bootArea] m (m.put zeropage (List.replicate sizeofBootParams 0)) := by
    apply within_put (List.mem_singleton.mpr rfl)
    rw [List.length_replicate]
    exact Set.Subset.rfl
  have header : ∀ m : HostMem, Within [bootArea] m
      (m.put (zeropage + BootField.setupSects.offset) (bzImage.read 0x1f1 sizeofSetupHeader)) := by
    intro m
    apply within_put (List.mem_singleton.mpr rfl)
    rw [File.read, slice_length]
    exact area_subset (by decide) (by decide)
  exact zeroed.trans <| (header _).trans <| putE820Map_within.trans <| setField_within.trans <|
    setField_within.trans <| setField_within.trans setField_within

/-- The number of setup sectors is that of the image. -/
lemma setupBootParams_setupSects :
    getField (setupBootParams memSize m bzImage) .setupSects = (bzImage.bytes 0x1f1).toNat := by
  have len := setupE820Map_length memSize
  -- only the copy of the header and the table are no stores of single fields
  have header : ∀ m : HostMem, getField (m.put (zeropage + BootField.setupSects.offset)
      (bzImage.read 0x1f1 sizeofSetupHeader)) .setupSects = (bzImage.bytes 0x1f1).toNat := by
    intro m
    rw [getField, Store.put, slice_splice_mid (Nat.le_refl _) (by rw [File.read, slice_length]; decide)]
    simp [File.read, sizeofSetupHeader, slice, BootField.width]
  have table : ∀ m : HostMem, getField (putE820Map m (setupE820Map memSize)) .setupSects = getField m .setupSects := by
    intro m
    rw [putE820Map, getField, Store.put, slice_splice_disjoint (.inl (by decide))]
    exact getField_setField_ne (by decide)
  simp only [setupBootParams]
  rw [getField_setField_ne (by decide), getField_setField_ne (by decide), getField_setField_ne (by decide),
    getField_setField_ne (by decide), table, header]

/-! ## Where everything is -/

/-- The size of the RAM disk, 0 if there is none. -/
def initrdSize : Option (Option File) → Nat
  | some (some file) => file.size.toNat
  | _ => 0

/-- Where the kernel proper begins in its image. -/
def setupOffset (bzImage : File) : Nat :=
  ((bzImage.bytes 0x1f1).toNat + 1) * 512

/-- The boot parameters, the command line, the kernel and the RAM disk: where each is and its length. -/
def layout (bzImage : File) (initrd : Option (Option File)) (cmdline : List UInt8) : List (Nat × Nat) :=
  [(zeropage, sizeofBootParams), (cmdlineAddr, cmdline.length + 1), (kernelAddr, bzImage.size.toNat - setupOffset bzImage),
    (initrdAddr.toNat, initrdSize initrd)]

/-- Everything is in its place: all writes are to the four areas, which are apart, and the contents are as they should be. -/
structure Arranged (bzImage : File) (initrd : Option (Option File)) (cmdline : List UInt8) (m : HostMem) : Prop where
  written : ∀ w ∈ m.writes, ∃ r ∈ layout bzImage initrd cmdline, area w ⊆ area r
  apart : (layout bzImage initrd cmdline).Pairwise fun r r' => Disjoint (area r) (area r')
  setup : setupOffset bzImage ≤ bzImage.size.toNat
  kernel : slice m.cells kernelAddr (bzImage.size.toNat - setupOffset bzImage) =
    bzImage.read (setupOffset bzImage) (bzImage.size.toNat - setupOffset bzImage)
  short : cmdline.length < 2000
  cmdline : slice m.cells cmdlineAddr (cmdline.length + 1) = cmdline ++ [0]
  initrd : ∀ file, initrd = some (some file) → slice m.cells initrdAddr.toNat file.size.toNat = file.read 0 file.size.toNat

/-- What `load_initrd` does, with or without a path. -/
lemma loadInitrd_ok (h : loadInitrd memSize m initrd = (0, m')) :
    Within [bootArea, (initrdAddr.toNat, initrdSize initrd)] m m' ∧
      getField m' .setupSects = getField m .setupSects ∧
      (initrdSize initrd = 0 ∨ initrdAddr.toNat + initrdSize initrd < memSize.toNat) ∧
      ∀ file, initrd = some (some file) →
        slice m'.cells initrdAddr.toNat file.size.toNat = file.read 0 file.size.toNat := by
  cases initrd with
  | none =>
    obtain rfl := (Prod.mk.inj h).2
    refine ⟨(setField_within.trans setField_within).mono (by simp), ?_, .inl rfl, fun _ e => by cases e⟩
    rw [getField_setField_ne (by decide), getField_setField_ne (by decide)]
  | some path =>
    obtain ⟨file, rfl, -, fits, e⟩ := loadInitrd_path h
    have copy : Within [(initrdAddr.toNat, initrdSize (some (some file)))] m
        (m.put initrdAddr.toNat (file.read 0 file.size.toNat)) := within_put_self slice_length
    refine ⟨?_, ?_, .inr fits, ?_⟩
    · rw [e]
      exact (copy.mono (by simp)).trans ((setField_within.trans setField_within).mono (by simp))
    · rw [e, getField_setField_ne (by decide), getField_setField_ne (by decide)]
      refine getField_within copy fun r hr => ?_
      rw [List.mem_singleton.mp hr]
      exact bootArea_apart
    · intro file' e'
      obtain rfl := Option.some.inj (Option.some.inj e')
      exact (loadInitrd_fields e).2.2

/-- `load_initrd` returns 0 or -1. -/
lemma loadInitrd_ret (memSize : UInt64) (m : HostMem) (initrd : Option (Option File)) :
    (loadInitrd memSize m initrd).1 = 0 ∨ (loadInitrd memSize m initrd).1 = -1 := by
  cases initrd with
  | none => exact .inl rfl
  | some path =>
    simp only [loadInitrd]
    split
    · exact .inr rfl
    · split
      · exact .inr rfl
      · exact .inl rfl

/-- Inversion of `mvvm_load_kernel`. -/
lemma mvvmLoadKernel_ok (h : mvvmLoadKernel memSize hasBlk hasNet m kernel initrd kernelArgs = (0, m')) :
    ∃ bzImage m₁, kernel = some bzImage ∧ 128 * 1024 < bzImage.size.toNat ∧ bzImage.size.toNat < 190 * 1024 * 1024 ∧
      cmdlineBuf hasBlk hasNet kernelArgs = some (wantedCmdline hasBlk hasNet kernelArgs) ∧
      loadInitrd memSize ((setupBootParams memSize m bzImage).put cmdlineAddr
        (wantedCmdline hasBlk hasNet kernelArgs ++ [0])) initrd = (0, m₁) ∧
      m' = m₁.put kernelAddr (bzImage.read (setupSize m₁).toNat (bzImage.size - (setupSize m₁).toUInt64).toNat) := by
  simp only [mvvmLoadKernel] at h
  split at h
  · cases h
  rename_i bzImage mapped
  obtain ⟨found, -⟩ := Option.filter_eq_some_iff.mp mapped
  split at h
  · cases h
  rename_i small
  split at h
  · cases h
  rename_i large
  split at h
  · cases h
  rename_i cmdline built
  obtain ⟨rfl, -⟩ := cmdlineBuf_some built
  split at h
  · cases h
  rename_i loaded
  have max : (190 * 1024 * 1024 : UInt64).toNat = 190 * 1024 * 1024 := rfl
  have min : (128 * 1024 : UInt64).toNat = 128 * 1024 := rfl
  rw [ge_iff_le, UInt64.le_iff_toNat_le] at small
  rw [UInt64.le_iff_toNat_le] at large
  refine ⟨bzImage, _, found, by omega, by omega, built, Prod.ext ?_ rfl, (Prod.mk.inj h).2.symm⟩
  rcases loadInitrd_ret memSize ((setupBootParams memSize m bzImage).put cmdlineAddr
    (wantedCmdline hasBlk hasNet kernelArgs ++ [0])) initrd with zero | minus
  · exact zero
  · rw [minus] at loaded
    exact absurd (by decide) loaded

/-- The four areas are apart. -/
lemma layout_apart (size : bzImage.size.toNat < 190 * 1024 * 1024) (short : cmdline.length < 2000) :
    (layout bzImage initrd cmdline).Pairwise fun r r' => Disjoint (area r) (area r') := by
  simp only [layout, List.pairwise_cons, List.mem_cons, List.not_mem_nil, or_false, forall_eq_or_imp, forall_eq]
  refine ⟨⟨?_, ?_, ?_⟩, ⟨?_, ?_⟩, ?_, by simp⟩ <;> apply disjoint_area <;>
    simp only [zeropage, sizeofBootParams, cmdlineAddr, kernelAddr, initrdAddr_toNat] <;> omega

/-- The size of the set-up code, from the field in the parameters. -/
lemma setupSize_eq (h : getField m .setupSects = (bzImage.bytes 0x1f1).toNat) :
    (setupSize m).toNat = setupOffset bzImage := by
  have lt := (bzImage.bytes 0x1f1).toNat_lt
  have one : (1 : UInt32).toNat = 1 := rfl
  have sector : (512 : UInt32).toNat = 512 := rfl
  rw [setupSize, setupOffset, h, UInt32.toNat_mul, UInt32.toNat_add, UInt32.toNat_ofNat', one, sector]
  omega

/-- The memory in which the kernel is to be copied, and what has been done to it. -/
structure Prepared (memSize : UInt64) (m₀ : HostMem) (bzImage : File) (initrd : Option (Option File))
    (cmdline : List UInt8) (m : HostMem) : Prop where
  within : Within [bootArea, (cmdlineAddr, cmdline.length + 1), (initrdAddr.toNat, initrdSize initrd)] m₀ m
  setupSects : getField m .setupSects = (bzImage.bytes 0x1f1).toNat
  cmdline : slice m.cells cmdlineAddr (cmdline.length + 1) = cmdline ++ [0]
  fits : initrdSize initrd = 0 ∨ initrdAddr.toNat + initrdSize initrd < memSize.toNat
  initrd : ∀ file, initrd = some (some file) → slice m.cells initrdAddr.toNat file.size.toNat = file.read 0 file.size.toNat

/-- What has been prepared once the initrd is loaded. -/
lemma loadInitrd_prepared {m₁ : HostMem} (short : cmdline.length < 2000)
    (h : loadInitrd memSize ((setupBootParams memSize m bzImage).put cmdlineAddr (cmdline ++ [0])) initrd = (0, m₁)) :
    Prepared memSize m bzImage initrd cmdline m₁ := by
  obtain ⟨within, setupSects, fits, bytes⟩ := loadInitrd_ok h
  have length : (cmdline ++ [0]).length = cmdline.length + 1 := by simp
  have copy : Within [(cmdlineAddr, cmdline.length + 1)] (setupBootParams memSize m bzImage)
      ((setupBootParams memSize m bzImage).put cmdlineAddr (cmdline ++ [0])) := within_put_self length
  refine ⟨?_, ?_, ?_, fits, bytes⟩
  · exact (setupBootParams_within.mono (by simp)).trans ((copy.mono (by simp)).trans (within.mono (by simp)))
  · rw [setupSects, getField_within copy, setupBootParams_setupSects]
    simp only [List.mem_singleton, forall_eq]
    exact disjoint_area (.inl (by decide))
  · rw [within.slice_eq, slice_put length]
    simp only [List.mem_cons, List.not_mem_nil, or_false, forall_eq_or_imp, forall_eq]
    constructor
    · exact disjoint_area (.inr (by decide))
    · refine disjoint_area (.inl ?_)
      rw [cmdlineAddr, initrdAddr_toNat]
      omega

section Copy
variable {m₀ m₁ : HostMem} (prepared : Prepared memSize m₀ bzImage initrd cmdline m₁)
  (large : 128 * 1024 < bzImage.size.toNat) (small : bzImage.size.toNat < 190 * 1024 * 1024)
  (short : cmdline.length < 2000)

/-- The copy of the kernel, whose length does not wrap around. -/
def copyKernel (m : HostMem) (bzImage : File) : HostMem :=
  m.put kernelAddr (bzImage.read (setupOffset bzImage) (bzImage.size.toNat - setupOffset bzImage))

/-- The kernel is copied to its own place. -/
lemma copyKernel_within :
    Within [(kernelAddr, bzImage.size.toNat - setupOffset bzImage)] m₁ (copyKernel m₁ bzImage) :=
  within_put_self slice_length

/-- The copy of the kernel is one write. -/
lemma copyKernel_writes :
    (copyKernel m₁ bzImage).writes = (kernelAddr, bzImage.size.toNat - setupOffset bzImage) :: m₁.writes := by
  rw [copyKernel, Store.put, File.read, slice_length]

include large in

/-- The kernel has bytes behind its set-up code. -/
lemma setupOffset_lt : setupOffset bzImage < bzImage.size.toNat := by
  have lt := (bzImage.bytes 0x1f1).toNat_lt
  have eq : setupOffset bzImage = ((bzImage.bytes 0x1f1).toNat + 1) * 512 := rfl
  omega

include prepared large in

/-- What `mvvm_load_kernel` copies is the kernel. -/
lemma Prepared.copy_eq :
    m₁.put kernelAddr (bzImage.read (setupSize m₁).toNat (bzImage.size - (setupSize m₁).toUInt64).toNat) =
      copyKernel m₁ bzImage := by
  have lt := setupOffset_lt large
  have eq := setupSize_eq prepared.setupSects
  rw [toNat_sub (by rw [UInt32.toNat_toUInt64, eq]; omega), UInt32.toNat_toUInt64, eq, copyKernel]

include prepared in
/-- All writes are to the four areas. -/
lemma Prepared.written (fresh : m₀.writes = []) :
    ∀ w ∈ (copyKernel m₁ bzImage).writes, ∃ r ∈ layout bzImage initrd cmdline, area w ⊆ area r := by
  have all : Within (layout bzImage initrd cmdline) m₀ (copyKernel m₁ bzImage) :=
    (prepared.within.mono (by simp [layout, bootArea])).trans (copyKernel_within.mono (by simp [layout]))
  intro w hw
  exact (all.log w hw).resolve_left (by simp [fresh])

include prepared large small short in

/-- All is in its place after the kernel has been copied. -/
lemma Prepared.arranged (fresh : m₀.writes = []) : Arranged bzImage initrd cmdline (copyKernel m₁ bzImage) := by
  have lt := setupOffset_lt large
  refine ⟨prepared.written fresh, layout_apart small short, by omega, slice_put slice_length, short, ?_, ?_⟩
  · have below : cmdlineAddr + (cmdline.length + 1) ≤ kernelAddr := by
      rw [cmdlineAddr, kernelAddr]
      omega
    rw [copyKernel_within.slice_off (.inl below), prepared.cmdline]
  · intro file e
    have above : kernelAddr + (bzImage.size.toNat - setupOffset bzImage) ≤ initrdAddr.toNat := by
      rw [initrdAddr_toNat, kernelAddr]
      omega
    rw [copyKernel_within.slice_off (.inr above), prepared.initrd file e]

include prepared large short in
/-- The writes are inside the memory if the one of the kernel is. -/
lemma Prepared.inside_iff (fresh : m₀.writes = []) :
    (∀ w ∈ (copyKernel m₁ bzImage).writes, area w ⊆ Set.Iio memSize.toNat) ↔
      kernelAddr + (bzImage.size.toNat - setupOffset bzImage) ≤ memSize.toNat := by
  have lt := setupOffset_lt large
  constructor
  · intro inside
    have copy : area (kernelAddr, bzImage.size.toNat - setupOffset bzImage) ⊆ Set.Iio memSize.toNat := by
      apply inside
      rw [copyKernel_writes]
      exact List.mem_cons_self
    have last : kernelAddr + (bzImage.size.toNat - setupOffset bzImage) - 1 ∈ Set.Iio memSize.toNat :=
      copy ⟨by simp only; omega, by simp only; omega⟩
    rw [Set.mem_Iio] at last
    omega
  · intro fits w hw
    obtain ⟨r, hr, sub⟩ := prepared.written fresh w hw
    refine sub.trans fun i hi => ?_
    obtain ⟨low, high⟩ := hi
    have ram := prepared.fits
    rw [Set.mem_Iio]
    simp only [layout, List.mem_cons, List.not_mem_nil, or_false] at hr
    simp only [kernelAddr] at fits
    rcases hr with rfl | rfl | rfl | rfl
    · simp only [zeropage, sizeofBootParams] at high
      omega
    · simp only [cmdlineAddr] at high
      omega
    · simp only [kernelAddr] at high
      omega
    · rcases ram with none | ram
      · simp only [none] at high
        omega
      · simp only at high
        omega

end Copy

/-- For every memory size, image, RAM disk, arguments and devices: a load that succeeds puts everything in its place, and
all that it writes is in the memory of the guest if and only if the kernel is. -/
theorem mvvmLoadKernel_arranged (memSize : UInt64) (hasBlk hasNet : Bool) (mem : Nat → UInt8) (bzImage : File)
    (initrd : Option (Option File)) (kernelArgs : List UInt8)
    (h : (mvvmLoadKernel memSize hasBlk hasNet ⟨mem, []⟩ (some bzImage) initrd kernelArgs).1 = 0) :
    Arranged bzImage initrd (wantedCmdline hasBlk hasNet kernelArgs)
        (mvvmLoadKernel memSize hasBlk hasNet ⟨mem, []⟩ (some bzImage) initrd kernelArgs).2 ∧
      ((∀ w ∈ (mvvmLoadKernel memSize hasBlk hasNet ⟨mem, []⟩ (some bzImage) initrd kernelArgs).2.writes,
          area w ⊆ Set.Iio memSize.toNat) ↔
        kernelAddr + (bzImage.size.toNat - setupOffset bzImage) ≤ memSize.toNat) := by
  generalize run : mvvmLoadKernel memSize hasBlk hasNet ⟨mem, []⟩ (some bzImage) initrd kernelArgs = r at h ⊢
  obtain ⟨ret, m'⟩ := r
  obtain rfl : ret = 0 := h
  obtain ⟨image, m₁, found, large, small, built, loaded, e⟩ := mvvmLoadKernel_ok run
  obtain rfl := Option.some.inj found
  have short := (cmdlineBuf_some built).2
  have prepared := loadInitrd_prepared short loaded
  rw [prepared.copy_eq large] at e
  subst e
  exact ⟨prepared.arranged large small short rfl, prepared.inside_iff large short rfl⟩

/-- C `DEFAULT_KERNEL_CMDLINE`. -/
def defaultKernelCmdline : List UInt8 := ofChars "console=ttyS0 debug".toList

/-- A kernel of 1 MB with a RAM disk and both devices, in a memory of 1 GB. -/
theorem mvvmLoadKernel_one_gb :
    Arranged (.zeros 0x100000 (by decide)) (some (some (.zeros 0x100000 (by decide))))
        (wantedCmdline true true defaultKernelCmdline)
        (mvvmLoadKernel 0x40000000 true true ⟨fun _ => 0, []⟩ (some (.zeros 0x100000 (by decide)))
          (some (some (.zeros 0x100000 (by decide)))) defaultKernelCmdline).2 ∧
      ∀ w ∈ (mvvmLoadKernel 0x40000000 true true ⟨fun _ => 0, []⟩ (some (.zeros 0x100000 (by decide)))
          (some (some (.zeros 0x100000 (by decide)))) defaultKernelCmdline).2.writes,
        area w ⊆ Set.Iio 0x40000000 := by
  obtain ⟨arranged, inside⟩ := mvvmLoadKernel_arranged 0x40000000 true true (fun _ => 0) (.zeros 0x100000 (by decide))
    (some (some (.zeros 0x100000 (by decide)))) defaultKernelCmdline (by decide +kernel)
  exact ⟨arranged, inside.mpr (by decide)⟩

/-- In a memory of 1 MB, a kernel of 256 KB without a RAM disk is loaded behind the end of the memory. -/
theorem kernel_behind_memory :
    ∃ m, mvvmLoadKernel 0x100000 false false ⟨fun _ => 0, []⟩ (some (.zeros 0x40000 (by decide))) none
        defaultKernelCmdline = (0, m) ∧
      (kernelAddr, 0x3fe00) ∈ m.writes ∧ ¬ area (kernelAddr, 0x3fe00) ⊆ Set.Iio 0x100000 := by
  have ok : (mvvmLoadKernel 0x100000 false false ⟨fun _ => 0, []⟩ (some (.zeros 0x40000 (by decide))) none
      defaultKernelCmdline).1 = 0 := by decide +kernel
  generalize run : mvvmLoadKernel 0x100000 false false ⟨fun _ => 0, []⟩ (some (.zeros 0x40000 (by decide))) none
    defaultKernelCmdline = r at ok ⊢
  obtain ⟨ret, m⟩ := r
  obtain rfl : ret = 0 := ok
  refine ⟨m, rfl, ?_, ?_⟩
  · obtain ⟨image, m₁, found, large, small, built, loaded, e⟩ := mvvmLoadKernel_ok run
    obtain rfl := Option.some.inj found
    rw [(loadInitrd_prepared (cmdlineBuf_some built).2 loaded).copy_eq large] at e
    rw [e, copyKernel_writes]
    exact List.mem_cons_self
  · intro inside
    have first : kernelAddr ∈ Set.Iio 0x100000 := inside ⟨Nat.le_refl _, by decide⟩
    exact absurd first (by decide)

end Mvvmm.Vm
