import Mvvmm.Lib.Ring
import Mvvmm.Virtio.Chain
import Mvvmm.Virtio.Queue

/-!
# The rings of a queue

The two rings of a queue as the driver lays them out (`RingOk`): a power of two of entries, aligned,
inside guest memory, apart from each other and from the descriptor table. The driver's view of the rings
are the cells `availSlot` and `usedId` and the indices `virtioRead16` returns for it.

On such a queue the index arithmetic of the device is arithmetic modulo the size of the queue
(`nextHead_slot`), and `publishUsed` writes one cell of the used ring, moves the index on and leaves
everything outside the used ring alone. Counters are `UInt16.ofNat n` of the number `n` of entries, so that
they wrap around.
-/

namespace Mvvmm.Virtio
open Bytes CMem

variable {B : Type} {s : VirtioDevice B} {q : Fin maxQueue} {m m' : GuestMemMap} {qs : QueueState}
  {addr : UInt64} {idx : UInt16} {a b n k d : Nat} {len : Int}

/-- A queue as a driver should lay it out in a guest memory of the given size. -/
@[mk_iff]
structure RingOk (size : Nat) (qs : QueueState) : Prop where
  pow : ∃ k < 16, qs.num.toNat = 2 ^ k
  descAligned : qs.descAddr.toNat % 16 = 0
  availAligned : qs.availAddr.toNat % 2 = 0
  usedAligned : qs.usedAddr.toNat % 4 = 0
  desc : qs.descAddr.toNat + 16 * qs.num.toNat ≤ size
  avail : qs.availAddr.toNat + 4 + 2 * qs.num.toNat ≤ size
  used : qs.usedAddr.toNat + 4 + 8 * qs.num.toNat ≤ size
  descAvail : Apart qs.descAddr.toNat (16 * qs.num.toNat) qs.availAddr.toNat (4 + 2 * qs.num.toNat)
  descUsed : Apart qs.descAddr.toNat (16 * qs.num.toNat) qs.usedAddr.toNat (4 + 8 * qs.num.toNat)
  availUsed : Apart qs.availAddr.toNat (4 + 2 * qs.num.toNat) qs.usedAddr.toNat (4 + 8 * qs.num.toNat)

instance (size : Nat) (qs : QueueState) : Decidable (RingOk size qs) :=
  decidable_of_iff' _ (ringOk_iff size qs)

/-- The head in a cell of the available ring. -/
def availSlot (m : GuestMemMap) (qs : QueueState) (k : Nat) : Nat :=
  leNat (m.load (qs.availAddr.toNat + 4 + 2 * k) 2)

/-- The head in a cell of the used ring. -/
def usedId (m : GuestMemMap) (qs : QueueState) (k : Nat) : Nat :=
  leNat (m.load (qs.usedAddr.toNat + 4 + 8 * k) 4)

/-- The index of the used ring. -/
def usedIdx (m : GuestMemMap) (qs : QueueState) : UInt16 :=
  virtioRead16 m (qs.usedAddr + 2)

/-- The positions of the available ring. -/
def availSpan (qs : QueueState) : Set Nat :=
  Set.Ico qs.availAddr.toNat (qs.availAddr.toNat + (4 + 2 * qs.num.toNat))

/-- The positions of the used ring. -/
def usedSpan (qs : QueueState) : Set Nat :=
  Set.Ico qs.usedAddr.toNat (qs.usedAddr.toNat + (4 + 8 * qs.num.toNat))

/-! ## Counters -/

/-- An index that is counted on in 16 bits. -/
lemma ofNat_succ : UInt16.ofNat (n + 1) = UInt16.ofNat n + 1 := by
  simp [UInt16.ofNat_add]

/-- An index that is stored and read again. -/
lemma ofNat_leBytes : UInt16.ofNat (leNat (leBytes 2 idx.toNat)) = idx := by
  have lt : idx.toNat < 256 ^ 2 := idx.toNat_lt
  rw [leNat_leBytes, Nat.mod_eq_of_lt lt, UInt16.ofNat_toNat]

/-- In a ring of at most `2 ^ 16` cells, the cell of a counter is the cell of what it counts. -/
lemma ofNat_mod_num {num : UInt32} (pow : num.toNat.isPowerOfTwo) (le : num.toNat ≤ 2 ^ 16) (n : Nat) :
    (UInt16.ofNat n).toNat % num.toNat = n % num.toNat := by
  obtain ⟨k, e⟩ := pow
  rw [e] at le
  rw [UInt16.toNat_ofNat', e]
  exact Nat.mod_mod_of_dvd n (Nat.pow_dvd_pow 2 ((Nat.pow_le_pow_iff_right (by decide)).mp le))

/-- Counters that are not far apart are equal only if they count the same. -/
lemma ofNat_inj (h : a ≤ b) (h' : b < a + 2 ^ 16) : UInt16.ofNat a = UInt16.ofNat b ↔ a = b := by
  constructor
  · intro e
    have e := congrArg UInt16.toNat e
    rw [UInt16.toNat_ofNat', UInt16.toNat_ofNat'] at e
    omega
  · rintro rfl
    rfl

/-- The address of a cell, in a ring with cells of a few bytes. -/
lemma cellAddr_toNat {base : UInt64} {num w : UInt32} (pow : num.toNat.isPowerOfTwo) (hw : w.toNat ≤ 8)
    (h : base.toNat + 4 + w.toNat * num.toNat < 2 ^ 64) :
    (base + 4 + ((idx.toUInt32 &&& (num - 1)) * w).toUInt64).toNat =
      base.toNat + 4 + w.toNat * (idx.toNat % num.toNat) := by
  have lt := Nat.mod_lt idx.toNat (Nat.pos_of_isPowerOfTwo pow)
  have le : w.toNat * (idx.toNat % num.toNat) ≤ w.toNat * num.toNat := Nat.mul_le_mul_left _ lt.le
  -- The index has 16 bits, however large the ring is.
  have small : w.toNat * (idx.toNat % num.toNat) ≤ 8 * 2 ^ 16 :=
    Nat.mul_le_mul hw ((Nat.mod_le _ _).trans idx.toNat_lt.le)
  rw [UInt64.toNat_add, UInt64.toNat_add, UInt32.toNat_toUInt64, UInt32.toNat_mul, mask_eq_mod idx pow,
    Nat.mul_comm _ w.toNat, Nat.mod_eq_of_lt (b := 2 ^ 32) (by omega),
    show (4 : UInt64).toNat = 4 from rfl]
  omega

section Layout
variable (ok : RingOk m.size qs)
include ok

/-- The size of a ring is a power of two. -/
lemma RingOk.isPowerOfTwo : qs.num.toNat.isPowerOfTwo := by
  obtain ⟨k, -, e⟩ := ok.pow
  exact ⟨k, e⟩

/-- A ring has entries. -/
lemma RingOk.num_pos : 0 < qs.num.toNat :=
  Nat.pos_of_isPowerOfTwo ok.isPowerOfTwo

/-- The size of a ring fits in 16 bits. -/
lemma RingOk.num_lt : qs.num.toNat < 2 ^ 16 := by
  obtain ⟨k, hk, e⟩ := ok.pow
  rw [e]
  exact Nat.pow_lt_pow_right (by omega) hk

/-- The table lies in guest memory. -/
lemma RingOk.table : TableInside m qs :=
  ok.desc

/-- The cell of an entry, from its index in 16 bits. -/
lemma RingOk.cell : (UInt16.ofNat n).toNat % qs.num.toNat = n % qs.num.toNat :=
  ofNat_mod_num ok.isPowerOfTwo ok.num_lt.le n

/-- The address of an entry of the used ring does not wrap around. -/
lemma usedRingAddr_toNat :
    (usedRingAddr qs idx).toNat = qs.usedAddr.toNat + 4 + 8 * (idx.toNat % qs.num.toNat) :=
  cellAddr_toNat (w := 8) ok.isPowerOfTwo (by decide) (ok.used.trans_lt m.size_lt)

/-- The address of the available index does not wrap around. -/
lemma availIdxAddr_toNat : (qs.availAddr + 2).toNat = qs.availAddr.toNat + 2 := by
  have hm := m.size_lt
  have ha := ok.avail
  rw [show (2 : UInt64) = .ofNat 2 from rfl, toNat_add_ofNat (by omega)]

/-- The address of the used index does not wrap around. -/
lemma usedIdxAddr_toNat : (qs.usedAddr + 2).toNat = qs.usedAddr.toNat + 2 := by
  have hm := m.size_lt
  have hu := ok.used
  rw [show (2 : UInt64) = .ofNat 2 from rfl, toNat_add_ofNat (by omega)]

end Layout

/-! ## The queue after a pop -/

/-- The queue after `last_avail_idx++`. -/
def QueueState.advanced (qs : QueueState) : QueueState :=
  { qs with lastAvailIdx := qs.lastAvailIdx + 1 }

/-- A pop advances its queue. -/
lemma advance_queue {head : Nat} : (advance s q head).queue q = (s.queue q).advanced := by
  simp [advance, VirtioDevice.updQueue, QueueState.advanced]

/-- A pop does not move the rings. -/
lemma RingOk.advanced {size : Nat} (ok : RingOk size qs) : RingOk size qs.advanced :=
  ⟨ok.pow, ok.descAligned, ok.availAligned, ok.usedAligned, ok.desc, ok.avail, ok.used, ok.descAvail,
    ok.descUsed, ok.availUsed⟩

/-- A pop does not change how chains read. -/
lemma chain_advanced {head : Nat} : chain m qs.advanced head = chain m qs head := by
  have table : ∀ idx, tableDesc m qs.advanced idx = tableDesc m qs idx := fun _ => rfl
  have after : ∀ n d, chainAfter m qs.advanced n d = chainAfter m qs n d := by
    intro n
    induction n with
    | zero => exact fun _ => rfl
    | succ n ih => simp only [chainAfter, table, ih, implies_true]
  simp only [chain, table, after]
  rfl

/-! ## Aligned accesses -/

/-- An aligned read of 16 bits inside guest memory. -/
lemma virtioRead16_eq (al : addr.toNat % 2 = 0) (h : addr.toNat ≤ m.size) :
    virtioRead16 m addr = .ofNat (leNat (m.load addr.toNat 2)) := by
  have h' : ¬ addr.toNat > m.size := by omega
  simp [virtioRead16, alignedPtr, guestAddrToHostAddr, al, h']

/-- An aligned write of 16 bits inside guest memory. -/
lemma virtioWrite16_eq {val : UInt16} (al : addr.toNat % 2 = 0) (h : addr.toNat ≤ m.size) :
    virtioWrite16 m addr val = m.store addr.toNat (leBytes 2 val.toNat) := by
  have h' : ¬ addr.toNat > m.size := by omega
  simp [virtioWrite16, alignedPtr, guestAddrToHostAddr, al, h']

/-- An aligned write of 32 bits inside guest memory. -/
lemma virtioWrite32_eq {val : UInt32} (al : addr.toNat % 4 = 0) (h : addr.toNat ≤ m.size) :
    virtioWrite32 m addr val = m.store addr.toNat (leBytes 4 val.toNat) := by
  have h' : ¬ addr.toNat > m.size := by omega
  simp [virtioWrite32, alignedPtr, guestAddrToHostAddr, al, h']

/-- A 16-bit read returns what a cell of the ring holds. -/
lemma virtioRead16_toNat (al : addr.toNat % 2 = 0) (h : addr.toNat ≤ m.size) :
    (virtioRead16 m addr).toNat = leNat (m.load addr.toNat 2) := by
  have lt : leNat (m.load addr.toNat 2) < 2 ^ 16 := by
    simpa using (leNat_lt : leNat (m.load addr.toNat 2) < _)
  rw [virtioRead16_eq al h, UInt16.toNat_ofNat', Nat.mod_eq_of_lt lt]

/-! ## The available ring -/

/-- The available ring lies in a guest memory of the given size, at an address that `virtio_read16` takes. -/
def AvailInside (size : Nat) (qs : QueueState) : Prop :=
  qs.availAddr.toNat % 2 = 0 ∧ qs.availAddr.toNat + 4 + 2 * qs.num.toNat ≤ size

instance (size : Nat) (qs : QueueState) : Decidable (AvailInside size qs) :=
  inferInstanceAs (Decidable (_ ∧ _))

/-- The device finds the next head in the cell of `last_avail_idx`. -/
lemma nextHead_cell (pow : (s.queue q).num.toNat.isPowerOfTwo) (inside : AvailInside s.mem.size (s.queue q)) :
    nextHead s q =
      availSlot s.mem (s.queue q) ((s.queue q).lastAvailIdx.toNat % (s.queue q).num.toNat) := by
  obtain ⟨al, ha⟩ := inside
  have lt := Nat.mod_lt (s.queue q).lastAvailIdx.toNat (Nat.pos_of_isPowerOfTwo pow)
  have addr : (availRingAddr (s.queue q) (s.queue q).lastAvailIdx).toNat = _ :=
    cellAddr_toNat (w := 2) pow (by decide) (ha.trans_lt s.mem.size_lt)
  rw [show (2 : UInt32).toNat = 2 from rfl] at addr
  rw [nextHead, virtioRead16_toNat (by omega) (by omega), addr, availSlot]

/-- The same with a counter of the entries. -/
lemma nextHead_slot (ok : RingOk s.mem.size (s.queue q)) (e : (s.queue q).lastAvailIdx = .ofNat n) :
    nextHead s q = availSlot s.mem (s.queue q) (n % (s.queue q).num.toNat) := by
  rw [nextHead_cell ok.isPowerOfTwo ⟨ok.availAligned, ok.avail⟩, e, ok.cell]

/-- The available ring only depends on its own bytes. -/
lemma availSlot_congr (e : Set.EqOn m'.hostMem m.hostMem (availSpan qs)) (h : k < qs.num.toNat) :
    availSlot m' qs k = availSlot m qs k := by
  simp only [availSlot, GuestMemMap.load]
  rw [slice_congr (e.mono (Set.Ico_subset_Ico (by omega) (by omega)))]

/-- The available index depends on the available ring only. -/
lemma availIdx_congr (ok : RingOk m.size qs) (size : m'.size = m.size)
    (e : Set.EqOn m'.hostMem m.hostMem (availSpan qs)) :
    virtioRead16 m' (qs.availAddr + 2) = virtioRead16 m (qs.availAddr + 2) := by
  have ha := ok.avail
  have al := ok.availAligned
  have addr := availIdxAddr_toNat ok
  rw [virtioRead16_eq (by omega) (by omega), virtioRead16_eq (by omega) (by omega), addr]
  simp only [GuestMemMap.load]
  rw [slice_congr (e.mono (Set.Ico_subset_Ico (by omega) (by omega)))]

/-- So does the used ring. -/
lemma usedId_congr (e : Set.EqOn m'.hostMem m.hostMem (usedSpan qs)) (h : k < qs.num.toNat) :
    usedId m' qs k = usedId m qs k := by
  simp only [usedId, GuestMemMap.load]
  rw [slice_congr (e.mono (Set.Ico_subset_Ico (by omega) (by omega)))]

/-- Positions of intervals that are apart differ. -/
lemma Apart.subset_compl (h : Apart a n b d) : Set.Ico a (a + n) ⊆ (Set.Ico b (b + d))ᶜ := by
  intro i hi
  simp only [Apart] at h
  simp only [Set.mem_compl_iff, Set.mem_Ico] at hi ⊢
  omega

/-- The table and the available ring are outside the used ring. -/
lemma RingOk.eqOn_table (ok : RingOk m.size qs) (e : Set.EqOn m'.hostMem m.hostMem (usedSpan qs)ᶜ) :
    Set.EqOn m'.hostMem m.hostMem (tableSpan qs) :=
  e.mono ok.descUsed.subset_compl

/-- A change of the used ring leaves the available ring alone. -/
lemma RingOk.eqOn_avail (ok : RingOk m.size qs) (e : Set.EqOn m'.hostMem m.hostMem (usedSpan qs)ᶜ) :
    Set.EqOn m'.hostMem m.hostMem (availSpan qs) :=
  e.mono ok.availUsed.subset_compl

/-! ## The used ring -/

/-- The cell that the next entry goes to. -/
def usedCell (m : GuestMemMap) (qs : QueueState) : Nat :=
  ((usedIdx m qs).toUInt32 &&& (qs.num - 1)).toNat

/-- The length in a cell of the used ring. -/
def usedLen (m : GuestMemMap) (qs : QueueState) (k : Nat) : Nat :=
  leNat (m.load (qs.usedAddr.toNat + 8 + 8 * k) 4)

/-- The length in a cell only depends on the bytes of the used ring. -/
lemma usedLen_congr (e : Set.EqOn m'.hostMem m.hostMem (usedSpan qs)) (h : k < qs.num.toNat) :
    usedLen m' qs k = usedLen m qs k := by
  simp only [usedLen, GuestMemMap.load]
  rw [slice_congr (e.mono (Set.Ico_subset_Ico (by omega) (by omega)))]

/-- The cell of the next used entry is in 16 bits. -/
lemma usedCell_lt (m : GuestMemMap) (qs : QueueState) : usedCell m qs < 2 ^ 16 := by
  have lt := (usedIdx m qs).toNat_lt
  rw [usedCell, UInt32.toNat_and, UInt16.toNat_toUInt32]
  exact lt_of_le_of_lt Nat.and_le_left lt

namespace UsedInside
variable (inside : UsedInside m qs)
include inside

/-- The next used entry lies in guest memory. -/
lemma cell_le : qs.usedAddr.toNat + 12 + 8 * usedCell m qs ≤ m.size := by
  rw [Nat.mul_comm]
  exact inside.2

/-- The address of the used index does not wrap around, if the next entry lies in guest memory. -/
lemma indexAddr : (qs.usedAddr + 2).toNat = qs.usedAddr.toNat + 2 := by
  have hm := m.size_lt
  have hu := inside.cell_le
  rw [show (2 : UInt64) = .ofNat 2 from rfl, toNat_add_ofNat (by omega)]

/-- The address of the next used entry does not wrap around. -/
lemma ringAddr : (usedRingAddr qs (usedIdx m qs)).toNat = qs.usedAddr.toNat + 4 + 8 * usedCell m qs := by
  have hm := m.size_lt
  have hu := inside.cell_le
  have small := usedCell_lt m qs
  have cell : (((usedIdx m qs).toUInt32 &&& (qs.num - 1)) * 8).toNat = 8 * usedCell m qs := by
    have eight : (8 : UInt32).toNat = 8 := rfl
    rw [UInt32.toNat_mul, eight]
    change usedCell m qs * 8 % 2 ^ 32 = _
    omega
  rw [usedRingAddr, UInt64.toNat_add, UInt64.toNat_add, UInt32.toNat_toUInt64, cell,
    show (4 : UInt64).toNat = 4 from rfl]
  omega

/-- The index only depends on its own bytes. -/
lemma usedIdx_congr (size : m'.size = m.size)
    (e : Set.EqOn m'.hostMem m.hostMem (Set.Ico (qs.usedAddr.toNat + 2) (qs.usedAddr.toNat + 4))) :
    usedIdx m' qs = usedIdx m qs := by
  have hu := inside.cell_le
  have al := inside.1
  have addr := inside.indexAddr
  simp only [usedIdx]
  rw [virtioRead16_eq (by omega) (by omega), virtioRead16_eq (by omega) (by omega), addr]
  simp only [GuestMemMap.load]
  rw [slice_congr e]

/-- The stores of `virtio_consume_desc`. -/
lemma publishUsed_eq :
    publishUsed m qs d len =
      ((m.store (qs.usedAddr.toNat + 4 + 8 * usedCell m qs) (leBytes 4 (UInt32.ofNat d).toNat)).store
        (qs.usedAddr.toNat + 8 + 8 * usedCell m qs) (leBytes 4 (UInt32.ofInt len).toNat)).store
        (qs.usedAddr.toNat + 2) (leBytes 2 (usedIdx m qs + 1).toNat) := by
  have hm := m.size_lt
  have hu := inside.cell_le
  have al := inside.1
  have ring := inside.ringAddr
  have idx := inside.indexAddr
  have ring4 : (usedRingAddr qs (usedIdx m qs) + 4).toNat = qs.usedAddr.toNat + 8 + 8 * usedCell m qs := by
    rw [show (4 : UInt64) = .ofNat 4 from rfl, toNat_add_ofNat (by omega), ring]
    omega
  change virtioWrite16 (virtioWrite32 (virtioWrite32 m (usedRingAddr qs (usedIdx m qs)) _)
    (usedRingAddr qs (usedIdx m qs) + 4) _) (qs.usedAddr + 2) (usedIdx m qs + 1) = _
  rw [virtioWrite16_eq (by omega) (by simp; omega), virtioWrite32_eq (by omega) (by simp; omega),
    virtioWrite32_eq (by omega) (by omega), ring, ring4, idx]

/-- Publishing an entry changes the index and the cell only. -/
lemma publishUsed_frame :
    Set.EqOn (publishUsed m qs d len).hostMem m.hostMem
      (Set.Ico qs.usedAddr.toNat (qs.usedAddr.toNat + 12 + 8 * usedCell m qs))ᶜ := by
  intro i hi
  simp only [Set.mem_compl_iff, Set.mem_Ico, not_and, not_lt] at hi
  rw [inside.publishUsed_eq]
  simp only [GuestMemMap.store]
  rw [eqOn_splice, eqOn_splice, eqOn_splice] <;>
  · simp only [Set.mem_compl_iff, Set.mem_Ico, leBytes_length]
    omega

/-- Publishing an entry moves the index on. -/
lemma usedIdx_publishUsed : usedIdx (publishUsed m qs d len) qs = usedIdx m qs + 1 := by
  have hu := inside.cell_le
  have al := inside.1
  have idx := inside.indexAddr
  nth_rewrite 1 [usedIdx]
  rw [virtioRead16_eq (by omega) (by simp; omega), inside.publishUsed_eq, idx]
  simp only [GuestMemMap.load, GuestMemMap.store]
  rw [slice_splice_of_length leBytes_length, ofNat_leBytes]

/-- The entry is in the cell of the index. -/
lemma usedId_publishUsed (hd : d < 2 ^ 32) : usedId (publishUsed m qs d len) qs (usedCell m qs) = d := by
  rw [usedId, inside.publishUsed_eq]
  simp only [GuestMemMap.load, GuestMemMap.store]
  rw [slice_splice_disjoint (by simp only [leBytes_length]; omega),
    slice_splice_disjoint (by simp only [leBytes_length]; omega), slice_splice_of_length leBytes_length,
    leNat_leBytes, UInt32.toNat_ofNat']
  omega

/-- The length of the entry that is published can be read. -/
lemma usedLen_publishUsed : usedLen (publishUsed m qs d len) qs (usedCell m qs) = (UInt32.ofInt len).toNat := by
  have lt := (UInt32.ofInt len).toNat_lt
  rw [usedLen, inside.publishUsed_eq]
  simp only [GuestMemMap.load, GuestMemMap.store]
  rw [slice_splice_disjoint (by simp only [leBytes_length]; omega), slice_splice_of_length leBytes_length, leNat_leBytes]
  omega

/-- The other entries stay. -/
lemma usedId_publishUsed_other (ne : k ≠ usedCell m qs) : usedId (publishUsed m qs d len) qs k = usedId m qs k := by
  rw [usedId, inside.publishUsed_eq]
  simp only [GuestMemMap.load, GuestMemMap.store]
  rw [slice_splice_disjoint (by simp only [leBytes_length]; omega),
    slice_splice_disjoint (by simp only [leBytes_length]; omega),
    slice_splice_disjoint (by simp only [leBytes_length]; omega)]
  rfl

/-- The lengths of the other entries stay. -/
lemma usedLen_publishUsed_other (ne : k ≠ usedCell m qs) :
    usedLen (publishUsed m qs d len) qs k = usedLen m qs k := by
  rw [usedLen, inside.publishUsed_eq]
  simp only [GuestMemMap.load, GuestMemMap.store]
  rw [slice_splice_disjoint (by simp only [leBytes_length]; omega),
    slice_splice_disjoint (by simp only [leBytes_length]; omega),
    slice_splice_disjoint (by simp only [leBytes_length]; omega)]
  rfl

end UsedInside

/-- An entry has been published: it is in the cell of the index, and the index has moved on by one. -/
structure Published (m m' : GuestMemMap) (qs : QueueState) (head len : Nat) : Prop where
  index : usedIdx m' qs = usedIdx m qs + 1
  id : usedId m' qs (usedCell m qs) = head
  len : usedLen m' qs (usedCell m qs) = len

/-- An entry that lies in guest memory is published there. -/
lemma UsedInside.published (inside : UsedInside m qs) (hd : d < 2 ^ 32) (hn : n < 2 ^ 32) :
    Published m (publishUsed m qs d n) qs d n where
  index := inside.usedIdx_publishUsed
  id := inside.usedId_publishUsed hd
  len := by
    have low : UInt32.ofInt (n : Int) = .ofNat ((n : Int) % 2 ^ 32).toNat := rfl
    rw [inside.usedLen_publishUsed, low, UInt32.toNat_ofNat']
    omega

/-- Where an entry goes depends on the index before. -/
lemma Published.congr {m₁ : GuestMemMap} (h : Published m₁ m' qs a n) (e : usedIdx m₁ qs = usedIdx m qs) :
    Published m m' qs a n := by
  have cell : Virtio.usedCell m₁ qs = Virtio.usedCell m qs := by rw [Virtio.usedCell, e, Virtio.usedCell]
  exact ⟨by rw [h.index, e], by rw [← cell, h.id], by rw [← cell, h.len]⟩

/-- The heads that were published in the used ring from one moment to another, as a reader of guest memory finds them: one
for each step of the index, in the cells from the old index on. -/
def newEntries (m m' : GuestMemMap) (qs : QueueState) : List Nat :=
  (List.range (usedIdx m' qs - usedIdx m qs).toNat).map fun i =>
    usedId m' qs ((usedIdx m qs + .ofNat i).toUInt32 &&& (qs.num - 1)).toNat

/-- Nothing is published while guest memory stays as it is. -/
@[simp]
lemma newEntries_self : newEntries m m qs = [] := by
  simp [newEntries]

/-- One entry is found, also if something else has been stored before it was published, unless that was over the index. -/
lemma UsedInside.newEntries {m₁ : GuestMemMap} {len : Int} (inside : UsedInside m₁ qs) (hd : d < 2 ^ 32)
    (e : usedIdx m₁ qs = usedIdx m qs) : newEntries m (publishUsed m₁ qs d len) qs = [d] := by
  have one : (usedIdx (publishUsed m₁ qs d len) qs - usedIdx m qs).toNat = 1 := by
    rw [inside.usedIdx_publishUsed, e, UInt16.add_comm, UInt16.add_sub_cancel]
    rfl
  have first : usedIdx m qs + .ofNat 0 = usedIdx m₁ qs := by rw [e]; exact UInt16.add_zero _
  rw [Virtio.newEntries, one, List.range_one, List.map_singleton, first]
  exact congrArg (fun x => [x]) (inside.usedId_publishUsed hd)

/-- The cell of the next used entry, in a ring of a power of two. -/
lemma RingOk.usedCell (ok : RingOk m.size qs) : usedCell m qs = (usedIdx m qs).toNat % qs.num.toNat :=
  mask_eq_mod _ ok.isPowerOfTwo

/-- The entry of a queue whose rings are well laid out reaches the used ring. -/
lemma RingOk.usedInside (ok : RingOk m.size qs) : UsedInside m qs := by
  have lt := Nat.mod_lt (usedIdx m qs).toNat ok.num_pos
  have cell : ((virtioRead16 m (qs.usedAddr + 2)).toUInt32 &&& (qs.num - 1)).toNat = _ := ok.usedCell
  refine ⟨ok.usedAligned, le_trans ?_ ok.used⟩
  omega

/-- The bytes of the next entry belong to the used ring. -/
lemma RingOk.usedTouched_subset (ok : RingOk m.size qs) {p : Nat} (h : p ∈ usedTouched m qs) : p ∈ usedSpan qs := by
  have hm := m.size_lt
  have hu := ok.used
  have lt := Nat.mod_lt (virtioRead16 m (qs.usedAddr + 2)).toNat ok.num_pos
  have ring : (usedRingAddr qs (virtioRead16 m (qs.usedAddr + 2))).toNat = _ := usedRingAddr_toNat ok
  have ring4 : (usedRingAddr qs (virtioRead16 m (qs.usedAddr + 2)) + 4).toNat =
      (usedRingAddr qs (virtioRead16 m (qs.usedAddr + 2))).toNat + 4 := by
    rw [show (4 : UInt64) = .ofNat 4 from rfl, toNat_add_ofNat (by omega)]
  have idx := usedIdxAddr_toNat ok
  simp only [usedTouched, List.mem_append] at h
  simp only [usedSpan, Set.mem_Ico]
  rcases h with (h | h) | h
  all_goals
    have h := mem_alignedTouched h
    omega

/-- The used index depends on the used ring only. -/
lemma usedIdx_congr (ok : RingOk m.size qs) (size : m'.size = m.size)
    (e : Set.EqOn m'.hostMem m.hostMem (usedSpan qs)) : usedIdx m' qs = usedIdx m qs :=
  ok.usedInside.usedIdx_congr size (e.mono (Set.Ico_subset_Ico (by omega) (by omega)))

/-- Publishing an entry leaves everything outside the used ring alone. -/
lemma publishUsed_frame (ok : RingOk m.size qs) :
    Set.EqOn (publishUsed m qs d len).hostMem m.hostMem (usedSpan qs)ᶜ := by
  have lt := Nat.mod_lt (usedIdx m qs).toNat ok.num_pos
  refine ok.usedInside.publishUsed_frame.mono (Set.compl_subset_compl.mpr (Set.Ico_subset_Ico_right ?_))
  rw [ok.usedCell]
  omega

/-- The head of the entry that is published can be read. -/
lemma usedId_publishUsed_self (ok : RingOk m.size qs) (hd : d < 2 ^ 32) :
    usedId (publishUsed m qs d len) qs ((usedIdx m qs).toNat % qs.num.toNat) = d := by
  rw [← ok.usedCell, ok.usedInside.usedId_publishUsed hd]

/-- The heads of the other entries stay. -/
lemma usedId_publishUsed_other (ok : RingOk m.size qs) (ne : k ≠ (usedIdx m qs).toNat % qs.num.toNat) :
    usedId (publishUsed m qs d len) qs k = usedId m qs k :=
  ok.usedInside.usedId_publishUsed_other (ok.usedCell ▸ ne)

/-! ## The driver's store -/

/-- The guest memory after the driver moved the index of the available ring to `v`. -/
def publishAvail (m : GuestMemMap) (qs : QueueState) (v : UInt16) : GuestMemMap :=
  m.store (qs.availAddr.toNat + 2) (leBytes 2 v.toNat)

section Publish
variable {v : UInt16}

/-- A new index leaves the heads in the available ring alone. -/
lemma availSlot_publishAvail : availSlot (publishAvail m qs v) qs k = availSlot m qs k := by
  simp only [availSlot, publishAvail, GuestMemMap.load, GuestMemMap.store]
  rw [slice_splice_disjoint (by simp only [leBytes_length]; omega)]

variable (ok : RingOk m.size qs)
include ok

/-- The new available index can be read. -/
lemma availIdx_publishAvail : virtioRead16 (publishAvail m qs v) (qs.availAddr + 2) = v := by
  have ha := ok.avail
  have al := ok.availAligned
  have idx := availIdxAddr_toNat ok
  rw [virtioRead16_eq (by omega) (by simp only [publishAvail, GuestMemMap.store_size]; omega), idx]
  simp only [publishAvail, GuestMemMap.load, GuestMemMap.store]
  rw [slice_splice_of_length leBytes_length, ofNat_leBytes]

/-- The driver's store leaves everything outside the available ring alone. -/
lemma publishAvail_frame :
    Set.EqOn (publishAvail m qs v).hostMem m.hostMem (availSpan qs)ᶜ := by
  have pos := ok.num_pos
  refine eqOn_splice.mono (Set.compl_subset_compl.mpr (Set.Ico_subset_Ico (by omega) ?_))
  rw [leBytes_length]
  omega

/-- A new available index leaves the used ring alone. -/
lemma publishAvail_eqOn_used : Set.EqOn (publishAvail m qs v).hostMem m.hostMem (usedSpan qs) := by
  have apart : Apart qs.usedAddr.toNat _ qs.availAddr.toNat _ := ok.availUsed.symm
  exact (publishAvail_frame ok).mono apart.subset_compl

/-- A new available index leaves the chains alone. -/
lemma chain_publishAvail {head : Nat} : chain (publishAvail m qs v) qs head = chain m qs head :=
  chain_congr ok.table rfl ((publishAvail_frame ok).mono ok.descAvail.subset_compl)

end Publish

end Mvvmm.Virtio
