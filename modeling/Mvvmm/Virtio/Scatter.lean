import Mvvmm.Virtio.Gather

/-!
# The bytes of a chain

If the buffers of a chain lie in guest memory, the copier moves a slice of their concatenation (`gather`): a copy from
the chain returns the slice (`copyParts_from`), and a copy to the chain replaces it (`copyParts_to`, `scatterAt`), one
byte of the chain for one byte of the buffer, if no two of the bytes share an address (`scatterAt_bytes`,
`gather_scatterAt`). `memcpyQueue_slice` puts this together for the chains on which the copier gets to every descriptor.
-/

namespace Mvvmm.Virtio
open Bytes CMem

variable {m m' : GuestMemMap} {qs : QueueState} {buf : Obj} {d : VirtioDesc} {l R W : List VirtioDesc}
  {off pos count k : Nat} {addr : UInt64} {bs : List UInt8}

/-- The bytes of some descriptors, one after the other. -/
def gather (m : GuestMemMap) (l : List VirtioDesc) : List UInt8 :=
  l.flatMap fun d => m.load d.addr.toNat d.len.toNat

/-- The bytes of the first descriptor come first. -/
@[simp]
lemma gather_cons : gather m (d :: l) = m.load d.addr.toNat d.len.toNat ++ gather m l := by
  simp [gather]

/-- The number of the bytes of some descriptors. -/
@[simp]
lemma gather_length : (gather m l).length = total l := by
  simp [gather, total]

/-- Descriptors hold the same in memories that agree on their buffers. -/
lemma gather_congr {m' : GuestMemMap}
    (e : ∀ d ∈ l, Set.EqOn m'.hostMem m.hostMem (Set.Ico d.addr.toNat (d.addr.toNat + d.len.toNat))) :
    gather m' l = gather m l := by
  induction l with
  | nil => rfl
  | cons d l ih =>
    rw [gather_cons, gather_cons, ih (fun d' hd' => e d' (List.mem_cons_of_mem d hd'))]
    simp only [GuestMemMap.load, slice_congr (e d List.mem_cons_self)]

/-- The guest memory after bytes were stored from an offset of some descriptors on. -/
def scatterAt (m : GuestMemMap) : List VirtioDesc → Nat → List UInt8 → GuestMemMap
  | [], _, _ => m
  | d :: l, off, bs =>
    if d.len.toNat ≤ off then
      scatterAt m l (off - d.len.toNat) bs
    else
      scatterAt (m.store (d.addr + .ofNat off).toNat (bs.take (d.len.toNat - off))) l 0 (bs.drop (d.len.toNat - off))

/-- The buffers of the descriptors lie in guest memory. -/
def BufInside (m : GuestMemMap) (l : List VirtioDesc) : Prop :=
  ∀ d ∈ l, bufSpan d ⊆ Set.Iio m.size

/-- The buffers of two descriptors share no byte. -/
def BufApart (d e : VirtioDesc) : Prop :=
  Disjoint (bufSpan d) (bufSpan e)

/-- Some bytes of the descriptors lie in guest memory. -/
def BytesInside (m : GuestMemMap) (l : List VirtioDesc) (off count : Nat) : Prop :=
  ∀ i < count, (byteAddr l (off + i)).toNat < m.size

/-- A byte of a buffer in guest memory. -/
lemma mem_bufSpan {p : Nat} (inside : bufSpan d ⊆ Set.Iio m.size) :
    p ∈ bufSpan d ↔ d.addr.toNat ≤ p ∧ p < d.addr.toNat + d.len.toNat := by
  apply mem_guestSpan
  have hm := m.size_lt
  have ha := d.addr.toNat_lt
  rcases Nat.eq_zero_or_pos d.len.toNat with zero | pos
  · omega
  · have le := (guestSpan_inside pos).mp inside
    omega

/-- Buffers that end in guest memory. -/
lemma BufInside.of_le (h : ∀ d ∈ l, d.addr.toNat + d.len.toNat ≤ m.size) : BufInside m l := by
  intro d hd
  rcases Nat.eq_zero_or_pos d.len.toNat with zero | pos
  · rintro p ⟨i, hi, -⟩
    omega
  · exact (guestSpan_inside pos).mpr (h d hd)

/-- Two buffers share no byte if each starts behind the other one, where addresses wrap. -/
lemma bufApart_iff {e : VirtioDesc} :
    BufApart d e ↔ d.len.toNat = 0 ∨ e.len.toNat = 0 ∨
      d.len.toNat ≤ (e.addr - d.addr).toNat ∧ e.len.toNat ≤ (d.addr - e.addr).toNat := by
  have hd := d.addr.toNat_lt
  have he := e.addr.toNat_lt
  have lend := d.len.toNat_lt
  have lene := e.len.toNat_lt
  rw [BufApart, Set.disjoint_left, UInt64.toNat_sub, UInt64.toNat_sub]
  constructor
  · intro apart
    by_contra near
    -- one of the two starts inside the other one
    by_cases first : (2 ^ 64 - d.addr.toNat + e.addr.toNat) % 2 ^ 64 < d.len.toNat
    · refine apart ⟨_, first, rfl⟩ ⟨0, by omega, ?_⟩
      rw [UInt64.toNat_add, UInt64.toNat_add, UInt64.toNat_ofNat', UInt64.toNat_ofNat']
      omega
    · refine apart ⟨0, by omega, rfl⟩ ⟨(2 ^ 64 - e.addr.toNat + d.addr.toNat) % 2 ^ 64, by omega, ?_⟩
      rw [UInt64.toNat_add, UInt64.toNat_add, UInt64.toNat_ofNat', UInt64.toNat_ofNat']
      omega
  · rintro far p ⟨i, hi, rfl⟩ ⟨j, hj, same⟩
    rw [UInt64.toNat_add, UInt64.toNat_add, UInt64.toNat_ofNat', UInt64.toNat_ofNat'] at same
    omega

instance (d e : VirtioDesc) : Decidable (BufApart d e) :=
  decidable_of_iff' _ bufApart_iff

/-! ## Addresses of bytes -/

/-- A byte of the first descriptor. -/
lemma byteAddr_within (h : off < d.len.toNat) : byteAddr (d :: l) off = d.addr + .ofNat off :=
  if_pos h

/-- A byte behind the first descriptor. -/
lemma byteAddr_across : byteAddr (d :: l) (d.len.toNat + off) = byteAddr l off := by
  rw [byteAddr, if_neg (by omega), Nat.add_sub_cancel_left]

/-- Every byte belongs to the buffer of a descriptor. -/
lemma byteAddr_mem (h : off < total l) : ∃ d ∈ l, (byteAddr l off).toNat ∈ bufSpan d := by
  induction l generalizing off with
  | nil => simp at h
  | cons d l ih =>
    rw [total_cons] at h
    by_cases first : off < d.len.toNat
    · exact ⟨d, by simp, off, first, by rw [byteAddr_within first]⟩
    · obtain ⟨k, rfl⟩ : ∃ k, off = d.len.toNat + k := ⟨off - d.len.toNat, by omega⟩
      obtain ⟨e, he, mem⟩ := ih (show k < total l by omega)
      exact ⟨e, by simp [he], by rwa [byteAddr_across]⟩

/-- A position outside the buffers is not that of a byte. -/
lemma byteAddr_ne {p : Nat} (h : off < total l) (out : ∀ d ∈ l, p ∉ bufSpan d) : p ≠ (byteAddr l off).toNat := by
  rintro rfl
  obtain ⟨d, hd, mem⟩ := byteAddr_mem h
  exact out d hd mem

/-- The bytes of buffers that share none have different addresses. -/
lemma byteAddr_injOn (apart : l.Pairwise BufApart) : Set.InjOn (byteAddr l) (Set.Iio (total l)) := by
  induction l with
  | nil => simp
  | cons d l ih =>
    obtain ⟨first, others⟩ := List.pairwise_cons.mp apart
    -- a byte of the first buffer is not one of the others
    have cross : ∀ i k, i < d.len.toNat → k < total l → byteAddr (d :: l) i ≠ byteAddr l k := by
      intro i k hi hk same
      obtain ⟨e, he, mem⟩ := byteAddr_mem hk
      rw [← same, byteAddr_within hi] at mem
      exact Set.disjoint_left.mp (first e he) ⟨i, hi, rfl⟩ mem
    intro i hi j hj same
    rw [Set.mem_Iio, total_cons] at hi hj
    by_cases hid : i < d.len.toNat <;> by_cases hjd : j < d.len.toNat
    · rw [byteAddr_within hid, byteAddr_within hjd] at same
      have same := congrArg UInt64.toNat same
      have len := d.len.toNat_lt
      have addr := d.addr.toNat_lt
      rw [UInt64.toNat_add, UInt64.toNat_add, UInt64.toNat_ofNat', UInt64.toNat_ofNat'] at same
      omega
    · obtain ⟨k, rfl⟩ : ∃ k, j = d.len.toNat + k := ⟨j - d.len.toNat, by omega⟩
      rw [byteAddr_across] at same
      exact (cross i k hid (by omega) same).elim
    · obtain ⟨k, rfl⟩ : ∃ k, i = d.len.toNat + k := ⟨i - d.len.toNat, by omega⟩
      rw [byteAddr_across] at same
      exact (cross j k hjd (by omega) same.symm).elim
    · obtain ⟨k, rfl⟩ : ∃ k, i = d.len.toNat + k := ⟨i - d.len.toNat, by omega⟩
      obtain ⟨k', rfl⟩ : ∃ k', j = d.len.toNat + k' := ⟨j - d.len.toNat, by omega⟩
      rw [byteAddr_across, byteAddr_across] at same
      rw [ih others (Set.mem_Iio.mpr (by omega)) (Set.mem_Iio.mpr (by omega)) same]

/-- The bytes behind the first descriptor have different addresses, too. -/
lemma injOn_rest {n a c : Nat} (inj : Set.InjOn (byteAddr (d :: l)) (Set.Ico off (off + n)))
    (h : off ≤ d.len.toNat + a) (h' : d.len.toNat + (a + c) ≤ off + n) :
    Set.InjOn (byteAddr l) (Set.Ico a (a + c)) := by
  intro i hi j hj same
  rw [Set.mem_Ico] at hi hj
  have same : byteAddr (d :: l) (d.len.toNat + i) = byteAddr (d :: l) (d.len.toNat + j) := by
    rw [byteAddr_across, byteAddr_across, same]
  have eq := inj ⟨by omega, by omega⟩ ⟨by omega, by omega⟩ same
  omega

/-- The bytes of buffers in guest memory. -/
lemma BufInside.bytes (inside : BufInside m l) (h : off + count ≤ total l) : BytesInside m l off count := by
  intro i hi
  obtain ⟨d, hd, mem⟩ := byteAddr_mem (show off + i < total l by omega)
  exact inside d hd mem

/-- The bytes behind the first descriptor. -/
lemma BytesInside.rest {j c : Nat} (inside : BytesInside m (d :: l) off count) (h : d.len.toNat ≤ off + j)
    (hc : c ≤ count - j) : BytesInside m l (off + j - d.len.toNat) c := by
  intro i hi
  have lt := inside (j + i) (by omega)
  rwa [show off + (j + i) = d.len.toNat + (off + j - d.len.toNat + i) from by omega, byteAddr_across] at lt

/-- The bytes in the first descriptor. -/
lemma BytesInside.piece (inside : BytesInside m (d :: l) off count) (h0 : 0 < k) (hk : k ≤ count)
    (h : off + k ≤ d.len.toNat) : (d.addr + .ofNat off).toNat + k ≤ m.size := by
  refine (guestSpan_inside h0).mp ?_
  rintro p ⟨i, hi, rfl⟩
  have lt := inside i (by omega)
  rwa [byteAddr_within (by omega), ← add_ofNat_ofNat] at lt

/-- The position of a byte of the first descriptor. -/
lemma BytesInside.byteAddr_toNat {j : Nat} (inside : BytesInside m (d :: l) off count) (hj : j < count)
    (h : off + j < d.len.toNat) : (byteAddr (d :: l) (off + j)).toNat = (d.addr + .ofNat off).toNat + j := by
  have hm := m.size_lt
  have le := inside.piece (Nat.succ_pos j) (Nat.succ_le_of_lt hj) (by omega)
  rw [byteAddr_within h, ← add_ofNat_ofNat, toNat_add_ofNat (by omega)]

/-- The bytes of the descriptors, one by one. -/
lemma gather_getElem? {i n : Nat} (inside : BytesInside m l 0 n) (hn : n ≤ total l) (hi : i < n) :
    (gather m l)[i]? = some (m.hostMem (byteAddr l i).toNat) := by
  induction l generalizing n i with
  | nil =>
    rw [total_nil] at hn
    omega
  | cons d l ih =>
    rw [total_cons] at hn
    rw [gather_cons]
    by_cases first : i < d.len.toNat
    · have addr := inside.byteAddr_toNat hi (by omega)
      rw [Nat.zero_add, show (d.addr + .ofNat 0).toNat = d.addr.toNat from by simp] at addr
      rw [List.getElem?_append_left (by simpa using first), GuestMemMap.load, slice_getElem?, if_pos first, addr]
    · obtain ⟨k, rfl⟩ : ∃ k, i = d.len.toNat + k := ⟨i - d.len.toNat, by omega⟩
      have rest : BytesInside m l 0 (n - d.len.toNat) := by
        have rest := inside.rest (j := d.len.toNat) (by omega) (le_refl (n - d.len.toNat))
        rwa [Nat.zero_add, Nat.sub_self] at rest
      rw [List.getElem?_append_right (by simp), GuestMemMap.load_length, Nat.add_sub_cancel_left, byteAddr_across,
        ih rest (by omega) (by omega)]

/-! ## Copying from a chain -/

/-- A segment from guest memory to the buffer. -/
lemma copyStep_from (hb : pos + k ≤ buf.size) (inside : addr.toNat + k ≤ m.size) :
    copyStep m buf false addr pos k =
      .ok (m, { buf with bytes := splice buf.bytes pos (m.load addr.toNat k) }) := by
  simp only [copyStep, Bool.false_eq_true, if_false]
  rw [virtioMemcpyFromGuest_flat (by omega) (by omega) (by omega) (by omega) (by omega)]
  rfl

/-- A piece inside the first descriptor. -/
lemma gather_part_inside (h : off + count ≤ d.len.toNat) :
    ((gather m (d :: l)).drop off).take count = m.load (d.addr.toNat + off) count := by
  rw [gather_cons, List.drop_append_of_le_length (by simp; omega),
    List.take_append_of_le_length (by simp; omega)]
  simp only [GuestMemMap.load, slice_drop, slice_take]
  rw [show min count (d.len.toNat - off) = count from by omega]

/-- A piece that begins in the first descriptor and passes its end. -/
lemma gather_part_across (hoff : off ≤ d.len.toNat) (h : d.len.toNat ≤ off + count) :
    ((gather m (d :: l)).drop off).take count =
      m.load (d.addr.toNat + off) (d.len.toNat - off) ++ (gather m l).take (off + count - d.len.toNat) := by
  rw [gather_cons, List.drop_append_of_le_length (by simp; omega), List.take_append]
  simp only [GuestMemMap.load, slice_drop, slice_take, slice_length]
  rw [show min count (d.len.toNat - off) = d.len.toNat - off from by omega,
    show count - (d.len.toNat - off) = off + count - d.len.toNat from by omega]

/-- The address of a byte of a buffer in guest memory. -/
lemma addr_add (inside : bufSpan d ⊆ Set.Iio m.size) (h : off < d.len.toNat) :
    (d.addr + .ofNat off).toNat = d.addr.toNat + off ∧ d.addr.toNat + d.len.toNat ≤ m.size := by
  have hm := m.size_lt
  have le := (guestSpan_inside (show 0 < d.len.toNat by omega)).mp inside
  exact ⟨toNat_add_ofNat (by omega), le⟩

/-- The pieces copied from the descriptors are a slice of their bytes. -/
lemma copyParts_from (inside : BufInside m l) (h0 : 0 < count) (hc : off + count ≤ total l)
    (hb : pos + count ≤ buf.size) :
    copyParts false (m, buf) (parts l off pos count) =
      .ok (m, { buf with bytes := splice buf.bytes pos (((gather m l).drop off).take count) }) := by
  induction l generalizing off pos count buf with
  | nil =>
    rw [total_nil] at hc
    omega
  | cons d l ih =>
    have rest : BufInside m l := fun d hd => inside d (by simp [hd])
    rw [total_cons] at hc
    by_cases skip : d.len.toNat ≤ off
    · rw [parts, if_pos skip, ih rest h0 (by omega) hb, gather_cons, List.drop_append,
        List.drop_of_length_le (show (m.load d.addr.toNat d.len.toNat).length ≤ off by simpa using skip)]
      simp
    · obtain ⟨ha, le⟩ := addr_add (inside d (by simp)) (Nat.lt_of_not_le skip)
      by_cases fits : off + count ≤ d.len.toNat
      · rw [copyParts_within h0 fits, copyStep_from hb (by omega), ha, gather_part_inside fits]
      · rw [copyParts_across (by omega) (by omega), copyStep_from (by omega) (by omega), ok_bind,
          ih rest (by omega) (by omega) (by simp only; omega), gather_part_across (by omega) (by omega), ha]
        simp only [List.drop_zero]
        rw [← splice_append, GuestMemMap.load_length,
          show count - (d.len.toNat - off) = off + count - d.len.toNat from by omega]

/-! ## Copying to a chain -/

/-- A segment from the buffer to guest memory. -/
lemma copyStep_to (hb : pos + k ≤ buf.size) (inside : addr.toNat + k ≤ m.size) :
    copyStep m buf true addr pos k = .ok (m.store addr.toNat (slice buf.bytes pos k), buf) := by
  simp only [copyStep, if_true]
  rw [virtioMemcpyToGuest_flat (by omega) (by omega) (by omega) (by omega) (by omega)]
  rfl

/-- Nothing is stored for no bytes. -/
lemma scatterAt_nil : scatterAt m l off [] = m := by
  induction l generalizing m off with
  | nil => rfl
  | cons d l ih =>
    rw [scatterAt]
    split
    · exact ih
    · simpa using ih

/-- Stored bytes keep the size of the memory. -/
@[simp]
lemma scatterAt_size : (scatterAt m l off bs).size = m.size := by
  induction l generalizing m off bs with
  | nil => rfl
  | cons d l ih =>
    rw [scatterAt]
    split
    · exact ih
    · exact ih

/-- The pieces copied to the descriptors are stored there. -/
lemma copyParts_to (inside : BytesInside m l off count) (h0 : 0 < count) (hc : off + count ≤ total l)
    (hb : pos + count ≤ buf.size) :
    copyParts true (m, buf) (parts l off pos count) = .ok (scatterAt m l off (slice buf.bytes pos count), buf) := by
  induction l generalizing m off pos count with
  | nil =>
    rw [total_nil] at hc
    omega
  | cons d l ih =>
    rw [total_cons] at hc
    by_cases skip : d.len.toNat ≤ off
    · have rest : BytesInside m l (off - d.len.toNat) count := inside.rest (j := 0) skip le_rfl
      rw [parts, if_pos skip, ih rest h0 (by omega) hb, scatterAt, if_pos skip]
    · rw [scatterAt, if_neg skip, slice_take, slice_drop]
      by_cases fits : off + count ≤ d.len.toNat
      · rw [copyParts_within h0 fits, copyStep_to hb (inside.piece h0 le_rfl fits),
          show min (d.len.toNat - off) count = count from by omega,
          show count - (d.len.toNat - off) = 0 from by omega, slice, scatterAt_nil]
      · have rest : BytesInside m l 0 (count - (d.len.toNat - off)) := by
          have rest := inside.rest (j := d.len.toNat - off) (by omega) le_rfl
          rwa [show off + (d.len.toNat - off) - d.len.toNat = 0 from by omega] at rest
        rw [copyParts_across (by omega) (by omega), copyStep_to (by omega) (inside.piece (by omega) (by omega) (by omega)),
          ok_bind, ih (m := m.store _ _) rest (by omega) (by omega) (by omega),
          show min (d.len.toNat - off) count = d.len.toNat - off from by omega]

/-- Stores into descriptors change nothing but the bytes stored. -/
lemma scatterAt_frame {p : Nat} (inside : BytesInside m l off bs.length)
    (h : ∀ i < bs.length, p ≠ (byteAddr l (off + i)).toNat) : (scatterAt m l off bs).hostMem p = m.hostMem p := by
  induction l generalizing m off bs with
  | nil => rfl
  | cons d l ih =>
    rw [scatterAt]
    split
    · rename_i skip
      refine ih (inside.rest (j := 0) skip le_rfl) fun i hi => ?_
      have ne := h i hi
      rwa [show off + i = d.len.toNat + (off - d.len.toNat + i) from by omega, byteAddr_across] at ne
    · rename_i skip
      have rest : BytesInside m l 0 (bs.drop (d.len.toNat - off)).length := by
        have rest := inside.rest (j := d.len.toNat - off) (by omega) (List.length_drop ..).le
        rwa [show off + (d.len.toNat - off) - d.len.toNat = 0 from by omega] at rest
      rw [ih (m := m.store _ _) rest]
      · apply eqOn_splice
        rintro ⟨h1, h2⟩
        obtain ⟨j, rfl⟩ : ∃ j, p = (d.addr + .ofNat off).toNat + j := ⟨p - (d.addr + .ofNat off).toNat, by omega⟩
        rw [List.length_take] at h2
        exact h j (by omega) (inside.byteAddr_toNat (by omega) (by omega)).symm
      · intro i hi
        rw [List.length_drop] at hi
        have ne := h (d.len.toNat - off + i) (by omega)
        rwa [show off + (d.len.toNat - off + i) = d.len.toNat + (0 + i) from by omega, byteAddr_across] at ne

/-- Stores into descriptors change nothing outside their buffers. -/
lemma scatterAt_outside {p : Nat} (inside : BufInside m l) (out : ∀ d ∈ l, p ∉ bufSpan d) :
    (scatterAt m l off bs).hostMem p = m.hostMem p := by
  induction l generalizing m off bs with
  | nil => rfl
  | cons d l ih =>
    have rest : BufInside m l := fun d hd => inside d (by simp [hd])
    rw [scatterAt]
    split
    · exact ih rest fun d hd => out d (by simp [hd])
    · rename_i skip
      obtain ⟨ha, -⟩ := addr_add (inside d (by simp)) (Nat.lt_of_not_le skip)
      rw [ih (m := m.store _ _) rest fun d hd => out d (by simp [hd])]
      apply eqOn_splice
      have out := (mem_bufSpan (inside d (by simp))).not.mp (out d (by simp))
      simp only [Set.mem_compl_iff, Set.mem_Ico, List.length_take, ha]
      omega

/-- Bytes stored at different addresses are there afterwards. -/
lemma scatterAt_bytes {i : Nat} (inside : BytesInside m l off bs.length) (h : off + bs.length ≤ total l)
    (inj : Set.InjOn (byteAddr l) (Set.Ico off (off + bs.length))) (hi : i < bs.length) :
    some ((scatterAt m l off bs).hostMem (byteAddr l (off + i)).toNat) = bs[i]? := by
  induction l generalizing m off bs i with
  | nil =>
    rw [total_nil] at h
    omega
  | cons d l ih =>
    rw [total_cons] at h
    rw [scatterAt]
    split
    · rename_i skip
      rw [show off + i = d.len.toNat + (off - d.len.toNat + i) from by omega, byteAddr_across]
      exact ih (inside.rest (j := 0) skip le_rfl) (by omega) (injOn_rest inj (by omega) (by omega)) hi
    · rename_i skip
      have len : (bs.drop (d.len.toNat - off)).length = bs.length - (d.len.toNat - off) := List.length_drop ..
      have rest : BytesInside m l 0 (bs.drop (d.len.toNat - off)).length := by
        have rest := inside.rest (j := d.len.toNat - off) (by omega) len.le
        rwa [show off + (d.len.toNat - off) - d.len.toNat = 0 from by omega] at rest
      by_cases first : i < d.len.toNat - off
      · -- the byte goes to the first descriptor, and what is stored behind it goes elsewhere
        rw [scatterAt_frame (m := m.store _ _) rest]
        · have addr := inside.byteAddr_toNat hi (by omega)
          rw [addr, GuestMemMap.store, splice_of_mem (by omega) (by rw [List.length_take]; omega),
            Nat.add_sub_cancel_left, List.getElem?_take_of_lt first]
        · intro j hj same
          have across : byteAddr (d :: l) (d.len.toNat + (0 + j)) = byteAddr l (0 + j) := byteAddr_across
          rw [← across] at same
          have eq := inj ⟨by omega, by omega⟩ ⟨by omega, by omega⟩ (UInt64.toNat_inj.mp same)
          omega
      · have byte := ih (m := m.store (d.addr + .ofNat off).toNat (bs.take (d.len.toNat - off))) rest (by omega)
          (injOn_rest inj (by omega) (by omega)) (show i - (d.len.toNat - off) < _ by omega)
        rw [List.getElem?_drop, show d.len.toNat - off + (i - (d.len.toNat - off)) = i from by omega] at byte
        rw [show off + i = d.len.toNat + (0 + (i - (d.len.toNat - off))) from by omega, byteAddr_across]
        exact byte

/-- Bytes stored in descriptors apart from each other replace a slice of their bytes. -/
lemma gather_scatterAt (inside : BufInside m l) (apart : l.Pairwise BufApart) (h : off + bs.length ≤ total l) :
    gather (scatterAt m l off bs) l = patch (gather m l) off bs := by
  have all : BytesInside m l 0 (total l) := inside.bytes (by omega)
  have all' : BytesInside (scatterAt m l off bs) l 0 (total l) := by
    intro i hi
    rw [scatterAt_size]
    exact all i hi
  have stored : BytesInside m l off bs.length := inside.bytes h
  have inj := byteAddr_injOn apart
  apply List.ext_getElem?
  intro i
  rw [patch_getElem? (by simpa using h)]
  by_cases hi : i < total l
  · rw [gather_getElem? all' le_rfl hi]
    split
    · rename_i mem
      have byte := scatterAt_bytes stored h (inj.mono fun j hj => Set.mem_Iio.mpr (hj.2.trans_le h))
        (show i - off < bs.length by omega)
      rwa [Nat.add_sub_cancel' mem.1] at byte
    · rename_i out
      rw [gather_getElem? all le_rfl hi, scatterAt_frame stored]
      intro j hj same
      have eq := inj hi (Set.mem_Iio.mpr (by omega)) (UInt64.toNat_inj.mp same)
      omega
  · rw [if_neg (by omega), List.getElem?_eq_none (by simpa using hi), List.getElem?_eq_none (by simpa using hi)]

/-- Two stores, the second one where the first one ends, are one. -/
lemma scatterAt_scatterAt {bs' : List UInt8} (inside : BytesInside m l off (bs ++ bs').length) :
    scatterAt (scatterAt m l off bs) l (off + bs.length) bs' = scatterAt m l off (bs ++ bs') := by
  induction l generalizing m off bs with
  | nil => rfl
  | cons d l ih =>
    rw [List.length_append] at inside
    by_cases skip : d.len.toNat ≤ off
    · simp only [scatterAt, if_pos skip, if_pos (show d.len.toNat ≤ off + bs.length by omega)]
      rw [show off + bs.length - d.len.toNat = off - d.len.toNat + bs.length from by omega]
      refine ih (inside.rest (j := 0) skip ?_)
      rw [List.length_append]
      rfl
    · by_cases across : d.len.toNat - off ≤ bs.length
      · -- the first store goes on behind this descriptor, and so the second one skips it
        simp only [scatterAt, if_neg skip, if_pos (show d.len.toNat ≤ off + bs.length by omega)]
        have rest : off + bs.length - d.len.toNat = 0 + (bs.drop (d.len.toNat - off)).length := by
          rw [List.length_drop]
          omega
        rw [List.take_append_of_le_length across, List.drop_append_of_le_length across, rest]
        refine ih (m := m.store _ _) ?_
        have inside := inside.rest (j := d.len.toNat - off) (by omega) (le_refl _)
        rwa [show off + (d.len.toNat - off) - d.len.toNat = 0 from by omega,
          show bs.length + bs'.length - (d.len.toNat - off) = (bs.drop (d.len.toNat - off) ++ bs').length from by
            rw [List.length_append, List.length_drop]
            omega] at inside
      · -- the first store ends in this descriptor
        simp only [scatterAt, if_neg skip, if_neg (show ¬ d.len.toNat ≤ off + bs.length by omega)]
        rw [List.take_of_length_le (show bs.length ≤ d.len.toNat - off by omega),
          List.drop_of_length_le (show bs.length ≤ d.len.toNat - off by omega), scatterAt_nil,
          List.take_append, List.drop_append, List.take_of_length_le (show bs.length ≤ d.len.toNat - off by omega),
          List.drop_of_length_le (show bs.length ≤ d.len.toNat - off by omega), List.nil_append,
          show d.len.toNat - (off + bs.length) = d.len.toNat - off - bs.length from by omega]
        congr 1
        rcases Nat.eq_zero_or_pos bs'.length with none | some
        · rw [List.length_eq_zero_iff.mp none]
          simp [GuestMemMap.store]
        · have pos := inside.piece (k := bs.length + 1) (by omega) (by omega) (by omega)
          have hm := m.size_lt
          have addr : (d.addr + .ofNat (off + bs.length)).toNat = (d.addr + .ofNat off).toNat + bs.length := by
            rw [← add_ofNat_ofNat, toNat_add_ofNat (by omega)]
          simp only [GuestMemMap.store, addr, splice_append]

/-- Bytes for the first descriptors are stored there. -/
lemma scatterAt_append {T : List VirtioDesc} (h : off + bs.length ≤ total l) :
    scatterAt m (l ++ T) off bs = scatterAt m l off bs := by
  induction l generalizing m off bs with
  | nil =>
    obtain rfl : bs = [] := List.length_eq_zero_iff.mp (by rw [total_nil] at h; omega)
    rw [scatterAt_nil, scatterAt_nil]
  | cons d l ih =>
    rw [total_cons] at h
    rw [List.cons_append, scatterAt, scatterAt]
    split
    · exact ih (by omega)
    · exact ih (by rw [List.length_drop]; omega)

/-- Bytes for all of the descriptors are read back from them. -/
lemma gather_scatterAt_all (inside : BufInside m l) (apart : l.Pairwise BufApart) (h : bs.length = total l) :
    gather (scatterAt m l 0 bs) l = bs := by
  rw [gather_scatterAt inside apart (by omega), patch_all (by simpa using h)]

/-! ## The copier -/

section Copier
variable {head : Nat}

/-- A copy from a chain whose readable buffers lie in guest memory returns a slice of their bytes. -/
lemma memcpyFromQueue_done (chain : IsChain m qs head l) (hs : total (runOf false l) < 2 ^ 31)
    (reach : Reaches false l off count) (h0 : 0 < count) (hb : count ≤ buf.size)
    (inside : BufInside m (runOf false l)) :
    memcpyFromQueue m buf qs head off count =
      .ok (0, { buf with bytes := splice buf.bytes 0 (((gather m (runOf false l)).drop off).take count) }) := by
  rw [memcpyFromQueue, memcpyToFromQueue_done chain hs reach h0 (by simp),
    copyParts_from inside h0 reach.bytes (by omega)]
  rfl

/-- A copy to a chain whose writable buffers lie in guest memory stores the bytes there. -/
lemma memcpyToQueue_done (chain : IsChain m qs head l) (hs : total (runOf true l) < 2 ^ 31)
    (reach : Reaches true l off count) (h0 : 0 < count) (hb : count ≤ buf.size)
    (inside : BufInside m (runOf true l)) (clear : ClearAhead qs (runOf true l) (afterRun true l)) :
    memcpyToQueue m qs head off buf count =
      .ok (0, scatterAt m (runOf true l) off (slice buf.bytes 0 count)) := by
  rw [memcpyToQueue, memcpyToFromQueue_done chain hs reach h0 (fun _ => clear),
    copyParts_to (inside.bytes reach.bytes) h0 reach.bytes (by omega)]
  rfl

/-- The copier gets to all bytes of a run that is not too long. -/
lemma near_of_length (len : l.length < loopMax) (h0 : 0 < count) (hc : off + count ≤ total l) : Near l off count where
  first := (descIndex_lt (by omega)).trans len
  last := by
    have lt : descIndex l (off + count - 1) < l.length := descIndex_lt (by omega)
    omega

/-- A copy from the readable part of a chain, possibly of no bytes. -/
lemma memcpyFromQueue_part (buf : Obj) (off count : Nat) (chain : IsChain m qs head (R ++ W))
    (hR : ∀ d ∈ R, d.isWrite = false) (hW : ∀ d ∈ W, d.isWrite = true) (len : R.length < loopMax) (bytes : total R < 2 ^ 31)
    (inside : BufInside m R) (hc : off + count ≤ total R) (hb : count ≤ buf.size) :
    memcpyFromQueue m buf qs head off count =
      .ok (0, { buf with bytes := splice buf.bytes 0 (((gather m R).drop off).take count) }) := by
  by_cases h0 : 0 < count
  · have run := (runOf_shape hR hW).1
    have reach : Reaches false (R ++ W) off count := (reaches_false_iff hR hW).mpr ⟨hc, near_of_length len h0 hc⟩
    rw [memcpyFromQueue_done chain (by rwa [run]) reach h0 hb (by rwa [run]), run]
  · obtain rfl : count = 0 := by omega
    simp [memcpyFromQueue, memcpyToFromQueue, pure, Except.pure, bind, Except.bind]

end Copier

/-- On a chain of at most 1024 descriptors, readable ones before writable ones, with less than `2 ^ 31` bytes and all
buffers in guest memory, a copy succeeds if and only if its bytes lie in the chain. A copy from the chain then returns
them; a copy to the chain replaces them, if the writable buffers are apart from each other and from the entries of the
chain, and changes no other byte. -/
theorem memcpyQueue_slice (m : GuestMemMap) (qs : QueueState) (head : Nat) (R W : List VirtioDesc) (buf : Obj)
    (offset count : Nat) (chain : IsChain m qs head (R ++ W)) (length : (R ++ W).length ≤ 1024)
    (readable : ∀ d ∈ R, d.isWrite = false) (writable : ∀ d ∈ W, d.isWrite = true) (bytes : total (R ++ W) < 2 ^ 31)
    (inside : BufInside m (R ++ W)) (apart : W.Pairwise BufApart) (clear : Clear qs (entries head (R ++ W)) W)
    (hoffset : offset < 2 ^ 31) (h0 : 0 < count) (hcount : count < 2 ^ 31) (hbuf : count ≤ buf.size) :
    (∃ ret buf', memcpyFromQueue m buf qs head offset count = .ok (ret, buf') ∧
      (ret = 0 ↔ offset + count ≤ total R) ∧
      (ret = 0 → slice buf'.bytes 0 count = ((gather m R).drop offset).take count)) ∧
    (∃ ret m', memcpyToQueue m qs head offset buf count = .ok (ret, m') ∧
      (ret = 0 ↔ offset + count ≤ total W) ∧
      (ret = 0 → gather m' W = patch (gather m W) offset (slice buf.bytes 0 count) ∧
        ∀ p, (∀ d ∈ W, p ∉ bufSpan d) → m'.hostMem p = m.hostMem p)) := by
  obtain ⟨runR, runW⟩ := runOf_shape readable writable
  have max : (R ++ W).length < loopMax := Nat.lt_succ_of_le length
  have ahead : ClearAhead qs (runOf true (R ++ W)) (afterRun true (R ++ W)) :=
    Clear.ahead (by rwa [runW]) (append_run true (R ++ W)).symm
  rw [total_append] at bytes
  constructor
  · by_cases fits : offset + count ≤ total R
    · have reach : Reaches false (R ++ W) offset count := (reaches_iff max h0).mpr (by rwa [runR])
      have done := memcpyFromQueue_done chain (by rw [runR]; omega) reach h0 hbuf
        (by rw [runR]; exact fun d hd => inside d (List.mem_append_left W hd))
      rw [runR] at done
      have len : (((gather m R).drop offset).take count).length = count := by
        simp
        omega
      exact ⟨0, _, done, by simp [fits], fun _ => slice_splice_of_length (f := buf.bytes) (a := 0) len⟩
    · have short : ¬ Reaches false (R ++ W) offset count := fun reach => fits (runR ▸ reach.bytes)
      obtain ⟨buf', e⟩ := memcpyFromQueue_short chain (by rw [runR]; omega) short hoffset h0 hcount hbuf
      exact ⟨-1, buf', e, by simp [fits], by simp⟩
  · by_cases fits : offset + count ≤ total W
    · have reach : Reaches true (R ++ W) offset count := (reaches_iff max h0).mpr (by rwa [runW])
      have insideW : BufInside m W := fun d hd => inside d (List.mem_append_right R hd)
      have done := memcpyToQueue_done chain (by rw [runW]; omega) reach h0 hbuf (by rwa [runW]) ahead
      rw [runW] at done
      have len : offset + (slice buf.bytes 0 count).length ≤ total W := by rwa [slice_length]
      refine ⟨0, _, done, by simp [fits], fun _ => ⟨gather_scatterAt insideW apart len, fun p hp => ?_⟩⟩
      exact scatterAt_frame (insideW.bytes len) fun i hi => byteAddr_ne (by omega) hp
    · have short : ¬ Reaches true (R ++ W) offset count := fun reach => fits (runW ▸ reach.bytes)
      obtain ⟨m', e⟩ := memcpyToQueue_short chain (by rw [runW]; omega) short hoffset h0 hcount hbuf ahead
      exact ⟨-1, m', e, by simp [fits], by simp⟩

/-- The two buffers lie in guest memory. -/
lemma bufInside_ten_six : BufInside (twoDescs tenBytes sixBytes) ([tenBytes] ++ [sixBytes]) := by
  intro d hd
  simp only [List.cons_append, List.nil_append, List.mem_cons, List.not_mem_nil, or_false] at hd
  rcases hd with rfl | rfl <;> exact (guestSpan_inside (by decide)).mpr (by decide)

/-- Four bytes from the middle of either part of a chain. -/
theorem memcpyQueue_slice_ten_six :
    (∃ ret buf', memcpyFromQueue (twoDescs tenBytes sixBytes) (Obj.zero 4) zeroQueue 0 (2 : Nat) (4 : Nat) =
      .ok (ret, buf') ∧ (ret = 0 ↔ 2 + 4 ≤ total [tenBytes]) ∧ (ret = 0 → slice buf'.bytes 0 4 =
        ((gather (twoDescs tenBytes sixBytes) [tenBytes]).drop 2).take 4)) ∧
    (∃ ret m', memcpyToQueue (twoDescs tenBytes sixBytes) zeroQueue 0 (2 : Nat) (Obj.zero 4) (4 : Nat) = .ok (ret, m') ∧
      (ret = 0 ↔ 2 + 4 ≤ total [sixBytes]) ∧ (ret = 0 → gather m' [sixBytes] =
        patch (gather (twoDescs tenBytes sixBytes) [sixBytes]) 2 (slice (Obj.zero 4).bytes 0 4) ∧
        ∀ p, (∀ d ∈ [sixBytes], p ∉ bufSpan d) → m'.hostMem p = (twoDescs tenBytes sixBytes).hostMem p)) :=
  memcpyQueue_slice _ _ 0 [tenBytes] [sixBytes] (Obj.zero 4) 2 4 isChain_ten_six (by decide)
    (by decide) (by decide) (by decide) bufInside_ten_six (by simp)
    (clear_ten_six.mono (fun _ hi => hi) (fun _ hd => List.mem_append_right _ hd))
    (by decide) (by decide) (by decide) (by decide)

end Mvvmm.Virtio
