import Mvvmm.Block.Device

/-!
# What the I/O of a request does to the disk

The two spec lemmas `blockIoWorkerFn_read` and `blockIoWorkerFn_write` say what `block_io_worker_fn` does
for a request with at least one byte. `AsyncIoReq.touched` is the part of the image it reads or writes.

No layer compares a request with the capacity, and `sector_num * SECTOR_SIZE` wraps at `2 ^ 64`.
`blockIoWorkerFn_bounded_iff` says which requests stay in bounds all the same.
-/

namespace Mvvmm.Block
open Bytes CMem Virtio

variable {d d' : Disk} {req req' : AsyncIoReq} {ret : Int}

/-- The bytes of the image that the I/O of a request reads or writes. -/
def AsyncIoReq.touched (d : Disk) (req : AsyncIoReq) : Set Nat :=
  if req.offset.toNat + req.count ≥ 2 ^ 63 then
    ∅
  else if req.isWrite then
    Set.Ico req.offset.toNat (req.offset.toNat + min req.count maxRwCount)
  else
    Set.Ico req.offset.toNat (req.offset.toNat + min (min req.count maxRwCount) (d.len - req.offset.toNat))

/-- A read fills the buffer as far as the call and the image go, and succeeds if this is all of it. -/
lemma blockIoWorkerFn_read (d : Disk) {req : AsyncIoReq} (hr : req.isWrite = false)
    (h0 : 0 < req.count) (hb : req.count ≤ req.buf.size) :
    blockIoWorkerFn d req =
      .ok (if req.offset.toNat + req.count < 2 ^ 63 ∧ req.count ≤ maxRwCount ∧
          req.offset.toNat + req.count ≤ d.len then 0 else -1, d,
        { req with
          buf := { req.buf with
            bytes := splice req.buf.bytes 0 (d.pread req.count req.offset).2 } }) := by
  have hl : (d.pread req.count req.offset).2.length ≤ req.count := by
    simp only [Disk.pread]
    split
    · simp
    · simp only [slice_length]
      omega
  have hs := Obj.store_ok (o := req.buf) (l := (d.pread req.count req.offset).2) le_rfl
    (by omega : (0 : Int) + (d.pread req.count req.offset).2.length ≤ req.buf.size)
  have hret : (if (d.pread req.count req.offset).1 < 0 then (-1 : Int)
      else if (d.pread req.count req.offset).1 ≠ req.count then -1 else 0) =
      if req.offset.toNat + req.count < 2 ^ 63 ∧ req.count ≤ maxRwCount ∧
        req.offset.toNat + req.count ≤ d.len then 0 else -1 := by
    simp only [Disk.pread]
    by_cases h : req.offset.toNat + req.count ≥ 2 ^ 63
    · rw [if_pos h, if_pos (by decide), if_neg (by omega)]
    · rw [if_neg h]
      simp only [Int.ofNat_eq_natCast]
      split
      · omega
      · split
        · rw [if_neg (by omega)]
        · rw [if_pos (by omega)]
  simp only [blockIoWorkerFn, hr]
  rw [if_neg (by decide), hs]
  simp only [ok_bind, pure_bind, hret, Int.toNat_zero]
  rfl

/-- A write fails if its range is no range of `off_t`s, and else overwrites the image as far as the call goes; it
succeeds if this is all of it. -/
lemma blockIoWorkerFn_write (d : Disk) {req : AsyncIoReq} (hw : req.isWrite = true)
    (h0 : 0 < req.count) (hb : req.count ≤ req.buf.size) :
    blockIoWorkerFn d req =
      .ok (if req.offset.toNat + req.count ≥ 2 ^ 63 then (-1, d, req)
        else (if req.count ≤ maxRwCount then 0 else -1,
          d.overwrite req.offset.toNat (slice req.buf.bytes 0 (min req.count maxRwCount)), req)) := by
  obtain ⟨offset, buf, count, isWrite, arg⟩ := req
  simp only at hw h0 hb ⊢
  subst hw
  have hload := Obj.load_ok (o := buf) (n := count) le_rfl
    (by omega : (0 : Int) + count ≤ buf.size)
  simp only [blockIoWorkerFn, if_true]
  rw [hload]
  simp only [ok_bind, pure_bind, Disk.pwrite, Int.toNat_zero, slice_length]
  rw [if_neg (by omega : ¬ count = 0)]
  by_cases h : offset.toNat + count ≥ 2 ^ 63
  · simp only [if_pos h, Int.reduceNeg, Int.reduceLT, if_true]
    rfl
  · have ret : (if ((min maxRwCount count : Nat) : Int) < 0 then (-1 : Int)
        else if ((min maxRwCount count : Nat) : Int) ≠ count then -1 else 0) =
        if count ≤ maxRwCount then 0 else -1 := by
      rw [if_neg (by omega)]
      split
      · rw [if_neg (by omega)]
      · rw [if_pos (by omega)]
    simp only [if_neg h, slice_take, slice_length, ret, Nat.min_comm count maxRwCount]
    rfl

/-! ## Which bytes of the image are touched -/

/-- The I/O of a request changes no byte of the image that it does not touch. -/
lemma blockIoWorkerFn_frame {i : Nat} (h0 : 0 < req.count) (hb : req.count ≤ req.buf.size)
    (h : blockIoWorkerFn d req = .ok (ret, d', req')) (hi : i ∉ req.touched d) :
    d'.bytes i = d.bytes i := by
  cases hw : req.isWrite with
  | false =>
    rw [blockIoWorkerFn_read d hw h0 hb] at h
    cases h
    rfl
  | true =>
    rw [blockIoWorkerFn_write d hw h0 hb] at h
    split at h
    · cases h
      rfl
    · rename_i hoff
      cases h
      simp only [AsyncIoReq.touched, hw, if_neg hoff, if_true] at hi
      exact eqOn_splice (by simpa using hi)

/-- What a request reads depends on the bytes it touches only. -/
lemma pread_congr {count : Nat} {offset : UInt64} {arg : BlockRequest} {buf : Obj}
    (e : d.len = d'.len)
    (h : Set.EqOn d.bytes d'.bytes (AsyncIoReq.touched d ⟨offset, buf, count, false, arg⟩)) :
    d.pread count offset = d'.pread count offset := by
  simp only [Disk.pread, ← e]
  split
  · rfl
  · rename_i hoff
    simp only [AsyncIoReq.touched, if_neg hoff] at h
    rw [slice_congr h]

/-- The bytes of a number of sectors, as long as they are an `int`. -/
lemma ioCount_eq {n : Nat} (h : n * sectorSize < 2 ^ 31) : ioCount n = n * sectorSize := by
  have e : i32 (n * sectorSize) = n * sectorSize := i32_of_range (by omega) (by omega)
  simp only [ioCount, e]
  omega

/-- The offset of a sector wraps around at `2 ^ 64`. -/
lemma ioOffset_toNat (sectorNum : UInt64) :
    (ioOffset sectorNum).toNat = sectorNum.toNat * 512 % 2 ^ 64 := by
  simp [ioOffset, sectorSize, UInt64.toNat_mul]

/-! ## Requests and the capacity -/

/-- A request for `n` sectors is answered with an error and without effect if it passes the capacity,
and touches no byte of the image outside its sectors. -/
def Bounded (ctx : BlockDeviceCtx) (sectorNum : UInt64) (n : Nat) (isWrite : Bool) (buf : Obj)
    (arg : BlockRequest) : Prop :=
  (∃ ret d' req', blockIoWorkerFn ctx.disk (ioReq sectorNum buf n isWrite arg) = .ok (ret, d', req') ∧
    (blockGetSectorCount ctx < sectorNum.toNat + n →
      statusByte ret = virtioBlkSIoerr ∧ d' = ctx.disk)) ∧
    (ioReq sectorNum buf n isWrite arg).touched ctx.disk ⊆
      Set.Ico (sectorSize * sectorNum.toNat) (sectorSize * (sectorNum.toNat + n))

/-- What a request has to meet to be bounded. The host refuses a range that does not end below `2 ^ 63`. A write has
to lie within the capacity, unless it is too long for one call and what the call writes is in the image already. A
read may start behind the image; else its offset must not have wrapped, and it must lie within the capacity, pass
the end of the image or be too long for one call. -/
def StaysInside (ctx : BlockDeviceCtx) (sectorNum : UInt64) (n : Nat) (isWrite : Bool) (buf : Obj) : Prop :=
  2 ^ 63 ≤ (ioOffset sectorNum).toNat + n * sectorSize ∨
    if isWrite then
      sectorNum.toNat + n ≤ blockGetSectorCount ctx ∨
        maxRwCount < n * sectorSize ∧ sectorNum.toNat < 2 ^ 55 ∧
          ctx.disk.overwrite (ioOffset sectorNum).toNat (slice buf.bytes 0 maxRwCount) = ctx.disk
    else
      ctx.disk.len ≤ (ioOffset sectorNum).toNat ∨
        sectorNum.toNat < 2 ^ 55 ∧
          (sectorNum.toNat + n ≤ blockGetSectorCount ctx ∨
            ctx.disk.len < sectorSize * (sectorNum.toNat + n) ∨ maxRwCount < n * sectorSize)

section Bounded
variable {ctx : BlockDeviceCtx} {sectorNum : UInt64} {n : Nat} {buf : Obj} {arg : BlockRequest}

/-- Which writes are bounded. -/
lemma bounded_write_iff (hn : 0 < n) (hc : n * sectorSize < 2 ^ 31) (hb : n * sectorSize ≤ buf.size)
    (hl : ctx.disk.len < 2 ^ 63) (hs : ctx.size ≤ ctx.disk.len) :
    Bounded ctx sectorNum n true buf arg ↔ StaysInside ctx sectorNum n true buf := by
  have hoff := ioOffset_toNat sectorNum
  have hcount := ioCount_eq hc
  have max : 0 < maxRwCount := by decide
  have hspec : blockIoWorkerFn ctx.disk (ioReq sectorNum buf n true arg) = _ :=
    blockIoWorkerFn_write ctx.disk rfl (by simp only [ioReq, hcount, sectorSize]; omega)
      (by simpa only [ioReq, hcount] using hb)
  simp only [Bounded, StaysInside, AsyncIoReq.touched, if_true]
  rw [hspec]
  simp only [ioReq, hcount, sectorSize, blockGetSectorCount] at *
  by_cases h63 : (ioOffset sectorNum).toNat + n * 512 ≥ 2 ^ 63
  · rw [if_pos h63, if_pos h63]
    exact iff_of_true ⟨⟨-1, _, _, rfl, fun _ => ⟨rfl, rfl⟩⟩, Set.empty_subset _⟩ (.inl h63)
  · rw [if_neg h63, if_neg h63, or_iff_right (by omega), if_pos trivial, Set.Ico_subset_Ico_iff (by omega)]
    constructor
    · rintro ⟨⟨ret, d', req', e, h⟩, h1, -⟩
      cases e
      by_cases hcap : sectorNum.toNat + n ≤ ctx.size / 512
      · exact .inl hcap
      · obtain ⟨error, same⟩ := h (by omega)
        -- the error tells that the call was too short
        have long : ¬ n * 512 ≤ maxRwCount := by
          intro le
          rw [if_pos le] at error
          exact absurd error (by decide)
        rw [Nat.min_eq_right (by omega)] at same
        exact .inr ⟨by omega, by omega, same⟩
    · rintro (hcap | ⟨long, small, same⟩)
      · exact ⟨⟨_, _, _, rfl, fun h => by omega⟩, by omega, by omega⟩
      · refine ⟨⟨_, _, _, rfl, fun _ => ⟨?_, ?_⟩⟩, by omega, by omega⟩
        · rw [if_neg (by omega)]
          rfl
        · rw [Nat.min_eq_right (by omega)]
          exact same

/-- Which reads are bounded. -/
lemma bounded_read_iff (hn : 0 < n) (hc : n * sectorSize < 2 ^ 31) (hb : n * sectorSize ≤ buf.size)
    (hl : ctx.disk.len < 2 ^ 63) :
    Bounded ctx sectorNum n false buf arg ↔ StaysInside ctx sectorNum n false buf := by
  have hoff := ioOffset_toNat sectorNum
  have hcount := ioCount_eq hc
  have max : 0 < maxRwCount := by decide
  have hspec : blockIoWorkerFn ctx.disk (ioReq sectorNum buf n false arg) = _ :=
    blockIoWorkerFn_read ctx.disk rfl (by simp only [ioReq, hcount, sectorSize]; omega)
      (by simpa only [ioReq, hcount] using hb)
  simp only [Bounded, StaysInside, AsyncIoReq.touched]
  rw [hspec]
  simp only [ioReq, hcount, sectorSize, blockGetSectorCount, Bool.false_eq_true, if_false] at *
  by_cases h63 : (ioOffset sectorNum).toNat + n * 512 ≥ 2 ^ 63
  · rw [if_pos h63]
    refine iff_of_true ⟨⟨_, _, _, rfl, fun _ => ⟨?_, rfl⟩⟩, Set.empty_subset _⟩ (.inl h63)
    rw [if_neg (by omega)]
    rfl
  · rw [if_neg h63, or_iff_right (by omega)]
    by_cases hin : ctx.disk.len ≤ (ioOffset sectorNum).toNat
    · -- nothing is read behind the end of the image
      rw [show min (min (n * 512) maxRwCount) (ctx.disk.len - (ioOffset sectorNum).toNat) = 0 from by omega]
      simp only [Nat.add_zero, Set.Ico_self, Set.empty_subset, and_true]
      refine iff_of_true ⟨_, _, _, rfl, fun _ => ⟨?_, rfl⟩⟩ (.inl hin)
      rw [if_neg (by omega)]
      rfl
    · rw [Set.Ico_subset_Ico_iff (by omega)]
      constructor
      · rintro ⟨⟨ret, d', req', e, h⟩, h1, h2⟩
        cases e
        refine .inr ⟨by omega, ?_⟩
        by_contra hcap
        have hst := (h (by omega)).1
        rw [if_pos (by omega)] at hst
        exact absurd hst (by decide)
      · rintro (h | ⟨h55, h⟩)
        · exact absurd h hin
        · refine ⟨⟨_, _, _, rfl, fun hcap => ⟨?_, rfl⟩⟩, by omega, by omega⟩
          rw [if_neg (by omega)]
          rfl

/-- Which requests respect the capacity: for every request of at least one sector, whose length is an
`int` and whose buffer holds it, on an image that has not shrunk since start-up. -/
theorem blockIoWorkerFn_bounded_iff (isWrite : Bool) (hn : 0 < n) (hc : n * sectorSize < 2 ^ 31)
    (hb : n * sectorSize ≤ buf.size) (hl : ctx.disk.len < 2 ^ 63) (hs : ctx.size ≤ ctx.disk.len) :
    Bounded ctx sectorNum n isWrite buf arg ↔ StaysInside ctx sectorNum n isWrite buf := by
  cases isWrite with
  | true => exact bounded_write_iff hn hc hb hl hs
  | false => exact bounded_read_iff hn hc hb hl

end Bounded

/-- A block device with an image of one sector. -/
def oneSector : BlockDeviceCtx :=
  ⟨512, .zero 512, fun _ => .idle⟩

/-- A write of the only sector is bounded. -/
theorem blockIoWorkerFn_bounded_one_sector :
    0 < 1 ∧ 1 * sectorSize < 2 ^ 31 ∧ 1 * sectorSize ≤ (Obj.zero 512).size ∧
      oneSector.disk.len < 2 ^ 63 ∧ oneSector.size ≤ oneSector.disk.len ∧
      Bounded oneSector 0 1 true (.zero 512) ⟨virtioBlkTOut, 0, 0, 0⟩ :=
  ⟨by decide, by decide, by decide, by decide, by decide,
    (blockIoWorkerFn_bounded_iff true (by decide) (by decide) (by decide) (by decide) (by decide)).mpr
      (.inr (.inl (by decide)))⟩

/-- A write of the sector behind the image succeeds and makes the image longer, and a read of sector
`2 ^ 55` succeeds with sector 0. -/
theorem blockIoWorkerFn_passes_capacity :
    ¬ Bounded oneSector 1 1 true (.zero 512) ⟨virtioBlkTOut, 0, 0, 0⟩ ∧
      (blockIoWorkerFn oneSector.disk (ioReq 1 (.zero 512) 1 true ⟨virtioBlkTOut, 0, 0, 0⟩)).map
        (fun r => (statusByte r.1, r.2.1.len)) = .ok (virtioBlkSOk, 1024) ∧
      (blockIoWorkerFn oneSector.disk
          (ioReq 0x80000000000000 (.zero 513) 1 false ⟨virtioBlkTIn, 513, 0, 0⟩)).map
        (fun r => statusByte r.1) = .ok virtioBlkSOk := by
  have run : (blockIoWorkerFn oneSector.disk
      (ioReq 1 (.zero 512) 1 true ⟨virtioBlkTOut, 0, 0, 0⟩)).map
        (fun r => (statusByte r.1, r.2.1.len)) = .ok (virtioBlkSOk, 1024) := by
    decide +kernel
  refine ⟨?_, run, by decide +kernel⟩
  rintro ⟨⟨ret, d', req', e, h⟩, -⟩
  rw [show ((1 : Nat) : Int) = 1 from rfl] at e
  rw [e] at run
  have hst := (h (by decide)).1
  simp only [Except.map, hst] at run
  exact absurd run (by simp [virtioBlkSIoerr, virtioBlkSOk])

end Mvvmm.Block
