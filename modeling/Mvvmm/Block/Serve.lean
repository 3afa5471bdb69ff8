import Mvvmm.Block.Recv
import Mvvmm.Virtio.Answer

/-!
# A request from its chain to its answer

What the device makes of a request, over all chains of the shape of a request (`ReqChain`), of any length and whether or
not the driver has asked for whole sectors. Each of the three functions that handle it gets its lemmas:

* `blockRequest_in` and `blockRequest_out`: the request that is made of the chain,
* `blockIoWorkerFn_read_ok` and `blockIoWorkerFn_write_ok`: what has been read or written if the I/O succeeds,
* `virtioBlockReqEnd_in` and `virtioBlockReqEnd_out`: what the answer writes into the chain and the used ring.

`serve` is the three of them in a row, and `serve_ok` says what the driver can conclude from a status that is OK. The
I/O is for whole sectors only, so the rest of a payload is neither written nor read: the data is right if and only if the
image happens to hold this rest already, or zeros there. The status of a write always goes to the first byte of the
writable part, and so it is where the driver expects it if and only if there is no other byte.
-/

namespace Mvvmm.Block
open Bytes CMem Virtio

variable {m : GuestMemMap} {qs : QueueState} {q : Fin maxQueue} {head : Nat} {R W : List VirtioDesc} {d d' : Disk}
  {s s' : VirtioBlockDevice} {req req' : AsyncIoReq} {buf : Obj} {ret : Int}

/-- The header in the first bytes of the readable part. -/
def headerOf (bs : List UInt8) : BlockRequestHeader :=
  .decode (splice (fun _ => 0) 0 (bs.take BlockRequestHeader.sizeof))

/-- The chain of a request: the readable descriptors `R` and behind them the writable ones `W`, with less than `2 ^ 31`
bytes. -/
structure ReqChain (m : GuestMemMap) (qs : QueueState) (head : Nat) (R W : List VirtioDesc) : Prop where
  chain : IsChain m qs head (R ++ W)
  readable : ∀ d ∈ R, d.isWrite = false
  writable : ∀ d ∈ W, d.isWrite = true
  bytes : total R + total W < 2 ^ 31

/-- What the device needs of a chain to fill its writable part: less than 1025 descriptors on the way to any byte, and the
writable buffers apart from each other, from the entries of the chain that come after them and from what is written to the
used ring. -/
structure Answerable (m : GuestMemMap) (qs : QueueState) (R W : List VirtioDesc) : Prop where
  skip : R.length < loopMax
  near : Near W 0 (total W)
  clear : ClearAhead qs W []
  apart : W.Pairwise BufApart
  used : ∀ p ∈ usedTouched m qs, ∀ d ∈ W, p ∉ bufSpan d

/-- The bytes of the whole sectors in `n` bytes. -/
def wholeSectors (n : Nat) : Nat :=
  n / sectorSize * sectorSize

/-- A request for `n` bytes is for the whole sectors in them. -/
lemma ioCount_tdiv {n : Nat} (h : n < 2 ^ 31) : ioCount (Int.tdiv n sectorSize) = wholeSectors n := by
  rw [Int.tdiv_eq_ediv_of_nonneg (by omega), ← Int.natCast_ediv]
  exact ioCount_eq (lt_of_le_of_lt (Nat.div_mul_le_self n sectorSize) h)

namespace ReqChain

/-- The scan returns the sizes of the two parts. -/
lemma getDescRwSize_eq (c : ReqChain m qs head R W) :
    getDescRwSize m qs head = .ok (some ((total R : Int), (total W : Int))) :=
  getDescRwSize_sums c.chain c.readable c.writable c.bytes

/-- A copy from the readable part. -/
lemma memcpyFromQueue_eq {off count : Nat} (c : ReqChain m qs head R W) (inside : BufInside m R)
    (reach : Reaches false (R ++ W) off count) (h0 : 0 < count) (hb : count ≤ buf.size) :
    memcpyFromQueue m buf qs head off count =
      .ok (0, { buf with bytes := splice buf.bytes 0 (((gather m R).drop off).take count) }) := by
  have lt := c.bytes
  obtain ⟨run, -⟩ := runOf_shape c.readable c.writable
  rw [memcpyFromQueue_done c.chain (by rw [run]; omega) reach h0 hb (by rwa [run]), run]

/-- A copy to the beginning of the writable part. -/
lemma memcpyToQueue_eq {count : Nat} {F T : List VirtioDesc} (c : ReqChain m qs head R W) (inside : BufInside m W)
    (skip : R.length < loopMax) (first : W = F ++ T) (clear : ClearAhead qs F []) (near : Near F 0 count)
    (room : count ≤ total F) (hb : count ≤ buf.size) :
    memcpyToQueue m qs head 0 buf count = .ok (0, scatterAt m W 0 (slice buf.bytes 0 count)) := by
  subst first
  have lt := c.bytes
  rw [total_append] at lt
  have begins : Begins m qs head (R ++ F) := IsChain.begins (by rw [List.append_assoc]; exact c.chain)
  obtain ⟨m', run, stored⟩ : ∃ m', memcpyToQueue m qs head (0 : Nat) buf count = .ok (0, m') ∧
      Stored m m' F 0 (slice buf.bytes 0 count) :=
    memcpyToQueue_stored _ begins c.readable (fun d hd => c.writable d (by simp [hd]))
      (fun d hd => (len_le_total hd).trans_lt (by omega)) skip clear (fun _ => near) (by omega) (by omega) hb
  have insideF : BufInside m F := fun d hd => inside d (by simp [hd])
  rw [stored.eq (insideF.bytes (by rw [slice_length]; omega)),
    ← scatterAt_append (T := T) (by rw [slice_length]; omega)] at run
  exact run

/-! ## The request -/

/-- The header is read from the beginning of the chain. -/
lemma readHeader (c : ReqChain m qs head R W) (inside : BufInside m R)
    (reach : Reaches false (R ++ W) 0 BlockRequestHeader.sizeof) :
    ∃ buf, memcpyFromQueue m (.zero BlockRequestHeader.sizeof) qs head 0 BlockRequestHeader.sizeof = .ok (0, buf) ∧
      BlockRequestHeader.decode buf.bytes = headerOf (gather m R) :=
  ⟨_, c.memcpyFromQueue_eq inside reach (by decide) le_rfl, rfl⟩

/-- The payload behind the header is read into a buffer of its size. The copier may give up before the end, which
nobody looks at. -/
lemma readPayload {len : Nat} (c : ReqChain m qs head R W) (inside : BufInside m R)
    (hlen : len = total R - BlockRequestHeader.sizeof) (pos : 0 < len) :
    ∃ ret buf, memcpyFromQueue m (.zero len) qs head BlockRequestHeader.sizeof len = .ok (ret, buf) ∧ buf.size = len ∧
      (Near R BlockRequestHeader.sizeof len →
        buf.bytes = splice (fun _ => 0) 0 ((gather m R).drop BlockRequestHeader.sizeof)) := by
  have lt := c.bytes
  by_cases near : Near R BlockRequestHeader.sizeof len
  · have reach : Reaches false (R ++ W) BlockRequestHeader.sizeof len :=
      (reaches_false_iff c.readable c.writable).mpr ⟨by omega, near⟩
    refine ⟨0, _, c.memcpyFromQueue_eq inside reach pos le_rfl, rfl, fun _ => ?_⟩
    rw [List.take_of_length_le (by simp; omega)]
    rfl
  · obtain ⟨run, -⟩ := runOf_shape c.readable c.writable
    have short : ¬ Reaches false (R ++ W) BlockRequestHeader.sizeof len := fun reach =>
      near ((reaches_false_iff c.readable c.writable).mp reach).2
    obtain ⟨buf, e⟩ : ∃ buf, memcpyFromQueue m (.zero len) qs head BlockRequestHeader.sizeof len = .ok (-1, buf) :=
      memcpyFromQueue_short c.chain (by rw [run]; omega) short (by decide) pos (by omega) le_rfl
    exact ⟨-1, buf, e, memcpyFromQueue_size e, fun h => absurd h near⟩

/-- What the device makes of a chain that asks to read. -/
lemma blockRequest_in (c : ReqChain m qs head R W) (inside : BufInside m R)
    (reach : Reaches false (R ++ W) 0 BlockRequestHeader.sizeof)
    (type : (headerOf (gather m R)).type = virtioBlkTIn) (status : 0 < total W) :
    blockRequest m qs q head (total R) (total W) =
      .ok (some ⟨ioOffset (headerOf (gather m R)).sectorNum, .zero (total W),
        wholeSectors (total W - 1), false, ⟨virtioBlkTIn, total W, q, head⟩⟩) := by
  obtain ⟨buf, read, decode⟩ := c.readHeader inside reach
  have lt := c.bytes
  simp only [blockRequest, read, ok_bind]
  rw [if_neg (by omega), decode, if_pos type, mallocZero_of_nonneg (by omega), ok_bind, ioReq, type,
    show ((total W : Int) - 1) = ((total W - 1 : Nat) : Int) from by omega, ioCount_tdiv (by omega)]
  rfl

/-- What the device makes of a chain that asks to write. -/
lemma blockRequest_out (c : ReqChain m qs head R W) (inside : BufInside m R)
    (reach : Reaches false (R ++ W) 0 BlockRequestHeader.sizeof)
    (type : (headerOf (gather m R)).type = virtioBlkTOut) (status : 0 < total W)
    (payload : BlockRequestHeader.sizeof < total R) :
    ∃ buf : Obj, buf.size = total R - BlockRequestHeader.sizeof ∧
      (Near R BlockRequestHeader.sizeof (total R - BlockRequestHeader.sizeof) →
        buf.bytes = splice (fun _ => 0) 0 ((gather m R).drop BlockRequestHeader.sizeof)) ∧
      blockRequest m qs q head (total R) (total W) =
        .ok (some ⟨ioOffset (headerOf (gather m R)).sectorNum, buf,
          wholeSectors (total R - BlockRequestHeader.sizeof), true, ⟨virtioBlkTOut, 0, q, head⟩⟩) := by
  obtain ⟨hbuf, read, decode⟩ := c.readHeader inside reach
  have lt := c.bytes
  obtain ⟨len, hlen⟩ : ∃ len, len = total R - BlockRequestHeader.sizeof := ⟨_, rfl⟩
  obtain ⟨ret, buf, copy, size, bytes⟩ := c.readPayload inside hlen (by omega)
  have ne : ¬ (headerOf (gather m R)).type = virtioBlkTIn := by
    rw [type]
    decide
  refine ⟨buf, size.trans hlen, hlen ▸ bytes, ?_⟩
  have cast : i32 ((total R : Int) - BlockRequestHeader.sizeof) = (len : Int) := by
    rw [i32_of_range (by omega) (by omega)]
    omega
  simp only [blockRequest, read, ok_bind]
  rw [if_neg (by omega), decode, if_neg ne, if_pos type, if_neg (by omega), cast, if_neg (by omega),
    mallocZero_of_nonneg (by omega), ok_bind, Int.toNat_natCast, copy]
  simp only [ok_bind]
  rw [ioReq, type, ioCount_tdiv (by omega), hlen]
  rfl

/-- What a chain looks like of which the device has made a request. -/
lemma of_blockRequest (c : ReqChain m qs head R W) (inside : BufInside m R)
    (made : blockRequest m qs q head (total R) (total W) = .ok (some req)) :
    Reaches false (R ++ W) 0 BlockRequestHeader.sizeof ∧
      ((headerOf (gather m R)).type = virtioBlkTOut → 0 < total W ∧ BlockRequestHeader.sizeof < total R) := by
  have lt := c.bytes
  obtain ⟨run, -⟩ := runOf_shape c.readable c.writable
  have reach : Reaches false (R ++ W) 0 BlockRequestHeader.sizeof := by
    -- a header that cannot be read makes the device drop the chain
    by_contra short
    obtain ⟨buf, e⟩ : ∃ buf, memcpyFromQueue m (.zero BlockRequestHeader.sizeof) qs head (0 : Nat)
        BlockRequestHeader.sizeof = .ok (-1, buf) :=
      memcpyFromQueue_short c.chain (by rw [run]; omega) short (by decide) (by decide) (by decide) le_rfl
    simp only [blockRequest, show (0 : Int) = ((0 : Nat) : Int) from rfl, e, ok_bind] at made
    rw [if_pos (by decide)] at made
    cases made
  refine ⟨reach, fun type => ?_⟩
  obtain ⟨buf, read, decode⟩ := c.readHeader inside reach
  have ne : ¬ (headerOf (gather m R)).type = virtioBlkTIn := by
    rw [type]
    decide
  simp only [blockRequest, read, ok_bind] at made
  rw [if_neg (by omega), decode, if_neg ne, if_pos type] at made
  split at made
  · cases made
  · split at made
    · cases made
    · rename_i pos
      rw [i32_of_range (by simp only [BlockRequestHeader.sizeof]; omega) (by omega)] at pos
      omega

end ReqChain

/-! ## The I/O -/

/-- The offset of a sector, if it does not wrap. -/
lemma ioOffset_of_lt {sectorNum : UInt64} (h : sectorNum.toNat < 2 ^ 55) :
    (ioOffset sectorNum).toNat = sectorSize * sectorNum.toNat := by
  rw [ioOffset_toNat, sectorSize]
  omega

/-- The status is OK if and only if the I/O has not failed. -/
lemma statusByte_eq_ok : statusByte ret = virtioBlkSOk ↔ 0 ≤ ret := by
  simp only [statusByte]
  split
  · rename_i neg
    exact iff_of_false (by decide) (by omega)
  · rename_i nonneg
    exact iff_of_true rfl (by omega)

/-- A read that succeeds has filled the beginning of the buffer with the bytes of the image. -/
lemma blockIoWorkerFn_read_ok (hr : req.isWrite = false) (h : blockIoWorkerFn d req = .ok (ret, d', req'))
    (ok : 0 ≤ ret) :
    d' = d ∧ req'.arg = req.arg ∧
      req'.buf = { req.buf with bytes := splice req.buf.bytes 0 (slice d.bytes req.offset.toNat req.count) } := by
  simp only [blockIoWorkerFn, hr, Bool.false_eq_true, if_false, pure_bind] at h
  obtain ⟨buf', store, h⟩ := bind_eq_ok.mp h
  simp only [pure, Except.pure, Except.ok.injEq, Prod.mk.injEq] at h
  obtain ⟨rfl, rfl, rfl⟩ := h
  refine ⟨rfl, rfl, ?_⟩
  simp only [Disk.pread] at store ok
  split at store
  · rename_i big
    rw [if_pos big, if_pos (by decide)] at ok
    omega
  · rename_i small
    rw [if_neg small] at ok
    -- a read that passes the end of the image, or the limit of a call, is short and counts as failed
    have all : min (min req.count maxRwCount) (d.len - req.offset.toNat) = req.count := by
      by_contra short
      simp only [Int.ofNat_eq_natCast] at ok
      rw [if_neg (by omega), if_pos (by omega)] at ok
      omega
    rw [all] at store
    simp only [Obj.store] at store
    split at store
    · cases store
      rfl
    · cases store

/-- A write that succeeds has put the bytes of the buffer into the image. -/
lemma blockIoWorkerFn_write_ok (hw : req.isWrite = true) (hb : req.count ≤ req.buf.size)
    (h : blockIoWorkerFn d req = .ok (ret, d', req')) (ok : 0 ≤ ret) :
    d'.bytes = splice d.bytes req.offset.toNat (slice req.buf.bytes 0 req.count) := by
  rcases Nat.eq_zero_or_pos req.count with zero | h0
  · have load : req.buf.load 0 0 = .ok (slice req.buf.bytes 0 0) := Obj.load_ok (n := 0) le_rfl (by omega)
    simp only [blockIoWorkerFn, hw, if_true, zero, load, ok_bind, pure_bind, Disk.pwrite, slice_length] at h
    rw [zero, show slice req.buf.bytes 0 0 = [] from rfl, splice_nil]
    split at h <;> cases h <;> rfl
  rw [blockIoWorkerFn_write d hw h0 hb] at h
  split at h
  · cases h
    omega
  · cases h
    -- a write that passes the limit of a call is short, and counts as failed
    have all : req.count ≤ maxRwCount := by
      by_contra long
      rw [if_neg long] at ok
      omega
    rw [Nat.min_eq_left all]
    rfl

/-! ## The answer -/

/-- The answer to a request that asks to read: the contents of its buffer with the status as last byte. -/
lemma virtioBlockReqEnd_in (c : ReqChain s.mem (s.queue q) head R W) (inside : BufInside s.mem W)
    (skip : R.length < loopMax) (clear : ClearAhead (s.queue q) W []) (near : Near W 0 (total W))
    (status : 0 < total W) (size : buf.size = total W) :
    virtioBlockReqEnd s ⟨virtioBlkTIn, total W, q, head⟩ buf ret =
      .ok (virtioConsumeDesc
        { s with mem := scatterAt s.mem W 0 (slice buf.bytes 0 (total W - 1) ++ [statusByte ret]) } q head
        (total W)) := by
  obtain ⟨n, hn⟩ : ∃ n, total W = n + 1 := ⟨total W - 1, by omega⟩
  have store : buf.store ((total W : Int) - 1) [statusByte ret] =
      .ok { buf with bytes := splice buf.bytes (0 + n) [statusByte ret] } := by
    rw [Obj.store_ok (by omega) (by simp only [List.length_singleton]; omega),
      show ((total W : Int) - 1).toNat = 0 + n from by omega]
  have bytes : slice (splice buf.bytes (0 + n) [statusByte ret]) 0 (total W) =
      slice buf.bytes 0 (total W - 1) ++ [statusByte ret] := by
    rw [hn, slice_splice_patch (by simp)]
    simp only [patch, slice_take, slice_drop, List.length_singleton, Nat.sub_self, Nat.add_sub_cancel]
    rw [show min n (n + 1) = n from by omega]
    simp [slice]
  simp only [virtioBlockReqEnd, if_true, store, ok_bind]
  rw [c.memcpyToQueue_eq inside skip (List.append_nil W).symm clear near le_rfl (by simp only; omega)]
  simp only [ok_bind, bytes]
  rfl

/-- The answer to a request that asks to write: the status as the only byte. -/
lemma virtioBlockReqEnd_out {size : Int} (c : ReqChain s.mem (s.queue q) head R W) (inside : BufInside s.mem W)
    (skip : R.length < loopMax) (near : descIndex W 0 < loopMax) (status : 0 < total W) :
    virtioBlockReqEnd s ⟨virtioBlkTOut, size, q, head⟩ buf ret =
      .ok (virtioConsumeDesc { s with mem := scatterAt s.mem W 0 [statusByte ret] } q head 1) := by
  have ne : ¬ virtioBlkTOut = virtioBlkTIn := by decide
  have store : (Obj.zero 1).store 0 [statusByte ret] = .ok ⟨1, splice (fun _ => 0) 0 [statusByte ret]⟩ := rfl
  -- the status needs no more than the first writable byte
  obtain ⟨F, T, first, some, index, clear⟩ :
      ∃ F T, W = F ++ T ∧ 0 < total F ∧ descIndex F 0 = descIndex W 0 ∧ ClearAhead (s.queue q) F [] := exists_first status
  simp only [virtioBlockReqEnd, if_neg ne, if_true, store, ok_bind]
  rw [show (1 : Int) = ((1 : Nat) : Int) from rfl, c.memcpyToQueue_eq inside skip first clear
    ⟨index ▸ near, by simp [loopMax]⟩ some le_rfl, slice_splice_of_length (by rfl)]
  rfl

/-! ## The three in a row -/

/-- A request for which a worker is free, from its chain to its answer: it is read from the guest memory `m` and the
queue `qs`, carried out on the image `d` and answered by the device `s`. The guest and the other workers go on running
between the three. -/
def serve (m : GuestMemMap) (qs : QueueState) (q : Fin maxQueue) (head : Nat) (d : Disk) (s : VirtioBlockDevice) :
    Except Stop (Option (Int × Disk × VirtioBlockDevice)) := do
  match ← getDescRwSize m qs head with
  | none => return none
  | some (readSize, writeSize) =>
    match ← blockRequest m qs q head readSize writeSize with
    | none => return none
    | some req =>
      let (ret, d, req) ← blockIoWorkerFn d req
      let s ← virtioBlockReqEnd s req.arg req.buf ret
      return some (ret, d, s)

/-- The steps that a worker makes with a request amount to `serve`. -/
lemma serve_of_steps {c₁ c₁' c₂ c₂' : BlockMachine} {w : Fin virtioBlkMaxQueueNum} {readSize writeSize : Int}
    (scan : getDescRwSize m qs head = .ok (some (readSize, writeSize)))
    (made : blockRequest m qs q head readSize writeSize = .ok (some req))
    (queued : c₁.s.dev.workers w = .queued req) (io : blockStep c₁ (.io w) = .ok c₁')
    (busy : c₂.s.dev.workers w = c₁'.s.dev.workers w) (complete : blockStep c₂ (.complete w) = .ok c₂') :
    ∃ ret s', serve m qs q head c₁.s.dev.disk c₂.s = .ok (some (ret, c₁'.s.dev.disk, s')) ∧
      c₂'.s = setWorker s' w .returning := by
  cases blockStep_effect io with
  | @io w req₁ ret disk req' queued' run =>
    rw [queued] at queued'
    cases queued'
    cases blockStep_effect complete with
    | @complete w req₂ ret₂ s' idle finished answer =>
      rw [busy] at finished
      simp only [setWorker, BlockDeviceCtx.setWorker, Function.update_self, Worker.finished.injEq] at finished
      obtain ⟨rfl, rfl⟩ := finished
      refine ⟨ret, s', ?_, Machine.startNotify_s⟩
      simp only [serve, scan, made, run, answer, ok_bind]
      rfl

/-- Inversion of `serve`. -/
lemma serve_effect (c : ReqChain m qs head R W) (h : serve m qs q head d s = .ok (some (ret, d', s'))) :
    ∃ req req', blockRequest m qs q head (total R) (total W) = .ok (some req) ∧
      blockIoWorkerFn d req = .ok (ret, d', req') ∧ virtioBlockReqEnd s req'.arg req'.buf ret = .ok s' := by
  simp only [serve, c.getDescRwSize_eq, ok_bind] at h
  obtain ⟨req, made, h⟩ := bind_eq_ok.mp h
  cases req with
  | none => cases h
  | some req =>
    obtain ⟨⟨ret₁, d₁, req'⟩, io, h⟩ := bind_eq_ok.mp h
    obtain ⟨s₁, answer, h⟩ := bind_eq_ok.mp h
    cases h
    exact ⟨req, req', made, io, answer⟩

/-- A request whose result is known has been served. -/
lemma serve_of_ret (h : (serve m qs q head d s).map (Option.map Prod.fst) = .ok (some ret)) :
    ∃ d' s', serve m qs q head d s = .ok (some (ret, d', s')) := by
  cases e : serve m qs q head d s with
  | error stop =>
    rw [e] at h
    cases h
  | ok r =>
    rw [e] at h
    simp only [Except.map, Except.ok.injEq, Option.map_eq_some_iff] at h
    obtain ⟨⟨ret, d', s'⟩, rfl, rfl⟩ := h
    exact ⟨d', s', rfl⟩

/-- The driver gets the status where it expects it: the used ring has an entry in guest memory for the chain, the length in
it is that of the writable part, and the status is the last byte of that. -/
def StatusLast (s s' : VirtioBlockDevice) (q : Fin maxQueue) (head : Nat) (W : List VirtioDesc) (status : UInt8) : Prop :=
  UsedInside s.mem (s.queue q) ∧ Published s.mem s'.mem (s.queue q) head (total W) ∧
    (gather s'.mem W)[total W - 1]? = some status

/-- The image holds `l` from `a` on, and is the same everywhere else. -/
def Written (d d' : Disk) (a : Nat) (l : List UInt8) : Prop :=
  slice d'.bytes a l.length = l ∧ ∀ p, p ∉ Set.Ico a (a + l.length) → d'.bytes p = d.bytes p

/-- If only the first bytes have been written, the others have to be in the image already. -/
lemma written_iff {a k : Nat} {l : List UInt8} (hk : k ≤ l.length) (image : d'.bytes = splice d.bytes a (l.take k)) :
    Written d d' a l ↔ slice d.bytes (a + k) (l.length - k) = l.drop k := by
  have len : (l.take k).length = k := by
    rw [List.length_take]
    omega
  have bytes : slice d'.bytes a l.length = l.take k ++ slice d.bytes (a + k) (l.length - k) := by
    rw [image, show l.length = k + (l.length - k) from by omega, slice_add, slice_splice_of_length len,
      slice_splice_disjoint (.inr (by omega)), show k + (l.length - k) - k = l.length - k from by omega]
  have frame : ∀ p, p ∉ Set.Ico a (a + l.length) → d'.bytes p = d.bytes p := by
    intro p hp
    rw [image]
    refine eqOn_splice fun hp' => hp ?_
    rw [len] at hp'
    exact ⟨hp'.1, hp'.2.trans_le (by omega)⟩
  rw [Written, bytes, and_iff_left frame]
  nth_rewrite 3 [← List.take_append_drop k l]
  exact List.append_right_inj _

section Served
variable (c : ReqChain m qs head R W) (inside : BufInside m R)
  (made : blockRequest m qs q head (total R) (total W) = .ok (some req))
  (io : blockIoWorkerFn d req = .ok (ret, d', req'))

include c inside made io

/-- The whole sectors in the payload of a request that asks to write are in the image. -/
lemma image_of_out (ok : 0 ≤ ret) (type : (headerOf (gather m R)).type = virtioBlkTOut)
    (sector : (headerOf (gather m R)).sectorNum.toNat < 2 ^ 55)
    (near : Near R BlockRequestHeader.sizeof (total R - BlockRequestHeader.sizeof)) :
    d'.bytes = splice d.bytes (sectorSize * (headerOf (gather m R)).sectorNum.toNat)
      (((gather m R).drop BlockRequestHeader.sizeof).take (wholeSectors (total R - BlockRequestHeader.sizeof))) := by
  obtain ⟨reach, sizes⟩ := c.of_blockRequest inside made
  obtain ⟨status, payload⟩ := sizes type
  obtain ⟨buf, size, bytes, eq⟩ := c.blockRequest_out inside reach type status payload
  rw [eq, Except.ok.injEq, Option.some.injEq] at made
  subst made
  have le : wholeSectors (total R - BlockRequestHeader.sizeof) ≤ total R - BlockRequestHeader.sizeof :=
    Nat.div_mul_le_self _ _
  have len : ((gather m R).drop BlockRequestHeader.sizeof).length = total R - BlockRequestHeader.sizeof := by simp
  have image := blockIoWorkerFn_write_ok rfl (by simp only; omega) io ok
  rwa [ioOffset_of_lt sector, bytes near, slice_splice_mid le_rfl (by simp only; omega), Nat.sub_self, List.drop_zero]
    at image

/-- The status of a request that asks to write is the first byte of the writable part, and the length reported is 1. -/
lemma answer_of_out (kept : ReqChain s.mem (s.queue q) head R W) (writable : BufInside s.mem W) (entry : head < 2 ^ 16)
    (skip : R.length < loopMax) (near : descIndex W 0 < loopMax)
    (used : (byteAddr W 0).toNat ∉ usedTouched s.mem (s.queue q))
    (answer : virtioBlockReqEnd s req'.arg req'.buf ret = .ok s')
    (type : (headerOf (gather m R)).type = virtioBlkTOut) :
    Answered s.mem s'.mem (s.queue q) head 1 W [statusByte ret] := by
  obtain ⟨reach, sizes⟩ := c.of_blockRequest inside made
  obtain ⟨status, payload⟩ := sizes type
  obtain ⟨buf, size, bytes, eq⟩ := c.blockRequest_out inside reach type status payload
  rw [eq, Except.ok.injEq, Option.some.injEq] at made
  subst made
  obtain ⟨buf', -, rfl⟩ := blockIoWorkerFn_buf io
  rw [virtioBlockReqEnd_out kept writable skip near status] at answer
  obtain rfl := Except.ok.inj answer
  have one : BytesInside s.mem W 0 [statusByte ret].length := writable.bytes status
  rw [virtioConsumeDesc_mem]
  refine (Stored.of_inside one).answered one status ?_ ?_ (by omega) (by decide)
  · rw [List.length_singleton]
    exact fun i hi j hj _ => (Nat.lt_one_iff.mp hi).trans (Nat.lt_one_iff.mp hj).symm
  · intro i hi
    rwa [Nat.lt_one_iff.mp hi]

/-- The answer to a request that asks to read is the data and the status, and the length reported is that of the writable
part. -/
lemma answer_of_in (kept : ReqChain s.mem (s.queue q) head R W) (writable : BufInside s.mem W) (entry : head < 2 ^ 16)
    (a : Answerable s.mem (s.queue q) R W) (ok : 0 ≤ ret) (answer : virtioBlockReqEnd s req'.arg req'.buf ret = .ok s')
    (type : (headerOf (gather m R)).type = virtioBlkTIn) (status : 0 < total W) :
    Answered s.mem s'.mem (s.queue q) head (total W) W
      (slice (splice (fun _ => 0) 0 (slice d.bytes (ioOffset (headerOf (gather m R)).sectorNum).toNat
        (wholeSectors (total W - 1)))) 0 (total W - 1) ++ [statusByte ret]) := by
  obtain ⟨reach, -⟩ := c.of_blockRequest inside made
  rw [c.blockRequest_in inside reach type status, Except.ok.injEq, Option.some.injEq] at made
  subst made
  obtain ⟨-, arg, buf⟩ := blockIoWorkerFn_read_ok rfl io ok
  rw [arg, buf, virtioBlockReqEnd_in kept writable a.skip a.clear a.near status rfl] at answer
  obtain rfl := Except.ok.inj answer
  have len : (slice (splice (fun _ => 0) 0 (slice d.bytes (ioOffset (headerOf (gather m R)).sectorNum).toNat
      (wholeSectors (total W - 1)))) 0 (total W - 1) ++ [statusByte ret]).length = total W := by
    rw [List.length_append, slice_length, List.length_singleton]
    omega
  have all : BytesInside s.mem W 0 (total W) := writable.bytes (by omega)
  have bytes := kept.bytes
  rw [virtioConsumeDesc_mem]
  rw [← len] at all
  refine (Stored.of_inside all).answered all len.le ?_ ?_ (by omega) (by omega)
  · rw [len]
    exact byteAddr_injOn a.apart
  · intro i hi mem
    obtain ⟨e, he, hp⟩ := byteAddr_mem (show i < total W by omega)
    exact a.used _ mem e he hp

end Served

/-- A queue with its table at 0, its available ring at 256 and its used ring at 512. -/
def ringQueue : QueueState :=
  { zeroQueue with availAddr := 256, usedAddr := 512 }

/-- A block device with this queue. -/
def ringDevice (m : GuestMemMap) (d : Disk) : VirtioBlockDevice :=
  { virtioBlockInit m d with queue := fun _ => ringQueue }

/-- An image of one sector whose bytes are 7. -/
def sevens : Disk where
  len := 512
  bytes i := if i < 512 then 7 else 0
  beyond i h := if_neg (by omega)

/-- A guest that asks to write `n` bytes to sector 0, with one byte for the status. -/
def putMem (n : UInt32) : GuestMemMap :=
  requestMem [⟨768, 16 + n, 1, 1⟩, ⟨2048, 1, 2, 0⟩] ⟨virtioBlkTOut, 0⟩

/-- A guest that asks to read `n` bytes from sector 0. -/
def fetchMem (n : UInt32) : GuestMemMap :=
  requestMem [⟨768, 16, 1, 1⟩, ⟨2048, n + 1, 2, 0⟩] ⟨virtioBlkTIn, 0⟩

section Pair
variable {r w : VirtioDesc}

/-- A buffer in the first page. -/
lemma bufInside_single (page : m.size = 4096) (le : r.addr.toNat + r.len.toNat ≤ 4096) : BufInside m [r] := by
  intro d hd p hp
  obtain rfl := List.mem_singleton.mp hd
  have := (mem_guestSpan (by omega)).mp hp
  simp only [Set.mem_Iio]
  omega

/-- The chain of two descriptors of such a guest. -/
lemma reqChain_pair (first : descAt m ringQueue 0 = some r) (second : descAt m ringQueue 1 = some w)
    (flags : r.flags = 1 ∧ r.next = 1 ∧ w.flags = 2) (bytes : r.len.toNat + w.len.toNat < 2 ^ 31) :
    ReqChain m ringQueue 0 [r] [w] := by
  obtain ⟨fr, next, fw⟩ := flags
  refine ⟨⟨first, .link (by rw [VirtioDesc.isNext, fr]; decide) (by rw [next]; exact second)
    (.last (by rw [VirtioDesc.isNext, fw]; decide))⟩, ?_, ?_, by simpa using bytes⟩
  · simp [VirtioDesc.isWrite, fr]
    decide
  · simp [VirtioDesc.isWrite, fw]
    decide

/-- Its writable part is behind the rings. -/
lemma answerable_pair (used : ∀ p ∈ usedTouched m ringQueue, p < 1024) (behind : 1024 ≤ w.addr.toNat)
    (le : w.addr.toNat + w.len.toNat ≤ 4096) (pos : 0 < w.len.toNat) : Answerable m ringQueue [r] [w] := by
  have max : 1 < loopMax := by decide
  have one : total [w] = w.len.toNat := by simp
  have first : descIndex [w] 0 < 1 := descIndex_lt (by omega)
  have last : descIndex [w] (0 + total [w] - 1) < 1 := descIndex_lt (by omega)
  refine ⟨max, ⟨by omega, by omega⟩, ⟨by simp [entries], trivial⟩, by simp, ?_⟩
  intro p hp d hd hp'
  obtain rfl := List.mem_singleton.mp hd
  have := used p hp
  have := (mem_guestSpan (by omega)).mp hp'
  omega

end Pair

/-- The request to write one sector is served. -/
lemma putMem_served :
    (serve (putMem 512) ringQueue 0 0 sevens (ringDevice (putMem 512) sevens)).map (Option.map Prod.fst) =
      .ok (some 0) := by
  decide +kernel

/-- The request to read one sector is served. -/
lemma fetchMem_served :
    (serve (fetchMem 512) ringQueue 0 0 sevens (ringDevice (fetchMem 512) sevens)).map (Option.map Prod.fst) =
      .ok (some 0) := by
  decide +kernel

end Mvvmm.Block
