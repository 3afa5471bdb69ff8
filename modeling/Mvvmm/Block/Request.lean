import Mvvmm.Block.Serve
import Mvvmm.Virtio.Driver

/-!
# Requests as the driver means them

`Cmd` is what a request of the driver asks for and `Cmd.exec` its sequential meaning: the disk afterwards, and
the bytes that the writable part of the chain is to hold, the data read and the status. `request` reads the
request off a chain in guest memory. `Request.Ok` is what the driver has to respect.

For such a request the three functions that handle it are given by one equation each:

* `queueNotifyRound_request`: it is handed to the free worker as `Request.io`,
* `blockIoWorkerFn_request`: its I/O is `Cmd.exec` on the disk,
* `virtioBlockReqEnd_request`: the result goes into the writable part of the chain, and the head into the
  used ring.
-/

namespace Mvvmm.Block
open Bytes CMem Virtio

/-- What a request asks for: to read `n` sectors, or to write some. -/
inductive Cmd where
  | read (sector n : Nat)
  | write (sector : Nat) (data : List UInt8)
  deriving DecidableEq, Repr

namespace Cmd
variable {d : Disk} {capacity : Nat} {cmd : Cmd}

/-- The sequential meaning of a request: the disk afterwards, and what its chain returns. -/
def exec (d : Disk) : Cmd → Disk × List UInt8
  | .read sector n => (d, slice d.bytes (sector * sectorSize) (n * sectorSize) ++ [virtioBlkSOk])
  | .write sector data => (d.overwrite (sector * sectorSize) data, [virtioBlkSOk])

/-- The request is for one or more whole sectors inside the capacity. -/
def Fits (capacity : Nat) : Cmd → Prop
  | .read sector n => 0 < n ∧ sector + n ≤ capacity
  | .write sector data =>
    0 < data.length ∧ data.length % sectorSize = 0 ∧ sector + data.length / sectorSize ≤ capacity

instance (capacity : Nat) : (cmd : Cmd) → Decidable (cmd.Fits capacity)
  | .read .. => inferInstanceAs (Decidable (_ ∧ _))
  | .write .. => inferInstanceAs (Decidable (_ ∧ _ ∧ _))

/-- The size of the readable part: the header, and the data of a write. -/
def readSize : Cmd → Nat
  | .read .. => BlockRequestHeader.sizeof
  | .write _ data => BlockRequestHeader.sizeof + data.length

/-- The size of the writable part: the data of a read, and the status byte. -/
def writeSize : Cmd → Nat
  | .read _ n => n * sectorSize + 1
  | .write .. => 1

/-- The number of bytes that the I/O moves. -/
def ioSize : Cmd → Nat
  | .read _ n => n * sectorSize
  | .write _ data => data.length

/-- The result has the size of the writable part. -/
lemma exec_length : (cmd.exec d).2.length = cmd.writeSize := by
  cases cmd with
  | read sector n => simp [exec, writeSize]
  | write sector data => rfl

/-- A request inside the capacity does not change the size of the disk. -/
lemma exec_len (fits : cmd.Fits capacity) (cap : capacity * sectorSize ≤ d.len) :
    (cmd.exec d).1.len = d.len := by
  cases cmd with
  | read sector n => rfl
  | write sector data =>
    obtain ⟨_, h2, h3⟩ := fits
    simp only [exec, Disk.overwrite]
    simp only [sectorSize] at h2 h3 cap ⊢
    omega

end Cmd

/-- A request of the driver: the head of its chain, the two parts of the chain and what it asks for. -/
structure Request where
  head : Nat
  readable : List VirtioDesc
  writable : List VirtioDesc
  cmd : Cmd
  deriving DecidableEq, Repr

/-- The request in a chain, if it is of a type that the device knows. -/
def request (m : GuestMemMap) (qs : QueueState) (head : Nat) : Option Request :=
  (chain m qs head).bind fun l =>
    let bs := gather m (readablePart l)
    let h := headerOf bs
    let sector := h.sectorNum.toNat
    if h.type = virtioBlkTIn then
      some ⟨head, readablePart l, writablePart l, .read sector ((total (writablePart l) - 1) / sectorSize)⟩
    else if h.type = virtioBlkTOut then
      some ⟨head, readablePart l, writablePart l, .write sector (bs.drop BlockRequestHeader.sizeof)⟩
    else
      none

namespace Request

/-- The descriptors of a request. -/
def footprint (x : Request) : List VirtioDesc :=
  x.readable ++ x.writable

/-- A request as the driver should make it: its readable part is the header and the data to be written, its
writable part has room for the data to be read and the status byte, it is inside the capacity, and the host moves
its data in one call. -/
@[mk_iff]
structure Ok (x : Request) (capacity : Nat) : Prop where
  readable : ∀ d ∈ x.readable, d.isWrite = false
  writable : ∀ d ∈ x.writable, d.isWrite = true
  total : total x.readable + total x.writable < 2 ^ 31
  fits : x.cmd.Fits capacity
  readSize : Virtio.total x.readable = x.cmd.readSize
  writeSize : Virtio.total x.writable = x.cmd.writeSize
  ioSize : x.cmd.ioSize ≤ maxRwCount

instance (x : Request) (capacity : Nat) : Decidable (x.Ok capacity) :=
  decidable_of_iff' _ (ok_iff x capacity)

/-- What the device makes of a request before its I/O. -/
def io (x : Request) : AsyncIoReq :=
  match x.cmd with
  | .read sector n =>
    ⟨.ofNat (sector * sectorSize), .zero (n * sectorSize + 1), n * sectorSize, false,
      ⟨virtioBlkTIn, ((n * sectorSize + 1 : Nat) : Int), 0, x.head⟩⟩
  | .write sector data =>
    ⟨.ofNat (sector * sectorSize), ⟨data.length, splice (fun _ => 0) 0 data⟩, data.length, true,
      ⟨virtioBlkTOut, 0, 0, x.head⟩⟩

/-- What it becomes by its I/O, with the given result. -/
def ioDone (x : Request) (result : List UInt8) : AsyncIoReq :=
  match x.cmd with
  | .read .. =>
    { x.io with buf := { x.io.buf with bytes := splice x.io.buf.bytes 0 result.dropLast } }
  | .write .. => x.io

variable {x : Request} {bs : List UInt8}

/-- The requests of the model are for queue 0. -/
@[simp]
lemma io_queue : x.io.arg.queueIdx = 0 := by
  simp only [io]
  split <;> rfl

/-- A request is answered with its own head. -/
@[simp]
lemma io_head : x.io.arg.descIdx = x.head := by
  simp only [io]
  split <;> rfl

/-- The I/O does not change whom a request is answered to. -/
@[simp]
lemma ioDone_arg : (x.ioDone bs).arg = x.io.arg := by
  simp only [ioDone]
  split <;> rfl

end Request

variable {m m' : GuestMemMap} {qs : QueueState} {head capacity : Nat} {x : Request} {d : Disk}
  {s : VirtioBlockDevice} {w : Fin virtioBlkMaxQueueNum}

/-- What a request says about its chain. -/
lemma request_chain (h : request m qs head = some x) :
    x.head = head ∧ chain m qs head = some (x.readable ++ x.writable) := by
  obtain ⟨l, e, h⟩ := Option.bind_eq_some_iff.mp h
  have split : readablePart l ++ writablePart l = l := List.takeWhile_append_dropWhile
  simp only at h
  split at h
  · cases h
    exact ⟨rfl, by rw [split, e]⟩
  · split at h
    · cases h
      exact ⟨rfl, by rw [split, e]⟩
    · cases h

/-- The request in a chain depends on the chain and its readable bytes only. -/
lemma request_congr (h : request m qs head = some x) (e : chain m' qs head = chain m qs head)
    (bytes : gather m' x.readable = gather m x.readable) : request m' qs head = some x := by
  have h' := h
  simp only [request] at h ⊢
  rw [e]
  obtain ⟨l, el, h⟩ := Option.bind_eq_some_iff.mp h
  have read : x.readable = readablePart l := by
    split at h
    · cases h
      rfl
    · split at h
      · cases h
        rfl
      · cases h
  rw [read] at bytes
  simp only [request, el, Option.bind_some] at h' ⊢
  rw [bytes]
  exact h'

/-- A request of a queue that is not too long has a well-formed chain. -/
lemma Request.Ok.chainOk (ok : x.Ok capacity) (e : chain m qs x.head = some (x.readable ++ x.writable))
    (max : qs.num.toNat ≤ virtioBlkMaxQueueNum) : ChainOk m qs x.head x.readable x.writable := by
  have len := (chain_some e).2
  have small : virtioBlkMaxQueueNum < loopMax := by decide
  rw [List.length_append] at len
  exact ⟨e, ok.readable, ok.writable, ok.total, by omega⟩

/-! ## Taking a request -/

/-- The offset of a sector as a number of bytes. -/
lemma ioOffset_eq (sectorNum : UInt64) : ioOffset sectorNum = .ofNat (sectorNum.toNat * sectorSize) := by
  simp [ioOffset, UInt64.ofNat_mul]

/-- A well-formed chain is one of a request. -/
lemma ReqChain.of_chainOk {R W : List VirtioDesc} (h : ChainOk m qs head R W) : ReqChain m qs head R W :=
  ⟨h.isChain, h.readable, h.writable, h.total⟩

/-- What the device makes of a chain that asks to read `n` sectors. -/
lemma blockRequest_read {R W : List VirtioDesc} {n : Nat} (chainOk : ChainOk m qs head R W)
    (inside : BufInside m R) (header : BlockRequestHeader.sizeof ≤ total R)
    (type : (headerOf (gather m R)).type = virtioBlkTIn) (size : total W = n * sectorSize + 1) :
    blockRequest m qs 0 head (total R) (total W) =
      .ok (some ⟨.ofNat ((headerOf (gather m R)).sectorNum.toNat * sectorSize), .zero (total W),
        n * sectorSize, false, ⟨virtioBlkTIn, total W, 0, head⟩⟩) := by
  obtain ⟨runR, -⟩ := runOf_shape chainOk.readable chainOk.writable
  have reach : Reaches false (R ++ W) 0 BlockRequestHeader.sizeof :=
    chainOk.reaches (by decide) (by rw [runR]; omega)
  have count : wholeSectors (total W - 1) = n * sectorSize := by
    rw [wholeSectors, size, Nat.add_sub_cancel, Nat.mul_div_cancel n (by decide)]
  rw [(ReqChain.of_chainOk chainOk).blockRequest_in inside reach type (by omega), ioOffset_eq, count]

/-- What the device makes of a chain that asks to write whole sectors. -/
lemma blockRequest_write {R W : List VirtioDesc} {data : List UInt8} (chainOk : ChainOk m qs head R W)
    (inside : BufInside m R) (type : (headerOf (gather m R)).type = virtioBlkTOut)
    (bytes : (gather m R).drop BlockRequestHeader.sizeof = data) (pos : 0 < data.length)
    (whole : data.length % sectorSize = 0) (status : 1 ≤ total W) :
    blockRequest m qs 0 head (total R) (total W) =
      .ok (some ⟨.ofNat ((headerOf (gather m R)).sectorNum.toNat * sectorSize),
        ⟨data.length, splice (fun _ => 0) 0 data⟩, data.length, true, ⟨virtioBlkTOut, 0, 0, head⟩⟩) := by
  have size : data.length = total R - BlockRequestHeader.sizeof := by
    rw [← bytes, List.length_drop, gather_length]
  obtain ⟨runR, -⟩ := runOf_shape chainOk.readable chainOk.writable
  have reach : Reaches false (R ++ W) 0 BlockRequestHeader.sizeof :=
    chainOk.reaches (by decide) (by rw [runR]; omega)
  have near : Near R BlockRequestHeader.sizeof (total R - BlockRequestHeader.sizeof) :=
    ((reaches_false_iff chainOk.readable chainOk.writable).mp
      (chainOk.reaches (by omega) (by rw [runR]; omega))).2
  obtain ⟨⟨len, f⟩, hlen, hf, e⟩ := (ReqChain.of_chainOk chainOk).blockRequest_out inside reach type status (by omega)
  simp only at hlen hf
  rw [e, ioOffset_eq, hf near, bytes, hlen, ← size, wholeSectors, Nat.div_mul_cancel (Nat.dvd_of_mod_eq_zero whole)]

/-- The request that the device makes of a chain is the one the driver means. -/
lemma blockRequest_request (h : request m qs head = some x) (ok : x.Ok capacity)
    (max : qs.num.toNat ≤ virtioBlkMaxQueueNum) (inside : BufInside m x.readable) :
    blockRequest m qs 0 head (total x.readable) (total x.writable) = .ok (some x.io) := by
  obtain ⟨hh, e⟩ := request_chain h
  rw [← hh] at e
  have chainOk := ok.chainOk e max
  rw [hh] at chainOk
  have readSize := ok.readSize
  have writeSize := ok.writeSize
  have fits := ok.fits
  obtain ⟨l, -, h⟩ := Option.bind_eq_some_iff.mp h
  simp only at h
  split at h
  · rename_i type
    obtain rfl := Option.some.inj h
    rw [blockRequest_read chainOk inside readSize.ge type writeSize]
    simp only [Cmd.writeSize] at writeSize
    simp only [Request.io]
    rw [← writeSize]
  · split at h
    · rename_i type
      obtain rfl := Option.some.inj h
      obtain ⟨pos, whole, -⟩ := fits
      exact blockRequest_write chainOk inside type rfl pos whole writeSize.ge
    · cases h

/-- A round of `queue_notify` hands the request to the free worker. -/
lemma queueNotifyRound_request (h : request s.mem (s.queue 0) (nextHead s 0) = some x) (ok : x.Ok capacity)
    (max : (s.queue 0).num.toNat ≤ virtioBlkMaxQueueNum) (inside : BufInside s.mem x.readable)
    (free : s.dev.freeWorker = some w) :
    queueNotifyRound virtioBlockRecvRequest s 0 =
      .ok (true, advance (setWorker s w (.queued x.io)) 0 (nextHead s 0)) := by
  obtain ⟨hh, e⟩ := request_chain h
  rw [← hh] at e
  have chainOk := ok.chainOk e max
  rw [hh] at chainOk
  have run : threadPoolRun s.dev x.io = (0, s.dev.setWorker w (.queued x.io)) := by
    simp only [threadPoolRun, free]
  simp only [queueNotifyRound, getDescRwSize_chain chainOk, ok_bind, virtioBlockRecvRequest_eq,
    blockRequest_request h ok max inside, run]
  rfl

/-! ## Carrying out a request -/

/-- The I/O of a request is its sequential meaning. -/
lemma blockIoWorkerFn_request (ok : x.Ok capacity) (cap : capacity * sectorSize ≤ d.len)
    (len : d.len < 2 ^ 63) :
    blockIoWorkerFn d x.io = .ok (0, (x.cmd.exec d).1, x.ioDone (x.cmd.exec d).2) := by
  have fits := ok.fits
  have once := ok.ioSize
  cases e : x.cmd with
  | read sector n =>
    rw [e] at fits once
    obtain ⟨pos, fits⟩ := fits
    have io : x.io = ⟨.ofNat (sector * sectorSize), .zero (n * sectorSize + 1), n * sectorSize, false,
        ⟨virtioBlkTIn, ((n * sectorSize + 1 : Nat) : Int), 0, x.head⟩⟩ := by
      simp only [Request.io, e]
    have inside : sector * sectorSize + n * sectorSize ≤ d.len := by
      rw [← Nat.add_mul]
      exact (Nat.mul_le_mul_right _ fits).trans cap
    have off : (UInt64.ofNat (sector * sectorSize)).toNat = sector * sectorSize := by
      rw [UInt64.toNat_ofNat', Nat.mod_eq_of_lt (by omega)]
    rw [← off] at inside
    rw [blockIoWorkerFn_read d (by rw [io]) (by rw [io]; simp only [sectorSize]; omega)
      (by rw [io]; exact Nat.le_succ _)]
    simp only [io]
    rw [if_pos ⟨by omega, once, inside⟩, Disk.pread_inside inside len once, off]
    simp only [Cmd.exec, Request.ioDone, e, io, List.dropLast_concat]
  | write sector data =>
    rw [e] at fits once
    obtain ⟨pos, whole, fits⟩ := fits
    rw [Cmd.ioSize] at once
    have io : x.io = ⟨.ofNat (sector * sectorSize), ⟨data.length, splice (fun _ => 0) 0 data⟩, data.length,
        true, ⟨virtioBlkTOut, 0, 0, x.head⟩⟩ := by
      simp only [Request.io, e]
    simp only [sectorSize] at cap whole fits
    have off : (UInt64.ofNat (sector * sectorSize)).toNat = sector * sectorSize := by
      rw [UInt64.toNat_ofNat', Nat.mod_eq_of_lt (by simp only [sectorSize]; omega)]
    rw [blockIoWorkerFn_write d (by rw [io]) (by rw [io]; exact pos) (by rw [io])]
    simp only [io, off]
    rw [if_neg (by simp only [sectorSize]; omega), if_pos once, Nat.min_eq_left once, slice_splice_self]
    simp only [Cmd.exec, Request.ioDone, e, io]

/-! ## Answering a request -/

section Answer
variable {R W : List VirtioDesc} {buf : Obj} {ret : Int}
  (chainOk : ChainOk s.mem (s.queue 0) head R W) (inside : BufInside s.mem W)

include chainOk inside

/-- The answer to a request that asks to read, on a well-formed chain. -/
lemma virtioBlockReqEnd_in_chain (table : TableInside s.mem (s.queue 0)) (off : OffTable (s.queue 0) W)
    (status : 0 < total W) (size : buf.size = total W) :
    virtioBlockReqEnd s ⟨virtioBlkTIn, total W, 0, head⟩ buf ret =
      .ok (virtioConsumeDesc
        { s with mem := scatterAt s.mem W 0 (slice buf.bytes 0 (total W - 1) ++ [statusByte ret]) } 0 head
        (total W)) := by
  have len := chainOk.length
  have clear := chainOk.clear table inside off
  exact virtioBlockReqEnd_in (.of_chainOk chainOk) inside (by omega) clear.rest
    (near_of_length (by omega) status (by omega)) status size

/-- The answer to a request that asks to write, on a well-formed chain. -/
lemma virtioBlockReqEnd_out_chain {size : Int} (status : 0 < total W) :
    virtioBlockReqEnd s ⟨virtioBlkTOut, size, 0, head⟩ buf ret =
      .ok (virtioConsumeDesc { s with mem := scatterAt s.mem W 0 [statusByte ret] } 0 head 1) := by
  have len := chainOk.length
  have first := descIndex_lt status
  exact virtioBlockReqEnd_out (.of_chainOk chainOk) inside (by omega) (by omega) status

end Answer

/-- A request that was carried out is answered with its result and its head. -/
lemma virtioBlockReqEnd_request (ok : x.Ok capacity)
    (chainOk : ChainOk s.mem (s.queue 0) x.head x.readable x.writable) (inside : BufInside s.mem x.writable)
    (table : TableInside s.mem (s.queue 0)) (off : OffTable (s.queue 0) x.writable) :
    virtioBlockReqEnd s x.io.arg (x.ioDone (x.cmd.exec d).2).buf 0 =
      .ok (virtioConsumeDesc { s with mem := scatterAt s.mem x.writable 0 (x.cmd.exec d).2 } 0 x.head
        x.cmd.writeSize) := by
  have size := ok.writeSize
  cases e : x.cmd with
  | read sector n =>
    rw [e, Cmd.writeSize] at size
    obtain ⟨data, hdata⟩ : ∃ data, data = slice d.bytes (sector * sectorSize) (n * sectorSize) := ⟨_, rfl⟩
    have len : data.length = n * sectorSize := by rw [hdata, slice_length]
    have arg : x.io.arg = ⟨virtioBlkTIn, total x.writable, 0, x.head⟩ := by
      simp only [Request.io, e, size]
    have buf : (x.ioDone ((Cmd.read sector n).exec d).2).buf = ⟨total x.writable, splice (fun _ => 0) 0 data⟩ := by
      simp only [Request.ioDone, Request.io, e, Cmd.exec, List.dropLast_concat, ← hdata, size]
      rfl
    rw [arg, buf, virtioBlockReqEnd_in_chain chainOk inside table off (by omega) rfl, size, Nat.add_sub_cancel,
      slice_splice_of_length len, hdata]
    rfl
  | write sector data =>
    rw [e, Cmd.writeSize] at size
    have arg : x.io.arg = ⟨virtioBlkTOut, 0, 0, x.head⟩ := by
      simp only [Request.io, e]
    rw [arg, virtioBlockReqEnd_out_chain chainOk inside (by omega)]
    rfl

end Mvvmm.Block
