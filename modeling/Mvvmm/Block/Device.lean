import Mvvmm.Virtio.Mmio

/-!
# The block device

Model of `blkdev.c` and of the block device of `virtio.c`. A request travels from
`virtioBlockRecvRequest` (C `virtio_block_recv_request`) through `blockReadAsync` or `blockWriteAsync`
into the slot of a worker of the thread pool, is carried out by `blockIoWorkerFn` (C
`block_io_worker_fn`) and answered by `virtioBlockReqEnd` (C `virtio_block_req_end`).

Of the thread pool the device sees what `thread_pool_run` does, and the `is_working` flags it looks at:
`Worker` is what a worker is busy with, and it is free for the pool only when `idle`. A worker that has
called the completion callback is still `returning`, until it clears its flag. The pool itself is
modelled in `Pool`.

A `Disk` is the image as `pread` and `pwrite` of a regular file see it on Linux. It carries the invariant that
there is nothing behind its end, so that a write past the end leaves a hole of zero bytes. An offset is
passed as an `off_t`, and the call fails if the range it is for does not end below `2 ^ 63`. One call moves
`maxRwCount` bytes at most, whatever it is asked for.
-/

namespace Mvvmm.Block
open Bytes CMem Virtio

/-! ## The disk image -/

/-- Linux `MAX_RW_COUNT`: the most bytes that one `pread` or `pwrite` moves. -/
def maxRwCount : Nat := 0x7ffff000

/-- A regular file: its length and its bytes, all zero behind the end. -/
structure Disk where
  len : Nat
  bytes : Nat → UInt8
  beyond : ∀ i, len ≤ i → bytes i = 0

namespace Disk
variable {d d' : Disk} {l : List UInt8} {offset : UInt64} {count : Nat}

/-- A file of `n` zero bytes. -/
def zero (n : Nat) : Disk :=
  ⟨n, fun _ => 0, fun _ _ => rfl⟩

/-- `pread`: what it returns and the bytes it puts into the buffer. -/
def pread (d : Disk) (count : Nat) (offset : UInt64) : Int × List UInt8 :=
  if offset.toNat + count ≥ 2 ^ 63 then
    (-1, [])
  else
    let n := min (min count maxRwCount) (d.len - offset.toNat)
    (Int.ofNat n, slice d.bytes offset.toNat n)

/-- The file overwritten from `a` on. -/
def overwrite (d : Disk) (a : Nat) (l : List UInt8) : Disk where
  len := max d.len (a + l.length)
  bytes := splice d.bytes a l
  beyond i h := by
    rw [splice_of_ge (by omega)]
    exact d.beyond i (by omega)

/-- `pwrite`: what it returns and the file afterwards. -/
def pwrite (d : Disk) (l : List UInt8) (offset : UInt64) : Int × Disk :=
  if offset.toNat + l.length ≥ 2 ^ 63 then
    (-1, d)
  else if l.length = 0 then
    (0, d)
  else
    let l := l.take maxRwCount
    (l.length, d.overwrite offset.toNat l)

/-- A read inside the image that one call can do returns all that it is asked for. -/
lemma pread_inside (h : offset.toNat + count ≤ d.len) (hl : d.len < 2 ^ 63) (hc : count ≤ maxRwCount) :
    d.pread count offset = (Int.ofNat count, slice d.bytes offset.toNat count) := by
  have h1 : ¬ offset.toNat + count ≥ 2 ^ 63 := by omega
  have h2 : min (min count maxRwCount) (d.len - offset.toNat) = count := by omega
  simp only [pread, if_neg h1, h2]

end Disk

/-! ## The device -/

/-- C `SECTOR_SIZE`. -/
def sectorSize : Nat := 512

/-- C `VIRTIO_BLK_MAX_QUEUE_NUM`: the advertised queue size and the number of workers. -/
def virtioBlkMaxQueueNum : Nat := 8

instance : NeZero virtioBlkMaxQueueNum :=
  ⟨by decide⟩

/-- C `VIRTIO_BLK_T_IN`. -/
def virtioBlkTIn : UInt32 := 0

/-- C `VIRTIO_BLK_T_OUT`. -/
def virtioBlkTOut : UInt32 := 1

/-- C `VIRTIO_BLK_S_OK`. -/
def virtioBlkSOk : UInt8 := 0

/-- C `VIRTIO_BLK_S_IOERR`. -/
def virtioBlkSIoerr : UInt8 := 1

/-- C `struct block_request_header`; nothing reads `ioprio`. -/
structure BlockRequestHeader where
  type : UInt32
  sectorNum : UInt64
  deriving DecidableEq, Repr

namespace BlockRequestHeader

/-- C `sizeof(struct block_request_header)`. -/
def sizeof : Nat := 16

/-- The header in the first 16 bytes. -/
def decode (f : Nat → UInt8) : BlockRequestHeader where
  type := .ofNat (leNat (slice f 0 4))
  sectorNum := .ofNat (leNat (slice f 8 8))

end BlockRequestHeader

/-- C `struct block_request`; its `buf` is the `buf` of the `AsyncIoReq`. -/
structure BlockRequest where
  type : UInt32
  writeSize : Int
  queueIdx : Fin maxQueue
  descIdx : Nat
  deriving DecidableEq, Repr

/-- C `struct async_io_req`; `arg` is what its callback is called with. -/
structure AsyncIoReq where
  offset : UInt64
  buf : Obj
  count : Nat
  isWrite : Bool
  arg : BlockRequest

/-- What a worker of the pool is busy with: a request whose I/O is to come, a request whose I/O is done
and whose callback is to come, or nothing any more, with the flag `is_working` still set. -/
inductive Worker where
  | idle
  | queued (req : AsyncIoReq)
  | finished (req : AsyncIoReq) (ret : Int)
  | returning

/-- The request a worker has not answered yet. -/
def Worker.req? : Worker → Option BlockRequest
  | .queued req => some req.arg
  | .finished req _ => some req.arg
  | _ => none

/-- C `!is_working[i]`. -/
def Worker.isIdle : Worker → Bool
  | .idle => true
  | _ => false

/-- C `struct block_device_ctx`. -/
structure BlockDeviceCtx where
  size : Nat
  disk : Disk
  workers : Fin virtioBlkMaxQueueNum → Worker

/-- The block device (C `struct virtio_block_device`). -/
abbrev VirtioBlockDevice := VirtioDevice BlockDeviceCtx

/-- What a worker is busy with from now on. -/
def BlockDeviceCtx.setWorker (ctx : BlockDeviceCtx) (i : Fin virtioBlkMaxQueueNum) (w : Worker) :
    BlockDeviceCtx :=
  { ctx with workers := Function.update ctx.workers i w }

/-- The first worker whose flag is clear. -/
def BlockDeviceCtx.freeWorker (ctx : BlockDeviceCtx) : Option (Fin virtioBlkMaxQueueNum) :=
  (List.finRange virtioBlkMaxQueueNum).find? fun i => (ctx.workers i).isIdle

/-- C `thread_pool_run`, before `quit` is set. -/
def threadPoolRun (ctx : BlockDeviceCtx) (req : AsyncIoReq) : Int × BlockDeviceCtx :=
  match ctx.freeWorker with
  | none => (-1, ctx)
  | some i => (0, ctx.setWorker i (.queued req))

/-- C `n * SECTOR_SIZE`, as the `size_t` that `pread` and `pwrite` are called with. -/
def ioCount (n : Int) : Nat :=
  (i32 (n * sectorSize) % 2 ^ 64).toNat

/-- C `sector_num * SECTOR_SIZE`. -/
def ioOffset (sectorNum : UInt64) : UInt64 :=
  sectorNum * .ofNat sectorSize

/-- The request that `block_read_async` and `block_write_async` fill in. -/
def ioReq (sectorNum : UInt64) (buf : Obj) (n : Int) (isWrite : Bool) (arg : BlockRequest) :
    AsyncIoReq :=
  ⟨ioOffset sectorNum, buf, ioCount n, isWrite, arg⟩

/-- C `block_read_async`. -/
def blockReadAsync (ctx : BlockDeviceCtx) (sectorNum : UInt64) (buf : Obj) (n : Int)
    (arg : BlockRequest) : Int × BlockDeviceCtx :=
  threadPoolRun ctx (ioReq sectorNum buf n false arg)

/-- C `block_write_async`. -/
def blockWriteAsync (ctx : BlockDeviceCtx) (sectorNum : UInt64) (buf : Obj) (n : Int)
    (arg : BlockRequest) : Int × BlockDeviceCtx :=
  threadPoolRun ctx (ioReq sectorNum buf n true arg)

/-- C `block_io_worker_fn` up to its callback: what the callback is called with, the disk and the request
afterwards. -/
def blockIoWorkerFn (d : Disk) (req : AsyncIoReq) : Except Stop (Int × Disk × AsyncIoReq) := do
  let (n, d, buf) ←
    if req.isWrite then do
      let l ← req.buf.load 0 req.count
      let r := d.pwrite l req.offset
      pure (r.1, r.2, req.buf)
    else do
      let r := d.pread req.count req.offset
      let buf ← req.buf.store 0 r.2
      pure (r.1, d, buf)
  let ret : Int := if n < 0 then -1 else if n ≠ req.count then -1 else 0
  return (ret, d, { req with buf })

/-- C `block_get_sector_count`. -/
def blockGetSectorCount (ctx : BlockDeviceCtx) : Nat :=
  ctx.size / sectorSize

/-- The status byte for what the I/O returned. -/
def statusByte (ret : Int) : UInt8 :=
  if ret < 0 then virtioBlkSIoerr else virtioBlkSOk

/-- C `virtio_block_req_end`. -/
def virtioBlockReqEnd (s : VirtioBlockDevice) (req : BlockRequest) (buf : Obj) (ret : Int) :
    Except Stop VirtioBlockDevice := do
  let q := req.queueIdx
  if req.type = virtioBlkTIn then
    let buf ← buf.store (req.writeSize - 1) [statusByte ret]
    let r ← memcpyToQueue s.mem (s.queue q) req.descIdx 0 buf req.writeSize
    return virtioConsumeDesc { s with mem := r.2 } q req.descIdx req.writeSize
  else if req.type = virtioBlkTOut then
    let buf1 ← (Obj.zero 1).store 0 [statusByte ret]
    let r ← memcpyToQueue s.mem (s.queue q) req.descIdx 0 buf1 1
    return virtioConsumeDesc { s with mem := r.2 } q req.descIdx 1
  else
    .error .abort

/-- The end of `virtio_block_recv_request`: a request that the pool refused is answered at once. -/
def submitted (s : VirtioBlockDevice) (req : BlockRequest) (buf : Obj) (r : Int × BlockDeviceCtx) :
    Except Stop VirtioBlockDevice :=
  let s := { s with dev := r.2 }
  if r.1 < 0 then virtioBlockReqEnd s req buf r.1 else return s

/-- C `virtio_block_recv_request`, which always returns 0. -/
def virtioBlockRecvRequest : DeviceRecv BlockDeviceCtx := fun s q descIdx readSize writeSize => do
  let r ← memcpyFromQueue s.mem (.zero BlockRequestHeader.sizeof) (s.queue q) descIdx 0
    BlockRequestHeader.sizeof
  if r.1 < 0 then
    return (0, s)
  else
    let h := BlockRequestHeader.decode r.2.bytes
    if h.type = virtioBlkTIn then
      let buf ← mallocZero writeSize
      let req : BlockRequest := ⟨h.type, writeSize, q, descIdx⟩
      let n := Int.tdiv (writeSize - 1) sectorSize
      let s ← submitted s req buf (blockReadAsync s.dev h.sectorNum buf n req)
      return (0, s)
    else if h.type = virtioBlkTOut then
      if writeSize < 1 then
        .error .abort
      else
        let len := i32 (readSize - BlockRequestHeader.sizeof)
        if len ≤ 0 then
          .error .abort
        else
          let buf ← mallocZero len
          let req : BlockRequest := ⟨h.type, 0, q, descIdx⟩
          let (_, buf) ← memcpyFromQueue s.mem buf (s.queue q) descIdx BlockRequestHeader.sizeof len
          let n := Int.tdiv len sectorSize
          let s ← submitted s req buf (blockWriteAsync s.dev h.sectorNum buf n req)
          return (0, s)
    else
      return (0, s)

/-- C `mvvm_init_virtio_blk` and `virtio_block_init`, for an image of the host. -/
def virtioBlockInit (mem : GuestMemMap) (disk : Disk) : VirtioBlockDevice :=
  let ctx : BlockDeviceCtx := ⟨disk.len, disk, fun _ => .idle⟩
  let s := virtioInit mem 2 8 (.ofNat virtioBlkMaxQueueNum) ctx
  { s with configSpace := splice s.configSpace 0 (leBytes 8 (blockGetSectorCount ctx)) }

end Mvvmm.Block
