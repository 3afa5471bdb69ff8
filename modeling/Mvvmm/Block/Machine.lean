import Mvvmm.Block.Io
import Mvvmm.Virtio.Machine

/-!
# The block device and its guest

To the steps of every device (`DevAct`) the block device adds those of its workers: a worker carries out
the I/O of its request (`io`), takes the lock and runs the completion callback (`complete`), which
answers the request and goes into `queue_notify`, and at last clears its flag (`release`). Only `complete`
needs the lock. A worker does not clear its flag before its callback has left `queue_notify`.
-/

namespace Mvvmm.Block
open Bytes CMem Virtio Run

/-- The block device and its guest. -/
abbrev BlockMachine := Machine BlockDeviceCtx (Fin virtioBlkMaxQueueNum)

/-- What happens to the block device and its guest. -/
inductive BlockAct where
  | dev (a : DevAct)
  /-- The worker calls `pread` or `pwrite`. -/
  | io (w : Fin virtioBlkMaxQueueNum)
  /-- The worker runs `virtio_block_req_cb`, up to the loop of `queue_notify`. -/
  | complete (w : Fin virtioBlkMaxQueueNum)
  /-- The worker clears `is_working`. -/
  | release (w : Fin virtioBlkMaxQueueNum)
  deriving DecidableEq, Repr

/-- The worker whose callback is in `queue_notify`. -/
def caller (c : BlockMachine) : Option (Fin virtioBlkMaxQueueNum) :=
  match c.ctl with
  | .idle => none
  | .notify _ _ w => w

/-- The device after a worker has gone on to something else. -/
def setWorker (s : VirtioBlockDevice) (w : Fin virtioBlkMaxQueueNum) (x : Worker) :
    VirtioBlockDevice :=
  { s with dev := s.dev.setWorker w x }

/-- A step of the block device. -/
def blockStep (c : BlockMachine) : BlockAct → Except Stop BlockMachine
  | .dev a => devStep virtioBlockRecvRequest c a
  | .io w =>
    match c.s.dev.workers w with
    | .queued req => do
      let (ret, disk, req) ← blockIoWorkerFn c.s.dev.disk req
      let s := { c.s with dev := { c.s.dev with disk } }
      return { c with s := setWorker s w (.finished req ret) }
    | _ => .error .blocked
  | .complete w =>
    match c.ctl, c.s.dev.workers w with
    | .idle, .finished req ret => do
      let s ← virtioBlockReqEnd c.s req.arg req.buf ret
      return Machine.startNotify { c with s := setWorker s w .returning } req.arg.queueIdx (some w)
    | _, _ => .error .blocked
  | .release w =>
    match c.s.dev.workers w with
    | .returning =>
      if caller c = some w then
        .error .blocked
      else
        return { c with s := setWorker c.s w .idle }
    | _ => .error .blocked

/-- The block device at start-up. -/
def blockInit (mem : GuestMemMap) (disk : Disk) : BlockMachine :=
  ⟨virtioBlockInit mem disk, .idle⟩

variable {c c' : BlockMachine} {a : BlockAct}

/-- All that a step of the block device can do. -/
inductive BlockEffect (c : BlockMachine) : BlockAct → BlockMachine → Prop where
  | dev {a : DevAct} {c' : BlockMachine} (eff : DevEffect virtioBlockRecvRequest c a c') :
    BlockEffect c (.dev a) c'
  | io {w req ret disk req'} (queued : c.s.dev.workers w = .queued req)
    (eq : blockIoWorkerFn c.s.dev.disk req = .ok (ret, disk, req')) :
    BlockEffect c (.io w)
      { c with
        s := setWorker { c.s with dev := { c.s.dev with disk } } w (.finished req' ret) }
  | complete {w req ret s'} (idle : c.ctl = .idle) (finished : c.s.dev.workers w = .finished req ret)
    (eq : virtioBlockReqEnd c.s req.arg req.buf ret = .ok s') :
    BlockEffect c (.complete w)
      (Machine.startNotify { c with s := setWorker s' w .returning } req.arg.queueIdx (some w))
  | release {w} (returning : c.s.dev.workers w = .returning) (ne : caller c ≠ some w) :
    BlockEffect c (.release w) { c with s := setWorker c.s w .idle }

/-- Inversion of `blockStep`. -/
lemma blockStep_effect (h : blockStep c a = .ok c') : BlockEffect c a c' := by
  cases a with
  | dev a => exact .dev (devStep_effect h)
  | io w =>
    simp only [blockStep] at h
    split at h
    · rename_i req hw
      obtain ⟨⟨ret, disk, req'⟩, e, h⟩ := bind_eq_ok.mp h
      cases h
      exact .io hw e
    · cases h
  | complete w =>
    simp only [blockStep] at h
    split at h
    · rename_i req ret hc hw
      obtain ⟨s', e, h⟩ := bind_eq_ok.mp h
      cases h
      exact .complete hc hw e
    · cases h
  | release w =>
    simp only [blockStep] at h
    split at h
    · rename_i hw
      split at h
      · cases h
      · rename_i ne
        cases h
        exact .release hw ne
    · cases h

/-! ## A small guest -/

/-- The 16 bytes of the header of a request. -/
def BlockRequestHeader.encode (h : BlockRequestHeader) : List UInt8 :=
  leBytes 4 h.type.toNat ++ leBytes 4 0 ++ leBytes 8 h.sectorNum.toNat

/-- A guest memory of one page with a descriptor table at 0, an available ring at 256 that offers
the chain with head 0, and the header of a request at 768. -/
def requestMem (descs : List VirtioDesc) (h : BlockRequestHeader) : GuestMemMap :=
  .onePage (splices (fun _ => 0)
    [(0, descs.flatMap VirtioDesc.encode), (256, leBytes 2 0 ++ leBytes 2 1 ++ leBytes 2 0),
      (768, h.encode)])

/-- The guest puts the available ring of queue 0 at 256 and its used ring at 512, and kicks it. -/
def setupAndKick : List BlockAct :=
  [.dev (.mmioWrite 0x090 256 4), .dev (.mmioWrite 0x0a0 512 4), .dev (.mmioWrite 0x044 1 4),
    .dev (.mmioWrite 0x050 0 4)]

end Mvvmm.Block
