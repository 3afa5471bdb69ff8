import Mvvmm.Block.Machine

/-!
# Requests on their way through the device

`virtio_block_recv_request` first makes a request of the chain (`blockRequest`) and then submits it; the
equation is `virtioBlockRecvRequest_eq`. `blockRequest_sound` says what such a request looks like, and
`BlockRecv` lists what becomes of it: the chain is dropped, the request is handed to a free worker, or it
is refused and answered at once.
-/

namespace Mvvmm.Block
open Bytes CMem Virtio Run

variable {s s' : VirtioBlockDevice} {m m' : GuestMemMap} {qs : QueueState} {q : Fin maxQueue}
  {descIdx : Nat} {readSize writeSize ret : Int} {req : AsyncIoReq}

/-- The request that `virtio_block_recv_request` makes of a chain; `none` if it drops the chain. -/
def blockRequest (m : GuestMemMap) (qs : QueueState) (q : Fin maxQueue) (descIdx : Nat)
    (readSize writeSize : Int) : Except Stop (Option AsyncIoReq) := do
  let r ← memcpyFromQueue m (.zero BlockRequestHeader.sizeof) qs descIdx 0 BlockRequestHeader.sizeof
  if r.1 < 0 then
    return none
  else
    let h := BlockRequestHeader.decode r.2.bytes
    if h.type = virtioBlkTIn then
      let buf ← mallocZero writeSize
      let n := Int.tdiv (writeSize - 1) sectorSize
      return some (ioReq h.sectorNum buf n false ⟨h.type, writeSize, q, descIdx⟩)
    else if h.type = virtioBlkTOut then
      if writeSize < 1 then
        .error .abort
      else
        let len := i32 (readSize - BlockRequestHeader.sizeof)
        if len ≤ 0 then
          .error .abort
        else
          let buf ← mallocZero len
          let (_, buf) ← memcpyFromQueue m buf qs descIdx BlockRequestHeader.sizeof len
          return some (ioReq h.sectorNum buf (Int.tdiv len sectorSize) true ⟨h.type, 0, q, descIdx⟩)
    else
      return none

/-- Making the request and submitting it is all that `virtio_block_recv_request` does. -/
lemma virtioBlockRecvRequest_eq :
    virtioBlockRecvRequest s q descIdx readSize writeSize = (do
      match ← blockRequest s.mem (s.queue q) q descIdx readSize writeSize with
      | none => return (0, s)
      | some req =>
        let s ← submitted s req.arg req.buf (threadPoolRun s.dev req)
        return (0, s)) := by
  simp only [virtioBlockRecvRequest, blockRequest, bind_assoc]
  congr 1
  funext r
  split
  · rfl
  · split
    · simp only [bind_assoc]
      rfl
    · split
      · split
        · rfl
        · split
          · rfl
          · simp only [bind_assoc]
            rfl
      · rfl

/-- What every request in the device looks like: its type matches its direction, the buffer of a read is
as long as the writable part of the chain, and it is for `n` sectors that fit into the buffer. -/
structure AsyncIoReq.Sound (req : AsyncIoReq) : Prop where
  type : req.arg.type = virtioBlkTIn ∧ req.isWrite = false ∧ (req.buf.size : Int) = req.arg.writeSize ∨
    req.arg.type = virtioBlkTOut ∧ req.isWrite = true
  int : req.arg.writeSize < 2 ^ 31
  sectors : ∃ (sectorNum : UInt64) (n : Nat), req.offset = ioOffset sectorNum ∧
    req.count = n * sectorSize ∧ n * sectorSize < 2 ^ 31 ∧ n * sectorSize ≤ req.buf.size

/-- An allocated buffer has the size that was asked for. -/
lemma mallocZero_ok {size : Int} {buf : Obj} (h : mallocZero size = .ok buf) :
    (buf.size : Int) = size := by
  simp only [mallocZero] at h
  split at h
  · cases h
  · cases h
    simp only [Obj.zero]
    omega

/-- A request for the whole sectors in a buffer. -/
lemma ioReq_sectors {sectorNum : UInt64} {buf : Obj} {size : Int} {isWrite : Bool} {arg : BlockRequest}
    (h1 : -1 ≤ size) (h2 : size < 2 ^ 31) (hb : size ≤ buf.size) :
    ∃ (sector : UInt64) (n : Nat),
      (ioReq sectorNum buf (size.tdiv sectorSize) isWrite arg).offset = ioOffset sector ∧
        (ioReq sectorNum buf (size.tdiv sectorSize) isWrite arg).count = n * sectorSize ∧
          n * sectorSize < 2 ^ 31 ∧
            n * sectorSize ≤ (ioReq sectorNum buf (size.tdiv sectorSize) isWrite arg).buf.size := by
  have e : size.tdiv sectorSize = ((size.toNat / 512 : Nat) : Int) := by
    rcases h1.eq_or_lt with rfl | h0
    · rfl
    · rw [Int.tdiv_eq_ediv_of_nonneg (by omega)]
      simp only [sectorSize]
      omega
  refine ⟨sectorNum, size.toNat / 512, rfl, ?_, ?_, ?_⟩
  · simp only [ioReq, e]
    exact ioCount_eq (by simp only [sectorSize]; omega)
  · simp only [sectorSize]
    omega
  · simp only [sectorSize, ioReq]
    omega

/-- A request made of a chain is sound, and carries the queue and the head of the chain. The sizes of a
chain are `int`s. -/
lemma blockRequest_sound (hw : writeSize < 2 ^ 31)
    (h : blockRequest m qs q descIdx readSize writeSize = .ok (some req)) :
    req.Sound ∧ req.arg.queueIdx = q ∧ req.arg.descIdx = descIdx := by
  simp only [blockRequest] at h
  obtain ⟨r, _, h⟩ := bind_eq_ok.mp h
  split at h
  · cases h
  · split at h
    · rename_i type
      obtain ⟨buf, hb, h⟩ := bind_eq_ok.mp h
      obtain rfl := Option.some.inj (Except.ok.inj h)
      have size := mallocZero_ok hb
      refine ⟨⟨.inl ⟨type, rfl, size⟩, hw, ioReq_sectors ?_ ?_ ?_⟩, rfl, rfl⟩
      · omega
      · omega
      · omega
    · split at h
      · rename_i type
        split at h
        · cases h
        · split at h
          · cases h
          · rename_i pos
            obtain ⟨buf, hb, h⟩ := bind_eq_ok.mp h
            obtain ⟨⟨ret, buf'⟩, hc, h⟩ := bind_eq_ok.mp h
            obtain rfl := Option.some.inj (Except.ok.inj h)
            have size := mallocZero_ok hb
            have size' := memcpyFromQueue_size hc
            have bound := i32_bounds (readSize - BlockRequestHeader.sizeof)
            refine ⟨⟨.inr ⟨type, rfl⟩, (by decide : (0 : Int) < 2 ^ 31), ioReq_sectors ?_ ?_ ?_⟩, rfl, rfl⟩
            · omega
            · omega
            · simp only
              omega
      · cases h

/-- Answering a request writes the chain and then publishes it. -/
lemma virtioBlockReqEnd_ok {arg : BlockRequest} {buf : Obj}
    (h : virtioBlockReqEnd s arg buf ret = .ok s') :
    ∃ m' len, m'.size = s.mem.size ∧
      s' = virtioConsumeDesc { s with mem := m' } arg.queueIdx arg.descIdx len := by
  simp only [virtioBlockReqEnd] at h
  split at h
  · obtain ⟨buf', _, h⟩ := bind_eq_ok.mp h
    obtain ⟨⟨r, m'⟩, e, h⟩ := bind_eq_ok.mp h
    cases h
    exact ⟨m', _, memcpyToQueue_size e, rfl⟩
  · split at h
    · obtain ⟨buf', _, h⟩ := bind_eq_ok.mp h
      obtain ⟨⟨r, m'⟩, e, h⟩ := bind_eq_ok.mp h
      cases h
      exact ⟨m', _, memcpyToQueue_size e, rfl⟩
    · cases h

/-- All that `virtio_block_recv_request` can do with a chain. -/
inductive BlockRecv (s : VirtioBlockDevice) (q : Fin maxQueue) (descIdx : Nat)
    (readSize writeSize : Int) : VirtioBlockDevice → Prop where
  | drop (none : blockRequest s.mem (s.queue q) q descIdx readSize writeSize = .ok none) :
    BlockRecv s q descIdx readSize writeSize s
  | queue {req i} (made : blockRequest s.mem (s.queue q) q descIdx readSize writeSize = .ok (some req))
    (free : s.dev.freeWorker = some i) :
    BlockRecv s q descIdx readSize writeSize (setWorker s i (.queued req))
  | refuse {req s₁} (made : blockRequest s.mem (s.queue q) q descIdx readSize writeSize = .ok (some req))
    (full : s.dev.freeWorker = none) (eq : virtioBlockReqEnd s req.arg req.buf (-1) = .ok s₁) :
    BlockRecv s q descIdx readSize writeSize s₁

/-- Inversion of `virtioBlockRecvRequest`. -/
lemma virtioBlockRecvRequest_effect
    (h : virtioBlockRecvRequest s q descIdx readSize writeSize = .ok (ret, s')) :
    ret = 0 ∧ BlockRecv s q descIdx readSize writeSize s' := by
  rw [virtioBlockRecvRequest_eq] at h
  obtain ⟨req, made, h⟩ := bind_eq_ok.mp h
  cases req with
  | none =>
    cases h
    exact ⟨rfl, .drop made⟩
  | some req =>
    obtain ⟨s₁, e, h⟩ := bind_eq_ok.mp h
    cases h
    refine ⟨rfl, ?_⟩
    cases free : s.dev.freeWorker with
    | none =>
      have run : threadPoolRun s.dev req = (-1, s.dev) := by simp only [threadPoolRun, free]
      rw [run] at e
      exact .refuse made free e
    | some i =>
      have run : threadPoolRun s.dev req = (0, s.dev.setWorker i (.queued req)) := by
        simp only [threadPoolRun, free]
      rw [run] at e
      cases e
      exact .queue made free

/-- The worker that is found is idle. -/
lemma freeWorker_idle {ctx : BlockDeviceCtx} {i : Fin virtioBlkMaxQueueNum}
    (h : ctx.freeWorker = some i) : ctx.workers i = .idle := by
  have idle := List.find?_some h
  cases e : ctx.workers i with
  | idle => rfl
  | queued req => simp [e, Worker.isIdle] at idle
  | finished req ret => simp [e, Worker.isIdle] at idle
  | returning => simp [e, Worker.isIdle] at idle

/-- Carrying out the I/O of a request leaves all but the contents of its buffer. -/
lemma blockIoWorkerFn_buf {d d' : Disk} {req' : AsyncIoReq} (h : blockIoWorkerFn d req = .ok (ret, d', req')) :
    ∃ buf, buf.size = req.buf.size ∧ req' = { req with buf } := by
  simp only [blockIoWorkerFn] at h
  split at h
  · obtain ⟨l, _, h⟩ := bind_eq_ok.mp h
    cases h
    exact ⟨req.buf, rfl, rfl⟩
  · obtain ⟨buf, hb, h⟩ := bind_eq_ok.mp h
    cases h
    exact ⟨buf, Obj.store_size hb, rfl⟩

/-- Carrying out the I/O keeps the request sound. -/
lemma blockIoWorkerFn_sound {d d' : Disk} {req' : AsyncIoReq} (sound : req.Sound)
    (h : blockIoWorkerFn d req = .ok (ret, d', req')) : req'.Sound ∧ req'.arg = req.arg := by
  obtain ⟨buf, size, rfl⟩ := blockIoWorkerFn_buf h
  exact ⟨⟨by simpa only [size] using sound.type, sound.int, by simpa only [size] using sound.sectors⟩,
    rfl⟩

/-- The request of a worker, if it has one, has the property. -/
def Worker.All (P : AsyncIoReq → Prop) : Worker → Prop
  | .queued req => P req
  | .finished req _ => P req
  | _ => True

section Workers
variable {P : AsyncIoReq → Prop}

/-- A condition on the requests of all workers holds when one worker takes a request that meets it. -/
lemma all_setWorker {ctx : BlockDeviceCtx} {w : Fin virtioBlkMaxQueueNum} {x : Worker}
    (h : ∀ w, (ctx.workers w).All P) (hx : x.All P) : ∀ w', ((ctx.setWorker w x).workers w').All P := by
  intro w'
  simp only [BlockDeviceCtx.setWorker, Function.update_apply]
  split
  · exact hx
  · exact h w'

/-- An answer does not change the requests of the workers. -/
lemma all_reqEnd {arg : BlockRequest} {buf : Obj} (h : ∀ w, (s.dev.workers w).All P)
    (e : virtioBlockReqEnd s arg buf ret = .ok s') : ∀ w, (s'.dev.workers w).All P := by
  obtain ⟨m', len, -, rfl⟩ := virtioBlockReqEnd_ok e
  rw [virtioConsumeDesc_dev]
  exact h

/-- The requests that a round of the queue can make. -/
def Makes (s : VirtioBlockDevice) (q : Fin maxQueue) (req : AsyncIoReq) : Prop :=
  ∃ readSize writeSize,
    getDescRwSize s.mem (s.queue q) (nextHead s q) = .ok (some (readSize, writeSize)) ∧
      blockRequest s.mem (s.queue q) q (nextHead s q) readSize writeSize = .ok (some req)

/-- A request that is made is sound, and belongs to the chain it is made of. -/
lemma Makes.sound (h : Makes s q req) :
    req.Sound ∧ req.arg.queueIdx = q ∧ req.arg.descIdx = nextHead s q := by
  obtain ⟨readSize, writeSize, scan, made⟩ := h
  exact blockRequest_sound (getDescRwSize_isInt scan).2.2 made

/-- A condition on the requests of all workers is kept by a round, if the requests that rounds make meet it. -/
lemma all_round {go : Bool} (h : ∀ w, (s.dev.workers w).All P) (made : ∀ req, Makes s q req → P req)
    (eff : RoundEffect virtioBlockRecvRequest s q go s') : ∀ w, (s'.dev.workers w).All P := by
  have recv : ∀ {readSize writeSize ret s₁},
      getDescRwSize s.mem (s.queue q) (nextHead s q) = .ok (some (readSize, writeSize)) →
      virtioBlockRecvRequest s q (nextHead s q) readSize writeSize = .ok (ret, s₁) →
        ∀ w, (s₁.dev.workers w).All P := by
    intro readSize writeSize ret s₁ scan eq
    obtain ⟨-, eff⟩ := virtioBlockRecvRequest_effect eq
    cases eff with
    | drop _ => exact h
    | queue e _ => exact all_setWorker h (made _ ⟨_, _, scan, e⟩)
    | refuse _ _ e => exact all_reqEnd h e
  cases eff with
  | skip _ => exact h
  | pass scan eq _ =>
    have h₁ := recv scan eq
    exact h₁
  | stop scan eq _ => exact recv scan eq

/-- A step keeps a property of the requests of all workers that requests have when they are made and that their I/O
keeps. -/
lemma all_step {c c' : BlockMachine} {a : BlockAct}
    (made : ∀ q req, a = .dev .round → c.ctl.queue? = some q → Makes c.s q req → P req)
    (io : ∀ d req ret d' req', P req → blockIoWorkerFn d req = .ok (ret, d', req') → P req')
    (h : ∀ w, (c.s.dev.workers w).All P) (e : blockStep c a = .ok c') : ∀ w, (c'.s.dev.workers w).All P := by
  cases blockStep_effect e with
  | dev eff =>
    cases eff with
    | guest _ => exact h
    | mmioRead _ _ => exact h
    | @mmioWrite offset val size _ _ =>
      obtain ⟨-, dev, -⟩ : Untouched c.s (virtioMmioWriteReg c.s offset val size) :=
        virtioMmioWriteReg_untouched
      simp only [dev]
      exact h
    | start _ _ =>
      rw [Machine.startNotify_s]
      exact h
    | round ctl _ eq =>
      exact all_round h (fun req => made _ req rfl (by rw [ctl]; rfl)) (queueNotifyRound_effect eq)
    | done _ _ => exact h
  | @io w req ret disk req' queued eq =>
    have hw := h w
    rw [queued] at hw
    exact all_setWorker h (io _ _ _ _ _ hw eq)
  | @complete w req ret s' _ _ eq =>
    rw [Machine.startNotify_s]
    exact all_setWorker (all_reqEnd h eq) trivial
  | release _ _ => exact all_setWorker h trivial

/-- Such a property is one of the requests of all workers in every run. -/
lemma reach_all {guard : BlockMachine → BlockAct → Prop} {mem : GuestMemMap} {disk : Disk}
    {c : BlockMachine}
    (made : ∀ c q req, guard c (.dev .round) → c.ctl.queue? = some q → Makes c.s q req → P req)
    (io : ∀ d req ret d' req', P req → blockIoWorkerFn d req = .ok (ret, d', req') → P req')
    (r : Reach blockStep guard (blockInit mem disk) c) : ∀ w, (c.s.dev.workers w).All P := by
  refine r.invariant (I := fun c => ∀ w, (c.s.dev.workers w).All P) (fun w => trivial) ?_
  intro c a c' _ h hg e
  refine all_step ?_ io h e
  rintro q req rfl
  exact made c q req hg

end Workers

/-- A step keeps the requests of the workers sound. -/
lemma sound_step {c c' : BlockMachine} {a : BlockAct} (h : ∀ w, (c.s.dev.workers w).All AsyncIoReq.Sound)
    (e : blockStep c a = .ok c') : ∀ w, (c'.s.dev.workers w).All AsyncIoReq.Sound :=
  all_step (fun _ _ _ _ made => made.sound.1) (fun _ _ _ _ _ sound e => (blockIoWorkerFn_sound sound e).1) h e

/-- In every run the requests of the workers are sound. -/
lemma reach_sound {guard : BlockMachine → BlockAct → Prop} {mem : GuestMemMap} {disk : Disk}
    {c : BlockMachine} (r : Reach blockStep guard (blockInit mem disk) c) :
    ∀ w, (c.s.dev.workers w).All AsyncIoReq.Sound := by
  refine r.invariant (I := fun c => ∀ w, (c.s.dev.workers w).All AsyncIoReq.Sound) (fun w => trivial) ?_
  intro c a c' _ h _ e
  exact sound_step h e

end Mvvmm.Block
