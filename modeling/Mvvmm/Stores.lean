import Mvvmm.Block.Recv
import Mvvmm.Net.Device
import Mvvmm.Virtio.Notify
import Mvvmm.Virtio.Transfer

/-!
# Where the devices store

A device stores to guest memory only to answer a chain: it copies data to the writable descriptors, as far as it finds
them, and then it publishes an entry in the used ring. `Block.stores` and `Net.stores` list the positions of the guest
memory that a step of a device stores to, however the chain looks and also if the data change it on the way. The steps of
the guest itself, stores and writes to registers, are left out. What a step of a device does not list stays as it was
(`Block.blockStep_frame`, `Net.netStep_frame`). So the steps of the two devices are what `Serves` says of a device whose
queues are notified.
-/

namespace Mvvmm
open Bytes CMem Virtio Run

namespace Block
variable {c c' : BlockMachine} {s s' : VirtioBlockDevice} {q : Fin maxQueue} {req : AsyncIoReq} {arg : BlockRequest}
  {buf : Obj} {ret : Int} {p : Nat} {l : List Nat}

/-- What `virtio_block_req_end` copies to the chain, and how many bytes of it: the data of a read with the status behind
them, or the status of a write. -/
def answerData (req : BlockRequest) (buf : Obj) (ret : Int) : Except Stop (Obj × Int) := do
  if req.type = virtioBlkTIn then
    let buf ← buf.store (req.writeSize - 1) [statusByte ret]
    return (buf, req.writeSize)
  else
    let buf1 ← (Obj.zero 1).store 0 [statusByte ret]
    return (buf1, 1)

/-- The guest memory when `virtio_block_req_end` has copied its data to the chain and not yet published the entry. -/
def answerCopied (s : VirtioBlockDevice) (req : BlockRequest) (buf : Obj) (ret : Int) : Except Stop GuestMemMap := do
  let data ← answerData req buf ret
  let r ← memcpyToQueue s.mem (s.queue req.queueIdx) req.descIdx 0 data.1 data.2
  return r.2

/-- The positions that `virtio_block_req_end` stores to. -/
def answerTouched (s : VirtioBlockDevice) (req : BlockRequest) (buf : Obj) (ret : Int) : List Nat :=
  ((answerData req buf ret).toOption.elim [] fun data =>
    copyTouched s.mem (s.queue req.queueIdx) req.descIdx 0 data.1 data.2) ++
      (answerCopied s req buf ret).toOption.elim [] fun m => usedTouched m (s.queue req.queueIdx)

/-- Answering a request publishes its entry when the data have been copied. -/
lemma virtioBlockReqEnd_copied (h : virtioBlockReqEnd s arg buf ret = .ok s') :
    ∃ m' len, answerCopied s arg buf ret = .ok m' ∧ m'.size = s.mem.size ∧
      s' = virtioConsumeDesc { s with mem := m' } arg.queueIdx arg.descIdx len := by
  by_cases type : arg.type = virtioBlkTIn
  · rw [virtioBlockReqEnd, if_pos type] at h
    rw [answerCopied, answerData, if_pos type]
    obtain ⟨buf', stored, h⟩ := bind_eq_ok.mp h
    obtain ⟨⟨r, m'⟩, copied, h⟩ := bind_eq_ok.mp h
    cases h
    refine ⟨m', arg.writeSize, ?_, memcpyToQueue_size copied, rfl⟩
    rw [stored]
    exact congrArg (Except.map Prod.snd) copied
  · rw [virtioBlockReqEnd, if_neg type] at h
    rw [answerCopied, answerData, if_neg type]
    split at h
    · obtain ⟨buf', stored, h⟩ := bind_eq_ok.mp h
      obtain ⟨⟨r, m'⟩, copied, h⟩ := bind_eq_ok.mp h
      cases h
      refine ⟨m', 1, ?_, memcpyToQueue_size copied, rfl⟩
      rw [stored]
      exact congrArg (Except.map Prod.snd) copied
    · cases h

/-- Answering a request stores nowhere else. -/
lemma virtioBlockReqEnd_touched (int : arg.type = virtioBlkTIn → IsInt arg.writeSize)
    (h : virtioBlockReqEnd s arg buf ret = .ok s') (out : p ∉ answerTouched s arg buf ret) :
    s'.mem.hostMem p = s.mem.hostMem p := by
  obtain ⟨m', len, copied, -, rfl⟩ := virtioBlockReqEnd_copied h
  obtain ⟨data, e, rest⟩ := bind_eq_ok.mp copied
  obtain ⟨⟨r, m₁⟩, copy, rest⟩ := bind_eq_ok.mp rest
  cases rest
  rw [answerTouched, e, copied, List.mem_append, not_or] at out
  have count : IsInt data.2 := by
    simp only [answerData] at e
    split at e
    · rename_i type
      obtain ⟨_, _, e⟩ := bind_eq_ok.mp e
      cases e
      exact int type
    · obtain ⟨_, _, e⟩ := bind_eq_ok.mp e
      cases e
      exact ⟨by norm_num, by norm_num⟩
  rw [virtioConsumeDesc_mem, publishUsed_touched out.2]
  exact memcpyToQueue_touched count copy out.1

/-- The request that a round of the queue makes of the next chain. -/
def nextRequest (s : VirtioBlockDevice) (q : Fin maxQueue) : Option AsyncIoReq :=
  (getDescRwSize s.mem (s.queue q) (nextHead s q)).toOption.join.bind fun sizes =>
    (blockRequest s.mem (s.queue q) q (nextHead s q) sizes.1 sizes.2).toOption.join

/-- A request made by a round is the one of the next chain. -/
lemma Makes.nextRequest (h : Makes s q req) : nextRequest s q = some req := by
  obtain ⟨readSize, writeSize, scan, made⟩ := h
  rw [Block.nextRequest, scan]
  exact congrArg (fun r => r.toOption.join) made

/-- The positions that a step of the block device stores to, unless it is a step of the guest: those of an answer, when a
worker is done or the pool refuses a request. -/
def stores (c : BlockMachine) : BlockAct → Option (List Nat)
  | .dev (.guest ..) | .dev (.mmioWrite ..) => none
  | .dev .round => some <| c.ctl.queue?.elim [] fun q =>
    if c.s.dev.freeWorker.isSome then [] else
      (nextRequest c.s q).elim [] fun req => answerTouched c.s req.arg req.buf (-1)
  | .complete w =>
    match c.s.dev.workers w with
    | .finished req ret => some (answerTouched c.s req.arg req.buf ret)
    | _ => some []
  | _ => some []

/-- The size of the answer to a sound read is an `int`. -/
lemma AsyncIoReq.Sound.isInt (h : req.Sound) (type : req.arg.type = virtioBlkTIn) : IsInt req.arg.writeSize := by
  have lt := h.int
  rcases h.type with ⟨-, -, size⟩ | ⟨other, -⟩
  · unfold IsInt
    omega
  · rw [type] at other
    exact absurd other (by decide)

/-- A round of the block device stores to the positions of the answer to a refused request. -/
lemma round_touched {go : Bool} (h : RoundEffect virtioBlockRecvRequest s q go s')
    (out : s.dev.freeWorker = none → ∀ req ∈ nextRequest s q, p ∉ answerTouched s req.arg req.buf (-1)) :
    s'.mem.hostMem p = s.mem.hostMem p := by
  cases h with
  | skip scan => rfl
  | stop scan eq neg =>
    obtain ⟨rfl, _⟩ := virtioBlockRecvRequest_effect eq
    exact absurd neg (by decide)
  | @pass readSize writeSize ret s₁ scan eq nonneg =>
    obtain ⟨-, eff⟩ := virtioBlockRecvRequest_effect eq
    cases eff with
    | drop _ => rfl
    | queue _ _ => rfl
    | @refuse req _ made full eq' =>
      have makes : Makes s q req := ⟨_, _, scan, made⟩
      have same := virtioBlockReqEnd_touched makes.sound.1.isInt eq' (out full req makes.nextRequest)
      exact same

/-- A step of the block device stores nowhere else. -/
lemma blockStep_frame {a : BlockAct} (sound : ∀ w, (c.s.dev.workers w).All AsyncIoReq.Sound)
    (own : stores c a = some l) (h : blockStep c a = .ok c') (out : p ∉ l) : c'.s.mem.hostMem p = c.s.mem.hostMem p := by
  cases blockStep_effect h with
  | dev eff =>
    cases eff with
    | guest _ | mmioWrite _ _ => cases own
    | mmioRead _ _ | done _ _ => rfl
    | start _ _ => rw [Machine.startNotify_s]
    | @round q availIdx w go s' ctl _ eq =>
      refine round_touched (queueNotifyRound_effect eq) fun full req made => ?_
      have on : c.ctl.queue? = some q := by rw [ctl]; rfl
      have made : nextRequest c.s q = some req := made
      simp only [stores, on, full, made, Option.elim_some, Option.isSome_none, Bool.false_eq_true, if_false,
        Option.some.injEq] at own
      rwa [own]
  | io _ _ | release _ _ => rfl
  | @complete w req ret s' idle finished eq =>
    have sound := sound w
    rw [finished] at sound
    simp only [stores, finished, Option.some.injEq] at own
    rw [Machine.startNotify_s]
    have same := virtioBlockReqEnd_touched (p := p) sound.isInt eq (by rwa [own])
    exact same

/-! ## Seen from a queue -/

/-- The block device does not touch its queues when it receives a chain. -/
lemma recvKeeps : RecvKeeps virtioBlockRecvRequest := by
  intro s q descIdx readSize writeSize ret s' h
  obtain ⟨rfl, eff⟩ := virtioBlockRecvRequest_effect h
  refine ⟨le_rfl, ?_⟩
  cases eff with
  | drop _ => exact ⟨rfl, rfl, rfl⟩
  | queue _ _ => exact ⟨rfl, rfl, rfl⟩
  | refuse _ _ eq =>
    obtain ⟨m', len, size, rfl⟩ := virtioBlockReqEnd_ok eq
    exact ⟨virtioConsumeDesc_queue, virtioConsumeDesc_popped, by simpa using size⟩

/-- A step of the block device, as far as `queue_notify` is concerned. -/
lemma blockStep_notify (h : blockStep c a = .ok c') : NotifyEffect virtioBlockRecvRequest c c' := by
  cases blockStep_effect h with
  | dev eff => exact eff.notify
  | io _ _ => exact .other rfl rfl
  | complete idle _ eq =>
    obtain ⟨m', len, size, rfl⟩ := virtioBlockReqEnd_ok eq
    refine .start idle ?_ ?_
    · simp [setWorker]
    · simpa [setWorker] using size
  | release _ _ => exact .other rfl rfl

/-- Unless a head is popped, only the guest changes a queue. -/
lemma blockStep_queue {l : List Nat} (own : stores c a = some l) (h : blockStep c a = .ok c')
    (popped : c'.s.popped = c.s.popped) : c'.s.queue = c.s.queue := by
  cases blockStep_effect h with
  | dev eff =>
    cases eff with
    | guest _ | mmioWrite _ _ => cases own
    | mmioRead _ _ | done _ _ => rfl
    | start _ _ => rw [Machine.startNotify_s]
    | round _ _ eq =>
      obtain ⟨-, grown, -, -⟩ := (queueNotifyRound_effect eq).pops recvKeeps
      exact absurd (grown.symm.trans popped) (List.cons_ne_self _ _)
  | io _ _ | release _ _ => rfl
  | complete idle _ eq =>
    obtain ⟨m', len, -, rfl⟩ := virtioBlockReqEnd_ok eq
    rw [Machine.startNotify_s]
    exact virtioConsumeDesc_queue

/-- The block device, with sound requests. -/
lemma serves : Serves blockStep stores virtioBlockRecvRequest
    fun s => ∀ w, (s.dev.workers w).All AsyncIoReq.Sound where
  keeps := recvKeeps
  effect := blockStep_notify
  invariant := sound_step
  memory h := h
  frame sound own e _ out := blockStep_frame sound own e out
  queue _ _ own e popped := congrFun (blockStep_queue own e popped) _

end Block

namespace Net
variable {c c' : NetMachine} {s s' : VirtioNetDevice} {q : Fin maxQueue} {p : Nat} {l : List Nat} {pkt : List UInt8}

/-- The next receive buffer has room for a packet. -/
def fits (s : VirtioNetDevice) (pkt : List UInt8) : Bool :=
  virtioNetCanWritePacket s && (getDescRwSize s.mem (s.queue 0) (nextHead s 0)).toOption.join.any fun sizes =>
    i32 (headerSize + pkt.length) ≤ sizes.2

/-- The positions that `virtio_net_write_packet` stores to when it delivers a packet: those of the header, of the packet
and of the entry. -/
def packetTouched (s : VirtioNetDevice) (pkt : List UInt8) : List Nat :=
  let header : Obj := .zero headerSize
  let buf : Obj := ⟨pkt.length, splice (fun _ => 0) 0 pkt⟩
  copyTouched s.mem (s.queue 0) (nextHead s 0) 0 header headerSize ++
    (memcpyToQueue s.mem (s.queue 0) (nextHead s 0) 0 header headerSize).toOption.elim [] fun r =>
      copyTouched r.2 (s.queue 0) (nextHead s 0) headerSize buf pkt.length ++
        (memcpyToQueue r.2 (s.queue 0) (nextHead s 0) headerSize buf pkt.length).toOption.elim [] fun r =>
          usedTouched r.2 (s.queue 0)

/-- The positions that a step of the network device stores to, unless it is a step of the guest. A packet is never longer
than an `int` says. -/
def stores (c : NetMachine) : NetAct → Option (List Nat)
  | .dev (.guest ..) | .dev (.mmioWrite ..) => none
  | .dev .round => some <| c.ctl.queue?.elim [] fun q => usedTouched c.s.mem (c.s.queue q)
  | .rx pkt => if pkt.length < 2 ^ 31 then some (if fits c.s pkt then packetTouched c.s pkt else []) else none
  | _ => some []

/-- Delivering a packet stores nowhere else. -/
lemma virtioNetWritePacket_touched (len : pkt.length < 2 ^ 31) (h : virtioNetWritePacket s pkt = .ok s')
    (out : fits s pkt = true → p ∉ packetTouched s pkt) : s'.mem.hostMem p = s.mem.hostMem p := by
  simp only [virtioNetWritePacket] at h
  split at h
  · cases h
    rfl
  · rename_i can
    obtain ⟨sizes, scan, h⟩ := bind_eq_ok.mp h
    split at h
    · cases h
      rfl
    · split at h
      · cases h
        rfl
      · rename_i room
        obtain ⟨⟨r₁, m₁⟩, e₁, h⟩ := bind_eq_ok.mp h
        obtain ⟨⟨r₂, m₂⟩, e₂, h⟩ := bind_eq_ok.mp h
        obtain rfl := Except.ok.inj h
        have fit : fits s pkt = true := by
          rw [fits, scan, Bool.and_eq_true]
          exact ⟨by simpa using can, by simpa [Except.toOption] using room⟩
        have out := out fit
        simp only [packetTouched, e₁, e₂, Except.toOption, Option.elim_some, List.mem_append, not_or] at out
        obtain ⟨header, packet, entry⟩ := out
        have same : (publishUsed m₂ (s.queue 0) (nextHead s 0) (i32 (headerSize + pkt.length))).hostMem p =
            s.mem.hostMem p := by
          rw [publishUsed_touched entry, memcpyToQueue_touched (by unfold IsInt; omega) e₂ packet,
            memcpyToQueue_touched ⟨by norm_num [headerSize], by norm_num [headerSize]⟩ e₁ header]
        rw [← same]
        exact congrArg (fun m : GuestMemMap => m.hostMem p) virtioConsumeDesc_mem

/-- A round of the network device stores to the used ring. -/
lemma round_touched {go : Bool} (h : RoundEffect virtioNetRecvRequest s q go s') (out : p ∉ usedTouched s.mem (s.queue q)) :
    s'.mem.hostMem p = s.mem.hostMem p := by
  cases h with
  | skip scan => rfl
  | stop scan eq neg =>
    obtain ⟨rfl, -⟩ := virtioNetRecvRequest_effect eq
    exact absurd neg (by decide)
  | pass scan eq nonneg =>
    obtain ⟨-, ⟨-, rfl⟩ | ⟨dev, rfl⟩⟩ := virtioNetRecvRequest_effect eq
    · rfl
    · exact (congrArg (fun m : GuestMemMap => m.hostMem p) virtioConsumeDesc_mem).trans (publishUsed_touched out)

/-- A step of the network device stores nowhere else. -/
lemma netStep_frame {a : NetAct} (own : stores c a = some l) (h : netStep c a = .ok c') (out : p ∉ l) :
    c'.s.mem.hostMem p = c.s.mem.hostMem p := by
  cases a with
  | dev a =>
    cases devStep_effect h with
    | guest _ | mmioWrite _ _ => cases own
    | mmioRead _ _ | done _ _ => rfl
    | start _ _ => rw [Machine.startNotify_s]
    | @round q availIdx w go s' ctl _ eq =>
      have on : c.ctl.queue? = some q := by rw [ctl]; rfl
      simp only [stores, on, Option.elim_some, Option.some.injEq] at own
      exact round_touched (queueNotifyRound_effect eq) (by rwa [own])
  | rx pkt =>
    simp only [stores] at own
    split at own
    · rename_i len
      simp only [netStep] at h
      split at h
      · obtain ⟨s', e, h⟩ := bind_eq_ok.mp h
        cases h
        refine virtioNetWritePacket_touched len e fun fit => ?_
        rw [if_pos fit, Option.some.injEq] at own
        rwa [own]
      · cases h
    · cases own

/-! ## Seen from a queue -/

/-- The network device does not touch its queues when it receives a chain. -/
lemma recvKeeps : RecvKeeps virtioNetRecvRequest := by
  intro s q descIdx readSize writeSize ret s' h
  obtain ⟨rfl, ⟨-, rfl⟩ | ⟨dev, rfl⟩⟩ := virtioNetRecvRequest_effect h
  · exact ⟨le_rfl, rfl, rfl, rfl⟩
  · exact ⟨le_rfl, virtioConsumeDesc_queue, virtioConsumeDesc_popped, by simp⟩

/-- A step of the network device, as far as `queue_notify` is concerned. -/
lemma netStep_notify (h : netStep c a = .ok c') : NotifyEffect virtioNetRecvRequest c c' := by
  cases a with
  | dev a => exact (devStep_effect h).notify
  | rx pkt =>
    simp only [netStep] at h
    split at h
    · obtain ⟨s', e, h⟩ := bind_eq_ok.mp h
      obtain rfl := Except.ok.inj h
      obtain ⟨popped, -, -, size, -⟩ := virtioNetWritePacket_effect e
      exact .other popped size
    · cases h

/-- No step changes which queues are left to the backend. -/
lemma netStep_manualRecv {q : Fin maxQueue} (h : netStep c a = .ok c') :
    (c'.s.queue q).manualRecv = (c.s.queue q).manualRecv := by
  cases a with
  | dev a =>
    cases devStep_effect h with
    | guest _ | mmioRead _ _ | done _ _ => rfl
    | mmioWrite _ _ => exact virtioMmioWriteReg_untouched.manual q
    | start _ _ => rw [Machine.startNotify_s]
    | @round i availIdx w go s' _ _ eq =>
      obtain ⟨-, -, -, queue⟩ := (queueNotifyRound_effect eq).pops recvKeeps
      show (s'.queue q).manualRecv = _
      rw [queue, Function.update_apply]
      split
      · rename_i e
        rw [e]
        rfl
      · rfl
  | rx pkt =>
    simp only [netStep] at h
    split at h
    · obtain ⟨s', e, h⟩ := bind_eq_ok.mp h
      cases h
      exact (virtioNetWritePacket_effect e).2.1 q
    · cases h

/-- Unless a head is popped, only the guest changes a queue that is not left to the backend. -/
lemma netStep_queue {l : List Nat} {q : Fin maxQueue} (manual : (c.s.queue 0).manualRecv = true)
    (auto : (c.s.queue q).manualRecv = false) (own : stores c a = some l) (h : netStep c a = .ok c')
    (popped : c'.s.popped = c.s.popped) : c'.s.queue q = c.s.queue q := by
  cases a with
  | dev a =>
    cases devStep_effect h with
    | guest _ | mmioWrite _ _ => cases own
    | mmioRead _ _ | done _ _ => rfl
    | start _ _ => rw [Machine.startNotify_s]
    | round _ _ eq =>
      obtain ⟨-, grown, -, -⟩ := (queueNotifyRound_effect eq).pops recvKeeps
      exact absurd (grown.symm.trans popped) (List.cons_ne_self _ _)
  | rx pkt =>
    have ne : q ≠ 0 := by
      rintro rfl
      rw [manual] at auto
      cases auto
    simp only [netStep] at h
    split at h
    · obtain ⟨s', e, h⟩ := bind_eq_ok.mp h
      cases h
      exact (virtioNetWritePacket_effect e).2.2.2.2 q ne
    · cases h

/-- The network device, whose backend has the receive queue. -/
lemma serves : Serves netStep stores virtioNetRecvRequest fun s => (s.queue 0).manualRecv = true where
  keeps := recvKeeps
  effect := netStep_notify
  invariant manual e := (netStep_manualRecv e).trans manual
  memory h := h
  frame _ own e _ out := netStep_frame own e out
  queue manual auto own e popped := netStep_queue manual auto own e popped

/-- The receive queue is left to the backend in every run. -/
lemma reach_manualRecv {mem : GuestMemMap} {tap : Tap} (r : Reach netStep always (netInit mem tap) c) :
    (c.s.queue 0).manualRecv = true := by
  refine r.invariant (I := fun c => (c.s.queue 0).manualRecv = true) rfl ?_
  intro c a c' _ manual _ e
  exact (netStep_manualRecv e).trans manual

end Net

end Mvvmm
