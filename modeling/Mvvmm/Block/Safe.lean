import Mvvmm.Block.Recv
import Mvvmm.Virtio.Copy

/-!
# What kills the monitor

A step of the machine is `Safe` if it neither reaches an `abort()` nor leaves an allocated object. Each
function gets a lemma that says when it is safe; they compose through `safe_bind_iff`. The scan of a chain
and the I/O of a sound request always are. What is left are the conditions of `Survives`:

* a read of the configuration space has a size of 1, 2 or 4 bytes,
* the copies between a chain and a request stay inside the buffer (`CopyInside`),
* a write request has a payload and a writable byte for its status, and a read request has a writable
  part of at least one byte when it is answered.

`blockStep_safe_iff` says that there are no others: in every reachable state a step is safe if and only if
it meets them.
-/

namespace Mvvmm.Block
open Bytes CMem Virtio Run

section Device
variable {B : Type} {s : VirtioDevice B}

/-- A read of the configuration space has one of the sizes that `virtio_config_read` knows. -/
def ReadSurvives (offset size : Nat) : Prop :=
  virtioMmioConfig ≤ offset → size = 1 ∨ size = 2 ∨ size = 4

instance (offset size : Nat) : Decidable (ReadSurvives offset size) :=
  inferInstanceAs (Decidable (_ → _))

/-- A read of the configuration space is safe for the sizes that it knows. -/
lemma virtioConfigRead_safe_iff {offset size : Nat} :
    Safe (virtioConfigRead s offset size) ↔ size = 1 ∨ size = 2 ∨ size = 4 := by
  unfold virtioConfigRead
  split
  · split <;> simp [pure, Except.pure, safe_ok]
  · split <;> simp [pure, Except.pure, safe_ok]
  · split <;> simp [pure, Except.pure, safe_ok]
  · rename_i h1 h2 h4
    simp only [not_safe_abort, false_iff]
    rintro (h | h | h)
    · exact h1 h
    · exact h2 h
    · exact h4 h

/-- A read of a register is safe if and only if it survives. -/
lemma virtioMmioRead_safe_iff {offset size : Nat} :
    Safe (virtioMmioRead s offset size) ↔ ReadSurvives offset size := by
  unfold virtioMmioRead ReadSurvives
  by_cases h : offset ≥ virtioMmioConfig
  · rw [if_pos h, virtioConfigRead_safe_iff]
    exact ⟨fun hs _ => hs, fun hs => hs h⟩
  · rw [if_neg h]
    refine iff_of_true ?_ (fun h' => absurd h' h)
    split
    · split <;> exact safe_ok _
    · exact safe_ok _

end Device

variable {c : BlockMachine} {s : VirtioBlockDevice} {m : GuestMemMap} {qs : QueueState}
  {q : Fin maxQueue} {descIdx : Nat} {readSize writeSize ret : Int} {req : AsyncIoReq}
  {arg : BlockRequest} {buf : Obj}

/-- The I/O of a sound request is safe. -/
lemma blockIoWorkerFn_safe {d : Disk} (sound : req.Sound) : Safe (blockIoWorkerFn d req) := by
  obtain ⟨-, n, -, count, -, size⟩ := sound.sectors
  have hl : (d.pread req.count req.offset).2.length ≤ req.count := by
    simp only [Disk.pread]
    split
    · simp
    · simp
  simp only [blockIoWorkerFn]
  split
  · rw [Obj.load_ok le_rfl (by omega)]
    exact safe_ok _
  · rw [Obj.store_ok le_rfl (by omega)]
    exact safe_ok _

/-! ## Answering a request -/

/-- The buffer with the status in the last of its first `n` bytes. -/
def withStatus (buf : Obj) (n ret : Int) : Obj :=
  { buf with bytes := splice buf.bytes (n - 1).toNat [statusByte ret] }

/-- What `virtio_block_req_end` needs: the status byte of a read is in the buffer, and the copy to the
chain stays inside the buffer. -/
def AnswerSurvives (s : VirtioBlockDevice) (arg : BlockRequest) (buf : Obj) (ret : Int) : Prop :=
  if arg.type = virtioBlkTIn then
    1 ≤ arg.writeSize ∧
      CopyInside s.mem (withStatus buf arg.writeSize ret) (s.queue arg.queueIdx) arg.descIdx 0
        arg.writeSize true
  else
    CopyInside s.mem (withStatus (.zero 1) 1 ret) (s.queue arg.queueIdx) arg.descIdx 0 1 true

instance (s : VirtioBlockDevice) (arg : BlockRequest) (buf : Obj) (ret : Int) :
    Decidable (AnswerSurvives s arg buf ret) :=
  inferInstanceAs (Decidable (if arg.type = virtioBlkTIn then _ else _))

/-- The status goes to the last byte of the buffer of a read. -/
lemma store_status {n : Int} (h : 1 ≤ n) (hb : n ≤ buf.size) :
    buf.store (n - 1) [statusByte ret] = .ok (withStatus buf n ret) := by
  rw [Obj.store_ok (by omega) (by simp only [List.length_singleton]; omega)]
  rfl

/-- An answer is safe if and only if it survives. -/
lemma virtioBlockReqEnd_safe_iff
    (type : arg.type = virtioBlkTIn ∧ (buf.size : Int) = arg.writeSize ∨ arg.type = virtioBlkTOut)
    (int : arg.writeSize < 2 ^ 31) :
    Safe (virtioBlockReqEnd s arg buf ret) ↔ AnswerSurvives s arg buf ret := by
  simp only [virtioBlockReqEnd, AnswerSurvives]
  rcases type with ⟨hIn, size⟩ | hOut
  · rw [if_pos hIn, if_pos hIn]
    by_cases h : 1 ≤ arg.writeSize
    · have copy : Safe (memcpyToQueue s.mem (s.queue arg.queueIdx) arg.descIdx 0
          (withStatus buf arg.writeSize ret) arg.writeSize) ↔ _ :=
        memcpyToQueue_safe_iff (by omega) int size
      rw [store_status h size.ge, ok_bind, safe_bind_iff, copy, and_iff_right h]
      exact and_iff_left fun _ _ => safe_ok _
    · rw [Obj.store_neg (by omega)]
      exact iff_of_false not_safe_range fun h' => h h'.1
  · have ne : ¬ arg.type = virtioBlkTIn := by
      rw [hOut]
      decide
    have copy : Safe (memcpyToQueue s.mem (s.queue arg.queueIdx) arg.descIdx 0
        (withStatus (.zero 1) 1 ret) 1) ↔ _ :=
      memcpyToQueue_safe_iff (by decide) (by decide) rfl
    have store : (Obj.zero 1).store 0 [statusByte ret] = .ok (withStatus (.zero 1) 1 ret) :=
      store_status (n := 1) le_rfl le_rfl
    rw [if_neg ne, if_neg ne, if_pos hOut, store, ok_bind, safe_bind_iff, copy]
    exact and_iff_left fun _ _ => safe_ok _

/-! ## Taking a request -/

/-- What `virtio_block_recv_request` needs of a request, once its header is read. -/
def RequestSurvives (m : GuestMemMap) (qs : QueueState) (descIdx : Nat) (readSize writeSize : Int)
    (h : BlockRequestHeader) : Prop :=
  let len := i32 (readSize - BlockRequestHeader.sizeof)
  if h.type = virtioBlkTIn then
    0 ≤ writeSize
  else if h.type = virtioBlkTOut then
    1 ≤ writeSize ∧ 0 < len ∧
      CopyInside m (.zero len.toNat) qs descIdx BlockRequestHeader.sizeof len false
  else
    True

instance (m : GuestMemMap) (qs : QueueState) (descIdx : Nat) (readSize writeSize : Int)
    (h : BlockRequestHeader) : Decidable (RequestSurvives m qs descIdx readSize writeSize h) :=
  inferInstanceAs
    (Decidable (if h.type = virtioBlkTIn then _ else if h.type = virtioBlkTOut then _ else _))

/-- What the first 16 readable bytes of a chain are to `virtio_block_recv_request`. -/
def readHeader (m : GuestMemMap) (qs : QueueState) (descIdx : Nat) : Except Stop (Int × Obj) :=
  memcpyFromQueue m (.zero BlockRequestHeader.sizeof) qs descIdx 0 BlockRequestHeader.sizeof

/-- What making a request of a chain needs. -/
def HeaderSurvives (m : GuestMemMap) (qs : QueueState) (descIdx : Nat) (readSize writeSize : Int) :
    Prop :=
  CopyInside m (.zero BlockRequestHeader.sizeof) qs descIdx 0 BlockRequestHeader.sizeof false ∧
    ∀ r ∈ (readHeader m qs descIdx).toOption, 0 ≤ r.1 →
      RequestSurvives m qs descIdx readSize writeSize (.decode r.2.bytes)

instance (m : GuestMemMap) (qs : QueueState) (descIdx : Nat) (readSize writeSize : Int) :
    Decidable (HeaderSurvives m qs descIdx readSize writeSize) :=
  inferInstanceAs (Decidable (_ ∧ ∀ r ∈ _, _))

/-- The request of a chain is made safely if and only if its header survives. -/
lemma blockRequest_safe_iff :
    Safe (blockRequest m qs q descIdx readSize writeSize) ↔
      HeaderSurvives m qs descIdx readSize writeSize := by
  have copy : Safe (readHeader m qs descIdx) ↔ _ :=
    memcpyFromQueue_safe_iff (by decide) (by decide) rfl
  simp only [blockRequest, HeaderSurvives]
  rw [safe_bind_iff, ← readHeader, copy]
  refine and_congr_right fun _ => ?_
  have mem : ∀ r, r ∈ (readHeader m qs descIdx).toOption ↔ readHeader m qs descIdx = .ok r := by
    intro r
    cases readHeader m qs descIdx <;> simp [Except.toOption]
  simp only [mem]
  refine forall_congr' fun r => imp_congr_right fun _ => ?_
  by_cases neg : r.1 < 0
  · rw [if_pos neg]
    exact iff_of_true (safe_ok _) (fun h => absurd neg (by omega))
  · rw [if_neg neg]
    simp only [show 0 ≤ r.1 from by omega, true_imp_iff, RequestSurvives]
    by_cases hIn : (BlockRequestHeader.decode r.2.bytes).type = virtioBlkTIn
    · rw [if_pos hIn, if_pos hIn]
      by_cases h : 0 ≤ writeSize
      · rw [mallocZero_of_nonneg h]
        exact iff_of_true (safe_ok _) h
      · rw [mallocZero, if_pos (by omega)]
        exact iff_of_false not_safe_range h
    · rw [if_neg hIn, if_neg hIn]
      by_cases hOut : (BlockRequestHeader.decode r.2.bytes).type = virtioBlkTOut
      · rw [if_pos hOut, if_pos hOut]
        have bounds := i32_bounds (readSize - BlockRequestHeader.sizeof)
        by_cases h1 : writeSize < 1
        · rw [if_pos h1]
          exact iff_of_false not_safe_abort (by omega)
        · rw [if_neg h1]
          by_cases h2 : i32 (readSize - BlockRequestHeader.sizeof) ≤ 0
          · rw [if_pos h2]
            exact iff_of_false not_safe_abort (by omega)
          · rw [if_neg h2, mallocZero_of_nonneg (by omega), ok_bind, safe_bind_iff,
              memcpyFromQueue_safe_iff (by omega) (by omega) (by simp only [Obj.zero]; omega)]
            simp [pure, Except.pure, safe_ok, show 1 ≤ writeSize from by omega,
              show 0 < i32 (readSize - BlockRequestHeader.sizeof) from by omega]
      · rw [if_neg hOut, if_neg hOut]
        exact iff_of_true (safe_ok _) trivial

/-- What `virtio_block_recv_request` needs of a chain. A request that finds no free worker is answered at
once. -/
def ChainSurvives (s : VirtioBlockDevice) (q : Fin maxQueue) (descIdx : Nat)
    (readSize writeSize : Int) : Prop :=
  HeaderSurvives s.mem (s.queue q) descIdx readSize writeSize ∧
    (s.dev.freeWorker = none →
      ∀ req ∈ (blockRequest s.mem (s.queue q) q descIdx readSize writeSize).toOption.join,
        AnswerSurvives s req.arg req.buf (-1))

instance (s : VirtioBlockDevice) (q : Fin maxQueue) (descIdx : Nat) (readSize writeSize : Int) :
    Decidable (ChainSurvives s q descIdx readSize writeSize) :=
  inferInstanceAs (Decidable (_ ∧ (_ → ∀ req ∈ _, _)))

/-- The answer to a sound request is safe if and only if it survives. -/
lemma AsyncIoReq.Sound.answer_safe_iff (sound : req.Sound) :
    Safe (virtioBlockReqEnd s req.arg req.buf ret) ↔ AnswerSurvives s req.arg req.buf ret := by
  refine virtioBlockReqEnd_safe_iff ?_ sound.int
  rcases sound.type with ⟨type, -, size⟩ | ⟨type, -⟩
  · exact .inl ⟨type, size⟩
  · exact .inr type

/-- A submission is safe if and only if the answer is that it makes for want of a worker. -/
lemma submitted_safe_iff (sound : req.Sound) :
    Safe (submitted s req.arg req.buf (threadPoolRun s.dev req)) ↔
      (s.dev.freeWorker = none → AnswerSurvives s req.arg req.buf (-1)) := by
  cases free : s.dev.freeWorker with
  | none =>
    have run : threadPoolRun s.dev req = (-1, s.dev) := by simp only [threadPoolRun, free]
    simp only [run, submitted, true_imp_iff]
    exact sound.answer_safe_iff
  | some i =>
    have run : threadPoolRun s.dev req = (0, s.dev.setWorker i (.queued req)) := by
      simp only [threadPoolRun, free]
    simp only [run, submitted]
    exact iff_of_true (safe_ok _) (by simp)

/-- A chain is received safely if and only if it survives. -/
lemma virtioBlockRecvRequest_safe_iff (hw : writeSize < 2 ^ 31) :
    Safe (virtioBlockRecvRequest s q descIdx readSize writeSize) ↔
      ChainSurvives s q descIdx readSize writeSize := by
  rw [virtioBlockRecvRequest_eq, safe_bind_iff, blockRequest_safe_iff, ChainSurvives]
  refine and_congr_right fun _ => ?_
  cases e : blockRequest s.mem (s.queue q) q descIdx readSize writeSize with
  | error x => simp [Except.toOption]
  | ok o =>
    cases o with
    | none => simp [Except.toOption, pure, Except.pure, safe_ok]
    | some req =>
      have sound := (blockRequest_sound hw e).1
      simp [Except.toOption, safe_bind_iff, submitted_safe_iff sound, pure, Except.pure, safe_ok]

/-! ## Steps of the machine -/

/-- The queue that the next round of `queue_notify` takes a chain from. -/
def pops (c : BlockMachine) : Option (Fin maxQueue) :=
  match c.ctl with
  | .idle => none
  | .notify q availIdx _ => if (c.s.queue q).lastAvailIdx = availIdx then none else some q

/-- The finished request that a worker is about to answer. -/
def answers (c : BlockMachine) (w : Fin virtioBlkMaxQueueNum) : Option (AsyncIoReq × Int) :=
  match c.ctl, c.s.dev.workers w with
  | .idle, .finished req ret => some (req, ret)
  | _, _ => none

/-- What a step needs to be safe. -/
def Survives (c : BlockMachine) : BlockAct → Prop
  | .dev (.mmioRead offset size) => c.ctl = .idle → ReadSurvives offset size
  | .dev .round => ∀ q ∈ pops c,
    ∀ sizes ∈ (getDescRwSize c.s.mem (c.s.queue q) (nextHead c.s q)).toOption.join,
      ChainSurvives c.s q (nextHead c.s q) sizes.1 sizes.2
  | .complete w => ∀ r ∈ answers c w, AnswerSurvives c.s r.1.arg r.1.buf r.2
  | _ => True

instance (c : BlockMachine) : (a : BlockAct) → Decidable (Survives c a)
  | .dev (.mmioRead ..) => inferInstanceAs (Decidable (_ → _))
  | .dev .round => inferInstanceAs (Decidable (∀ q ∈ _, ∀ sizes ∈ _, _))
  | .complete _ => inferInstanceAs (Decidable (∀ r ∈ _, _))
  | .dev (.guest ..) | .dev (.mmioWrite ..) | .dev (.ioeventfd ..) | .dev .done | .io _
  | .release _ => .isTrue trivial

/-- A round is safe if and only if the chain is that the scan lets through. -/
lemma queueNotifyRound_safe_iff :
    Safe (queueNotifyRound virtioBlockRecvRequest s q) ↔
      ∀ sizes ∈ (getDescRwSize s.mem (s.queue q) (nextHead s q)).toOption.join,
        ChainSurvives s q (nextHead s q) sizes.1 sizes.2 := by
  rw [queueNotifyRound, safe_bind_iff, and_iff_right getDescRwSize_safe]
  cases e : getDescRwSize s.mem (s.queue q) (nextHead s q) with
  | error x => simp [Except.toOption]
  | ok o =>
    cases o with
    | none => simp [Except.toOption, pure, Except.pure, safe_ok]
    | some sizes =>
      obtain ⟨readSize, writeSize⟩ := sizes
      have int := (getDescRwSize_isInt e).2.2
      have rest : ∀ r : Int × VirtioBlockDevice, Safe (if r.1 < 0 then return (false, r.2)
          else return (true, advance r.2 q (nextHead s q)) :
            Except Stop (Bool × VirtioBlockDevice)) := by
        intro r
        split <;> exact safe_ok _
      simp [Except.toOption, safe_bind_iff, virtioBlockRecvRequest_safe_iff int, rest]

/-- A step of the block device is safe if and only if it survives. -/
lemma safe_step_iff (sound : ∀ w, (c.s.dev.workers w).All AsyncIoReq.Sound) (a : BlockAct) :
    Safe (blockStep c a) ↔ Survives c a := by
  cases a with
  | dev a =>
    simp only [blockStep]
    cases a with
    | guest p l =>
      refine iff_of_true ?_ trivial
      simp only [devStep]
      split
      · exact safe_ok _
      · exact safe_blocked
    | mmioRead offset size =>
      simp only [devStep, Survives]
      cases hc : c.ctl with
      | idle =>
        simp only [safe_bind_iff, virtioMmioRead_safe_iff, true_imp_iff]
        simp [pure, Except.pure, safe_ok]
      | notify q availIdx w => exact iff_of_true safe_blocked (by simp)
    | mmioWrite offset val size =>
      refine iff_of_true ?_ trivial
      simp only [devStep]
      split
      · split <;> exact safe_ok _
      · exact safe_blocked
    | ioeventfd q =>
      refine iff_of_true ?_ trivial
      simp only [devStep]
      split
      · exact safe_ok _
      · exact safe_blocked
    | round =>
      simp only [devStep, Survives, pops]
      cases hc : c.ctl with
      | idle => exact iff_of_true safe_blocked (by simp)
      | notify q availIdx w =>
        by_cases e : (c.s.queue q).lastAvailIdx = availIdx
        · simp only [if_pos e]
          exact iff_of_true safe_blocked (by simp)
        · simp only [if_neg e, Option.mem_some_iff, forall_eq']
          rw [safe_bind_iff, queueNotifyRound_safe_iff]
          exact and_iff_left fun _ _ => safe_ok _
    | done =>
      refine iff_of_true ?_ trivial
      simp only [devStep]
      split
      · exact safe_blocked
      · split
        · exact safe_ok _
        · exact safe_blocked
  | io w =>
    refine iff_of_true ?_ trivial
    simp only [blockStep]
    have hw := sound w
    split
    · rename_i req queued
      rw [queued] at hw
      exact (blockIoWorkerFn_safe hw).bind fun _ _ => safe_ok _
    · exact safe_blocked
  | complete w =>
    have hw := sound w
    simp only [blockStep, Survives, answers]
    cases hc : c.ctl with
    | notify q availIdx w' => exact iff_of_true safe_blocked (by simp)
    | idle =>
      cases finished : c.s.dev.workers w with
      | finished req ret =>
        rw [finished] at hw
        simp only [Option.mem_some_iff, forall_eq']
        rw [safe_bind_iff, AsyncIoReq.Sound.answer_safe_iff hw]
        exact and_iff_left fun _ _ => safe_ok _
      | idle => exact iff_of_true safe_blocked (by simp)
      | queued req => exact iff_of_true safe_blocked (by simp)
      | returning => exact iff_of_true safe_blocked (by simp)
  | release w =>
    refine iff_of_true ?_ trivial
    simp only [blockStep]
    split
    · split
      · exact safe_blocked
      · exact safe_ok _
    · exact safe_blocked

/-- Nothing but what `Survives` excludes can kill the monitor: neither a register read of any device, nor a
step of the block device in any state it reaches. -/
theorem blockStep_safe_iff (mem : GuestMemMap) (disk : Disk) :
    (∀ (B : Type) (s : VirtioDevice B) (offset size : Nat),
      Safe (virtioMmioRead s offset size) ↔ ReadSurvives offset size) ∧
    ∀ (c : BlockMachine) (a : BlockAct),
      Reach blockStep always (blockInit mem disk) c → (Safe (blockStep c a) ↔ Survives c a) :=
  ⟨fun _ _ _ _ => virtioMmioRead_safe_iff, fun _ a r => safe_step_iff (reach_sound r) a⟩

/-- A read of one sector is answered safely. -/
theorem blockStep_safe_read :
    ∃ c, Reach blockStep always
        (blockInit (requestMem [⟨768, 16, 1, 1⟩, ⟨1024, 513, 2, 0⟩] ⟨0, 0⟩) (.zero 512)) c ∧
      (answers c 0).isSome = true ∧ Safe (blockStep c (.complete 0)) := by
  obtain ⟨c, r, h⟩ := Reach.of_test blockStep always .blocked
    (blockInit (requestMem [⟨768, 16, 1, 1⟩, ⟨1024, 513, 2, 0⟩] ⟨0, 0⟩) (.zero 512))
    (setupAndKick ++ [.dev .round, .io 0, .dev .done])
    (fun c => decide ((answers c 0).isSome = true ∧ Survives c (.complete 0))) (by decide +kernel)
  obtain ⟨some, survives⟩ := of_decide_eq_true h
  exact ⟨c, r, some, ((blockStep_safe_iff _ _).2 c _ r).mpr survives⟩

/-- Three ways to kill the monitor: a read of 8 bytes of the configuration space, a write request without
a writable byte, and a read request without one, whose status is stored before the buffer. -/
theorem guest_kills_monitor :
    (∃ c, Reach blockStep always (blockInit (requestMem [] ⟨0, 0⟩) (.zero 512)) c ∧
      blockStep c (.dev (.mmioRead 0x100 8)) = .error .abort) ∧
    (∃ c, Reach blockStep always
        (blockInit (requestMem [⟨768, 528, 0, 0⟩] ⟨1, 0⟩) (.zero 512)) c ∧
      blockStep c (.dev .round) = .error .abort) ∧
    ∃ c, Reach blockStep always (blockInit (requestMem [⟨768, 16, 0, 0⟩] ⟨0, 0⟩) (.zero 512)) c ∧
      blockStep c (.complete 0) = .error .range := by
  refine ⟨?_, ?_, ?_⟩
  · exact ⟨_, .init, rfl⟩
  · obtain ⟨c, r, h⟩ := Reach.of_test blockStep always .blocked
      (blockInit (requestMem [⟨768, 528, 0, 0⟩] ⟨1, 0⟩) (.zero 512)) setupAndKick
      (fun c => stop? (blockStep c (.dev .round)) = some .abort) (by decide +kernel)
    exact ⟨c, r, eq_error_of_stop? (of_decide_eq_true h)⟩
  · obtain ⟨c, r, h⟩ := Reach.of_test blockStep always .blocked
      (blockInit (requestMem [⟨768, 16, 0, 0⟩] ⟨0, 0⟩) (.zero 512))
      (setupAndKick ++ [.dev .round, .dev .done, .io 0])
      (fun c => stop? (blockStep c (.complete 0)) = some .range) (by decide +kernel)
    exact ⟨c, r, eq_error_of_stop? (of_decide_eq_true h)⟩

end Mvvmm.Block
