import Mvvmm.Account
import Mvvmm.Pool.Once
import Mathlib.Algebra.Order.BigOperators.Group.Finset

/-!
# Submissions to the pool

A request that is popped is submitted to a worker whose flag is clear, and failed at once if there is none. A
worker clears its flag only after its callback has published the request, so that a flag may be set although
no request is outstanding for it. As many requests are outstanding as workers have one (`popped_length`), and a
round submits its request if and only if these and the workers in that window are fewer than there are workers
(`submits_iff`).

The device sees `thread_pool_run` as one step, which takes the first idle worker. This is what the calls of the pool do in
any interleaving, as long as the pool is not deleted (`threadPoolRun_refined`).
-/

namespace Mvvmm.Block
open Bytes CMem Virtio Run

/-! ## The pool behind the device -/

/-- The workers are idle for the device where their flags are clear. -/
def SameFlags {F A C : Type} (p : Pool.ThreadPool virtioBlkMaxQueueNum F A C) (ctx : BlockDeviceCtx) :
    Prop :=
  ∀ i, (ctx.workers i).isIdle = !p.isWorking i

/-- The step of the device is the decision of the call. -/
theorem threadPoolRun_refined {F A C : Type} [DecidableEq C] {task : C → Pool.Task F A}
    {p : Pool.ThreadPool virtioBlkMaxQueueNum F A C} {ctx : BlockDeviceCtx}
    (r : Reach (Pool.poolStep task) always (Pool.newThreadPool virtioBlkMaxQueueNum F A C) p)
    (quit : p.quit = false) (same : SameFlags p ctx) (c : C) (req : AsyncIoReq) :
    (∀ i, p.calls c = .setFlag i → threadPoolRun ctx req = (0, ctx.setWorker i (.queued req))) ∧
      (p.calls c = .unlockFull → threadPoolRun ctx req = (-1, ctx)) := by
  have free : ctx.freeWorker = (List.finRange virtioBlkMaxQueueNum).find? fun i => !p.isWorking i := by
    simp only [BlockDeviceCtx.freeWorker, same _]
  obtain ⟨found, full⟩ := Pool.scan_first r quit c
  constructor
  · intro i pc
    simp only [threadPoolRun, free, found i pc]
  · intro pc
    simp only [threadPoolRun, free, full pc]

/-! ## When a request is submitted -/

/-- C `is_working[i]`, but the request has been published. -/
def Worker.isReturning : Worker → Bool
  | .returning => true
  | _ => false

/-- How many workers have a request that is not published yet. -/
def outstanding (ctx : BlockDeviceCtx) : Nat :=
  ∑ w, if (ctx.workers w).req?.isSome then 1 else 0

/-- How many workers have published their request and not cleared their flag. -/
def returning (ctx : BlockDeviceCtx) : Nat :=
  ∑ w, if (ctx.workers w).isReturning then 1 else 0

/-- The round hands its request to a worker. -/
def Submits (c c' : BlockMachine) : Prop :=
  ∃ q req i, c.ctl.queue? = some q ∧ Makes c.s q req ∧ c.s.dev.workers i = .idle ∧
    c'.s.dev = c.s.dev.setWorker i (.queued req)

variable {c c' : BlockMachine} {ctx : BlockDeviceCtx}

/-- A worker is free, has a request, or is on its way back. -/
lemma workers_sum (ctx : BlockDeviceCtx) :
    (∑ w, if (ctx.workers w).isIdle then 1 else 0) + outstanding ctx + returning ctx =
      virtioBlkMaxQueueNum := by
  have one : ∀ w, ((if (ctx.workers w).isIdle then 1 else 0) +
      (if (ctx.workers w).req?.isSome then 1 else 0)) +
        (if (ctx.workers w).isReturning then 1 else 0) = 1 := by
    intro w
    cases ctx.workers w <;> rfl
  rw [outstanding, returning, ← Finset.sum_add_distrib, ← Finset.sum_add_distrib, Finset.sum_congr rfl
    fun w _ => one w]
  simp

/-- A flag is clear if and only if the other workers do not add up. -/
lemma freeWorker_isSome_iff :
    ctx.freeWorker.isSome ↔ outstanding ctx + returning ctx < virtioBlkMaxQueueNum := by
  have sum := workers_sum ctx
  have some : ctx.freeWorker.isSome ↔ ∃ w, (ctx.workers w).isIdle = true := by
    simp [BlockDeviceCtx.freeWorker]
  rw [some]
  constructor
  · rintro ⟨w, idle⟩
    have le := Finset.single_le_sum (f := fun w => if (ctx.workers w).isIdle then 1 else 0)
      (fun _ _ => Nat.zero_le _) (Finset.mem_univ w)
    rw [if_pos idle] at le
    omega
  · intro lt
    by_contra none
    have zero : (∑ w, if (ctx.workers w).isIdle then 1 else 0) = 0 := by
      refine Finset.sum_eq_zero fun w _ => if_neg ?_
      intro idle
      exact none ⟨w, idle⟩
    omega

/-- The chains in flight are those of the outstanding requests. -/
lemma card_inFlight : Multiset.card (inFlight ctx) = outstanding ctx := by
  rw [inFlight, Multiset.card_sum, outstanding]
  refine Finset.sum_congr rfl fun w _ => ?_
  cases ctx.workers w <;> rfl

/-- What was popped has been answered or is outstanding. -/
lemma popped_length {mem : GuestMemMap} {disk : Disk} (r : Reach blockStep Answers (blockInit mem disk) c) :
    c.s.popped.length = c.s.used.length + outstanding c.s.dev := by
  have acc := congrArg Multiset.card (reach_accounted r)
  rwa [Multiset.card_add, card_inFlight, answered, Multiset.coe_card, Multiset.coe_card,
    List.length_map] at acc

/-- A round that drops no chain hands its request to a worker if and only if a flag is clear. -/
lemma round_hands_iff {s s' : VirtioBlockDevice} {q : Fin maxQueue} {go : Bool} (no : ¬ Swallows s q)
    (h : RoundEffect virtioBlockRecvRequest s q go s') :
    (∃ req i, Makes s q req ∧ s.dev.workers i = .idle ∧ s'.dev = s.dev.setWorker i (.queued req)) ↔
      s.dev.freeWorker.isSome := by
  cases h with
  | skip scan => exact absurd (.inl scan) no
  | stop scan eq neg =>
    obtain ⟨rfl, -⟩ := virtioBlockRecvRequest_effect eq
    exact absurd neg (by decide)
  | @pass readSize writeSize ret s₁ scan eq _ =>
    obtain ⟨-, eff⟩ := virtioBlockRecvRequest_effect eq
    cases eff with
    | drop none => exact absurd (swallows_of_none rfl none) no
    | @queue req i made free =>
      have some : s.dev.freeWorker.isSome := by rw [free]; rfl
      refine iff_of_true ⟨req, i, ⟨_, _, scan, made⟩, freeWorker_idle free, ?_⟩ some
      rfl
    | @refuse req _ made full eq' =>
      -- all flags are set, so no worker can take the request
      have idle_ne : ∀ i, s.dev.workers i ≠ .idle := by
        intro i idle
        have busy := List.find?_eq_none.mp full i (List.mem_finRange i)
        rw [idle] at busy
        exact busy rfl
      refine iff_of_false ?_ (by rw [full]; exact Bool.false_ne_true)
      rintro ⟨-, i, -, idle, -⟩
      exact idle_ne i idle

/-- The same of the step of the machine. -/
lemma round_submits_iff (guard : Answers c (.dev .round)) (e : blockStep c (.dev .round) = .ok c') :
    Submits c c' ↔ c.s.dev.freeWorker.isSome := by
  cases blockStep_effect e with
  | dev eff =>
    cases eff with
    | start _ yes => cases yes
    | @round q idx w go s' ctl ne eq =>
      have queue : c.ctl.queue? = some q := by rw [ctl]; rfl
      obtain ⟨no, -⟩ := guard q queue
      rw [← round_hands_iff no (queueNotifyRound_effect eq)]
      constructor
      · rintro ⟨q', req, i, queue', hands⟩
        obtain rfl := Option.some.inj (queue.symm.trans queue')
        exact ⟨req, i, hands⟩
      · rintro ⟨req, i, hands⟩
        exact ⟨q, req, i, queue, hands⟩

/-- In every run of a driver whose chains are requests: the popped requests that are not published are the
outstanding ones, and the next one is submitted if and only if together with the workers that have published
theirs and not cleared their flag they are fewer than there are workers. -/
theorem submits_iff (mem : GuestMemMap) (disk : Disk) (c c' : BlockMachine)
    (r : Reach blockStep Answers (blockInit mem disk) c) (guard : Answers c (.dev .round))
    (e : blockStep c (.dev .round) = .ok c') :
    c.s.popped.length = c.s.used.length + outstanding c.s.dev ∧
      (Submits c c' ↔ outstanding c.s.dev + returning c.s.dev < virtioBlkMaxQueueNum) :=
  ⟨popped_length r, (round_submits_iff guard e).trans freeWorker_isSome_iff⟩

/-- A guest memory with a request to write one sector, whose head is in every entry of the available ring. -/
def writeMem : GuestMemMap :=
  requestMem [⟨768, 528, 1, 1⟩, ⟨2048, 1, 2, 0⟩] ⟨1, 0⟩

/-- The available request is popped and carried out by a worker, which publishes it and leaves `queue_notify`,
but does not clear its flag. -/
def serveBy (w : Fin virtioBlkMaxQueueNum) : List BlockAct :=
  [.dev .round, .dev .done, .io w, .complete w, .dev .done]

/-- The driver makes the request available another time and kicks the queue. -/
def offerAgain (k : Nat) : List BlockAct :=
  [.dev (.guest 258 (leBytes 2 (k + 2))), .dev (.mmioWrite 0x050 0 4)]

/-- The request is made available, served by the first `k` workers in turn, and available again. -/
def serveTimes (k : Nat) : List BlockAct :=
  .dev (.mmioWrite 0x038 8 4) :: setupAndKick ++
    ((List.finRange virtioBlkMaxQueueNum).take k).flatMap fun w => serveBy w ++ offerAgain w

/-- With one worker on its way back the request is submitted to the next one. -/
theorem submits_iff_second :
    ∃ c c', Reach blockStep Answers (blockInit writeMem (.zero 512)) c ∧
      blockStep c (.dev .round) = .ok c' ∧ returning c.s.dev = 1 ∧
      c.s.popped.length = c.s.used.length + outstanding c.s.dev ∧ Submits c c' := by
  obtain ⟨c, r, h⟩ := Reach.of_test blockStep Answers .blocked
    (blockInit writeMem (.zero 512)) (serveTimes 1)
    (fun c => decide (Answers c (.dev .round)) && decide (outstanding c.s.dev = 0 ∧ returning c.s.dev = 1) &&
      (blockStep c (.dev .round)).toBool) (by decide +kernel)
  simp only [Bool.and_eq_true, decide_eq_true_eq] at h
  obtain ⟨⟨guard, zero, one⟩, ok⟩ := h
  cases e : blockStep c (.dev .round) with
  | error x => rw [e] at ok; cases ok
  | ok c' =>
    obtain ⟨popped, iff⟩ := submits_iff _ _ c c' r guard e
    refine ⟨c, c', r, e, one, popped, iff.mpr ?_⟩
    rw [zero, one]
    decide

/-- Eight workers have published their request and not cleared their flag. No request is outstanding, and the
ninth is refused with `VIRTIO_BLK_S_IOERR`, although it is the same write as the eight before it. -/
theorem refused_without_outstanding :
    ∃ c c', Reach blockStep Answers (blockInit writeMem (.zero 512)) c ∧ Answers c (.dev .round) ∧
      blockStep c (.dev .round) = .ok c' ∧ c.s.mem.hostMem 2048 = virtioBlkSOk ∧
      outstanding c.s.dev = 0 ∧ ¬ Submits c c' ∧ c'.s.mem.hostMem 2048 = virtioBlkSIoerr := by
  obtain ⟨c, r, h⟩ := Reach.of_test blockStep Answers .blocked
    (blockInit writeMem (.zero 512)) (serveTimes 8)
    (fun c => decide (Answers c (.dev .round)) &&
      decide (c.s.mem.hostMem 2048 = virtioBlkSOk ∧ outstanding c.s.dev = 0 ∧ c.s.dev.freeWorker = none) &&
      (blockStep c (.dev .round)).toOption.any fun c' => c'.s.mem.hostMem 2048 = virtioBlkSIoerr)
    (by decide +kernel)
  simp only [Bool.and_eq_true, decide_eq_true_eq] at h
  obtain ⟨⟨guard, before, zero, full⟩, ok⟩ := h
  cases e : blockStep c (.dev .round) with
  | error x => rw [e] at ok; cases ok
  | ok c' =>
    rw [e] at ok
    refine ⟨c, c', r, guard, e, before, zero, ?_, of_decide_eq_true ok⟩
    rw [round_submits_iff guard e, full]
    exact Bool.false_ne_true

end Mvvmm.Block
