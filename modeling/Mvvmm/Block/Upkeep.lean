import Mvvmm.Block.Ledger

/-!
# What holds in every run of a conforming driver

A round of `queue_notify` that finds a worker whose flag is clear hands its request to it. A round that finds the
flags of all workers set answers its request at once, with an I/O error (`queueNotifyRound_refused`). This happens
although no more requests are outstanding than there are workers, since a worker that has answered its request
clears its flag only later (`Upkeep.returning`).

`Upkeep` is the invariant of all runs, with the requests that were refused so far. The others make up a run of the
sequential disk `Cmd.exec`: a request is invoked when the driver makes it available, takes effect when its worker
calls `pread` or `pwrite`, and is answered when its entry of the used ring is published (`History.run`). What was
popped or answered, and what the guest memory holds, is not concerned by a refusal: for the books it is as if a
worker that is still returning had taken the request and failed (`Upkeep.refuse`).
-/

namespace Mvvmm.Block
open Bytes CMem Virtio Run Linear

/-! ## What a refusal is -/

/-- What a request that is refused is answered with: the cleared buffer of a read, and the status. -/
def Cmd.refused : Cmd → List UInt8
  | .read _ n => List.replicate (n * sectorSize) 0 ++ [virtioBlkSIoerr]
  | .write .. => [virtioBlkSIoerr]

/-- The answer has the size of the writable part. -/
lemma Cmd.refused_length {cmd : Cmd} : cmd.refused.length = cmd.writeSize := by
  cases cmd with
  | read sector n => simp [refused, writeSize]
  | write sector data => rfl

/-- It ends with the status of an error. -/
lemma Cmd.refused_status {cmd : Cmd} : cmd.refused.getLast? = some virtioBlkSIoerr := by
  cases cmd with
  | read sector n => simp [refused]
  | write sector data => rfl

variable {d₀ : Disk} {t t' : Traffic} {refused : List Nat} {commits : List IoCommit} {c c' : BlockMachine}
  {i capacity : Nat} {w : Fin virtioBlkMaxQueueNum} {x : Request} {s s' : VirtioBlockDevice}

/-- Every result of the sequential disk ends with the status OK. -/
lemma exec_status (d : Disk) (cmd : Cmd) : (cmd.exec d).2.getLast? = some virtioBlkSOk := by
  cases cmd with
  | read sector n => simp [Cmd.exec]
  | write sector data => rfl

/-- A request that the pool refuses is answered with an error and its head. -/
lemma virtioBlockReqEnd_refused (ok : x.Ok capacity)
    (chainOk : ChainOk s.mem (s.queue 0) x.head x.readable x.writable) (inside : BufInside s.mem x.writable)
    (table : TableInside s.mem (s.queue 0)) (off : OffTable (s.queue 0) x.writable) :
    virtioBlockReqEnd s x.io.arg x.io.buf (-1) =
      .ok (virtioConsumeDesc { s with mem := scatterAt s.mem x.writable 0 x.cmd.refused } 0 x.head x.cmd.writeSize) := by
  have size := ok.writeSize
  cases e : x.cmd with
  | read sector n =>
    rw [e, Cmd.writeSize] at size
    have arg : x.io.arg = ⟨virtioBlkTIn, total x.writable, 0, x.head⟩ := by
      simp only [Request.io, e, size]
    have buf : x.io.buf = .zero (total x.writable) := by
      simp only [Request.io, e, size]
    have zeros : slice (Obj.zero (total x.writable)).bytes 0 (n * sectorSize) = List.replicate (n * sectorSize) 0 :=
      slice_const
    rw [arg, buf, virtioBlockReqEnd_in_chain chainOk inside table off (by omega) rfl]
    simp only [size, Nat.add_sub_cancel] at zeros ⊢
    rw [zeros]
    rfl
  | write sector data =>
    rw [e, Cmd.writeSize] at size
    have arg : x.io.arg = ⟨virtioBlkTOut, 0, 0, x.head⟩ := by
      simp only [Request.io, e]
    rw [arg, virtioBlockReqEnd_out_chain chainOk inside (by omega)]
    rfl

/-- A round of `queue_notify` that finds no free worker refuses the request. -/
lemma queueNotifyRound_refused (h : request s.mem (s.queue 0) (nextHead s 0) = some x) (ok : x.Ok capacity)
    (max : (s.queue 0).num.toNat ≤ virtioBlkMaxQueueNum) (ring : RingOk s.mem.size (s.queue 0))
    (placed : Placed s.mem.size (s.queue 0) x) (none : s.dev.freeWorker = none) :
    queueNotifyRound virtioBlockRecvRequest s 0 =
      .ok (true, advance
        (virtioConsumeDesc { s with mem := scatterAt s.mem x.writable 0 x.cmd.refused } 0 x.head x.cmd.writeSize) 0
        (nextHead s 0)) := by
  obtain ⟨hh, e⟩ := request_chain h
  rw [← hh] at e
  have chainOk := ok.chainOk e max
  obtain ⟨readable, writable⟩ := placed.bufInside
  have off : OffTable (s.queue 0) x.writable := fun d hd => placed.table d (List.mem_append_right _ hd)
  have run : threadPoolRun s.dev x.io = (-1, s.dev) := by
    simp only [threadPoolRun, none]
  have answer : submitted s x.io.arg x.io.buf (-1, s.dev) =
      .ok (virtioConsumeDesc { s with mem := scatterAt s.mem x.writable 0 x.cmd.refused } 0 x.head x.cmd.writeSize) := by
    rw [← virtioBlockReqEnd_refused ok chainOk writable ring.table off]
    rfl
  rw [hh] at chainOk
  simp only [queueNotifyRound, getDescRwSize_chain chainOk, ok_bind, virtioBlockRecvRequest_eq,
    blockRequest_request h ok max readable, run, answer]
  rfl

/-! ## What holds in every run -/

/-- The sequential disk without the requests that were refused. -/
def Traffic.but (t : Traffic) (refused : List Nat) (commits : List IoCommit) : Sys Disk Cmd (List UInt8) :=
  ⟨t.c.s.dev.disk, t.reqs.map fun x => x.cmd, t.seen.map fun l => l.filter fun i => i ∉ refused, commits,
    t.answers.filter fun a => a.1 ∉ refused⟩

/-- Its answers are those of the requests that were not refused. -/
lemma Traffic.but_answered : (t.but refused commits).answered = t.answered.filter fun i => i ∉ refused := by
  rw [Traffic.answered, List.filter_map]
  rfl

/-- The first request was answered before the second was made available. -/
def Traffic.Before (t : Traffic) (i j : Nat) : Prop :=
  ∃ l, t.seen[j]? = some l ∧ i ∈ l

/-- What was set up and stays so. -/
structure Setup (t : Traffic) : Prop where
  max : t.qs.num.toNat ≤ virtioBlkMaxQueueNum
  auto : t.qs.manualRecv = false
  cap : t.capacity * sectorSize ≤ t.c.s.dev.disk.len
  len : t.c.s.dev.disk.len < 2 ^ 63
  ok : ∀ x ∈ t.reqs, x.Ok t.capacity

/-- A step keeps the set-up if it keeps the queue, the size of the image, and adds requests as they should be only. -/
lemma Setup.keep (h : Setup t) (num : t'.qs.num = t.qs.num) (manual : t'.qs.manualRecv = t.qs.manualRecv)
    (size : t'.c.s.dev.size = t.c.s.dev.size) (len : t'.c.s.dev.disk.len = t.c.s.dev.disk.len)
    (reqs : ∀ x ∈ t'.reqs, x ∈ t.reqs ∨ x.Ok t.capacity) : Setup t' := by
  have capacity : t'.capacity = t.capacity := by rw [Traffic.capacity, blockGetSectorCount, size]; rfl
  constructor
  case max => rw [num]; exact h.max
  case auto => rw [manual]; exact h.auto
  case cap => rw [capacity, len]; exact h.cap
  case len => rw [len]; exact h.len
  case ok =>
    rw [capacity]
    exact fun x hx => (reqs x hx).elim (h.ok x) id

/-- What has been answered. -/
structure History (d₀ : Disk) (t : Traffic) (refused : List Nat) (commits : List IoCommit) : Prop where
  seen : ∀ l ∈ t.seen, ∀ i ∈ l, i < t.popped
  answered : ∀ i ∈ refused, i ∈ t.answered
  nodup : refused.Nodup
  kept : ∀ c ∈ commits, c.id ∉ refused
  status : ∀ a ∈ t.answers, a.2.getLast? = some (if a.1 ∈ refused then virtioBlkSIoerr else virtioBlkSOk)
  cleared : ∀ a ∈ t.answers, a.1 ∈ refused → ∃ x, t.reqs[a.1]? = some x ∧ a.2 = x.cmd.refused
  run : Relation.ReflTransGen (Step Cmd.exec) (Sys.init d₀) (t.but refused commits)

/-- What holds in every state of a run of a conforming driver. -/
structure Upkeep (d₀ : Disk) (t : Traffic) (refused : List Nat) (commits : List IoCommit) : Prop where
  memory : Memory t
  ledger : Ledger t commits
  setup : Setup t
  ctl : ∀ q a w, t.c.ctl = .notify q a w → q = 0 ∧ ∃ k, a = .ofNat k ∧ t.popped ≤ k ∧ k ≤ t.reqs.length
  history : History d₀ t refused commits

/-! ## The history -/

section History
variable (h : History d₀ t refused commits)
include h

/-- Nothing is invoked, carried out or answered. -/
lemma History.keep (disk : t'.c.s.dev.disk = t.c.s.dev.disk) (reqs : t'.reqs = t.reqs) (seen : t'.seen = t.seen)
    (answers : t'.answers = t.answers) (popped : t.popped ≤ t'.popped) : History d₀ t' refused commits := by
  constructor
  case seen =>
    rw [seen]
    exact fun l hl i hi => (h.seen l hl i hi).trans_le popped
  case answered => rw [Traffic.answered, answers]; exact h.answered
  case nodup => exact h.nodup
  case kept => exact h.kept
  case status => rw [answers]; exact h.status
  case cleared => rw [answers, reqs]; exact h.cleared
  case run =>
    simp only [Traffic.but, disk, reqs, seen, answers]
    exact h.run

/-- The driver makes requests available. -/
lemma History.publish {m : GuestMemMap} {xs : List Request} (ledger : Ledger t commits) :
    History d₀ { t with
      c.s.mem := m, reqs := t.reqs ++ xs, seen := t.seen ++ xs.map fun _ => t.answered } refused commits := by
  refine ⟨?_, h.answered, h.nodup, h.kept, h.status, ?_, ?_⟩
  · intro l hl i hi
    rcases List.mem_append.mp hl with hl | hl
    · exact h.seen l hl i hi
    · obtain ⟨-, -, rfl⟩ := List.mem_map.mp hl
      exact ledger.answered_lt hi
  · intro a ha no
    obtain ⟨x, e, bytes⟩ := h.cleared a ha no
    exact ⟨x, (List.getElem?_append_left (List.getElem?_eq_some_iff.mp e).1).trans e, bytes⟩
  · have run := h.run.trans (run_invoke (xs.map fun x => x.cmd))
    rw [Traffic.but_answered] at run
    simp only [Traffic.but, List.map_map, List.map_append] at run ⊢
    exact run

/-- A request takes effect. -/
lemma History.commit (e : t.reqs[i]? = some x) (new : ∀ c ∈ commits, c.id ≠ i) (live : i ∉ t.answered)
    (disk : t'.c.s.dev.disk = (x.cmd.exec t.c.s.dev.disk).1) (reqs : t'.reqs = t.reqs) (seen : t'.seen = t.seen)
    (answers : t'.answers = t.answers) (popped : t'.popped = t.popped) :
    History d₀ t' refused (commits ++ [⟨i, x.cmd, (x.cmd.exec t.c.s.dev.disk).2⟩]) := by
  refine ⟨?_, ?_, h.nodup, ?_, ?_, ?_, ?_⟩
  · rw [seen, popped]
    exact h.seen
  · rw [Traffic.answered, answers]
    exact h.answered
  · intro c hc
    rcases List.mem_append.mp hc with hc | hc
    · exact h.kept c hc
    · rw [List.mem_singleton.mp hc]
      exact fun no => live (h.answered i no)
  · rw [answers]
    exact h.status
  · rw [answers, reqs]
    exact h.cleared
  · have op : (t.but refused commits).ops[i]? = some x.cmd := by
      change (t.reqs.map fun x => x.cmd)[i]? = _
      rw [List.getElem?_map, e]
      rfl
    have fresh : i ∉ (t.but refused commits).committed := by
      intro mem
      obtain ⟨c, hc, id⟩ := List.mem_map.mp mem
      exact new c hc id
    have run := h.run.tail (.commit op fresh)
    simp only [Traffic.but, disk, reqs, seen, answers] at run ⊢
    exact run

/-- A request that has taken effect is answered. -/
lemma History.answer {d : Disk} (mem : ⟨i, x.cmd, (x.cmd.exec d).2⟩ ∈ commits) (new : i ∉ t.answered)
    (disk : t'.c.s.dev.disk = t.c.s.dev.disk) (reqs : t'.reqs = t.reqs) (seen : t'.seen = t.seen)
    (answers : t'.answers = t.answers ++ [(i, (x.cmd.exec d).2)]) (popped : t'.popped = t.popped) :
    History d₀ t' refused commits := by
  have kept : i ∉ refused := fun no => new (h.answered i no)
  refine ⟨?_, ?_, h.nodup, h.kept, ?_, ?_, ?_⟩
  · rw [seen, popped]
    exact h.seen
  · intro j hj
    rw [Traffic.answered, answers, List.map_append]
    exact List.mem_append_left _ (h.answered j hj)
  · intro a ha
    rw [answers] at ha
    rcases List.mem_append.mp ha with ha | ha
    · exact h.status a ha
    · obtain rfl := List.mem_singleton.mp ha
      rw [if_neg kept]
      exact exec_status d x.cmd
  · intro a ha no
    rw [answers] at ha
    rcases List.mem_append.mp ha with ha | ha
    · rw [reqs]
      exact h.cleared a ha no
    · obtain rfl := List.mem_singleton.mp ha
      exact absurd no kept
  · have fresh : i ∉ (t.but refused commits).answered := by
      rw [Traffic.but_answered]
      exact fun m => new (List.mem_of_mem_filter m)
    have run := h.run.tail (.answer mem fresh)
    have filter : (t.answers ++ [(i, (x.cmd.exec d).2)]).filter (fun a => a.1 ∉ refused) =
        t.answers.filter (fun a => a.1 ∉ refused) ++ [(i, (x.cmd.exec d).2)] := by
      simp [List.filter_append, kept]
    simp only [Traffic.but, disk, reqs, seen, answers, filter] at run ⊢
    exact run

/-- A request is refused: it was not known before to anything but the list of requests. -/
lemma History.refuse (ledger : Ledger t commits) (e : t.reqs[t.popped]? = some x)
    (disk : t'.c.s.dev.disk = t.c.s.dev.disk) (reqs : t'.reqs = t.reqs) (seen : t'.seen = t.seen)
    (answers : t'.answers = t.answers ++ [(t.popped, x.cmd.refused)]) (popped : t'.popped = t.popped + 1) :
    History d₀ t' (refused ++ [t.popped]) commits := by
  have old : ∀ j, j < t.popped → (j ∈ refused ++ [t.popped] ↔ j ∈ refused) := by
    intro j lt
    simp [lt.ne]
  have lt : ∀ a ∈ t.answers, a.1 < t.popped := fun a ha => ledger.answered_lt (List.mem_map_of_mem ha)
  refine ⟨?_, ?_, ?_, ?_, ?_, ?_, ?_⟩
  · rw [seen, popped]
    exact fun l hl i hi => (h.seen l hl i hi).trans (Nat.lt_succ_self _)
  · intro j hj
    rw [Traffic.answered, answers, List.map_append]
    exact (List.mem_append.mp hj).elim (fun m => List.mem_append_left _ (h.answered j m))
      fun m => List.mem_append_right _ m
  · refine h.nodup.append (List.nodup_singleton _) (List.disjoint_singleton.mpr ?_)
    exact fun m => absurd (ledger.answered_lt (h.answered _ m)) (lt_irrefl _)
  · intro c hc
    rw [old c.id (ledger.committed c hc)]
    exact h.kept c hc
  · intro a ha
    rw [answers] at ha
    rcases List.mem_append.mp ha with ha | ha
    · simp only [old a.1 (lt a ha)]
      exact h.status a ha
    · obtain rfl := List.mem_singleton.mp ha
      rw [if_pos (List.mem_append_right _ (List.mem_singleton_self _))]
      exact Cmd.refused_status
  · intro a ha no
    rw [answers] at ha
    rw [reqs]
    rcases List.mem_append.mp ha with ha | ha
    · exact h.cleared a ha ((old a.1 (lt a ha)).mp no)
    · obtain rfl := List.mem_singleton.mp ha
      exact ⟨x, e, rfl⟩
  · have seen' : (t.seen.map fun l => l.filter fun i => i ∉ refused ++ [t.popped]) =
        t.seen.map fun l => l.filter fun i => i ∉ refused := by
      refine List.map_congr_left fun l hl => List.filter_congr fun i hi => ?_
      simp only [old i (h.seen l hl i hi)]
    have answers' : (t.answers ++ [(t.popped, x.cmd.refused)]).filter (fun a => a.1 ∉ refused ++ [t.popped]) =
        t.answers.filter fun a => a.1 ∉ refused := by
      have same : t.answers.filter (fun a => a.1 ∉ refused ++ [t.popped]) = t.answers.filter fun a => a.1 ∉ refused :=
        List.filter_congr fun a ha => by simp only [old a.1 (lt a ha)]
      rw [List.filter_append, same]
      simp
    simp only [Traffic.but, disk, reqs, seen, answers, seen', answers']
    exact h.run

end History

/-! ## Steps of the device -/

/-- Nothing has been used when the driver has set up the queue. -/
lemma trafficInit_used (start : Start c) : (trafficInit c).used = [] := by
  change (c.s.used.map fun u => u.head).reverse = []
  rw [start.used]
  rfl

/-- And nothing has been popped. -/
lemma trafficInit_popped (start : Start c) : (trafficInit c).popped = 0 := by
  change c.s.popped.length = 0
  rw [start.popped]
  rfl

/-- And no worker has anything to do. -/
lemma trafficInit_workers (start : Start c) (w : Fin virtioBlkMaxQueueNum) :
    (trafficInit c).c.s.dev.workers w = .idle := by
  have e := start.workers w
  change c.s.dev.workers w = .idle
  cases h : c.s.dev.workers w <;> simp_all [Worker.isIdle]

/-- The guest memory when the driver has set up the queue. -/
lemma memory_init (start : Start c) : Memory (trafficInit c) := by
  constructor
  case rings =>
    rw [trafficInit_used start, trafficInit_popped start]
    exact .init start.ring start.availIdx start.last start.usedIdx
  all_goals simp [trafficInit, Separated]

/-- There are no requests yet. -/
lemma ledger_init (start : Start c) : Ledger (trafficInit c) [] := by
  have flight : (trafficInit c).inFlight = 0 := by
    refine Finset.sum_eq_zero ?_
    intro w _
    rw [trafficInit_workers start w]
    rfl
  constructor
  case once =>
    rw [trafficInit_popped start, flight]
    rfl
  case distinct =>
    intro w w' hw
    rw [trafficInit_workers start w] at hw
    cases hw
  case workers =>
    intro w
    rw [trafficInit_workers start w]
    trivial
  case heads =>
    rw [trafficInit_used start]
    exact .nil
  case pops =>
    change (c.s.popped.map _).reverse = _
    rw [start.popped, trafficInit_popped start]
    rfl
  case committed => simp

/-- The invariant holds when the driver has set up the queue. -/
lemma upkeep_init (start : Start c) : Upkeep c.s.dev.disk (trafficInit c) [] [] := by
  constructor
  case memory => exact memory_init start
  case ledger => exact ledger_init start
  case setup =>
    constructor
    case max => exact start.max
    case auto => exact start.auto
    case cap =>
      change c.s.dev.size / sectorSize * sectorSize ≤ c.s.dev.disk.len
      rw [start.size]
      exact Nat.div_mul_le_self _ _
    case len =>
      change c.s.dev.disk.len < 2 ^ 63
      rw [start.size]
      exact start.len
    case ok => simp [trafficInit]
  case ctl =>
    intro q a w e
    rw [show (trafficInit c).c.ctl = .idle from start.idle] at e
    cases e
  case history =>
    exact ⟨by simp [trafficInit], by simp, List.nodup_nil, by simp, by simp [trafficInit], by simp, .refl⟩

/-- What is left alone is kept. -/
lemma KeepsTraffic.refl : KeepsTraffic t t.mem :=
  ⟨.refl, fun _ _ _ _ _ => ⟨rfl, rfl⟩⟩

/-- Where an entry is published does not depend on what has been popped. -/
lemma publishUsed_advanced {m : GuestMemMap} {qs : QueueState} {head : Nat} {n : Int} :
    publishUsed m qs.advanced head n = publishUsed m qs head n :=
  rfl

/-- Whose request a worker has had before does not matter once it is answered. -/
lemma Ledger.owner {owner : Fin virtioBlkMaxQueueNum → Nat} (h : Ledger { t with owner } commits)
    (same : ∀ w, (t.c.s.dev.workers w).req?.isSome → owner w = t.owner w) : Ledger t commits where
  once := by
    have eq : ({ t with owner } : Traffic).inFlight = t.inFlight := by
      refine Finset.sum_congr rfl fun w _ => ?_
      simp only [Worker.counts]
      split
      · rw [same w (by assumption)]
      · rfl
    have once := h.once
    rw [eq] at once
    exact once
  distinct w w' hw hw' eq := h.distinct w w' hw hw' ((same w hw).trans (eq.trans (same w' hw').symm))
  workers w := by
    have carries := h.workers w
    cases e : t.c.s.dev.workers w with
    | queued req | finished req ret =>
      rw [show ({ t with owner } : Traffic).c.s.dev.workers w = _ from e,
        show ({ t with owner } : Traffic).owner w = t.owner w from same w (by rw [e]; rfl)] at carries
      exact carries
    | idle | returning => trivial
  heads := h.heads
  pops := h.pops
  committed := h.committed

section Device
variable (h : Upkeep d₀ t refused commits)
include h

/-- A step that leaves alone the device, and in the guest memory what is still to be read. -/
lemma Upkeep.keep (queue : c'.s.queue 0 = t.qs) (dev : c'.s.dev = t.c.s.dev) (used : c'.s.used = t.c.s.used)
    (popped : c'.s.popped = t.c.s.popped) (size : c'.s.mem.size = t.mem.size) (keeps : KeepsTraffic t c'.s.mem)
    (ctl : ∀ q a w, c'.ctl = .notify q a w → q = 0 ∧ ∃ k, a = .ofNat k ∧ t.popped ≤ k ∧ k ≤ t.reqs.length) :
    Upkeep d₀ { t with c := c' } refused commits := by
  have ep : ({ t with c := c' } : Traffic).popped = t.popped := by simp only [Traffic.popped, popped]
  constructor
  case memory => exact h.memory.keep h.ledger queue used popped size keeps
  case ledger => exact h.ledger.keep dev used popped
  case setup =>
    refine h.setup.keep ?_ ?_ (congrArg _ dev) (congrArg (fun c => c.disk.len) dev) fun x hx => .inl hx
    · rw [Traffic.qs, queue]
    · rw [Traffic.qs, queue]
  case ctl => rw [ep]; exact ctl
  case history => exact h.history.keep (congrArg _ dev) rfl rfl rfl ep.ge

/-- `queue_notify` begins. -/
lemma Upkeep.start {v : Option (Fin virtioBlkMaxQueueNum)} :
    Upkeep d₀ { t with c := t.c.startNotify 0 v } refused commits := by
  have auto : ¬ (t.c.s.queue 0).manualRecv = true := by
    rw [show (t.c.s.queue 0).manualRecv = false from h.setup.auto]
    exact Bool.false_ne_true
  rw [Machine.startNotify, if_neg auto]
  refine h.keep rfl rfl rfl rfl rfl .refl ?_
  rintro q a w ⟨⟩
  have le := h.memory.rings.popped_le
  rw [Traffic.avail, List.length_map] at le
  refine ⟨rfl, t.reqs.length, ?_, le, le_rfl⟩
  rw [show t.reqs.length = t.avail.length by rw [Traffic.avail, List.length_map]]
  exact h.memory.rings.availCount

/-- The next chain is the next request. -/
lemma Upkeep.next (lt : t.popped < t.reqs.length) :
    ∃ x, t.reqs[t.popped]? = some x ∧ x.head = nextHead t.c.s 0 := by
  have next := h.memory.rings.next (by rwa [Traffic.avail, List.length_map])
  rw [Traffic.avail, List.getElem?_map] at next
  exact Option.map_eq_some_iff.mp next

/-- In the loop there is something left to pop if and only if not all requests of the call are popped. -/
lemma Upkeep.lt_of_ne {q : Fin maxQueue} {a : UInt16} {v : Option (Fin virtioBlkMaxQueueNum)}
    (ctl : t.c.ctl = .notify q a v) (ne : (t.c.s.queue q).lastAvailIdx ≠ a) :
    q = 0 ∧ ∃ k, a = .ofNat k ∧ t.popped < k ∧ k ≤ t.reqs.length := by
  obtain ⟨rfl, k, rfl, le, le'⟩ := h.ctl q a v ctl
  refine ⟨rfl, k, rfl, ?_, le'⟩
  exact (h.memory.rings.last_ne le (by rwa [Traffic.avail, List.length_map])).mp ne

/-- What a round makes of the next request if a worker is free. -/
lemma Upkeep.round_eq (e : t.reqs[t.popped]? = some x) (head : x.head = nextHead t.c.s 0)
    (free : t.c.s.dev.freeWorker = some w) :
    queueNotifyRound virtioBlockRecvRequest t.c.s 0 =
      .ok (true, advance (setWorker t.c.s w (.queued x.io)) 0 (nextHead t.c.s 0)) := by
  have mem := List.mem_of_getElem? e
  have fresh := h.memory.fresh _ x le_rfl e
  rw [head] at fresh
  exact queueNotifyRound_request fresh (h.setup.ok x mem) h.setup.max (h.memory.placed x mem).bufInside.1 free

/-- And what it makes of it if none is. -/
lemma Upkeep.refuse_eq (e : t.reqs[t.popped]? = some x) (head : x.head = nextHead t.c.s 0)
    (none : t.c.s.dev.freeWorker = none) :
    queueNotifyRound virtioBlockRecvRequest t.c.s 0 =
      .ok (true, advance (virtioConsumeDesc { t.c.s with mem := scatterAt t.mem x.writable 0 x.cmd.refused } 0 x.head
        x.cmd.writeSize) 0 (nextHead t.c.s 0)) := by
  have mem := List.mem_of_getElem? e
  have fresh := h.memory.fresh _ x le_rfl e
  rw [head] at fresh
  exact queueNotifyRound_refused fresh (h.setup.ok x mem) h.setup.max h.memory.rings.ring (h.memory.placed x mem) none

/-- A round hands the next request to an idle worker. -/
lemma Upkeep.round {q : Fin maxQueue} {a : UInt16} {v : Option (Fin virtioBlkMaxQueueNum)} {k : Nat}
    (ctl : t.c.ctl = .notify q a v) (idx : a = .ofNat k) (lt : t.popped < k) (le : k ≤ t.reqs.length)
    (e : t.reqs[t.popped]? = some x) (head : x.head = nextHead t.c.s 0) (idle : t.c.s.dev.workers w = .idle) :
    Upkeep d₀ { t with
      c := ⟨advance (setWorker t.c.s w (.queued x.io)) 0 (nextHead t.c.s 0), t.c.ctl⟩,
      owner := Function.update t.owner w t.popped } refused commits := by
  have eq : (advance (setWorker t.c.s w (.queued x.io)) 0 (nextHead t.c.s 0)).queue 0 = t.qs.advanced :=
    advance_queue
  constructor
  case memory => exact h.memory.pop (by omega) rfl eq rfl rfl
  case ledger => exact h.ledger.pop e idle rfl rfl (by rw [head]; rfl)
  case setup =>
    refine h.setup.keep ?_ ?_ rfl rfl fun x hx => .inl hx
    · rw [Traffic.qs, eq]
      rfl
    · rw [Traffic.qs, eq]
      rfl
  case ctl =>
    intro q' a' v' e'
    rw [show t.c.ctl = _ from ctl] at e'
    cases e'
    exact ⟨(h.ctl q a v ctl).1, k, idx, lt, le⟩
  case history => exact h.history.keep rfl rfl rfl rfl (Nat.le_succ _)

/-- What the I/O of a worker does. -/
lemma Upkeep.io_eq (mem : x ∈ t.reqs) :
    blockIoWorkerFn t.c.s.dev.disk x.io =
      .ok (0, (x.cmd.exec t.c.s.dev.disk).1, x.ioDone (x.cmd.exec t.c.s.dev.disk).2) :=
  blockIoWorkerFn_request (h.setup.ok x mem) h.setup.cap h.setup.len

/-- A worker carries out its request, which thereby takes effect. -/
lemma Upkeep.io (e : t.reqs[t.owner w]? = some x) (queued : t.c.s.dev.workers w = .queued x.io)
    (new : ∀ c ∈ commits, c.id ≠ t.owner w) :
    Upkeep d₀ { t with
      c := { t.c with
        s := setWorker { t.c.s with dev := { t.c.s.dev with disk := (x.cmd.exec t.c.s.dev.disk).1 } } w
          (.finished (x.ioDone (x.cmd.exec t.c.s.dev.disk).2) 0) } } refused
      (commits ++ [⟨t.owner w, x.cmd, (x.cmd.exec t.c.s.dev.disk).2⟩]) := by
  have ok := h.setup.ok x (List.mem_of_getElem? e)
  have some : (t.c.s.dev.workers w).req?.isSome := by rw [queued]; rfl
  constructor
  case memory =>
    exact ⟨h.memory.rings, h.memory.placed, h.memory.separated, h.memory.chains, h.memory.fresh,
      h.memory.delivered⟩
  case ledger =>
    refine h.ledger.move (w := w) rfl rfl (fun _ => some) ?_ ?_ ?_ h.ledger.heads ?_
    · rw [queued]
      rfl
    · exact ⟨x, _, e, rfl, rfl, List.mem_append_right _ (List.mem_singleton_self _)⟩
    · intro v ne
      refine (h.ledger.workers v).commit ?_
      intro some' eq
      exact ne (h.ledger.distinct v w some' some eq.symm)
    · intro c hc
      rcases List.mem_append.mp hc with hc | hc
      · exact h.ledger.committed c hc
      · rw [List.mem_singleton.mp hc]
        exact (h.ledger.busy some).1
  case setup => exact h.setup.keep rfl rfl rfl (Cmd.exec_len ok.fits h.setup.cap) fun x hx => .inl hx
  case ctl => exact h.ctl
  case history => exact h.history.commit e new (h.ledger.busy some).2.1 rfl rfl rfl rfl rfl

/-- What a callback does. -/
lemma Upkeep.complete_eq {d : Disk} (e : t.reqs[t.owner w]? = some x)
    (finished : (t.c.s.dev.workers w).req?.isSome) :
    virtioBlockReqEnd t.c.s x.io.arg (x.ioDone (x.cmd.exec d).2).buf 0 =
      .ok (virtioConsumeDesc { t.c.s with mem := scatterAt t.mem x.writable 0 (x.cmd.exec d).2 } 0 x.head
        x.cmd.writeSize) := by
  have mem := List.mem_of_getElem? e
  have ok := h.setup.ok x mem
  have placed := h.memory.placed x mem
  have live : t.owner w ∉ t.read := fun m => (h.ledger.busy finished).2.1 (List.mem_of_mem_take m)
  have chainOk := ok.chainOk (h.memory.chains _ x live e) h.setup.max
  refine virtioBlockReqEnd_request ok chainOk placed.bufInside.2 h.memory.rings.ring.table ?_
  exact fun d hd => placed.table d (List.mem_append_right _ hd)

/-- A worker has answered its request, with whatever result: what the guest memory holds, and where the requests
are. -/
lemma Upkeep.answer (s' : VirtioBlockDevice) (ctl : Ctl (Fin virtioBlkMaxQueueNum)) {bs : List UInt8} {n : Int}
    (own : t.owner w = i) (e : t.reqs[i]? = some x) (some : (t.c.s.dev.workers w).req?.isSome)
    (len : bs.length = x.cmd.writeSize) (mem : s'.mem = publishUsed (scatterAt t.mem x.writable 0 bs) t.qs x.head n)
    (queue : s'.queue 0 = t.qs) (used : s'.used = ⟨0, x.head, n⟩ :: t.c.s.used) (popped : s'.popped = t.c.s.popped)
    (workers : s'.dev.workers = Function.update t.c.s.dev.workers w .returning) :
    Memory { t with c := ⟨s', ctl⟩, answers := t.answers ++ [(i, bs)] } ∧
      Ledger { t with c := ⟨s', ctl⟩, answers := t.answers ++ [(i, bs)] } commits := by
  subst own
  have ok := h.setup.ok x (List.mem_of_getElem? e)
  obtain ⟨pop, new, room⟩ := h.ledger.busy some
  constructor
  · exact h.memory.answer h.ledger e pop new room (by rw [len, ok.writeSize]) mem queue used popped
  · refine h.ledger.move (w := w) (X := .returning) workers popped (fun no => by cases no) ?_ trivial ?_ ?_
      h.ledger.committed
    · rw [show (t.c.s.dev.workers w).counts (t.owner w) = {t.owner w} from if_pos some, List.map_append,
        ← Multiset.coe_add]
      change 0 + _ = {t.owner w} + _
      rw [zero_add, add_comm]
      rfl
    · exact fun v _ => h.ledger.workers v
    · rw [used, List.map_cons, List.reverse_cons]
      exact List.rel_append h.ledger.heads (.cons ⟨x, e, rfl⟩ .nil)

/-- A worker answers its request. -/
lemma Upkeep.complete {d : Disk} {req : AsyncIoReq} {ret : Int} (e : t.reqs[t.owner w]? = some x)
    (finished : t.c.s.dev.workers w = .finished req ret) (mem : ⟨t.owner w, x.cmd, (x.cmd.exec d).2⟩ ∈ commits) :
    Upkeep d₀ { t with
      c := ⟨setWorker (virtioConsumeDesc { t.c.s with mem := scatterAt t.mem x.writable 0 (x.cmd.exec d).2 } 0
        x.head x.cmd.writeSize) w .returning, .idle⟩,
      answers := t.answers ++ [(t.owner w, (x.cmd.exec d).2)] } refused commits := by
  have some : (t.c.s.dev.workers w).req?.isSome := by rw [finished]; rfl
  obtain ⟨s', hs'⟩ : ∃ s', s' = virtioConsumeDesc
      { t.c.s with mem := scatterAt t.mem x.writable 0 (x.cmd.exec d).2 } 0 x.head x.cmd.writeSize := ⟨_, rfl⟩
  obtain ⟨em, eq, eu, ep, ed⟩ := virtioConsumeDesc_scatterAt h.memory.rings.ring hs'
  have queue : s'.queue 0 = t.qs := congrFun eq 0
  rw [← hs']
  obtain ⟨memory, ledger⟩ := h.answer (setWorker s' w .returning) .idle rfl e some Cmd.exec_length em
    queue eu ep (by rw [← ed]; rfl)
  constructor
  case memory => exact memory
  case ledger => exact ledger
  case setup =>
    refine h.setup.keep ?_ ?_ (congrArg (fun c => c.size) ed) (congrArg (fun c => c.disk.len) ed) fun x hx => .inl hx
    · exact congrArg (fun q => q.num) queue
    · exact congrArg (fun q => q.manualRecv) queue
  case ctl => exact fun q a w no => by cases no
  case history =>
    exact h.history.answer mem (h.ledger.busy some).2.1 (congrArg (fun c => c.disk) ed) rfl rfl rfl
      (congrArg List.length ep)

/-- A worker clears its flag. -/
lemma Upkeep.release (returning : t.c.s.dev.workers w = .returning) :
    Upkeep d₀ { t with c := { t.c with s := setWorker t.c.s w .idle } } refused commits := by
  constructor
  case memory =>
    exact ⟨h.memory.rings, h.memory.placed, h.memory.separated, h.memory.chains, h.memory.fresh,
      h.memory.delivered⟩
  case ledger =>
    refine h.ledger.move (w := w) rfl rfl (fun no => by cases no) ?_ trivial ?_ h.ledger.heads
      h.ledger.committed
    · rw [returning]
      rfl
    · exact fun v _ => h.ledger.workers v
  case setup => exact h.setup.keep rfl rfl rfl rfl fun x hx => .inl hx
  case ctl => exact h.ctl
  case history => exact h.history.keep rfl rfl rfl rfl le_rfl

/-- A worker that has a request has one that was popped and not answered, so that some worker has none as long as
there is a request to pop. -/
lemma Upkeep.spare (lt : t.popped < t.reqs.length) : ∃ w, (t.c.s.dev.workers w).req? = none := by
  by_contra all
  push Not at all
  have some : ∀ w, (t.c.s.dev.workers w).req?.isSome := fun w => Option.isSome_iff_ne_none.mpr (all w)
  have card : t.inFlight.card = virtioBlkMaxQueueNum := by
    rw [Traffic.inFlight, Multiset.card_sum]
    simp [Worker.counts, some]
  have once := congrArg Multiset.card h.ledger.once
  have room := h.memory.rings.room
  have consumed := h.memory.rings.consumed_le
  have max := h.setup.max
  rw [Multiset.card_add, card, Multiset.coe_card, Multiset.card_range] at once
  rw [Traffic.avail, List.length_map] at room
  rw [h.ledger.used_length] at consumed
  omega

/-- If no worker is free for a request, one has answered its request and not cleared its flag. -/
lemma Upkeep.returning (lt : t.popped < t.reqs.length) (none : t.c.s.dev.freeWorker = none) :
    ∃ w, t.c.s.dev.workers w = .returning := by
  obtain ⟨w, hw⟩ := h.spare lt
  have busy := List.find?_eq_none.mp none w (List.mem_finRange w)
  refine ⟨w, ?_⟩
  cases e : t.c.s.dev.workers w with
  | idle => simp [e, Worker.isIdle] at busy
  | returning => rfl
  | queued req | finished req ret =>
    rw [e] at hw
    cases hw

/-- A request is refused: as if a worker that is still returning had taken it and failed. -/
lemma Upkeep.refuse {q : Fin maxQueue} {a : UInt16} {v : Option (Fin virtioBlkMaxQueueNum)} {k : Nat}
    (ctl : t.c.ctl = .notify q a v) (idx : a = .ofNat k) (lt : t.popped < k) (le : k ≤ t.reqs.length)
    (e : t.reqs[t.popped]? = some x) (head : x.head = nextHead t.c.s 0) (none : t.c.s.dev.freeWorker = none) :
    Upkeep d₀ { t with
      c := ⟨advance (virtioConsumeDesc { t.c.s with mem := scatterAt t.mem x.writable 0 x.cmd.refused } 0 x.head
        x.cmd.writeSize) 0 (nextHead t.c.s 0), t.c.ctl⟩,
      answers := t.answers ++ [(t.popped, x.cmd.refused)] } (refused ++ [t.popped]) commits := by
  obtain ⟨w, returning⟩ := h.returning (by omega) none
  obtain ⟨s', hs'⟩ : ∃ s', s' = virtioConsumeDesc
      { t.c.s with mem := scatterAt t.mem x.writable 0 x.cmd.refused } 0 x.head x.cmd.writeSize := ⟨_, rfl⟩
  obtain ⟨em, eq, eu, ep, ed⟩ := virtioConsumeDesc_scatterAt h.memory.rings.ring hs'
  have queue : (advance s' 0 (nextHead t.c.s 0)).queue 0 = t.qs.advanced := by
    rw [advance_queue, eq]
    rfl
  rw [← hs']
  have workers : (advance s' 0 (nextHead t.c.s 0)).dev.workers = t.c.s.dev.workers := congrArg (fun c => c.workers) ed
  -- The flag is cleared, the request is taken and answered, and the flag is not cleared yet.
  have back : (advance s' 0 (nextHead t.c.s 0)).dev.workers =
      Function.update (Function.update (Function.update t.c.s.dev.workers w .idle) w (.queued x.io)) w .returning := by
    rw [workers, Function.update_idem, Function.update_idem, ← returning, Function.update_eq_self]
  obtain ⟨t₁, ht₁⟩ : ∃ t₁ : Traffic, t₁ = { t with
      c := ⟨advance (setWorker (setWorker t.c.s w .idle) w (.queued x.io)) 0 (nextHead t.c.s 0), t.c.ctl⟩,
      owner := Function.update t.owner w t.popped } := ⟨_, rfl⟩
  have taken : Upkeep d₀ t₁ refused commits := by
    rw [ht₁]
    exact (h.release returning).round ctl idx lt le e head (Function.update_self ..)
  have popped : t₁.qs = t.qs.advanced := by
    rw [ht₁]
    exact advance_queue
  have busy : (t₁.c.s.dev.workers w).req?.isSome := by
    rw [ht₁]
    simp [advance, VirtioDevice.updQueue, setWorker, BlockDeviceCtx.setWorker, Worker.req?]
  have own : t₁.owner w = t.popped := by
    rw [ht₁]
    exact Function.update_self ..
  have mem : (advance s' 0 (nextHead t.c.s 0)).mem =
      publishUsed (scatterAt t₁.mem x.writable 0 x.cmd.refused) t₁.qs x.head x.cmd.writeSize := by
    rw [popped, publishUsed_advanced, show t₁.mem = t.mem by rw [ht₁]; rfl]
    exact em
  obtain ⟨memory, ledger⟩ := taken.answer (advance s' 0 (nextHead t.c.s 0)) t.c.ctl own (by rw [ht₁]; exact e) busy
    Cmd.refused_length mem (queue.trans popped.symm) (by rw [ht₁]; exact eu)
    (by rw [ht₁]; exact congrArg (List.cons _) ep) (by rw [ht₁]; exact back)
  rw [ht₁] at memory ledger
  constructor
  case memory =>
    exact ⟨memory.rings, memory.placed, memory.separated, memory.chains, memory.fresh, memory.delivered⟩
  case ledger =>
    refine Ledger.owner ledger fun u some => Function.update_of_ne ?_ ..
    rintro rfl
    rw [show (advance s' 0 (nextHead t.c.s 0)).dev.workers u = _ from congrFun workers u, returning] at some
    cases some
  case setup =>
    refine h.setup.keep ?_ ?_ (congrArg (fun c => c.size) ed) (congrArg (fun c => c.disk.len) ed) fun x hx => .inl hx
    · exact congrArg (fun q => q.num) queue
    · exact congrArg (fun q => q.manualRecv) queue
  case ctl =>
    intro q' a' v' e'
    rw [show t.c.ctl = _ from ctl] at e'
    cases e'
    refine ⟨(h.ctl q a v ctl).1, k, idx, ?_, le⟩
    change (s'.popped.length + 1) ≤ k
    rw [ep]
    exact lt
  case history =>
    refine h.history.refuse h.ledger e (congrArg (fun c => c.disk) ed) rfl rfl rfl ?_
    exact congrArg (fun l => l.length + 1) ep

/-- The driver makes requests available. -/
lemma Upkeep.publish {xs : List Request} (guard : Conforms t (.publish xs)) :
    Upkeep d₀ { t with
      c.s.mem := publishAvail t.mem t.qs (.ofNat (t.reqs.length + xs.length)), reqs := t.reqs ++ xs,
      seen := t.seen ++ xs.map fun _ => t.answered } refused commits where
  memory := h.memory.publish guard
  ledger := h.ledger.publish h.memory.rings.popped_le
  setup := by
    refine h.setup.keep rfl rfl rfl rfl fun x hx => ?_
    rcases List.mem_append.mp hx with hx | hx
    · exact .inl hx
    · exact .inr (guard.2.2.1 x hx).2.1
  ctl := by
    intro q a w e
    obtain ⟨hq, k, ha, lt, le⟩ := h.ctl q a w e
    refine ⟨hq, k, ha, lt, le.trans ?_⟩
    rw [List.length_append]
    exact Nat.le_add_right _ _
  history := h.history.publish h.ledger

/-- The driver reads an answer. -/
lemma Upkeep.consume (lt : t.consumed < t.used.length) :
    Upkeep d₀ { t with consumed := t.consumed + 1 } refused commits where
  memory := h.memory.consume lt
  ledger := { h.ledger with }
  setup := h.setup.keep rfl rfl rfl rfl fun _ hx => .inl hx
  ctl := h.ctl
  history := h.history.keep rfl rfl rfl rfl le_rfl

end Device

/-! ## Runs -/

/-- A round finds a worker whose flag is clear. -/
def Admits (t : Traffic) : TrafficAct → Prop
  | .blk (.dev .round) => t.c.s.dev.freeWorker.isSome
  | _ => True

instance (t : Traffic) : (b : TrafficAct) → Decidable (Admits t b)
  | .blk (.dev .round) => inferInstanceAs (Decidable (_ = true))
  | .blk (.dev (.guest ..)) | .blk (.dev (.mmioRead ..)) | .blk (.dev (.mmioWrite ..))
  | .blk (.dev (.ioeventfd ..)) | .blk (.dev .done) | .blk (.io _) | .blk (.complete _) | .blk (.release _)
  | .publish _ | .consume => .isTrue trivial

/-- What is noted of an answer: its bytes are those in the buffers of the request. -/
lemma Memory.answer_eq {bs : List UInt8} (le : t.consumed ≤ t.answers.length)
    (memory : Memory { t with c := c', answers := t.answers ++ [(i, bs)] }) (mem : c.s.mem = c'.s.mem) :
    t.answer c i = (i, bs) := by
  obtain ⟨x, e, bytes⟩ := memory.delivered t.answers.length (i, bs) le List.getElem?_concat_length
  rw [Traffic.answer, mem, show t.reqs[i]? = some x from e]
  exact congrArg _ bytes

/-- What is noted of a callback that has published its answer. -/
lemma Memory.note_complete {bs : List UInt8} (le : t.consumed ≤ t.answers.length)
    (memory : Memory { t with c := ⟨s', .idle⟩, answers := t.answers ++ [(t.owner w, bs)] }) :
    t.note (Machine.startNotify ⟨s', .idle⟩ 0 (some w)) (.complete w) =
      { t with
        c := Machine.startNotify ⟨s', .idle⟩ 0 (some w), answers := t.answers ++ [(t.owner w, bs)] } := by
  rw [Traffic.note, Memory.answer_eq le memory (by rw [Machine.startNotify_s])]

/-- What a step leaves alone that the driver answers for. -/
lemma LeavesTraffic.of_ok {a : DevAct} (h : LeavesTraffic t a) (e : blockStep t.c (.dev a) = .ok c') :
    c'.s.queue 0 = t.qs ∧ KeepsTraffic t c'.s.mem :=
  h.2 c' (by rw [e]; rfl)

/-- A step of the device other than that of a worker; only a round that finds no free worker refuses a request. -/
lemma Upkeep.dev_step (h : Upkeep d₀ t refused commits) {a : DevAct} (conforms : Conforms t (.blk (.dev a)))
    (step : blockStep t.c (.dev a) = .ok c') :
    ∃ refused', Upkeep d₀ (t.note c' (.dev a)) refused' commits ∧ (Admits t (.blk (.dev a)) → refused' = refused) := by
  have eff : DevEffect virtioBlockRecvRequest t.c a c' := devStep_effect step
  cases eff with
  | guest _ =>
    obtain ⟨queue, keeps⟩ := LeavesTraffic.of_ok conforms step
    exact ⟨refused, h.keep queue rfl rfl rfl rfl keeps h.ctl, fun _ => rfl⟩
  | mmioRead _ _ => exact ⟨refused, h, fun _ => rfl⟩
  | @mmioWrite offset val size _ _ =>
    obtain ⟨queue, keeps⟩ := LeavesTraffic.of_ok conforms step
    obtain ⟨em, ed, ep, eu, -⟩ : Untouched t.c.s (virtioMmioWriteReg t.c.s offset val size) :=
      virtioMmioWriteReg_untouched
    exact ⟨refused, h.keep queue ed eu ep (congrArg _ em) keeps h.ctl, fun _ => rfl⟩
  | @start a q idle yes =>
    cases a with
    | mmioWrite offset val size =>
      obtain rfl := conforms.1 q yes
      exact ⟨refused, h.start, fun _ => rfl⟩
    | ioeventfd q' =>
      obtain rfl := conforms.1 q yes
      exact ⟨refused, h.start, fun _ => rfl⟩
    | guest _ _ | mmioRead _ _ | round | done => cases yes
  | @round q a v go s' ctl ne eq =>
    obtain ⟨rfl, k, idx, lt, le⟩ := h.lt_of_ne ctl ne
    obtain ⟨x, e, head⟩ := h.next (by omega)
    cases free : t.c.s.dev.freeWorker with
    | some w =>
      rw [h.round_eq e head free] at eq
      cases eq
      simp only [Traffic.note, free, if_true]
      exact ⟨refused, h.round ctl idx lt le e head (freeWorker_idle free), fun _ => rfl⟩
    | none =>
      rw [h.refuse_eq e head free] at eq
      cases eq
      have next := h.refuse ctl idx lt le e head free
      have consumed := h.memory.rings.consumed_le
      rw [h.ledger.heads.length_eq] at consumed
      simp only [Traffic.note, free, if_true, Memory.answer_eq consumed next.memory rfl]
      refine ⟨_, next, fun admits => ?_⟩
      rw [Admits, free] at admits
      cases admits
  | done ctl last =>
    exact ⟨refused, h.keep rfl rfl rfl rfl rfl .refl (fun q a w no => by cases no), fun _ => rfl⟩

/-- Every step of a conforming run keeps the invariant, and one that is admitted refuses no request. -/
lemma upkeep_step {b : TrafficAct} (h : Upkeep d₀ t refused commits) (guard : Conforms t b)
    (e : trafficStep t b = .ok t') :
    ∃ refused' commits', Upkeep d₀ t' refused' commits' ∧ (Admits t b → refused' = refused) := by
  cases b with
  | publish xs =>
    obtain ⟨c', step, e⟩ := bind_eq_ok.mp e
    obtain rfl := Except.ok.inj e
    have eff : DevEffect virtioBlockRecvRequest t.c (.guest (t.qs.availAddr.toNat + 2)
        (leBytes 2 (UInt16.ofNat (t.reqs.length + xs.length)).toNat)) c' := devStep_effect step
    cases eff with
    | guest inside => exact ⟨refused, commits, h.publish guard, fun _ => rfl⟩
    | start _ yes => cases yes
  | consume =>
    simp only [trafficStep] at e
    split at e
    · cases e
    · rename_i ne
      obtain rfl := Except.ok.inj e
      exact ⟨refused, commits, h.consume (h.memory.rings.usedIdx_ne.mp ne), fun _ => rfl⟩
  | blk a =>
    obtain ⟨c', step, e⟩ := bind_eq_ok.mp e
    obtain rfl := Except.ok.inj e
    cases a with
    | dev a =>
      obtain ⟨refused', next, same⟩ := h.dev_step guard step
      exact ⟨refused', commits, next, same⟩
    | io w =>
      cases blockStep_effect step with
      | io queued eq =>
        have carries := h.ledger.workers w
        rw [queued] at carries
        obtain ⟨x, ex, rfl, new⟩ := carries
        rw [h.io_eq (List.mem_of_getElem? ex)] at eq
        cases eq
        exact ⟨refused, _, h.io ex queued new, fun _ => rfl⟩
    | complete w =>
      cases blockStep_effect step with
      | @complete w req ret s' idle finished eq =>
        have carries := h.ledger.workers w
        rw [finished] at carries
        obtain ⟨x, d, ex, rfl, rfl, mem⟩ := carries
        have some : (t.c.s.dev.workers w).req?.isSome := by rw [finished]; rfl
        rw [Request.ioDone_arg, h.complete_eq ex some] at eq
        obtain rfl := Except.ok.inj eq
        -- the callback answers the request and goes on into `queue_notify`
        have next := h.complete ex finished mem
        have le := h.memory.rings.consumed_le
        rw [h.ledger.heads.length_eq] at le
        refine ⟨refused, commits, ?_, fun _ => rfl⟩
        rw [idle, Request.ioDone_arg, Request.io_queue, Memory.note_complete le next.memory]
        exact next.start
    | release w =>
      cases blockStep_effect step with
      | release returning _ => exact ⟨refused, commits, h.release returning, fun _ => rfl⟩

/-- In every run of a conforming driver the invariant holds. -/
lemma upkeep_run (start : Start c) (r : Reach trafficStep Conforms (trafficInit c) t) :
    ∃ refused commits, Upkeep c.s.dev.disk t refused commits := by
  refine r.invariant (I := fun t => ∃ refused commits, Upkeep c.s.dev.disk t refused commits)
    ⟨[], [], upkeep_init start⟩ ?_
  rintro t b t' _ ⟨refused, commits, h⟩ guard e
  obtain ⟨refused', commits', next, -⟩ := upkeep_step h guard e
  exact ⟨refused', commits', next⟩

section Progress
variable (h : Upkeep d₀ t refused commits)
include h

/-- The I/O of a worker does not fail. -/
lemma Upkeep.io_ok {req : AsyncIoReq} (queued : t.c.s.dev.workers w = .queued req) :
    ∃ t', trafficStep t (.blk (.io w)) = .ok t' := by
  have carries := h.ledger.workers w
  rw [queued] at carries
  obtain ⟨x, ex, rfl, -⟩ := carries
  simp only [trafficStep, blockStep, queued, h.io_eq (List.mem_of_getElem? ex), ok_bind]
  exact ⟨_, rfl⟩

/-- Nor does its callback. -/
lemma Upkeep.complete_ok {req : AsyncIoReq} {ret : Int} (finished : t.c.s.dev.workers w = .finished req ret)
    (idle : t.c.ctl = .idle) : ∃ t', trafficStep t (.blk (.complete w)) = .ok t' := by
  have carries := h.ledger.workers w
  rw [finished] at carries
  obtain ⟨x, d, ex, rfl, rfl, -⟩ := carries
  have some : (t.c.s.dev.workers w).req?.isSome := by rw [finished]; rfl
  simp only [trafficStep, blockStep, finished, idle, Request.ioDone_arg, h.complete_eq ex some, ok_bind]
  exact ⟨_, rfl⟩

/-- A call of `queue_notify` that has something left to pop pops it. -/
lemma Upkeep.round_ok {q : Fin maxQueue} {a : UInt16} {v : Option (Fin virtioBlkMaxQueueNum)}
    (ctl : t.c.ctl = .notify q a v) (ne : (t.c.s.queue q).lastAvailIdx ≠ a) :
    ∃ t', trafficStep t (.blk (.dev .round)) = .ok t' := by
  obtain ⟨rfl, k, -, lt, le⟩ := h.lt_of_ne ctl ne
  obtain ⟨x, e, head⟩ := h.next (by omega)
  cases free : t.c.s.dev.freeWorker with
  | some w =>
    simp only [trafficStep, blockStep, devStep, ctl, if_neg ne, h.round_eq e head free, ok_bind]
    exact ⟨_, rfl⟩
  | none =>
    simp only [trafficStep, blockStep, devStep, ctl, if_neg ne, h.refuse_eq e head free, ok_bind]
    exact ⟨_, rfl⟩

omit h in
/-- One that has nothing left ends. -/
lemma done_ok {q : Fin maxQueue} {a : UInt16} {v : Option (Fin virtioBlkMaxQueueNum)} (ctl : t.c.ctl = .notify q a v)
    (last : (t.c.s.queue q).lastAvailIdx = a) : ∃ t', trafficStep t (.blk (.dev .done)) = .ok t' := by
  simp only [trafficStep, blockStep, devStep, ctl, last, if_true]
  exact ⟨_, rfl⟩

/-- So `queue_notify` pops the next request or comes to its end. -/
lemma Upkeep.notify_ok (busy : t.c.ctl ≠ .idle) :
    ∃ a t', trafficStep t (.blk (.dev a)) = .ok t' ∧ (a = .round ∨ a = .done) := by
  cases ctl : t.c.ctl with
  | idle => exact absurd ctl busy
  | notify q a v =>
    by_cases last : (t.c.s.queue q).lastAvailIdx = a
    · obtain ⟨t', st⟩ := done_ok ctl last
      exact ⟨.done, t', st, .inr rfl⟩
    · obtain ⟨t', st⟩ := h.round_ok ctl last
      exact ⟨.round, t', st, .inl rfl⟩

end Progress

/-! ## The order of the requests -/

/-- The order of the requests that took effect. -/
lemma Upkeep.linearization (h : Upkeep d₀ t refused commits) :
    Linearization Cmd.exec d₀ t.c.s.dev.disk (t.reqs.map fun x => x.cmd) (t.answers.filter fun a => a.1 ∉ refused)
      t.Before commits := by
  have linear := (run_inv h.history.run).linear
  refine { linear with realTime := linear.realTime.imp_of_mem ?_ }
  rintro c c' _ hc' no ⟨l, e, mem⟩
  -- only refused requests are missing in what a request has seen
  refine no ⟨l.filter fun i => i ∉ refused, ?_, ?_⟩
  · change (t.seen.map fun l => l.filter fun i => i ∉ refused)[c.id]? = _
    rw [List.getElem?_map, e]
    rfl
  · exact List.mem_filter.mpr ⟨mem, by simpa using h.history.kept c' hc'⟩

/-- When no request is in flight, every popped request has taken effect or was refused. -/
lemma Upkeep.settled (h : Upkeep d₀ t refused commits) (none : t.inFlight = 0) :
    (commits.map (fun k => k.id) ++ refused).Perm (List.range t.popped) := by
  have inv := run_inv h.history.run
  have once := h.ledger.once
  rw [none, zero_add] at once
  have answered : t.answered.Perm (List.range t.popped) := Multiset.coe_eq_coe.mp once
  have nodup : (commits.map (fun k => k.id) ++ refused).Nodup := by
    refine inv.linear.nodup.append h.history.nodup ?_
    intro i hi
    obtain ⟨k, hk, rfl⟩ := List.mem_map.mp hi
    exact h.history.kept k hk
  refine (List.perm_ext_iff_of_nodup nodup List.nodup_range).mpr fun i => ?_
  rw [List.mem_append, ← answered.mem_iff]
  constructor
  · rintro (hi | hi)
    · obtain ⟨k, hk, rfl⟩ := List.mem_map.mp hi
      exact answered.mem_iff.mpr (List.mem_range.mpr (h.ledger.committed k hk))
    · exact h.history.answered i hi
  · intro hi
    by_cases ref : i ∈ refused
    · exact .inr ref
    · refine .inl (inv.answered_subset ?_)
      rw [Traffic.but_answered]
      exact List.mem_filter.mpr ⟨hi, by simpa using ref⟩

end Mvvmm.Block
