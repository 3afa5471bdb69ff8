import Mvvmm.Block.Refusal
import Mvvmm.Stores
import Mvvmm.Virtio.Live

/-!
# Every request is answered

The block device from one end to the other: the driver makes requests available and notifies the queue, which
adds to an eventfd; the poll thread reads the eventfd and calls `queue_notify` under the lock, which hands the
requests to the workers or refuses them; the workers carry them out and answer them, again under the lock, and
pop what has become available meanwhile.

`Pipeline` has all of these threads. In every fair run, in which each of them goes on whenever it can again and
again, all requests that are available at a notification are answered at some later moment, whatever else happens
in between (`requests_answered`). No worker has to be free: a request that finds none is answered by its refusal.
-/

namespace Mvvmm.Block
open Bytes CMem Virtio Run Fair

/-- The block device and its driver, with the counters of the eventfds, the poll thread, and how many requests there
were at the last notification. -/
structure Pipeline where
  t : Traffic
  counter : Fin maxQueue → Nat
  poll : PollPc
  notified : Nat

/-- What happens to them. -/
inductive PipeAct where
  | traffic (a : TrafficAct)
  /-- The driver notifies the queue. -/
  | kick
  /-- The poll thread goes on. -/
  | poll
  deriving DecidableEq, Repr

/-- What the poll thread has to do with. -/
def Pipeline.view (s : Pipeline) : PollMachine BlockDeviceCtx (Fin virtioBlkMaxQueueNum) :=
  ⟨s.t.c, s.counter, s.poll, s.t.avail, s.notified⟩

/-- A step of the pipeline; `fd` are the descriptors of the eventfds. -/
def pipeStep (fd : Fin maxQueue → Nat) (s : Pipeline) : PipeAct → Except Stop Pipeline
  | .traffic a => do
    let t ← trafficStep s.t a
    return { s with t, poll := s.poll.resume t.c.ctl }
  | .kick =>
    return { s with counter := Function.update s.counter 0 (s.counter 0 + 1), notified := s.t.reqs.length }
  | .poll => do
    let v ← virtioIoeventfdPollThread fd s.view
    return { s with t := { s.t with c := v.c }, counter := v.counter, poll := v.poll }

/-- What a conforming driver does. -/
def PipeConforms (s : Pipeline) : PipeAct → Prop
  | .traffic a => Conforms s.t a
  | .kick | .poll => True

instance (s : Pipeline) : (a : PipeAct) → Decidable (PipeConforms s a)
  | .traffic a => inferInstanceAs (Decidable (Conforms s.t a))
  | .kick | .poll => .isTrue trivial

/-- The poll thread has just started. -/
def pipeInit (c : BlockMachine) : Pipeline :=
  ⟨trafficInit c, fun _ => 0, .poll, 0⟩

/-- What the threads of the device do: the poll thread, the one that is in `queue_notify`, and the workers. -/
def threads : List PipeAct :=
  [.poll, .traffic (.blk (.dev .round)), .traffic (.blk (.dev .done))] ++
    (List.finRange virtioBlkMaxQueueNum).flatMap fun w =>
      [.traffic (.blk (.io w)), .traffic (.blk (.complete w))]

variable {d₀ : Disk} {fd : Fin maxQueue → Nat} {s s' : Pipeline} {t t' : Traffic} {refused : List Nat}
  {commits : List IoCommit} {c c' : BlockMachine} {w : Fin virtioBlkMaxQueueNum} {x : Request} {i : Nat}

/-! ## The invariant -/

/-- What holds in every state of a conforming run. -/
structure PipeInv (d₀ : Disk) (s : Pipeline) : Prop where
  upkeep : ∃ refused commits, Upkeep d₀ s.t refused commits
  poll : PollInv 0 s.view
  only : s.view.Only 0

/-- All heads are popped from queue 0. -/
lemma PipeInv.popped (h : PipeInv d₀ s) : s.view.popped 0 = s.t.popped := by
  obtain ⟨refused, commits, up⟩ := h.upkeep
  exact h.poll.ring.unique up.memory.rings.availRing

/-- The invariant holds when the poll thread has just started. -/
lemma pipeInv_init (start : Start c) : PipeInv c.s.dev.disk (pipeInit c) where
  upkeep := ⟨[], [], upkeep_init start⟩
  poll := by
    refine pollInv_init (c := c) ⟨?_, start.ring, start.availIdx, start.last, ?_⟩ start.auto
    · rw [start.idle]
      rfl
    · rw [poppedHeads, start.popped]
      rfl
  only := ⟨fun i pos => absurd pos (lt_irrefl 0), trivial⟩

/-- An answer leaves the available ring alone. -/
lemma Memory.keepsAvail {m : GuestMemMap} {bs : List UInt8} {n : Int} {a p : Nat} (h : Memory t) (hx : x ∈ t.reqs)
    (e : m = publishUsed (scatterAt t.mem x.writable 0 bs) t.qs x.head n) : KeepsAvail t.mem m t.qs a p := by
  have ok := h.rings.ring
  have ring : RingOk (scatterAt t.mem x.writable 0 bs).size t.qs := by rw [scatterAt_size]; exact ok
  have eq : Set.EqOn m.hostMem t.mem.hostMem (availSpan t.qs) := by
    rw [e]
    refine (ring.eqOn_avail (publishUsed_frame ring)).trans
      (scatterAt_eqOn (h.placed x hx).bufInside.2 fun d hd => ?_)
    exact (h.placed x hx).avail d (List.mem_append_right _ hd)
  have size : m.size = t.mem.size := by rw [e, publishUsed_size, scatterAt_size]
  exact .of_eqOn ok size eq

/-- A step of the device leaves the queue to its driver. -/
lemma Upkeep.leaves {a : BlockAct} (h : Upkeep d₀ s.t refused commits) (heads : s.view.popped 0 = s.t.popped)
    (conforms : Conforms s.t (.blk a)) (step : blockStep s.t.c a = .ok c') : Leaves 0 s.view c' := by
  have same : KeepsAvail s.t.mem s.t.mem s.t.qs s.t.avail.length (s.view.popped 0) := ⟨rfl, fun _ _ _ => rfl⟩
  have keep : KeepsTraffic s.t c'.s.mem →
      KeepsAvail s.t.mem c'.s.mem s.t.qs s.t.avail.length (s.view.popped 0) := by
    intro keeps
    rw [heads]
    exact keeps.rings.keepsAvail
  cases blockStep_effect step with
  | dev eff =>
    cases eff with
    | guest _ =>
      obtain ⟨queue, keeps⟩ := LeavesTraffic.of_ok conforms step
      exact ⟨fun _ => queue, keep keeps⟩
    | mmioWrite _ _ =>
      obtain ⟨queue, keeps⟩ := LeavesTraffic.of_ok conforms step
      exact ⟨fun _ => queue, keep keeps⟩
    | mmioRead _ _ | done _ _ => exact ⟨fun _ => rfl, same⟩
    | start _ _ =>
      rw [Leaves, Machine.startNotify_s]
      exact ⟨fun _ => rfl, same⟩
    | @round q a v go s₁ ctl ne eq =>
      obtain ⟨-, grown, -, -⟩ := (queueNotifyRound_effect eq).pops recvKeeps
      refine ⟨fun e => absurd (grown.symm.trans e) (List.cons_ne_self _ _), ?_⟩
      obtain ⟨rfl, k, idx, lt, le⟩ := h.lt_of_ne ctl ne
      obtain ⟨x, e, head⟩ := h.next (by omega)
      cases free : s.t.c.s.dev.freeWorker with
      | some w =>
        rw [h.round_eq e head free] at eq
        cases eq
        exact same
      | none =>
        rw [h.refuse_eq e head free] at eq
        cases eq
        obtain ⟨em, -⟩ := virtioConsumeDesc_scatterAt h.memory.rings.ring rfl
        exact h.memory.keepsAvail (List.mem_of_getElem? e) em
  | io _ _ | release _ _ => exact ⟨fun _ => rfl, same⟩
  | @complete w req ret s₁ idle finished eq =>
    have carries := h.ledger.workers w
    rw [finished] at carries
    obtain ⟨x, d, ex, rfl, rfl, -⟩ := carries
    have some : (s.t.c.s.dev.workers w).req?.isSome := by rw [finished]; rfl
    rw [Request.ioDone_arg, h.complete_eq ex some] at eq
    obtain ⟨em, queue, -⟩ := virtioConsumeDesc_scatterAt h.memory.rings.ring (Except.ok.inj eq).symm
    rw [Leaves, Machine.startNotify_s]
    exact ⟨fun _ => congrFun queue 0, h.memory.keepsAvail (List.mem_of_getElem? ex) em⟩

/-- A step of the device and its driver. -/
lemma PipeInv.traffic {a : TrafficAct} (h : PipeInv d₀ s) (conforms : Conforms s.t a)
    (st : trafficStep s.t a = .ok t') : PipeInv d₀ { s with t := t', poll := s.poll.resume t'.c.ctl } := by
  obtain ⟨refused, commits, up⟩ := h.upkeep
  have only : ∀ ctl : Ctl (Fin virtioBlkMaxQueueNum), (s.poll.resume ctl).Only 0 := fun _ => h.only.poll.resume
  obtain ⟨refused', commits', next, -⟩ := upkeep_step up conforms st
  refine ⟨⟨refused', commits', next⟩, ?_, h.only.counter, only _⟩
  have stays : s.poll.resume s.t.c.ctl = s.poll := PollPc.resume_eq h.poll.inNotify
  cases a with
  | blk a =>
    obtain ⟨c', step, st⟩ := bind_eq_ok.mp st
    obtain rfl := Except.ok.inj st
    have back := h.poll.back recvKeeps (blockStep_notify step) (up.leaves h.popped conforms step)
    rw [Pipeline.view]
    simp only [Traffic.note_c, Traffic.avail, Traffic.note_reqs]
    exact back
  | publish xs =>
    obtain ⟨c', step, st⟩ := bind_eq_ok.mp st
    obtain rfl := Except.ok.inj st
    have eff : DevEffect virtioBlockRecvRequest s.t.c (.guest (s.t.qs.availAddr.toNat + 2)
        (leBytes 2 (UInt16.ofNat (s.t.reqs.length + xs.length)).toNat)) c' := devStep_effect step
    cases eff with
    | guest inside =>
      have len : s.t.avail.length = s.t.reqs.length := List.length_map ..
      have popped : (poppedHeads s.t.c.s 0).length = s.t.popped := h.popped
      have room : s.t.avail.length + xs.length ≤ (poppedHeads s.t.c.s 0).length + s.t.qs.num.toNat := by
        rw [len, popped]
        exact conforms.1.trans (Nat.add_le_add_right (up.memory.rings.consumed_le.trans up.memory.rings.used_le) _)
      have avail : (s.t.reqs ++ xs).map (fun x => x.head) =
          s.t.avail ++ nextHeads s.t.mem s.t.qs s.t.reqs.length xs.length := by
        rw [conforms.2.1, List.map_append]
        rfl
      have publish := h.poll.publish room
      rw [show s.view.avail.length = s.t.reqs.length from len] at publish
      rw [Pipeline.view]
      simp only [Traffic.avail, avail, stays]
      exact publish
    | start _ yes => cases yes
  | consume =>
    simp only [trafficStep] at st
    split at st
    · cases st
    · obtain rfl := Except.ok.inj st
      simp only [stays]
      exact h.poll

/-- A step of the poll thread. If it begins a call of `queue_notify`, this is one for queue 0. -/
lemma PipeInv.pollThread {v : PollMachine BlockDeviceCtx (Fin virtioBlkMaxQueueNum)} (h : PipeInv d₀ s)
    (inj : Function.Injective fd) (st : virtioIoeventfdPollThread fd s.view = .ok v) :
    PipeInv d₀ { s with t := { s.t with c := v.c }, counter := v.counter, poll := v.poll } := by
  obtain ⟨refused, commits, up⟩ := h.upkeep
  have inv := h.poll.pollThread inj st
  have eff := pollThread_effect inj h.poll st
  have only := eff.only h.only
  cases eff with
  | @lock ready j pc _ =>
    obtain rfl : j = 0 := by
      have only := h.only.poll
      rw [pc] at only
      exact only.1
    exact ⟨⟨refused, commits, up.start⟩, inv, only⟩
  | _ => exact ⟨⟨refused, commits, up⟩, inv, only⟩

/-- Every step of a conforming run keeps the invariant. -/
lemma pipeInv_step {a : PipeAct} (inj : Function.Injective fd) (h : PipeInv d₀ s) (conforms : PipeConforms s a)
    (st : pipeStep fd s a = .ok s') : PipeInv d₀ s' := by
  cases a with
  | traffic a =>
    obtain ⟨t', step, st⟩ := bind_eq_ok.mp st
    obtain rfl := Except.ok.inj st
    exact h.traffic conforms step
  | kick =>
    obtain rfl := Except.ok.inj st
    obtain ⟨refused, commits, up⟩ := h.upkeep
    have kick := h.poll.kick (i := 0)
    simp only [if_true] at kick
    refine ⟨⟨refused, commits, up⟩, ?_, fun i pos => ?_, h.only.poll⟩
    · rw [show s.view.avail.length = s.t.reqs.length from List.length_map ..] at kick
      exact kick
    · by_contra ne
      simp only [Pipeline.view, Function.update_of_ne ne] at pos
      exact ne (h.only.counter i pos)
  | poll =>
    obtain ⟨v, step, st⟩ := bind_eq_ok.mp st
    obtain rfl := Except.ok.inj st
    exact h.pollThread inj step

/-! ## The steps of the other threads -/

/-- The invariant holds in every state of a conforming run. -/
lemma pipeInv_run (inj : Function.Injective fd) (start : Start c) (r : Reach (pipeStep fd) PipeConforms (pipeInit c) s) :
    PipeInv c.s.dev.disk s := by
  refine r.invariant (pipeInv_init start) ?_
  intro s a s' _ h guard st
  exact pipeInv_step inj h guard st

/-- What a step that the poll thread does not make means to it. -/
lemma PipeInv.beside {a : PipeAct} (h : PipeInv d₀ s) (conforms : PipeConforms s a)
    (st : pipeStep fd s a = .ok s') (ne : a ≠ .poll) : Beside virtioBlockRecvRequest s.view s'.view := by
  have stays : s.poll = s.poll.resume s.t.c.ctl := (PollPc.resume_eq h.poll.inNotify).symm
  cases a with
  | traffic a =>
    obtain ⟨t', traffic, st⟩ := bind_eq_ok.mp st
    obtain rfl := Except.ok.inj st
    refine ⟨?_, rfl, le_rfl⟩
    cases a with
    | blk a =>
      obtain ⟨c', step, e⟩ := bind_eq_ok.mp traffic
      obtain rfl := Except.ok.inj e
      simp only [Pipeline.view, Traffic.note_c]
      exact blockStep_notify step
    | publish xs =>
      obtain ⟨c', step, e⟩ := bind_eq_ok.mp traffic
      obtain rfl := Except.ok.inj e
      exact blockStep_notify step
    | consume =>
      simp only [trafficStep] at traffic
      split at traffic
      · cases traffic
      · obtain rfl := Except.ok.inj traffic
        exact .other rfl rfl
  | kick =>
    obtain rfl := Except.ok.inj st
    refine ⟨.other rfl rfl, stays, ?_⟩
    have le := h.poll.notified
    rw [show s.view.avail.length = s.t.reqs.length from List.length_map ..] at le
    exact le
  | poll => exact absurd rfl ne

/-- Only a round gives a request to a worker. -/
lemma Traffic.note_owner {a : BlockAct} (ne : a ≠ .dev .round) : (t.note c a).owner = t.owner := by
  unfold Traffic.note
  split
  · exact absurd rfl ne
  · rfl
  · rfl

/-- A round gives no request to a worker that has one. -/
lemma Upkeep.round_kept {a : BlockAct} (h : Upkeep d₀ t refused commits) (round : a = .dev .round)
    (step : blockStep t.c a = .ok c') (some : (t.c.s.dev.workers w).req?.isSome) :
    c'.s.dev.workers w = t.c.s.dev.workers w ∧ (t.note c' a).owner w = t.owner w := by
  subst round
  have eff : DevEffect virtioBlockRecvRequest t.c .round c' := devStep_effect step
  cases eff with
  | start _ yes => cases yes
  | @round q a v go s₁ ctl ne eq =>
    obtain ⟨rfl, k, idx, lt, le⟩ := h.lt_of_ne ctl ne
    obtain ⟨x, e, head⟩ := h.next (by omega)
    rw [Traffic.note]
    cases free : t.c.s.dev.freeWorker with
    | some v =>
      rw [h.round_eq e head free] at eq
      cases eq
      have ne : w ≠ v := by
        rintro rfl
        rw [freeWorker_idle free] at some
        cases some
      exact ⟨Function.update_of_ne ne .., Function.update_of_ne ne ..⟩
    | none =>
      rw [h.refuse_eq e head free] at eq
      cases eq
      refine ⟨?_, rfl⟩
      simp only [advance, VirtioDevice.updQueue, virtioConsumeDesc_dev]

/-- A worker that has a request is left alone by the others. -/
lemma Upkeep.worker_kept {b : TrafficAct} (h : Upkeep d₀ t refused commits) (st : trafficStep t b = .ok t')
    (some : (t.c.s.dev.workers w).req?.isSome) (io : b ≠ .blk (.io w)) (complete : b ≠ .blk (.complete w)) :
    t'.c.s.dev.workers w = t.c.s.dev.workers w ∧ t'.owner w = t.owner w := by
  cases b with
  | publish xs =>
    obtain ⟨c', step, st⟩ := bind_eq_ok.mp st
    obtain rfl := Except.ok.inj st
    have eff : DevEffect virtioBlockRecvRequest t.c (.guest (t.qs.availAddr.toNat + 2)
        (leBytes 2 (UInt16.ofNat (t.reqs.length + xs.length)).toNat)) c' := devStep_effect step
    cases eff with
    | guest inside => exact ⟨rfl, rfl⟩
    | start _ yes => cases yes
  | consume =>
    simp only [trafficStep] at st
    split at st
    · cases st
    · obtain rfl := Except.ok.inj st
      exact ⟨rfl, rfl⟩
  | blk a =>
    obtain ⟨c', step, st⟩ := bind_eq_ok.mp st
    obtain rfl := Except.ok.inj st
    rw [Traffic.note_c]
    by_cases round : a = .dev .round
    · exact h.round_kept round step some
    · refine ⟨?_, by rw [Traffic.note_owner round]⟩
      cases blockStep_effect step with
      | dev eff =>
        cases eff with
        | guest _ | mmioRead _ _ | done _ _ => rfl
        | mmioWrite _ _ =>
          exact congrArg (fun d => d.workers w) (virtioMmioWriteReg_untouched (s := t.c.s)).dev
        | start _ _ => rw [Machine.startNotify_s]
        | round _ _ _ => exact absurd rfl round
      | io _ _ => exact Function.update_of_ne (fun e => io (by rw [e])) ..
      | complete _ _ eq =>
        obtain ⟨m', len, -, rfl⟩ := virtioBlockReqEnd_ok eq
        rw [Machine.startNotify_s]
        refine (Function.update_of_ne (fun e => complete (by rw [e])) ..).trans ?_
        rw [virtioConsumeDesc_dev]
      | release returning _ =>
        refine Function.update_of_ne ?_ ..
        rintro rfl
        rw [returning] at some
        cases some

/-- An answer is not taken back. -/
lemma answered_mono {a : PipeAct} (st : pipeStep fd s a = .ok s') (mem : i ∈ s.t.answered) : i ∈ s'.t.answered := by
  cases a with
  | traffic a =>
    obtain ⟨t', traffic, st⟩ := bind_eq_ok.mp st
    obtain rfl := Except.ok.inj st
    cases a with
    | blk a =>
      obtain ⟨c', step, e⟩ := bind_eq_ok.mp traffic
      obtain rfl := Except.ok.inj e
      have more : ∀ a : Nat × List UInt8, i ∈ (s.t.answers ++ [a]).map fun a => a.1 := by
        intro a
        rw [List.map_append]
        exact List.mem_append_left _ mem
      unfold Traffic.note Traffic.answered
      split
      · split
        · exact mem
        · exact more _
      · exact more _
      · exact mem
    | publish xs =>
      obtain ⟨c', step, e⟩ := bind_eq_ok.mp traffic
      obtain rfl := Except.ok.inj e
      exact mem
    | consume =>
      simp only [trafficStep] at traffic
      split at traffic
      · cases traffic
      · obtain rfl := Except.ok.inj traffic
        exact mem
  | kick =>
    obtain rfl := Except.ok.inj st
    exact mem
  | poll =>
    obtain ⟨v, step, st⟩ := bind_eq_ok.mp st
    obtain rfl := Except.ok.inj st
    exact mem

/-- A request that was popped is with a worker or has been answered. -/
lemma Upkeep.where (h : Upkeep d₀ t refused commits) (lt : i < t.popped) :
    i ∈ t.answered ∨ ∃ w, t.owner w = i ∧ (t.c.s.dev.workers w).req?.isSome := by
  rw [← Multiset.mem_range, ← h.ledger.once, Multiset.mem_add] at lt
  rcases lt with flight | answered
  · obtain ⟨w, -, mem⟩ := Multiset.mem_sum.mp flight
    rw [Worker.counts] at mem
    split at mem
    · exact .inr ⟨w, (Multiset.mem_singleton.mp mem).symm, by assumption⟩
    · simp at mem
  · exact .inl answered

/-- The answer to a request has come into the used ring in guest memory: the index there is past its entry, the `j`-th, and
until the driver has read the entry, its cell holds the head of the request. The index counts `n` entries, and how many these
are follows from those that the driver has read. -/
def InUsedRing (t : Traffic) (i : Nat) : Prop :=
  ∃ x j n, t.reqs[i]? = some x ∧ j < n ∧ usedIdx t.mem t.qs = .ofNat n ∧ t.consumed ≤ n ∧
    n ≤ t.consumed + t.qs.num.toNat ∧ (t.consumed ≤ j → usedId t.mem t.qs (j % t.qs.num.toNat) = x.head)

/-- What has been answered is in the used ring. -/
lemma Upkeep.inUsedRing (h : Upkeep d₀ t refused commits) (mem : i ∈ t.answered) : InUsedRing t i := by
  obtain ⟨a, ha, rfl⟩ := List.mem_map.mp mem
  obtain ⟨j, hj, rfl⟩ := List.getElem_of_mem ha
  have rings := h.memory.rings
  have len : t.used.length = t.answers.length := h.ledger.heads.length_eq
  obtain ⟨x, ex, head⟩ := h.ledger.heads.get (by omega) hj
  have le : t.used.length ≤ t.consumed + t.qs.num.toNat :=
    rings.used_le.trans (rings.popped_le.trans rings.room)
  refine ⟨x, j, t.used.length, ex, by omega, rings.usedCount, rings.consumed_le, le, fun unread => ?_⟩
  have cell := rings.ids j unread (by omega)
  rw [List.getElem?_eq_getElem (by omega), Option.some.injEq] at cell
  rw [← cell, head]
  rfl

/-! ## Fair runs -/

section Fair
variable {r : Trace (pipeStep fd)} (inj : Function.Injective fd) (inv : ∀ n, PipeInv d₀ (r.state n))
  (conforms : ∀ n a, r.act n = some a → PipeConforms (r.state n) a)
  (fair : ∀ a ∈ threads, r.StronglyFair a)
include inj inv conforms fair

/-- The pipeline is one in which notifications are served. -/
lemma served : ServedRun r Pipeline.view virtioBlockRecvRequest fd 0 .poll (.traffic (.blk (.dev .round)))
    (.traffic (.blk (.dev .done))) where
  inj := inj
  keeps := recvKeeps
  inv n := (inv n).poll
  mine n i a w ctl := by
    obtain ⟨refused, commits, up⟩ := (inv n).upkeep
    exact (up.ctl i a w ctl).1
  own n e := by
    obtain ⟨v, step, st⟩ := bind_eq_ok.mp (r.next n _ e)
    rw [step, ← Except.ok.inj st, (pollThread_effect inj (inv n).poll step).rest]
    rfl
  other n b e ne := (inv n).beside (conforms n b e) (r.next n b e) ne
  canPoll n v st := by
    refine ⟨{ r.state n with t := { (r.state n).t with c := v.c }, counter := v.counter, poll := v.poll }, ?_⟩
    simp only [pipeStep, st, ok_bind]
    rfl
  canRound n a w ctl ne := by
    obtain ⟨refused, commits, up⟩ := (inv n).upkeep
    obtain ⟨t', st⟩ := up.round_ok ctl ne
    simp only [Enabled, pipeStep, st, ok_bind]
    exact ⟨_, rfl⟩
  canEnd n a w ctl last := by
    obtain ⟨t', st⟩ := done_ok ctl last
    simp only [Enabled, pipeStep, st, ok_bind]
    exact ⟨_, rfl⟩
  rounds n e := by
    obtain ⟨refused, commits, up⟩ := (inv n).upkeep
    obtain ⟨t', traffic, st⟩ := bind_eq_ok.mp (r.next n _ e)
    obtain ⟨c', step, same⟩ := bind_eq_ok.mp traffic
    rw [← Except.ok.inj st, ← Except.ok.inj same]
    simp only [PollMachine.popped, Pipeline.view, Traffic.note_c]
    exact devStep_round_popped recvKeeps step fun i a w ctl => (up.ctl i a w ctl).1
  ends n e := by
    obtain ⟨t', traffic, st⟩ := bind_eq_ok.mp (r.next n _ e)
    obtain ⟨c', step, same⟩ := bind_eq_ok.mp traffic
    have step : devStep virtioBlockRecvRequest (r.state n).t.c .done = .ok c' := step
    rw [← Except.ok.inj st, ← Except.ok.inj same]
    exact devStep_done_idle step
  fairPoll := fair _ (by simp [threads])
  fairRound := fair _ (by simp [threads])
  fairEnd := fair _ (by simp [threads])

omit conforms fair in
/-- A worker that has a request keeps it until it goes on itself. -/
lemma worker_stays {n : Nat} {b : PipeAct} (e : r.act n = some b)
    (some : ((r.state n).t.c.s.dev.workers w).req?.isSome) (io : b ≠ .traffic (.blk (.io w)))
    (complete : b ≠ .traffic (.blk (.complete w))) :
    (r.state (n + 1)).t.c.s.dev.workers w = (r.state n).t.c.s.dev.workers w ∧
      (r.state (n + 1)).t.owner w = (r.state n).t.owner w := by
  obtain ⟨refused, commits, up⟩ := (inv n).upkeep
  have st := r.next n b e
  cases b with
  | traffic a =>
    obtain ⟨t', traffic, st⟩ := bind_eq_ok.mp st
    rw [← Except.ok.inj st]
    exact up.worker_kept traffic some (fun e => io (by rw [e])) fun e => complete (by rw [e])
  | kick =>
    rw [← Except.ok.inj st]
    exact ⟨rfl, rfl⟩
  | poll =>
    obtain ⟨v, step, st⟩ := bind_eq_ok.mp st
    rw [← Except.ok.inj st]
    cases pollThread_effect inj (inv n).poll step with
    | lock _ _ => exact ⟨by rw [Machine.startNotify_s]; rfl, rfl⟩
    | _ => exact ⟨rfl, rfl⟩

omit conforms in
/-- A worker carries out the request that it was given. -/
lemma io_live : r.LeadsTo (fun s => s.t.owner w = i ∧ ∃ req, s.t.c.s.dev.workers w = .queued req)
    fun s => s.t.owner w = i ∧ ∃ req ret, s.t.c.s.dev.workers w = .finished req ret := by
  have fairIo : r.StronglyFair (.traffic (.blk (.io w))) := fair _ (by simp [threads])
  refine fairIo.leadsTo (fun _ => 0) ?_ ?_ ?_
  · rintro n b ⟨own, req, queued⟩ _ e ne
    have complete : b ≠ .traffic (.blk (.complete w)) := by
      rintro rfl
      obtain ⟨t', traffic, -⟩ := bind_eq_ok.mp (r.next n _ e)
      obtain ⟨c', step, -⟩ := bind_eq_ok.mp traffic
      cases blockStep_effect step with
      | complete _ finished _ =>
        rw [queued] at finished
        cases finished
    obtain ⟨same, owner⟩ := worker_stays inj inv e (by rw [queued]; rfl) ne complete
    exact .inr ⟨⟨owner.trans own, req, same.trans queued⟩, le_rfl⟩
  · rintro n ⟨own, req, queued⟩ _ e
    obtain ⟨t', traffic, st⟩ := bind_eq_ok.mp (r.next n _ e)
    obtain ⟨c', step, same⟩ := bind_eq_ok.mp traffic
    rw [← Except.ok.inj st, ← Except.ok.inj same]
    cases blockStep_effect step with
    | io _ _ => exact .inl ⟨own, _, _, Function.update_self ..⟩
  · intro n stays
    obtain ⟨⟨-, req, queued⟩, -⟩ := stays n le_rfl
    obtain ⟨refused, commits, up⟩ := (inv n).upkeep
    obtain ⟨t', st⟩ := up.io_ok queued
    refine ⟨n, le_rfl, ?_⟩
    simp only [Enabled, pipeStep, st, ok_bind]
    exact ⟨_, rfl⟩

/-- It answers it when it gets the lock. -/
lemma complete_live : r.LeadsTo (fun s => s.t.owner w = i ∧ ∃ req ret, s.t.c.s.dev.workers w = .finished req ret)
    fun s => i ∈ s.t.answered := by
  have fairComplete : r.StronglyFair (.traffic (.blk (.complete w))) := fair _ (by simp [threads])
  refine fairComplete.leadsTo (fun _ => 0) ?_ ?_ ?_
  · rintro n b ⟨own, req, ret, finished⟩ _ e ne
    have io : b ≠ .traffic (.blk (.io w)) := by
      rintro rfl
      obtain ⟨t', traffic, -⟩ := bind_eq_ok.mp (r.next n _ e)
      obtain ⟨c', step, -⟩ := bind_eq_ok.mp traffic
      cases blockStep_effect step with
      | io queued _ =>
        rw [finished] at queued
        cases queued
    obtain ⟨same, owner⟩ := worker_stays inj inv e (by rw [finished]; rfl) io ne
    exact .inr ⟨⟨owner.trans own, req, ret, same.trans finished⟩, le_rfl⟩
  · rintro n ⟨own, -⟩ _ e
    obtain ⟨t', traffic, st⟩ := bind_eq_ok.mp (r.next n _ e)
    obtain ⟨c', step, same⟩ := bind_eq_ok.mp traffic
    rw [← Except.ok.inj st, ← Except.ok.inj same]
    refine .inl ?_
    simp only [Traffic.note, Traffic.answered, Traffic.answer, own, List.map_append]
    exact List.mem_append_right _ (List.mem_singleton_self _)
  · intro n stays
    obtain ⟨m, hm, idle⟩ := (served inj inv conforms fair).idle_again n
    obtain ⟨⟨-, req, ret, finished⟩, -⟩ := stays m hm
    obtain ⟨refused, commits, up⟩ := (inv m).upkeep
    obtain ⟨t', st⟩ := up.complete_ok finished idle
    refine ⟨m, hm, ?_⟩
    simp only [Enabled, pipeStep, st, ok_bind]
    exact ⟨_, rfl⟩

/-- A request that was notified is answered. -/
lemma answered_live (i : Nat) : r.LeadsTo (fun s => i < s.notified) fun s => i ∈ s.t.answered := by
  intro n notified
  obtain ⟨m, hm, popped⟩ := (served inj inv conforms fair).popped_live i n notified
  obtain ⟨refused, commits, up⟩ := (inv m).upkeep
  rw [(inv m).popped] at popped
  rcases up.where popped with answered | ⟨w, own, some⟩
  · exact ⟨m, hm, answered⟩
  · have done := complete_live (w := w) (i := i) inj inv conforms fair
    cases busy : (r.state m).t.c.s.dev.workers w with
    | idle | returning =>
      rw [busy] at some
      cases some
    | queued req =>
      obtain ⟨k, hk, answered⟩ := (io_live inj inv fair).trans done m ⟨own, req, busy⟩
      exact ⟨k, hm.trans hk, answered⟩
    | finished req ret =>
      obtain ⟨k, hk, answered⟩ := done m ⟨own, req, ret, busy⟩
      exact ⟨k, hm.trans hk, answered⟩

end Fair

/-- A read and a write, which overtakes it. -/
def overtaking : List PipeAct :=
  [.traffic (.publish [readReq, writeReq]), .kick, .poll, .poll, .poll, .poll, .poll, .traffic (.blk (.dev .round)),
    .traffic (.blk (.dev .round)), .traffic (.blk (.io 1)), .traffic (.blk (.dev .done)), .poll,
    .traffic (.blk (.complete 1)), .poll, .traffic (.blk (.dev .done)), .traffic (.blk (.io 0)),
    .traffic (.blk (.complete 0)), .traffic (.blk (.dev .done))]

end Mvvmm.Block
