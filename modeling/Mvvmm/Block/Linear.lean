import Mvvmm.Block.Upkeep

/-!
# The block device is linearizable

Requests are copied when they are popped, carried out by the workers in any order, and answered by callbacks
that pop further requests. A run of a conforming driver in which every round finds a free worker is
nevertheless a run of the sequential disk `Cmd.exec`: it is a run as in `Upkeep` in which no request is refused
(`admitted_run`). So the order of the I/O is a linearization (`linearizable`).
-/

namespace Mvvmm.Block
open Bytes CMem Virtio Run Linear

variable {d₀ : Disk} {t : Traffic} {commits : List IoCommit} {c : BlockMachine} {i : Nat}

/-- What a conforming driver does, and no request is refused. -/
def Admitted (t : Traffic) (b : TrafficAct) : Prop :=
  Conforms t b ∧ Admits t b

instance (t : Traffic) (b : TrafficAct) : Decidable (Admitted t b) :=
  inferInstanceAs (Decidable (_ ∧ _))

/-- In every such run the invariant holds, and no request is refused. -/
lemma admitted_run (start : Start c) (r : Reach trafficStep Admitted (trafficInit c) t) :
    ∃ commits, Upkeep c.s.dev.disk t [] commits := by
  refine r.invariant (I := fun t => ∃ commits, Upkeep c.s.dev.disk t [] commits) ⟨[], upkeep_init start⟩ ?_
  rintro t b t' _ ⟨commits, h⟩ guard e
  obtain ⟨refused', commits', next, same⟩ := upkeep_step h guard.1 e
  obtain rfl := same guard.2
  exact ⟨commits', next⟩

/-- The contract of the block device. -/
structure Linearizable (d₀ : Disk) (t : Traffic) : Prop where
  /-- Every popped request is in flight once, or has been answered once. -/
  once : t.inFlight + (t.answered : Multiset Nat) = Multiset.range t.popped
  /-- The requests are popped in the order in which they were made available. -/
  pops : (t.c.s.popped.map fun p => p.2).reverse = t.avail.take t.popped
  /-- A request in flight is with a worker. -/
  carried : ∀ w arg, (t.c.s.dev.workers w).req? = some arg →
    ∃ x, t.reqs[t.owner w]? = some x ∧ arg.queueIdx = 0 ∧ arg.descIdx = x.head
  /-- The answers are the entries of the used ring, which carry the heads of their requests. -/
  heads : List.Forall₂ (fun h a => ∃ x, t.reqs[a.1]? = some x ∧ x.head = h) t.used t.answers
  /-- An entry stays in the used ring until the driver has read it. -/
  unread : ∀ i, t.consumed ≤ i → i < t.used.length →
    t.used[i]? = some (usedId t.mem t.qs (i % t.qs.num.toNat))
  /-- The driver sees how many there are. -/
  index : usedIdx t.mem t.qs = .ofNat t.used.length
  /-- The data and the status stay in the buffers until then. -/
  delivered : ∀ k a, t.consumed ≤ k → t.answers[k]? = some a →
    ∃ x, t.reqs[a.1]? = some x ∧ gather t.mem x.writable = a.2
  /-- There is an order of the requests that explains the disk and all answers, and is one of all popped
  requests when none is in flight. -/
  order : ∃ order : List IoCommit,
    Linearization Cmd.exec d₀ t.c.s.dev.disk (t.reqs.map fun x => x.cmd) t.answers t.Before order ∧
      (t.inFlight = 0 → (order.map fun k => k.id).Perm (List.range t.popped))
  /-- A request in flight can be carried out and answered. -/
  served : ∀ w, (∀ req, t.c.s.dev.workers w = .queued req → ∃ t', trafficStep t (.blk (.io w)) = .ok t') ∧
    ∀ req ret, t.c.s.dev.workers w = .finished req ret → t.c.ctl = .idle →
      ∃ t', trafficStep t (.blk (.complete w)) = .ok t'
  /-- `queue_notify` pops the next request or comes to its end. -/
  notified : t.c.ctl ≠ .idle → t.c.s.dev.freeWorker.isSome →
    ∃ a t', trafficStep t (.blk (.dev a)) = .ok t' ∧ (a = .round ∨ a = .done)

/-- A worker that has a request has the one that is noted for it. -/
lemma Carries.arg {reqs : List Request} {W : Worker} {arg : BlockRequest} (h : Carries reqs commits i W)
    (e : W.req? = some arg) : ∃ x, reqs[i]? = some x ∧ arg = x.io.arg := by
  cases W with
  | queued req =>
    obtain ⟨x, ex, rfl, -⟩ := h
    exact ⟨x, ex, (Option.some.inj e).symm⟩
  | finished req ret =>
    obtain ⟨x, d, ex, -, rfl, -⟩ := h
    refine ⟨x, ex, ?_⟩
    rw [← Option.some.inj e, Request.ioDone_arg]
  | idle => cases e
  | returning => cases e

/-- In every run of a conforming driver in which every round finds a worker whose flag is clear, the block
device is linearizable, from whatever disk it starts with. -/
theorem linearizable (start : Start c) (r : Reach trafficStep Admitted (trafficInit c) t) :
    Linearizable c.s.dev.disk t := by
  obtain ⟨commits, h⟩ := admitted_run start r
  constructor
  case once => exact h.ledger.once
  case pops => exact h.ledger.pops
  case carried =>
    intro w arg e
    obtain ⟨x, ex, rfl⟩ := (h.ledger.workers w).arg e
    exact ⟨x, ex, Request.io_queue, Request.io_head⟩
  case heads => exact h.ledger.heads
  case unread => exact h.memory.rings.ids
  case index => exact h.memory.rings.usedCount
  case delivered => exact h.memory.delivered
  case served => exact fun w => ⟨fun _ => h.io_ok, fun _ _ => h.complete_ok⟩
  case notified => exact fun busy _ => h.notify_ok busy
  case order =>
    have linear := h.linearization
    have settled := h.settled
    simp only [List.not_mem_nil, not_false_eq_true, decide_true, List.filter_true, List.append_nil] at linear settled
    exact ⟨commits, linear, settled⟩

/-! ## Runs of two requests -/

/-- The driver kicks the queue. -/
def kick : TrafficAct :=
  .blk (.dev (.mmioWrite 0x050 0 4))

/-- It may do so at any time. -/
lemma conforms_kick : Conforms t kick := by
  refine ⟨?_, ?_⟩
  · rintro q ⟨⟩
    rfl
  · intro c e
    cases ok : blockStep t.c (.dev (.mmioWrite 0x050 0 4)) with
    | error x =>
      rw [ok] at e
      cases e
    | ok c' =>
      rw [ok] at e
      obtain rfl := Option.some.inj e
      have eff : DevEffect virtioBlockRecvRequest t.c (.mmioWrite 0x050 0 4) c' := devStep_effect ok
      cases eff with
      | mmioWrite _ no => cases no
      | start _ _ =>
        rw [Machine.startNotify_s]
        exact ⟨rfl, .refl⟩

/-- A guest memory with a request to write sector 0, with head 0, and one to read it, with head 3. The
available ring offers the given heads. -/
def writeRead (heads : List Nat) : GuestMemMap :=
  .onePage (splices (fun _ => 0)
    [(0, [7]), (512, BlockRequestHeader.encode ⟨1, 0⟩), (544, BlockRequestHeader.encode ⟨0, 0⟩),
      (576, [⟨512, 16, 1, 1⟩, ⟨0, 512, 1, 2⟩, ⟨528, 1, 2, 0⟩, ⟨544, 16, 1, 4⟩, ⟨1024, 513, 2, 0⟩].flatMap
        VirtioDesc.encode),
      (708, heads.flatMap (leBytes 2))])

/-- The request to write. -/
def writeReq : Request :=
  ⟨0, [⟨512, 16, 1, 1⟩, ⟨0, 512, 1, 2⟩], [⟨528, 1, 2, 0⟩], .write 0 (7 :: List.replicate 511 0)⟩

/-- The request to read. -/
def readReq : Request :=
  ⟨3, [⟨544, 16, 1, 4⟩], [⟨1024, 513, 2, 0⟩], .read 0 1⟩

/-- The block device, with a disk of one sector, after a driver has set up its queue. -/
def queueUp (heads : List Nat) : BlockMachine :=
  ([.dev (.mmioWrite 0x080 576 4), .dev (.mmioWrite 0x090 704 4), .dev (.mmioWrite 0x0a0 728 4),
    .dev (.mmioWrite 0x044 1 4)].foldlM blockStep (blockInit (writeRead heads) (.zero 512))).toOption.getD
      (blockInit (writeRead heads) (.zero 512))

/-- The write overtakes the read that was made available before it: the read returns what it has written. -/
theorem linearizable_overtaken :
    ∃ t, Start (queueUp [3, 0]) ∧ Reach trafficStep Admitted (trafficInit (queueUp [3, 0])) t ∧
      t.answers.map (fun a => (a.1, a.2.head?)) = [(1, some 0), (0, some 7)] ∧
      Linearizable (queueUp [3, 0]).s.dev.disk t := by
  have start : Start (queueUp [3, 0]) := by decide +kernel
  obtain ⟨t, r, h⟩ := Reach.of_test trafficStep (fun t a => a = kick ∨ Admitted t a) .blocked
    (trafficInit (queueUp [3, 0]))
    [.publish [readReq, writeReq], kick, .blk (.dev .round), .blk (.dev .round), .blk (.dev .done),
      .blk (.io 1), .blk (.io 0), .blk (.complete 1), .blk (.dev .done), .blk (.complete 0),
      .blk (.dev .done), .consume]
    (fun t => decide (t.answers.map (fun a => (a.1, a.2.head?)) = [(1, some 0), (0, some 7)]))
    (by decide +kernel)
  have reach : Reach trafficStep Admitted (trafficInit (queueUp [3, 0])) t := by
    refine r.mono ?_
    rintro t a (rfl | h)
    · exact ⟨conforms_kick, trivial⟩
    · exact h
  exact ⟨t, start, reach, of_decide_eq_true h, linearizable start reach⟩

/-- No order of the requests explains an I/O error. -/
lemma not_linearizable {bs : List UInt8} (mem : bs ∈ t.answers.map fun a => a.2)
    (error : bs.getLast? = some virtioBlkSIoerr) : ¬ Linearizable d₀ t := by
  intro lin
  obtain ⟨a, ha, rfl⟩ := List.mem_map.mp mem
  obtain ⟨order, linear, -⟩ := lin.order
  obtain ⟨k, hk, -, eq⟩ := linear.explains a ha
  have result : k.result ∈ (execAll Cmd.exec d₀ (order.map fun c => c.op)).2 := by
    rw [linear.run]
    exact List.mem_map_of_mem hk
  obtain ⟨d, cmd, e⟩ := mem_execAll result
  rw [← eq, e, exec_status] at error
  cases error

/-- The read is made available after the answer before has been read, and is served by a worker that does not
get to clear its flag. -/
def servedBy (w : Fin virtioBlkMaxQueueNum) : List TrafficAct :=
  [.publish [readReq], kick, .blk (.dev .round), .blk (.dev .done), .blk (.io w), .blk (.complete w),
    .blk (.dev .done), .consume]

/-- The ninth read finds all flags set and is refused, although none is in flight. -/
theorem ninth_request_fails :
    ∃ t, Start (queueUp (List.replicate 8 3)) ∧
      Reach trafficStep Conforms (trafficInit (queueUp (List.replicate 8 3))) t ∧
      (t.inFlight = 0 ∧ t.answered = List.range 9) ∧
      ¬ Linearizable (queueUp (List.replicate 8 3)).s.dev.disk t := by
  have start : Start (queueUp (List.replicate 8 3)) := by decide +kernel
  obtain ⟨t, r, h⟩ := Reach.of_test trafficStep (fun t a => a = kick ∨ Conforms t a) .blocked
    (trafficInit (queueUp (List.replicate 8 3)))
    ((List.finRange virtioBlkMaxQueueNum).flatMap servedBy ++ [.publish [readReq], kick, .blk (.dev .round)])
    (fun t => decide (t.inFlight = 0 ∧ t.answered = List.range 9) &&
      (t.answers.getLast?.any fun a => a.2.getLast? = some virtioBlkSIoerr)) (by decide +kernel)
  have reach : Reach trafficStep Conforms (trafficInit (queueUp (List.replicate 8 3))) t := by
    refine r.mono ?_
    rintro t a (rfl | h)
    · exact conforms_kick
    · exact h
  simp only [Bool.and_eq_true, decide_eq_true_eq, Option.any_eq_true] at h
  obtain ⟨ninth, a, last, error⟩ := h
  have mem : a.2 ∈ t.answers.map fun a => a.2 := List.mem_map_of_mem (List.mem_of_getLast? last)
  exact ⟨t, start, reach, ninth, not_linearizable mem error⟩

end Mvvmm.Block
