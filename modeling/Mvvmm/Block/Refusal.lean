import Mvvmm.Block.Linear

/-!
# When no worker is free

A driver has to put up with errors of requests that found all flags set, but with nothing else. In every run of a
conforming driver, the requests that were not refused are linearizable; those refused have no effect on the disk, and
are answered once like the others, with an error and, if they were to read, with zeros for their data (`tolerant`).
-/

namespace Mvvmm.Block
open Bytes CMem Virtio Run Linear

variable {t : Traffic} {c : BlockMachine}

/-- The contract of the block device, whether or not requests are refused. -/
structure Tolerant (d₀ : Disk) (t : Traffic) : Prop where
  /-- Every popped request is in flight once, or has been answered once. -/
  once : t.inFlight + (t.answered : Multiset Nat) = Multiset.range t.popped
  /-- The requests are popped in the order in which they were made available. -/
  pops : (t.c.s.popped.map fun p => p.2).reverse = t.avail.take t.popped
  /-- The answers are the entries of the used ring, which carry the heads of their requests. -/
  heads : List.Forall₂ (fun h a => ∃ x, t.reqs[a.1]? = some x ∧ x.head = h) t.used t.answers
  /-- An entry stays in the used ring until the driver has read it. -/
  unread : ∀ i, t.consumed ≤ i → i < t.used.length →
    t.used[i]? = some (usedId t.mem t.qs (i % t.qs.num.toNat))
  /-- The driver sees how many there are. -/
  index : usedIdx t.mem t.qs = .ofNat t.used.length
  /-- The data and the status stay in the buffers until then. -/
  delivered : ∀ k a, t.consumed ≤ k → t.answers[k]? = some a →
    ∃ x, t.reqs[a.1]? = some x ∧ gather t.mem x.writable = a.2
  /-- The status says which requests were refused, and the data of a read that was refused is zeros. There is an order
  of the others that explains the disk and their answers, and when no request is in flight it lacks only those
  refused. -/
  order : ∃ (refused : List Nat) (order : List IoCommit),
    (∀ a ∈ t.answers, a.2.getLast? = some (if a.1 ∈ refused then virtioBlkSIoerr else virtioBlkSOk)) ∧
      (∀ a ∈ t.answers, a.1 ∈ refused → ∃ x, t.reqs[a.1]? = some x ∧ a.2 = x.cmd.refused) ∧
      Linearization Cmd.exec d₀ t.c.s.dev.disk (t.reqs.map fun x => x.cmd)
        (t.answers.filter fun a => a.1 ∉ refused) t.Before order ∧
      (t.inFlight = 0 → (order.map (fun k => k.id) ++ refused).Perm (List.range t.popped))
  /-- A request is refused only while a worker has answered its own request and not cleared its flag. -/
  returning : t.popped < t.reqs.length → t.c.s.dev.freeWorker = none → ∃ w, t.c.s.dev.workers w = .returning
  /-- A request in flight can be carried out and answered. -/
  served : ∀ w, (∀ req, t.c.s.dev.workers w = .queued req → ∃ t', trafficStep t (.blk (.io w)) = .ok t') ∧
    ∀ req ret, t.c.s.dev.workers w = .finished req ret → t.c.ctl = .idle →
      ∃ t', trafficStep t (.blk (.complete w)) = .ok t'
  /-- `queue_notify` pops the next request or comes to its end. -/
  notified : t.c.ctl ≠ .idle → ∃ a t', trafficStep t (.blk (.dev a)) = .ok t' ∧ (a = .round ∨ a = .done)

/-- In every run of a conforming driver all requests are answered, in an order that explains the answers of those
not refused, from whatever disk the device starts with. -/
theorem tolerant (start : Start c) (r : Reach trafficStep Conforms (trafficInit c) t) :
    Tolerant c.s.dev.disk t := by
  obtain ⟨refused, commits, h⟩ := upkeep_run start r
  constructor
  case once => exact h.ledger.once
  case pops => exact h.ledger.pops
  case heads => exact h.ledger.heads
  case unread => exact h.memory.rings.ids
  case index => exact h.memory.rings.usedCount
  case delivered => exact h.memory.delivered
  case returning => exact h.returning
  case served => exact fun w => ⟨fun _ => h.io_ok, fun _ _ => h.complete_ok⟩
  case notified => exact h.notify_ok
  case order =>
    exact ⟨refused, commits, h.history.status, h.history.cleared, h.linearization, h.settled⟩

/-- Eight reads are served by workers that do not get to clear their flags, the ninth is refused, and after one of
the flags is cleared the tenth is served. -/
theorem tolerant_tenth_request :
    ∃ t, Start (queueUp (List.replicate 8 3)) ∧
      Reach trafficStep Conforms (trafficInit (queueUp (List.replicate 8 3))) t ∧
      t.answers.map (fun a => (a.1, a.2.getLast?)) =
        (List.range 10).map (fun i => (i, some (if i = 8 then virtioBlkSIoerr else virtioBlkSOk))) ∧
      Tolerant (queueUp (List.replicate 8 3)).s.dev.disk t := by
  have start : Start (queueUp (List.replicate 8 3)) := by decide +kernel
  obtain ⟨t, r, h⟩ := Reach.of_test trafficStep (fun t a => a = kick ∨ Conforms t a) .blocked
    (trafficInit (queueUp (List.replicate 8 3)))
    ((List.finRange virtioBlkMaxQueueNum).flatMap servedBy ++
      [.publish [readReq], kick, .blk (.dev .round), .blk (.dev .done), .consume, .blk (.release 5)] ++ servedBy 5)
    (fun t => decide (t.answers.map (fun a => (a.1, a.2.getLast?)) =
      (List.range 10).map (fun i => (i, some (if i = 8 then virtioBlkSIoerr else virtioBlkSOk)))))
    (by decide +kernel)
  have reach : Reach trafficStep Conforms (trafficInit (queueUp (List.replicate 8 3))) t := by
    refine r.mono ?_
    rintro t a (rfl | h)
    · exact conforms_kick
    · exact h
  exact ⟨t, start, reach, of_decide_eq_true h, tolerant start reach⟩

end Mvvmm.Block
