import Mvvmm.Block.Recv

/-!
# Requests that outlive a reset

A request in flight carries only the indices of its queue and of its chain, and is resolved against the
queue as it is at completion. `virtio_reset` does not wait for such requests, and rewrites the queue.

`Traced` adds a history to the block device: the number of resets so far, and for each worker the number
at the time its request was popped. A worker whose request was popped before the last reset must not
touch the guest any more (`Quiesced`). This holds in every run in which no request is in flight when the
guest resets the device (`reset_quiesced`), and fails without that.
-/

namespace Mvvmm.Block
open Bytes CMem Virtio Run

/-- The block device with the number of its resets, and for each worker this number when its request was
popped. -/
structure Traced where
  c : BlockMachine
  epoch : Nat
  born : Fin virtioBlkMaxQueueNum → Nat

/-- The guest writes 0 to STATUS. -/
def resets : BlockAct → Bool
  | .dev (.mmioWrite offset val size) =>
    decide (size = 4 ∧ Reg.ofOffset offset = some .status ∧ val = 0)
  | _ => false

/-- A step of the block device, with its history. -/
def tracedStep (t : Traced) (a : BlockAct) : Except Stop Traced := do
  let c ← blockStep t.c a
  return {
    c
    epoch := if resets a then t.epoch + 1 else t.epoch
    born := fun w =>
      if (t.c.s.dev.workers w).req?.isNone && (c.s.dev.workers w).req?.isSome then t.epoch
      else t.born w }

/-- The block device at start-up. -/
def tracedInit (mem : GuestMemMap) (disk : Disk) : Traced :=
  ⟨blockInit mem disk, 0, fun _ => 0⟩

/-- The worker on whose behalf a step is made: its I/O, its callback, and the rounds of `queue_notify` that
the callback makes. -/
def actsFor (c : BlockMachine) : BlockAct → Option (Fin virtioBlkMaxQueueNum)
  | .io w => some w
  | .complete w => some w
  | .dev .round => caller c
  | .dev .done => caller c
  | _ => none

/-- A step that leaves the guest memory, the queues and the interrupt alone. -/
def Silent (s s' : VirtioBlockDevice) : Prop :=
  s'.mem = s.mem ∧ (∀ q, (s'.queue q).lastAvailIdx = (s.queue q).lastAvailIdx) ∧
    s'.intStatus = s.intStatus ∧ s'.irqs = s.irqs

/-- Whatever a worker does for a request that was popped before the last reset is silent. -/
def Quiesced (t : Traced) : Prop :=
  ∀ a w t', actsFor t.c a = some w → t.born w < t.epoch → tracedStep t a = .ok t' → Silent t.c.s t'.c.s

/-- The guest resets the device only when no request is in flight. -/
def Drained (t : Traced) (a : BlockAct) : Prop :=
  resets a = true → ∀ w, (t.c.s.dev.workers w).req?.isNone = true

instance (t : Traced) (a : BlockAct) : Decidable (Drained t a) :=
  inferInstanceAs (Decidable (_ → _))

variable {t t' : Traced} {a : BlockAct} {c c' : BlockMachine}

/-- Every worker that is busy with a request is so since the last reset. -/
def Fresh (t : Traced) : Prop :=
  ∀ w, (t.c.s.dev.workers w).req?.isSome = true ∨ caller t.c = some w → t.born w = t.epoch

/-- Who is in `queue_notify` when it begins, unless the queue is left to the backend. -/
@[simp]
lemma caller_startNotify {q : Fin maxQueue} {w : Option (Fin virtioBlkMaxQueueNum)}
    (idle : c.ctl = .idle) :
    caller (c.startNotify q w) = if (c.s.queue q).manualRecv then none else w := by
  simp only [Machine.startNotify]
  split
  · simp only [caller, idle]
  · rfl

/-- A worker whose callback is in `queue_notify` was there before, or had its request. -/
lemma caller_step {w : Fin virtioBlkMaxQueueNum} (h : blockStep c a = .ok c')
    (hw : caller c' = some w) :
    (c.s.dev.workers w).req?.isSome = true ∨ caller c = some w := by
  cases blockStep_effect h with
  | dev eff =>
    cases eff with
    | guest _ => exact .inr hw
    | mmioRead _ _ => exact .inr hw
    | mmioWrite _ _ => exact .inr hw
    | start idle _ =>
      rw [caller_startNotify idle] at hw
      split at hw
      · cases hw
      · cases hw
    | @round q availIdx w' go s' ctl _ _ =>
      cases go with
      | true => exact .inr hw
      | false => cases hw
    | done _ _ => cases hw
  | io _ _ => exact .inr hw
  | @complete w' req ret s' idle finished _ =>
    rw [caller_startNotify (by exact idle)] at hw
    split at hw
    · cases hw
    · cases hw
      left
      rw [finished]
      rfl
  | release _ _ => exact .inr hw

/-- After a reset that found no request in flight no worker is busy. -/
lemma idle_of_reset (none : ∀ w, (c.s.dev.workers w).req?.isNone = true) (r : resets a = true)
    (h : blockStep c a = .ok c') (w : Fin virtioBlkMaxQueueNum) :
    (c'.s.dev.workers w).req?.isSome = false ∧ caller c' = .none := by
  cases blockStep_effect h with
  | dev eff =>
    cases eff with
    | @mmioWrite offset val size idle _ =>
      obtain ⟨-, dev, -⟩ : Untouched c.s (virtioMmioWriteReg c.s offset val size) :=
        virtioMmioWriteReg_untouched
      refine ⟨?_, by simp only [caller, idle]⟩
      simp only [dev]
      exact Option.isSome_eq_false_iff.mpr (none w)
    | @start a q idle yes =>
      refine ⟨?_, ?_⟩
      · rw [Machine.startNotify_s]
        exact Option.isSome_eq_false_iff.mpr (none w)
      · rw [caller_startNotify idle]
        split <;> rfl
    | guest _ => cases r
    | mmioRead _ _ => cases r
    | round _ _ _ => cases r
    | done _ _ => cases r
  | io _ _ => cases r
  | complete _ _ _ => cases r
  | release _ _ => cases r

/-- A step keeps the busy workers fresh. -/
lemma fresh_step (fresh : Fresh t) (drained : Drained t a) (h : tracedStep t a = .ok t') :
    Fresh t' := by
  obtain ⟨c', e, h⟩ := bind_eq_ok.mp h
  cases h
  intro w hw
  simp only at hw ⊢
  by_cases r : resets a = true
  · obtain ⟨no, out⟩ := idle_of_reset (drained r) r e w
    rw [no, out] at hw
    simp at hw
  · rw [if_neg r]
    split
    · rfl
    · rename_i old
      simp only [Bool.and_eq_true, not_and] at old
      apply fresh w
      rcases hw with hw | hw
      · left
        by_contra no
        exact old (by simpa using no) hw
      · exact caller_step e hw

/-- In every run in which no request is in flight at a reset, requests of before a reset are silent. -/
theorem reset_quiesced (mem : GuestMemMap) (disk : Disk) (t : Traced)
    (r : Reach tracedStep Drained (tracedInit mem disk) t) : Quiesced t := by
  have fresh : Fresh t := by
    refine r.invariant (I := Fresh) ?_ ?_
    · intro w hw
      rfl
    · intro t a t' _ fresh drained h
      exact fresh_step fresh drained h
  intro a w t' acts old h
  obtain ⟨c', e, -⟩ := bind_eq_ok.mp h
  -- a worker for which a step is made is busy, so its request is not an old one
  have busy : (t.c.s.dev.workers w).req?.isSome = true ∨ caller t.c = some w := by
    cases blockStep_effect e with
    | @dev d c₁ eff =>
      cases eff with
      | round _ _ _ => exact .inr acts
      | done _ _ => exact .inr acts
      | guest _ => cases acts
      | mmioRead _ _ => cases acts
      | mmioWrite _ _ => cases acts
      | start _ yes =>
        cases d with
        | mmioWrite => cases acts
        | ioeventfd => cases acts
        | guest => cases acts
        | mmioRead => cases acts
        | round => cases yes
        | done => cases yes
    | io queued _ =>
      cases acts
      left
      rw [queued]
      rfl
    | complete _ finished _ =>
      cases acts
      left
      rw [finished]
      rfl
    | release _ _ => cases acts
  have := fresh w busy
  omega

/-- A guest that reads a sector, waits for the answer and resets the device. -/
theorem reset_quiesced_after_read :
    ∃ t, Reach tracedStep Drained
        (tracedInit (requestMem [⟨768, 16, 1, 1⟩, ⟨1024, 513, 2, 0⟩] ⟨0, 0⟩) (.zero 512)) t ∧
      t.epoch = 1 ∧ Quiesced t := by
  obtain ⟨t, r, h⟩ := Reach.of_test tracedStep Drained .blocked
    (tracedInit (requestMem [⟨768, 16, 1, 1⟩, ⟨1024, 513, 2, 0⟩] ⟨0, 0⟩) (.zero 512))
    (setupAndKick ++ [.dev .round, .io 0, .dev .done, .complete 0, .dev .done, .release 0,
      .dev (.mmioWrite 0x070 0 4)])
    (fun t => t.epoch = 1) (by decide +kernel)
  exact ⟨t, r, of_decide_eq_true h, reset_quiesced _ _ t r⟩

/-- A guest that reads a sector and resets the device before the answer: the answer is then written to
the memory at guest address 0, where the reset has put the used ring, and raises an interrupt. -/
theorem reset_not_quiesced :
    ∃ t t', Reach tracedStep always
        (tracedInit (requestMem [⟨768, 16, 1, 1⟩, ⟨1024, 513, 2, 0⟩] ⟨0, 0⟩) (.zero 512)) t ∧
      tracedStep t (.complete 0) = .ok t' ∧
      (t.c.s.mem.load 2 2 = [0, 0] ∧ t'.c.s.mem.load 2 2 = [1, 0]) ∧
      (t.c.s.intStatus = 0 ∧ t'.c.s.intStatus = 1) ∧ ¬ Quiesced t := by
  obtain ⟨t, r, h⟩ := Reach.of_test tracedStep always .blocked
    (tracedInit (requestMem [⟨768, 16, 1, 1⟩, ⟨1024, 513, 2, 0⟩] ⟨0, 0⟩) (.zero 512))
    (setupAndKick ++ [.dev .round, .io 0, .dev .done, .dev (.mmioWrite 0x070 0 4)])
    (fun t => t.born 0 < t.epoch && (tracedStep t (.complete 0)).toOption.any fun t' =>
      (t.c.s.mem.load 2 2 = [0, 0] ∧ t'.c.s.mem.load 2 2 = [1, 0]) ∧
        t.c.s.intStatus = 0 ∧ t'.c.s.intStatus = 1) (by decide +kernel)
  simp only [Bool.and_eq_true, decide_eq_true_eq] at h
  obtain ⟨old, h⟩ := h
  cases e : tracedStep t (.complete 0) with
  | error x =>
    rw [e] at h
    cases h
  | ok t' =>
    rw [e] at h
    obtain ⟨mem, int⟩ := of_decide_eq_true h
    refine ⟨t, t', r, e, mem, int, ?_⟩
    intro quiet
    obtain ⟨-, -, same, -⟩ := quiet (.complete 0) 0 t' rfl old e
    rw [int.1, int.2] at same
    exact absurd same (by decide)

end Mvvmm.Block
