import Mvvmm.Account

/-!
# Queues that are not ready

`queue_notify` does not look at the ready flag of its queue (its comment asks whether it should), and so
processes whatever it finds at the ring addresses of a queue that was never set up, was disabled or was
reset. As neither device ever stops the loop, it comes to its end at the index it has read
(`queueNotify_lastAvailIdx`); hence the call is without effect on a queue that is not ready if and only if
the queue is left to the backend or offers nothing new (`queueNotify_inert_iff`).
-/

namespace Mvvmm
open CMem Virtio Run

section Notify
variable {B : Type} {recv : DeviceRecv B} {s s' : VirtioDevice B} {q : Fin maxQueue}

/-- The device never stops the loop of `queue_notify`. -/
def NeverStops (recv : DeviceRecv B) : Prop :=
  ∀ s q descIdx readSize writeSize ret s', recv s q descIdx readSize writeSize = .ok (ret, s') → 0 ≤ ret

/-- A loop that comes to its end has advanced to the index. -/
lemma queueNotifyLoop_lastAvailIdx {availIdx : UInt16} {n : Nat} (never : NeverStops recv)
    (h : queueNotifyLoop recv q availIdx n s = .ok s') : (s'.queue q).lastAvailIdx = availIdx := by
  induction n generalizing s with
  | zero =>
    simp only [queueNotifyLoop] at h
    split at h
    · cases h
      assumption
    · cases h
  | succ n ih =>
    simp only [queueNotifyLoop] at h
    split at h
    · cases h
      assumption
    · obtain ⟨⟨go, s₁⟩, e, h⟩ := bind_eq_ok.mp h
      cases queueNotifyRound_effect e with
      | skip _ => exact ih h
      | pass _ _ _ => exact ih h
      | stop _ eq neg => exact absurd (never _ _ _ _ _ _ _ eq) (by omega)

/-- A call of `queue_notify` that returns has advanced to the index it has read. -/
lemma queueNotify_lastAvailIdx (never : NeverStops recv) (auto : (s.queue q).manualRecv = false)
    (h : queueNotify recv s q = .ok s') : (s'.queue q).lastAvailIdx = availIdx s q := by
  simp only [queueNotify, auto] at h
  exact queueNotifyLoop_lastAvailIdx never h

/-- `queue_notify` returns and leaves the guest memory, the queue, the interrupt status and the backend as
they were. -/
def Inert (recv : DeviceRecv B) (s : VirtioDevice B) (q : Fin maxQueue) : Prop :=
  ∃ s', queueNotify recv s q = .ok s' ∧ s'.mem = s.mem ∧
    (s'.queue q).lastAvailIdx = (s.queue q).lastAvailIdx ∧ s'.intStatus = s.intStatus ∧ s'.dev = s.dev

/-- The queue is left to the backend, or offers nothing new. -/
def NothingToDo (s : VirtioDevice B) (q : Fin maxQueue) : Prop :=
  (s.queue q).manualRecv = true ∨ availIdx s q = (s.queue q).lastAvailIdx

/-- A call is without effect if and only if there is nothing to do. -/
lemma inert_iff (never : NeverStops recv) : Inert recv s q ↔ NothingToDo s q := by
  constructor
  · rintro ⟨s', e, -, last, -⟩
    cases auto : (s.queue q).manualRecv with
    | true => exact .inl auto
    | false =>
      right
      rw [← last, queueNotify_lastAvailIdx never auto e]
  · rintro (manual | none)
    · refine ⟨s, ?_, rfl, rfl, rfl, rfl⟩
      simp only [queueNotify, manual, if_true]
      rfl
    · refine ⟨s, ?_, rfl, rfl, rfl, rfl⟩
      simp only [queueNotify]
      split
      · rfl
      · exact queueNotifyLoop_done none.symm

end Notify

/-- The block device never stops the loop. -/
lemma Block.neverStops : NeverStops Block.virtioBlockRecvRequest := by
  intro s q descIdx readSize writeSize ret s' h
  obtain ⟨rfl, -⟩ := Block.virtioBlockRecvRequest_effect h
  exact le_rfl

/-- The network device never stops the loop. -/
lemma Net.neverStops : NeverStops Net.virtioNetRecvRequest := by
  intro s q descIdx readSize writeSize ret s' h
  obtain ⟨rfl, -⟩ := Net.virtioNetRecvRequest_effect h
  exact le_rfl

/-- For both devices and in every state: notifying a queue that is not ready is without effect if and
only if there is nothing to do on it. -/
theorem queueNotify_inert_iff (q : Fin maxQueue) :
    (∀ s : Block.VirtioBlockDevice, (s.queue q).ready = 0 →
      (Inert Block.virtioBlockRecvRequest s q ↔ NothingToDo s q)) ∧
    ∀ s : Net.VirtioNetDevice, (s.queue q).ready = 0 →
      (Inert Net.virtioNetRecvRequest s q ↔ NothingToDo s q) :=
  ⟨fun _ _ => inert_iff Block.neverStops, fun _ _ => inert_iff Net.neverStops⟩

/-- The guest sets up a queue, has one chain served and takes the queue back: nothing happens on it any more. -/
theorem queueNotify_inert_served :
    (∃ c, Reach Block.blockStep always
        (Block.blockInit (Block.requestMem [⟨768, 16, 1, 1⟩, ⟨1024, 513, 2, 0⟩] ⟨0, 0⟩) (.zero 512)) c ∧
      ((c.s.queue 0).ready = 0 ∧ answered c.s = {(0, 0)} ∧ availIdx c.s 0 = (c.s.queue 0).lastAvailIdx) ∧
      Inert Block.virtioBlockRecvRequest c.s 0) ∧
    ∃ c, Reach Net.netStep always (Net.netInit (Block.requestMem [⟨768, 20, 0, 0⟩] ⟨0, 0⟩) Net.takesAll) c ∧
      ((c.s.queue 1).ready = 0 ∧ answered c.s = {(1, 0)} ∧ availIdx c.s 1 = (c.s.queue 1).lastAvailIdx) ∧
      Inert Net.virtioNetRecvRequest c.s 1 := by
  constructor
  · obtain ⟨c, r, h⟩ := Reach.of_test Block.blockStep always .blocked
      (Block.blockInit (Block.requestMem [⟨768, 16, 1, 1⟩, ⟨1024, 513, 2, 0⟩] ⟨0, 0⟩) (.zero 512))
      (Block.setupAndKick ++ [.dev .round, .io 0, .dev .done, .complete 0, .dev .done, .release 0,
        .dev (.mmioWrite 0x044 0 4)])
      (fun c => decide ((c.s.queue 0).ready = 0 ∧ answered c.s = {(0, 0)} ∧
        availIdx c.s 0 = (c.s.queue 0).lastAvailIdx)) (by decide +kernel)
    have h := of_decide_eq_true h
    exact ⟨c, r, h, ((queueNotify_inert_iff 0).1 c.s h.1).mpr (.inr h.2.2)⟩
  · obtain ⟨c, r, h⟩ := Reach.of_test Net.netStep always .blocked
      (Net.netInit (Block.requestMem [⟨768, 20, 0, 0⟩] ⟨0, 0⟩) Net.takesAll)
      [.dev (.mmioWrite 0x030 1 4), .dev (.mmioWrite 0x090 256 4), .dev (.mmioWrite 0x0a0 512 4),
        .dev (.mmioWrite 0x044 1 4), .dev (.ioeventfd 1), .dev .round, .dev .done, .dev (.mmioWrite 0x044 0 4)]
      (fun c => decide ((c.s.queue 1).ready = 0 ∧ answered c.s = {(1, 0)} ∧
        availIdx c.s 1 = (c.s.queue 1).lastAvailIdx)) (by decide +kernel)
    have h := of_decide_eq_true h
    exact ⟨c, r, h, ((queueNotify_inert_iff 1).2 c.s h.1).mpr (.inr h.2.2)⟩

/-- A read request on a queue whose rings are set up but which was never made ready. -/
def notReady : Block.VirtioBlockDevice :=
  virtioMmioWriteReg
    (virtioMmioWriteReg
      (Block.virtioBlockInit
        (Block.requestMem [⟨768, 16, 1, 1⟩, ⟨1024, 513, 2, 0⟩] ⟨0, 0⟩) (.zero 512)) 0x090 256 4)
    0x0a0 512 4

/-- The request is taken all the same. -/
theorem queueNotify_takes_not_ready :
    (notReady.queue 0).ready = 0 ∧
      Reach Block.blockStep always
        (Block.blockInit (Block.requestMem [⟨768, 16, 1, 1⟩, ⟨1024, 513, 2, 0⟩] ⟨0, 0⟩) (.zero 512))
        ⟨notReady, .idle⟩ ∧
      (queueNotify Block.virtioBlockRecvRequest notReady 0).toOption.map
        (fun s => ((s.queue 0).lastAvailIdx, (s.dev.workers 0).isIdle)) = some (1, false) ∧
      ¬ Inert Block.virtioBlockRecvRequest notReady 0 := by
  have run : (queueNotify Block.virtioBlockRecvRequest notReady 0).toOption.map
      (fun s => ((s.queue 0).lastAvailIdx, (s.dev.workers 0).isIdle)) = some (1, false) := by
    decide +kernel
  refine ⟨by decide +kernel, ?_, run, ?_⟩
  · exact .step (.dev (.mmioWrite 0x0a0 512 4))
      (.step (.dev (.mmioWrite 0x090 256 4)) .init trivial rfl) trivial rfl
  · rintro ⟨s', e, -, last, -⟩
    rw [e] at run
    have one : (s'.queue 0).lastAvailIdx = 1 := (Prod.mk.inj (Option.some.inj run)).1
    rw [one] at last
    exact absurd last (by decide +kernel)

end Mvvmm
