import Mvvmm.Block.Live
import Mvvmm.Net.Send

/-!
# Notifications of both devices

On every queue that `queue_notify` serves no notification is lost (`no_lost_notification`), as long as the guest leaves the
part of the available ring alone that is still to be read, and does not tell the device to store there. A driver that
conforms in the sense of `Block.Live` and `Net.Send` does not: of its runs nothing is asked where the device answers the
chains of the queue. The receive queue of the network device is not served: its heads are popped when packets come in
(`receive_queue_not_popped`).
-/

namespace Mvvmm
open CMem Virtio Run

/-- On every queue that is not left to the backend, no notification is lost: if its eventfd is clear and the poll
thread is not serving it, all heads that were available at the last notification have been popped, each once and
in order. This is so in particular for conforming drivers of the block queue and of the transmit queue. -/
theorem no_lost_notification (fd : Fin maxQueue → Nat) (inj : Function.Injective fd) (q : Fin maxQueue)
    (mem : GuestMemMap) (disk : Block.Disk) (tap : Net.Tap) :
    (∀ c t, Reach Block.blockStep always (Block.blockInit mem disk) c → Fresh q c → (c.s.queue q).manualRecv = false →
      Reach (pollStep Block.blockStep fd q) (Conforms Block.blockStep Block.stores q) (pollInit c) t → Delivered q t) ∧
    (∀ c t, Reach Net.netStep always (Net.netInit mem tap) c → Fresh q c → (c.s.queue q).manualRecv = false →
      Reach (pollStep Net.netStep fd q) (Conforms Net.netStep Net.stores q) (pollInit c) t → Delivered q t) ∧
    (∀ c s, Block.Start c → Reach (Block.pipeStep fd) Block.PipeConforms (Block.pipeInit c) s → Delivered 0 s.view) ∧
    ∀ c s, Net.Send.Start c → Reach (Net.Send.step fd) Net.Send.Conforms (Net.Send.init c) s → Delivered 1 s.view :=
  ⟨fun _ _ start fresh auto r => delivered_run Block.serves inj (Block.reach_sound start) fresh auto r,
    fun _ _ start fresh auto r => delivered_run Net.serves inj (Net.reach_manualRecv start) fresh auto r,
    fun _ _ start r => (Block.pipeInv_run inj start r).poll.delivered,
    fun _ _ start r => (Net.Send.inv_run inj start r).poll.delivered⟩

/-- A driver puts the available ring of a queue at 256 and its used ring at 512. -/
def ringSetup (q : UInt32) : List DevAct :=
  [.mmioWrite 0x030 q 4, .mmioWrite 0x038 2 4, .mmioWrite 0x090 256 4, .mmioWrite 0x0a0 512 4,
    .mmioWrite 0x044 1 4]

/-- The block device with a queue of two entries in an empty page. -/
def blockQueue : Block.BlockMachine :=
  (((ringSetup 0).map .dev).foldlM Block.blockStep
    (Block.blockInit (.onePage fun _ => 0) (.zero 512))).toOption.getD
      (Block.blockInit (.onePage fun _ => 0) (.zero 512))

/-- The network device with such a queue. -/
def netQueue (q : UInt32) : Net.NetMachine :=
  (((ringSetup q).map .dev).foldlM Net.netStep (Net.netInit (.onePage fun _ => 0) Net.takesAll)).toOption.getD
    (Net.netInit (.onePage fun _ => 0) Net.takesAll)

/-- A second head is made available after the poll thread has read the eventfd; the call that follows pops
both, and the second notification brings a call that finds nothing. The conforming drivers are those of
`Block.overtaking` and `Net.Send.threePackets`. -/
theorem no_lost_notification_twice :
    (∃ t, Reach Block.blockStep always (Block.blockInit (.onePage fun _ => 0) (.zero 512)) blockQueue ∧
      Fresh 0 blockQueue ∧
      Reach (pollStep Block.blockStep Fin.val 0) (Conforms Block.blockStep Block.stores 0) (pollInit blockQueue) t ∧
      (t.counter 0 = 0 ∧ t.poll.serving 0 = false ∧ t.notified = 2 ∧ poppedHeads t.c.s 0 = [0, 0]) ∧
      Delivered 0 t) ∧
    (∃ t, Reach Net.netStep always (Net.netInit (.onePage fun _ => 0) Net.takesAll) (netQueue 1) ∧
      Fresh 1 (netQueue 1) ∧
      Reach (pollStep Net.netStep Fin.val 1) (Conforms Net.netStep Net.stores 1) (pollInit (netQueue 1)) t ∧
      (t.counter 1 = 0 ∧ t.poll.serving 1 = false ∧ t.notified = 1 ∧ poppedHeads t.c.s 1 = [0]) ∧
      Delivered 1 t) ∧
    (∃ s, Block.Start (Block.queueUp [3, 0]) ∧
      Reach (Block.pipeStep Fin.val) Block.PipeConforms (Block.pipeInit (Block.queueUp [3, 0])) s ∧
      (s.counter 0 = 0 ∧ s.poll.serving 0 = false ∧ s.notified = 2) ∧ Delivered 0 s.view) ∧
    ∃ s, Net.Send.Start Net.twoEntries ∧
      Reach (Net.Send.step Fin.val) Net.Send.Conforms (Net.Send.init Net.twoEntries) s ∧
      (s.counter 1 = 0 ∧ s.poll.serving 1 = false ∧ s.notified = 3) ∧ Delivered 1 s.view := by
  have start₀ : Reach Block.blockStep always (Block.blockInit (.onePage fun _ => 0) (.zero 512)) blockQueue := .of_getD _
  have start₁ : Reach Net.netStep always (Net.netInit (.onePage fun _ => 0) Net.takesAll) (netQueue 1) := .of_getD _
  have fresh₀ : Fresh 0 blockQueue := by decide +kernel
  have auto₀ : (blockQueue.s.queue 0).manualRecv = false := by decide +kernel
  have fresh₁ : Fresh 1 (netQueue 1) := by decide +kernel
  have auto₁ : ((netQueue 1).s.queue 1).manualRecv = false := by decide +kernel
  obtain ⟨t₀, r₀, h₀⟩ := Reach.of_test (pollStep Block.blockStep Fin.val 0) (Conforms Block.blockStep Block.stores 0)
    .blocked (pollInit blockQueue)
    ([.publish 1, .kick 0, .poll, .poll, .poll, .publish 1, .kick 0, .poll, .poll, .back (.dev .round),
      .back (.dev .round), .back (.dev .done)] ++ List.replicate 7 .poll ++ [.back (.dev .done)])
    (fun t => decide (t.counter 0 = 0 ∧ t.poll.serving 0 = false ∧ t.notified = 2 ∧
      poppedHeads t.c.s 0 = [0, 0])) (by decide +kernel)
  obtain ⟨t₁, r₁, h₁⟩ := Reach.of_test (pollStep Net.netStep Fin.val 1) (Conforms Net.netStep Net.stores 1)
    .blocked (pollInit (netQueue 1))
    [.publish 1, .kick 1, .poll, .poll, .poll, .poll, .poll, .poll, .back (.dev .round), .back (.dev .done)]
    (fun t => decide (t.counter 1 = 0 ∧ t.poll.serving 1 = false ∧ t.notified = 1 ∧
      poppedHeads t.c.s 1 = [0])) (by decide +kernel)
  have start₂ : Block.Start (Block.queueUp [3, 0]) := by decide +kernel
  have start₃ : Net.Send.Start Net.twoEntries := by decide +kernel
  obtain ⟨s₂, r₂, h₂⟩ := Reach.of_test (Block.pipeStep Fin.val) Block.PipeConforms .blocked
    (Block.pipeInit (Block.queueUp [3, 0])) Block.overtaking
    (fun s => decide (s.counter 0 = 0 ∧ s.poll.serving 0 = false ∧ s.notified = 2)) (by decide +kernel)
  obtain ⟨s₃, r₃, h₃⟩ := Reach.of_test (Net.Send.step Fin.val) Net.Send.Conforms .blocked
    (Net.Send.init Net.twoEntries) Net.Send.threePackets
    (fun s => decide (s.counter 1 = 0 ∧ s.poll.serving 1 = false ∧ s.notified = 3)) (by decide +kernel)
  have delivered := no_lost_notification Fin.val (fun _ _ => Fin.ext)
  exact ⟨⟨t₀, start₀, fresh₀, r₀, of_decide_eq_true h₀, (delivered 0 _ _ Net.takesAll).1 _ _ start₀ fresh₀ auto₀ r₀⟩,
    ⟨t₁, start₁, fresh₁, r₁, of_decide_eq_true h₁, (delivered 1 _ (.zero 0) _).2.1 _ _ start₁ fresh₁ auto₁ r₁⟩,
    ⟨s₂, start₂, r₂, of_decide_eq_true h₂,
      (delivered 0 (.onePage fun _ => 0) (.zero 0) Net.takesAll).2.2.1 _ _ start₂ r₂⟩,
    ⟨s₃, start₃, r₃, of_decide_eq_true h₃,
      (delivered 1 (.onePage fun _ => 0) (.zero 0) Net.takesAll).2.2.2 _ _ start₃ r₃⟩⟩

/-- The driver makes a receive buffer available and notifies the device. The poll thread calls `queue_notify`,
which returns at once. -/
theorem receive_queue_not_popped :
    ∃ t, Reach Net.netStep always (Net.netInit (.onePage fun _ => 0) Net.takesAll) (netQueue 0) ∧
      Fresh 0 (netQueue 0) ∧
      Reach (pollStep Net.netStep Fin.val 0) (Conforms Net.netStep Net.stores 0) (pollInit (netQueue 0)) t ∧
      t.counter 0 = 0 ∧ t.poll.serving 0 = false ∧ ¬ Delivered 0 t := by
  have fresh : Fresh 0 (netQueue 0) := by decide +kernel
  obtain ⟨t, r, h⟩ := Reach.of_test (pollStep Net.netStep Fin.val 0) (Conforms Net.netStep Net.stores 0)
    .blocked (pollInit (netQueue 0)) [.publish 1, .kick 0, .poll, .poll, .poll, .poll, .poll]
    (fun t => decide (t.counter 0 = 0 ∧ t.poll.serving 0 = false ∧ t.notified = 1 ∧
      poppedHeads t.c.s 0 = [])) (by decide +kernel)
  obtain ⟨counter, serving, notified, popped⟩ := of_decide_eq_true h
  refine ⟨t, .of_getD _, fresh, r, counter, serving, ?_⟩
  rintro ⟨-, all⟩
  have le := all counter serving
  rw [notified, popped] at le
  cases le

end Mvvmm
