import Mvvmm.Block.Linear
import Mvvmm.Shared.Frames

/-!
# Both devices over one guest memory

The block device and the network device, with the drivers of their three queues, over one guest memory. The
threads of the two devices take different locks, so that their steps interleave in any way; the two queues of the
network device share its lock.

What a driver has to respect in addition to the rules for its own queue is only about the layout (`Conforms`): a
buffer that it makes available is apart from the regions of the other queues, and a store of the guest leaves alone
what the queues still have to read. Then no queue notices the others: what happens to it is a run of its own
machine, in which the steps of the others are stores of the guest (`queues_isolated`). So all that is proved of
the runs of one queue holds when both devices are at work.
-/

namespace Mvvmm.Shared
open Bytes CMem Virtio Run
open Block (Traffic TrafficAct trafficStep trafficInit BlockMachine KeepsTraffic)
open Net (NetMachine TxMachine txStep txFollow txInit KeepsTx)
open Net.Rx (RxMachine RxAct rxStep rxInit KeepsRx OffRx)

/-- The two devices with the drivers of their queues: one guest memory, and one network device for two queues. -/
structure Machines where
  blk : Traffic
  rx : RxMachine
  tx : TxMachine
  device : tx.c = rx.c
  memory : rx.mem = blk.mem

/-- What happens to the two devices, their threads, drivers and guest. -/
inductive Act where
  | blk (a : TrafficAct)
  /-- The network device, its receiving thread and the driver of the receive queue. -/
  | net (a : RxAct)
  /-- The driver of the transmit queue makes the heads in the next `k` cells available. -/
  | publishTx (k : Nat)
  /-- The driver of the transmit queue reads the next entry of the used ring. -/
  | consumeTx
  deriving DecidableEq, Repr

/-- The block device over another guest memory. -/
def blkOver (t : Traffic) (m : GuestMemMap) : Traffic :=
  { t with c.s.mem := m }

/-- The receive queue over another guest memory. -/
def rxOver (t : RxMachine) (m : GuestMemMap) : RxMachine :=
  { t with c.s.mem := m }

/-- The transmit queue over another guest memory. -/
def txOver (t : TxMachine) (m : GuestMemMap) : TxMachine :=
  { t with c.s.mem := m }

namespace Machines
variable (v : Machines)

/-- The guest memory. -/
def mem : GuestMemMap :=
  v.blk.mem

/-- After a step of the block device. -/
def afterBlk (t : Traffic) : Machines :=
  ⟨t, rxOver v.rx t.mem, txOver v.tx t.mem,
    congrArg (fun c : NetMachine => { c with s.mem := t.mem }) v.device, rfl⟩

/-- After a step of the network device, or of the driver of its receive queue. -/
def afterNet (t : RxMachine) : Machines :=
  ⟨blkOver v.blk t.mem, t, txFollow v.tx t.c, rfl, rfl⟩

/-- After a step of the driver of the transmit queue. -/
def afterTx (t : TxMachine) : Machines :=
  ⟨blkOver v.blk t.mem, { v.rx with c := t.c }, t, rfl, rfl⟩

end Machines

/-- A step of the two devices, their threads, drivers and guest. -/
def step (v : Machines) : Act → Except Stop Machines
  | .blk a => do
    let t ← trafficStep v.blk a
    return v.afterBlk t
  | .net a => do
    let t ← rxStep v.rx a
    return v.afterNet t
  | .publishTx k => do
    let t ← txStep v.tx (.publish k)
    return v.afterTx t
  | .consumeTx => do
    let t ← txStep v.tx .consume
    return v.afterTx t

/-- What conforming drivers and their guest do. Nothing is asked of a round for the transmit queue. -/
def Conforms (v : Machines) : Act → Prop
  | .blk a =>
    Block.Conforms v.blk a ∧ Clear (blkFresh a) (rxRegions v.rx ++ txRegions v.tx) ∧
      ∀ s ∈ blkStored a, KeepsRx v.rx (v.mem.store s.1 s.2) ∧ KeepsTx v.tx (v.mem.store s.1 s.2)
  | .net (.dev .round) => True
  | .net (.dev a) =>
    Net.Rx.Conforms v.rx (.dev a) ∧ Net.Conforms v.tx (.net (.dev a)) ∧
      ∀ s ∈ devStored a, KeepsTraffic v.blk (v.mem.store s.1 s.2)
  | .net a => Net.Rx.Conforms v.rx a ∧ Clear (rxFresh v.rx a) (blkRegions v.blk ++ txRegions v.tx)
  | .publishTx k => Net.Conforms v.tx (.publish k)
  | .consumeTx => True

instance (v : Machines) : (a : Act) → Decidable (Conforms v a)
  | .blk _ => inferInstanceAs (Decidable (_ ∧ _ ∧ ∀ s ∈ _, _ ∧ _))
  | .net (.dev .round) | .consumeTx => .isTrue trivial
  | .net (.dev (.guest ..)) | .net (.dev (.mmioRead ..)) | .net (.dev (.mmioWrite ..)) | .net (.dev (.ioeventfd ..))
  | .net (.dev .done) => inferInstanceAs (Decidable (_ ∧ _ ∧ ∀ s ∈ _, _))
  | .net (.event _) | .net .checkQuit | .net .ask | .net .write | .net .stop | .net (.publish _) | .net .consume =>
    inferInstanceAs (Decidable (_ ∧ _))
  | .publishTx k => inferInstanceAs (Decidable (Net.Conforms v.tx (.publish k)))

/-- The queues are set up apart from each other, and nothing has happened on them. -/
@[mk_iff]
structure Start (b : BlockMachine) (n : NetMachine) : Prop where
  blk : Block.Start b
  rx : Net.Rx.Start n
  tx : Net.Start n
  blkRx : Clear (queueRegions (b.s.queue 0)) (queueRegions (n.s.queue 0))
  blkTx : Clear (queueRegions (b.s.queue 0)) (queueRegions (n.s.queue 1))
  rxTx : Clear (queueRegions (n.s.queue 0)) (queueRegions (n.s.queue 1))

instance (b : BlockMachine) (n : NetMachine) : Decidable (Start b n) :=
  decidable_of_iff' _ (start_iff b n)

/-- The drivers have not done anything yet. -/
def init (b : BlockMachine) (n : NetMachine) (memory : n.s.mem = b.s.mem) : Machines :=
  ⟨trafficInit b, rxInit n, txInit n, rfl, memory⟩

/-! ## The guest memory -/

variable {v v' : Machines} {a : Act} {m m' : GuestMemMap}

/-- A guest memory that agrees beyond the end, where no store of the guest gets to. -/
structure Within (m m' : GuestMemMap) : Prop where
  size : m'.size = m.size
  beyond : ∀ p, m.size ≤ p → m'.hostMem p = m.hostMem p

/-- A change within bytes of the guest memory. -/
lemma Within.of_frame {A : Set Nat} (h : Frame A m m') (inside : ∀ p ∈ A, p < m.size) : Within m m' :=
  ⟨h.size, fun p le => h.rest fun hp => absurd (inside p hp) (by omega)⟩

/-- A store within the guest memory. -/
lemma within_store {p : Nat} {l : List UInt8} (inside : p + l.length ≤ m.size) : Within m (m.store p l) := by
  refine ⟨rfl, fun i le => eqOn_splice ?_⟩
  simp only [Set.mem_compl_iff, Set.mem_Ico]
  omega

/-- A store of the whole memory leads to any other one. -/
lemma Within.store_load (h : Within m m') : m.store 0 (m'.load 0 m.size) = m' := by
  obtain ⟨size, beyond⟩ := h
  have host : splice m.hostMem 0 (m'.load 0 m.size) = m'.hostMem := by
    funext i
    rcases Nat.lt_or_ge i m.size with lt | ge
    · have get := splice_of_mem (f := m.hostMem) (a := 0) (l := m'.load 0 m.size) (i := i) (Nat.zero_le i)
        (by rw [GuestMemMap.load_length]; omega)
      rw [Nat.sub_zero] at get
      refine Option.some.inj (get.trans ?_)
      rw [GuestMemMap.load, slice_getElem?, if_pos lt, Nat.zero_add]
    · rw [eqOn_splice (by rw [GuestMemMap.load_length]; simp only [Set.mem_compl_iff, Set.mem_Ico]; omega), beyond i ge]
  rw [GuestMemMap.store, host]
  cases m
  cases m'
  cases size
  rfl

/-- To the guest, any step that leads to another memory looks like a store. -/
lemma devStep_guest {B W : Type} (recv : DeviceRecv B) {c : Machine B W} (h : Within c.s.mem m) :
    devStep recv c (.guest 0 (m.load 0 c.s.mem.size)) = .ok { c with s.mem := m } := by
  simp only [devStep, GuestMemMap.load_length, Nat.zero_add, le_refl, if_true, h.store_load]
  rfl

/-- A change that keeps the block queue is a run of its machine: the stores of a guest. -/
lemma blk_over {t : Traffic} (h : Within t.mem m) (keeps : KeepsTraffic t m) :
    Reach trafficStep Block.Conforms t (blkOver t m) := by
  have step : Block.blockStep t.c (.dev (.guest 0 (m.load 0 t.mem.size))) = .ok (blkOver t m).c :=
    devStep_guest Block.virtioBlockRecvRequest h
  refine .step (.blk (.dev (.guest 0 (m.load 0 t.mem.size)))) .init ⟨by simp [DevAct.notifies?], ?_⟩ ?_
  · intro c hc
    rw [step] at hc
    obtain rfl := Option.some.inj hc
    exact ⟨rfl, keeps⟩
  · simp only [trafficStep, step, ok_bind]
    rfl

/-- A change that keeps the receive queue is a run of its machine. -/
lemma rx_over {t : RxMachine} (h : Within t.mem m) (keeps : KeepsRx t m) :
    Reach rxStep Net.Rx.Conforms t (rxOver t m) := by
  have step : Net.netStep t.c (.dev (.guest 0 (m.load 0 t.mem.size))) = .ok (rxOver t m).c :=
    devStep_guest Net.virtioNetRecvRequest h
  refine .step (.dev (.guest 0 (m.load 0 t.mem.size))) .init ?_ ?_
  · intro c hc
    rw [step] at hc
    obtain rfl := Option.some.inj hc
    exact ⟨rfl, keeps⟩
  · simp only [rxStep, step, ok_bind]
    rfl

/-- A change that keeps the transmit queue is a run of its machine. -/
lemma tx_over {t : TxMachine} (h : Within t.mem m) (keeps : KeepsTx t m) :
    Reach txStep Net.Conforms t (txOver t m) := by
  have step : Net.netStep t.c (.dev (.guest 0 (m.load 0 t.mem.size))) = .ok (txOver t m).c :=
    devStep_guest Net.virtioNetRecvRequest h
  refine .step (.net (.dev (.guest 0 (m.load 0 t.mem.size)))) .init ?_ ?_
  · intro c hc
    rw [step] at hc
    obtain rfl := Option.some.inj hc
    exact ⟨rfl, keeps⟩
  · simp only [txStep, step, ok_bind, txFollow]
    rw [if_neg fun x => x.2 x.1]
    rfl

/-! ## Runs -/

variable {b : BlockMachine} {n : NetMachine}

/-- What holds in every state of a conforming run. -/
structure Inv (b : BlockMachine) (n : NetMachine) (v : Machines) : Prop where
  blk : Reach trafficStep Block.Conforms (trafficInit b) v.blk
  rx : Reach rxStep Net.Rx.Conforms (rxInit n) v.rx
  tx : Reach txStep Net.Conforms (txInit n) v.tx
  blkRx : Clear (blkRegions v.blk) (rxRegions v.rx)
  blkTx : Clear (blkRegions v.blk) (txRegions v.tx)
  rxTx : Clear (rxRegions v.rx) (txRegions v.tx)

section Step
variable (start : Start b n) (h : Inv b n v)
include start h

/-- The invariant of the block device. -/
lemma Inv.blkInv : ∃ refused commits, Block.Upkeep b.s.dev.disk v.blk refused commits :=
  Block.upkeep_run start.blk h.blk

/-- The invariant of the receive queue on its own. -/
lemma Inv.rxInv : Net.Rx.Inv v.rx :=
  Net.Rx.inv_run (Net.Rx.inv_init start.rx) h.rx

/-- The invariant of the transmit queue on its own. -/
lemma Inv.txInv : Net.Inv v.tx :=
  Net.inv_run (Net.inv_init start.tx) h.tx

end Step

/-- The receive queue is in the common memory. -/
lemma Machines.rx_mem : v.rx.mem = v.mem :=
  v.memory

/-- The transmit queue is in the common memory. -/
lemma Machines.tx_mem : v.tx.mem = v.mem :=
  (congrArg (fun c : NetMachine => c.s.mem) v.device).trans v.memory

/-- What a store of the guest does to the memory. -/
lemma blkStored_mem {t t' : Traffic} {c : TrafficAct} {s : Nat × List UInt8} (e : blkStored c = some s)
    (st : trafficStep t c = .ok t') : s.1 + s.2.length ≤ t.mem.size ∧ t'.mem = t.mem.store s.1 s.2 := by
  cases c with
  | publish xs => cases e
  | consume => cases e
  | blk c =>
    cases c with
    | io w => cases e
    | complete w => cases e
    | release w => cases e
    | dev c =>
      cases c with
      | guest p l =>
        cases e
        obtain ⟨c', step, st⟩ := bind_eq_ok.mp st
        obtain rfl := Except.ok.inj st
        have eff : DevEffect Block.virtioBlockRecvRequest t.c (.guest p l) c' := devStep_effect step
        cases eff with
        | guest inside => exact ⟨inside, rfl⟩
        | start _ yes => cases yes
      | mmioRead _ _ => cases e
      | mmioWrite _ _ _ => cases e
      | ioeventfd _ => cases e
      | round => cases e
      | done => cases e

/-- What the two queues of the network device see of a step of the block device. -/
lemma Inv.blk_seen (start : Start b n) (h : Inv b n v) {c : TrafficAct} {t : Traffic}
    (guard : Conforms v (.blk c)) (st : trafficStep v.blk c = .ok t) :
    Within v.mem t.mem ∧ KeepsRx v.rx t.mem ∧ KeepsTx v.tx t.mem := by
  obtain ⟨refused, commits, inv⟩ := h.blkInv start
  obtain ⟨own, -, stores⟩ := guard
  cases e : blkStored c with
  | none =>
    have frame := (blk_moves inv own st).frame e
    refine ⟨.of_frame frame fun p => blkRegions_lt inv.memory, keepsRx (h.rxInv start).memory ?_ ?_,
      keepsTx (h.txInv start) ?_ ?_⟩
    · rw [v.rx_mem]
      exact frame.size
    · rw [v.rx_mem]
      exact frame.eqOn h.blkRx
    · rw [v.tx_mem]
      exact frame.size
    · rw [v.tx_mem]
      exact frame.eqOn h.blkTx
  | some s =>
    obtain ⟨inside, mem⟩ := blkStored_mem e st
    rw [mem]
    exact ⟨within_store inside, stores s e⟩

/-- A step of the block device. -/
lemma Inv.blk_step (start : Start b n) (h : Inv b n v) {c : TrafficAct} {t : Traffic} (guard : Conforms v (.blk c))
    (st : trafficStep v.blk c = .ok t) : Inv b n (v.afterBlk t) := by
  obtain ⟨within, keepsR, keepsT⟩ := h.blk_seen start guard st
  obtain ⟨refused, commits, inv⟩ := h.blkInv start
  obtain ⟨own, fresh, -⟩ := guard
  have regions := (blk_moves inv own st).regions
  constructor
  case blk => exact .step c h.blk own st
  case rx => exact h.rx.trans (rx_over (by rw [v.rx_mem]; exact within) keepsR)
  case tx => exact h.tx.trans (tx_over (by rw [v.tx_mem]; exact within) keepsT)
  case blkRx =>
    exact (h.blkRx.append (fresh.mono (List.Subset.refl _) (List.subset_append_left _ _))).mono regions
      (List.Subset.refl _)
  case blkTx =>
    exact (h.blkTx.append (fresh.mono (List.Subset.refl _) (List.subset_append_right _ _))).mono regions
      (List.Subset.refl _)
  case rxTx => exact h.rxTx

/-- What a step of the network device, or of the driver of its receive queue, means to the queues. -/
structure NetSeen (v : Machines) (c : RxAct) (t : RxMachine) : Prop where
  own : Net.Rx.Conforms v.rx c
  fresh : Clear (rxFresh v.rx c) (blkRegions v.blk ++ txRegions v.tx)
  within : Within v.mem t.mem
  keeps : KeepsTraffic v.blk t.mem
  tx : Reach txStep Net.Conforms v.tx (txFollow v.tx t.c)
  txRegions : txRegions (txFollow v.tx t.c) = txRegions v.tx

/-- A step that writes in regions apart from those of the block device. -/
lemma Inv.net_frame {R : List Region} (start : Start b n) (h : Inv b n v) (frame : Frame (area R) v.mem m)
    (inside : ∀ p ∈ area R, p < v.mem.size) (clear : Clear (blkRegions v.blk) R) :
    Within v.mem m ∧ KeepsTraffic v.blk m := by
  obtain ⟨refused, commits, inv⟩ := h.blkInv start
  exact ⟨.of_frame frame inside, keepsTraffic inv.memory frame.size (frame.eqOn clear.symm)⟩

/-- A step that writes in the regions of the receive queue. -/
lemma Inv.rx_frame (start : Start b n) (h : Inv b n v) (frame : Frame (area (rxRegions v.rx)) v.mem m) :
    Within v.mem m ∧ KeepsTraffic v.blk m ∧ KeepsTx v.tx m := by
  obtain ⟨within, keeps⟩ := h.net_frame start frame
    (fun p hp => v.rx_mem ▸ rxRegions_lt (h.rxInv start).memory hp) h.blkRx
  refine ⟨within, keeps, keepsTx (h.txInv start) ?_ ?_⟩
  · rw [v.tx_mem]
    exact frame.size
  · rw [v.tx_mem]
    exact frame.eqOn h.rxTx

/-- A step that writes in the table and the rings of the transmit queue. -/
lemma Inv.tx_frame (start : Start b n) (h : Inv b n v) (frame : Frame (area (txRegions v.tx)) v.mem m) :
    Within v.mem m ∧ KeepsTraffic v.blk m ∧ KeepsRx v.rx m := by
  obtain ⟨within, keeps⟩ := h.net_frame start frame
    (fun p hp => v.tx_mem ▸ RingOk.area_lt (h.txInv start).rings.ring hp) h.blkTx
  refine ⟨within, keeps, keepsRx (h.rxInv start).memory ?_ ?_⟩
  · rw [v.rx_mem]
    exact frame.size
  · rw [v.rx_mem]
    exact frame.eqOn h.rxTx.symm

/-- No regions are clear of all others. -/
lemma clear_nil {R : List Region} : Clear [] R :=
  fun _ hr => by cases hr

/-- What the transmit queue sees of a step of its device. -/
lemma txStep_follow {c : Net.NetAct} {c' : NetMachine} (st : Net.netStep v.rx.c c = .ok c') :
    txStep v.tx (.net c) = .ok (txFollow v.tx c') := by
  simp only [txStep, v.device, st, ok_bind, txFollow]
  rfl

/-- What the guest and `queue_notify` do, but for a round. -/
lemma Inv.dev_seen (start : Start b n) (h : Inv b n v) {c : DevAct} {t : RxMachine} (ne : c ≠ .round)
    (guard : Conforms v (.net (.dev c))) (st : rxStep v.rx (.dev c) = .ok t) : NetSeen v (.dev c) t := by
  obtain ⟨own, tx, stores⟩ : Net.Rx.Conforms v.rx (.dev c) ∧ Net.Conforms v.tx (.net (.dev c)) ∧
      ∀ s ∈ devStored c, KeepsTraffic v.blk (v.mem.store s.1 s.2) := by
    cases c with
    | round => exact absurd rfl ne
    | _ => exact guard
  have moves := rx_moves (h.rxInv start) own st
  obtain ⟨c', step, st⟩ := bind_eq_ok.mp st
  obtain rfl := Except.ok.inj st
  have follow := txStep_follow step
  obtain ⟨within, keeps⟩ : Within v.mem c'.s.mem ∧ KeepsTraffic v.blk c'.s.mem := by
    cases e : devStored c with
    | none =>
      have frame : Frame _ v.rx.mem c'.s.mem := moves.frame fun a eq => by cases eq; exact ⟨e, ne⟩
      obtain ⟨within, keeps, -⟩ := h.rx_frame start (v.rx_mem ▸ frame)
      exact ⟨within, keeps⟩
    | some s =>
      cases c with
      | guest p l =>
        cases e
        have eff : DevEffect Net.virtioNetRecvRequest v.rx.c (.guest p l) c' := devStep_effect step
        cases eff with
        | guest inside =>
          rw [show v.rx.c.s.mem = v.mem from v.rx_mem] at inside ⊢
          exact ⟨within_store inside, stores _ rfl⟩
        | start _ yes => cases yes
      | _ => cases e
  exact ⟨own, clear_nil, within, keeps, .step _ .init tx follow, tx_dev ne tx follow⟩

/-- A round for the transmit queue. -/
lemma Inv.round_seen (start : Start b n) (h : Inv b n v) {t : RxMachine} (st : rxStep v.rx (.dev .round) = .ok t) :
    NetSeen v (.dev .round) t := by
  obtain ⟨c', step, st⟩ := bind_eq_ok.mp st
  obtain rfl := Except.ok.inj st
  have follow := txStep_follow step
  obtain ⟨frame, regions⟩ := tx_round (h.txInv start) follow
  rw [v.tx_mem] at frame
  obtain ⟨within, keeps, -⟩ := h.tx_frame start frame
  refine ⟨?_, clear_nil, within, keeps, .step (.net (.dev .round)) .init trivial follow, regions⟩
  -- The entry goes to the used ring of the transmit queue.
  have ok : RingOk v.rx.mem.size (v.rx.c.s.queue 1) := by
    have ok := (h.txInv start).rings.ring
    rw [v.tx_mem, ← v.rx_mem, TxMachine.qs, v.device] at ok
    exact ok
  intro p hp
  refine offRx_iff.mpr fun hr => h.rxTx.subset_compl ?_ hr
  rw [txRegions, TxMachine.qs, v.device]
  exact mem_area_queueRegions.mpr (.inr (.inr (ok.usedTouched_subset hp)))

/-- The receiving thread hands over a frame. -/
lemma Inv.write_seen (start : Start b n) (h : Inv b n v) {t : RxMachine} (st : rxStep v.rx .write = .ok t) :
    NetSeen v .write t := by
  have own : Net.Rx.Conforms v.rx .write := trivial
  have frame := (rx_moves (h.rxInv start) own st).frame fun a eq => by cases eq
  rw [v.rx_mem] at frame
  obtain ⟨within, keeps, keepsT⟩ := h.rx_frame start frame
  simp only [rxStep] at st
  split at st
  · rename_i pkt pc
    obtain ⟨c', step, st⟩ := bind_eq_ok.mp st
    obtain rfl := Except.ok.inj st
    have queue : c'.s.queue 1 = v.tx.qs := by
      simp only [Net.netStep] at step
      split at step
      · obtain ⟨s', write, step⟩ := bind_eq_ok.mp step
        obtain rfl := Except.ok.inj step
        obtain ⟨-, -, -, -, other⟩ := Net.virtioNetWritePacket_effect write
        rw [TxMachine.qs, v.device]
        exact other 1 (by decide)
      · cases step
    refine ⟨own, clear_nil, within, keeps, .step (.net (.rx pkt)) .init ?_ (txStep_follow step),
      congrArg queueRegions queue⟩
    intro c hc
    rw [v.device, step] at hc
    obtain rfl := Option.some.inj hc
    exact ⟨queue, keepsT⟩
  · cases st

/-- The thread and the driver do not change the device but for its memory. -/
lemma rxStep_rest {c : RxAct} {t t' : RxMachine} (ne : ∀ a, c ≠ .dev a) (ne' : c ≠ .write)
    (st : rxStep t c = .ok t') : t'.c = { t.c with s.mem := t'.mem } := by
  cases c with
  | dev a => exact absurd rfl (ne a)
  | write => exact absurd rfl ne'
  | publish k =>
    rw [Net.Rx.rxStep_publish st]
    rfl
  | stop =>
    obtain rfl := Except.ok.inj st
    rfl
  | _ =>
    simp only [rxStep] at st
    repeat' split at st
    all_goals cases st
    all_goals rfl

/-- What the receiving thread and the driver of the receive queue do otherwise. -/
lemma Inv.rest_seen (start : Start b n) (h : Inv b n v) {c : RxAct} {t : RxMachine} (ne : ∀ a, c ≠ .dev a)
    (ne' : c ≠ .write) (own : Net.Rx.Conforms v.rx c)
    (fresh : Clear (rxFresh v.rx c) (blkRegions v.blk ++ txRegions v.tx)) (st : rxStep v.rx c = .ok t) :
    NetSeen v c t := by
  have frame := (rx_moves (h.rxInv start) own st).frame fun a eq => absurd eq (ne a)
  rw [v.rx_mem] at frame
  obtain ⟨within, keeps, keepsT⟩ := h.rx_frame start frame
  have same : txFollow v.tx t.c = txOver v.tx t.mem := by
    rw [rxStep_rest ne ne' st, ← v.device, txFollow, if_neg fun x => x.2 x.1]
    rfl
  refine ⟨own, fresh, within, keeps, ?_, by rw [same]; rfl⟩
  rw [same]
  exact tx_over (v.tx_mem ▸ within) keepsT

/-- A step of the network device is seen by the other queues as one that keeps them. -/
lemma Inv.net_seen (start : Start b n) (h : Inv b n v) {c : RxAct} {t : RxMachine} (guard : Conforms v (.net c))
    (st : rxStep v.rx c = .ok t) : NetSeen v c t := by
  cases c with
  | dev c =>
    by_cases round : c = .round
    · subst round
      exact h.round_seen start st
    · exact h.dev_seen start round guard st
  | write => exact h.write_seen start st
  | _ => exact h.rest_seen start (by simp) (by simp) guard.1 guard.2 st

/-- A step of the network device, or of the driver of its receive queue. -/
lemma Inv.net_step (start : Start b n) (h : Inv b n v) {c : RxAct} {t : RxMachine} (guard : Conforms v (.net c))
    (st : rxStep v.rx c = .ok t) : Inv b n (v.afterNet t) := by
  have seen := h.net_seen start guard st
  have regions := (rx_moves (h.rxInv start) seen.own st).regions
  have fresh := seen.fresh
  constructor
  case blk => exact h.blk.trans (blk_over seen.within seen.keeps)
  case rx => exact .step c h.rx seen.own st
  case tx => exact h.tx.trans seen.tx
  case blkRx =>
    refine Clear.symm (Clear.mono (h.blkRx.symm.append ?_) regions (List.Subset.refl _))
    exact fresh.mono (List.Subset.refl _) (List.subset_append_left _ _)
  case blkTx =>
    rw [show txRegions (v.afterNet t).tx = _ from seen.txRegions]
    exact h.blkTx
  case rxTx =>
    rw [show txRegions (v.afterNet t).tx = _ from seen.txRegions]
    refine (h.rxTx.append ?_).mono regions (List.Subset.refl _)
    exact fresh.mono (List.Subset.refl _) (List.subset_append_right _ _)

/-- A step of the driver of the transmit queue. -/
lemma Inv.tx_step (start : Start b n) (h : Inv b n v) {c : Net.TxAct} {t : TxMachine} (guard : Net.Conforms v.tx c)
    (st : txStep v.tx c = .ok t) (same : t.c = { v.tx.c with s.mem := t.mem })
    (frame : Frame (area (txRegions v.tx)) v.mem t.mem) : Inv b n (v.afterTx t) := by
  obtain ⟨within, keeps, keepsR⟩ := h.tx_frame start frame
  have rx : (v.afterTx t).rx = rxOver v.rx t.mem := by
    change { v.rx with c := t.c } = _
    rw [same, v.device]
    rfl
  have regions : txRegions t = txRegions v.tx := by
    rw [txRegions, TxMachine.qs, same]
    rfl
  constructor
  case blk => exact h.blk.trans (blk_over within keeps)
  case rx =>
    rw [rx]
    exact h.rx.trans (rx_over (v.rx_mem ▸ within) keepsR)
  case tx => exact .step c h.tx guard st
  case blkRx =>
    rw [rx]
    exact h.blkRx
  case blkTx =>
    rw [show txRegions (v.afterTx t).tx = _ from regions]
    exact h.blkTx
  case rxTx =>
    rw [rx, show txRegions (v.afterTx t).tx = _ from regions]
    exact h.rxTx

/-- Every step of a conforming run is for each queue a run of its own machine. -/
lemma inv_step (start : Start b n) (h : Inv b n v) (guard : Conforms v a) (st : step v a = .ok v') : Inv b n v' := by
  cases a with
  | blk c =>
    obtain ⟨t, own, e⟩ := bind_eq_ok.mp st
    obtain rfl := Except.ok.inj e
    exact h.blk_step start guard own
  | net c =>
    obtain ⟨t, own, e⟩ := bind_eq_ok.mp st
    obtain rfl := Except.ok.inj e
    exact h.net_step start guard own
  | publishTx k =>
    obtain ⟨t, own, e⟩ := bind_eq_ok.mp st
    obtain rfl := Except.ok.inj e
    have guard : Net.Conforms v.tx (.publish k) := guard
    have eq := Net.txStep_publish own
    refine h.tx_step start guard own (by rw [eq]; rfl) ?_
    rw [eq, ← v.tx_mem]
    exact frame_publishAvail (h.txInv start).rings.ring (List.Subset.refl _)
  | consumeTx =>
    obtain ⟨t, own, e⟩ := bind_eq_ok.mp st
    obtain rfl := Except.ok.inj e
    have same : t.c = v.tx.c := by
      simp only [txStep] at own
      split at own
      · cases own
      · obtain rfl := Except.ok.inj own
        rfl
    have guard : Net.Conforms v.tx .consume := trivial
    refine h.tx_step start guard own (by rw [TxMachine.mem, same]) ?_
    rw [TxMachine.mem, same, ← v.tx_mem]
    exact .refl

/-- The invariant holds when the queues have been set up. -/
lemma inv_init (start : Start b n) (memory : n.s.mem = b.s.mem) : Inv b n (init b n memory) where
  blk := .init
  rx := .init
  tx := .init
  blkRx := by
    simp only [init, blkRegions, rxRegions, unread, trafficInit, rxInit, RxMachine.outstanding]
    exact start.blkRx
  blkTx := start.blkTx
  rxTx := start.rxTx

/-- In every conforming run of the two devices and their drivers over one guest memory, what happens to a queue is a
conforming run of its own machine. -/
theorem queues_isolated (start : Start b n) (memory : n.s.mem = b.s.mem)
    (r : Reach step Conforms (init b n memory) v) :
    Reach trafficStep Block.Conforms (trafficInit b) v.blk ∧ Reach rxStep Net.Rx.Conforms (rxInit n) v.rx ∧
      Reach txStep Net.Conforms (txInit n) v.tx := by
  have inv : Inv b n v :=
    r.invariant (I := Inv b n) (inv_init start memory) fun _ _ _ _ h guard st => inv_step start h guard st
  exact ⟨inv.blk, inv.rx, inv.tx⟩

/-- A guest memory with a request to write sector 0 and one to read it, as in `Block.writeRead`, and in its second
half two chains to receive frames and a packet to send. -/
def threeQueues : GuestMemMap :=
  .onePage (splices (Block.writeRead [3, 0]).hostMem
    [(2048, VirtioDesc.encode ⟨3072, 64, 2, 0⟩ ++ VirtioDesc.encode ⟨3200, 14, 2, 0⟩),
      (2112, VirtioDesc.encode ⟨3328, 20, 0, 0⟩), (2304, leBytes 2 0 ++ leBytes 2 0 ++ leBytes 2 0 ++ leBytes 2 1)])

/-- The block device, with a disk of one sector, after a driver has set up its queue. -/
def blkUp : BlockMachine :=
  ([.dev (.mmioWrite 0x080 576 4), .dev (.mmioWrite 0x090 704 4), .dev (.mmioWrite 0x0a0 728 4),
    .dev (.mmioWrite 0x044 1 4)].foldlM Block.blockStep (Block.blockInit threeQueues (.zero 512))).toOption.getD
      (Block.blockInit threeQueues (.zero 512))

/-- The network device after its drivers have set up two queues of two entries. -/
def netUp : NetMachine :=
  ([.dev (.mmioWrite 0x030 0 4), .dev (.mmioWrite 0x038 2 4), .dev (.mmioWrite 0x080 2048 4),
    .dev (.mmioWrite 0x090 2304 4), .dev (.mmioWrite 0x0a0 2560 4), .dev (.mmioWrite 0x044 1 4),
    .dev (.mmioWrite 0x030 1 4), .dev (.mmioWrite 0x038 2 4), .dev (.mmioWrite 0x080 2112 4),
    .dev (.mmioWrite 0x090 2320 4), .dev (.mmioWrite 0x0a0 2592 4), .dev (.mmioWrite 0x044 1 4)].foldlM Net.netStep
      (Net.netInit threeQueues Net.takesAll)).toOption.getD (Net.netInit threeQueues Net.takesAll)

/-- The two devices have been set up over the same memory. -/
lemma netUp_mem : netUp.s.mem = blkUp.s.mem :=
  rfl

/-- A frame arrives and a packet is sent while a write overtakes a read on the disk. -/
theorem queues_isolated_overtaken :
    ∃ v, Start blkUp netUp ∧ Reach step Conforms (init blkUp netUp netUp_mem) v ∧
      (v.blk.answers.map (fun a => (a.1, a.2.head?)) = [(1, some 0), (0, some 7)] ∧
        v.rx.received = [(0, Net.withHeader [0x61, 0x62])] ∧ v.tx.consumed = [0]) ∧
      Reach trafficStep Block.Conforms (trafficInit blkUp) v.blk ∧
      Reach rxStep Net.Rx.Conforms (rxInit netUp) v.rx ∧ Reach txStep Net.Conforms (txInit netUp) v.tx := by
  have start : Start blkUp netUp := by decide +kernel
  obtain ⟨v, r, h⟩ := Reach.of_test step (fun v a => a = .blk Block.kick ∨ Conforms v a) .blocked
    (init blkUp netUp netUp_mem)
    [.net (.publish 2), .blk (.publish [Block.readReq, Block.writeReq]), .publishTx 1, .blk Block.kick,
      .net (.event (.data [0x61, 0x62])), .blk (.blk (.dev .round)), .net .ask, .net (.dev (.ioeventfd 1)),
      .blk (.blk (.dev .round)), .net (.dev .round), .blk (.blk (.dev .done)), .blk (.blk (.io 1)), .net (.dev .done),
      .blk (.blk (.io 0)), .net .write, .blk (.blk (.complete 1)), .net .consume, .blk (.blk (.dev .done)), .consumeTx,
      .blk (.blk (.complete 0)), .blk (.blk (.dev .done)), .blk .consume]
    (fun v => decide (v.blk.answers.map (fun a => (a.1, a.2.head?)) = [(1, some 0), (0, some 7)] ∧
      v.rx.received = [(0, Net.withHeader [0x61, 0x62])] ∧ v.tx.consumed = [0])) (by decide +kernel)
  have reach : Reach step Conforms (init blkUp netUp netUp_mem) v := by
    refine r.mono ?_
    rintro v a (rfl | h)
    · exact ⟨Block.conforms_kick, clear_nil, fun s hs => by cases hs⟩
    · exact h
  exact ⟨v, start, reach, of_decide_eq_true h, queues_isolated start netUp_mem reach⟩

end Mvvmm.Shared
