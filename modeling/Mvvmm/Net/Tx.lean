import Mvvmm.Net.Device
import Mvvmm.Virtio.Driver

/-!
# The transmit queue and its driver

The network device together with the driver of its transmit queue, queue 1. The driver makes heads
available by moving the index of the available ring on (`publish`) and reads the entries of the used ring
one by one (`consume`); everything else that happens to the device and its guest is an action of
`netStep`. `Conforms` is what the driver has to respect: at most as many heads are outstanding as the queue
has entries, the chains it posts are well formed and hold the header of a packet, and nothing else touches
what the two sides still have to read (`KeepsTx`).

Three free-running 16-bit counters have to stay in step: the index of the available ring, `last_avail_idx`
and the index of the used ring (`Virtio.Rings`). Every step is then a step of the queue `Ring.Fifo`
(`Inv.run`), so that what the driver reads is what it made available, in the same order
(`tx_in_order`), however often the counters wrap around.
-/

namespace Mvvmm.Net
open Bytes CMem Virtio Run Ring

/-- The heads answered on the transmit queue, oldest first. -/
def usedHeads (s : VirtioNetDevice) : List Nat :=
  ((s.used.filter fun u => u.queue ≠ 0).map fun u => u.head).reverse

/-- The network device and the driver of its transmit queue: the heads the driver has made available, those
it has read from the used ring, and how many were available when `queue_notify` last began. -/
structure TxMachine where
  c : NetMachine
  avail : List Nat
  consumed : List Nat
  kicked : Nat

namespace TxMachine
variable (t : TxMachine)

/-- The guest memory. -/
def mem : GuestMemMap :=
  t.c.s.mem

/-- The transmit queue. -/
def qs : QueueState :=
  t.c.s.queue 1

/-- The heads answered. -/
def used : List Nat :=
  usedHeads t.c.s

/-- The queue that the two rings stand for. -/
def fifo : Fifo Nat :=
  ⟨t.avail, t.used, t.consumed⟩

end TxMachine

/-- What happens to the network device, its guest and the driver. -/
inductive TxAct where
  | net (a : NetAct)
  /-- The driver makes the heads in the next `k` cells of the available ring available. -/
  | publish (k : Nat)
  /-- The driver reads the next entry of the used ring. -/
  | consume
  deriving DecidableEq, Repr

/-- The transmit queue after a step of its device. -/
def txFollow (t : TxMachine) (c : NetMachine) : TxMachine :=
  { t with c, kicked := if t.c.ctl = .idle ∧ c.ctl ≠ .idle then t.avail.length else t.kicked }

/-- A step of the device, its guest and the driver. -/
def txStep (t : TxMachine) : TxAct → Except Stop TxMachine
  | .net a => do
    let c ← netStep t.c a
    return txFollow t c
  | .publish k => do
    let idx := UInt16.ofNat (t.avail.length + k)
    let c ← netStep t.c (.dev (.guest (t.qs.availAddr.toNat + 2) (leBytes 2 idx.toNat)))
    return { t with c, avail := t.avail ++ nextHeads t.mem t.qs t.avail.length k }
  | .consume =>
    if usedIdx t.mem t.qs = .ofNat t.consumed.length then
      .error .blocked
    else
      let head := usedId t.mem t.qs (t.consumed.length % t.qs.num.toNat)
      return { t with consumed := t.consumed ++ [head] }

/-- A guest memory in which all that the device and the driver still have to read is as it was: their
entries in the rings, and the chains of the heads not yet popped. -/
@[mk_iff]
structure KeepsTx (t : TxMachine) (m : GuestMemMap) : Prop where
  rings : KeepsRings t.mem m t.qs t.avail.length t.used.length t.used.length t.consumed.length
  chains : ∀ h ∈ t.avail.drop t.used.length, chain m t.qs h = chain t.mem t.qs h

instance (t : TxMachine) (m : GuestMemMap) : Decidable (KeepsTx t m) :=
  decidable_of_iff' _ (keepsTx_iff t m)

/-- An action outside `queue_notify` that leaves the transmit queue alone. The registers of the queue are
not written, and no store of the guest, nor of the device for a packet it receives, hits what is still
to be read. -/
def LeavesTx (t : TxMachine) (a : NetAct) : Prop :=
  ∀ c ∈ (netStep t.c a).toOption, c.s.queue 1 = t.qs ∧ KeepsTx t c.s.mem

instance (t : TxMachine) (a : NetAct) : Decidable (LeavesTx t a) :=
  inferInstanceAs (Decidable (∀ c ∈ _, _ ∧ _))

/-- What a conforming driver does. -/
def Conforms (t : TxMachine) : TxAct → Prop
  | .net (.dev .round) | .net (.dev .done) | .consume => True
  | .net a => LeavesTx t a
  | .publish k =>
    t.avail.length + k ≤ t.consumed.length + t.qs.num.toNat ∧
      ∀ h ∈ nextHeads t.mem t.qs t.avail.length k, Posted t.mem t.qs h headerSize

instance (t : TxMachine) : (a : TxAct) → Decidable (Conforms t a)
  | .net (.dev .round) | .net (.dev .done) | .consume => .isTrue trivial
  | .net (.dev (.guest ..)) | .net (.dev (.mmioRead ..)) | .net (.dev (.mmioWrite ..))
  | .net (.dev (.ioeventfd ..)) | .net (.rx _) => inferInstanceAs (Decidable (LeavesTx t _))
  | .publish _ => inferInstanceAs (Decidable (_ ∧ _))

/-- The transmit queue is set up and nothing has happened on it. -/
@[mk_iff]
structure Start (c : NetMachine) : Prop where
  idle : c.ctl = .idle
  ring : RingOk c.s.mem.size (c.s.queue 1)
  max : (c.s.queue 1).num.toNat ≤ virtioNetMaxQueueNum
  manual : (c.s.queue 0).manualRecv = true
  auto : (c.s.queue 1).manualRecv = false
  availIdx : virtioRead16 c.s.mem ((c.s.queue 1).availAddr + 2) = 0
  last : (c.s.queue 1).lastAvailIdx = 0
  usedIdx : usedIdx c.s.mem (c.s.queue 1) = 0
  used : usedHeads c.s = []

instance (c : NetMachine) : Decidable (Start c) :=
  decidable_of_iff' _ (start_iff c)

/-- The driver has not done anything yet. -/
def txInit (c : NetMachine) : TxMachine :=
  ⟨c, [], [], 0⟩

variable {t t' : TxMachine} {c c' : NetMachine} {s s' : VirtioNetDevice} {a : UInt16}

/-- What holds in every state of a conforming run. -/
structure Inv (t : TxMachine) : Prop where
  rings : Rings t.mem t.qs t.avail t.used t.used.length t.consumed.length
  max : t.qs.num.toNat ≤ virtioNetMaxQueueNum
  manual : (t.c.s.queue 0).manualRecv = true
  auto : t.qs.manualRecv = false
  posted : ∀ h ∈ t.avail.drop t.used.length, Posted t.mem t.qs h headerSize
  ctl : ∀ q a w, t.c.ctl = .notify q a w → q = 1 ∧ a = .ofNat t.kicked ∧ t.used.length ≤ t.kicked
  kicked : t.kicked ≤ t.avail.length
  served : t.c.ctl = .idle → t.kicked ≤ t.used.length
  run : Relation.ReflTransGen Fifo.Step Fifo.empty t.fifo

/-- The heads go through the queue in order. -/
lemma Inv.inOrder (h : Inv t) : t.consumed <+: t.used ∧ t.used <+: t.avail :=
  Fifo.run_inOrder h.run

/-- The invariant holds when the queue has been set up. -/
lemma inv_init (h : Start c) : Inv (txInit c) := by
  have used : (txInit c).used = [] := h.used
  constructor
  case rings =>
    rw [used]
    exact .init h.ring h.availIdx h.last h.usedIdx
  case max => exact h.max
  case manual => exact h.manual
  case auto => exact h.auto
  case posted => simp [txInit]
  case ctl =>
    intro q a w e
    rw [show (txInit c).c.ctl = .idle from h.idle] at e
    cases e
  case kicked => exact le_rfl
  case served => exact fun _ => Nat.zero_le _
  case run =>
    rw [show (txInit c).fifo = Fifo.empty from congrArg (fun l => Fifo.mk [] l []) used]

/-! ## Steps outside the loop -/

/-- A step that leaves the transmit queue alone keeps the invariant. -/
lemma Inv.keep (h : Inv t) (queue : c'.s.queue 1 = t.qs) (manual : (c'.s.queue 0).manualRecv = true)
    (used : usedHeads c'.s = t.used) (size : c'.s.mem.size = t.mem.size) (keeps : KeepsTx t c'.s.mem)
    (ctl : c'.ctl = t.c.ctl) : Inv { t with c := c' } := by
  have eq : ({ t with c := c' } : TxMachine).qs = t.qs := queue
  have eu : ({ t with c := c' } : TxMachine).used = t.used := used
  constructor
  case rings => rw [eq, eu]; exact h.rings.keep size keeps.rings
  case max => rw [eq]; exact h.max
  case manual => exact manual
  case auto => rw [eq]; exact h.auto
  case posted =>
    rw [eq, eu]
    intro x hx
    have post := h.posted x hx
    simp only [Posted] at post ⊢
    rw [show chain ({ t with c := c' } : TxMachine).mem t.qs x = _ from keeps.chains x hx]
    exact post
  case ctl => rw [eu]; exact fun q a w e => h.ctl q a w (ctl ▸ e)
  case kicked => exact h.kicked
  case served => rw [eu]; exact fun e => h.served (ctl ▸ e)
  case run =>
    rw [show ({ t with c := c' } : TxMachine).fifo = t.fifo from
      congrArg (fun l => Fifo.mk t.avail l t.consumed) eu]
    exact h.run

/-- A memory that is not changed keeps the transmit queue. -/
lemma KeepsTx.refl : KeepsTx t t.mem :=
  ⟨.refl, fun _ _ => rfl⟩

/-- A step that leaves the transmit queue alone. -/
lemma LeavesTx.of_ok {b : NetAct} (h : LeavesTx t b) (e : netStep t.c b = .ok c') :
    c'.s.queue 1 = t.qs ∧ KeepsTx t c'.s.mem :=
  h c' (by rw [e]; rfl)

/-- Beginning `queue_notify` on the transmit queue keeps the invariant. -/
lemma Inv.start (h : Inv t) {w : Option Empty} :
    Inv { t with
      c := { t.c with ctl := .notify 1 (Virtio.availIdx t.c.s 1) w }, kicked := t.avail.length } where
  rings := h.rings
  max := h.max
  manual := h.manual
  auto := h.auto
  posted := h.posted
  ctl := by
    rintro q a w ⟨⟩
    exact ⟨rfl, h.rings.availCount, h.rings.popped_le⟩
  kicked := le_rfl
  served := by simp
  run := h.run

/-! ## A round of the loop -/

/-- A posted chain is sent and answered. -/
lemma queueNotifyRound_posted (max : (s.queue 1).num.toNat ≤ virtioNetMaxQueueNum)
    (post : Posted s.mem (s.queue 1) (nextHead s 1) headerSize) :
    ∃ dev, queueNotifyRound virtioNetRecvRequest s 1 =
      .ok (true, advance (virtioConsumeDesc { s with dev } 1 (nextHead s 1) 0) 1 (nextHead s 1)) := by
  have small : virtioNetMaxQueueNum < loopMax := by decide
  obtain ⟨R, W, ok, header⟩ := post.chainOk (by omega)
  have tot := ok.total
  obtain ⟨b, e, -, -⟩ := memcpyFromQueue_chain ok
    (show 0 + headerSize ≤ Virtio.total R by omega) (le_refl (Obj.zero headerSize).size)
  have len : i32 ((Virtio.total R : Int) - headerSize) = ((Virtio.total R - headerSize : Nat) : Int) := by
    rw [i32_of_range (by omega) (by omega)]
    omega
  obtain ⟨b', e', -, -⟩ := memcpyFromQueue_chain ok
    (show headerSize + (Virtio.total R - headerSize) ≤ Virtio.total R by omega)
    (le_refl (Obj.zero (Virtio.total R - headerSize)).size)
  refine ⟨writePacketToEther s.dev b' ((Virtio.total R - headerSize : Nat) : Int), ?_⟩
  have malloc : mallocZero ((Virtio.total R - headerSize : Nat) : Int) =
      .ok (.zero (Virtio.total R - headerSize)) := by
    rw [mallocZero_of_nonneg (by omega), Int.toNat_natCast]
  simp only [queueNotifyRound, getDescRwSize_chain ok, ok_bind, virtioNetRecvRequest, netRecvRequest]
  rw [show memcpyFromQueue s.mem (.zero headerSize) (s.queue 1) (nextHead s 1) 0 headerSize = _ from e]
  simp only [ok_bind, len, malloc, e']
  rfl

/-- What a round adds to the history, if the used ring lies in guest memory. -/
lemma usedHeads_answer {dev : EtherDevice} {head : Nat} (ok : RingOk s.mem.size (s.queue 1)) :
    usedHeads (advance (virtioConsumeDesc { s with dev } 1 head 0) 1 head) = usedHeads s ++ [head] := by
  have used := virtioConsumeDesc_used (s := { s with dev }) (q := 1) head 0 ok.usedInside
  simp only [usedHeads, advance, VirtioDevice.updQueue, used]
  have tx : decide ((1 : Fin maxQueue) ≠ 0) = true := rfl
  rw [List.filter_cons_of_pos (p := fun u : UsedEntry => decide (u.queue ≠ 0)) tx, List.map_cons,
    List.reverse_cons]

/-- The next head is one that the driver has posted. -/
lemma Inv.next_mem (h : Inv t) (lt : t.used.length < t.avail.length) :
    nextHead t.c.s 1 ∈ t.avail.drop t.used.length := by
  obtain ⟨_, e⟩ := List.getElem?_eq_some_iff.mp (h.rings.next lt)
  rw [List.drop_eq_getElem_cons lt, e]
  exact List.mem_cons_self

/-- The state after a round. -/
def answered (t : TxMachine) (dev : EtherDevice) : TxMachine :=
  { t with
    c.s := advance (virtioConsumeDesc { t.c.s with dev } 1 (nextHead t.c.s 1) 0) 1 (nextHead t.c.s 1) }

/-- A round keeps the invariant. -/
lemma Inv.round (h : Inv t) (dev : EtherDevice) (lt : t.used.length < t.avail.length)
    (ctl : ∀ q a w, t.c.ctl = .notify q a w → t.used.length < t.kicked) (busy : t.c.ctl ≠ .idle) :
    Inv (answered t dev) := by
  have post := h.posted _ (h.next_mem lt)
  have eq : (answered t dev).qs = t.qs.advanced := by
    simp only [answered, TxMachine.qs, advance_queue, virtioConsumeDesc_queue]
  have eu : (answered t dev).used = t.used ++ [nextHead t.c.s 1] := usedHeads_answer h.rings.ring
  have em : (answered t dev).mem = publishUsed t.mem t.qs (nextHead t.c.s 1) 0 := by
    simp [answered, TxMachine.mem, TxMachine.qs, advance, VirtioDevice.updQueue]
  have len : (answered t dev).used.length = t.used.length + 1 := by
    rw [eu, List.length_append, List.length_singleton]
  constructor
  case rings =>
    rw [eq, len, eu, em]
    exact (h.rings.pop lt).answer (Nat.lt_succ_self _) post.head_lt
  case max => rw [eq]; exact h.max
  case manual =>
    have man := advance_manualRecv (s := virtioConsumeDesc { t.c.s with dev } 1 (nextHead t.c.s 1) 0)
      (q := 1) (nextHead t.c.s 1) 0
    rw [virtioConsumeDesc_queue] at man
    exact man.trans h.manual
  case auto => rw [eq]; exact h.auto
  case posted =>
    rw [eq, len, em]
    intro x hx
    have post := h.posted x (List.mem_of_mem_drop (i := 1) (by rwa [List.drop_drop]))
    simp only [Posted] at post ⊢
    rw [chain_advanced, chain_congr h.rings.ring.table publishUsed_size
      (h.rings.ring.eqOn_table (publishUsed_frame h.rings.ring))]
    exact post
  case ctl =>
    intro q a w e
    obtain ⟨rfl, rfl, -⟩ := h.ctl q a w e
    rw [len]
    exact ⟨rfl, rfl, ctl _ _ _ e⟩
  case kicked => exact h.kicked
  case served => exact fun idle => absurd idle busy
  case run =>
    refine h.run.tail ?_
    rw [show (answered t dev).fifo = { t.fifo with served := t.fifo.served ++ [nextHead t.c.s 1] } from
      congrArg (fun l => Fifo.mk t.avail l t.consumed) eu]
    exact .serve (h.rings.next lt)

/-! ## Steps of the driver -/

/-- The state after heads were made available. -/
def published (t : TxMachine) (k : Nat) : TxMachine :=
  { t with
    c.s.mem := publishAvail t.mem t.qs (.ofNat (t.avail.length + k)),
    avail := t.avail ++ nextHeads t.mem t.qs t.avail.length k }

/-- The driver makes heads available. -/
lemma txStep_publish {k : Nat} (e : txStep t (.publish k) = .ok t') : t' = published t k := by
  obtain ⟨c', step, e⟩ := bind_eq_ok.mp e
  cases e
  have eff : DevEffect virtioNetRecvRequest t.c (.guest (t.qs.availAddr.toNat + 2)
      (leBytes 2 (UInt16.ofNat (t.avail.length + k)).toNat)) c' := devStep_effect step
  cases eff with
  | guest inside => rfl
  | start idle yes => cases yes

/-- Making heads available keeps the invariant. -/
lemma Inv.publish (h : Inv t) {k : Nat} (guard : Conforms t (.publish k)) : Inv (published t k) := by
  obtain ⟨room, posted⟩ := guard
  constructor
  case rings => exact h.rings.publish room
  case max => exact h.max
  case manual => exact h.manual
  case auto => exact h.auto
  case posted =>
    intro x hx
    have post : Posted t.mem t.qs x headerSize := by
      have hx : x ∈ (t.avail ++ nextHeads t.mem t.qs t.avail.length k).drop t.used.length := hx
      rw [List.drop_append_of_le_length h.rings.popped_le] at hx
      rcases List.mem_append.mp hx with hx | hx
      · exact h.posted x hx
      · exact posted x hx
    simp only [Posted] at post ⊢
    rw [show chain (published t k).mem (published t k).qs x = _ from chain_publishAvail h.rings.ring]
    exact post
  case ctl => exact h.ctl
  case kicked =>
    refine h.kicked.trans ?_
    rw [show (published t k).avail = t.avail ++ nextHeads t.mem t.qs t.avail.length k from rfl,
      List.length_append]
    exact Nat.le_add_right _ _
  case served => exact h.served
  case run => exact h.run.tail (.offer _)

/-- Reading an entry of the used ring keeps the invariant. -/
lemma Inv.consume (h : Inv t) (e : txStep t .consume = .ok t') : Inv t' := by
  simp only [txStep] at e
  split at e
  · cases e
  · rename_i ne
    have lt := h.rings.usedIdx_ne.mp ne
    cases e
    exact
      { h with
        rings := by
          rw [List.length_append, List.length_singleton]
          exact h.rings.consume lt
        run := h.run.tail (.take (h.rings.ids _ le_rfl lt)) }

/-! ## Runs -/

/-- In the loop there is something left to pop if and only if not all heads of the kick are answered. -/
lemma Inv.last_ne (h : Inv t) {q : Fin maxQueue} {w : Option Empty} (ctl : t.c.ctl = .notify q a w) :
    (t.c.s.queue q).lastAvailIdx ≠ a ↔ t.used.length < t.kicked := by
  obtain ⟨rfl, rfl, le⟩ := h.ctl _ _ _ ctl
  exact h.rings.last_ne le h.kicked

/-- The next round answers the next head. -/
lemma Inv.round_eq (h : Inv t) (lt : t.used.length < t.kicked) :
    ∃ dev, queueNotifyRound virtioNetRecvRequest t.c.s 1 = .ok (true, (answered t dev).c.s) := by
  apply queueNotifyRound_posted h.max
  exact h.posted _ (h.next_mem (lt.trans_le h.kicked))

/-- Inversion of a step of the device. -/
lemma txStep_net {b : NetAct} (e : txStep t (.net b) = .ok t') :
    ∃ c, netStep t.c b = .ok c ∧ t' = txFollow t c := by
  obtain ⟨c, step, e⟩ := bind_eq_ok.mp e
  exact ⟨c, step, (Except.ok.inj e).symm⟩

/-- Every step of a conforming run keeps the invariant. -/
lemma inv_step {b : TxAct} (h : Inv t) (guard : Conforms t b) (e : txStep t b = .ok t') : Inv t' := by
  cases b with
  | publish k =>
    rw [txStep_publish e]
    exact h.publish guard
  | consume => exact h.consume e
  | net b =>
    obtain ⟨c', step, rfl⟩ := txStep_net e
    rw [txFollow]
    cases b with
    | rx pkt =>
      obtain ⟨queue, keeps⟩ := LeavesTx.of_ok guard step
      simp only [netStep] at step
      split at step
      · rename_i idle
        obtain ⟨s', write, step⟩ := bind_eq_ok.mp step
        cases step
        obtain ⟨-, man, used, size, -⟩ := virtioNetWritePacket_effect write
        rw [if_neg (by simp [idle])]
        refine h.keep queue ((man 0).trans h.manual) ?_ size keeps rfl
        simp only [usedHeads, used]
        rfl
      · cases step
    | dev b =>
      have eff := devStep_effect step
      cases eff with
      | guest _ =>
        obtain ⟨queue, keeps⟩ := LeavesTx.of_ok guard step
        rw [if_neg (fun x => x.2 x.1)]
        exact h.keep queue h.manual rfl rfl keeps rfl
      | mmioRead _ _ =>
        rw [if_neg (fun x => x.2 x.1)]
        exact h
      | @mmioWrite offset val size _ _ =>
        obtain ⟨queue, keeps⟩ := LeavesTx.of_ok guard step
        obtain ⟨em, -, -, eu, man⟩ : Untouched t.c.s (virtioMmioWriteReg t.c.s offset val size) :=
          virtioMmioWriteReg_untouched
        rw [if_neg (fun x => x.2 x.1)]
        refine h.keep queue ((man 0).trans h.manual) ?_ (congrArg _ em) keeps rfl
        simp only [usedHeads, eu]
        rfl
      | @start b q idle yes =>
        by_cases manual : (t.c.s.queue q).manualRecv = true
        · rw [Machine.startNotify, if_pos manual, if_neg (fun x => x.2 x.1)]
          exact h
        · obtain rfl : q = 1 := by
            have two : ∀ q : Fin maxQueue, q ≠ 0 → q = 1 := by decide
            exact two q fun e => manual (e ▸ h.manual)
          rw [Machine.startNotify, if_neg manual, if_pos ⟨idle, by simp⟩]
          exact h.start
      | @round q a w go s' ctl ne eq =>
        obtain ⟨rfl, -, -⟩ := h.ctl _ _ _ ctl
        have lt := (h.last_ne ctl).mp ne
        obtain ⟨dev, eq'⟩ := h.round_eq lt
        rw [eq'] at eq
        cases eq
        simp only [if_true]
        rw [if_neg (by simp [ctl])]
        exact h.round dev (lt.trans_le h.kicked) (fun _ _ _ _ => lt) (by simp [ctl])
      | @done q a w ctl last =>
        have ge : ¬ t.used.length < t.kicked := fun lt => (h.last_ne ctl).mpr lt last
        rw [if_neg (by simp)]
        exact
          { h with
            ctl := by simp
            served := fun _ => not_lt.mp ge }

/-- In every conforming run the invariant holds. -/
lemma inv_run (h : Inv t) (r : Reach txStep Conforms t t') : Inv t' :=
  r.invariant h fun _ _ _ _ inv guard e => inv_step inv guard e

/-! ## Nothing is lost -/

/-- The loop of `queue_notify` comes to its end, with all heads of the kick answered. -/
lemma Inv.finish (h : Inv t) {q : Fin maxQueue} {w : Option Empty} (ctl : t.c.ctl = .notify q a w) :
    ∃ t', Reach txStep Conforms t t' ∧ t'.avail = t.avail ∧ t'.c.ctl = .idle ∧ t'.kicked = t.kicked := by
  obtain ⟨n, hn⟩ : ∃ n, n = t.kicked - t.used.length := ⟨_, rfl⟩
  induction n generalizing t with
  | zero =>
    have last : (t.c.s.queue q).lastAvailIdx = a := by
      by_contra ne
      have lt := (h.last_ne ctl).mp ne
      omega
    refine ⟨{ t with c := { t.c with ctl := .idle } }, ?_, rfl, rfl, rfl⟩
    refine .step (.net (.dev .done)) .init trivial ?_
    simp [txStep, txFollow, netStep, devStep, ctl, last, pure, Except.pure]
  | succ n ih =>
    have lt : t.used.length < t.kicked := by omega
    obtain ⟨rfl, -, -⟩ := h.ctl _ _ _ ctl
    obtain ⟨dev, eq⟩ := h.round_eq lt
    have one : Reach txStep Conforms t (answered t dev) := by
      refine .step (.net (.dev .round)) .init trivial ?_
      simp [txStep, txFollow, netStep, devStep, ctl, (h.last_ne ctl).mpr lt, eq, pure, Except.pure, answered]
    have len : (answered t dev).used.length = t.used.length + 1 := by
      rw [show (answered t dev).used = _ from usedHeads_answer h.rings.ring, List.length_append]
      rfl
    obtain ⟨t', r, avail, idle, kicked⟩ := ih (inv_run h one) ctl (by
      rw [len]
      change n = t.kicked - _
      omega)
    exact ⟨t', one.trans r, avail, idle, kicked⟩

/-- After a kick all that is available gets answered. -/
lemma Inv.serve (h : Inv t) (idle : t.c.ctl = .idle) :
    ∃ t', Reach txStep Conforms t t' ∧ t'.avail = t.avail ∧ t'.used.length = t.avail.length := by
  have auto : (t.c.s.queue 1).manualRecv = false := h.auto
  have one : Reach txStep Conforms t { t with
      c := { t.c with ctl := .notify 1 (Virtio.availIdx t.c.s 1) none }, kicked := t.avail.length } := by
    have step : netStep t.c (.dev (.ioeventfd 1)) =
        .ok { t.c with ctl := .notify 1 (Virtio.availIdx t.c.s 1) none } := by
      simp [netStep, devStep, idle, Machine.startNotify, auto, pure, Except.pure]
    refine .step (.net (.dev (.ioeventfd 1))) .init ?_ ?_
    · intro c' e
      rw [step] at e
      cases e
      exact ⟨rfl, .refl⟩
    · simp only [txStep, txFollow, step, ok_bind]
      rw [if_pos ⟨idle, by simp⟩]
      rfl
  obtain ⟨t', r, avail, idle', kicked⟩ := (inv_run h one).finish rfl
  have inv := inv_run h (one.trans r)
  have le := inv.rings.popped_le
  have served := inv.served idle'
  rw [avail] at le
  rw [kicked] at served
  exact ⟨t', one.trans r, avail, le_antisymm le served⟩

/-- All that was answered gets consumed. -/
lemma Inv.consumeAll (h : Inv t) (all : t.used.length = t.avail.length) :
    ∃ t', Reach txStep Conforms t t' ∧ t'.avail = t.avail ∧ t'.consumed.length = t.avail.length := by
  obtain ⟨n, hn⟩ : ∃ n, n = t.used.length - t.consumed.length := ⟨_, rfl⟩
  induction n generalizing t with
  | zero =>
    have le := h.rings.consumed_le
    exact ⟨t, .init, rfl, by omega⟩
  | succ n ih =>
    have ne := h.rings.usedIdx_ne.mpr (by omega)
    have one : Reach txStep Conforms t { t with
        consumed := t.consumed ++ [usedId t.mem t.qs (t.consumed.length % t.qs.num.toNat)] } := by
      refine .step .consume .init trivial ?_
      simp only [txStep, if_neg ne]
      rfl
    obtain ⟨t', r, avail, consumed⟩ := ih (inv_run h one) all (by
      rw [List.length_append, List.length_singleton]
      change n = t.used.length - _
      omega)
    exact ⟨t', one.trans r, avail, consumed⟩

/-- From every state of a conforming run the device and the driver can go on until all heads that were made
available are consumed. -/
lemma Inv.drain (h : Inv t) :
    ∃ t', Reach txStep Conforms t t' ∧ t'.avail = t.avail ∧ t'.consumed = t.avail := by
  obtain ⟨t₁, r₁, e₁, idle⟩ : ∃ t₁, Reach txStep Conforms t t₁ ∧ t₁.avail = t.avail ∧ t₁.c.ctl = .idle := by
    cases ctl : t.c.ctl with
    | idle => exact ⟨t, .init, rfl, ctl⟩
    | notify q a w =>
      obtain ⟨t₁, r, e, idle, -⟩ := h.finish ctl
      exact ⟨t₁, r, e, idle⟩
  obtain ⟨t₂, r₂, e₂, all⟩ := (inv_run h r₁).serve idle
  have r := r₁.trans r₂
  obtain ⟨t₃, r₃, e₃, len⟩ := (inv_run h r).consumeAll (by rw [all, e₂])
  have inv := inv_run h (r.trans r₃)
  have eq : t₃.avail = t.avail := by rw [e₃, e₂, e₁]
  refine ⟨t₃, r.trans r₃, eq, ?_⟩
  rw [← eq]
  exact (inv.inOrder.1.trans inv.inOrder.2).eq_of_length (by rw [len, e₃])

/-- The contract of the transmit queue. -/
structure InOrder (t : TxMachine) : Prop where
  /-- What the driver has consumed are the first heads answered, in order. -/
  consumed : t.consumed <+: t.used
  /-- What is answered are the first heads made available, in order. -/
  answered : t.used <+: t.avail
  /-- An entry stays in the used ring until the driver has read it. -/
  unread : ∀ i, t.consumed.length ≤ i → i < t.used.length →
    t.used[i]? = some (usedId t.mem t.qs (i % t.qs.num.toNat))
  /-- The driver sees how many there are. -/
  index : usedIdx t.mem t.qs = .ofNat t.used.length
  /-- After `queue_notify` all heads that were available at its beginning are answered. -/
  served : t.c.ctl = .idle → t.kicked ≤ t.used.length
  /-- Every head made available can still be consumed. -/
  drains : ∃ t', Reach txStep Conforms t t' ∧ t'.avail = t.avail ∧ t'.consumed = t.avail

/-- In every conforming run the heads that the driver consumes are those it made available, in the same
order, and none is lost, duplicated or overwritten. -/
theorem tx_in_order (start : Start c) (r : Reach txStep Conforms (txInit c) t) : InOrder t := by
  have h := inv_run (inv_init start) r
  exact ⟨h.inOrder.1, h.inOrder.2, h.rings.ids, h.rings.usedCount, h.served, h.drain⟩

/-- A guest memory of one page with two descriptors at 0 and an available ring of two entries at 256. -/
def twoPackets : GuestMemMap :=
  .onePage (splices (fun _ => 0)
    [(0, VirtioDesc.encode ⟨768, 28, 0, 0⟩ ++ VirtioDesc.encode ⟨800, 12, 0, 0⟩),
      (256, leBytes 2 0 ++ leBytes 2 0 ++ leBytes 2 0 ++ leBytes 2 1)])

/-- The network device after a driver has set up a transmit queue of two entries. -/
def twoEntries : NetMachine :=
  ([.dev (.mmioWrite 0x030 1 4), .dev (.mmioWrite 0x038 2 4), .dev (.mmioWrite 0x090 256 4),
    .dev (.mmioWrite 0x0a0 512 4), .dev (.mmioWrite 0x044 1 4)].foldlM netStep
      (netInit twoPackets takesAll)).toOption.getD (netInit twoPackets takesAll)

/-- Three heads go through a queue of two entries: the last one takes the cell of the first. -/
theorem tx_in_order_three_heads :
    ∃ t, Start twoEntries ∧ Reach txStep Conforms (txInit twoEntries) t ∧
      (t.avail = [0, 1, 0] ∧ t.used = [0, 1, 0] ∧ t.consumed = [0, 1]) ∧ InOrder t := by
  have start : Start twoEntries := by decide +kernel
  obtain ⟨t, r, h⟩ := Reach.of_test txStep Conforms .blocked (txInit twoEntries)
    [.publish 2, .net (.dev (.ioeventfd 1)), .net (.dev .round), .consume, .publish 1, .net (.dev .round),
      .net (.dev .done), .net (.dev (.mmioWrite 0x050 1 4)), .net (.dev .round), .net (.dev .done), .consume]
    (fun t => decide (t.avail = [0, 1, 0] ∧ t.used = [0, 1, 0] ∧ t.consumed = [0, 1])) (by decide +kernel)
  exact ⟨t, start, r, of_decide_eq_true h, tx_in_order start r⟩

end Mvvmm.Net
