import Mvvmm.Net.Packet
import Mvvmm.Net.Tx
import Mvvmm.Stores
import Mvvmm.Virtio.Live

/-!
# Every packet is sent

The transmit queue from one end to the other: the driver puts a packet in a chain, makes the chain available and
notifies the queue, which adds to an eventfd; the poll thread reads the eventfd and calls `queue_notify` under the
lock, which copies the packet from the chain and writes it to the TAP device.

`Net.Tx` has the heads of the chains. Here are the bytes: `Pipeline.packets` are the packets as they were when the
driver made their chains available. In every run with a conforming driver the packets written to the TAP device are
the first of these, in order and unchanged, but for those without a byte behind the header, which are not written.
In every fair run all packets that are available at a notification are written (`packets_sent`), whatever else the
guest, the receiving thread and the other queue do in between. Of the packets written those are sent that the TAP
device takes; nobody looks whether it does.
-/

namespace Mvvmm.Net.Send
open Bytes CMem Virtio Run Fair

/-- The packet in a chain: the readable bytes behind the header. -/
def payload (m : GuestMemMap) (qs : QueueState) (head : Nat) : List UInt8 :=
  (chain m qs head).elim [] fun l => (gather m (readablePart l)).drop headerSize

/-- The readable buffers of a chain lie in guest memory and apart from the rings. -/
def Sendable (m : GuestMemMap) (qs : QueueState) (head : Nat) : Prop :=
  ∀ l ∈ chain m qs head, ∀ d ∈ readablePart l, d.addr.toNat + d.len.toNat ≤ m.size ∧
    Apart d.addr.toNat d.len.toNat qs.availAddr.toNat (4 + 2 * qs.num.toNat) ∧
    Apart d.addr.toNat d.len.toNat qs.usedAddr.toNat (4 + 8 * qs.num.toNat)

instance (m : GuestMemMap) (qs : QueueState) (head : Nat) : Decidable (Sendable m qs head) :=
  inferInstanceAs (Decidable (∀ l, l ∈ _ → _))

/-- The network device and the driver of its transmit queue, with the packets of the chains made available, the
counters of the eventfds, the poll thread, and how many chains there were at the last notification. -/
structure Pipeline where
  tx : TxMachine
  packets : List (List UInt8)
  counter : Fin maxQueue → Nat
  poll : PollPc
  notified : Nat

namespace Pipeline
variable (s : Pipeline)

/-- What the poll thread has to do with. -/
def view : PollMachine EtherDevice Empty :=
  ⟨s.tx.c, s.counter, s.poll, s.tx.avail, s.notified⟩

/-- The packets written to the TAP device, oldest first. -/
def written : List (List UInt8) :=
  s.tx.c.s.dev.written.reverse

/-- The packets that the TAP device has taken, oldest first. -/
def sent : List (List UInt8) :=
  s.tx.c.s.dev.sent.reverse

end Pipeline

/-- What happens to them. -/
inductive Act where
  | tx (a : TxAct)
  /-- The driver notifies a queue. -/
  | kick (q : Fin maxQueue)
  /-- The poll thread goes on. -/
  | poll
  deriving DecidableEq, Repr

/-- A step of the pipeline; `fd` are the descriptors of the eventfds. -/
def step (fd : Fin maxQueue → Nat) (s : Pipeline) : Act → Except Stop Pipeline
  | .tx a => do
    let tx ← txStep s.tx a
    let packets := (tx.avail.drop s.tx.avail.length).map (payload s.tx.mem s.tx.qs)
    return { s with tx, packets := s.packets ++ packets, poll := s.poll.resume tx.c.ctl }
  | .kick q =>
    return { s with
      counter := Function.update s.counter q (s.counter q + 1)
      notified := if q = 1 then s.tx.avail.length else s.notified }
  | .poll => do
    let v ← virtioIoeventfdPollThread fd s.view
    return { s with tx := txFollow s.tx v.c, counter := v.counter, poll := v.poll }

/-- An action outside `queue_notify` that leaves the packets alone that are still to be sent. -/
def LeavesPackets (t : TxMachine) (a : NetAct) : Prop :=
  ∀ c ∈ (netStep t.c a).toOption, ∀ h ∈ t.avail.drop t.used.length,
    payload c.s.mem t.qs h = payload t.mem t.qs h

instance (t : TxMachine) (a : NetAct) : Decidable (LeavesPackets t a) :=
  inferInstanceAs (Decidable (∀ c, c ∈ _ → _))

/-- What the driver has to respect on account of the packets. -/
def KeepsPackets (t : TxMachine) : TxAct → Prop
  | .net (.dev .round) | .net (.dev .done) | .consume => True
  | .net a => LeavesPackets t a
  | .publish k => ∀ h ∈ nextHeads t.mem t.qs t.avail.length k, Sendable t.mem t.qs h

instance (t : TxMachine) : (a : TxAct) → Decidable (KeepsPackets t a)
  | .net (.dev .round) | .net (.dev .done) | .consume => .isTrue trivial
  | .net (.dev (.guest ..)) | .net (.dev (.mmioRead ..)) | .net (.dev (.mmioWrite ..))
  | .net (.dev (.ioeventfd ..)) | .net (.rx _) => inferInstanceAs (Decidable (LeavesPackets t _))
  | .publish _ => inferInstanceAs (Decidable (∀ h, h ∈ _ → _))

/-- What a conforming driver does. -/
def Conforms (s : Pipeline) : Act → Prop
  | .tx a => Net.Conforms s.tx a ∧ KeepsPackets s.tx a
  | .kick _ | .poll => True

instance (s : Pipeline) : (a : Act) → Decidable (Conforms s a)
  | .tx _ => inferInstanceAs (Decidable (_ ∧ _))
  | .kick _ | .poll => .isTrue trivial

/-- The transmit queue is set up and nothing has happened on it. -/
@[mk_iff]
structure Start (c : NetMachine) : Prop where
  tx : Net.Start c
  popped : poppedHeads c.s 1 = []
  written : c.s.dev.written = []

instance (c : NetMachine) : Decidable (Start c) :=
  decidable_of_iff' _ (start_iff c)

/-- The poll thread has just started. -/
def init (c : NetMachine) : Pipeline :=
  ⟨txInit c, [], fun _ => 0, .poll, 0⟩

/-- What the threads of the device do: the poll thread, and the one that is in `queue_notify`. -/
def threads : List Act :=
  [.poll, .tx (.net (.dev .round)), .tx (.net (.dev .done))]

variable {fd : Fin maxQueue → Nat} {s s' : Pipeline} {t t' : TxMachine} {c c' : NetMachine} {dev : EtherDevice}
  {packets : List (List UInt8)} {m m' : GuestMemMap} {qs : QueueState} {head k : Nat}

/-! ## The bytes of a packet -/

/-- A guest memory that agrees on the readable buffers of a chain has the same packet in it. -/
lemma payload_congr (same : chain m' qs head = chain m qs head)
    (e : ∀ l ∈ chain m qs head, ∀ d ∈ readablePart l,
      Set.EqOn m'.hostMem m.hostMem (Set.Ico d.addr.toNat (d.addr.toNat + d.len.toNat))) :
    payload m' qs head = payload m qs head := by
  rw [payload, payload, same]
  cases l : chain m qs head with
  | none => rfl
  | some l' => exact congrArg (List.drop headerSize) (gather_congr (e l' l))

/-- A pop does not change the packet of a chain. -/
lemma payload_advanced : payload m qs.advanced head = payload m qs head := by
  rw [payload, chain_advanced, payload]

/-- What a chain needs to be sent does not depend on the bytes in it. -/
lemma Sendable.congr (h : Sendable m qs head) (same : chain m' qs head = chain m qs head) (size : m'.size = m.size) :
    Sendable m' qs head := by
  rw [Sendable, same, size]
  exact h

/-- A packet stays if only the used ring changes. -/
lemma Sendable.eqOn_used (h : Sendable m qs head) (e : Set.EqOn m'.hostMem m.hostMem (usedSpan qs)ᶜ) :
    ∀ l ∈ chain m qs head, ∀ d ∈ readablePart l,
      Set.EqOn m'.hostMem m.hostMem (Set.Ico d.addr.toNat (d.addr.toNat + d.len.toNat)) :=
  fun l hl d hd => e.mono (h l hl d hd).2.2.subset_compl

/-- A packet stays if only the available ring changes. -/
lemma Sendable.eqOn_avail (h : Sendable m qs head) (e : Set.EqOn m'.hostMem m.hostMem (availSpan qs)ᶜ) :
    ∀ l ∈ chain m qs head, ∀ d ∈ readablePart l,
      Set.EqOn m'.hostMem m.hostMem (Set.Ico d.addr.toNat (d.addr.toNat + d.len.toNat)) :=
  fun l hl d hd => e.mono (h l hl d hd).2.1.subset_compl

/-- The TAP device after a packet, which is not written if it is empty. -/
def send (dev : EtherDevice) (pkt : List UInt8) : EtherDevice :=
  if pkt = [] then dev else { dev with written := pkt :: dev.written }

/-- A round of `queue_notify` sends the packet of the next chain. -/
lemma queueNotifyRound_send {s : VirtioNetDevice} (max : (s.queue 1).num.toNat ≤ virtioNetMaxQueueNum)
    (post : Posted s.mem (s.queue 1) (nextHead s 1) headerSize) (ok : Sendable s.mem (s.queue 1) (nextHead s 1)) :
    queueNotifyRound virtioNetRecvRequest s 1 = .ok (true, advance (virtioConsumeDesc
      { s with dev := send s.dev (payload s.mem (s.queue 1) (nextHead s 1)) } 1 (nextHead s 1) 0) 1
        (nextHead s 1)) := by
  have small : virtioNetMaxQueueNum < loopMax := by decide
  obtain ⟨R, W, chain, header⟩ := post.chainOk (by omega)
  obtain ⟨split, -⟩ := parts_of_append chain.readable chain.writable
  have tot := chain.total
  have len := chain.length
  have inside : BufInside s.mem R := .of_le fun d hd => (ok _ chain.chain d (by rw [split]; exact hd)).1
  have bytes : payload s.mem (s.queue 1) (nextHead s 1) = (gather s.mem R).drop headerSize := by
    rw [payload, chain.chain, Option.elim_some, split]
  have request : netRecvRequest writePacketToEther s 1 (nextHead s 1) (total R) (total W) = _ :=
    netRecvRequest_eq chain.isChain chain.readable chain.writable (by omega) (by omega) inside header
  -- The length that is passed on is zero if and only if there is no byte behind the header.
  have write : writePacketToEther s.dev (txBuf s.mem R) ((total R - headerSize : Nat) : Int) =
      send s.dev ((gather s.mem R).drop headerSize) := by
    have length : ((gather s.mem R).drop headerSize).length = total R - headerSize := by
      rw [List.length_drop, gather_length]
    by_cases empty : (gather s.mem R).drop headerSize = []
    · rw [empty] at length
      rw [writePacketToEther, if_pos (by rw [← length]; exact le_rfl), send, if_pos empty]
    · have pos := List.length_pos_iff.mpr empty
      rw [writePacketToEther, if_neg (by omega), send, if_neg empty, Int.toNat_natCast, slice_txBuf]
  simp only [queueNotifyRound, getDescRwSize_chain chain, ok_bind, virtioNetRecvRequest, request, write, bytes]
  rfl

/-! ## The packets of a run -/

/-- The packets that have been written are those of the heads answered, but for the empty ones, and the others are still in
their chains. -/
structure Contents (t : TxMachine) (packets : List (List UInt8)) : Prop where
  length : packets.length = t.avail.length
  sendable : ∀ h ∈ t.avail.drop t.used.length, Sendable t.mem t.qs h
  pending : packets.drop t.used.length = (t.avail.drop t.used.length).map (payload t.mem t.qs)
  written : t.c.s.dev.written.reverse = (packets.take t.used.length).filter (· ≠ [])

/-- There are no packets at the beginning. -/
lemma contents_init (start : Start c) : Contents (txInit c) [] where
  length := rfl
  sendable := by simp [txInit]
  pending := by simp [txInit]
  written := by rw [show (txInit c).c.s.dev.written = [] from start.written, List.take_nil]; rfl

/-- Nothing is sent, and the packets in the chains are left alone. -/
lemma Contents.keep (h : Contents t packets) (avail : t'.avail = t.avail) (queue : t'.qs = t.qs)
    (used : t'.used = t.used) (size : t'.mem.size = t.mem.size) (dev : t'.c.s.dev = t.c.s.dev)
    (chains : ∀ x ∈ t.avail.drop t.used.length, chain t'.mem t.qs x = chain t.mem t.qs x)
    (bytes : ∀ x ∈ t.avail.drop t.used.length, payload t'.mem t.qs x = payload t.mem t.qs x) : Contents t' packets := by
  constructor
  case length => rw [avail]; exact h.length
  case sendable =>
    rw [avail, used, queue]
    exact fun x hx => (h.sendable x hx).congr (chains x hx) size
  case pending =>
    rw [avail, used, queue, h.pending]
    exact (List.map_congr_left bytes).symm
  case written => rw [dev, used]; exact h.written

/-- The packet of the next head. -/
lemma Contents.next (h : Contents t packets) (inv : Net.Inv t) (lt : t.used.length < t.avail.length) :
    packets[t.used.length]? = some (payload t.mem t.qs (nextHead t.c.s 1)) := by
  have at0 : (packets.drop t.used.length)[0]? = _ := congrArg (·[0]?) h.pending
  rw [List.getElem?_drop, Nat.add_zero, List.getElem?_map, List.getElem?_drop, Nat.add_zero,
    show t.avail[t.used.length]? = some (nextHead t.c.s 1) from inv.rings.next lt] at at0
  exact at0

/-- A round sends the packet of the next head. -/
lemma Contents.round (h : Contents t packets) (inv : Net.Inv t) (lt : t.used.length < t.avail.length) :
    Contents (answered t (send t.c.s.dev (payload t.mem t.qs (nextHead t.c.s 1)))) packets := by
  obtain ⟨pkt, hp⟩ : ∃ pkt, pkt = payload t.mem t.qs (nextHead t.c.s 1) := ⟨_, rfl⟩
  rw [← hp]
  have next := h.next inv lt
  rw [← hp] at next
  have eq : (answered t (send t.c.s.dev pkt)).qs = t.qs.advanced := by
    simp only [answered, TxMachine.qs, advance_queue, virtioConsumeDesc_queue]
  have eu : (answered t (send t.c.s.dev pkt)).used = t.used ++ [nextHead t.c.s 1] := usedHeads_answer inv.rings.ring
  have em : (answered t (send t.c.s.dev pkt)).mem = publishUsed t.mem t.qs (nextHead t.c.s 1) 0 := by
    simp [answered, TxMachine.mem, TxMachine.qs, advance, VirtioDevice.updQueue]
  have len : (answered t (send t.c.s.dev pkt)).used.length = t.used.length + 1 := by
    rw [eu, List.length_append, List.length_singleton]
  have ed : (answered t (send t.c.s.dev pkt)).c.s.dev = send t.c.s.dev pkt := by
    simp only [answered, advance, VirtioDevice.updQueue, virtioConsumeDesc_dev]
  have frame : Set.EqOn (publishUsed t.mem t.qs (nextHead t.c.s 1) 0).hostMem t.mem.hostMem (usedSpan t.qs)ᶜ :=
    publishUsed_frame inv.rings.ring
  have later : ∀ x ∈ t.avail.drop (t.used.length + 1), x ∈ t.avail.drop t.used.length := by
    intro x hx
    exact List.mem_of_mem_drop (i := 1) (by rwa [List.drop_drop])
  have same : ∀ x, chain (publishUsed t.mem t.qs (nextHead t.c.s 1) 0) t.qs x = chain t.mem t.qs x := fun x =>
    chain_congr inv.rings.ring.table publishUsed_size (inv.rings.ring.eqOn_table frame)
  constructor
  case length => exact h.length
  case sendable =>
    rw [len, eq, em]
    intro x hx
    have ok := (h.sendable x (later x hx)).congr (same x) publishUsed_size
    rw [Sendable, chain_advanced]
    exact ok
  case pending =>
    rw [len, eq, em, ← List.drop_drop, h.pending, ← List.map_drop, List.drop_drop]
    refine List.map_congr_left fun x hx => ?_
    rw [payload_advanced]
    exact (payload_congr (same x) ((h.sendable x (later x hx)).eqOn_used frame)).symm
  case written =>
    rw [len, ed, List.take_add_one, next, Option.toList_some, List.filter_append, ← h.written, send]
    by_cases empty : pkt = []
    · simp [empty]
    · simp [empty]

/-- Heads are made available, with the packets that are in their chains. -/
lemma Contents.publish (h : Contents t packets) (inv : Net.Inv t)
    (ok : ∀ h ∈ nextHeads t.mem t.qs t.avail.length k, Sendable t.mem t.qs h) :
    Contents (published t k)
      (packets ++ (nextHeads t.mem t.qs t.avail.length k).map (payload t.mem t.qs)) := by
  obtain ⟨new, hn⟩ : ∃ new, new = nextHeads t.mem t.qs t.avail.length k := ⟨_, rfl⟩
  rw [← hn] at ok ⊢
  have le := inv.rings.popped_le
  have avail : (published t k).avail = t.avail ++ new := by rw [hn]; rfl
  have used : (published t k).used = t.used := rfl
  have qs : (published t k).qs = t.qs := rfl
  have same : ∀ x, chain (published t k).mem t.qs x = chain t.mem t.qs x := fun x => chain_publishAvail inv.rings.ring
  have all : ∀ x ∈ (t.avail ++ new).drop t.used.length, Sendable t.mem t.qs x := by
    intro x hx
    rw [List.drop_append_of_le_length le] at hx
    rcases List.mem_append.mp hx with old | new
    · exact h.sendable x old
    · exact ok x new
  have bytes : ∀ x ∈ (t.avail ++ new).drop t.used.length,
      payload (published t k).mem t.qs x = payload t.mem t.qs x := fun x hx =>
    payload_congr (same x) ((all x hx).eqOn_avail (publishAvail_frame inv.rings.ring))
  constructor
  case length => rw [avail, List.length_append, List.length_append, List.length_map, h.length]
  case sendable =>
    rw [avail, used, qs]
    exact fun x hx => (all x hx).congr (same x) rfl
  case pending =>
    rw [avail, used, qs, List.map_congr_left bytes, List.drop_append_of_le_length (by rw [h.length]; exact le),
      h.pending, List.drop_append_of_le_length le, List.map_append]
  case written =>
    rw [used, List.take_append_of_le_length (by rw [h.length]; exact le)]
    exact h.written

/-! ## The invariant -/

/-- A packet for the guest leaves the TAP device alone. -/
lemma virtioNetWritePacket_dev {s s' : VirtioNetDevice} {pkt : List UInt8} (h : virtioNetWritePacket s pkt = .ok s') :
    s'.dev = s.dev := by
  simp only [virtioNetWritePacket] at h
  split at h
  · cases h
    rfl
  · obtain ⟨sizes, _, h⟩ := bind_eq_ok.mp h
    split at h
    · cases h
      rfl
    · split at h
      · cases h
        rfl
      · obtain ⟨⟨r₁, m₁⟩, e₁, h⟩ := bind_eq_ok.mp h
        obtain ⟨⟨r₂, m₂⟩, e₂, h⟩ := bind_eq_ok.mp h
        obtain rfl := Except.ok.inj h
        simp only [VirtioDevice.updQueue, virtioConsumeDesc_dev]

/-- Only a round sends a packet. -/
lemma netStep_rest {a : NetAct} (ne : a ≠ .dev .round) (st : netStep c a = .ok c') :
    c'.s.dev = c.s.dev ∧ usedHeads c'.s = usedHeads c.s ∧ c'.s.mem.size = c.s.mem.size := by
  cases a with
  | rx pkt =>
    simp only [netStep] at st
    split at st
    · obtain ⟨s', write, st⟩ := bind_eq_ok.mp st
      cases st
      obtain ⟨-, -, used, size, -⟩ := virtioNetWritePacket_effect write
      refine ⟨virtioNetWritePacket_dev write, ?_, size⟩
      simp only [usedHeads, used]
    · cases st
  | dev a =>
    have eff : DevEffect virtioNetRecvRequest c a c' := devStep_effect st
    cases eff with
    | guest _ | mmioRead _ _ | done _ _ => exact ⟨rfl, rfl, rfl⟩
    | @mmioWrite offset val size _ _ =>
      obtain ⟨em, ed, -, eu, -⟩ : Untouched c.s (virtioMmioWriteReg c.s offset val size) :=
        virtioMmioWriteReg_untouched
      refine ⟨ed, ?_, congrArg _ em⟩
      simp only [usedHeads, eu]
    | start _ _ => rw [Machine.startNotify_s]; exact ⟨rfl, rfl, rfl⟩
    | round _ _ _ => exact absurd rfl ne

/-- What holds in every state of a conforming run. -/
structure Inv (s : Pipeline) : Prop where
  tx : Net.Inv s.tx
  contents : Contents s.tx s.packets
  poll : PollInv 1 s.view

/-- Each head that was popped has been answered. -/
lemma Inv.popped (h : Inv s) : s.view.popped 1 = s.tx.used.length :=
  h.poll.ring.unique h.tx.rings.availRing

/-- The invariant holds when the poll thread has just started. -/
lemma inv_init (start : Start c) : Inv (init c) where
  tx := Net.inv_init start.tx
  contents := contents_init start
  poll := by
    refine pollInv_init (c := c) ⟨?_, start.tx.ring, start.tx.availIdx, start.tx.last, start.popped⟩ start.tx.auto
    rw [start.tx.idle]
    rfl

/-- The next round. -/
lemma Inv.round_eq (h : Inv s) (lt : s.tx.used.length < s.tx.kicked) :
    queueNotifyRound virtioNetRecvRequest s.tx.c.s 1 =
      .ok (true, (answered s.tx (send s.tx.c.s.dev (payload s.tx.mem s.tx.qs (nextHead s.tx.c.s 1)))).c.s) := by
  have mem := h.tx.next_mem (lt.trans_le h.tx.kicked)
  exact queueNotifyRound_send h.tx.max (h.tx.posted _ mem) (h.contents.sendable _ mem)

/-- What a step of the device means to the packets, and to the part of the available ring that is still to be read. -/
lemma Inv.net {a : NetAct} (h : Inv s) (conforms : Conforms s (.tx (.net a))) (st : netStep s.tx.c a = .ok c') :
    Contents (txFollow s.tx c') s.packets ∧ Leaves 1 s.view c' := by
  by_cases round : a = .dev .round
  · subst round
    have eff : DevEffect virtioNetRecvRequest s.tx.c .round c' := devStep_effect st
    cases eff with
    | start _ yes => cases yes
    | @round q a w go s₁ ctl ne eq =>
      obtain ⟨-, grown, size, -⟩ := (queueNotifyRound_effect eq).pops recvKeeps
      obtain ⟨rfl, -, -⟩ := h.tx.ctl _ _ _ ctl
      have lt := (h.tx.last_ne ctl).mp ne
      rw [h.round_eq lt] at eq
      cases eq
      refine ⟨?_, fun e => absurd (grown.symm.trans e) (List.cons_ne_self _ _), ?_⟩
      · exact (h.contents.round h.tx (lt.trans_le h.tx.kicked)).keep rfl rfl rfl rfl rfl (fun _ _ => rfl) fun _ _ => rfl
      · refine .of_eqOn h.tx.rings.ring size (h.tx.rings.ring.eqOn_avail ?_)
        simp only [answered, advance, VirtioDevice.updQueue, virtioConsumeDesc_mem]
        exact publishUsed_frame h.tx.rings.ring
  · obtain ⟨dev, used, size⟩ := netStep_rest round st
    by_cases done : a = .dev .done
    · subst done
      have eff : DevEffect virtioNetRecvRequest s.tx.c .done c' := devStep_effect st
      cases eff with
      | start _ yes => cases yes
      | done ctl last =>
        exact ⟨h.contents.keep rfl rfl rfl rfl rfl (fun _ _ => rfl) fun _ _ => rfl, fun _ => rfl, rfl, fun _ _ _ => rfl⟩
    · obtain ⟨leaves, kept⟩ : LeavesTx s.tx a ∧ LeavesPackets s.tx a := by
        obtain ⟨own, packets⟩ := conforms
        cases a with
        | rx _ => exact ⟨own, packets⟩
        | dev a =>
          cases a with
          | round => exact absurd rfl round
          | done => exact absurd rfl done
          | _ => exact ⟨own, packets⟩
      obtain ⟨queue, keeps⟩ := leaves.of_ok st
      refine ⟨h.contents.keep rfl queue used size dev keeps.chains ?_, fun _ => queue, ?_⟩
      · exact kept c' (by rw [st]; rfl)
      · rw [show (poppedHeads s.view.c.s 1).length = _ from h.popped]
        exact keeps.rings.keepsAvail

/-- A call of `queue_notify` begins, by the poll thread. -/
lemma Inv.start {q : Fin maxQueue} (h : Inv s) (idle : s.tx.c.ctl = .idle) :
    Net.Inv (txFollow s.tx (s.tx.c.startNotify q none)) ∧
      Contents (txFollow s.tx (s.tx.c.startNotify q none)) s.packets := by
  have dev : netStep s.tx.c (.dev (.ioeventfd q)) = .ok (s.tx.c.startNotify q none) := by
    simp only [netStep, devStep, idle]
    rfl
  have leaves : LeavesTx s.tx (.dev (.ioeventfd q)) := by
    intro c' e
    rw [dev] at e
    cases e
    rw [Machine.startNotify_s]
    exact ⟨rfl, .refl⟩
  have st : txStep s.tx (.net (.dev (.ioeventfd q))) = .ok (txFollow s.tx (s.tx.c.startNotify q none)) := by
    simp only [txStep, dev, ok_bind]
    rfl
  refine ⟨Net.inv_step (b := .net (.dev (.ioeventfd q))) h.tx leaves st,
    (h.net (a := .dev (.ioeventfd q)) ⟨leaves, ?_⟩ dev).1⟩
  intro c' e
  rw [dev] at e
  cases e
  rw [Machine.startNotify_s]
  exact fun _ _ => rfl

/-- A step of the device and its driver. -/
lemma Inv.txStep {a : TxAct} (h : Inv s) (conforms : Conforms s (.tx a)) (st : txStep s.tx a = .ok t') :
    Inv { s with
      tx := t', poll := s.poll.resume t'.c.ctl
      packets := s.packets ++ (t'.avail.drop s.tx.avail.length).map (payload s.tx.mem s.tx.qs) } := by
  have tx := Net.inv_step h.tx conforms.1 st
  have stays : s.poll.resume s.tx.c.ctl = s.poll := PollPc.resume_eq h.poll.inNotify
  cases a with
  | net a =>
    obtain ⟨c', step, rfl⟩ := txStep_net st
    obtain ⟨contents, leaves⟩ := h.net conforms step
    rw [show (txFollow s.tx c').avail = s.tx.avail from rfl, List.drop_length, List.map_nil, List.append_nil]
    exact ⟨tx, contents, h.poll.back recvKeeps (netStep_notify step) leaves⟩
  | publish k =>
    obtain rfl := txStep_publish st
    have room : s.tx.avail.length + k ≤ (poppedHeads s.tx.c.s 1).length + s.tx.qs.num.toNat := by
      rw [show (poppedHeads s.tx.c.s 1).length = _ from h.popped]
      exact conforms.1.1.trans (Nat.add_le_add_right h.tx.rings.consumed_le _)
    have new : (published s.tx k).avail.drop s.tx.avail.length = nextHeads s.tx.mem s.tx.qs s.tx.avail.length k :=
      List.drop_left
    rw [new]
    refine ⟨tx, h.contents.publish h.tx conforms.2, ?_⟩
    rw [Pipeline.view]
    simp only [show (published s.tx k).c.ctl = s.tx.c.ctl from rfl, stays]
    exact h.poll.publish room
  | consume =>
    simp only [Net.txStep] at st
    split at st
    · cases st
    · obtain rfl := Except.ok.inj st
      simp only [List.drop_length, List.map_nil, List.append_nil, stays]
      exact ⟨tx, h.contents.keep rfl rfl rfl rfl rfl (fun _ _ => rfl) fun _ _ => rfl, h.poll⟩

/-- Every step of a conforming run keeps the invariant. -/
lemma inv_step {a : Act} (inj : Function.Injective fd) (h : Inv s) (conforms : Conforms s a)
    (st : step fd s a = .ok s') : Inv s' := by
  cases a with
  | tx a =>
    obtain ⟨t', step, st⟩ := bind_eq_ok.mp st
    obtain rfl := Except.ok.inj st
    exact h.txStep conforms step
  | kick q =>
    obtain rfl := Except.ok.inj st
    exact ⟨h.tx, h.contents, h.poll.kick⟩
  | poll =>
    obtain ⟨v, step, st⟩ := bind_eq_ok.mp st
    obtain rfl := Except.ok.inj st
    have poll := h.poll.pollThread inj step
    have same : Net.Inv (txFollow s.tx s.tx.c) ∧ Contents (txFollow s.tx s.tx.c) s.packets := by
      rw [txFollow, if_neg fun x => x.2 x.1]
      exact ⟨h.tx, h.contents⟩
    cases pollThread_effect inj h.poll step with
    | lock pc idle =>
      obtain ⟨tx, contents⟩ := h.start idle
      exact ⟨tx, contents, poll⟩
    | _ => exact ⟨same.1, same.2, poll⟩

/-- The invariant holds in every state of a conforming run. -/
lemma inv_run (inj : Function.Injective fd) (start : Start c) (r : Reach (step fd) Conforms (init c) s) : Inv s := by
  refine r.invariant (inv_init start) ?_
  intro s a s' _ h guard st
  exact inv_step inj h guard st

/-- What a step that the poll thread does not make means to it. -/
lemma Inv.beside {a : Act} (h : Inv s) (st : step fd s a = .ok s') (ne : a ≠ .poll) :
    Beside virtioNetRecvRequest s.view s'.view := by
  have stays : s.poll = s.poll.resume s.tx.c.ctl := (PollPc.resume_eq h.poll.inNotify).symm
  cases a with
  | tx a =>
    obtain ⟨t', tx, st⟩ := bind_eq_ok.mp st
    obtain rfl := Except.ok.inj st
    refine ⟨?_, rfl, le_rfl⟩
    cases a with
    | net a =>
      obtain ⟨c', step, rfl⟩ := txStep_net tx
      exact netStep_notify step
    | publish k =>
      obtain ⟨c', step, e⟩ := bind_eq_ok.mp tx
      obtain rfl := Except.ok.inj e
      exact netStep_notify step
    | consume =>
      simp only [Net.txStep] at tx
      split at tx
      · cases tx
      · obtain rfl := Except.ok.inj tx
        exact .other rfl rfl
  | kick q =>
    obtain rfl := Except.ok.inj st
    refine ⟨.other rfl rfl, stays, ?_⟩
    have le := h.poll.notified
    simp only [Pipeline.view] at le ⊢
    split
    · exact le
    · exact le_rfl
  | poll => exact absurd rfl ne

/-- The packets stay. -/
lemma step_packets {a : Act} (st : step fd s a = .ok s') : s.packets <+: s'.packets := by
  cases a with
  | tx a =>
    obtain ⟨t', tx, st⟩ := bind_eq_ok.mp st
    obtain rfl := Except.ok.inj st
    exact List.prefix_append ..
  | kick q =>
    obtain rfl := Except.ok.inj st
    exact List.prefix_rfl
  | poll =>
    obtain ⟨v, step, st⟩ := bind_eq_ok.mp st
    obtain rfl := Except.ok.inj st
    exact List.prefix_rfl

/-- A call that has something left to pop can go on. -/
lemma Inv.round_ok {a : UInt16} {w : Option Empty} (h : Inv s) (ctl : s.tx.c.ctl = .notify 1 a w)
    (ne : (s.tx.c.s.queue 1).lastAvailIdx ≠ a) : Enabled (step fd) (.tx (.net (.dev .round))) s := by
  have round := h.round_eq ((h.tx.last_ne ctl).mp ne)
  simp only [Enabled, step, Net.txStep, netStep, devStep, ctl, if_neg ne, round, ok_bind]
  exact ⟨_, rfl⟩

/-- One that has nothing left ends. -/
lemma done_ok {a : UInt16} {w : Option Empty} (ctl : s.tx.c.ctl = .notify 1 a w)
    (last : (s.tx.c.s.queue 1).lastAvailIdx = a) : Enabled (step fd) (.tx (.net (.dev .done))) s := by
  simp only [Enabled, step, Net.txStep, netStep, devStep, ctl, if_pos last]
  exact ⟨_, rfl⟩

/-! ## Fair runs -/

section Fair
variable {r : Trace (step fd)} (inj : Function.Injective fd) (inv : ∀ n, Inv (r.state n))
  (fair : ∀ a ∈ threads, r.StronglyFair a)
include inj inv fair

/-- The pipeline is one in which notifications are served. -/
lemma served : ServedRun r Pipeline.view virtioNetRecvRequest fd 1 .poll (.tx (.net (.dev .round)))
    (.tx (.net (.dev .done))) where
  inj := inj
  keeps := recvKeeps
  inv n := (inv n).poll
  mine n i a w ctl := ((inv n).tx.ctl i a w ctl).1
  own n e := by
    obtain ⟨v, step, st⟩ := bind_eq_ok.mp (r.next n _ e)
    rw [step, ← Except.ok.inj st, (pollThread_effect inj (inv n).poll step).rest]
    rfl
  other n b e ne := (inv n).beside (r.next n b e) ne
  canPoll n v st := by
    simp only [Enabled, step, st, ok_bind]
    exact ⟨_, rfl⟩
  canRound n a w ctl ne := (inv n).round_ok ctl ne
  canEnd n a w ctl last := done_ok ctl last
  rounds n e := by
    obtain ⟨t', tx, st⟩ := bind_eq_ok.mp (r.next n _ e)
    obtain ⟨c', step, rfl⟩ := txStep_net tx
    rw [← Except.ok.inj st]
    exact devStep_round_popped recvKeeps step fun i a w ctl => ((inv n).tx.ctl i a w ctl).1
  ends n e := by
    obtain ⟨t', tx, st⟩ := bind_eq_ok.mp (r.next n _ e)
    obtain ⟨c', step, rfl⟩ := txStep_net tx
    have step : devStep virtioNetRecvRequest (r.state n).tx.c .done = .ok c' := step
    rw [← Except.ok.inj st]
    exact devStep_done_idle step
  fairPoll := fair _ (by simp [threads])
  fairRound := fair _ (by simp [threads])
  fairEnd := fair _ (by simp [threads])

end Fair

/-- In every fair run with a conforming driver, the packets written to the TAP device are at every moment those of the
heads answered, as they were when they were made available, each once and in order, but for the empty ones; and there
is a moment from which on all packets are among them that were available at the last notification. Those that the TAP
device takes are sent. -/
theorem packets_sent (inj : Function.Injective fd) (start : Start c) {r : Trace (step fd)} (first : r.state 0 = init c)
    (conforms : ∀ n a, r.act n = some a → Conforms (r.state n) a) (fair : ∀ a ∈ threads, r.StronglyFair a) (n : Nat) :
    (r.state n).written = ((r.state n).packets.take (r.state n).tx.used.length).filter (· ≠ []) ∧
    (∃ m ≥ n, ∀ k ≥ m, ((r.state n).packets.take (r.state n).notified).filter (· ≠ []) <+: (r.state k).written) ∧
    (r.state n).sent.Sublist (r.state n).written ∧
    ((∀ i, ∀ pkt ∈ (r.state n).written, (r.state n).tx.c.s.dev.takes i pkt = true) →
      (r.state n).sent = (r.state n).written) := by
  have inv : ∀ n, Inv (r.state n) := fun n => inv_run inj start (first ▸ r.reach conforms n)
  have live := served inj inv fair
  refine ⟨(inv n).contents.written, ?_, taken_sublist.reverse, fun all => ?_⟩
  · -- At some moment all that was notified is popped, and so answered.
    obtain ⟨m, hm, all⟩ : ∃ m ≥ n, (r.state n).notified ≤ (r.state m).view.popped 1 := by
      rcases Nat.eq_zero_or_pos (r.state n).notified with zero | pos
      · exact ⟨n, le_rfl, zero ▸ Nat.zero_le _⟩
      · obtain ⟨m, hm, lt⟩ := live.popped_live ((r.state n).notified - 1) n (Nat.sub_one_lt_of_lt pos)
        exact ⟨m, hm, by omega⟩
    refine ⟨m, hm, fun k hk => ?_⟩
    have answered : (r.state n).notified ≤ (r.state k).tx.used.length := by
      rw [← (inv k).popped]
      exact all.trans (live.popped_mono hk)
    have stays : (r.state n).packets <+: (r.state k).packets :=
      r.stable (P := fun s => (r.state n).packets <+: s.packets) (fun s a s' h st => h.trans (step_packets st))
        List.prefix_rfl k (hm.trans hk)
    rw [Pipeline.written, (inv k).contents.written]
    exact ((stays.take _).trans (List.take_prefix_take_left answered)).filter _
  · rw [Pipeline.sent, EtherDevice.sent, taken_all fun i pkt hp => all i pkt (List.mem_reverse.mpr hp)]
    rfl

/-- Three packets go through a queue of two entries. The second one is empty, and the third one is put in the buffer of
the first one after this has been sent. -/
def threePackets : List Act :=
  [.tx (.publish 2), .kick 1] ++ List.replicate 6 .poll ++ [.tx (.net (.dev .round)), .tx .consume,
    .tx (.net (.dev (.guest 780 [0x61]))), .tx (.publish 1), .kick 1, .tx (.net (.dev .round)),
    .tx (.net (.dev .done))] ++
    List.replicate 7 .poll ++ [.tx (.net (.dev .round)), .tx (.net (.dev .done)), .poll]

/-- Their run is fair, for nothing is left to be done after it. -/
theorem packets_sent_three :
    ∃ r : Trace (step Fin.val), Start twoEntries ∧ r.state 0 = init twoEntries ∧
      (∀ n a, r.act n = some a → Conforms (r.state n) a) ∧ (∀ a ∈ threads, r.StronglyFair a) ∧
      ((r.state 13).notified = 3 ∧ (r.state 13).packets = [List.replicate 16 0, [], 0x61 :: List.replicate 15 0]) ∧
      ∃ m ≥ 13, ∀ k ≥ m, [List.replicate 16 0, 0x61 :: List.replicate 15 0] <+: (r.state k).written := by
  have start : Start twoEntries := by decide +kernel
  obtain ⟨r, states, conforms, fair⟩ := exists_fair_trace (step Fin.val) Conforms .blocked threePackets
    (init twoEntries) threads (by decide +kernel)
  have zero : r.state 0 = init twoEntries := (Except.ok.inj (states 0)).symm
  obtain ⟨notified, packets⟩ := of_decide_eq_true (Trace.test_state (m := 13) states (fun s => decide (s.notified = 3 ∧
    s.packets = [List.replicate 16 0, [], 0x61 :: List.replicate 15 0])) (by decide +kernel))
  obtain ⟨-, ⟨m, hm, written⟩, -⟩ := packets_sent (fun _ _ => Fin.ext) start zero conforms fair 13
  rw [notified, packets] at written
  exact ⟨r, start, zero, conforms, fair, ⟨notified, packets⟩, m, hm, written⟩

end Mvvmm.Net.Send
