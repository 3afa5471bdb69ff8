import Mvvmm.Net.Packet
import Mvvmm.Virtio.Driver

/-!
# The receive queue, its thread and its driver

The receiving thread (C `tap_net_rx_thread`) waits for a frame of the TAP device, asks whether the guest has
a chain for it, and hands it over; each of the three is an action of its own, as the thread takes the lock of
the device for the second and again for the third. The driver of the receive queue, queue 0, makes chains of
writable buffers available (`publish`) and reads the entries of the used ring one by one (`consume`), each
with the bytes that the device reports as written. Everything else that happens to the device and its guest is
an action of `devStep`, the rounds of `queue_notify` for the transmit queue among them.

`Conforms` is what the driver has to respect: at most as many chains are outstanding as the queue has
entries, their buffers lie in guest memory, apart from each other, from the rings and from the used ring of the
transmit queue, and nothing that is still to be read is modified (`KeepsRx`).

In such a run what the driver reads is what was delivered, in order and unchanged, and what was delivered is
what arrived but for dropped frames and for the end of frames larger than the buffer of the thread, which `read`
cuts off (`rx_in_order`). As the thread is the only one that pops the queue, the
answer that it got when it asked still holds when it writes: from then on a frame is dropped only if it is too
large for the next chain.
-/

namespace Mvvmm.Net.Rx
open Bytes CMem Virtio Run Ring

/-! ## The receiving thread -/

/-- C `TAP_BUF_SIZE`. -/
def tapBufSize : Nat := 4096

/-- The values of `errno` that matter to the thread. -/
inductive Errno where
  | eintr
  | etimedout
  | eio
  | other (n : Nat)
  deriving DecidableEq, Repr

/-- What the system calls of `timed_read` find at the TAP device. -/
inductive TapEvent where
  | pollFails (e : Errno)
  | timeout
  /-- There is a frame to read, and `read` returns bytes of it. -/
  | data (l : List UInt8)
  /-- There is something to read, and `read` fails. -/
  | readFails (e : Errno)
  /-- An error or a hang-up of the device. -/
  | hangup
  deriving DecidableEq, Repr

/-- What `read` returns of a frame: as much as the buffer of the thread holds. The rest is lost. -/
def readFrame (l : List UInt8) : List UInt8 :=
  l.take tapBufSize

/-- C `timed_read`: the bytes, or -1 and `errno`. -/
def timedRead : TapEvent → Except Errno (List UInt8)
  | .pollFails e => .error e
  | .timeout => .error .etimedout
  | .data l => .ok (readFrame l)
  | .readFails e => .error e
  | .hangup => .error .eio

/-- The frame that has arrived at the TAP device. -/
def TapEvent.frames : TapEvent → List (List UInt8)
  | .data (b :: l) => [b :: l]
  | _ => []

/-- Where the receiving thread is. -/
inductive RxPc where
  /-- In `timed_read`. -/
  | timedRead
  /-- Before it looks at `ctx->quit`. -/
  | checkQuit
  /-- Before `can_write_packet_to_virtio`. -/
  | ask (pkt : List UInt8)
  /-- Before `write_packet_to_virtio`. -/
  | write (pkt : List UInt8)
  /-- It has returned. -/
  | returned
  deriving DecidableEq, Repr

namespace RxPc

/-- The frame that the thread has read and not dealt with. -/
def pending : RxPc → List (List UInt8)
  | ask pkt | write pkt => [pkt]
  | _ => []

/-- Where the thread goes on after `timed_read`. -/
def afterRead : Except Errno (List UInt8) → RxPc
  | .error .eintr | .error .etimedout => checkQuit
  | .error _ | .ok [] => returned
  | .ok pkt => ask pkt

end RxPc

/-! ## The machine -/

/-- A chain that the driver has made available, with the buffers the device may write. -/
structure Posting where
  head : Nat
  bufs : List VirtioDesc
  deriving DecidableEq, Repr

/-- The chain with the given head. -/
def posting (m : GuestMemMap) (qs : QueueState) (head : Nat) : Posting :=
  ⟨head, (chain m qs head).elim [] writablePart⟩

/-- The network device, its receiving thread and the driver of its receive queue: the frames that arrived at the TAP
device and were read, the chains made available, the heads and bytes of the frames that were delivered, and those that the
driver has read. -/
structure RxMachine where
  c : NetMachine
  pc : RxPc
  quit : Bool
  arrived : List (List UInt8)
  avail : List Posting
  delivered : List (Nat × List UInt8)
  received : List (Nat × List UInt8)

namespace RxMachine
variable (t : RxMachine)

/-- The guest memory. -/
def mem : GuestMemMap :=
  t.c.s.mem

/-- The receive queue. -/
def qs : QueueState :=
  t.c.s.queue 0

/-- The heads made available. -/
def heads : List Nat :=
  t.avail.map fun x => x.head

/-- The heads answered. -/
def used : List Nat :=
  t.delivered.map fun e => e.1

/-- The frames delivered, without their headers. -/
def frames : List (List UInt8) :=
  t.delivered.map fun e => e.2.drop headerSize

/-- How many entries of the used ring the driver has read. -/
def consumed : Nat :=
  t.received.length

/-- The chains whose answer the driver has not read. -/
def outstanding : List Posting :=
  t.avail.drop t.consumed

end RxMachine

/-- What happens to the network device, its receiving thread and its guest. -/
inductive RxAct where
  | dev (a : DevAct)
  /-- `timed_read` returns. -/
  | event (e : TapEvent)
  /-- The thread looks at `ctx->quit`. -/
  | checkQuit
  /-- The thread calls `can_write_packet_to_virtio`. -/
  | ask
  /-- The thread calls `write_packet_to_virtio`. -/
  | write
  /-- C `mvvm_destroy_virtio_net` sets `ctx->quit`. -/
  | stop
  /-- The driver makes the heads in the next `k` cells of the available ring available. -/
  | publish (k : Nat)
  /-- The driver reads the next entry of the used ring. -/
  | consume
  deriving DecidableEq, Repr

/-- The frames delivered after `write_packet_to_virtio` has led to `c`. -/
def RxMachine.note (t : RxMachine) (c : NetMachine) (pkt : List UInt8) : List (Nat × List UInt8) :=
  if (c.s.queue 0).lastAvailIdx = t.qs.lastAvailIdx then
    t.delivered
  else
    t.delivered ++ [(nextHead t.c.s 0, withHeader pkt)]

/-- The next entry of the used ring and its data, as the driver reads them. The entry names the chain by its
head. -/
def RxMachine.nextEntry (t : RxMachine) : Option (Nat × List UInt8) :=
  let k := t.consumed % t.qs.num.toNat
  (t.outstanding.find? fun x => x.head = usedId t.mem t.qs k).map fun x =>
    (x.head, (gather t.mem x.bufs).take (usedLen t.mem t.qs k))

/-- A step of the device, its receiving thread and its guest. -/
def rxStep (t : RxMachine) : RxAct → Except Stop RxMachine
  | .dev a => do
    let c ← netStep t.c (.dev a)
    return { t with c }
  | .event e =>
    match t.pc with
    | .timedRead => return { t with pc := .afterRead (timedRead e), arrived := t.arrived ++ e.frames }
    | _ => .error .blocked
  | .checkQuit =>
    match t.pc with
    | .checkQuit => return { t with pc := if t.quit then .returned else .timedRead }
    | _ => .error .blocked
  | .ask =>
    match t.pc, t.c.ctl with
    | .ask pkt, .idle => return { t with pc := if virtioNetCanWritePacket t.c.s then .write pkt else .timedRead }
    | _, _ => .error .blocked
  | .write =>
    match t.pc with
    | .write pkt => do
      let c ← netStep t.c (.rx pkt)
      return { t with c, pc := .timedRead, delivered := t.note c pkt }
    | _ => .error .blocked
  | .stop => return { t with quit := true }
  | .publish k => do
    let idx := UInt16.ofNat (t.avail.length + k)
    let c ← netStep t.c (.dev (.guest (t.qs.availAddr.toNat + 2) (leBytes 2 idx.toNat)))
    return { t with c, avail := t.avail ++ (nextHeads t.mem t.qs t.avail.length k).map (posting t.mem t.qs) }
  | .consume =>
    if usedIdx t.mem t.qs = .ofNat t.consumed then
      .error .blocked
    else
      match t.nextEntry with
      | none => .error .blocked
      | some e => return { t with received := t.received ++ [e] }

/-! ## What the driver has to respect -/

/-- The chain is well formed and has the buffers that the driver knows of. -/
def Stands (m : GuestMemMap) (qs : QueueState) (x : Posting) : Prop :=
  Posted m qs x.head 0 ∧ posting m qs x.head = x

instance (m : GuestMemMap) (qs : QueueState) (x : Posting) : Decidable (Stands m qs x) :=
  inferInstanceAs (Decidable (_ ∧ _))

/-- The buffers lie in guest memory, off the table and the rings of the queue, and apart from each other. -/
@[mk_iff]
structure Placed (size : Nat) (qs : QueueState) (x : Posting) : Prop where
  inside : ∀ d ∈ x.bufs, d.addr.toNat + d.len.toNat ≤ size
  table : ∀ d ∈ x.bufs, Apart d.addr.toNat d.len.toNat qs.descAddr.toNat (16 * qs.num.toNat)
  avail : ∀ d ∈ x.bufs, Apart d.addr.toNat d.len.toNat qs.availAddr.toNat (4 + 2 * qs.num.toNat)
  used : ∀ d ∈ x.bufs, Apart d.addr.toNat d.len.toNat qs.usedAddr.toNat (4 + 8 * qs.num.toNat)
  apart : x.bufs.Pairwise BufApart

instance (size : Nat) (qs : QueueState) (x : Posting) : Decidable (Placed size qs x) :=
  decidable_of_iff' _ (placed_iff size qs x)

/-- The buffers of two chains are apart from each other. -/
def Separate (x y : Posting) : Prop :=
  ∀ d ∈ x.bufs, ∀ e ∈ y.bufs, BufApart d e

instance (x y : Posting) : Decidable (Separate x y) :=
  inferInstanceAs (Decidable (∀ d ∈ _, ∀ e ∈ _, _))

/-- A guest memory in which all that the device and the driver still have to read is as it was: their entries
in the rings, the chains not yet popped, and the data delivered and not yet read. -/
@[mk_iff]
structure KeepsRx (t : RxMachine) (m : GuestMemMap) : Prop where
  rings : KeepsRings t.mem m t.qs t.avail.length t.delivered.length t.delivered.length t.consumed
  lens : ∀ i < t.delivered.length, t.consumed ≤ i →
    usedLen m t.qs (i % t.qs.num.toNat) = usedLen t.mem t.qs (i % t.qs.num.toNat)
  chains : ∀ x ∈ t.avail.drop t.delivered.length, chain m t.qs x.head = chain t.mem t.qs x.head
  bytes : ∀ i < t.delivered.length, t.consumed ≤ i → ∀ x ∈ t.avail[i]?, gather m x.bufs = gather t.mem x.bufs

instance (t : RxMachine) (m : GuestMemMap) : Decidable (KeepsRx t m) :=
  decidable_of_iff' _ (keepsRx_iff t m)

/-- An action of the guest that leaves the receive queue alone: its registers are not written, and no store
hits what is still to be read. -/
def LeavesRx (t : RxMachine) (a : DevAct) : Prop :=
  ∀ c ∈ (netStep t.c (.dev a)).toOption, c.s.queue 0 = t.qs ∧ KeepsRx t c.s.mem

instance (t : RxMachine) (a : DevAct) : Decidable (LeavesRx t a) :=
  inferInstanceAs (Decidable (∀ c ∈ _, _ ∧ _))

/-- The byte belongs neither to the rings of the receive queue nor to an outstanding chain. -/
def OffRx (t : RxMachine) (p : Nat) : Prop :=
  p ∉ tableSpan t.qs ∧ p ∉ availSpan t.qs ∧ p ∉ usedSpan t.qs ∧
    ∀ x ∈ t.outstanding, ∀ d ∈ x.bufs, p ∉ Set.Ico d.addr.toNat (d.addr.toNat + d.len.toNat)

instance (t : RxMachine) (p : Nat) : Decidable (OffRx t p) :=
  inferInstanceAs (Decidable (p ∉ Set.Ico _ _ ∧ p ∉ Set.Ico _ _ ∧ p ∉ Set.Ico _ _ ∧ ∀ x ∈ _, ∀ d ∈ _, p ∉ Set.Ico _ _))

/-- What a conforming driver does. For a round of `queue_notify` the next entry of the used ring of the
transmit queue has a place of its own. -/
def Conforms (t : RxMachine) : RxAct → Prop
  | .dev .done | .event _ | .checkQuit | .ask | .write | .stop | .consume => True
  | .dev .round => ∀ p ∈ usedTouched t.mem (t.c.s.queue 1), OffRx t p
  | .dev a => LeavesRx t a
  | .publish k =>
    let new := (nextHeads t.mem t.qs t.avail.length k).map (posting t.mem t.qs)
    t.avail.length + k ≤ t.consumed + t.qs.num.toNat ∧
      (∀ x ∈ new, Stands t.mem t.qs x ∧ Placed t.mem.size t.qs x) ∧ (t.outstanding ++ new).Pairwise Separate

instance (t : RxMachine) : (a : RxAct) → Decidable (Conforms t a)
  | .dev .done | .event _ | .checkQuit | .ask | .write | .stop | .consume => .isTrue trivial
  | .dev .round => inferInstanceAs (Decidable (∀ p ∈ _, _))
  | .dev (.guest ..) | .dev (.mmioRead ..) | .dev (.mmioWrite ..) | .dev (.ioeventfd ..) =>
    inferInstanceAs (Decidable (LeavesRx t _))
  | .publish _ => inferInstanceAs (Decidable (_ ∧ _ ∧ _))

/-- The receive queue is set up and nothing has happened on it. -/
@[mk_iff]
structure Start (c : NetMachine) : Prop where
  idle : c.ctl = .idle
  ring : RingOk c.s.mem.size (c.s.queue 0)
  max : (c.s.queue 0).num.toNat ≤ virtioNetMaxQueueNum
  manual : (c.s.queue 0).manualRecv = true
  availIdx : virtioRead16 c.s.mem ((c.s.queue 0).availAddr + 2) = 0
  last : (c.s.queue 0).lastAvailIdx = 0
  usedIdx : usedIdx c.s.mem (c.s.queue 0) = 0

instance (c : NetMachine) : Decidable (Start c) :=
  decidable_of_iff' _ (start_iff c)

/-- The thread has been started and the driver has not done anything yet. -/
def rxInit (c : NetMachine) : RxMachine :=
  ⟨c, .timedRead, false, [], [], [], []⟩

variable {t t' : RxMachine} {c c' : NetMachine} {m m' : GuestMemMap} {qs : QueueState} {x y : Posting} {i : Nat}
  {e : Nat × List UInt8} {pkt : List UInt8}

/-- There is a head for each chain made available. -/
@[simp]
lemma RxMachine.heads_length : t.heads.length = t.avail.length :=
  List.length_map _

/-- There is an entry in the used ring for each frame delivered. -/
@[simp]
lemma RxMachine.used_length : t.used.length = t.delivered.length :=
  List.length_map _

/-! ## The guest memory -/

/-- An entry of the used ring whose data the driver has not read. -/
def Holding (m : GuestMemMap) (qs : QueueState) (i : Nat) (x : Posting) (e : Nat × List UInt8) : Prop :=
  usedLen m qs (i % qs.num.toNat) = e.2.length ∧ (gather m x.bufs).take e.2.length = e.2

/-- What the guest memory holds in every state of a conforming run. -/
structure Memory (t : RxMachine) : Prop where
  rings : Rings t.mem t.qs t.heads t.used t.used.length t.consumed
  stands : ∀ x ∈ t.avail.drop t.delivered.length, Stands t.mem t.qs x
  placed : ∀ x ∈ t.outstanding, Placed t.mem.size t.qs x
  separate : t.outstanding.Pairwise Separate
  order : t.used <+: t.heads
  data : ∀ i x e, t.consumed ≤ i → t.avail[i]? = some x → t.delivered[i]? = some e → Holding t.mem t.qs i x e

/-- A frame stays in its chain as long as its entry and its buffers do. -/
lemma Holding.congr (h : Holding m qs i x e)
    (len : usedLen m' qs (i % qs.num.toNat) = usedLen m qs (i % qs.num.toNat))
    (bytes : gather m' x.bufs = gather m x.bufs) : Holding m' qs i x e := by
  rw [Holding, len, bytes]
  exact h

/-- A chain stands as long as its descriptors can be read as before. -/
lemma Stands.congr (h : Stands m qs x) (e : chain m' qs x.head = chain m qs x.head) : Stands m' qs x := by
  simp only [Stands, Posted, posting] at h ⊢
  rw [e]
  exact h

/-- A chain that the driver has not got back is outstanding. -/
lemma mem_outstanding (le : t.consumed ≤ i) (hx : t.avail[i]? = some x) : x ∈ t.outstanding := by
  refine List.mem_of_getElem? (i := i - t.consumed) ?_
  rw [RxMachine.outstanding, List.getElem?_drop, Nat.add_sub_cancel' le, hx]

/-- Outstanding chains are apart from each other. -/
lemma Memory.apart (h : Memory t) {j : Nat} (le : t.consumed ≤ i) (lt : i < j) (hx : t.avail[i]? = some x)
    (hy : t.avail[j]? = some y) : Separate x y := by
  have sep := List.pairwise_iff_getElem.mp h.separate (i - t.consumed) (j - t.consumed)
  simp only [RxMachine.outstanding, List.getElem_drop] at sep
  obtain ⟨hi, rfl⟩ := List.getElem?_eq_some_iff.mp hx
  obtain ⟨hj, rfl⟩ := List.getElem?_eq_some_iff.mp hy
  have sep := sep (by rw [List.length_drop]; omega) (by rw [List.length_drop]; omega) (by omega)
  simpa only [Nat.add_sub_cancel' le, Nat.add_sub_cancel' (le.trans lt.le)] using sep

/-- A memory that agrees on the rings of the queue and on the outstanding chains keeps all that matters. -/
lemma Memory.keeps (h : Memory t) (size : m.size = t.mem.size)
    (eq : ∀ p, ¬ OffRx t p → m.hostMem p = t.mem.hostMem p) : KeepsRx t m := by
  have ok := h.rings.ring
  have table : Set.EqOn m.hostMem t.mem.hostMem (tableSpan t.qs) := fun p hp => eq p fun off => off.1 hp
  have avail : Set.EqOn m.hostMem t.mem.hostMem (availSpan t.qs) := fun p hp => eq p fun off => off.2.1 hp
  have used : Set.EqOn m.hostMem t.mem.hostMem (usedSpan t.qs) := fun p hp => eq p fun off => off.2.2.1 hp
  constructor
  case rings => exact .of_eqOn ok size avail used
  case lens => exact fun i _ _ => usedLen_congr used (Nat.mod_lt i ok.num_pos)
  case chains => exact fun x _ => chain_congr ok.table size table
  case bytes =>
    intro i _ le x hx
    exact gather_congr fun d hd p hp => eq p fun off => off.2.2.2 x (mem_outstanding le hx) d hd hp

/-- A step that leaves alone what is still to be read. -/
lemma Memory.keep (h : Memory t) (queue : c'.s.queue 0 = t.qs) (size : c'.s.mem.size = t.mem.size)
    (keeps : KeepsRx t c'.s.mem) : Memory { t with c := c' } := by
  have eq : ({ t with c := c' } : RxMachine).qs = t.qs := queue
  constructor
  case rings =>
    rw [eq]
    refine h.rings.keep size ?_
    rw [RxMachine.heads_length, RxMachine.used_length]
    exact keeps.rings
  case stands =>
    intro x hx
    rw [eq]
    exact (h.stands x hx).congr (keeps.chains x hx)
  case placed =>
    intro x hx
    rw [eq, show ({ t with c := c' } : RxMachine).mem.size = t.mem.size from size]
    exact h.placed x hx
  case separate => exact h.separate
  case order => exact h.order
  case data =>
    intro i x e le hx he
    have lt := (List.getElem?_eq_some_iff.mp he).1
    rw [eq]
    exact (h.data i x e le hx he).congr (keeps.lens i lt le) (keeps.bytes i lt le x hx)

/-! ## Steps of the driver -/

/-- The state after chains were made available. -/
def published (t : RxMachine) (k : Nat) : RxMachine :=
  { t with
    c.s.mem := publishAvail t.mem t.qs (.ofNat (t.avail.length + k)),
    avail := t.avail ++ (nextHeads t.mem t.qs t.avail.length k).map (posting t.mem t.qs) }

/-- The driver makes chains available. -/
lemma rxStep_publish {k : Nat} (st : rxStep t (.publish k) = .ok t') : t' = published t k := by
  obtain ⟨c', step, st⟩ := bind_eq_ok.mp st
  cases st
  have eff : DevEffect virtioNetRecvRequest t.c (.guest (t.qs.availAddr.toNat + 2)
      (leBytes 2 (UInt16.ofNat (t.avail.length + k)).toNat)) c' := devStep_effect step
  cases eff with
  | guest inside => rfl
  | start idle yes => cases yes

/-- The heads that the driver makes available are the next ones in the ring. -/
lemma published_heads {k : Nat} : (published t k).heads = t.heads ++ nextHeads t.mem t.qs t.avail.length k := by
  simp [published, RxMachine.heads, posting, Function.comp_def]

/-- The driver's store into the available ring keeps the data that was delivered. -/
lemma gather_publishAvail {v : UInt16} (ok : RingOk m.size qs) (placed : Placed m.size qs x) :
    gather (publishAvail m qs v) x.bufs = gather m x.bufs :=
  gather_congr fun d hd => (publishAvail_frame ok).mono (placed.avail d hd).subset_compl

/-- Making chains available. -/
lemma Memory.publish (h : Memory t) {k : Nat} (guard : Conforms t (.publish k)) : Memory (published t k) := by
  obtain ⟨room, good, sep⟩ := guard
  have ok := h.rings.ring
  have le : t.delivered.length ≤ t.avail.length := by
    have le := h.rings.popped_le
    rwa [RxMachine.heads_length, RxMachine.used_length] at le
  have cle : t.consumed ≤ t.delivered.length := h.rings.consumed_le.trans (by simp)
  have out : (published t k).outstanding =
      t.outstanding ++ (nextHeads t.mem t.qs t.avail.length k).map (posting t.mem t.qs) :=
    List.drop_append_of_le_length (cle.trans le)
  constructor
  case rings =>
    rw [published_heads]
    have rings := h.rings.publish (k := k) (by rw [RxMachine.heads_length]; exact room)
    rw [RxMachine.heads_length] at rings
    exact rings
  case stands =>
    intro x hx
    have stands : Stands t.mem t.qs x := by
      have hx : x ∈ (t.avail ++ (nextHeads t.mem t.qs t.avail.length k).map (posting t.mem t.qs)).drop
        t.delivered.length := hx
      rw [List.drop_append_of_le_length le] at hx
      rcases List.mem_append.mp hx with hx | hx
      · exact h.stands x hx
      · exact (good x hx).1
    exact stands.congr (chain_publishAvail ok)
  case placed =>
    intro x hx
    rw [out] at hx
    rcases List.mem_append.mp hx with hx | hx
    · exact h.placed x hx
    · exact (good x hx).2
  case separate => rw [out]; exact sep
  case order => rw [published_heads]; exact h.order.trans (List.prefix_append _ _)
  case data =>
    intro i x e ge hx he
    have lt : i < t.avail.length := (List.getElem?_eq_some_iff.mp he).1.trans_le le
    have hx : t.avail[i]? = some x := by rw [← hx]; exact (List.getElem?_append_left lt).symm
    refine (h.data i x e ge hx he).congr ?_ (gather_publishAvail ok (h.placed x (mem_outstanding ge hx)))
    exact usedLen_congr (publishAvail_eqOn_used ok) (Nat.mod_lt i ok.num_pos)

section Facts
variable (h : Memory t)
include h

/-- The driver has read no more frames than were delivered. -/
lemma Memory.consumed_le : t.consumed ≤ t.delivered.length := by
  have le := h.rings.consumed_le
  rwa [RxMachine.used_length] at le

/-- Entries are answered in the order in which chains were made available. -/
lemma Memory.head_eq (he : t.delivered[i]? = some e) : ∃ x, t.avail[i]? = some x ∧ x.head = e.1 := by
  have used : t.used[i]? = some e.1 := by rw [RxMachine.used, List.getElem?_map, he]; rfl
  obtain ⟨lt, -⟩ := List.getElem?_eq_some_iff.mp he
  have heads : t.heads[i]? = some e.1 := by
    obtain ⟨r, eq⟩ := h.order
    rw [← eq, List.getElem?_append_left (by rwa [RxMachine.used_length]), used]
  rw [RxMachine.heads, List.getElem?_map] at heads
  exact Option.map_eq_some_iff.mp heads

/-- What the driver reads next is what was delivered next. -/
lemma Memory.nextEntry (lt : t.consumed < t.delivered.length) : t.nextEntry = t.delivered[t.consumed]? := by
  obtain ⟨e, he⟩ : ∃ e, t.delivered[t.consumed]? = some e := ⟨_, List.getElem?_eq_getElem lt⟩
  obtain ⟨x, hx, head⟩ := h.head_eq he
  have id := h.rings.ids t.consumed le_rfl (by rwa [RxMachine.used_length])
  rw [RxMachine.used, List.getElem?_map, he, Option.map_some, Option.some.injEq] at id
  obtain ⟨len, bytes⟩ := h.data _ x e le_rfl hx he
  obtain ⟨lt', rfl⟩ := List.getElem?_eq_some_iff.mp hx
  rw [RxMachine.nextEntry, RxMachine.outstanding, List.drop_eq_getElem_cons lt', ← id, len,
    List.find?_cons_of_pos (by simpa using head), he, Option.map_some, bytes, head]

/-- The driver reads an answer. -/
lemma Memory.consume (lt : t.consumed < t.delivered.length) {e : Nat × List UInt8} :
    Memory { t with received := t.received ++ [e] } := by
  have len : ({ t with received := t.received ++ [e] } : RxMachine).consumed = t.consumed + 1 := by
    simp [RxMachine.consumed]
  have out : ({ t with received := t.received ++ [e] } : RxMachine).outstanding = t.outstanding.tail := by
    simp only [RxMachine.outstanding, len, List.tail_drop]
  constructor
  case rings =>
    rw [len]
    exact h.rings.consume (by rwa [RxMachine.used_length])
  case stands => exact h.stands
  case placed =>
    intro x hx
    rw [out] at hx
    exact h.placed x (List.mem_of_mem_tail hx)
  case separate => rw [out]; exact h.separate.tail
  case order => exact h.order
  case data =>
    intro i x e le hx he
    rw [len] at le
    exact h.data i x e (by omega) hx he

end Facts

/-! ## Handing over a frame -/

/-- A chain that stands on a queue that is not too long is well formed. -/
lemma Stands.chainOk (h : Stands m qs x) (max : qs.num.toNat < loopMax) : ∃ R, ChainOk m qs x.head R x.bufs := by
  obtain ⟨⟨l, hl, writable, tot, -⟩, eq⟩ := h
  have bufs : x.bufs = writablePart l := by
    rw [← eq, posting, show chain m qs x.head = some l from hl]
    rfl
  have split := readablePart_append_writablePart l
  rw [bufs]
  refine ⟨readablePart l, ⟨?_, fun _ => readablePart_readable, writable, ?_, ?_⟩⟩
  · rw [split]
    exact hl
  · rw [← total_append, split]
    exact tot
  · rw [← List.length_append, split]
    exact (chain_some hl).2.trans_lt max

/-- The guest memory after both copies of a frame. -/
def rxMem (m : GuestMemMap) (W : List VirtioDesc) (pkt : List UInt8) : GuestMemMap :=
  scatterAt m W 0 (withHeader pkt)

/-- The device after a frame was handed over. -/
def handOver (s : VirtioNetDevice) (x : Posting) (pkt : List UInt8) : VirtioNetDevice :=
  (virtioConsumeDesc { s with mem := rxMem s.mem x.bufs pkt } 0 x.head
    ((headerSize + pkt.length : Nat) : Int)).updQueue 0 QueueState.advanced

variable {s : VirtioNetDevice} {R : List VirtioDesc}

/-- The buffers of a chain lie in guest memory. -/
lemma Placed.bufInside (placed : Placed m.size qs x) : BufInside m x.bufs :=
  .of_le placed.inside

/-- A well-formed chain with its buffers in place can take a frame that fits in. -/
lemma Placed.receivable (placed : Placed s.mem.size (s.queue 0) x) (ok : RingOk s.mem.size (s.queue 0))
    (head : nextHead s 0 = x.head) (chain : ChainOk s.mem (s.queue 0) x.head R x.bufs)
    (fits : headerSize + pkt.length ≤ total x.bufs) : Receivable s R x.bufs pkt := by
  have len := chain.length
  have tot := chain.total
  have inside := placed.bufInside
  have clear := chain.clear ok.table inside placed.table
  constructor
  case room => exact fits
  case lens => exact fun d hd => (len_le_total hd).trans_lt (by omega)
  case skip => omega
  case header => exact near_of_length (by omega) (by decide) (by omega)
  case packet => exact fun some => near_of_length (by omega) some fits
  case clear => exact clear.rest
  case reread =>
    intro _ idx hi i lt mem
    obtain ⟨d, hd, hp⟩ := byteAddr_mem (show i < total x.bufs by omega)
    rw [head] at hi
    exact Set.disjoint_left.mp (clear idx hi d hd) mem hp
  case apart => exact (byteAddr_injOn placed.apart).mono fun i hi => lt_of_lt_of_le hi fits
  case used =>
    intro i lt mem
    obtain ⟨d, hd, hp⟩ := byteAddr_mem (show i < total x.bufs by omega)
    exact (placed.used d hd).notMem_bufSpan (inside d hd) (ok.usedTouched_subset mem) hp

/-- The guest memory after a frame has been handed over. -/
lemma handOver_mem : (handOver s x pkt).mem =
    publishUsed (rxMem s.mem x.bufs pkt) (s.queue 0) x.head ((headerSize + pkt.length : Nat) : Int) :=
  virtioConsumeDesc_mem

/-- A frame that is handed over pops its chain. -/
lemma handOver_queue : (handOver s x pkt).queue 0 = (s.queue 0).advanced := by
  simp [handOver, VirtioDevice.updQueue, virtioConsumeDesc_queue]

/-- The copies leave alone what is apart from the buffers of the chain. -/
lemma rxMem_eqOn {a n : Nat} (inside : BufInside s.mem x.bufs)
    (off : ∀ d ∈ x.bufs, Apart d.addr.toNat d.len.toNat a n) :
    Set.EqOn (rxMem s.mem x.bufs pkt).hostMem s.mem.hostMem (Set.Ico a (a + n)) :=
  fun _ hp => scatterAt_outside inside fun d hd => (off d hd).notMem_bufSpan (inside d hd) hp

/-- A frame that fits in is handed over. -/
lemma virtioNetWritePacket_handOver (can : virtioNetCanWritePacket s = true) (head : nextHead s 0 = x.head)
    (chain : ChainOk s.mem (s.queue 0) x.head R x.bufs) (inside : BufInside s.mem x.bufs)
    (rx : Receivable s R x.bufs pkt) : virtioNetWritePacket s pkt = .ok (handOver s x pkt) := by
  have tot := chain.total
  have room := rx.room
  obtain ⟨m, stored, run⟩ := virtioNetWritePacket_taken can (head ▸ chain.isChain) chain.readable chain.writable
    (by omega) (by rw [i32_of_range (by omega) (by omega)]; omega) (List.append_nil x.bufs).symm rx
  obtain rfl : m = rxMem s.mem x.bufs pkt := stored.eq (inside.bytes (by rw [withHeader_length]; omega))
  rw [run, answerPacket, head]
  rfl

/-- One that is too large is dropped. -/
lemma virtioNetWritePacket_large (can : virtioNetCanWritePacket s = true) (head : nextHead s 0 = x.head)
    (chain : ChainOk s.mem (s.queue 0) x.head R x.bufs) (small : pkt.length ≤ tapBufSize)
    (large : ¬ headerSize + pkt.length ≤ total x.bufs) : virtioNetWritePacket s pkt = .ok s := by
  refine virtioNetWritePacket_dropped can (head ▸ getDescRwSize_chain chain) fun r hr => ?_
  have bound : tapBufSize = 4096 := rfl
  have header : headerSize = 12 := rfl
  rw [← Option.some.inj hr, i32_of_range (by omega) (by omega)]
  simp only
  omega

/-- The state after a frame was handed over. -/
def handed (t : RxMachine) (x : Posting) (pkt : List UInt8) : RxMachine :=
  { t with
    c.s := handOver t.c.s x pkt,
    pc := .timedRead,
    delivered := t.delivered ++ [(x.head, withHeader pkt)] }

/-- A pop does not change how a chain reads. -/
lemma Stands.advanced (h : Stands m qs x) : Stands m qs.advanced x := by
  simp only [Stands, Posted, posting, chain_advanced] at h ⊢
  exact h

/-- A pop does not move the rings that a chain is placed apart from. -/
lemma Placed.advanced {size : Nat} (h : Placed size qs x) : Placed size qs.advanced x :=
  ⟨h.inside, h.table, h.avail, h.used, h.apart⟩

/-- The chain that the device pops next. -/
lemma Memory.next (h : Memory t) (max : t.qs.num.toNat ≤ virtioNetMaxQueueNum)
    (hx : t.avail[t.delivered.length]? = some x) :
    nextHead t.c.s 0 = x.head ∧ ∃ R, ChainOk t.mem t.qs x.head R x.bufs ∧
      ∀ pkt : List UInt8, headerSize + pkt.length ≤ total x.bufs → Receivable t.c.s R x.bufs pkt := by
  obtain ⟨lt, eq⟩ := List.getElem?_eq_some_iff.mp hx
  have head : nextHead t.c.s 0 = x.head := by
    have next := h.rings.next (by rwa [RxMachine.heads_length, RxMachine.used_length])
    rw [RxMachine.used_length, RxMachine.heads, List.getElem?_map, hx] at next
    exact (Option.some.inj next).symm
  have small : virtioNetMaxQueueNum < loopMax := by decide
  have mem : x ∈ t.avail.drop t.delivered.length := by
    rw [List.drop_eq_getElem_cons lt, eq]
    exact List.mem_cons_self
  obtain ⟨R, chain⟩ := (h.stands x mem).chainOk (by omega)
  have placed := h.placed x (mem_outstanding h.consumed_le hx)
  exact ⟨head, R, chain, fun _ => placed.receivable h.rings.ring head chain⟩

section HandOver
variable (ok : RingOk s.mem.size (s.queue 0)) (placed : Placed s.mem.size (s.queue 0) x)

/-- Handing over a frame keeps the size of the memory. -/
lemma handOver_size : (handOver s x pkt).mem.size = s.mem.size := by
  rw [handOver_mem, publishUsed_size, rxMem, scatterAt_size]

include ok

/-- The copies keep the layout of the queue. -/
lemma ringOk_rxMem : RingOk (rxMem s.mem x.bufs pkt).size (s.queue 0) := by
  rwa [rxMem, scatterAt_size]

include placed

/-- What is apart from the buffers of the chain and from the used ring stays as it was. -/
lemma handOver_frame {p : Nat} (off : ∀ d ∈ x.bufs, p ∉ bufSpan d) (offUsed : p ∉ usedSpan (s.queue 0)) :
    (handOver s x pkt).mem.hostMem p = s.mem.hostMem p := by
  rw [handOver_mem, publishUsed_frame (ringOk_rxMem ok) offUsed]
  exact scatterAt_outside placed.bufInside off

/-- The chains stay as they were. -/
lemma chain_handOver {head : Nat} : chain (handOver s x pkt).mem (s.queue 0) head = chain s.mem (s.queue 0) head := by
  refine chain_congr ok.table handOver_size fun p hp => handOver_frame ok placed (fun d hd => ?_) ?_
  · exact (placed.table d hd).notMem_bufSpan (placed.bufInside d hd) hp
  · exact ok.descUsed.subset_compl hp

/-- The copies leave the rings alone. -/
lemma keepsRings_rxMem {a u p c : Nat} : KeepsRings s.mem (rxMem s.mem x.bufs pkt) (s.queue 0) a u p c :=
  .of_eqOn ok scatterAt_size (rxMem_eqOn placed.bufInside placed.avail) (rxMem_eqOn placed.bufInside placed.used)

/-- Entries in other cells keep their lengths. -/
lemma usedLen_handOver {k : Nat} (h : k < (s.queue 0).num.toNat) (ne : k ≠ usedCell s.mem (s.queue 0)) :
    usedLen (handOver s x pkt).mem (s.queue 0) k = usedLen s.mem (s.queue 0) k := by
  have used : Set.EqOn (rxMem s.mem x.bufs pkt).hostMem _ _ := rxMem_eqOn placed.bufInside placed.used
  have cell : usedCell (rxMem s.mem x.bufs pkt) (s.queue 0) = usedCell s.mem (s.queue 0) := by
    have index : usedIdx (rxMem s.mem x.bufs pkt) (s.queue 0) = _ := usedIdx_congr ok scatterAt_size used
    rw [usedCell, index, usedCell]
  rw [handOver_mem, (ringOk_rxMem ok).usedInside.usedLen_publishUsed_other (cell ▸ ne), usedLen_congr used h]

/-- Other chains keep their data. -/
lemma gather_handOver (off : Placed s.mem.size (s.queue 0) y) (sep : Separate y x) :
    gather (handOver s x pkt).mem y.bufs = gather s.mem y.bufs := by
  refine gather_congr fun d hd p hp => handOver_frame ok placed (fun e he => ?_) ((off.used d hd).subset_compl hp)
  exact Set.disjoint_left.mp (sep d hd e he) ((mem_bufSpan (off.bufInside d hd)).mpr hp)

/-- The frame is in its chain, and its length in the next cell. -/
lemma holding_handOver {n : Nat} (head : nextHead s 0 = x.head) (tot : total x.bufs < 2 ^ 31)
    (rx : Receivable s R x.bufs pkt) (cell : usedCell s.mem (s.queue 0) = n % (s.queue 0).num.toNat) :
    Holding (handOver s x pkt).mem (s.queue 0) n x (x.head, withHeader pkt) := by
  have room := rx.room
  have inside : BytesInside s.mem x.bufs 0 (headerSize + pkt.length) := placed.bufInside.bytes (by omega)
  have stored : Stored s.mem (rxMem s.mem x.bufs pkt) x.bufs 0 (withHeader pkt) :=
    .of_inside (by rwa [withHeader_length])
  have done := rx.delivered (by omega) stored inside ok.usedInside
  have same : answerPacket s (rxMem s.mem x.bufs pkt) pkt = handOver s x pkt := by
    rw [answerPacket, head]
    rfl
  rw [same] at done
  constructor
  · rw [withHeader_length, ← cell]
    exact done.published.len
  · rw [withHeader_length]
    exact done.bytes

end HandOver

/-- Handing over a frame keeps the guest memory in order. -/
lemma Memory.handOver (h : Memory t) (hx : t.avail[t.delivered.length]? = some x)
    (head : nextHead t.c.s 0 = x.head) (chain : ChainOk t.mem t.qs x.head R x.bufs)
    (rx : Receivable t.c.s R x.bufs pkt) : Memory (handed t x pkt) := by
  have ok := h.rings.ring
  have lt := (List.getElem?_eq_some_iff.mp hx).1
  have placed := h.placed x (mem_outstanding h.consumed_le hx)
  have eq : (handed t x pkt).qs = t.qs.advanced := handOver_queue
  have eu : (handed t x pkt).used = t.used ++ [x.head] := List.map_append
  have ed : (handed t x pkt).delivered = t.delivered ++ [(x.head, withHeader pkt)] := rfl
  have cell : usedCell t.mem t.qs = t.delivered.length % t.qs.num.toNat := by
    rw [ok.usedCell, h.rings.usedCount, ok.cell, RxMachine.used_length]
  constructor
  case rings =>
    rw [eq, show (handed t x pkt).mem = _ from handOver_mem, eu, List.length_append, List.length_singleton]
    refine Rings.answer (Rings.pop (h.rings.keep scatterAt_size (keepsRings_rxMem ok placed)) ?_)
      (Nat.lt_succ_self _) (chain_some chain.chain).1
    rwa [RxMachine.heads_length, RxMachine.used_length]
  case stands =>
    intro y hy
    rw [ed, List.length_append, List.length_singleton, ← List.drop_drop] at hy
    rw [eq]
    exact ((h.stands y (List.mem_of_mem_drop hy)).congr (chain_handOver ok placed)).advanced
  case placed =>
    intro y hy
    rw [eq, show (handed t x pkt).mem.size = t.mem.size from handOver_size]
    exact (h.placed y hy).advanced
  case separate => exact h.separate
  case order =>
    rw [eu]
    refine Fifo.append_next h.order ?_
    rw [RxMachine.used_length, show (handed t x pkt).heads = t.heads from rfl, RxMachine.heads, List.getElem?_map, hx]
    rfl
  case data =>
    intro i y e ge hy he
    have ge : t.consumed ≤ i := ge
    rw [ed] at he
    rw [eq]
    change Holding (Rx.handOver t.c.s x pkt).mem t.qs i y e
    rcases Nat.lt_or_ge i t.delivered.length with old | new
    · rw [List.getElem?_append_left old] at he
      have room := h.rings.room
      rw [RxMachine.heads_length] at room
      -- At most `num` chains are outstanding, so that the new entry goes to another cell.
      have ne : i % t.qs.num.toNat ≠ usedCell t.mem t.qs := by
        rw [cell]
        exact cell_ne old (by omega)
      exact (h.data i y e ge hy he).congr (usedLen_handOver ok placed (Nat.mod_lt i ok.num_pos) ne)
        (gather_handOver ok placed (h.placed y (mem_outstanding ge hy)) (h.apart ge old hy hx))
    · obtain rfl : i = t.delivered.length := by
        have bound := (List.getElem?_eq_some_iff.mp he).1
        rw [List.length_append, List.length_singleton] at bound
        omega
      rw [List.getElem?_concat_length, Option.some.injEq] at he
      obtain rfl : x = y := Option.some.inj (hx.symm.trans hy)
      subst he
      have tot := chain.total
      exact holding_handOver ok placed head (by omega) rx cell

/-! ## Runs -/

/-- What holds in every state of a conforming run. -/
structure Inv (t : RxMachine) : Prop where
  memory : Memory t
  max : t.qs.num.toNat ≤ virtioNetMaxQueueNum
  manual : t.qs.manualRecv = true
  received : t.received <+: t.delivered
  /-- The frame that the thread is dealing with is the last that arrived. -/
  frames : ∃ l, t.arrived.map readFrame = l ++ t.pc.pending ∧ t.frames.Sublist l
  small : ∀ pkt ∈ t.pc.pending, pkt.length ≤ tapBufSize
  /-- What the thread was told when it asked still holds. -/
  can : ∀ pkt, t.pc = .write pkt → t.qs.ready ≠ 0 ∧ t.delivered.length < t.avail.length
  ctl : ∀ q a w, t.c.ctl = .notify q a w → q = 1

/-- The invariant holds when the receive thread starts. -/
lemma inv_init (h : Start c) : Inv (rxInit c) where
  memory :=
    { rings := .init h.ring h.availIdx h.last h.usedIdx
      stands := by simp [rxInit]
      placed := by simp [rxInit, RxMachine.outstanding]
      separate := by simp [rxInit, RxMachine.outstanding]
      order := List.prefix_rfl
      data := by simp [rxInit] }
  max := h.max
  manual := h.manual
  received := List.prefix_rfl
  frames := ⟨[], rfl, List.Sublist.refl []⟩
  small := by simp [rxInit, RxPc.pending]
  can := by simp [rxInit]
  ctl := by
    intro q a w e
    rw [show (rxInit c).c.ctl = .idle from h.idle] at e
    cases e

/-- The thread may write if the queue is ready and a chain is available. -/
lemma Memory.can_iff (h : Memory t) :
    virtioNetCanWritePacket t.c.s = true ↔ t.qs.ready ≠ 0 ∧ t.delivered.length < t.avail.length := by
  have avail : Virtio.availIdx t.c.s 0 = .ofNat t.heads.length := h.rings.availCount
  have ne := h.rings.last_ne h.rings.popped_le le_rfl
  rw [← avail, RxMachine.heads_length, RxMachine.used_length] at ne
  simp only [virtioNetCanWritePacket, Bool.and_eq_true, bne_iff_ne]
  exact and_congr_right fun _ => ne

/-- A step that leaves the receive queue alone keeps the invariant. -/
lemma Inv.keep (h : Inv t) (queue : c'.s.queue 0 = t.qs) (size : c'.s.mem.size = t.mem.size)
    (keeps : KeepsRx t c'.s.mem) (ctl : ∀ q a w, c'.ctl = .notify q a w → q = 1) : Inv { t with c := c' } := by
  have eq : ({ t with c := c' } : RxMachine).qs = t.qs := queue
  exact
    { h with
      memory := h.memory.keep queue size keeps
      max := by rw [eq]; exact h.max
      manual := by rw [eq]; exact h.manual
      can := by rw [eq]; exact h.can
      ctl }

/-- A step that leaves the receive queue alone. -/
lemma LeavesRx.of_ok {b : DevAct} (h : LeavesRx t b) (st : netStep t.c (.dev b) = .ok c') :
    c'.s.queue 0 = t.qs ∧ KeepsRx t c'.s.mem :=
  h c' (by rw [st]; rfl)

/-- A round for the transmit queue writes its used ring only. -/
lemma queueNotifyRound_rest {s' : VirtioNetDevice} {go : Bool}
    (h : queueNotifyRound virtioNetRecvRequest s 1 = .ok (go, s')) :
    s'.queue 0 = s.queue 0 ∧ s'.mem.size = s.mem.size ∧
      ∀ p ∉ usedTouched s.mem (s.queue 1), s'.mem.hostMem p = s.mem.hostMem p := by
  have recv : ∀ {ret s₁ readSize writeSize},
      virtioNetRecvRequest s 1 (nextHead s 1) readSize writeSize = .ok (ret, s₁) →
      s₁.queue 0 = s.queue 0 ∧ s₁.mem.size = s.mem.size ∧
        ∀ p ∉ usedTouched s.mem (s.queue 1), s₁.mem.hostMem p = s.mem.hostMem p := by
    intro ret s₁ readSize writeSize eq
    obtain ⟨-, ⟨-, rfl⟩ | ⟨dev, rfl⟩⟩ := virtioNetRecvRequest_effect eq
    · exact ⟨rfl, rfl, fun _ _ => rfl⟩
    · refine ⟨by rw [virtioConsumeDesc_queue], by rw [virtioConsumeDesc_mem, publishUsed_size], ?_⟩
      intro p hp
      rw [virtioConsumeDesc_mem]
      exact publishUsed_touched hp
  have other : ∀ s : VirtioNetDevice, ∀ head, (advance s 1 head).queue 0 = s.queue 0 := by
    intro s head
    have ne : (0 : Fin maxQueue) ≠ 1 := by decide
    simp only [advance, VirtioDevice.updQueue, Function.update_of_ne ne]
  cases queueNotifyRound_effect h with
  | skip scan => exact ⟨other _ _, rfl, fun _ _ => rfl⟩
  | pass scan eq nonneg =>
    obtain ⟨queue, size, rest⟩ := recv eq
    exact ⟨(other _ _).trans queue, size, rest⟩
  | stop scan eq neg => exact recv eq

/-- What the guest and `queue_notify` do keeps the invariant. -/
lemma Inv.dev (h : Inv t) {b : DevAct} (guard : Conforms t (.dev b)) (st : netStep t.c (.dev b) = .ok c') :
    Inv { t with c := c' } := by
  have eff : DevEffect virtioNetRecvRequest t.c b c' := devStep_effect st
  have refl : KeepsRx t t.mem := ⟨.refl, fun _ _ _ => rfl, fun _ _ => rfl, fun _ _ _ _ _ => rfl⟩
  cases eff with
  | guest _ =>
    obtain ⟨queue, keeps⟩ := LeavesRx.of_ok guard st
    exact h.keep queue rfl keeps h.ctl
  | mmioRead _ _ => exact h
  | @mmioWrite offset val size _ _ =>
    obtain ⟨queue, keeps⟩ := LeavesRx.of_ok guard st
    have same : Untouched t.c.s (virtioMmioWriteReg t.c.s offset val size) := virtioMmioWriteReg_untouched
    exact h.keep queue (congrArg _ same.mem) keeps h.ctl
  | @start b q idle yes =>
    refine h.keep (by rw [Machine.startNotify_s]; rfl) (by rw [Machine.startNotify_s]; rfl)
      (by rw [Machine.startNotify_s]; exact refl) ?_
    intro q' a w e
    -- `queue_notify` returns at once for the receive queue.
    simp only [Machine.startNotify] at e
    split at e
    · exact h.ctl q' a w e
    · rename_i auto
      cases e
      have two : ∀ q : Fin maxQueue, q ≠ 0 → q = 1 := by decide
      exact two q fun e => auto (e ▸ h.manual)
  | @round q a w go s' ctl ne eq =>
    obtain rfl := h.ctl _ _ _ ctl
    obtain ⟨queue, size, rest⟩ := queueNotifyRound_rest eq
    refine h.keep queue size (h.memory.keeps size fun p hp => rest p fun touched => hp (guard p touched)) ?_
    intro q' a' w' e
    cases go with
    | false => cases e
    | true => exact h.ctl q' a' w' e
  | done ctl last => exact h.keep rfl rfl refl (by simp)

/-- What the thread keeps of a frame that it has not delivered. -/
lemma Inv.forget (h : Inv t) : t.frames.Sublist (t.arrived.map readFrame) := by
  obtain ⟨l, eq, sub⟩ := h.frames
  rw [eq]
  exact sub.trans (List.sublist_append_left _ _)

/-- The thread goes on without the frame that it was dealing with. -/
lemma Inv.goOn {pc : RxPc} (h : Inv t) (pending : pc.pending = []) : Inv { t with pc := pc } :=
  { h with
    memory := { h.memory with }
    frames := ⟨t.arrived.map readFrame, by rw [pending, List.append_nil], h.forget⟩
    small := by simp [pending]
    can := by
      rintro pkt rfl
      cases pending }

/-- What the thread has read of a frame. -/
lemma pending_afterRead (e : TapEvent) : (RxPc.afterRead (timedRead e)).pending = e.frames.map readFrame := by
  cases e with
  | pollFails e => cases e <;> rfl
  | timeout => rfl
  | data l => cases l <;> rfl
  | readFails e => cases e <;> rfl
  | hangup => rfl

/-- After a read the thread does not write at once. -/
lemma afterRead_ne_write {r : Except Errno (List UInt8)} : RxPc.afterRead r ≠ .write pkt := by
  unfold RxPc.afterRead
  split <;> simp

/-- The receive thread writes a frame. -/
lemma rxStep_write {s' : VirtioNetDevice} (pc : t.pc = .write pkt) (idle : t.c.ctl = .idle)
    (write : virtioNetWritePacket t.c.s pkt = .ok s') :
    rxStep t .write = .ok { t with
      c := { t.c with s := s' }, pc := .timedRead, delivered := t.note { t.c with s := s' } pkt } := by
  have step : netStep t.c (.rx pkt) = .ok { t.c with s := s' } := by
    simp only [netStep, idle, write, ok_bind]
    rfl
  simp only [rxStep, pc, step, ok_bind]
  rfl

/-- `write_packet_to_virtio`: the frame is dropped as too large for the next chain, or handed over to it. -/
lemma Inv.write_eq (h : Inv t) (pc : t.pc = .write pkt) (idle : t.c.ctl = .idle) :
    ∃ x, t.avail[t.delivered.length]? = some x ∧
      rxStep t .write = .ok (if headerSize + pkt.length ≤ total x.bufs then handed t x pkt
        else { t with pc := .timedRead }) ∧
      (headerSize + pkt.length ≤ total x.bufs → Memory (handed t x pkt)) := by
  have can := h.memory.can_iff.mpr (h.can pkt pc)
  obtain ⟨x, hx⟩ : ∃ x, t.avail[t.delivered.length]? = some x := ⟨_, List.getElem?_eq_getElem (h.can pkt pc).2⟩
  obtain ⟨head, R, chain, rx⟩ := h.memory.next h.max hx
  refine ⟨x, hx, ?_, fun fits => h.memory.handOver hx head chain (rx pkt fits)⟩
  have inside := (h.memory.placed x (mem_outstanding h.memory.consumed_le hx)).bufInside
  by_cases fits : headerSize + pkt.length ≤ total x.bufs
  · have moved : ((handOver t.c.s x pkt).queue 0).lastAvailIdx ≠ t.qs.lastAvailIdx := by
      rw [handOver_queue]
      simp [QueueState.advanced, RxMachine.qs]
    rw [rxStep_write pc idle (virtioNetWritePacket_handOver can head chain inside (rx pkt fits)), if_pos fits, RxMachine.note,
      if_neg moved, head]
    rfl
  · have small := h.small pkt (by rw [pc]; exact List.mem_singleton_self _)
    have same : t.note { t.c with s := t.c.s } pkt = t.delivered := if_pos rfl
    rw [rxStep_write pc idle (virtioNetWritePacket_large can head chain small fits), if_neg fits, same]

/-- Handing over a frame keeps the invariant. -/
lemma Inv.write (h : Inv t) (st : rxStep t .write = .ok t') : Inv t' := by
  obtain ⟨pkt, pc⟩ : ∃ pkt, t.pc = .write pkt := by
    simp only [rxStep] at st
    split at st
    · exact ⟨_, by assumption⟩
    · cases st
  have idle : t.c.ctl = .idle := by
    simp only [rxStep, pc, netStep] at st
    split at st
    · assumption
    · cases st
  obtain ⟨x, hx, eq, memory⟩ := h.write_eq pc idle
  obtain ⟨l, arrived, sub⟩ := h.frames
  rw [pc] at arrived
  rw [eq] at st
  cases st
  split
  · rename_i fits
    have queue : (handed t x pkt).qs = t.qs.advanced := handOver_queue
    constructor
    case memory => exact memory fits
    case max => rw [queue]; exact h.max
    case manual => rw [queue]; exact h.manual
    case received => exact h.received.trans (List.prefix_append _ _)
    case frames =>
      refine ⟨t.arrived.map readFrame, (List.append_nil _).symm, ?_⟩
      rw [show (handed t x pkt).frames = t.frames ++ [pkt] by
        simp [handed, RxMachine.frames, withHeader], arrived]
      exact sub.append (List.Sublist.refl _)
    case small => simp [handed, RxPc.pending]
    case can => simp [handed]
    case ctl => exact h.ctl
  · exact h.goOn rfl

/-- Every step of a conforming run keeps the invariant. -/
lemma inv_step {b : RxAct} (h : Inv t) (guard : Conforms t b) (st : rxStep t b = .ok t') : Inv t' := by
  cases b with
  | dev b =>
    obtain ⟨c', step, st⟩ := bind_eq_ok.mp st
    cases st
    exact h.dev guard step
  | event e =>
    simp only [rxStep] at st
    split at st
    · cases st
      exact
        { h with
          memory := { h.memory with }
          frames := ⟨t.arrived.map readFrame, by rw [pending_afterRead, List.map_append], h.forget⟩
          small := by
            intro pkt hp
            rw [pending_afterRead] at hp
            obtain ⟨l, -, rfl⟩ := List.mem_map.mp hp
            exact List.length_take_le _ _
          can := fun _ e => absurd e afterRead_ne_write }
    · cases st
  | checkQuit =>
    simp only [rxStep] at st
    split at st
    · cases st
      have pending : (if t.quit then RxPc.returned else .timedRead).pending = [] := by split <;> rfl
      exact h.goOn pending
    · cases st
  | ask =>
    simp only [rxStep] at st
    split at st
    · rename_i pkt pc idle
      cases st
      by_cases can : virtioNetCanWritePacket t.c.s = true
      · simp only [can, if_true]
        exact
          { h with
            memory := { h.memory with }
            frames := by rw [show RxPc.pending (.write pkt) = t.pc.pending by rw [pc]; rfl]; exact h.frames
            small := by rw [show RxPc.pending (.write pkt) = t.pc.pending by rw [pc]; rfl]; exact h.small
            can := fun _ _ => h.memory.can_iff.mp can }
      · simp only [can]
        exact h.goOn rfl
    · cases st
  | write => exact h.write st
  | stop =>
    cases st
    exact { h with memory := { h.memory with } }
  | publish k =>
    rw [rxStep_publish st]
    exact
      { h with
        memory := h.memory.publish guard
        can := by
          intro pkt e
          obtain ⟨ready, lt⟩ := h.can pkt e
          refine ⟨ready, lt.trans_le ?_⟩
          simp [published] }
  | consume =>
    simp only [rxStep] at st
    split at st
    · cases st
    · rename_i ne
      have lt : t.consumed < t.delivered.length := by
        have lt := h.memory.rings.usedIdx_ne.mp ne
        rwa [RxMachine.used_length] at lt
      rw [h.memory.nextEntry lt, List.getElem?_eq_getElem lt] at st
      cases st
      exact
        { h with
          memory := h.memory.consume lt
          received := Fifo.append_next h.received (List.getElem?_eq_getElem lt) }

/-- In every conforming run the invariant holds. -/
lemma inv_run (h : Inv t) (r : Reach rxStep Conforms t t') : Inv t' :=
  r.invariant h fun _ _ _ _ inv guard st => inv_step inv guard st

/-- All that was delivered gets read. -/
lemma Inv.consumeAll (h : Inv t) :
    ∃ t', Reach rxStep Conforms t t' ∧ t'.delivered = t.delivered ∧ t'.received = t.delivered := by
  obtain ⟨n, hn⟩ : ∃ n, n = t.delivered.length - t.consumed := ⟨_, rfl⟩
  induction n generalizing t with
  | zero =>
    have le := h.memory.consumed_le
    exact ⟨t, .init, rfl, h.received.eq_of_length (show t.consumed = _ by omega)⟩
  | succ n ih =>
    have lt : t.consumed < t.delivered.length := by omega
    have ne := h.memory.rings.usedIdx_ne.mpr (by rwa [RxMachine.used_length])
    have one : Reach rxStep Conforms t { t with received := t.received ++ [t.delivered[t.consumed]] } := by
      refine .step .consume .init trivial ?_
      simp only [rxStep, if_neg ne, h.memory.nextEntry lt, List.getElem?_eq_getElem lt]
      rfl
    obtain ⟨t', r, delivered, received⟩ := ih (inv_run h one) (by
      simp only [RxMachine.consumed, List.length_append, List.length_singleton] at hn ⊢
      omega)
    exact ⟨t', one.trans r, delivered, received⟩

/-- The contract of the receive queue. -/
structure InOrder (t : RxMachine) : Prop where
  /-- What the driver has read are the first frames delivered, in order, each with its header of zeros. -/
  received : t.received <+: t.delivered
  /-- They were delivered to the first chains made available, in order. -/
  heads : t.used <+: t.heads
  /-- They are frames that arrived, in order, each up to the size of the buffer of the thread. -/
  frames : t.frames.Sublist (t.arrived.map readFrame)
  /-- A frame stays in its chain until the driver has read it. -/
  unread : t.consumed < t.delivered.length → t.nextEntry = t.delivered[t.consumed]?
  /-- The driver sees how many there are. -/
  index : usedIdx t.mem t.qs = .ofNat t.delivered.length
  /-- When the thread asks, a frame is dropped only if the queue is not ready or no chain is available. -/
  asked : ∀ pkt, t.pc = .ask pkt → t.c.ctl = .idle → rxStep t .ask = .ok { t with
    pc := if t.qs.ready ≠ 0 ∧ t.delivered.length < t.avail.length then .write pkt else .timedRead }
  /-- When the thread then writes, a frame is dropped only if it is too large for the next chain. -/
  written : ∀ pkt, t.pc = .write pkt → t.c.ctl = .idle → ∃ x t', t.avail[t.delivered.length]? = some x ∧
    rxStep t .write = .ok t' ∧ t'.delivered = if headerSize + pkt.length ≤ total x.bufs then
      t.delivered ++ [(x.head, withHeader pkt)] else t.delivered
  /-- Every frame delivered can still be read. -/
  drains : ∃ t', Reach rxStep Conforms t t' ∧ t'.delivered = t.delivered ∧ t'.received = t.delivered

/-- What the thread finds out when it asks. -/
lemma Inv.asked (h : Inv t) (pc : t.pc = .ask pkt) (idle : t.c.ctl = .idle) :
    rxStep t .ask = .ok { t with
      pc := if t.qs.ready ≠ 0 ∧ t.delivered.length < t.avail.length then .write pkt else .timedRead } := by
  simp only [rxStep, pc, idle, h.memory.can_iff]
  rfl

/-- What becomes of a frame that the thread writes. -/
lemma Inv.written (h : Inv t) (pc : t.pc = .write pkt) (idle : t.c.ctl = .idle) :
    ∃ x t', t.avail[t.delivered.length]? = some x ∧ rxStep t .write = .ok t' ∧
      t'.delivered = if headerSize + pkt.length ≤ total x.bufs then
        t.delivered ++ [(x.head, withHeader pkt)] else t.delivered := by
  obtain ⟨x, hx, eq, -⟩ := h.write_eq pc idle
  refine ⟨x, _, hx, eq, ?_⟩
  split <;> rfl

/-- In every conforming run, whatever the threads and the guest do in which order, the driver reads exactly the
frames that were delivered, and those are frames that arrived, in order and cut off behind 4096 bytes, but else
unchanged; a frame is dropped only for want of a chain or of room in it. -/
theorem rx_in_order (start : Start c) (r : Reach rxStep Conforms (rxInit c) t) : InOrder t := by
  have h := inv_run (inv_init start) r
  have index := h.memory.rings.usedCount
  rw [RxMachine.used_length] at index
  exact ⟨h.received, h.memory.order, h.forget, h.memory.nextEntry, index, fun _ => h.asked, fun _ => h.written,
    h.consumeAll⟩

/-- A guest memory of one page. The receive queue has its table at 0, with writable buffers of 64 and of 14
bytes, and its rings at 256 and 512. The transmit queue has its table at 64, with one packet, and its rings at
320 and 576. -/
def bothQueues : GuestMemMap :=
  .onePage (splices (fun _ => 0)
    [(0, VirtioDesc.encode ⟨1024, 64, 2, 0⟩ ++ VirtioDesc.encode ⟨1152, 14, 2, 0⟩),
      (64, VirtioDesc.encode ⟨1280, 20, 0, 0⟩), (256, leBytes 2 0 ++ leBytes 2 0 ++ leBytes 2 0 ++ leBytes 2 1),
      (320, leBytes 2 0 ++ leBytes 2 1)])

/-- The network device after a driver has set up both queues with two entries each. -/
def bothReady : NetMachine :=
  ([.dev (.mmioWrite 0x030 0 4), .dev (.mmioWrite 0x038 2 4), .dev (.mmioWrite 0x090 256 4),
    .dev (.mmioWrite 0x0a0 512 4), .dev (.mmioWrite 0x044 1 4), .dev (.mmioWrite 0x030 1 4),
    .dev (.mmioWrite 0x038 2 4), .dev (.mmioWrite 0x080 64 4), .dev (.mmioWrite 0x090 320 4),
    .dev (.mmioWrite 0x0a0 576 4), .dev (.mmioWrite 0x044 1 4)].foldlM netStep
      (netInit bothQueues takesAll)).toOption.getD (netInit bothQueues takesAll)

/-- Four frames arrive while the guest also sends a packet. The second one is too large for its chain, and the
last one goes to the cell of the first. -/
theorem rx_in_order_four_frames :
    ∃ t, Start bothReady ∧ Reach rxStep Conforms (rxInit bothReady) t ∧
      (t.arrived = [[0x61, 0x62], [1, 2, 3], [0x63], [0x64]] ∧ t.frames = [[0x61, 0x62], [0x63], [0x64]] ∧
        t.received = [(0, withHeader [0x61, 0x62]), (1, withHeader [0x63])]) ∧ InOrder t := by
  have start : Start bothReady := by decide +kernel
  obtain ⟨t, r, h⟩ := Reach.of_test rxStep Conforms .blocked (rxInit bothReady)
    [.publish 2, .event (.data [0x61, 0x62]), .ask, .write, .event .timeout, .dev (.ioeventfd 1), .checkQuit,
      .event (.data [1, 2, 3]), .dev .round, .consume, .dev .done, .ask, .write, .event (.data [0x63]), .ask,
      .publish 1, .write, .event (.data [0x64]), .ask, .write, .consume]
    (fun t => decide (t.arrived = [[0x61, 0x62], [1, 2, 3], [0x63], [0x64]] ∧
      t.frames = [[0x61, 0x62], [0x63], [0x64]] ∧
      t.received = [(0, withHeader [0x61, 0x62]), (1, withHeader [0x63])])) (by decide +kernel)
  exact ⟨t, start, r, of_decide_eq_true h, rx_in_order start r⟩

end Mvvmm.Net.Rx
