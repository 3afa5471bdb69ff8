import Mvvmm.Account
import Mvvmm.Block.Request

/-!
# The block device and its driver

The driver of the block device makes requests available (`publish`) and reads the entries of the used ring
one by one (`consume`); everything else that happens to the device and its guest is an action of `blockStep`.
Requests are numbered in the order in which they are made available. `Traffic` keeps what an observer would
note: which requests there are and which of them were answered when each was made available, which request
each worker has been given, and for each entry of the used ring the number of its request and the bytes that
its chain then held.

`Conforms` is what the driver has to respect. At most as many requests are outstanding as the queue has
entries, each is one of whole sectors inside the capacity, in buffers that lie in guest memory, off the rings
and apart from those of the other outstanding requests, and nothing of it is modified until its answer has
been read.
-/

namespace Mvvmm.Block
open Bytes CMem Virtio Run

/-- The number of the request that a worker has not answered yet. -/
def Worker.counts (x : Worker) (i : Nat) : Multiset Nat :=
  if x.req?.isSome then {i} else 0

/-- The block device, its driver and what has been noted: the requests made available, for each of them those
that had been answered by then, the request that each worker was given last, the answers with the bytes
delivered, and how many of them the driver has read. -/
structure Traffic where
  c : BlockMachine
  reqs : List Request
  seen : List (List Nat)
  owner : Fin virtioBlkMaxQueueNum → Nat
  answers : List (Nat × List UInt8)
  consumed : Nat

namespace Traffic
variable (t : Traffic)

/-- The guest memory. -/
def mem : GuestMemMap :=
  t.c.s.mem

/-- The queue of the device. -/
def qs : QueueState :=
  t.c.s.queue 0

/-- The heads made available. -/
def avail : List Nat :=
  t.reqs.map fun x => x.head

/-- The heads in the entries of the used ring, oldest first. -/
def used : List Nat :=
  (t.c.s.used.map fun u => u.head).reverse

/-- How many chains have been popped. -/
def popped : Nat :=
  t.c.s.popped.length

/-- The requests answered. -/
def answered : List Nat :=
  t.answers.map fun a => a.1

/-- The requests whose answer the driver has read. -/
def read : List Nat :=
  t.answered.take t.consumed

/-- The capacity that the driver reads in the configuration space. -/
def capacity : Nat :=
  blockGetSectorCount t.c.s.dev

/-- The requests in flight. -/
def inFlight : Multiset Nat :=
  ∑ w, (t.c.s.dev.workers w).counts (t.owner w)

/-- The answer to a request that the device publishes by going to `c`. -/
def answer (c : BlockMachine) (i : Nat) : Nat × List UInt8 :=
  (i, gather c.s.mem (t.reqs[i]?.elim [] fun x => x.writable))

end Traffic

/-- What happens to the block device, its guest and its driver. -/
inductive TrafficAct where
  | blk (a : BlockAct)
  /-- The driver makes the requests in the next cells of the available ring available. -/
  | publish (xs : List Request)
  /-- The driver reads the next entry of the used ring. -/
  | consume
  deriving DecidableEq, Repr

/-- What is noted of an action of the device that leads to `c`. A round gives the next request to the free
worker, or answers it if there is none. -/
def Traffic.note (t : Traffic) (c : BlockMachine) : BlockAct → Traffic
  | .dev .round =>
    match t.c.s.dev.freeWorker with
    | some w => { t with c, owner := Function.update t.owner w t.popped }
    | none => { t with c, answers := t.answers ++ [t.answer c t.popped] }
  | .complete w => { t with c, answers := t.answers ++ [t.answer c (t.owner w)] }
  | _ => { t with c }

/-- The notes of the driver do not change the device. -/
lemma Traffic.note_c {t : Traffic} {c : BlockMachine} {a : BlockAct} : (t.note c a).c = c := by
  unfold Traffic.note
  split
  · split <;> rfl
  · rfl
  · rfl

/-- An action of the device makes no request available. -/
lemma Traffic.note_reqs {t : Traffic} {c : BlockMachine} {a : BlockAct} : (t.note c a).reqs = t.reqs := by
  unfold Traffic.note
  split
  · split <;> rfl
  · rfl
  · rfl

/-- A step of the device, its guest and its driver. -/
def trafficStep (t : Traffic) : TrafficAct → Except Stop Traffic
  | .blk a => do
    let c ← blockStep t.c a
    return t.note c a
  | .publish xs => do
    let idx := UInt16.ofNat (t.reqs.length + xs.length)
    let c ← blockStep t.c (.dev (.guest (t.qs.availAddr.toNat + 2) (leBytes 2 idx.toNat)))
    return { t with c, reqs := t.reqs ++ xs, seen := t.seen ++ xs.map fun _ => t.answered }
  | .consume =>
    if usedIdx t.mem t.qs = .ofNat t.consumed then
      .error .blocked
    else
      return { t with consumed := t.consumed + 1 }

/-! ## What the driver has to respect -/

/-- The buffers of a request lie in guest memory, off the rings of the queue, and those the device writes are
apart from each other. -/
@[mk_iff]
structure Placed (size : Nat) (qs : QueueState) (x : Request) : Prop where
  inside : ∀ d ∈ x.footprint, d.addr.toNat + d.len.toNat ≤ size
  table : ∀ d ∈ x.footprint, Apart d.addr.toNat d.len.toNat qs.descAddr.toNat (16 * qs.num.toNat)
  avail : ∀ d ∈ x.footprint, Apart d.addr.toNat d.len.toNat qs.availAddr.toNat (4 + 2 * qs.num.toNat)
  used : ∀ d ∈ x.footprint, Apart d.addr.toNat d.len.toNat qs.usedAddr.toNat (4 + 8 * qs.num.toNat)
  writable : x.writable.Pairwise BufApart

instance (size : Nat) (qs : QueueState) (x : Request) : Decidable (Placed size qs x) :=
  decidable_of_iff' _ (placed_iff size qs x)

/-- What the device writes for the first request is apart from the second. -/
def Separate (x y : Request) : Prop :=
  ∀ d ∈ x.writable, ∀ e ∈ y.footprint, BufApart d e

instance (x y : Request) : Decidable (Separate x y) :=
  inferInstanceAs (Decidable (∀ d ∈ _, ∀ e ∈ _, _))

/-- The requests whose answer has not been read are apart from each other. -/
def Separated (reqs : List Request) (read : List Nat) : Prop :=
  ∀ i < reqs.length, ∀ j < reqs.length, i ∉ read → j ∉ read → i ≠ j →
    ∀ x ∈ reqs[i]?, ∀ y ∈ reqs[j]?, Separate x y

set_option synthInstance.maxSize 512 in
instance (reqs : List Request) (read : List Nat) : Decidable (Separated reqs read) :=
  inferInstanceAs (Decidable (∀ i < _, ∀ j < _, _))

/-- A guest memory in which the request is as it was. -/
@[mk_iff]
structure KeepsRequest (m m' : GuestMemMap) (qs : QueueState) (x : Request) : Prop where
  chain : chain m' qs x.head = chain m qs x.head
  bytes : gather m' x.footprint = gather m x.footprint

instance (m m' : GuestMemMap) (qs : QueueState) (x : Request) : Decidable (KeepsRequest m m' qs x) :=
  decidable_of_iff' _ (keepsRequest_iff m m' qs x)

/-- A guest memory in which all that the device and the driver still have to read is as it was: their entries
in the rings, and the requests whose answer has not been read. -/
@[mk_iff]
structure KeepsTraffic (t : Traffic) (m : GuestMemMap) : Prop where
  rings : KeepsRings t.mem m t.qs t.avail.length t.used.length t.popped t.consumed
  requests : ∀ i < t.reqs.length, i ∉ t.read → ∀ x ∈ t.reqs[i]?, KeepsRequest t.mem m t.qs x

instance (t : Traffic) (m : GuestMemMap) : Decidable (KeepsTraffic t m) :=
  decidable_of_iff' _ (keepsTraffic_iff t m)

/-- An action of the guest that leaves the traffic alone: it notifies no other queue, the registers of the
queue are not written, and no store hits what is still to be read. -/
def LeavesTraffic (t : Traffic) (a : DevAct) : Prop :=
  (∀ q ∈ a.notifies?, q = 0) ∧
    ∀ c ∈ (blockStep t.c (.dev a)).toOption, c.s.queue 0 = t.qs ∧ KeepsTraffic t c.s.mem

instance (t : Traffic) (a : DevAct) : Decidable (LeavesTraffic t a) :=
  inferInstanceAs (Decidable (_ ∧ ∀ c ∈ _, _ ∧ _))

/-- What a conforming driver does. -/
def Conforms (t : Traffic) : TrafficAct → Prop
  | .blk (.dev .round) | .blk (.dev .done) | .blk (.io _) | .blk (.complete _) | .blk (.release _)
  | .consume => True
  | .blk (.dev a) => LeavesTraffic t a
  | .publish xs =>
    t.reqs.length + xs.length ≤ t.consumed + t.qs.num.toNat ∧
      nextHeads t.mem t.qs t.reqs.length xs.length = xs.map (fun x => x.head) ∧
      (∀ x ∈ xs, request t.mem t.qs x.head = some x ∧ x.Ok t.capacity ∧ Placed t.mem.size t.qs x) ∧
      Separated (t.reqs ++ xs) t.read

instance (t : Traffic) : (a : TrafficAct) → Decidable (Conforms t a)
  | .blk (.dev .round) | .blk (.dev .done) | .blk (.io _) | .blk (.complete _) | .blk (.release _)
  | .consume => .isTrue trivial
  | .blk (.dev (.guest ..)) | .blk (.dev (.mmioRead ..)) | .blk (.dev (.mmioWrite ..))
  | .blk (.dev (.ioeventfd ..)) => inferInstanceAs (Decidable (LeavesTraffic t _))
  | .publish _ => inferInstanceAs (Decidable (_ ∧ _ ∧ _ ∧ _))

/-- The queue is set up and nothing has happened on it. -/
@[mk_iff]
structure Start (c : BlockMachine) : Prop where
  idle : c.ctl = .idle
  ring : RingOk c.s.mem.size (c.s.queue 0)
  max : (c.s.queue 0).num.toNat ≤ virtioBlkMaxQueueNum
  auto : (c.s.queue 0).manualRecv = false
  availIdx : virtioRead16 c.s.mem ((c.s.queue 0).availAddr + 2) = 0
  last : (c.s.queue 0).lastAvailIdx = 0
  usedIdx : usedIdx c.s.mem (c.s.queue 0) = 0
  popped : c.s.popped = []
  used : c.s.used = []
  workers : ∀ w, (c.s.dev.workers w).isIdle = true
  size : c.s.dev.disk.len = c.s.dev.size
  len : c.s.dev.size < 2 ^ 63

instance (c : BlockMachine) : Decidable (Start c) :=
  decidable_of_iff' _ (start_iff c)

/-- The driver has not done anything yet. -/
def trafficInit (c : BlockMachine) : Traffic :=
  ⟨c, [], [], fun _ => 0, [], 0⟩

/-! ## What a request depends on -/

variable {m m' : GuestMemMap} {qs : QueueState} {x y : Request} {l : List VirtioDesc} {bs : List UInt8}

/-- The bytes of the descriptors of both parts. -/
lemma gather_append {R W : List VirtioDesc} : gather m (R ++ W) = gather m R ++ gather m W :=
  List.flatMap_append

/-- The buffers of a request lie in guest memory. -/
lemma Placed.bufInside (h : Placed m.size qs x) : BufInside m x.readable ∧ BufInside m x.writable :=
  ⟨.of_le fun d hd => h.inside d (List.mem_append_left _ hd), .of_le fun d hd => h.inside d (List.mem_append_right _ hd)⟩

/-- Stores into descriptors leave alone what is apart from them. -/
lemma scatterAt_eqOn {a n : Nat} (inside : BufInside m l) (apart : ∀ d ∈ l, Apart d.addr.toNat d.len.toNat a n) :
    Set.EqOn (scatterAt m l 0 bs).hostMem m.hostMem (Set.Ico a (a + n)) :=
  fun _ hp => scatterAt_outside inside fun d hd => (apart d hd).notMem_bufSpan (inside d hd) hp

/-- The two parts of a request that is kept. -/
lemma KeepsRequest.parts (h : KeepsRequest m m' qs x) :
    gather m' x.readable = gather m x.readable ∧ gather m' x.writable = gather m x.writable := by
  have bytes := h.bytes
  rw [Request.footprint, gather_append, gather_append] at bytes
  exact List.append_inj bytes (by simp)

/-- A request is still there in a memory that keeps it. -/
lemma KeepsRequest.request (h : KeepsRequest m m' qs x) (e : request m qs x.head = some x) :
    request m' qs x.head = some x :=
  request_congr e h.chain h.parts.1

/-- Two changes that keep a request. -/
lemma KeepsRequest.trans {m₁ : GuestMemMap} (h : KeepsRequest m m₁ qs x) (h' : KeepsRequest m₁ m' qs x) :
    KeepsRequest m m' qs x :=
  ⟨h'.chain.trans h.chain, h'.bytes.trans h.bytes⟩

/-- The driver's store into the available ring keeps every request. -/
lemma KeepsRequest.publishAvail {v : UInt16} (ok : RingOk m.size qs) (placed : Placed m.size qs x) :
    KeepsRequest m (publishAvail m qs v) qs x where
  chain := chain_publishAvail ok
  bytes := by
    apply gather_congr
    intro d hd
    exact (publishAvail_frame ok).mono (placed.avail d hd).subset_compl

/-- So does an entry of the used ring. -/
lemma KeepsRequest.publishUsed {head : Nat} {len : Int} (ok : RingOk m.size qs)
    (placed : Placed m.size qs x) : KeepsRequest m (publishUsed m qs head len) qs x where
  chain := chain_congr ok.table publishUsed_size (ok.eqOn_table (publishUsed_frame ok))
  bytes := by
    apply gather_congr
    intro d hd
    exact (publishUsed_frame ok).mono (placed.used d hd).subset_compl

/-- Answering a request keeps its own chain. -/
lemma chain_scatterAt {head : Nat} (ok : RingOk m.size qs) (placed : Placed m.size qs y) :
    chain (scatterAt m y.writable 0 bs) qs head = chain m qs head := by
  refine chain_congr ok.table scatterAt_size (scatterAt_eqOn placed.bufInside.2 ?_)
  intro d hd
  exact placed.table d (List.mem_append_right _ hd)

/-- Answering a request keeps the others. -/
lemma KeepsRequest.scatterAt (ok : RingOk m.size qs) (placed : Placed m.size qs y) (other : Placed m.size qs x)
    (apart : Separate y x) : KeepsRequest m (scatterAt m y.writable 0 bs) qs x where
  chain := chain_scatterAt ok placed
  bytes := by
    apply gather_congr
    intro d hd p hp
    refine scatterAt_outside placed.bufInside.2 fun e he mem => ?_
    have le := other.inside d hd
    have lt := m.size_lt
    exact Set.disjoint_left.mp (apart e he d hd) mem ((mem_guestSpan (by omega)).mpr hp)

/-- Answering a request leaves the rings alone. -/
lemma keepsRings_scatterAt {a u p c : Nat} (ok : RingOk m.size qs) (placed : Placed m.size qs y) :
    KeepsRings m (scatterAt m y.writable 0 bs) qs a u p c := by
  have inside := placed.bufInside.2
  refine .of_eqOn ok scatterAt_size (scatterAt_eqOn inside ?_) (scatterAt_eqOn inside ?_)
  · intro d hd
    exact placed.avail d (List.mem_append_right _ hd)
  · intro d hd
    exact placed.used d (List.mem_append_right _ hd)

/-- A pop does not move the rings that a request is placed apart from. -/
lemma Placed.advanced {size : Nat} (h : Placed size qs x) : Placed size qs.advanced x :=
  ⟨h.inside, h.table, h.avail, h.used, h.writable⟩

/-- A pop does not change how a request reads. -/
lemma request_advanced {head : Nat} : request m qs.advanced head = request m qs head := by
  simp only [request, chain_advanced]

end Mvvmm.Block
