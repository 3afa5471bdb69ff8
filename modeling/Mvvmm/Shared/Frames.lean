import Mvvmm.Block.Upkeep
import Mvvmm.Net.Rx
import Mvvmm.Net.Tx

/-!
# What a queue has in guest memory

The queue of the block device and the two queues of the network device, each with its driver, have parts of the
guest memory of their own (`regions`): the table and the rings of the queue, and the buffers of the requests or
chains that are outstanding. Of a queue that is set up, what is still to be read lies in its regions
(`keepsTraffic`, `keepsRx`, `keepsTx`). A step writes nothing outside them, unless it is a store of the guest, and
they grow only when the driver makes something available (`blk_moves`, `rx_moves`).
-/

namespace Mvvmm.Shared
open Bytes CMem Virtio Run
open Block (Traffic TrafficAct trafficStep Request BlockMachine KeepsTraffic)
open Net (NetMachine TxMachine txStep KeepsTx)
open Net.Rx (RxMachine RxAct rxStep Posting KeepsRx OffRx)

/-! ## Regions -/

/-- The first position and the length of a part of the guest memory. -/
abbrev Region := Nat × Nat

/-- The positions in the regions. -/
def area (R : List Region) : Set Nat :=
  {p | ∃ r ∈ R, p ∈ Set.Ico r.1 (r.1 + r.2)}

/-- The two lists of regions have no position in common. -/
def Clear (R R' : List Region) : Prop :=
  ∀ r ∈ R, ∀ r' ∈ R', Apart r.1 r.2 r'.1 r'.2

instance (R R' : List Region) : Decidable (Clear R R') :=
  inferInstanceAs (Decidable (∀ r ∈ _, ∀ r' ∈ _, _))

/-- A guest memory that differs at positions in the set only. -/
structure Frame (A : Set Nat) (m m' : GuestMemMap) : Prop where
  size : m'.size = m.size
  rest : Set.EqOn m'.hostMem m.hostMem Aᶜ

variable {R R₁ R' R₁' : List Region} {A A' : Set Nat} {m m' m₁ : GuestMemMap} {qs : QueueState} {p : Nat}

/-- Regions are clear of each other in both directions. -/
lemma Clear.symm (h : Clear R R') : Clear R' R :=
  fun r' hr' r hr => (h r hr r' hr').symm

/-- Some of the regions are clear of some of the others. -/
lemma Clear.mono (h : Clear R R') (sub : R₁ ⊆ R) (sub' : R₁' ⊆ R') : Clear R₁ R₁' :=
  fun r hr r' hr' => h r (sub hr) r' (sub' hr')

/-- Regions that are clear of others together. -/
lemma Clear.append (h : Clear R R') (h₁ : Clear R₁ R') : Clear (R ++ R₁) R' := by
  intro r hr
  rcases List.mem_append.mp hr with hr | hr
  · exact h r hr
  · exact h₁ r hr

/-- What is clear of regions lies outside of them. -/
lemma Clear.subset_compl (h : Clear R R') : area R' ⊆ (area R)ᶜ := by
  rintro p ⟨r', hr', hp'⟩ ⟨r, hr, hp⟩
  exact (h r hr r' hr').subset_compl hp hp'

/-- More regions have more bytes. -/
lemma area_mono (sub : R ⊆ R') : area R ⊆ area R' :=
  fun _ ⟨r, hr, hp⟩ => ⟨r, sub hr, hp⟩

/-- A memory that is not changed. -/
lemma Frame.refl : Frame A m m :=
  ⟨rfl, fun _ _ => rfl⟩

/-- Two changes within the same bytes. -/
lemma Frame.trans (h : Frame A m m₁) (h' : Frame A m₁ m') : Frame A m m' :=
  ⟨h'.size.trans h.size, h'.rest.trans h.rest⟩

/-- A change within some bytes is one within more. -/
lemma Frame.mono (h : Frame A m m') (sub : A ⊆ A') : Frame A' m m' :=
  ⟨h.size, h.rest.mono (Set.compl_subset_compl.mpr sub)⟩

/-- A change in some regions leaves alone those that are apart from them. -/
lemma Frame.eqOn (h : Frame (area R) m m') (clear : Clear R R') : Set.EqOn m'.hostMem m.hostMem (area R') :=
  h.rest.mono clear.subset_compl

/-- The table and the two rings of a queue. -/
def queueRegions (qs : QueueState) : List Region :=
  [(qs.descAddr.toNat, 16 * qs.num.toNat), (qs.availAddr.toNat, 4 + 2 * qs.num.toNat),
    (qs.usedAddr.toNat, 4 + 8 * qs.num.toNat)]

/-- The buffers of descriptors. -/
def buffers (l : List VirtioDesc) : List Region :=
  l.map fun d => (d.addr.toNat, d.len.toNat)

/-- The bytes of a queue are those of its three tables. -/
lemma mem_area_queueRegions :
    p ∈ area (queueRegions qs) ↔ p ∈ tableSpan qs ∨ p ∈ availSpan qs ∨ p ∈ usedSpan qs := by
  simp [area, queueRegions, tableSpan, availSpan, usedSpan]

/-- The bytes of the buffers of some descriptors. -/
lemma mem_area_buffers {l : List VirtioDesc} :
    p ∈ area (buffers l) ↔ ∃ d ∈ l, p ∈ Set.Ico d.addr.toNat (d.addr.toNat + d.len.toNat) := by
  simp [area, buffers]

/-- The bytes of two lists of regions. -/
lemma mem_area_append : p ∈ area (R ++ R') ↔ p ∈ area R ∨ p ∈ area R' := by
  simp only [area, Set.mem_ofPred_eq, List.mem_append, or_and_right, exists_or]

/-- The bytes of the regions of some things. -/
lemma mem_area_flatMap {α : Type} {l : List α} {f : α → List Region} :
    p ∈ area (l.flatMap f) ↔ ∃ x ∈ l, p ∈ area (f x) := by
  simp only [area, Set.mem_ofPred_eq, List.mem_flatMap]
  constructor
  · rintro ⟨r, ⟨x, hx, hr⟩, hp⟩
    exact ⟨x, hx, r, hr, hp⟩
  · rintro ⟨x, hx, r, hr, hp⟩
    exact ⟨r, ⟨x, hx, hr⟩, hp⟩

/-- The table and the rings of a well laid out queue lie in guest memory. -/
lemma RingOk.area_lt {size : Nat} (ok : RingOk size qs) (h : p ∈ area (queueRegions qs)) : p < size := by
  have desc := ok.desc
  have avail := ok.avail
  have used := ok.used
  rcases mem_area_queueRegions.mp h with h | h | h
  all_goals
    simp only [tableSpan, availSpan, usedSpan, Set.mem_Ico] at h
    omega

/-- The driver's store into the available ring. -/
lemma frame_publishAvail {v : UInt16} (ok : RingOk m.size qs) (sub : queueRegions qs ⊆ R) :
    Frame (area R) m (publishAvail m qs v) where
  size := rfl
  rest := (publishAvail_frame ok).mono
    (Set.compl_subset_compl.mpr fun _ hp => area_mono sub (mem_area_queueRegions.mpr (.inr (.inl hp))))

/-- An entry of the used ring. -/
lemma frame_publishUsed {head : Nat} {len : Int} (ok : RingOk m.size qs) (sub : queueRegions qs ⊆ R) :
    Frame (area R) m (publishUsed m qs head len) where
  size := publishUsed_size
  rest := (publishUsed_frame ok).mono
    (Set.compl_subset_compl.mpr fun _ hp => area_mono sub (mem_area_queueRegions.mpr (.inr (.inr hp))))

/-! ## The queue of the block device -/

/-- The requests whose answer the driver has not read. -/
def unread (t : Traffic) : List Request :=
  (List.range t.reqs.length).filterMap fun i => if i ∈ t.read then none else t.reqs[i]?

/-- The regions of the block device and its driver. -/
def blkRegions (t : Traffic) : List Region :=
  queueRegions t.qs ++ (unread t).flatMap fun x => buffers x.footprint

/-- The regions that the driver adds. -/
def blkFresh : TrafficAct → List Region
  | .publish xs => xs.flatMap fun x => buffers x.footprint
  | _ => []

/-- What an action of the guest and `queue_notify` stores for the guest. -/
def devStored : DevAct → Option (Nat × List UInt8)
  | .guest p l => some (p, l)
  | _ => none

/-- What an action of the block device and its driver stores for the guest. -/
def blkStored : TrafficAct → Option (Nat × List UInt8)
  | .blk (.dev a) => devStored a
  | _ => none

section Block
variable {d₀ : Block.Disk} {t t' : Traffic} {refused : List Nat} {commits : List Block.IoCommit} {b : TrafficAct} {x : Request}

/-- A request is unread if its place is not among those read. -/
lemma mem_unread : x ∈ unread t ↔ ∃ i, i ∉ t.read ∧ t.reqs[i]? = some x := by
  simp only [unread, List.mem_filterMap, List.mem_range]
  constructor
  · rintro ⟨i, -, h⟩
    split at h
    · cases h
    · exact ⟨i, by assumption, h⟩
  · rintro ⟨i, ni, h⟩
    exact ⟨i, (List.getElem?_eq_some_iff.mp h).1, by rwa [if_neg ni]⟩

/-- The bytes of the block queue are those of the rings and of the buffers of the unread requests. -/
lemma mem_area_blkRegions :
    p ∈ area (blkRegions t) ↔ p ∈ area (queueRegions t.qs) ∨ ∃ x ∈ unread t, p ∈ area (buffers x.footprint) := by
  rw [blkRegions, mem_area_append, mem_area_flatMap]

/-- What the block device and its driver still have to read lies in their regions. -/
lemma keepsTraffic (h : Block.Memory t) (size : m.size = t.mem.size)
    (eq : Set.EqOn m.hostMem t.mem.hostMem (area (blkRegions t))) : KeepsTraffic t m := by
  have ok := h.rings.ring
  have rings : Set.EqOn m.hostMem t.mem.hostMem (area (queueRegions t.qs)) :=
    eq.mono (area_mono (List.subset_append_left _ _))
  constructor
  case rings =>
    refine .of_eqOn ok size (rings.mono ?_) (rings.mono ?_)
    · exact fun p hp => mem_area_queueRegions.mpr (.inr (.inl hp))
    · exact fun p hp => mem_area_queueRegions.mpr (.inr (.inr hp))
  case requests =>
    intro i _ ni x hx
    constructor
    · exact chain_congr ok.table size (rings.mono fun p hp => mem_area_queueRegions.mpr (.inl hp))
    · refine gather_congr fun d hd p hp => eq (mem_area_blkRegions.mpr (.inr ?_))
      exact ⟨x, mem_unread.mpr ⟨i, ni, hx⟩, mem_area_buffers.mpr ⟨d, hd, hp⟩⟩

/-- The regions of the block queue lie in guest memory. -/
lemma blkRegions_lt (h : Block.Memory t) (hp : p ∈ area (blkRegions t)) : p < t.mem.size := by
  rcases mem_area_blkRegions.mp hp with hp | ⟨x, hx, hp⟩
  · exact RingOk.area_lt h.rings.ring hp
  · obtain ⟨i, -, ex⟩ := mem_unread.mp hx
    obtain ⟨d, hd, hp⟩ := mem_area_buffers.mp hp
    exact hp.2.trans_le ((h.placed x (List.mem_of_getElem? ex)).inside d hd)

/-- What a step does to the regions of the block device. -/
structure BlkMoves (t : Traffic) (b : TrafficAct) (t' : Traffic) : Prop where
  regions : blkRegions t' ⊆ blkRegions t ++ blkFresh b
  frame : blkStored b = none → Frame (area (blkRegions t)) t.mem t'.mem

/-- The regions only depend on the registers of the queue and on the requests not yet answered and read. -/
lemma blkRegions_subset (new : List Request) (queue : queueRegions t'.qs = queueRegions t.qs) (reqs : t'.reqs = t.reqs ++ new)
    (read : t.read ⊆ t'.read) :
    blkRegions t' ⊆ blkRegions t ++ new.flatMap fun x => buffers x.footprint := by
  intro r hr
  rw [blkRegions, queue] at hr
  simp only [blkRegions, List.mem_append, List.mem_flatMap] at hr ⊢
  rcases hr with hr | ⟨x, hx, hr⟩
  · exact .inl (.inl hr)
  · obtain ⟨i, ni, ex⟩ := mem_unread.mp hx
    rw [reqs] at ex
    rcases Nat.lt_or_ge i t.reqs.length with lt | ge
    · rw [List.getElem?_append_left lt] at ex
      exact .inl (.inr ⟨x, mem_unread.mpr ⟨i, fun h => ni (read h), ex⟩, hr⟩)
    · rw [List.getElem?_append_right ge] at ex
      exact .inr ⟨x, List.mem_of_getElem? ex, hr⟩

/-- An answer does not change which answers have been read. -/
lemma note_read {c : BlockMachine} {a : Block.BlockAct} (le : t.consumed ≤ t.answered.length) :
    (t.note c a).read = t.read := by
  have append : ∀ e : Nat × List UInt8,
      ((t.answers ++ [e]).map fun a => a.1).take t.consumed = t.read := by
    intro e
    rw [List.map_append]
    exact List.take_append_of_le_length le
  unfold Traffic.note
  split
  · split
    · rfl
    · exact append _
  · exact append _
  · rfl

/-- A step of the device. -/
lemma blkMoves_note {c : BlockMachine} {a : Block.BlockAct} (h : Block.Upkeep d₀ t refused commits)
    (queue : queueRegions (c.s.queue 0) = queueRegions t.qs)
    (frame : blkStored (.blk a) = none → Frame (area (blkRegions t)) t.mem c.s.mem) :
    BlkMoves t (.blk a) (t.note c a) := by
  have le := h.memory.rings.consumed_le
  rw [h.ledger.used_length] at le
  constructor
  · refine blkRegions_subset [] ?_ (by rw [Traffic.note_reqs, List.append_nil]) ?_
    · rw [Traffic.qs, Traffic.note_c, queue]
    · rw [note_read le]
      exact List.Subset.refl _
  · intro no
    rw [show (t.note c a).mem = c.s.mem by rw [Traffic.mem, Traffic.note_c]]
    exact frame no

/-- The answer to a request whose answer has not been read goes to the buffers of the request and the used ring. -/
lemma frame_answer {i : Nat} {bs : List UInt8} {head : Nat} {len : Int} (h : Block.Memory t) (ex : t.reqs[i]? = some x)
    (new : i ∉ t.read) :
    Frame (area (blkRegions t)) t.mem (publishUsed (scatterAt t.mem x.writable 0 bs) t.qs head len) := by
  have ring : RingOk (scatterAt t.mem x.writable 0 bs).size t.qs := by
    rw [scatterAt_size]
    exact h.rings.ring
  have inside := (h.placed x (List.mem_of_getElem? ex)).bufInside.2
  refine Frame.trans ⟨scatterAt_size, fun p hp => scatterAt_outside inside fun d hd hp' => hp ?_⟩
    (frame_publishUsed ring (List.subset_append_left _ _))
  refine mem_area_blkRegions.mpr (.inr ⟨x, mem_unread.mpr ⟨_, new, ex⟩, mem_area_buffers.mpr ?_⟩)
  exact ⟨d, List.mem_append_right _ hd, (mem_bufSpan (inside d hd)).mp hp'⟩

/-- A round of `queue_notify`, whether it finds a free worker or refuses the request. -/
lemma blkMoves_round {s' : Block.VirtioBlockDevice} {ctl : Ctl (Fin Block.virtioBlkMaxQueueNum)} {go : Bool}
    (h : Block.Upkeep d₀ t refused commits) (e : t.reqs[t.popped]? = some x) (head : x.head = nextHead t.c.s 0)
    (eq : queueNotifyRound Block.virtioBlockRecvRequest t.c.s 0 = .ok (go, s')) :
    BlkMoves t (.blk (.dev .round)) (t.note ⟨s', ctl⟩ (.dev .round)) := by
  cases free : t.c.s.dev.freeWorker with
  | some w =>
    rw [h.round_eq e head free] at eq
    cases eq
    refine blkMoves_note h ?_ fun _ => .refl
    simp only [advance_queue]
    rfl
  | none =>
    have new : t.popped ∉ t.read := fun m => absurd (h.ledger.read_lt m) (lt_irrefl _)
    obtain ⟨s₁, hs₁⟩ : ∃ s₁, s₁ = virtioConsumeDesc
        { t.c.s with mem := scatterAt t.mem x.writable 0 x.cmd.refused } 0 x.head x.cmd.writeSize := ⟨_, rfl⟩
    obtain ⟨em, eqs, -⟩ := Block.virtioConsumeDesc_scatterAt h.memory.rings.ring hs₁
    rw [h.refuse_eq e head free, ← hs₁] at eq
    cases eq
    refine blkMoves_note h ?_ fun _ => ?_
    · simp only [advance_queue, eqs]
      rfl
    · rw [show (advance s₁ 0 (nextHead t.c.s 0)).mem = _ from em]
      exact frame_answer h.memory e new

/-- A step of the device other than that of a worker. -/
lemma blkMoves_dev {c : BlockMachine} {a : DevAct} (h : Block.Upkeep d₀ t refused commits)
    (conforms : Block.Conforms t (.blk (.dev a))) (st : Block.blockStep t.c (.dev a) = .ok c) :
    BlkMoves t (.blk (.dev a)) (t.note c (.dev a)) := by
  have eff : DevEffect Block.virtioBlockRecvRequest t.c a c := devStep_effect st
  cases eff with
  | guest _ =>
    obtain ⟨queue, -⟩ := Block.LeavesTraffic.of_ok conforms st
    exact blkMoves_note h (congrArg _ queue) fun no => by cases no
  | mmioRead _ _ => exact blkMoves_note h rfl fun _ => .refl
  | @mmioWrite offset val size _ _ =>
    obtain ⟨queue, -⟩ := Block.LeavesTraffic.of_ok conforms st
    have same : Untouched t.c.s (virtioMmioWriteReg t.c.s offset val size) := virtioMmioWriteReg_untouched
    refine blkMoves_note h (congrArg _ queue) fun _ => ?_
    rw [show (virtioMmioWriteReg t.c.s offset val size).mem = t.mem from same.mem]
    exact .refl
  | start _ _ =>
    refine blkMoves_note h ?_ fun _ => ?_
    · rw [Machine.startNotify_s]
      rfl
    · rw [Machine.startNotify_s]
      exact .refl
  | @round q a v go s' ctl ne eq =>
    obtain ⟨rfl, k, -, lt, le⟩ := h.lt_of_ne ctl ne
    obtain ⟨x, e, head⟩ := h.next (by omega)
    exact blkMoves_round h e head eq
  | done _ _ => exact blkMoves_note h rfl fun _ => .refl

/-- The callback of a worker. -/
lemma blkMoves_complete {c : BlockMachine} {w : Fin Block.virtioBlkMaxQueueNum} (h : Block.Upkeep d₀ t refused commits)
    (st : Block.blockStep t.c (.complete w) = .ok c) : BlkMoves t (.blk (.complete w)) (t.note c (.complete w)) := by
  cases Block.blockStep_effect st with
  | @complete w req ret s' idle finished eq =>
    have carries := h.ledger.workers w
    rw [finished] at carries
    obtain ⟨x, d, ex, rfl, rfl, -⟩ := carries
    have some : (t.c.s.dev.workers w).req?.isSome := by rw [finished]; rfl
    have new : t.owner w ∉ t.read := fun m => (h.ledger.busy some).2.1 (List.mem_of_mem_take m)
    rw [Block.Request.ioDone_arg, h.complete_eq ex some] at eq
    have eq := (Except.ok.inj eq).symm
    obtain ⟨em, eqs, -⟩ := Block.virtioConsumeDesc_scatterAt h.memory.rings.ring eq
    refine blkMoves_note h ?_ fun _ => ?_
    · rw [Machine.startNotify_s]
      exact congrArg (fun f => queueRegions (f 0)) eqs
    · rw [Machine.startNotify_s, show (Block.setWorker s' w .returning).mem = _ from em]
      exact frame_answer h.memory ex new

/-- A step of the block device or its driver writes in its regions only, unless it is a store of the guest. -/
lemma blk_moves (h : Block.Upkeep d₀ t refused commits) (guard : Block.Conforms t b) (st : trafficStep t b = .ok t') :
    BlkMoves t b t' := by
  cases b with
  | blk a =>
    obtain ⟨c, step, st⟩ := bind_eq_ok.mp st
    obtain rfl := Except.ok.inj st
    cases a with
    | dev a => exact blkMoves_dev h guard step
    | complete w => exact blkMoves_complete h step
    | io w =>
      cases Block.blockStep_effect step with
      | io _ _ => exact blkMoves_note h rfl fun _ => .refl
    | release w =>
      cases Block.blockStep_effect step with
      | release _ _ => exact blkMoves_note h rfl fun _ => .refl
  | publish xs =>
    obtain ⟨c, step, st⟩ := bind_eq_ok.mp st
    obtain rfl := Except.ok.inj st
    have eff : DevEffect Block.virtioBlockRecvRequest t.c (.guest (t.qs.availAddr.toNat + 2)
        (leBytes 2 (UInt16.ofNat (t.reqs.length + xs.length)).toNat)) c := devStep_effect step
    cases eff with
    | guest inside =>
      exact ⟨blkRegions_subset xs rfl rfl (List.Subset.refl _),
        fun _ => frame_publishAvail h.memory.rings.ring (List.subset_append_left _ _)⟩
    | start _ yes => cases yes
  | consume =>
    simp only [trafficStep] at st
    split at st
    · cases st
    · obtain rfl := Except.ok.inj st
      refine ⟨blkRegions_subset [] rfl (List.append_nil _).symm ?_, fun _ => .refl⟩
      exact (List.take_prefix_take_left (Nat.le_succ _)).subset

end Block

/-! ## The queues of the network device -/

/-- The regions of the receive queue and its driver. -/
def rxRegions (t : RxMachine) : List Region :=
  queueRegions t.qs ++ t.outstanding.flatMap fun x => buffers x.bufs

/-- The regions that the driver adds. -/
def rxFresh (t : RxMachine) : RxAct → List Region
  | .publish k => ((nextHeads t.mem t.qs t.avail.length k).map (Net.Rx.posting t.mem t.qs)).flatMap
      fun x => buffers x.bufs
  | _ => []

/-- The regions of the transmit queue. -/
def txRegions (t : TxMachine) : List Region :=
  queueRegions t.qs

section Receive
variable {t t' : RxMachine} {b : RxAct} {c : NetMachine}

/-- A byte is off the receive queue if and only if it is in none of its regions. -/
lemma offRx_iff : OffRx t p ↔ p ∉ area (rxRegions t) := by
  simp only [OffRx, rxRegions, mem_area_append, mem_area_queueRegions, mem_area_flatMap, mem_area_buffers]
  push Not
  tauto

/-- What the receive queue and its driver still have to read lies in their regions. -/
lemma keepsRx (h : Net.Rx.Memory t) (size : m.size = t.mem.size)
    (eq : Set.EqOn m.hostMem t.mem.hostMem (area (rxRegions t))) : KeepsRx t m :=
  h.keeps size fun _ hp => eq (not_not.mp fun off => hp (offRx_iff.mpr off))

/-- The regions of the receive queue lie in guest memory. -/
lemma rxRegions_lt (h : Net.Rx.Memory t) (hp : p ∈ area (rxRegions t)) : p < t.mem.size := by
  rw [rxRegions, mem_area_append, mem_area_flatMap] at hp
  rcases hp with hp | ⟨x, hx, hp⟩
  · exact RingOk.area_lt h.rings.ring hp
  · obtain ⟨d, hd, hp⟩ := mem_area_buffers.mp hp
    exact hp.2.trans_le ((h.placed x hx).inside d hd)

/-- What a step does to the regions of the receive queue. A round of `queue_notify` is one for the transmit
queue. -/
structure RxMoves (t : RxMachine) (b : RxAct) (t' : RxMachine) : Prop where
  regions : rxRegions t' ⊆ rxRegions t ++ rxFresh t b
  frame : (∀ a, b = .dev a → devStored a = none ∧ a ≠ .round) → Frame (area (rxRegions t)) t.mem t'.mem

/-- New regions of the receive queue are those of the buffers posted. -/
lemma rxRegions_subset (new : List Posting) (queue : queueRegions t'.qs = queueRegions t.qs) (avail : t'.avail = t.avail ++ new)
    (consumed : t.consumed ≤ t'.consumed) :
    rxRegions t' ⊆ rxRegions t ++ new.flatMap fun x => buffers x.bufs := by
  intro r hr
  rw [rxRegions, queue] at hr
  simp only [rxRegions, List.mem_append, List.mem_flatMap] at hr ⊢
  rcases hr with hr | ⟨x, hx, hr⟩
  · exact .inl (.inl hr)
  · have hx : x ∈ t.outstanding ++ new := by
      have sub := (List.drop_sublist_drop_left (t.avail ++ new) consumed).subset
      rw [RxMachine.outstanding, avail] at hx
      have hx := sub hx
      rw [List.drop_append] at hx
      rcases List.mem_append.mp hx with hx | hx
      · exact List.mem_append_left _ hx
      · exact List.mem_append_right _ (List.mem_of_mem_drop hx)
    rcases List.mem_append.mp hx with hx | hx
    · exact .inl (.inr ⟨x, hx, hr⟩)
    · exact .inr ⟨x, hx, hr⟩

/-- A step that leaves the guest memory and the queue alone. -/
lemma rxMoves_same (queue : queueRegions t'.qs = queueRegions t.qs) (avail : t'.avail = t.avail)
    (consumed : t.consumed ≤ t'.consumed) (mem : t'.mem = t.mem) : RxMoves t b t' where
  regions := by
    refine List.Subset.trans (rxRegions_subset [] queue (by rw [avail, List.append_nil]) consumed) ?_
    exact List.append_subset.mpr ⟨List.subset_append_left _ _, List.nil_subset _⟩
  frame _ := by rw [mem]; exact .refl

/-- What the guest and `queue_notify` do. -/
lemma rxMoves_dev {a : DevAct} (h : Net.Rx.Inv t) (guard : Net.Rx.Conforms t (.dev a))
    (st : Net.netStep t.c (.dev a) = .ok c) : RxMoves t (.dev a) { t with c } := by
  have eff : DevEffect Net.virtioNetRecvRequest t.c a c := devStep_effect st
  have regions : c.s.queue 0 = t.qs → rxRegions { t with c } ⊆ rxRegions t ++ [] := by
    intro queue
    exact rxRegions_subset [] (congrArg _ queue) (List.append_nil _).symm le_rfl
  cases eff with
  | guest _ =>
    obtain ⟨queue, -⟩ := Net.Rx.LeavesRx.of_ok guard st
    exact ⟨regions queue, fun no => by cases (no _ rfl).1⟩
  | mmioRead _ _ => exact rxMoves_same rfl rfl le_rfl rfl
  | @mmioWrite offset val size _ _ =>
    obtain ⟨queue, -⟩ := Net.Rx.LeavesRx.of_ok guard st
    have same : Untouched t.c.s (virtioMmioWriteReg t.c.s offset val size) := virtioMmioWriteReg_untouched
    exact rxMoves_same (congrArg _ queue) rfl le_rfl same.mem
  | start _ _ =>
    refine rxMoves_same (congrArg queueRegions ?_) rfl le_rfl ?_
    · simp only [RxMachine.qs, Machine.startNotify_s]
    · simp only [RxMachine.mem, Machine.startNotify_s]
  | @round q a w go s' ctl ne eq =>
    obtain rfl := h.ctl _ _ _ ctl
    obtain ⟨queue, -⟩ := Net.Rx.queueNotifyRound_rest eq
    exact ⟨regions queue, fun no => absurd rfl (no _ rfl).2⟩
  | done _ _ => exact rxMoves_same rfl rfl le_rfl rfl

/-- The receiving thread hands over a frame. -/
lemma rxMoves_write (h : Net.Rx.Inv t) (st : rxStep t .write = .ok t') : RxMoves t .write t' := by
  obtain ⟨pkt, pc⟩ : ∃ pkt, t.pc = .write pkt := by
    simp only [rxStep] at st
    split at st
    · exact ⟨_, by assumption⟩
    · cases st
  have idle : t.c.ctl = .idle := by
    simp only [rxStep, pc, Net.netStep] at st
    split at st
    · assumption
    · cases st
  obtain ⟨x, hx, eq, -⟩ := h.write_eq pc idle
  obtain ⟨head, R, chain, rx⟩ := h.memory.next h.max hx
  have ok := h.memory.rings.ring
  have mem := Net.Rx.mem_outstanding h.memory.consumed_le hx
  rw [eq] at st
  obtain rfl := Except.ok.inj st
  split
  · constructor
    · have queue : (Net.Rx.handed t x pkt).qs = t.qs.advanced := Net.Rx.handOver_queue
      exact rxRegions_subset [] (by rw [queue]; rfl) (List.append_nil _).symm le_rfl
    · intro _
      rw [show (Net.Rx.handed t x pkt).mem = _ from Net.Rx.handOver_mem]
      have inside := (h.memory.placed x mem).bufInside
      refine Frame.trans ⟨scatterAt_size, fun p hp => scatterAt_outside inside fun d hd hp' => hp ?_⟩
        (frame_publishUsed (Net.Rx.ringOk_rxMem ok) (List.subset_append_left _ _))
      have hp' := (mem_bufSpan (inside d hd)).mp hp'
      rw [rxRegions, mem_area_append, mem_area_flatMap]
      exact .inr ⟨x, mem, mem_area_buffers.mpr ⟨d, hd, hp'⟩⟩
  · exact rxMoves_same rfl rfl le_rfl rfl

/-- A step of the receiving thread or the driver writes in the regions of the receive queue only. -/
lemma rx_moves (h : Net.Rx.Inv t) (guard : Net.Rx.Conforms t b) (st : rxStep t b = .ok t') : RxMoves t b t' := by
  cases b with
  | dev a =>
    obtain ⟨c, step, st⟩ := bind_eq_ok.mp st
    obtain rfl := Except.ok.inj st
    exact rxMoves_dev h guard step
  | write => exact rxMoves_write h st
  | publish k =>
    rw [Net.Rx.rxStep_publish st]
    exact ⟨rxRegions_subset _ rfl rfl le_rfl,
      fun _ => frame_publishAvail h.memory.rings.ring (List.subset_append_left _ _)⟩
  | event e =>
    simp only [rxStep] at st
    split at st
    · obtain rfl := Except.ok.inj st
      exact rxMoves_same rfl rfl le_rfl rfl
    · cases st
  | checkQuit =>
    simp only [rxStep] at st
    split at st
    · obtain rfl := Except.ok.inj st
      exact rxMoves_same rfl rfl le_rfl rfl
    · cases st
  | ask =>
    simp only [rxStep] at st
    split at st
    · obtain rfl := Except.ok.inj st
      exact rxMoves_same rfl rfl le_rfl rfl
    · cases st
  | stop =>
    obtain rfl := Except.ok.inj st
    exact rxMoves_same rfl rfl le_rfl rfl
  | consume =>
    simp only [rxStep] at st
    split at st
    · cases st
    · split at st
      · cases st
      · obtain rfl := Except.ok.inj st
        refine rxMoves_same rfl rfl ?_ rfl
        simp [RxMachine.consumed]

end Receive

section Transmit
variable {t t' : TxMachine}

/-- What the transmit queue and its driver still have to read lies in the table and the rings. -/
lemma keepsTx (h : Net.Inv t) (size : m.size = t.mem.size)
    (eq : Set.EqOn m.hostMem t.mem.hostMem (area (txRegions t))) : KeepsTx t m := by
  have ok := h.rings.ring
  constructor
  case rings =>
    refine .of_eqOn ok size (eq.mono ?_) (eq.mono ?_)
    · exact fun p hp => mem_area_queueRegions.mpr (.inr (.inl hp))
    · exact fun p hp => mem_area_queueRegions.mpr (.inr (.inr hp))
  case chains =>
    intro x _
    exact chain_congr ok.table size (eq.mono fun p hp => mem_area_queueRegions.mpr (.inl hp))

/-- Outside the loop of `queue_notify` the registers of the transmit queue stay as they are. -/
lemma tx_dev {a : DevAct} (ne : a ≠ .round) (guard : Net.Conforms t (.net (.dev a)))
    (st : txStep t (.net (.dev a)) = .ok t') : txRegions t' = txRegions t := by
  obtain ⟨c, step, rfl⟩ := Net.txStep_net st
  have eff : DevEffect Net.virtioNetRecvRequest t.c a c := devStep_effect step
  refine congrArg queueRegions (show c.s.queue 1 = t.qs from ?_)
  cases eff with
  | guest _ => exact (Net.LeavesTx.of_ok guard step).1
  | mmioRead _ _ => rfl
  | mmioWrite _ _ => exact (Net.LeavesTx.of_ok guard step).1
  | start _ _ =>
    rw [Machine.startNotify_s]
    rfl
  | round _ _ _ => exact absurd rfl ne
  | done _ _ => rfl

/-- A round for the transmit queue writes its used ring only. -/
lemma tx_round (h : Net.Inv t) (st : txStep t (.net (.dev .round)) = .ok t') :
    Frame (area (txRegions t)) t.mem t'.mem ∧ txRegions t' = txRegions t := by
  obtain ⟨c, step, rfl⟩ := Net.txStep_net st
  have eff : DevEffect Net.virtioNetRecvRequest t.c .round c := devStep_effect step
  cases eff with
  | start _ yes => cases yes
  | @round q a w go s' ctl ne eq =>
    obtain ⟨rfl, -, -⟩ := h.ctl _ _ _ ctl
    obtain ⟨dev, eq'⟩ := h.round_eq ((h.last_ne ctl).mp ne)
    rw [eq'] at eq
    cases eq
    constructor
    · have mem : (Net.answered t dev).mem = publishUsed t.mem t.qs (nextHead t.c.s 1) 0 := by
        simp [Net.answered, TxMachine.mem, TxMachine.qs, advance, VirtioDevice.updQueue]
      change Frame _ _ (Net.answered t dev).mem
      rw [mem]
      exact frame_publishUsed h.rings.ring (List.Subset.refl _)
    · have queue : (Net.answered t dev).qs = t.qs.advanced := by
        simp only [Net.answered, TxMachine.qs, advance_queue, virtioConsumeDesc_queue]
      change queueRegions (Net.answered t dev).qs = _
      rw [queue]
      rfl

end Transmit

end Mvvmm.Shared
