import Mvvmm.Virtio.Ring

/-!
# A queue between a driver and the device

What the two sides of a queue know of each other. `Rings m qs avail used popped consumed` says that in the
guest memory `m` the driver has made the heads `avail` available, of which the device has popped the first
`popped`, that the device has answered the heads `used`, of which the driver has read the first `consumed`,
and that the three 16-bit counters stand for these numbers. The entries that are still to be read are in
their cells. `AvailRing` is the half of it that is about the available ring alone.

Each step of either side keeps this: the device pops a head (`Rings.pop`) or answers one (`Rings.answer`),
the driver makes heads available (`Rings.publish`) or reads an answer (`Rings.consume`), and everything else
must leave alone what is still to be read (`KeepsRings`).
-/

namespace Mvvmm.Virtio
open Bytes CMem Ring

variable {B : Type} {s : VirtioDevice B} {q : Fin maxQueue} {m m' : GuestMemMap} {qs : QueueState}
  {avail used : List Nat} {popped consumed k : Nat}

/-- The state of the available ring of a queue. -/
structure AvailRing (m : GuestMemMap) (qs : QueueState) (avail : List Nat) (popped : Nat) : Prop where
  ring : RingOk m.size qs
  availCount : virtioRead16 m (qs.availAddr + 2) = .ofNat avail.length
  lastCount : qs.lastAvailIdx = .ofNat popped
  room : avail.length ≤ popped + qs.num.toNat
  popped_le : popped ≤ avail.length
  slots : Holds qs.num.toNat (availSlot m qs) avail popped avail.length

/-- A guest memory in which the index of the available ring and the cells of the heads not yet popped are as
they were. -/
@[mk_iff]
structure KeepsAvail (m m' : GuestMemMap) (qs : QueueState) (avail popped : Nat) : Prop where
  availIdx : virtioRead16 m' (qs.availAddr + 2) = virtioRead16 m (qs.availAddr + 2)
  slots : ∀ i < avail, popped ≤ i →
    availSlot m' qs (i % qs.num.toNat) = availSlot m qs (i % qs.num.toNat)

instance (m m' : GuestMemMap) (qs : QueueState) (avail popped : Nat) :
    Decidable (KeepsAvail m m' qs avail popped) :=
  decidable_of_iff' _ (keepsAvail_iff m m' qs avail popped)

/-- The state of a queue between a driver and the device. -/
structure Rings (m : GuestMemMap) (qs : QueueState) (avail used : List Nat) (popped consumed : Nat) :
    Prop where
  ring : RingOk m.size qs
  availCount : virtioRead16 m (qs.availAddr + 2) = .ofNat avail.length
  lastCount : qs.lastAvailIdx = .ofNat popped
  usedCount : usedIdx m qs = .ofNat used.length
  room : avail.length ≤ consumed + qs.num.toNat
  popped_le : popped ≤ avail.length
  used_le : used.length ≤ popped
  consumed_le : consumed ≤ used.length
  slots : Holds qs.num.toNat (availSlot m qs) avail popped avail.length
  ids : Holds qs.num.toNat (usedId m qs) used consumed used.length

/-- A guest memory in which what the two sides still have to read in the rings is as it was: the two
indices, the cells of the heads not yet popped, and those of the answers not yet read. -/
@[mk_iff]
structure KeepsRings (m m' : GuestMemMap) (qs : QueueState) (avail used popped consumed : Nat) : Prop where
  availIdx : virtioRead16 m' (qs.availAddr + 2) = virtioRead16 m (qs.availAddr + 2)
  usedIdx : usedIdx m' qs = usedIdx m qs
  slots : ∀ i < avail, popped ≤ i →
    availSlot m' qs (i % qs.num.toNat) = availSlot m qs (i % qs.num.toNat)
  ids : ∀ i < used, consumed ≤ i → usedId m' qs (i % qs.num.toNat) = usedId m qs (i % qs.num.toNat)

instance (m m' : GuestMemMap) (qs : QueueState) (avail used popped consumed : Nat) :
    Decidable (KeepsRings m m' qs avail used popped consumed) :=
  decidable_of_iff' _ (keepsRings_iff m m' qs avail used popped consumed)

/-- A memory that is not changed keeps the rings. -/
lemma KeepsRings.refl {a u p c : Nat} : KeepsRings m m qs a u p c :=
  ⟨rfl, rfl, fun _ _ _ => rfl, fun _ _ _ => rfl⟩

/-- A guest memory that agrees on the two rings. -/
lemma KeepsRings.of_eqOn {a u p c : Nat} (ok : RingOk m.size qs) (size : m'.size = m.size)
    (ea : Set.EqOn m'.hostMem m.hostMem (availSpan qs)) (eu : Set.EqOn m'.hostMem m.hostMem (usedSpan qs)) :
    KeepsRings m m' qs a u p c where
  availIdx := availIdx_congr ok size ea
  usedIdx := usedIdx_congr ok size eu
  slots i _ _ := availSlot_congr ea (Nat.mod_lt i ok.num_pos)
  ids i _ _ := usedId_congr eu (Nat.mod_lt i ok.num_pos)

/-- A memory that keeps the rings keeps the available ring. -/
lemma KeepsRings.keepsAvail {a u p c : Nat} (h : KeepsRings m m' qs a u p c) : KeepsAvail m m' qs a p :=
  ⟨h.availIdx, h.slots⟩

/-- A guest memory that agrees on the available ring. -/
lemma KeepsAvail.of_eqOn {a p : Nat} (ok : RingOk m.size qs) (size : m'.size = m.size)
    (ea : Set.EqOn m'.hostMem m.hostMem (availSpan qs)) : KeepsAvail m m' qs a p where
  availIdx := availIdx_congr ok size ea
  slots i _ _ := availSlot_congr ea (Nat.mod_lt i ok.num_pos)

/-- The positions of the part of the available ring that is still to be read: the index, and the cells of the heads that
have not been popped. -/
def unread (qs : QueueState) (avail popped : Nat) : List Nat :=
  List.range' (qs.availAddr.toNat + 2) 2 ++
    (List.range' popped (avail - popped)).flatMap fun i =>
      List.range' (qs.availAddr.toNat + 4 + 2 * (i % qs.num.toNat)) 2

/-- A guest memory that agrees on what is still to be read. -/
lemma KeepsAvail.of_unread {a p : Nat} (ok : RingOk m.size qs) (size : m'.size = m.size)
    (same : ∀ x ∈ unread qs a p, m'.hostMem x = m.hostMem x) : KeepsAvail m m' qs a p where
  availIdx := by
    have ha := ok.avail
    have al := ok.availAligned
    rw [virtioRead16_eq (by rw [availIdxAddr_toNat ok]; omega) (by rw [availIdxAddr_toNat ok]; omega),
      virtioRead16_eq (by rw [availIdxAddr_toNat ok]; omega) (by rw [availIdxAddr_toNat ok]; omega), availIdxAddr_toNat ok]
    simp only [GuestMemMap.load]
    rw [slice_congr fun x hx => same x (List.mem_append_left _ (List.mem_range'_1.mpr hx))]
  slots i hi hp := by
    simp only [availSlot, GuestMemMap.load]
    rw [slice_congr fun x hx => same x (List.mem_append_right _ (List.mem_flatMap.mpr
      ⟨i, List.mem_range'_1.mpr (by omega), List.mem_range'_1.mpr hx⟩))]

/-- The heads in the next cells of the available ring, after the first `n` heads. -/
def nextHeads (m : GuestMemMap) (qs : QueueState) (n k : Nat) : List Nat :=
  (List.range k).map fun i => availSlot m qs ((n + i) % qs.num.toNat)

section Avail
variable (h : AvailRing m qs avail popped)
include h

/-- The available ring stays if the memory keeps it. -/
lemma AvailRing.keep (size : m'.size = m.size) (keeps : KeepsAvail m m' qs avail.length popped) :
    AvailRing m' qs avail popped where
  ring := size ▸ h.ring
  availCount := keeps.availIdx.trans h.availCount
  lastCount := h.lastCount
  room := h.room
  popped_le := h.popped_le
  slots := h.slots.congr fun i h1 h2 => keeps.slots i h2 h1

/-- A pop advances in the available ring. -/
lemma AvailRing.pop (lt : popped < avail.length) : AvailRing m qs.advanced avail (popped + 1) where
  ring := h.ring.advanced
  availCount := h.availCount
  lastCount := by
    rw [ofNat_succ, ← h.lastCount]
    rfl
  room := h.room.trans (by simp only [QueueState.advanced]; omega)
  popped_le := lt
  slots := h.slots.mono (Nat.le_succ _) le_rfl

/-- The driver puts the next heads behind those in the available ring. -/
lemma AvailRing.publish (room : avail.length + k ≤ popped + qs.num.toNat) :
    AvailRing (publishAvail m qs (.ofNat (avail.length + k))) qs (avail ++ nextHeads m qs avail.length k)
      popped := by
  have len : (avail ++ nextHeads m qs avail.length k).length = avail.length + k := by simp [nextHeads]
  constructor
  case ring => exact h.ring
  case availCount => rw [len]; exact availIdx_publishAvail h.ring
  case lastCount => exact h.lastCount
  case room => rw [len]; exact room
  case popped_le => rw [len]; exact h.popped_le.trans (Nat.le_add_right _ _)
  case slots =>
    intro i h1 h2
    rw [len] at h2
    rw [availSlot_publishAvail]
    by_cases old : i < avail.length
    · exact h.slots.append i h1 old
    · exact Holds.of_map rfl i (by omega) h2

/-- There is something to pop if and only if the device's counter has not reached an index it has seen. -/
lemma AvailRing.last_ne {seen : Nat} (h1 : popped ≤ seen) (h2 : seen ≤ avail.length) :
    qs.lastAvailIdx ≠ .ofNat seen ↔ popped < seen := by
  have num := h.ring.num_lt
  have room := h.room
  rw [h.lastCount, Ne, ofNat_inj h1 (by omega)]
  omega

end Avail

/-- The next head of the device is the next head of the driver. -/
lemma AvailRing.next (h : AvailRing s.mem (s.queue q) avail popped) (lt : popped < avail.length) :
    avail[popped]? = some (nextHead s q) := by
  rw [nextHead_slot h.ring h.lastCount]
  exact h.slots _ le_rfl lt

/-- Nothing has happened on the queue yet. -/
lemma Rings.init (ring : RingOk m.size qs) (avail : virtioRead16 m (qs.availAddr + 2) = 0)
    (last : qs.lastAvailIdx = 0) (used : usedIdx m qs = 0) : Rings m qs [] [] 0 0 :=
  ⟨ring, avail, last, used, Nat.zero_le _, le_rfl, le_rfl, le_rfl, .empty, .empty⟩

section Steps
variable (h : Rings m qs avail used popped consumed)
include h

/-- The available ring of a queue. -/
lemma Rings.availRing : AvailRing m qs avail popped :=
  ⟨h.ring, h.availCount, h.lastCount,
    h.room.trans (Nat.add_le_add_right (h.consumed_le.trans h.used_le) _), h.popped_le, h.slots⟩

/-- A step that leaves alone what is still to be read. -/
lemma Rings.keep (size : m'.size = m.size)
    (keeps : KeepsRings m m' qs avail.length used.length popped consumed) :
    Rings m' qs avail used popped consumed where
  ring := size ▸ h.ring
  availCount := keeps.availIdx.trans h.availCount
  lastCount := h.lastCount
  usedCount := keeps.usedIdx.trans h.usedCount
  room := h.room
  popped_le := h.popped_le
  used_le := h.used_le
  consumed_le := h.consumed_le
  slots := h.slots.congr fun i h1 h2 => keeps.slots i h2 h1
  ids := h.ids.congr fun i h1 h2 => keeps.ids i h2 h1

/-- The device pops a head. -/
lemma Rings.pop (lt : popped < avail.length) : Rings m qs.advanced avail used (popped + 1) consumed :=
  { h.availRing.pop lt with
    usedCount := h.usedCount
    room := h.room
    used_le := h.used_le.trans (Nat.le_succ _)
    consumed_le := h.consumed_le
    ids := h.ids }

/-- The device answers a head: the entry goes to a cell that the driver has read. -/
lemma Rings.answer {head : Nat} {len : Int} (lt : used.length < popped) (small : head < qs.num.toNat) :
    Rings (publishUsed m qs head len) qs avail (used ++ [head]) popped consumed := by
  have frame : Set.EqOn (publishUsed m qs head len).hostMem m.hostMem (usedSpan qs)ᶜ :=
    publishUsed_frame h.ring
  have num := h.ring.num_lt
  have room := h.room
  have popped_le := h.popped_le
  have cell : (usedIdx m qs).toNat % qs.num.toNat = used.length % qs.num.toNat := by
    rw [h.usedCount, h.ring.cell]
  have len1 : (used ++ [head]).length = used.length + 1 := by simp
  constructor
  case ring => rw [publishUsed_size]; exact h.ring
  case availCount =>
    exact (availIdx_congr h.ring publishUsed_size (h.ring.eqOn_avail frame)).trans h.availCount
  case lastCount => exact h.lastCount
  case usedCount => rw [h.ring.usedInside.usedIdx_publishUsed, h.usedCount, len1, ofNat_succ]
  case room => exact h.room
  case popped_le => exact h.popped_le
  case used_le => rw [len1]; exact lt
  case consumed_le => rw [len1]; exact h.consumed_le.trans (Nat.le_succ _)
  case slots =>
    refine h.slots.congr ?_
    intro i _ _
    exact availSlot_congr (h.ring.eqOn_avail frame) (Nat.mod_lt i h.ring.num_pos)
  case ids =>
    rw [len1]
    refine h.ids.append.push (by omega) ?_ ?_
    · intro k ne
      exact usedId_publishUsed_other h.ring (cell ▸ ne)
    · rw [List.getElem?_append_right le_rfl, Nat.sub_self, ← cell,
        usedId_publishUsed_self h.ring (by omega)]
      rfl

/-- The driver makes the heads in the next cells available. -/
lemma Rings.publish (room : avail.length + k ≤ consumed + qs.num.toNat) :
    Rings (publishAvail m qs (.ofNat (avail.length + k))) qs (avail ++ nextHeads m qs avail.length k) used
      popped consumed := by
  have consumed_le := h.consumed_le
  have used_le := h.used_le
  have eu := publishAvail_eqOn_used (v := .ofNat (avail.length + k)) h.ring
  exact
    { h.availRing.publish (k := k) (by omega) with
      usedCount := (usedIdx_congr h.ring (by rfl) eu).trans h.usedCount
      room := by simpa [nextHeads] using room
      used_le := h.used_le
      consumed_le := h.consumed_le
      ids := h.ids.congr fun i _ _ => usedId_congr eu (Nat.mod_lt i h.ring.num_pos) }

/-- The driver reads an answer. -/
lemma Rings.consume (lt : consumed < used.length) : Rings m qs avail used popped (consumed + 1) :=
  { h with
    room := h.room.trans (by omega)
    consumed_le := lt
    ids := h.ids.mono (Nat.le_succ _) le_rfl }

/-- There is something to read if and only if the index of the used ring has moved. -/
lemma Rings.usedIdx_ne : usedIdx m qs ≠ .ofNat consumed ↔ consumed < used.length := by
  have num := h.ring.num_lt
  have room := h.room
  have le := h.popped_le
  have le' := h.used_le
  have le'' := h.consumed_le
  rw [h.usedCount, Ne, eq_comm, ofNat_inj le'' (by omega)]
  omega

/-- There is something to pop if and only if the device's counter has not reached an index it has seen. -/
lemma Rings.last_ne {seen : Nat} (h1 : popped ≤ seen) (h2 : seen ≤ avail.length) :
    qs.lastAvailIdx ≠ .ofNat seen ↔ popped < seen :=
  h.availRing.last_ne h1 h2

end Steps

/-- The next head of the device is the next head of the driver. -/
lemma Rings.next (h : Rings s.mem (s.queue q) avail used popped consumed) (lt : popped < avail.length) :
    avail[popped]? = some (nextHead s q) :=
  h.availRing.next lt

end Mvvmm.Virtio
