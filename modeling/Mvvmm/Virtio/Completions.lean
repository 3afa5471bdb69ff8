import Mvvmm.Virtio.Mmio
import Mvvmm.Virtio.Ring

/-!
# Completions

Whole sequences of calls of `virtio_consume_desc` on one queue, with stores of the driver outside the used ring in between
(`RingAct`, `ringRun`). The index of the used ring counts the completions modulo `2 ^ 16`, and as the size of the ring
divides `2 ^ 16`, the entry number `i` is in the cell of `u + i`, where `u` is the index at the beginning. Nobody takes
entries out of the ring, so it holds the last ones (`Ring.Recent`).

`Filed` is the invariant of such a run and `Filed.complete` its step for a completion. The interrupts follow
`avail.flags` as the device reads it at the end of each completion (`InterruptsOn`).
-/

namespace Mvvmm.Virtio
open Bytes CMem

variable {B : Type} {s t : VirtioDevice B} {q : Fin maxQueue} {m : GuestMemMap} {qs : QueueState} {head k p : Nat}
  {len : Int} {l : List UInt8} {a : RingAct} {acts : List RingAct}

/-- The bytes of a cell of the used ring. -/
def usedEntry (m : GuestMemMap) (qs : QueueState) (k : Nat) : List UInt8 :=
  m.load (qs.usedAddr.toNat + 4 + 8 * k) 8

/-- The bytes of an entry: the head and the length, as 32-bit words. -/
def entryBytes (c : Nat × Int) : List UInt8 :=
  leBytes 4 (UInt32.ofNat c.1).toNat ++ leBytes 4 (UInt32.ofInt c.2).toNat

/-- What happens to the used ring of a queue and to the memory around it. -/
inductive RingAct where
  /-- The driver stores bytes. -/
  | guest (p : Nat) (l : List UInt8)
  /-- The device calls `virtio_consume_desc`. -/
  | complete (head : Nat) (len : Int)
  deriving DecidableEq, Repr

namespace RingAct

/-- The head and the length that are passed to `virtio_consume_desc`. -/
def completion? : RingAct → Option (Nat × Int)
  | guest _ _ => none
  | complete head len => some (head, len)

/-- The memory after the driver's part of an act. -/
def stored (m : GuestMemMap) : RingAct → GuestMemMap
  | guest p l => m.store p l
  | complete _ _ => m

/-- The driver does not store into the used ring. -/
def Off (qs : QueueState) : RingAct → Prop
  | guest p l => Apart p l.length qs.usedAddr.toNat (4 + 8 * qs.num.toNat)
  | complete _ _ => True

instance (qs : QueueState) : DecidablePred (Off qs)
  | guest p l => inferInstanceAs (Decidable (Apart p l.length qs.usedAddr.toNat (4 + 8 * qs.num.toNat)))
  | complete _ _ => instDecidableTrue

end RingAct

/-- The device after an act. -/
def ringStep (q : Fin maxQueue) (s : VirtioDevice B) : RingAct → VirtioDevice B
  | .guest p l => { s with mem := s.mem.store p l }
  | .complete head len => virtioConsumeDesc s q head len

/-- The device after a sequence of acts. -/
def ringRun (q : Fin maxQueue) (s : VirtioDevice B) (acts : List RingAct) : VirtioDevice B :=
  acts.foldl (ringStep q) s

/-- The completions among some acts. -/
def completions (acts : List RingAct) : List (Nat × Int) :=
  acts.filterMap RingAct.completion?

/-- The memory with the driver's stores only. -/
def storedBy (m : GuestMemMap) (acts : List RingAct) : GuestMemMap :=
  acts.foldl RingAct.stored m

/-- The byte belongs to the index of the used ring, or to one of `k` cells from the one of `u` on. -/
def Rewritten (qs : QueueState) (u k p : Nat) : Prop :=
  (qs.usedAddr.toNat + 2 ≤ p ∧ p < qs.usedAddr.toNat + 4) ∨
    ∃ i < k, qs.usedAddr.toNat + 4 + 8 * ((u + i) % qs.num.toNat) ≤ p ∧
      p < qs.usedAddr.toNat + 12 + 8 * ((u + i) % qs.num.toNat)

/-- Bit 0 of `avail.flags`, as the device reads it, is clear. -/
def InterruptsOn (q : Fin maxQueue) (s : VirtioDevice B) : Prop :=
  virtioRead16 s.mem (s.queue q).availAddr &&& 1 = 0

instance (q : Fin maxQueue) (s : VirtioDevice B) : Decidable (InterruptsOn q s) :=
  inferInstanceAs (Decidable (_ = _))

/-- For an available ring that `virtio_read16` can read, this is the lowest bit of its first byte. -/
lemma interruptsOn_iff (even : (s.queue q).availAddr.toNat % 2 = 0) (le : (s.queue q).availAddr.toNat ≤ s.mem.size) :
    InterruptsOn q s ↔ (s.mem.hostMem (s.queue q).availAddr.toNat).toNat % 2 = 0 := by
  have bit : (1 : UInt16).toNat = 2 ^ 1 - 1 := rfl
  rw [InterruptsOn, ← UInt16.toNat_inj, UInt16.toNat_and, virtioRead16_toNat even le, bit, Nat.and_two_pow_sub_one_eq_mod]
  simp only [GuestMemMap.load, slice, leNat_cons, leNat_nil]
  change _ % 2 = 0 ↔ _
  omega

/-- Whether bit 0 of `avail.flags` was clear, for each completion. -/
def signals (q : Fin maxQueue) : VirtioDevice B → List RingAct → List Bool
  | _, [] => []
  | s, .guest p l :: acts => signals q (ringStep q s (.guest p l)) acts
  | s, .complete head len :: acts =>
    let s' := ringStep q s (.complete head len)
    decide (InterruptsOn q s') :: signals q s' acts

/-! ## Runs -/

/-- One more step of the ring. -/
lemma ringRun_concat : ringRun q s (acts ++ [a]) = ringStep q (ringRun q s acts) a := by
  rw [ringRun, List.foldl_append]
  rfl

/-- One more store of the guest. -/
lemma storedBy_concat : storedBy m (acts ++ [a]) = a.stored (storedBy m acts) := by
  rw [storedBy, List.foldl_append]
  rfl

/-- A store of the guest completes nothing. -/
lemma completions_guest : completions (acts ++ [.guest p l]) = completions acts := by
  simp [completions, RingAct.completion?]

/-- A completion comes behind those before it. -/
lemma completions_complete : completions (acts ++ [.complete head len]) = completions acts ++ [(head, len)] := by
  simp [completions, RingAct.completion?]

/-- What is rewritten stays so with more completions. -/
lemma Rewritten.mono {u k k' : Nat} (h : Rewritten qs u k p) (le : k ≤ k') : Rewritten qs u k' p := by
  rcases h with index | ⟨i, hi, cell⟩
  · exact .inl index
  · exact .inr ⟨i, by omega, cell⟩

/-! ## One entry -/

namespace UsedInside
variable (inside : UsedInside m qs)
include inside

/-- An entry changes the bytes of its cell and of the index only. -/
lemma publishUsed_other (index : ¬ (qs.usedAddr.toNat + 2 ≤ p ∧ p < qs.usedAddr.toNat + 4))
    (cell : ¬ (qs.usedAddr.toNat + 4 + 8 * usedCell m qs ≤ p ∧ p < qs.usedAddr.toNat + 12 + 8 * usedCell m qs)) :
    (publishUsed m qs head len).hostMem p = m.hostMem p := by
  rw [inside.publishUsed_eq]
  simp only [GuestMemMap.store]
  rw [eqOn_splice, eqOn_splice, eqOn_splice] <;>
  · simp only [Set.mem_compl_iff, Set.mem_Ico, leBytes_length]
    omega

/-- The entry that is published can be read. -/
lemma usedEntry_publishUsed : usedEntry (publishUsed m qs head len) qs (usedCell m qs) = entryBytes (head, len) := by
  have pair : splice (splice m.hostMem (qs.usedAddr.toNat + 4 + 8 * usedCell m qs) (leBytes 4 (UInt32.ofNat head).toNat))
      (qs.usedAddr.toNat + 8 + 8 * usedCell m qs) (leBytes 4 (UInt32.ofInt len).toNat) =
      splice m.hostMem (qs.usedAddr.toNat + 4 + 8 * usedCell m qs) (entryBytes (head, len)) := by
    rw [entryBytes, ← splice_append, leBytes_length]
    congr 1
    omega
  have length : (entryBytes (head, len)).length = 8 := by simp [entryBytes]
  rw [usedEntry, inside.publishUsed_eq]
  simp only [GuestMemMap.load, GuestMemMap.store]
  rw [slice_splice_disjoint (by simp only [leBytes_length]; omega), pair, slice_splice_of_length length]

/-- The other entries stay. -/
lemma usedEntry_publishUsed_other (ne : k ≠ usedCell m qs) :
    usedEntry (publishUsed m qs head len) qs k = usedEntry m qs k := by
  rw [usedEntry, usedEntry, GuestMemMap.load, GuestMemMap.load]
  refine slice_congr fun i hi => inside.publishUsed_other ?_ ?_
  · rw [Set.mem_Ico] at hi
    omega
  · rw [Set.mem_Ico] at hi
    omega

end UsedInside

/-! ## The used ring -/

/-- What a run has done to the used ring and to the memory around it. -/
structure Filed (q : Fin maxQueue) (s : VirtioDevice B) (acts : List RingAct) (t : VirtioDevice B) : Prop where
  queue : t.queue = s.queue
  size : t.mem.size = s.mem.size
  index : usedIdx t.mem (s.queue q) = .ofNat ((usedIdx s.mem (s.queue q)).toNat + (completions acts).length)
  cells : Ring.Recent (s.queue q).num.toNat (usedEntry t.mem (s.queue q)) (usedIdx s.mem (s.queue q)).toNat
    ((completions acts).map entryBytes)
  rest : ∀ p, ¬ Rewritten (s.queue q) (usedIdx s.mem (s.queue q)).toNat (completions acts).length p →
    t.mem.hostMem p = (storedBy s.mem acts).hostMem p

/-- Nothing is filed at the beginning. -/
lemma filed_nil (q : Fin maxQueue) (s : VirtioDevice B) : Filed q s [] s where
  queue := rfl
  size := rfl
  index := by simp [completions]
  cells := .nil
  rest _ _ := rfl

section Ring
variable (pow : (s.queue q).num.toNat.isPowerOfTwo) (le : (s.queue q).num.toNat ≤ 2 ^ 16)
  (inside : UsedRingInside s.mem.size (s.queue q)) (filed : Filed q s acts t)

include inside filed in

/-- The next entry lies in guest memory at any time. -/
lemma Filed.usedInside : UsedInside t.mem (s.queue q) := by
  rw [← filed.size] at inside
  exact inside.usedInside

include pow le filed in
/-- The next entry goes to the cell of the number of entries so far. -/
lemma Filed.usedCell : usedCell t.mem (s.queue q) =
    ((usedIdx s.mem (s.queue q)).toNat + (completions acts).length) % (s.queue q).num.toNat := by
  rw [Virtio.usedCell, mask_eq_mod _ pow, filed.index, ofNat_mod_num pow le]

include inside filed in
/-- A store of the driver outside the used ring. -/
lemma Filed.guest (off : RingAct.Off (s.queue q) (.guest p l)) :
    Filed q s (acts ++ [.guest p l]) (ringStep q t (.guest p l)) := by
  have apart : Apart p l.length _ _ := off
  have same : Set.EqOn (t.mem.store p l).hostMem t.mem.hostMem (usedSpan (s.queue q)) :=
    eqOn_splice.mono apart.symm.subset_compl
  refine ⟨filed.queue, filed.size, ?_, ?_, ?_⟩
  · rw [completions_guest, ← filed.index]
    exact (filed.usedInside inside).usedIdx_congr rfl (same.mono (Set.Ico_subset_Ico (by omega) (by omega)))
  · rw [completions_guest]
    refine filed.cells.congr fun k hk => ?_
    rw [usedEntry, usedEntry, GuestMemMap.load, GuestMemMap.load]
    exact slice_congr (same.mono (Set.Ico_subset_Ico (by omega) (by omega)))
  · rw [completions_guest, storedBy_concat]
    intro i hi
    have before := filed.rest i hi
    simp only [ringStep, RingAct.stored, GuestMemMap.store, splice, before]

include pow le inside filed in
/-- A completion. -/
lemma Filed.complete (head : Nat) (len : Int) :
    Filed q s (acts ++ [.complete head len]) (ringStep q t (.complete head len)) := by
  have cell := filed.usedCell pow le
  have usedInside := filed.usedInside inside
  have mem : (ringStep q t (.complete head len)).mem = publishUsed t.mem (s.queue q) head len := by
    rw [ringStep, virtioConsumeDesc_mem, filed.queue]
  refine ⟨?_, ?_, ?_, ?_, ?_⟩
  · rw [ringStep, virtioConsumeDesc_queue, filed.queue]
  · rw [mem, publishUsed_size, filed.size]
  · rw [mem, usedInside.usedIdx_publishUsed, filed.index, completions_complete, List.length_append, ← ofNat_succ]
    rfl
  · rw [mem, completions_complete, List.map_append]
    refine filed.cells.push (x := entryBytes (head, len)) ?_ ?_
    · rw [List.length_map, ← cell]
      exact fun k ne => usedInside.usedEntry_publishUsed_other ne
    · rw [List.length_map, ← cell]
      exact usedInside.usedEntry_publishUsed
  · rw [mem, completions_complete, List.length_append, storedBy_concat]
    intro p hp
    rw [RingAct.stored, ← filed.rest p fun h => hp (h.mono (by omega))]
    refine usedInside.publishUsed_other (fun index => hp (.inl index)) fun written => hp (.inr ⟨_, Nat.lt_succ_self _, ?_⟩)
    rw [← cell]
    exact written

include pow le inside in
/-- Over a whole run. -/
lemma filed_run (off : ∀ a ∈ acts, a.Off (s.queue q)) : Filed q s acts (ringRun q s acts) := by
  induction acts using List.reverseRecOn with
  | nil => exact filed_nil q s
  | append_singleton acts a ih =>
    have before := ih fun a ha => off a (List.mem_append_left _ ha)
    rw [ringRun_concat]
    cases a with
    | guest p l => exact before.guest inside (off _ (List.mem_append_right _ List.mem_cons_self))
    | complete head len => exact before.complete pow le inside head len

end Ring

/-! ## Interrupts -/

/-- A completion sets bit 0 of `int_status` and signals an interrupt if and only if bit 0 of `avail.flags` is clear. -/
lemma virtioConsumeDesc_signal (s : VirtioDevice B) (q : Fin maxQueue) (head : Nat) (len : Int) :
    (virtioConsumeDesc s q head len).irqs =
        (if InterruptsOn q (virtioConsumeDesc s q head len) then .trigger :: s.irqs else s.irqs) ∧
      (virtioConsumeDesc s q head len).intStatus =
        if InterruptsOn q (virtioConsumeDesc s q head len) then s.intStatus ||| 1 else s.intStatus := by
  have on : InterruptsOn q (virtioConsumeDesc s q head len) ↔
      virtioRead16 (publishUsed s.mem (s.queue q) head len) (s.queue q).availAddr &&& 1 = 0 := by
    rw [InterruptsOn, virtioConsumeDesc_mem, virtioConsumeDesc_queue]
  by_cases clear : virtioRead16 (publishUsed s.mem (s.queue q) head len) (s.queue q).availAddr &&& 1 = 0
  · rw [if_pos (on.mpr clear), if_pos (on.mpr clear)]
    simp only [virtioConsumeDesc, ne_eq, clear, not_true, if_false, and_self]
  · rw [if_neg (mt on.mp clear), if_neg (mt on.mp clear)]
    simp only [virtioConsumeDesc, ne_eq, clear, not_false_iff, if_true, and_self]

/-- There is one interrupt for each completion that is signalled. -/
lemma ringRun_irqs : (ringRun q s acts).irqs = List.replicate ((signals q s acts).count true) .trigger ++ s.irqs := by
  induction acts generalizing s with
  | nil => rfl
  | cons a acts ih =>
    have run : ringRun q s (a :: acts) = ringRun q (ringStep q s a) acts := rfl
    rw [run, ih]
    cases a with
    | guest p l => rfl
    | complete head len =>
      have irqs := (virtioConsumeDesc_signal s q head len).1
      simp only [signals, ringStep, List.count_cons] at irqs ⊢
      rw [irqs]
      split
      · rename_i on
        simp [on, List.replicate_succ', List.append_assoc]
      · rename_i on
        simp [on]

/-- The status of the interrupt is set by the completions that are signalled. -/
lemma ringRun_intStatus :
    (ringRun q s acts).intStatus = if true ∈ signals q s acts then s.intStatus ||| 1 else s.intStatus := by
  induction acts generalizing s with
  | nil => rfl
  | cons a acts ih =>
    have run : ringRun q s (a :: acts) = ringRun q (ringStep q s a) acts := rfl
    rw [run, ih]
    cases a with
    | guest p l => rfl
    | complete head len =>
      have status := (virtioConsumeDesc_signal s q head len).2
      simp only [signals, ringStep, List.mem_cons] at status ⊢
      rw [status]
      by_cases on : InterruptsOn q (virtioConsumeDesc s q head len)
      · -- Bit 0 is set by now, and stays set.
        simp only [on, decide_true, true_or, if_true, UInt32.or_assoc, UInt32.or_self, ite_self]
      · simp only [on, decide_false, Bool.true_eq_false, false_or, if_false]

/-- After any number of completions on one queue, with stores of the driver outside the used ring in between: the index has
counted them, the last ones are in the ring, the rest of the memory is as the driver has left it, and each of them has set
bit 0 of `int_status` and signalled an interrupt if and only if bit 0 of `avail.flags` was clear. -/
theorem completions_published (s : VirtioDevice B) (q : Fin maxQueue) (acts : List RingAct)
    (pow : (s.queue q).num.toNat.isPowerOfTwo) (le : (s.queue q).num.toNat ≤ 2 ^ 16)
    (inside : UsedRingInside s.mem.size (s.queue q)) (off : ∀ a ∈ acts, a.Off (s.queue q)) :
    let qs := s.queue q
    let u := (usedIdx s.mem qs).toNat
    let cs := completions acts
    let s' := ringRun q s acts
    (usedIdx s'.mem qs).toNat = (u + cs.length) % 2 ^ 16 ∧
    (∀ i c, cs[i]? = some c → cs.length ≤ i + qs.num.toNat →
      usedEntry s'.mem qs ((u + i) % qs.num.toNat) = entryBytes c) ∧
    (∀ p, ¬ Rewritten qs u cs.length p → s'.mem.hostMem p = (storedBy s.mem acts).hostMem p) ∧
    (s'.irqs = List.replicate ((signals q s acts).count true) .trigger ++ s.irqs ∧
      s'.intStatus = if true ∈ signals q s acts then s.intStatus ||| 1 else s.intStatus) ∧
    ∀ before head len after, acts = before ++ .complete head len :: after →
      let t := ringRun q s before
      let t' := ringRun q s (before ++ [.complete head len])
      t'.irqs = (if InterruptsOn q t' then .trigger :: t.irqs else t.irqs) ∧
        t'.intStatus = (if InterruptsOn q t' then t.intStatus ||| 1 else t.intStatus) ∧
        (qs.availAddr.toNat % 2 = 0 → qs.availAddr.toNat ≤ s.mem.size →
          (InterruptsOn q t' ↔ (t'.mem.hostMem qs.availAddr.toNat).toNat % 2 = 0)) := by
  have filed := filed_run pow le inside off
  refine ⟨?_, ?_, filed.rest, ⟨ringRun_irqs, ringRun_intStatus⟩, ?_⟩
  · rw [filed.index, UInt16.toNat_ofNat']
  · intro i c hc recent
    refine filed.cells i (entryBytes c) ?_ (by rwa [List.length_map])
    rw [List.getElem?_map, hc]
    rfl
  · intro before head len after eq t t'
    have part : t' = virtioConsumeDesc t q head len := ringRun_concat
    obtain ⟨irqs, status⟩ := virtioConsumeDesc_signal t q head len
    rw [← part] at irqs status
    refine ⟨irqs, status, ?_⟩
    have filed' : Filed q s (before ++ [.complete head len]) t' := by
      refine filed_run pow le inside fun a ha => off a ?_
      rw [eq, ← List.singleton_append, ← List.append_assoc]
      exact List.mem_append_left _ ha
    rw [← filed'.queue, ← filed'.size]
    exact interruptsOn_iff

/-- A device whose first queue has two entries, its rings at 256 and 512, and an index just before it wraps around. -/
def wrappingDevice : VirtioDevice Unit :=
  { virtioInit (.onePage fun p => if p = 514 ∨ p = 515 then 255 else 0) 0 0 2 () with
    queue := fun _ => ⟨1, 2, 0, 0, 256, 512, false⟩ }

/-- Three completions, for the second of which the driver suppresses the interrupt. -/
def threeCompletions : List RingAct :=
  [.complete 0 8, .guest 256 [1], .complete 1 16, .guest 256 [0], .complete 0 24]

/-- Three completions in a ring of two entries, with an index that wraps around. -/
theorem completions_published_wrapping :
    (usedIdx (ringRun 0 wrappingDevice threeCompletions).mem (wrappingDevice.queue 0)).toNat = 2 ∧
      usedEntry (ringRun 0 wrappingDevice threeCompletions).mem (wrappingDevice.queue 0) 0 = [1, 0, 0, 0, 16, 0, 0, 0] ∧
      usedEntry (ringRun 0 wrappingDevice threeCompletions).mem (wrappingDevice.queue 0) 1 = [0, 0, 0, 0, 24, 0, 0, 0] ∧
      (ringRun 0 wrappingDevice threeCompletions).irqs = [.trigger, .trigger] := by
  obtain ⟨index, cells, -, ⟨irqs, -⟩, -⟩ := completions_published wrappingDevice 0 threeCompletions ⟨1, rfl⟩ (by decide)
    (by decide) (by decide)
  exact ⟨index, cells 1 (1, 16) rfl (by decide), cells 2 (0, 24) rfl (by decide), irqs⟩

end Mvvmm.Virtio
