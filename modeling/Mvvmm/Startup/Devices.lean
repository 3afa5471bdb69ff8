import Mathlib.Data.Finset.Lattice.Lemmas
import Mvvmm.Startup.Programs

/-!
# What the devices take

For every function of the start-up of a device what it holds after it has succeeded, and what it leaves behind after
it has failed. The loops come first, each by induction on the queues or workers that are left; `init_backends` is about
the two functions as a whole.
-/

namespace Mvvmm.Startup
open Ledger Teardown

variable {ok : Call → Bool} {b b' : Books Item} {d : Device} {qs done is : List Nat} {Q : Unit → Books Item → Prop}

/-! ## The loops -/

/-- The ioeventfds of some queues. -/
def ioeventfds (d : Device) (qs : List Nat) : Finset Item :=
  (qs.map (Item.ioeventfd d)).toFinset

/-- The ioeventfds of some queues. -/
@[simp]
lemma mem_ioeventfds {r : Item} : r ∈ ioeventfds d qs ↔ ∃ q ∈ qs, Item.ioeventfd d q = r := by
  simp [ioeventfds]

/-- To take away one item and then others. -/
lemma erase_sdiff (F : Finset Item) (q : Nat) :
    F.erase (.ioeventfd d q) \ ioeventfds d qs = F \ ioeventfds d (q :: qs) := by
  ext r
  simp only [Finset.mem_sdiff, Finset.mem_erase, mem_ioeventfds, List.mem_cons]
  grind

/-- To add one item and then others. -/
lemma insert_union (F : Finset Item) (q : Nat) :
    insert (.ioeventfd d q) F ∪ ioeventfds d qs = F ∪ ioeventfds d (q :: qs) := by
  ext r
  simp only [Finset.mem_union, Finset.mem_insert, mem_ioeventfds, List.mem_cons]
  grind

/-- The workers with some ids, and their threads if they could be created. -/
def workerItems (ok : Call → Bool) (is : List Nat) : Finset Item :=
  (is.map .worker).toFinset ∪ ((is.filter fun i => ok (.createWorkerThread i)).map .workerThread).toFinset

/-- The items of some workers: each with its memory, and with a thread if it could be created. -/
@[simp]
lemma mem_workerItems {r : Item} :
    r ∈ workerItems ok is ↔ ∃ i ∈ is, .worker i = r ∨ ok (.createWorkerThread i) = true ∧ .workerThread i = r := by
  simp only [workerItems, Finset.mem_union, List.mem_toFinset, List.mem_map, List.mem_filter]
  grind

/-- Clearing the table of the ioeventfds forgets their names. -/
lemma ensures_clearIoeventfds :
    Ensures ok (clearIoeventfds d qs) Q b ↔ Q () { b with named := b.named \ ioeventfds d qs } := by
  induction qs generalizing b with
  | nil => simp [clearIoeventfds, ioeventfds]
  | cons q qs ih => simp [clearIoeventfds, ih, erase_sdiff]

/-- Unregistering ioeventfds closes all of them, and they must be open. -/
lemma ensures_unregisterAll (nodup : qs.Nodup) (named : ∀ q ∈ qs, .ioeventfd d q ∈ b.named) :
    Ensures ok (unregisterAll d qs) Q b ↔ (∀ q ∈ qs, .ioeventfd d q ∈ b.held) ∧
      Q () { b with held := b.held \ ioeventfds d qs, named := b.named \ ioeventfds d qs } := by
  induction qs generalizing b with
  | nil => simp [unregisterAll, ioeventfds]
  | cons q qs ih =>
    obtain ⟨new, nodup⟩ := List.nodup_cons.mp nodup
    have other : ∀ q' ∈ qs, Item.ioeventfd d q' ≠ .ioeventfd d q := by
      rintro q' mem eq
      exact new ((Item.ioeventfd.inj eq).2 ▸ mem)
    have head : .ioeventfd d q ∈ b.named := named q (by simp)
    simp only [unregisterAll, virtioIoeventfdUnregister, ensures_bind, ensures_isNamed, head, decide_true, if_true,
      ensures_drop, ensures_unname]
    rw [ih nodup fun q' mem => Finset.mem_erase.mpr ⟨other q' mem, named q' (by simp [mem])⟩]
    simp only [erase_sdiff, List.forall_mem_cons, and_assoc]
    refine and_congr_right fun _ => and_congr_left fun _ => forall₂_congr fun q' mem => ?_
    simp [other q' mem]

/-- The calls that register the ioeventfd of a queue succeed. -/
def registers (ok : Call → Bool) (d : Device) (q : Nat) : Bool :=
  ok (.ioEventfd d q) && ok (.kvmIoeventfd d q)

/-- Registering an ioeventfd opens it and puts it in the table, or fails. -/
lemma ensures_register {Q : Int → Books Item → Prop} {q : Nat} (fresh : .ioeventfd d q ∉ b.held)
    (yes : registers ok d q = true →
      Q 0 { b with held := insert (.ioeventfd d q) b.held, named := insert (.ioeventfd d q) b.named })
    (no : registers ok d q = false → ∀ e, Q (-1) { b with errors := e :: b.errors }) :
    Ensures ok (virtioIoeventfdRegister d q) Q b := by
  unfold registers at yes no
  cases fd : ok (.ioEventfd d q) with
  | false => simpa [virtioIoeventfdRegister, fd] using no (by simp [fd]) _
  | true =>
    cases kvm : ok (.kvmIoeventfd d q) with
    | false => simpa [virtioIoeventfdRegister, fd, kvm, fresh] using no (by simp [kvm]) _
    | true => simpa [virtioIoeventfdRegister, fd, kvm] using yes (by simp [fd, kvm])

/-- All queues are registered, or none. -/
lemma ensures_registerAll (nodup : (done ++ qs).Nodup) (held : ∀ q ∈ done, .ioeventfd d q ∈ b.held)
    (named : ∀ q ∈ done, .ioeventfd d q ∈ b.named) (fresh : ∀ q ∈ qs, .ioeventfd d q ∉ b.held) :
    Ensures ok (registerAll d done qs) (Returns (∀ q ∈ qs, registers ok d q = true) 0 (-1)
      (fun b' => b'.held = b.held ∪ ioeventfds d qs ∧ b'.named = b.named ∪ ioeventfds d qs)
      fun b' => b'.held = b.held \ ioeventfds d done) b := by
  induction qs generalizing b done with
  | nil => exact .ok (by simp) (by simp [ioeventfds])
  | cons q qs ih =>
    unfold registerAll
    rw [ensures_bind]
    apply ensures_register (fresh q (by simp))
    · intro yes
      have ne : ∀ q' ∈ qs, q' ≠ q := fun q' mem eq => (List.nodup_cons.mp nodup.of_append_right).1 (eq ▸ mem)
      refine Ensures.mono (ih ?_ ?_ ?_ ?_) ?_
      · exact List.perm_middle.nodup_iff.mp nodup
      · simpa using fun q' mem => .inr (held q' mem)
      · simpa using fun q' mem => .inr (named q' mem)
      · intro q' mem
        simpa [ne q' mem] using fresh q' (by simp [mem])
      · rintro ret b' (⟨all, held', named'⟩ | ⟨some, held'⟩)
        · exact .ok (by simpa [yes] using all) ⟨held'.trans (insert_union _ q), named'.trans (insert_union _ q)⟩
        · -- what was registered before is given back together with this one
          refine .fail (by simpa [yes] using some) (held'.trans ?_)
          rw [← erase_sdiff, Finset.erase_insert (fresh q (by simp))]
    · intro no e
      rw [if_pos (by decide), ensures_bind]
      refine (ensures_unregisterAll nodup.of_append_left ?_).mpr ⟨?_, ?_⟩
      · exact named
      · exact held
      · exact .fail (by simp [no]) rfl

/-- New workers are held with their threads, as far as these can be created. -/
lemma ensures_newWorkers (alloc : ∀ i, ok (.mallocWorker i) = true) :
    Ensures ok (newWorkers is) Q b ↔ Q () { b with held := b.held ∪ workerItems ok is } := by
  induction is generalizing b with
  | nil => simp [newWorkers, workerItems]
  | cons i is ih =>
    cases thread : ok (.createWorkerThread i) with
    | false =>
      have eq : insert (.worker i) b.held ∪ workerItems ok is = b.held ∪ workerItems ok (i :: is) := by
        ext r
        simp only [Finset.mem_union, Finset.mem_insert, mem_workerItems, List.mem_cons]
        grind
      simp [newWorkers, newWorkerThread, alloc, thread, ih, ← eq]
    | true =>
      have eq : insert (.workerThread i) (insert (.worker i) b.held) ∪ workerItems ok is =
          b.held ∪ workerItems ok (i :: is) := by
        ext r
        simp only [Finset.mem_union, Finset.mem_insert, mem_workerItems, List.mem_cons]
        grind
      simp [newWorkers, newWorkerThread, alloc, thread, ih, ← eq]

/-- The workers with some ids, and their threads. -/
def workersAndThreads (is : List Nat) : Finset Item :=
  (is.map .worker).toFinset ∪ (is.map .workerThread).toFinset

/-- The items of some workers with all of their threads. -/
@[simp]
lemma mem_workersAndThreads {r : Item} :
    r ∈ workersAndThreads is ↔ ∃ i ∈ is, .worker i = r ∨ .workerThread i = r := by
  simp only [workersAndThreads, Finset.mem_union, List.mem_toFinset, List.mem_map]
  grind

/-- Joining workers gives back all of them with their threads, and they must be held. -/
lemma ensures_joinWorkers (nodup : is.Nodup) :
    Ensures ok (joinWorkers is) Q b ↔ workersAndThreads is ⊆ b.held ∧
      Q () { b with held := b.held \ workersAndThreads is } := by
  induction is generalizing b with
  | nil => simp [joinWorkers, workersAndThreads]
  | cons i is ih =>
    obtain ⟨new, nodup⟩ := List.nodup_cons.mp nodup
    have rest : ((b.held.erase (.workerThread i)).erase (.worker i)) \ workersAndThreads is =
        b.held \ workersAndThreads (i :: is) := by
      ext r
      simp only [Finset.mem_sdiff, Finset.mem_erase, mem_workersAndThreads, List.mem_cons]
      grind
    simp only [joinWorkers, ensures_bind, ensures_touch, ensures_drop, ih nodup, rest, Finset.mem_erase]
    rw [← and_assoc, ← and_assoc, ← and_assoc]
    refine and_congr_left fun _ => ?_
    simp only [Finset.subset_iff, mem_workersAndThreads, List.mem_cons, Finset.mem_erase]
    grind

/-! ## The devices -/

/-- The calls of `virtio_irqfd_init` succeed. -/
def IrqfdGood (ok : Call → Bool) (d : Device) : Prop :=
  ok (.irqEventfd d) = true ∧ ok (.kvmIrqfd d) = true

instance : Decidable (IrqfdGood ok d) :=
  inferInstanceAs (Decidable (_ ∧ _))

/-- The calls of `virtio_ioeventfd_start` succeed. -/
def IoeventfdGood (ok : Call → Bool) (d : Device) : Prop :=
  (∀ q ∈ queues, registers ok d q = true) ∧ ok (.createPollThread d) = true

instance : Decidable (IoeventfdGood ok d) :=
  inferInstanceAs (Decidable (_ ∧ _))

/-- What a device holds for its interrupts and notifications. -/
def parts (d : Device) : Finset Item :=
  insert (.irqfd d) (insert (.pollThread d) (ioeventfds d queues))

/-- What it names. -/
def partNames (d : Device) : Finset Item :=
  insert (.irqfd d) (ioeventfds d queues)

/-- The set-up of the interrupt takes its descriptor or nothing. -/
lemma ensures_irqfdInit (fresh : .irqfd d ∉ b.held) :
    Ensures ok (virtioIrqfdInit d) (Returns (IrqfdGood ok d) 0 (-1)
      (fun b' => b'.held = insert (.irqfd d) b.held ∧ b'.named = insert (.irqfd d) b.named)
      fun b' => b'.held = b.held) b := by
  cases fd : ok (.irqEventfd d) with
  | false => simpa [virtioIrqfdInit, fd] using .fail (by simp [IrqfdGood, fd]) rfl
  | true =>
    cases kvm : ok (.kvmIrqfd d) with
    | false =>
      simp only [virtioIrqfdInit, ensures_bind, ensures_call, fd, kvm, ensures_gain, Bool.not_true, Bool.not_false,
        Bool.false_eq_true, if_true, if_false, ensures_say, ensures_drop, Finset.mem_insert_self, true_and, ensures_pure]
      exact .fail (by simp [IrqfdGood, kvm]) (Finset.erase_insert fresh)
    | true => simpa [virtioIrqfdInit, fd, kvm] using .ok ⟨fd, kvm⟩ ⟨rfl, rfl⟩

/-- The queues are numbered once each. -/
lemma queues_nodup : queues.Nodup := List.nodup_range

/-- The set-up of the ioeventfds takes all of them and the poll thread, or nothing. -/
lemma ensures_ioeventfdStart (fresh : ∀ q ∈ queues, .ioeventfd d q ∉ b.held) :
    Ensures ok (virtioIoeventfdStart d) (Returns (IoeventfdGood ok d) 0 (-1)
      (fun b' => b'.held = insert (.pollThread d) (b.held ∪ ioeventfds d queues) ∧
        b'.named = b.named ∪ ioeventfds d queues)
      fun b' => b'.held = b.held) b := by
  refine (ensures_registerAll (by simpa using queues_nodup) (by simp) (by simp) fresh).returns ?_ ?_
  · rintro all b' ⟨held, named⟩
    rw [if_neg (lt_irrefl 0)]
    cases poll : ok (.createPollThread d) with
    | false =>
      simp only [ensures_bind, ensures_call, poll, Bool.not_false, if_true, ensures_say]
      refine (ensures_unregisterAll queues_nodup fun q mem => ?_).mpr ⟨fun q mem => ?_, ?_⟩
      · simp [named, mem]
      · simp [held, mem]
      · refine .fail (by simp [IoeventfdGood, poll]) ?_
        rw [held, Finset.union_sdiff_right, Finset.sdiff_eq_self_iff_disjoint, Finset.disjoint_left]
        intro r mem
        simp only [mem_ioeventfds, not_exists, not_and]
        rintro q mem' rfl
        exact fresh q mem' mem
    | true =>
      simp only [ensures_bind, ensures_call, poll, Bool.not_true, Bool.false_eq_true, if_false, ensures_gain]
      exact .ok ⟨all, poll⟩ ⟨by rw [held], named⟩
  · intro some b' held
    rw [if_pos (by decide)]
    refine .fail (fun good => some good.1) (held.trans ?_)
    simp [ioeventfds]

/-- What `virtio_init` leaves behind when it fails: the descriptor of the interrupt. -/
def leakedIrqfd (ok : Call → Bool) (d : Device) : Finset Item :=
  if IrqfdGood ok d then {.irqfd d} else ∅

/-- Nothing of a device is held. -/
def Fresh (b : Books Item) (d : Device) : Prop :=
  .device d ∉ b.held ∧ Disjoint b.held (parts d)

/-- The set-up of the common part of a device takes all parts, or leaves the interrupt behind. -/
lemma ensures_virtioInit (fresh : Disjoint b.held (parts d)) :
    Ensures ok (virtioInit d) (Returns (IrqfdGood ok d ∧ IoeventfdGood ok d) 0 (-1)
      (fun b' => b'.held = b.held ∪ parts d ∧ b'.named = b.named ∪ partNames d)
      fun b' => b'.held = b.held ∪ leakedIrqfd ok d) b := by
  have irqfd : .irqfd d ∉ b.held := fun mem => Finset.disjoint_left.mp fresh mem (by simp [parts])
  have ioeventfd : ∀ q ∈ queues, .ioeventfd d q ∉ b.held :=
    fun q hq mem => Finset.disjoint_left.mp fresh mem (by simp [parts, hq])
  unfold virtioInit
  rw [ensures_bind, ensures_unname, ensures_bind, ensures_clearIoeventfds]
  refine (ensures_irqfdInit ?_).returns ?_ ?_
  · exact irqfd
  · rintro good b₁ ⟨held, named⟩
    rw [if_neg (lt_irrefl 0)]
    refine (ensures_ioeventfdStart fun q hq => ?_).returns ?_ ?_
    · simpa [held] using ioeventfd q hq
    · rintro good' b₂ ⟨held', named'⟩
      rw [if_neg (lt_irrefl 0)]
      refine .ok ⟨good, good'⟩ ⟨?_, ?_⟩
      · rw [held', held]
        grind [parts]
      · rw [named', named]
        grind [partNames]
    · intro bad b₂ held'
      rw [if_pos (by decide), ensures_bind, ensures_say]
      refine .fail (fun h => bad h.2) ?_
      simp [held', held, leakedIrqfd, good]
  · intro bad b₁ held
    rw [if_pos (by decide), ensures_bind, ensures_say]
    refine .fail (fun h => bad h.1) ?_
    simp [held, leakedIrqfd, bad]

/-- The set-up of a device takes it with all parts, or leaves the interrupt behind. -/
lemma ensures_deviceInit (alloc : ok (.mallocDevice d) = true) (fresh : Fresh b d) :
    Ensures ok (virtioDeviceInit d) (Returns (IrqfdGood ok d ∧ IoeventfdGood ok d) true false
      (fun b' => b'.held = insert (.device d) (b.held ∪ parts d) ∧ b'.named = b.named ∪ partNames d)
      fun b' => b'.held = b.held ∪ leakedIrqfd ok d) b := by
  obtain ⟨device, disjoint⟩ := fresh
  have other : .device d ∉ parts d := by simp [parts]
  unfold virtioDeviceInit
  simp only [ensures_bind, ensures_call, alloc, Bool.not_true, Bool.false_eq_true, if_false, ensures_gain]
  rw [← ensures_bind]
  refine (ensures_virtioInit ?_).returns ?_ ?_
  · exact (Finset.disjoint_insert_left).mpr ⟨other, disjoint⟩
  · rintro good b' ⟨held, named⟩
    rw [if_neg (lt_irrefl 0)]
    exact .ok good ⟨by rw [held, Finset.insert_union], named⟩
  · intro bad b' held
    have irqfd : .device d ∉ leakedIrqfd ok d := by
      unfold leakedIrqfd
      split <;> simp
    rw [if_pos (by decide), ensures_bind, ensures_drop]
    refine ⟨by simp [held], .fail bad ?_⟩
    simp only [held, Finset.insert_union]
    rw [Finset.erase_insert (by simp [device, irqfd])]

/-! ## The backends -/

/-- What `new_thread_pool` takes. -/
def poolItems (ok : Call → Bool) : Finset Item :=
  insert .isWorking (insert .workers (insert .pool (workerItems ok workerIds)))

/-- A new pool is held with its workers. -/
lemma ensures_newThreadPool (alloc : ∀ c, Unchecked c → ok c = true) :
    Ensures ok newThreadPool Q b ↔ Q () { b with held := b.held ∪ poolItems ok } := by
  simp only [newThreadPool, ensures_bind, ensures_call, alloc .mallocPool trivial, alloc .mallocWorkers trivial,
    alloc .mallocIsWorking trivial, Bool.not_true, Bool.false_eq_true, if_false, ensures_gain,
    ensures_newWorkers fun i => alloc (.mallocWorker i) trivial, poolItems, Finset.insert_union, Finset.union_insert]

/-- The calls that prepare a backend, up to its allocation, succeed. -/
def Opened (ok : Call → Bool) (d : Device) : Prop :=
  ok (.mallocCtx d) = true ∧ ok (.open d) = true ∧ ok (match d with | .blk => .fstat | .net => .tunsetiff) = true

instance : Decidable (Opened ok d) :=
  inferInstanceAs (Decidable (_ ∧ _))

/-- The backend is prepared and the device is initialised. -/
def DeviceGood (ok : Call → Bool) (d : Device) : Prop :=
  Opened ok d ∧ ok (.mallocBackend d) = true ∧ IrqfdGood ok d ∧ IoeventfdGood ok d

instance : Decidable (DeviceGood ok d) :=
  inferInstanceAs (Decidable (_ ∧ _))

/-- What a backend holds. -/
def prepared (d : Device) : Finset Item :=
  {.ctx d, .fd d, .backend d}

/-- What a device and its backend hold. -/
def owned (d : Device) : Finset Item :=
  prepared d ∪ insert (.device d) (parts d)

/-- A device may be initialised when nothing of it is held but its backend. -/
lemma fresh_of_subset {F : Finset Item} (apart : Disjoint F (owned d)) (sub : b.held ⊆ F ∪ prepared d) : Fresh b d := by
  have split : ∀ r ∈ b.held, r ∈ insert (.device d) (parts d) → False := by
    intro r mem other
    rcases Finset.mem_union.mp (sub mem) with old | new
    · exact Finset.disjoint_left.mp apart old (Finset.mem_union_right _ other)
    · simp only [prepared, parts, Finset.mem_insert, Finset.mem_singleton, mem_ioeventfds] at new other
      grind
  exact ⟨fun mem => split _ mem (by simp), Finset.disjoint_left.mpr fun r mem part => split r mem (by simp [part])⟩

/-- The end after a failure gives back the context, and what is in it or belongs to it so far. -/
lemma ensures_fail {Q : Int → Books Item → Prop} {F : Finset Item} {backend opened : Bool}
    (apart : Disjoint F (prepared d))
    (held : ∀ r, r ∈ b.held ↔ r ∈ F ∨ r = .ctx d ∨ opened = true ∧ r = .fd d ∨ backend = true ∧ r = .backend d)
    (post : ∀ b', b'.held = F → Q (-1) b') : Ensures ok (fail d backend opened) Q b := by
  have ctx : .ctx d ∉ F := fun mem => Finset.disjoint_left.mp apart mem (by simp [prepared])
  have fd : .fd d ∉ F := fun mem => Finset.disjoint_left.mp apart mem (by simp [prepared])
  have back : .backend d ∉ F := fun mem => Finset.disjoint_left.mp apart mem (by simp [prepared])
  have final : ∀ G : Finset Item, (∀ r, r ∈ G ↔ r ∈ F) → ∀ e n, Q (-1) ⟨G, n, e⟩ :=
    fun G same e n => post _ (Finset.ext same)
  cases backend <;> cases opened <;>
    · simp only [fail, Bool.false_eq_true, if_true, if_false, ensures_bind, ensures_drop, ensures_pure]
      grind

/-- What `mvvm_init_virtio_blk` leaves behind when it fails. -/
def blkLeak (ok : Call → Bool) : Finset Item :=
  if Opened ok .blk then
    poolItems ok ∪ if ok (.mallocBackend .blk) = true then leakedIrqfd ok .blk else ∅
  else
    ∅

/-- The pool is nothing that a device owns. -/
lemma disjoint_poolItems : Disjoint (poolItems ok) (owned d) := by
  rw [Finset.disjoint_left]
  intro r mem
  simp only [poolItems, Finset.mem_insert, mem_workerItems] at mem
  simp only [owned, prepared, parts, Finset.mem_union, Finset.mem_insert, Finset.mem_singleton, mem_ioeventfds]
  grind

/-- The interrupt that stays behind is nothing that was prepared before. -/
lemma disjoint_leakedIrqfd : Disjoint (leakedIrqfd ok d) (prepared d) := by
  unfold leakedIrqfd
  split <;> simp [prepared]

/-- What is prepared belongs to the device. -/
lemma prepared_subset : prepared d ⊆ owned d := Finset.subset_union_left

/-- The set-up of the block device takes all that it needs, or leaves the pool and perhaps the interrupt behind. -/
lemma ensures_initBlk (alloc : ∀ c, Unchecked c → ok c = true) (fresh : Disjoint b.held (owned .blk)) :
    Ensures ok mvvmInitVirtioBlk (Returns (DeviceGood ok .blk) 0 (-1)
      (fun b' => b'.held = b.held ∪ owned .blk ∪ poolItems ok ∧
        b'.named = insert (.device .blk) (b.named ∪ partNames .blk))
      fun b' => b'.held = b.held ∪ blkLeak ok) b := by
  have apart := fresh.mono_right prepared_subset
  have pool : Disjoint (b.held ∪ poolItems ok) (owned .blk) :=
    Finset.disjoint_union_left.mpr ⟨fresh, disjoint_poolItems⟩
  unfold mvvmInitVirtioBlk
  refine ensures_unless.mpr ⟨fun no => ?_, fun ctxOk => ?_⟩
  · simp only [ensures_bind, ensures_say]
    exact .fail (by simp [DeviceGood, Opened, no]) (by simp [blkLeak, Opened, no])
  rw [ensures_bind, ensures_gain]
  refine ensures_unless.mpr ⟨fun no => ?_, fun openOk => ?_⟩
  · simp only [ensures_bind, ensures_say]
    refine ensures_fail apart (by simp [or_comm]) fun b' held => ?_
    exact .fail (by simp [DeviceGood, Opened, no]) (by simp [blkLeak, Opened, no, held])
  rw [ensures_bind, ensures_gain]
  refine ensures_unless.mpr ⟨fun no => ?_, fun statOk => ?_⟩
  · simp only [ensures_bind, ensures_say]
    refine ensures_fail apart (by grind) fun b' held => ?_
    exact .fail (by simp [DeviceGood, Opened, no]) (by simp [blkLeak, Opened, no, held])
  have opened : Opened ok .blk := ⟨ctxOk, openOk, statOk⟩
  rw [ensures_bind, ensures_newThreadPool alloc]
  refine ensures_unless.mpr ⟨fun no => ?_, fun backendOk => ?_⟩
  · simp only [ensures_bind, ensures_say]
    refine ensures_fail (pool.mono_right prepared_subset) (by grind) fun b' held => ?_
    exact .fail (by simp [DeviceGood, no]) (by simp [blkLeak, opened, no, held])
  rw [ensures_bind, ensures_gain]
  refine (ensures_deviceInit (alloc _ trivial) (fresh_of_subset pool ?_)).returns ?_ ?_
  · grind [prepared]
  · rintro good b' ⟨held, named⟩
    simp only [if_true, ensures_bind, ensures_name]
    refine .ok ⟨opened, backendOk, good⟩ ⟨?_, by rw [named]⟩
    rw [held]
    ext r
    simp only [owned, prepared, Finset.mem_union, Finset.mem_insert, Finset.mem_singleton]
    grind
  · intro bad b' held
    simp only [Bool.false_eq_true, if_false, ensures_bind, ensures_unname, ensures_say]
    refine ensures_fail (F := b.held ∪ poolItems ok ∪ leakedIrqfd ok .blk) ?_ ?_ fun b'' held => ?_
    · exact Finset.disjoint_union_left.mpr ⟨pool.mono_right prepared_subset, disjoint_leakedIrqfd⟩
    · grind
    · exact .fail (fun h => bad h.2.2) (by simp [blkLeak, opened, backendOk, held])

/-- What `mvvm_init_virtio_net` leaves behind when it fails: if the thread that receives packets could not be created,
this is the whole device, without its backend. -/
def netLeak (ok : Call → Bool) : Finset Item :=
  if Opened ok .net ∧ ok (.mallocBackend .net) = true then
    if IrqfdGood ok .net ∧ IoeventfdGood ok .net then insert (.device .net) (parts .net) else leakedIrqfd ok .net
  else
    ∅

/-- A device and its parts are nothing that was prepared before. -/
lemma disjoint_device : Disjoint (insert (.device d) (parts d)) (prepared d) := by
  rw [Finset.disjoint_left]
  intro r mem
  simp only [parts, prepared, Finset.mem_insert, Finset.mem_singleton, mem_ioeventfds] at mem ⊢
  grind

/-- The set-up of the network device takes all that it needs, or leaves what `netLeak` says behind. -/
lemma ensures_initNet (alloc : ∀ c, Unchecked c → ok c = true) (fresh : Disjoint b.held (owned .net)) :
    Ensures ok mvvmInitVirtioNet (Returns (DeviceGood ok .net ∧ ok .createRxThread = true) 0 (-1)
      (fun b' => b'.held = insert .rxThread (b.held ∪ owned .net) ∧
        b'.named = insert (.device .net) (b.named ∪ partNames .net))
      fun b' => b'.held = b.held ∪ netLeak ok) b := by
  have apart := fresh.mono_right prepared_subset
  unfold mvvmInitVirtioNet
  refine ensures_unless.mpr ⟨fun no => ?_, fun ctxOk => ?_⟩
  · simp only [ensures_bind, ensures_say]
    exact .fail (by simp [DeviceGood, Opened, no]) (by simp [netLeak, Opened, no])
  rw [ensures_bind, ensures_gain]
  refine ensures_unless.mpr ⟨fun no => ?_, fun openOk => ?_⟩
  · simp only [ensures_bind, ensures_say]
    refine ensures_fail apart (by simp [or_comm]) fun b' held => ?_
    exact .fail (by simp [DeviceGood, Opened, no]) (by simp [netLeak, Opened, no, held])
  rw [ensures_bind, ensures_gain]
  refine ensures_unless.mpr ⟨fun no => ?_, fun tunOk => ?_⟩
  · simp only [ensures_bind, ensures_say]
    refine ensures_fail apart (by grind) fun b' held => ?_
    exact .fail (by simp [DeviceGood, Opened, no]) (by simp [netLeak, Opened, no, held])
  have opened : Opened ok .net := ⟨ctxOk, openOk, tunOk⟩
  refine ensures_unless.mpr ⟨fun no => ?_, fun backendOk => ?_⟩
  · simp only [ensures_bind, ensures_say]
    refine ensures_fail apart (by grind) fun b' held => ?_
    exact .fail (by simp [DeviceGood, no]) (by simp [netLeak, no, held])
  rw [ensures_bind, ensures_gain]
  refine (ensures_deviceInit (alloc _ trivial) (fresh_of_subset fresh ?_)).returns ?_ ?_
  · grind [prepared]
  · rintro good b' ⟨held, named⟩
    rw [if_neg (by simp), ensures_bind, ensures_name]
    refine ensures_unless.mpr ⟨fun no => ?_, fun rxOk => ?_⟩
    · -- the device stays, with its poll thread, and its backend is freed
      simp only [ensures_bind, ensures_say]
      refine ensures_fail (F := b.held ∪ insert (.device .net) (parts .net)) ?_ ?_ fun b'' held => ?_
      · exact Finset.disjoint_union_left.mpr ⟨apart, disjoint_device⟩
      · grind
      · exact .fail (by simp [no]) (by simp [netLeak, opened, backendOk, good, held])
    · rw [ensures_bind, ensures_gain]
      refine .ok ⟨⟨opened, backendOk, good⟩, rxOk⟩ ⟨?_, by rw [named]⟩
      rw [held]
      ext r
      simp only [owned, prepared, Finset.mem_union, Finset.mem_insert, Finset.mem_singleton]
      grind
  · intro bad b' held
    simp only [Bool.not_false, if_true, ensures_bind, ensures_unname, ensures_say]
    refine ensures_fail (F := b.held ∪ leakedIrqfd ok .net) ?_ ?_ fun b'' held => ?_
    · exact Finset.disjoint_union_left.mpr ⟨apart, disjoint_leakedIrqfd⟩
    · grind
    · exact .fail (fun h => bad h.1.2.2) (by simp [netLeak, opened, backendOk, bad, held])

/-- Before `mvvm_init` nothing is held. -/
def nothing : Books Item :=
  ⟨∅, ∅, []⟩

/-- Whatever calls fail, if the allocations that nobody checks succeed, the two functions either take all that the device
needs, or give back the context, the descriptor and the backend that they have taken. What stays behind then is the thread
pool, once it was created, the descriptor of the interrupt, if the ioeventfds fail, and, if only the last thread of the
network device cannot be created, the device itself with a running poll thread. The pool lacks the threads of the workers for
which `pthread_create` has failed, which nobody checks either. -/
theorem init_backends (alloc : ∀ c, Unchecked c → ok c = true) (fresh : ∀ d, Disjoint b.held (owned d)) :
    Ensures ok mvvmInitVirtioBlk (Returns (DeviceGood ok .blk) 0 (-1)
        (fun b' => b'.held = b.held ∪ owned .blk ∪ poolItems ok) fun b' => b'.held = b.held ∪ blkLeak ok) b ∧
      Ensures ok mvvmInitVirtioNet (Returns (DeviceGood ok .net ∧ ok .createRxThread = true) 0 (-1)
        (fun b' => b'.held = insert .rxThread (b.held ∪ owned .net)) fun b' => b'.held = b.held ∪ netLeak ok) b ∧
      ∀ i ∈ workerIds, .workerThread i ∈ poolItems ok ↔ ok (.createWorkerThread i) = true := by
  refine ⟨(ensures_initBlk alloc (fresh .blk)).mono ?_, (ensures_initNet alloc (fresh .net)).mono ?_, fun i mem => ?_⟩
  · rintro ret b' (⟨good, held, -⟩ | ⟨bad, held⟩)
    · exact .ok good held
    · exact .fail bad held
  · rintro ret b' (⟨good, held, -⟩ | ⟨bad, held⟩)
    · exact .ok good held
    · exact .fail bad held
  · simp [poolItems, mem]

/-- Only the thread that receives packets cannot be created. -/
def noRxThread (c : Call) : Bool :=
  c ≠ .createRxThread

/-- The creation of the receive thread is not an allocation. -/
lemma noRxThread_unchecked (c : Call) (h : Unchecked c) : noRxThread c = true := by
  cases c <;> simp_all [noRxThread, Unchecked]

/-- The network device stays behind, and its backend is gone. -/
theorem init_backends_noRxThread :
    ∃ b', mvvmInitVirtioNet noRxThread nothing = .ok (-1, b') ∧ b'.held = insert (.device .net) (parts .net) := by
  have h := @init_backends noRxThread nothing noRxThread_unchecked fun _ => Finset.disjoint_empty_left _
  obtain ⟨ret, b', run, ⟨good, held⟩ | ⟨bad, held⟩⟩ := h.2.1.exists
  · exact absurd good.2 (by decide)
  · exact ⟨b', run, held.trans (by decide +kernel)⟩

end Mvvmm.Startup
