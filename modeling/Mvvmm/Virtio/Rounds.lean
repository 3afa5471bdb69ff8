import Mvvmm.Virtio.Ends
import Mvvmm.Virtio.Mmio

/-!
# The rounds of `queue_notify`

What a call of `queue_notify` does, round by round, for an arbitrary `device_recv` that does not fail and leaves the
available ring and the registers of the queue alone (`Gentle`). `avail_idx` is read once and `last_avail_idx` moves by one
with each round, in 16 bits, so that the number of rounds is their difference modulo `2 ^ 16`. The `k`-th round takes its
head from the cell of `last_avail_idx + k`, as the ring has it at the beginning, and calls `device_recv` if and only if the
chain has a good shape (`Turn`).

The cell of a 16-bit index is the cell of the number it counts as long as the ring has at most `2 ^ 16` cells. In a larger
one, which the device does not refuse, the cells above are never used (`queueNotify_other_rounds`).
-/

namespace Mvvmm.Virtio
open Bytes CMem Run

variable {B : Type} {recv : DeviceRecv B} {s t t' : VirtioDevice B} {q : Fin maxQueue} {idx : UInt16} {n k fuel : Nat}
  {l : List VirtioDesc}

/-- The call of `device_recv` in the next round, if there is one, does not fail, and leaves the available ring and the
registers of the queue alone. -/
def Gentle (recv : DeviceRecv B) (q : Fin maxQueue) (t : VirtioDevice B) : Prop :=
  ∀ readSize writeSize, getDescRwSize t.mem (t.queue q) (nextHead t q) = .ok (some (readSize, writeSize)) →
    ∃ ret t', recv t q (nextHead t q) readSize writeSize = .ok (ret, t') ∧ 0 ≤ ret ∧ t'.queue q = t.queue q ∧
      t'.mem.size = t.mem.size ∧ Set.EqOn t'.mem.hostMem t.mem.hostMem (availSpan (t.queue q))

/-- The chain that the next round pops ends, and `get_desc` can read its descriptors. -/
def NextAcyclic (q : Fin maxQueue) (t : VirtioDevice B) : Prop :=
  ∃ l, IsChain t.mem (t.queue q) (nextHead t q) l

/-- The `k`-th round of a call of `queue_notify` that began in the state `s`. -/
structure Turn (recv : DeviceRecv B) (q : Fin maxQueue) (s : VirtioDevice B) (k : Nat) (t t' : VirtioDevice B) :
    Prop where
  /-- `last_avail_idx` has moved by `k`, and is not yet at the index. -/
  registers : t.queue q = { s.queue q with lastAvailIdx := (s.queue q).lastAvailIdx + .ofNat k }
  pending : (t.queue q).lastAvailIdx ≠ availIdx s q
  /-- The head comes from the ring as it was at the beginning. -/
  slot : nextHead t q =
    availSlot s.mem (s.queue q) (((s.queue q).lastAvailIdx.toNat + k) % (s.queue q).num.toNat)
  /-- `device_recv` is called once for a chain of good shape. -/
  call : ∀ l, IsChain t.mem (t.queue q) (nextHead t q) l → Shaped l → ∃ ret t₁,
    recv t q (nextHead t q) (i32 (total (readablePart l))) (i32 (total (writablePart l))) = .ok (ret, t₁) ∧
      t' = advance t₁ q (nextHead t q)
  /-- It is not called for another one. -/
  skip : ∀ l, IsChain t.mem (t.queue q) (nextHead t q) l → ¬ Shaped l → t' = advance t q (nextHead t q)

/-- The state after `k` rounds of a call that began in the state `s`, as far as the available ring goes. -/
structure After (q : Fin maxQueue) (s : VirtioDevice B) (k : Nat) (t : VirtioDevice B) : Prop where
  registers : t.queue q = { s.queue q with lastAvailIdx := (s.queue q).lastAvailIdx + .ofNat k }
  size : t.mem.size = s.mem.size
  ring : Set.EqOn t.mem.hostMem s.mem.hostMem (availSpan (s.queue q))

/-- No round has been made at the beginning. -/
lemma after_zero (q : Fin maxQueue) (s : VirtioDevice B) : After q s 0 s where
  registers := by simp
  size := rfl
  ring _ _ := rfl

/-! ## One round -/

/-- The sizes of a chain of good shape. -/
lemma getDescRwSize_shaped (chain : IsChain t.mem (t.queue q) n l) (shaped : Shaped l) :
    getDescRwSize t.mem (t.queue q) n =
      .ok (some (i32 (total (readablePart l)), i32 (total (writablePart l)))) := by
  rw [← readablePart_append_writablePart l] at chain
  exact getDescRwSize_shape chain (fun _ => readablePart_readable) (fun _ => shaped.writable)

/-- The scan of an acyclic chain ends. -/
lemma NextAcyclic.scan (acyclic : NextAcyclic q t) :
    ∃ sizes, getDescRwSize t.mem (t.queue q) (nextHead t q) = .ok sizes := by
  obtain ⟨l, chain⟩ := acyclic
  by_cases shaped : Shaped l
  · exact ⟨_, getDescRwSize_shaped chain shaped⟩
  · exact ⟨_, getDescRwSize_badShape chain shaped⟩

/-- A round goes on to the next one. -/
lemma Gentle.round (gentle : Gentle recv q t) (acyclic : NextAcyclic q t) :
    ∃ t', queueNotifyRound recv t q = .ok (true, t') := by
  obtain ⟨sizes, scan⟩ := acyclic.scan
  simp only [queueNotifyRound, scan, ok_bind]
  cases sizes with
  | none => exact ⟨_, rfl⟩
  | some sizes =>
    obtain ⟨ret, t₁, e, nonneg, -⟩ := gentle sizes.1 sizes.2 scan
    simp only [e, ok_bind]
    rw [if_neg (by omega)]
    exact ⟨_, rfl⟩

/-- One more round. -/
lemma After.advance {head : Nat} (after : After q s k t) : After q s (k + 1) (advance t q head) where
  registers := by
    rw [advance_queue, QueueState.advanced, after.registers, ofNat_succ, UInt16.add_assoc]
  size := after.size
  ring := after.ring

/-- The available ring after one more round. -/
lemma After.next (after : After q s k t) (gentle : Gentle recv q t) (eff : RoundEffect recv t q true t') :
    After q s (k + 1) t' := by
  cases eff with
  | skip _ => exact after.advance
  | @pass readSize writeSize ret t₁ scan eq nonneg =>
    obtain ⟨ret', t₂, e, -, queue, size, ring⟩ := gentle _ _ scan
    cases eq.symm.trans e
    have span : availSpan (t.queue q) = availSpan (s.queue q) := by rw [after.registers]; rfl
    rw [span] at ring
    exact After.advance ⟨queue.trans after.registers, size.trans after.size, ring.trans after.ring⟩

/-- Where the head of the next round comes from. -/
lemma After.slot (pow : (s.queue q).num.toNat.isPowerOfTwo) (inside : AvailInside s.mem.size (s.queue q))
    (after : After q s k t)
    (cell : ((s.queue q).lastAvailIdx + .ofNat k).toNat % (s.queue q).num.toNat =
      ((s.queue q).lastAvailIdx.toNat + k) % (s.queue q).num.toNat) :
    nextHead t q =
      availSlot s.mem (s.queue q) (((s.queue q).lastAvailIdx.toNat + k) % (s.queue q).num.toNat) := by
  rw [nextHead_cell (by rw [after.registers]; exact pow) (by rw [after.registers, after.size]; exact inside),
    after.registers]
  simp only [cell]
  exact availSlot_congr after.ring (Nat.mod_lt _ (Nat.pos_of_isPowerOfTwo pow))

/-- What a round does with its chain. -/
lemma RoundEffect.turn (eff : RoundEffect recv t q true t') (after : After q s k t)
    (pending : (t.queue q).lastAvailIdx ≠ availIdx s q)
    (slot : nextHead t q =
      availSlot s.mem (s.queue q) (((s.queue q).lastAvailIdx.toNat + k) % (s.queue q).num.toNat)) :
    Turn recv q s k t t' := by
  refine ⟨after.registers, pending, slot, ?_, ?_⟩
  · intro l chain shaped
    have scan := getDescRwSize_shaped chain shaped
    cases eff with
    | skip none => cases none.symm.trans scan
    | pass some eq _ =>
      rw [scan, Except.ok.injEq, Option.some.injEq, Prod.mk.injEq] at some
      rw [← some.1, ← some.2] at eq
      exact ⟨_, _, eq, rfl⟩
  · intro l chain bad
    have scan := getDescRwSize_badShape chain bad
    cases eff with
    | skip _ => rfl
    | pass some _ _ => cases some.symm.trans scan

/-! ## The loop -/

/-- The loop, from the state after `k` rounds on. -/
lemma queueNotifyLoop_turns (pow : (s.queue q).num.toNat.isPowerOfTwo) (inside : AvailInside s.mem.size (s.queue q))
    (cells : ∀ i < k + n, ((s.queue q).lastAvailIdx + .ofNat i).toNat % (s.queue q).num.toNat =
      ((s.queue q).lastAvailIdx.toNat + i) % (s.queue q).num.toNat)
    (after : After q s k t) (left : (availIdx s q - (t.queue q).lastAvailIdx).toNat = n) (enough : n ≤ fuel)
    (gentle : ∀ t', Visits recv q (availIdx s q) t t' → Gentle recv q t')
    (acyclic : ∀ t', Visits recv q (availIdx s q) t t' → NextAcyclic q t') :
    ∃ s', queueNotifyLoop recv q (availIdx s q) fuel t = .ok s' ∧ Numbered (Turn recv q s) k n t s' ∧
      (s'.queue q).lastAvailIdx = availIdx s q := by
  induction n generalizing t k fuel with
  | zero =>
    have last := left_zero left.le
    exact ⟨t, queueNotifyLoop_done last, .done, last⟩
  | succ n ih =>
    obtain ⟨fuel, rfl⟩ : ∃ f, fuel = f + 1 := ⟨fuel - 1, by omega⟩
    have pending : (t.queue q).lastAvailIdx ≠ availIdx s q := by
      intro e
      rw [e, UInt16.sub_self] at left
      cases left
    obtain ⟨t₁, round⟩ := (gentle t (.here pending)).round (acyclic t (.here pending))
    have eff := queueNotifyRound_effect round
    have next := after.next (gentle t (.here pending)) eff
    have left' : (availIdx s q - (t₁.queue q).lastAvailIdx).toNat = n := by
      have less := left_succ pending
      have moved : (t₁.queue q).lastAvailIdx = (t.queue q).lastAvailIdx + 1 := by
        rw [next.registers, after.registers, ofNat_succ, UInt16.add_assoc]
      rw [moved]
      omega
    obtain ⟨s', loop, turns, last⟩ := ih (fun i hi => cells i (by omega)) next left' (show n ≤ fuel by omega)
      (fun t' visits => gentle t' (.next pending round visits)) (fun t' visits => acyclic t' (.next pending round visits))
    refine ⟨s', ?_, .next (eff.turn after pending (after.slot pow inside (cells k (by omega)))) turns, last⟩
    rw [queueNotifyLoop, if_neg pending, round, ok_bind, if_pos rfl, loop]

/-- In a ring of at most `2 ^ 16` cells, or as long as the index does not wrap around, the index of a round gives the cell
of the number of the entry. -/
lemma lastAvailIdx_cell {num : UInt32} {last : UInt16} (pow : num.toNat.isPowerOfTwo)
    (fits : num.toNat ≤ 2 ^ 16 ∨ last.toNat + n ≤ 2 ^ 16) (hk : k < n) :
    (last + .ofNat k).toNat % num.toNat = (last.toNat + k) % num.toNat := by
  have sum : last + .ofNat k = .ofNat (last.toNat + k) := by rw [UInt16.ofNat_add, UInt16.ofNat_toNat]
  rw [sum]
  rcases fits with le | le
  · exact ofNat_mod_num pow le _
  · rw [UInt16.toNat_ofNat', Nat.mod_eq_of_lt (by omega : last.toNat + k < 2 ^ 16)]

/-- For every `device_recv` that does not fail and leaves the available ring and the registers of the queue alone, on a
queue that is not left to the backend and whose chains end: `queue_notify` returns after as many rounds as there are new
entries, modulo `2 ^ 16`, the `k`-th of which is for the entry in the cell of `last_avail_idx + k`, and has then advanced to
the index it has read. -/
theorem queueNotify_turns (recv : DeviceRecv B) (s : VirtioDevice B) (q : Fin maxQueue)
    (auto : (s.queue q).manualRecv = false) (pow : (s.queue q).num.toNat.isPowerOfTwo)
    (inside : AvailInside s.mem.size (s.queue q))
    (fits : (s.queue q).num.toNat ≤ 2 ^ 16 ∨
      (s.queue q).lastAvailIdx.toNat + (availIdx s q - (s.queue q).lastAvailIdx).toNat ≤ 2 ^ 16)
    (gentle : ∀ t, Visits recv q (availIdx s q) s t → Gentle recv q t)
    (acyclic : ∀ t, Visits recv q (availIdx s q) s t → NextAcyclic q t) :
    ∃ s', queueNotify recv s q = .ok s' ∧
      Numbered (Turn recv q s) 0 (availIdx s q - (s.queue q).lastAvailIdx).toNat s s' ∧
      (s'.queue q).lastAvailIdx = availIdx s q := by
  have cells : ∀ i < 0 + (availIdx s q - (s.queue q).lastAvailIdx).toNat, _ := fun i hi =>
    lastAvailIdx_cell pow fits (Nat.zero_add _ ▸ hi)
  have loop := queueNotifyLoop_turns pow inside cells (after_zero q s) rfl (UInt16.toNat_lt _).le gentle acyclic
  rw [queueNotify, auto]
  exact loop

/-! ## A device that notes its calls -/

/-- A `device_recv` that notes the heads it is called for. -/
def noteHead : DeviceRecv (List Nat) := fun s _ head _ _ =>
  .ok (0, { s with dev := s.dev ++ [head] })

/-- A device of this kind. -/
def notingDevice (mem : GuestMemMap) (qs : QueueState) : VirtioDevice (List Nat) :=
  { virtioInit mem 0 0 2 [] with queue := fun _ => qs }

/-- A device that only notes the heads does nothing to the rings. -/
lemma gentle_noteHead (t : VirtioDevice (List Nat)) : Gentle noteHead q t :=
  fun _ _ _ => ⟨0, _, rfl, le_rfl, rfl, rfl, fun _ _ => rfl⟩

/-- Noting a head leaves the memory and the place of the table alone. -/
lemma Visits.noteHead {s t : VirtioDevice (List Nat)} (h : Visits noteHead q idx s t) :
    t.mem = s.mem ∧ ∃ last, t.queue q = { s.queue q with lastAvailIdx := last } := by
  induction h with
  | here _ => exact ⟨rfl, _, rfl⟩
  | @next s s₁ t _ eq _ ih =>
    have round : s₁.mem = s.mem ∧ s₁.queue q = (s.queue q).advanced := by
      cases queueNotifyRound_effect eq with
      | skip _ => exact ⟨rfl, advance_queue⟩
      | pass _ called _ =>
        cases called
        exact ⟨rfl, advance_queue⟩
    obtain ⟨mem, last, queue⟩ := ih
    exact ⟨mem.trans round.1, last, by rw [queue, round.2]; rfl⟩

/-- A chain depends on the place of the table only. -/
lemma IsChain.of_descAddr {m : GuestMemMap} {qs qs' : QueueState} (h : IsChain m qs n l)
    (e : qs'.descAddr = qs.descAddr) : IsChain m qs' n l := by
  have at_eq : ∀ i, descAt m qs' i = descAt m qs i := by
    intro i
    rw [descAt, descAt, descTableAddr, descTableAddr, e]
  have follows : ∀ {d l}, Follows m qs d l → Follows m qs' d l := by
    intro d l h
    induction h with
    | last next => exact .last next
    | link next desc _ ih => exact .link next ((at_eq _).trans desc) ih
  cases l with
  | nil => exact h.elim
  | cons d l => exact ⟨(at_eq n).trans h.1, follows h.2⟩

/-- One readable descriptor at the head 0, and a readable one behind a writable one at the head 3. The available ring at 256
has the index 1 and the heads 0 and 3. -/
def twoChains : GuestMemMap :=
  .onePage (splices (fun _ => 0) [(0, (⟨0, 8, 0, 0⟩ : VirtioDesc).encode), (48, (⟨0, 8, 3, 4⟩ : VirtioDesc).encode),
    (256, [0, 0, 1, 0, 0, 0, 3, 0])])

/-- A queue of two entries with `last_avail_idx` just before it wraps around. -/
def lateQueue : QueueState :=
  ⟨1, 2, 0xffff, 0, 256, 512, false⟩

/-- The index wraps around. The chain with the head 3 is skipped, the one with the head 0 is not. -/
theorem queueNotify_turns_wrapping :
    (∃ s', queueNotify noteHead (notingDevice twoChains lateQueue) 0 = .ok s' ∧
      Numbered (Turn noteHead 0 (notingDevice twoChains lateQueue)) 0 2 (notingDevice twoChains lateQueue) s' ∧
      (s'.queue 0).lastAvailIdx = 1) ∧
    (queueNotify noteHead (notingDevice twoChains lateQueue) 0).map (·.dev) = .ok [0] := by
  refine ⟨queueNotify_turns noteHead (notingDevice twoChains lateQueue) 0 rfl ⟨1, rfl⟩ (by decide) (.inl (by decide))
    (fun t _ => gentle_noteHead t) ?_, by decide +kernel⟩
  intro t visits
  obtain ⟨mem, last, queue⟩ := visits.noteHead
  have inside : AvailInside twoChains.size lateQueue := by decide
  have head : nextHead t 0 = availSlot twoChains lateQueue (last.toNat % 2) := by
    rw [nextHead_cell (by rw [queue]; exact ⟨1, rfl⟩) (by rw [queue, mem]; exact inside), queue, mem]
    rfl
  have even : IsChain twoChains lateQueue (availSlot twoChains lateQueue 0) [⟨0, 8, 0, 0⟩] :=
    ⟨by decide +kernel, .last rfl⟩
  have odd : IsChain twoChains lateQueue (availSlot twoChains lateQueue 1) [⟨0, 8, 3, 4⟩, .zero] :=
    ⟨by decide +kernel, .link rfl (by decide +kernel) (.last rfl)⟩
  rw [NextAcyclic, head, mem, queue]
  rcases Nat.mod_two_eq_zero_or_one last.toNat with e | e
  · rw [e]
    exact ⟨_, even.of_descAddr rfl⟩
  · rw [e]
    exact ⟨_, odd.of_descAddr rfl⟩

/-! ## Where the rounds are other ones -/

/-- A guest memory with an available ring of `2 ^ 17` cells at 4096, whose index is 1. The heads 1, 2 and 3 are in the cells
`2 ^ 16 - 1`, 0 and `2 ^ 16`. -/
def largeRing : GuestMemMap where
  size := 2 ^ 19
  hostMem := splices (fun _ => 0) [(4096, [0, 0, 1, 0, 2, 0]), (4100 + 2 * 65535, [1, 0, 3, 0])]
  size_pos := by decide
  size_page := by decide
  size_lt := by decide

/-- A queue of this size, with `last_avail_idx` just before it wraps around. -/
def largeQueue : QueueState :=
  ⟨1, 0x20000, 0xffff, 0, 4096, 2048, false⟩

/-- A descriptor that is linked to an entry of the table behind the guest memory. -/
def strayDesc : VirtioDesc :=
  ⟨0, 8, 1, 0xffff⟩

/-- This descriptor is at the head 0, which the available ring at 256 offers. -/
def strayChain : GuestMemMap :=
  .onePage (splices (fun _ => 0) [(0, strayDesc.encode), (256, [0, 0, 1, 0, 0, 0])])

/-- A queue of two entries with nothing popped yet. -/
def freshQueue : QueueState :=
  ⟨1, 2, 0, 0, 256, 512, false⟩

/-- A device that only notes the heads returns. -/
lemma recvReturns_noteHead : RecvReturns noteHead :=
  fun _ _ _ _ _ => returns_ok _

/-- A device that only notes the heads does not touch its queues. -/
lemma recvKeeps_noteHead : RecvKeeps noteHead := by
  intro s q descIdx readSize writeSize ret s' h
  cases h
  exact ⟨le_rfl, rfl, rfl, rfl⟩

/-- On a queue that is left to the backend there is no round. In a ring of `2 ^ 17` cells the index that wraps around goes
back to the cell 0, not on to the cell `2 ^ 16`. And a chain that leaves the guest memory, without a cycle, keeps
`queue_notify` from returning. -/
theorem queueNotify_other_rounds :
    (availIdx (notingDevice twoChains { lateQueue with manualRecv := true }) 0 = 1 ∧
      queueNotify noteHead (notingDevice twoChains { lateQueue with manualRecv := true }) 0 =
        .ok (notingDevice twoChains { lateQueue with manualRecv := true })) ∧
    (AvailInside largeRing.size largeQueue ∧ availIdx (notingDevice largeRing largeQueue) 0 = 1 ∧
      availSlot largeRing largeQueue ((0xffff + 0) % 2 ^ 17) = 1 ∧
      availSlot largeRing largeQueue ((0xffff + 1) % 2 ^ 17) = 3 ∧
      (queueNotify noteHead (notingDevice largeRing largeQueue) 0).map (·.dev) = .ok [1, 2]) ∧
    (AvailInside strayChain.size freshQueue ∧ availIdx (notingDevice strayChain freshQueue) 0 = 1 ∧
      nextHead (notingDevice strayChain freshQueue) 0 = 0 ∧ descAt strayChain freshQueue 0 = some strayDesc ∧
      descAt strayChain freshQueue strayDesc.next.toNat = none ∧
      ∀ s', queueNotify noteHead (notingDevice strayChain freshQueue) 0 ≠ .ok s') := by
  have head : nextHead (notingDevice strayChain freshQueue) 0 = 0 := by decide +kernel
  have first : scanFirst strayChain freshQueue 0 = strayDesc := by decide +kernel
  have stuck : scanNext strayChain freshQueue strayDesc = strayDesc := by decide +kernel
  refine ⟨⟨by decide +kernel, rfl⟩, ⟨by decide, by decide +kernel, by decide +kernel, by decide +kernel,
    by decide +kernel⟩, by decide, by decide +kernel, head, by decide +kernel, by decide +kernel, ?_⟩
  intro s' e
  have ends := (queueNotify_returns_iff recvReturns_noteHead recvKeeps_noteHead).mp fun _ => ⟨s', e⟩
  have next := ends rfl (notingDevice strayChain freshQueue) (.here (by decide +kernel))
  rw [NextEnds, head] at next
  exact not_scanEnds_stuck rfl rfl stuck (first ▸ next)

end Mvvmm.Virtio
