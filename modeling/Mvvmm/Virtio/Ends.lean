import Mvvmm.Virtio.Notify
import Mvvmm.Virtio.Walk

/-!
# When a scan ends

The two loops of `get_desc_rw_size` follow the `next` links without a bound, and go on with the same descriptor when
`get_desc` fails. `ScanEnds` says that the walk of the loops comes to an end, and `getDescRwSize_returns_iff` that this
is when `get_desc_rw_size` returns. `scanRounds n` is the function with `n` rounds for each loop: as a walk that ends
meets no descriptor twice, the `scanFuel` rounds of the model are as good as any number of rounds.

`queue_notify` advances past one head with each round, so it comes to its end if every scan on its way does
(`queueNotify_returns_iff`).
-/

namespace Mvvmm.Virtio
open CMem Iter

section Scan
variable {m : GuestMemMap} {qs : QueueState} {d : VirtioDesc} {w : Bool} {n k head : Nat} {x : Int}

/-- The descriptor in hand after the scan has called `get_desc` for the next one: it stays the same if that fails. -/
def scanNext (m : GuestMemMap) (qs : QueueState) (d : VirtioDesc) : VirtioDesc :=
  (descAt m qs d.next.toNat).getD d

/-- The descriptor that a scan starts with. -/
def scanFirst (m : GuestMemMap) (qs : QueueState) (head : Nat) : VirtioDesc :=
  (descAt m qs head).getD .zero

/-- The scan ends, from a descriptor on: it comes to one without a next one, or to a readable one behind a writable one.
The flag tells whether it has met a writable one. -/
inductive ScanEnds (m : GuestMemMap) (qs : QueueState) : Bool → VirtioDesc → Prop where
  | last {w : Bool} {d : VirtioDesc} (next : d.isNext = false) : ScanEnds m qs w d
  | turn {d : VirtioDesc} (read : d.isWrite = false) : ScanEnds m qs true d
  | next {w : Bool} {d : VirtioDesc} (next : d.isNext = true)
    (rest : ScanEnds m qs (w || d.isWrite) (scanNext m qs d)) : ScanEnds m qs w d

/-- The scan does not end at a readable descriptor that it comes back to at once. -/
lemma not_scanEnds_stuck (next : d.isNext = true) (read : d.isWrite = false) (stuck : scanNext m qs d = d) :
    ¬ ScanEnds m qs false d := by
  have never : ∀ w e, ScanEnds m qs w e → w = false → e = d → False := by
    intro w e h
    induction h with
    | last last =>
      rintro - rfl
      rw [next] at last
      cases last
    | turn _ => exact nofun
    | next _ _ ih =>
      rintro rfl rfl
      exact ih (by rw [read]; rfl) stuck
  exact fun h => never false d h rfl rfl

/-- C `get_desc_rw_size` with `n` rounds for each of its loops. -/
def scanRounds (n : Nat) (m : GuestMemMap) (qs : QueueState) (descIdx : Nat) :
    Except Stop (Option (Int × Int)) := do
  let r ← getDesc m qs .zero descIdx
  match ← scanRead m qs n r.2 0 with
  | (none, readSize) => return some (readSize, 0)
  | (some desc, readSize) =>
    match ← scanWrite m qs n desc 0 with
    | none => return none
    | some writeSize => return some (readSize, writeSize)

/-- The descriptor in hand after `get_desc`, which never crashes. -/
lemma getDesc_snd {desc : VirtioDesc} {idx : Nat} :
    ∃ ret, getDesc m qs desc idx = .ok (ret, (descAt m qs idx).getD desc) := by
  rw [getDesc_eq]
  cases descAt m qs idx with
  | none => exact ⟨-1, rfl⟩
  | some d => exact ⟨0, rfl⟩

/-- One round of the first loop. -/
lemma scanRead_succ :
    scanRead m qs (n + 1) d x =
      if d.isWrite then .ok (some d, x)
      else if !d.isNext then .ok (none, i32 (x + d.len.toNat))
      else scanRead m qs n (scanNext m qs d) (i32 (x + d.len.toNat)) := by
  obtain ⟨ret, e⟩ : ∃ ret, getDesc m qs d d.next.toNat = .ok (ret, (descAt m qs d.next.toNat).getD d) := getDesc_snd
  simp only [scanRead, e, ok_bind]
  rfl

/-- One round of the second loop. -/
lemma scanWrite_succ :
    scanWrite m qs (n + 1) d x =
      if !d.isWrite then .ok none
      else if !d.isNext then .ok (some (i32 (x + d.len.toNat)))
      else scanWrite m qs n (scanNext m qs d) (i32 (x + d.len.toNat)) := by
  obtain ⟨ret, e⟩ : ∃ ret, getDesc m qs d d.next.toNat = .ok (ret, (descAt m qs d.next.toNat).getD d) := getDesc_snd
  simp only [scanWrite, e, ok_bind]
  rfl

/-- The two loops one after the other. -/
lemma scanRounds_eq :
    scanRounds n m qs head =
      (scanRead m qs n (scanFirst m qs head) 0 >>= fun
        | (none, readSize) => .ok (some (readSize, 0))
        | (some desc, readSize) => scanWrite m qs n desc 0 >>= fun
          | none => .ok none
          | some writeSize => .ok (some (readSize, writeSize))) := by
  obtain ⟨ret, e⟩ : ∃ ret, getDesc m qs .zero head = .ok (ret, scanFirst m qs head) := getDesc_snd
  simp only [scanRounds, e, ok_bind]
  rfl

/-! ## Rounds -/

/-- Where the first loop goes from a descriptor. -/
def readNext (m : GuestMemMap) (qs : QueueState) (d : VirtioDesc) : Option VirtioDesc :=
  if d.isWrite then none else if !d.isNext then none else some (scanNext m qs d)

/-- Where the second loop goes from a descriptor. -/
def writeNext (m : GuestMemMap) (qs : QueueState) (d : VirtioDesc) : Option VirtioDesc :=
  if !d.isWrite then none else if !d.isNext then none else some (scanNext m qs d)

/-- The first loop goes on with the next descriptor. -/
lemma readNext_some {e : VirtioDesc} (h : readNext m qs d = some e) : e = scanNext m qs d := by
  simp only [readNext] at h
  split at h
  · cases h
  · split at h
    · cases h
    · exact (Option.some.inj h).symm

/-- The second loop goes on with the next descriptor. -/
lemma writeNext_some {e : VirtioDesc} (h : writeNext m qs d = some e) : e = scanNext m qs d := by
  simp only [writeNext] at h
  split at h
  · cases h
  · split at h
    · cases h
    · exact (Option.some.inj h).symm

/-- A descriptor that the scan goes on to is an entry of the table, or still the one before. -/
lemma scanNext_mem_range (ne : scanNext m qs d ≠ d) : scanNext m qs d ∈ Set.range (entryOf m qs) := by
  cases e : descAt m qs d.next.toNat with
  | none => simp [scanNext, e] at ne
  | some d' =>
    rw [scanNext, e]
    exact descAt_mem_range e

/-- A round of the first loop. -/
def readStep (m : GuestMemMap) (qs : QueueState) (s : VirtioDesc × Int) :
    (Option VirtioDesc × Int) ⊕ VirtioDesc × Int :=
  if s.1.isWrite then .inl (some s.1, s.2)
  else if !s.1.isNext then .inl (none, i32 (s.2 + s.1.len.toNat))
  else .inr (scanNext m qs s.1, i32 (s.2 + s.1.len.toNat))

/-- A round of the second loop. -/
def writeStep (m : GuestMemMap) (qs : QueueState) (s : VirtioDesc × Int) : Option Int ⊕ VirtioDesc × Int :=
  if !s.1.isWrite then .inl none
  else if !s.1.isNext then .inl (some (i32 (s.2 + s.1.len.toNat)))
  else .inr (scanNext m qs s.1, i32 (s.2 + s.1.len.toNat))

/-- The first loop is a loop in the sense of the library. -/
lemma scanRead_isLoop : IsLoop (fun n s => scanRead m qs n s.1 s.2) (readStep m qs) where
  zero _ _ := nofun
  succ n s := by
    simp only [scanRead_succ, readStep, apply_ite (Sum.elim _ _), Sum.elim_inl, Sum.elim_inr]

/-- The second loop is a loop in the sense of the library. -/
lemma scanWrite_isLoop : IsLoop (fun n s => scanWrite m qs n s.1 s.2) (writeStep m qs) where
  zero _ _ := nofun
  succ n s := by
    simp only [scanWrite_succ, writeStep, apply_ite (Sum.elim _ _), Sum.elim_inl, Sum.elim_inr]

/-- The rounds of the model are enough for a first loop that returns. -/
lemma scanRead_fuel {r : Option VirtioDesc × Int} (h : scanRead m qs n d x = .ok r) :
    scanRead m qs scanFuel d x = .ok r := by
  have next_eq : ∀ s : VirtioDesc × Int,
      readNext m qs s.1 = (readStep m qs s).elim (fun _ => none) fun s' => some s'.1 := by
    intro s
    simp only [readNext, readStep, apply_ite (Sum.elim _ _), Sum.elim_inl, Sum.elim_inr]
  have range : ∀ y z, readNext m qs y = some z → z ≠ y → z ∈ Set.range (entryOf m qs) := by
    intro y z e ne
    obtain rfl := readNext_some e
    exact scanNext_mem_range ne
  exact scanRead_isLoop.of_rounds (s := (d, x)) next_eq (entryOf m qs) range (by decide) h

/-- The rounds of the model are enough for the second loop. -/
lemma scanWrite_fuel {r : Option Int} (h : scanWrite m qs n d x = .ok r) : scanWrite m qs scanFuel d x = .ok r := by
  have next_eq : ∀ s : VirtioDesc × Int,
      writeNext m qs s.1 = (writeStep m qs s).elim (fun _ => none) fun s' => some s'.1 := by
    intro s
    simp only [writeNext, writeStep, apply_ite (Sum.elim _ _), Sum.elim_inl, Sum.elim_inr]
  have range : ∀ y z, writeNext m qs y = some z → z ≠ y → z ∈ Set.range (entryOf m qs) := by
    intro y z e ne
    obtain rfl := writeNext_some e
    exact scanNext_mem_range ne
  exact scanWrite_isLoop.of_rounds (s := (d, x)) next_eq (entryOf m qs) range (by decide) h

/-- What the scan returns after any number of rounds, it returns in the model. -/
lemma getDescRwSize_of_rounds {r : Option (Int × Int)} (h : scanRounds n m qs head = .ok r) :
    getDescRwSize m qs head = .ok r := by
  rw [show getDescRwSize m qs head = scanRounds scanFuel m qs head from rfl]
  rw [scanRounds_eq] at h ⊢
  obtain ⟨⟨desc, readSize⟩, e, h⟩ := bind_eq_ok.mp h
  rw [scanRead_fuel e, ok_bind]
  cases desc with
  | none => exact h
  | some desc =>
    obtain ⟨writeSize, e', h⟩ := bind_eq_ok.mp h
    simp only [scanWrite_fuel e', ok_bind]
    exact h

/-! ## The walk -/

/-- If the second loop returns its walk ends. -/
lemma scanWrite_ends {r : Option Int} (h : scanWrite m qs n d x = .ok r) : ScanEnds m qs true d := by
  induction n generalizing d x with
  | zero => cases h
  | succ n ih =>
    rw [scanWrite_succ] at h
    split at h
    · rename_i write
      exact .turn (by simpa using write)
    · split at h
      · rename_i next
        exact .last (by simpa using next)
      · rename_i next
        exact .next (by simpa using next) (ih h)

/-- If both loops return the walk ends. -/
lemma scanRead_ends {y : Int} {desc : Option VirtioDesc} (h : scanRead m qs n d x = .ok (desc, y))
    (rest : ∀ e ∈ desc, ScanEnds m qs true e) : ScanEnds m qs false d := by
  induction n generalizing d x with
  | zero => cases h
  | succ n ih =>
    rw [scanRead_succ] at h
    split at h
    · rename_i write
      cases h
      -- Here the second loop takes over with the same descriptor.
      cases rest d rfl with
      | last next => exact .last next
      | turn read => simp [read] at write
      | next next rest => exact .next next (by simpa [write] using rest)
    · rename_i write
      split at h
      · rename_i next
        exact .last (by simpa using next)
      · rename_i next
        refine .next (by simpa using next) ?_
        rw [show (false || d.isWrite) = false from by simpa using write]
        exact ih h

/-- If the walk ends the second loop returns. -/
lemma ScanEnds.scanWrite (h : ScanEnds m qs w d) (hw : w = true) : ∃ n, ∀ x, ∃ r, scanWrite m qs n d x = .ok r := by
  induction h with
  | last next =>
    refine ⟨1, fun x => ?_⟩
    rw [scanWrite_succ]
    split
    · exact ⟨_, rfl⟩
    · exact ⟨_, by rw [if_pos (by simp [next])]⟩
  | turn read => exact ⟨1, fun x => ⟨none, by rw [scanWrite_succ, if_pos (by simp [read])]⟩⟩
  | @next w d next rest ih =>
    obtain ⟨n, rounds⟩ := ih (by simp [hw])
    refine ⟨n + 1, fun x => ?_⟩
    rw [scanWrite_succ]
    split
    · exact ⟨_, rfl⟩
    · rw [if_neg (by simp [next])]
      exact rounds _

/-- A walk that ends is one that some number of rounds completes. -/
lemma ScanEnds.scanRead (h : ScanEnds m qs w d) (hw : w = false) :
    ∃ n, ∀ x, ∃ desc y, scanRead m qs n d x = .ok (desc, y) ∧ ∀ e ∈ desc, ScanEnds m qs true e := by
  induction h with
  | @last w d next =>
    refine ⟨1, fun x => ?_⟩
    rw [scanRead_succ]
    split
    · exact ⟨_, _, rfl, by rintro e ⟨⟩; exact .last next⟩
    · exact ⟨none, _, by rw [if_pos (by simp [next])], by simp⟩
  | turn read => cases hw
  | @next w d next rest ih =>
    cases write : d.isWrite with
    | true =>
      refine ⟨1, fun x => ⟨some d, x, by rw [scanRead_succ, if_pos write], ?_⟩⟩
      rintro e ⟨⟩
      exact .next next (by simpa [write] using rest)
    | false =>
      obtain ⟨n, rounds⟩ := ih (by simp [hw, write])
      refine ⟨n + 1, fun x => ?_⟩
      rw [scanRead_succ, if_neg (by simp [write]), if_neg (by simp [next])]
      exact rounds _

/-- `get_desc_rw_size` returns if and only if its walk ends. -/
lemma getDescRwSize_returns_iff :
    (∃ r, getDescRwSize m qs head = .ok r) ↔ ScanEnds m qs false (scanFirst m qs head) := by
  constructor
  · rintro ⟨r, h⟩
    rw [show getDescRwSize m qs head = scanRounds scanFuel m qs head from rfl, scanRounds_eq] at h
    obtain ⟨⟨desc, readSize⟩, e, h⟩ := bind_eq_ok.mp h
    refine scanRead_ends e ?_
    rintro d ⟨⟩
    obtain ⟨writeSize, e', -⟩ := bind_eq_ok.mp h
    exact scanWrite_ends e'
  · intro ends
    obtain ⟨n, rounds⟩ := ends.scanRead rfl
    obtain ⟨desc, readSize, e, rest⟩ := rounds 0
    rw [show getDescRwSize m qs head = scanRounds scanFuel m qs head from rfl, scanRounds_eq, scanRead_fuel e, ok_bind]
    cases desc with
    | none => exact ⟨_, rfl⟩
    | some d =>
      obtain ⟨k, rounds'⟩ := (rest d rfl).scanWrite rfl
      obtain ⟨writeSize, e'⟩ := rounds' 0
      simp only [scanWrite_fuel e', ok_bind]
      cases writeSize with
      | none => exact ⟨_, rfl⟩
      | some writeSize => exact ⟨_, rfl⟩

/-- It returns after some number of rounds if and only if it returns in the model. -/
lemma scanRounds_returns_iff :
    (∃ n r, scanRounds n m qs head = .ok r) ↔ ScanEnds m qs false (scanFirst m qs head) := by
  rw [← getDescRwSize_returns_iff]
  constructor
  · rintro ⟨n, r, h⟩
    exact ⟨r, getDescRwSize_of_rounds h⟩
  · rintro ⟨r, h⟩
    exact ⟨scanFuel, r, h⟩

end Scan

/-! ## Rounds of `queue_notify` -/

section Notify
variable {B : Type} {recv : DeviceRecv B} {s s' : VirtioDevice B} {q : Fin maxQueue} {idx : UInt16} {n : Nat}

/-- The scan of the chain whose head `queue_notify` pops next ends. -/
def NextEnds (q : Fin maxQueue) (s : VirtioDevice B) : Prop :=
  ScanEnds s.mem (s.queue q) false (scanFirst s.mem (s.queue q) (nextHead s q))

/-- A state in which `queue_notify` begins a round, when it runs up to an index. -/
inductive Visits (recv : DeviceRecv B) (q : Fin maxQueue) (idx : UInt16) :
    VirtioDevice B → VirtioDevice B → Prop where
  | here {s : VirtioDevice B} (ne : (s.queue q).lastAvailIdx ≠ idx) : Visits recv q idx s s
  | next {s s₁ s' : VirtioDevice B} (ne : (s.queue q).lastAvailIdx ≠ idx)
    (eq : queueNotifyRound recv s q = .ok (true, s₁)) (rest : Visits recv q idx s₁ s') : Visits recv q idx s s'

/-- The device returns from every chain, unless it crashes. -/
def RecvReturns (recv : DeviceRecv B) : Prop :=
  ∀ s q descIdx readSize writeSize, Returns (recv s q descIdx readSize writeSize)

/-- A round of `queue_notify` does not hang if and only if the scan of the chain ends. -/
lemma queueNotifyRound_returns_iff (returns : RecvReturns recv) :
    Returns (queueNotifyRound recv s q) ↔ NextEnds q s := by
  rw [queueNotifyRound, returns_bind_iff, getDescRwSize_safe.returns_iff, NextEnds, ← getDescRwSize_returns_iff]
  refine and_iff_left ?_
  rintro (_ | sizes) -
  · exact returns_ok _
  · refine (returns _ _ _ _ _).bind fun r _ => ?_
    split
    · exact returns_ok _
    · exact returns_ok _

/-- No head is left to pop. -/
lemma left_zero {last : UInt16} (h : (idx - last).toNat ≤ 0) : last = idx := by
  have h1 := idx.toNat_lt
  have h2 := last.toNat_lt
  rw [UInt16.toNat_sub] at h
  exact UInt16.toNat_inj.mp (by omega)

/-- With each round there is one head less to pop. -/
lemma left_succ {last : UInt16} (ne : last ≠ idx) : (idx - (last + 1)).toNat + 1 = (idx - last).toNat := by
  have h : idx.toNat ≠ last.toNat := fun h => ne (UInt16.toNat_inj.mp h).symm
  have h1 := idx.toNat_lt
  have h2 := last.toNat_lt
  simp only [UInt16.toNat_sub, UInt16.toNat_add]
  simp only [UInt16.reduceToNat]
  omega

/-- A loop that has nothing to do returns, and begins no round. -/
lemma queueNotifyLoop_idle (done : (s.queue q).lastAvailIdx = idx) :
    Returns (queueNotifyLoop recv q idx n s) ↔ ∀ s', Visits recv q idx s s' → NextEnds q s' := by
  refine iff_of_true (by rw [queueNotifyLoop_done done]; exact returns_ok s) ?_
  intro s' visits
  cases visits with
  | here ne => exact absurd done ne
  | next ne _ _ => exact absurd done ne

/-- A loop of `queue_notify` does not hang if and only if each scan on its way ends. The rounds are enough for the
heads that are left. -/
lemma queueNotifyLoop_returns_iff (returns : RecvReturns recv) (keeps : RecvKeeps recv)
    (enough : (idx - (s.queue q).lastAvailIdx).toNat ≤ n) :
    Returns (queueNotifyLoop recv q idx n s) ↔ ∀ s', Visits recv q idx s s' → NextEnds q s' := by
  induction n generalizing s with
  | zero => exact queueNotifyLoop_idle (left_zero enough)
  | succ n ih =>
    by_cases done : (s.queue q).lastAvailIdx = idx
    · exact queueNotifyLoop_idle done
    rw [queueNotifyLoop, if_neg done, returns_bind_iff, queueNotifyRound_returns_iff returns]
    have less : ∀ s₁, queueNotifyRound recv s q = .ok (true, s₁) → (idx - (s₁.queue q).lastAvailIdx).toNat ≤ n := by
      intro s₁ e
      obtain ⟨-, -, -, queue⟩ := (queueNotifyRound_effect e).pops keeps
      have last : (s₁.queue q).lastAvailIdx = (s.queue q).lastAvailIdx + 1 := by
        rw [queue, Function.update_self]
        rfl
      have one := left_succ done
      rw [← last] at one
      omega
    constructor
    · rintro ⟨ends, rest⟩ s' visits
      cases visits with
      | here _ => exact ends
      | next _ e visits => exact (ih (less _ e)).mp (rest _ e) s' visits
    · intro all
      refine ⟨all s (.here done), ?_⟩
      rintro ⟨go, s₁⟩ e
      obtain ⟨rfl, -⟩ := (queueNotifyRound_effect e).pops keeps
      exact (ih (less _ e)).mpr fun s' visits => all s' (.next done e visits)

/-- `queue_notify` does not hang if and only if each scan on its way ends. -/
lemma queueNotify_returns_iff (returns : RecvReturns recv) (keeps : RecvKeeps recv) :
    Returns (queueNotify recv s q) ↔
      ((s.queue q).manualRecv = false → ∀ s', Visits recv q (availIdx s q) s s' → NextEnds q s') := by
  cases manual : (s.queue q).manualRecv with
  | true =>
    simp only [queueNotify, manual, if_true]
    exact iff_of_true (returns_ok s) (by simp)
  | false =>
    simp only [queueNotify, manual, Bool.false_eq_true, if_false, forall_const]
    exact queueNotifyLoop_returns_iff returns keeps (UInt16.toNat_lt _).le

end Notify

end Mvvmm.Virtio
