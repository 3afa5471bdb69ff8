import Mvvmm.Virtio.Scatter

/-!
# Well-formed chains

What the copier and the scan do on the chains that a driver should post: the chain ends, it has no more
descriptors than the queue has, its readable part comes before its writable part, and its lengths sum up
to less than `2 ^ 31` (`ChainOk`). On such a chain nothing wraps and nothing stops early:

* `getDescRwSize_chain`: the scan returns the sums of the readable and of the writable lengths,
* `ChainOk.reaches`: the copier gets to every byte,
* `memcpyFromQueue_chain`: a copy from the chain succeeds, and if the descriptors lie in guest memory it
  returns the bytes of the readable part, one descriptor after the other (`gather`).
-/

namespace Mvvmm.Virtio
open Bytes CMem

variable {m m' : GuestMemMap} {qs : QueueState} {buf : Obj} {d e : VirtioDesc} {l R W S T : List VirtioDesc}
  {n head : Nat} {toQueue : Bool}

/-- An entry of the descriptor table of the queue. -/
def tableDesc (m : GuestMemMap) (qs : QueueState) (idx : Nat) : Option VirtioDesc :=
  if idx < qs.num.toNat then descAt m qs idx else none

/-- The descriptors that follow one, if there are at most `n`. -/
def chainAfter (m : GuestMemMap) (qs : QueueState) : Nat → VirtioDesc → Option (List VirtioDesc)
  | 0, d => if d.isNext then none else some []
  | n + 1, d =>
    if d.isNext then
      (tableDesc m qs d.next.toNat).bind fun d' => (chainAfter m qs n d').map (d' :: ·)
    else
      some []

/-- The chain with the given head, if it has at most as many descriptors as the queue. -/
def chain (m : GuestMemMap) (qs : QueueState) (head : Nat) : Option (List VirtioDesc) :=
  (tableDesc m qs head).bind fun d => (chainAfter m qs (qs.num.toNat - 1) d).map (d :: ·)

/-- A well-formed chain of readable descriptors and then writable ones. -/
structure ChainOk (m : GuestMemMap) (qs : QueueState) (head : Nat) (R W : List VirtioDesc) : Prop where
  chain : chain m qs head = some (R ++ W)
  readable : ∀ d ∈ R, d.isWrite = false
  writable : ∀ d ∈ W, d.isWrite = true
  total : total R + total W < 2 ^ 31
  length : R.length + W.length < loopMax

/-- An entry of the table that is found can be read. -/
lemma tableDesc_some {idx : Nat} (h : tableDesc m qs idx = some d) :
    idx < qs.num.toNat ∧ descAt m qs idx = some d := by
  simp only [tableDesc] at h
  split at h
  · exact ⟨by assumption, h⟩
  · cases h

/-- The descriptors after one follow it, and their entries lie in the table. -/
lemma chainAfter_follows (h : chainAfter m qs n d = some l) :
    Follows m qs d l ∧ ∀ idx ∈ entries d.next.toNat l, idx < qs.num.toNat := by
  have last : chainAfter m qs n d = some l → d.isNext = false → l = [] := by
    intro h next
    cases n <;> simp_all [chainAfter]
  induction n generalizing d l with
  | zero =>
    cases next : d.isNext with
    | true => simp [chainAfter, next] at h
    | false =>
      obtain rfl := last h next
      exact ⟨.last next, by simp [entries]⟩
  | succ n ih =>
    cases next : d.isNext with
    | true =>
      simp only [chainAfter, next, if_true] at h
      obtain ⟨d', hd', h⟩ := Option.bind_eq_some_iff.mp h
      obtain ⟨l', hl', rfl⟩ := Option.map_eq_some_iff.mp h
      obtain ⟨lt, desc⟩ := tableDesc_some hd'
      obtain ⟨follows, table⟩ := ih hl' fun h next => by cases n <;> simp_all [chainAfter]
      refine ⟨.link next desc follows, fun idx hi => ?_⟩
      rcases List.mem_cons.mp hi with rfl | hi
      · exact lt
      · exact table idx hi
    | false =>
      obtain rfl := last h next
      exact ⟨.last next, by simp [entries]⟩

/-- A well-formed chain is a chain. -/
lemma ChainOk.isChain (h : ChainOk m qs head R W) : IsChain m qs head (R ++ W) := by
  obtain ⟨d, hd, e⟩ := Option.bind_eq_some_iff.mp h.chain
  obtain ⟨l, hl, e⟩ := Option.map_eq_some_iff.mp e
  rw [← e]
  exact ⟨(tableDesc_some hd).2, (chainAfter_follows hl).1⟩

/-- The entries of a well-formed chain lie in the table. -/
lemma ChainOk.entries_lt (h : ChainOk m qs head R W) {idx : Nat} (hi : idx ∈ entries head (R ++ W)) :
    idx < qs.num.toNat := by
  obtain ⟨d, hd, e⟩ := Option.bind_eq_some_iff.mp h.chain
  obtain ⟨l, hl, e⟩ := Option.map_eq_some_iff.mp e
  rw [← e] at hi
  rcases List.mem_cons.mp hi with rfl | hi
  · exact (tableDesc_some hd).1
  · exact (chainAfter_follows hl).2 idx hi

/-! ## Chains that are posted -/

/-- The chain with the given head is well formed and has at least `n` readable bytes. -/
def Posted (m : GuestMemMap) (qs : QueueState) (head n : Nat) : Prop :=
  ∃ l ∈ chain m qs head, (∀ d ∈ writablePart l, d.isWrite = true) ∧ Virtio.total l < 2 ^ 31 ∧
    n ≤ Virtio.total (readablePart l)

instance (m : GuestMemMap) (qs : QueueState) (head n : Nat) : Decidable (Posted m qs head n) :=
  inferInstanceAs (Decidable (∃ l, l ∈ _ ∧ _))

/-- A list of descriptors is no longer than its bound. -/
lemma chainAfter_length (h : chainAfter m qs n d = some l) : l.length ≤ n := by
  induction n generalizing d l with
  | zero =>
    simp only [chainAfter] at h
    split at h
    · cases h
    · cases h
      simp
  | succ n ih =>
    simp only [chainAfter] at h
    split at h
    · obtain ⟨d', _, h⟩ := Option.bind_eq_some_iff.mp h
      obtain ⟨l', hl', rfl⟩ := Option.map_eq_some_iff.mp h
      simpa using ih hl'
    · cases h
      simp

/-- A chain has no more descriptors than the table has entries. -/
lemma chain_some (h : chain m qs head = some l) : head < qs.num.toNat ∧ l.length ≤ qs.num.toNat := by
  obtain ⟨d, hd, e⟩ := Option.bind_eq_some_iff.mp h
  obtain ⟨l', hl', rfl⟩ := Option.map_eq_some_iff.mp e
  have lt := (tableDesc_some hd).1
  have len := chainAfter_length hl'
  exact ⟨lt, by rw [List.length_cons]; omega⟩

/-- The head of a posted chain is in the table. -/
lemma Posted.head_lt (h : Posted m qs head n) : head < qs.num.toNat := by
  obtain ⟨l, e, -⟩ := h
  exact (chain_some e).1

/-- On a queue that is not too long, a chain that is posted splits into its two parts. -/
lemma Posted.chainOk (h : Posted m qs head n) (max : qs.num.toNat < loopMax) :
    ∃ R W, ChainOk m qs head R W ∧ n ≤ Virtio.total R := by
  obtain ⟨l, e, writable, tot, read⟩ := h
  have split := readablePart_append_writablePart l
  refine ⟨readablePart l, writablePart l, ⟨?_, fun _ => readablePart_readable, writable, ?_, ?_⟩, read⟩
  · rw [split]
    exact e
  · rw [← total_append, split]
    exact tot
  · rw [← List.length_append, split]
    exact (chain_some e).2.trans_lt max

/-! ## The scan and copies from a chain -/

/-- On a well-formed chain the scan returns the sums of the lengths. -/
lemma getDescRwSize_chain (h : ChainOk m qs head R W) :
    getDescRwSize m qs head = .ok (some ((total R : Int), (total W : Int))) :=
  getDescRwSize_sums h.isChain h.readable h.writable h.total

/-- The copier gets to every byte of a well-formed chain. -/
lemma ChainOk.reaches {off count : Nat} (h : ChainOk m qs head R W) (h0 : 0 < count)
    (hc : off + count ≤ Virtio.total (runOf toQueue (R ++ W))) : Reaches toQueue (R ++ W) off count :=
  (reaches_iff (by rw [List.length_append]; exact h.length) h0).mpr hc

/-- A copy from a well-formed chain succeeds, and returns the bytes of its readable part. -/
lemma memcpyFromQueue_chain {off count : Nat} (h : ChainOk m qs head R W) (hc : off + count ≤ total R)
    (hb : count ≤ buf.size) :
    ∃ buf', memcpyFromQueue m buf qs head off count = .ok (0, buf') ∧ buf'.size = buf.size ∧
      (BufInside m R → buf'.bytes = splice buf.bytes 0 (((gather m R).drop off).take count)) := by
  rcases Nat.eq_zero_or_pos count with rfl | h0
  · refine ⟨buf, ?_, rfl, by simp⟩
    simp [memcpyFromQueue, memcpyToFromQueue, pure, Except.pure]
  · obtain ⟨runR, -⟩ := runOf_shape h.readable h.writable
    have tot := h.total
    have reach : Reaches false (R ++ W) off count := h.reaches h0 (by rwa [runR])
    obtain ⟨s, e, size⟩ : ∃ s, copyParts false (m, buf) (parts R off 0 count) = .ok s ∧ s.2.size = buf.size :=
      copyParts_safe (by omega)
    refine ⟨s.2, ?_, size, ?_⟩
    · rw [memcpyFromQueue, memcpyToFromQueue_done h.isChain (by rw [runR]; omega) reach h0 (by simp), runR, e]
      rfl
    · intro inside
      rw [copyParts_from inside h0 hc (by omega)] at e
      cases e
      rfl

/-! ## The descriptor table -/

/-- Two intervals, each given by its start and its length, have nothing in common. -/
def Apart (a n b k : Nat) : Prop :=
  a + n ≤ b ∨ b + k ≤ a

instance (a n b k : Nat) : Decidable (Apart a n b k) :=
  inferInstanceAs (Decidable (_ ∨ _))

/-- Ranges are apart in both directions. -/
lemma Apart.symm {a n b k : Nat} (h : Apart a n b k) : Apart b k a n :=
  Or.symm h

/-- A buffer apart from an interval. -/
lemma Apart.notMem_bufSpan {a k p : Nat} (h : Apart d.addr.toNat d.len.toNat a k) (inside : bufSpan d ⊆ Set.Iio m.size)
    (hp : p ∈ Set.Ico a (a + k)) : p ∉ bufSpan d := by
  intro hp'
  have hp' := (mem_bufSpan inside).mp hp'
  simp only [Apart] at h
  rw [Set.mem_Ico] at hp
  omega

/-- The descriptor table of the queue lies in guest memory. -/
def TableInside (m : GuestMemMap) (qs : QueueState) : Prop :=
  qs.descAddr.toNat + 16 * qs.num.toNat ≤ m.size

/-- The positions of the descriptor table. -/
def tableSpan (qs : QueueState) : Set Nat :=
  Set.Ico qs.descAddr.toNat (qs.descAddr.toNat + 16 * qs.num.toNat)

/-- The descriptors are apart from the descriptor table. -/
def OffTable (qs : QueueState) (l : List VirtioDesc) : Prop :=
  ∀ d ∈ l, Apart d.addr.toNat d.len.toNat qs.descAddr.toNat (16 * qs.num.toNat)

section Table
variable {idx : Nat}

/-- The address of an entry of a table inside guest memory does not wrap around. -/
lemma descTableAddr_toNat (inside : TableInside m qs) (h : idx < qs.num.toNat) :
    (descTableAddr qs idx).toNat = qs.descAddr.toNat + idx * 16 := by
  have hm := m.size_lt
  simp only [TableInside] at inside
  rw [descTableAddr, VirtioDesc.sizeof, toNat_add_ofNat (by omega)]

/-- An entry of the table depends on the bytes of the table alone. -/
lemma tableDesc_congr (inside : TableInside m qs) (size : m'.size = m.size)
    (e : Set.EqOn m'.hostMem m.hostMem (tableSpan qs)) : tableDesc m' qs idx = tableDesc m qs idx := by
  simp only [tableDesc]
  split
  · rename_i h
    have ha := descTableAddr_toNat inside h
    have same : VirtioDesc.decode m'.hostMem (descTableAddr qs idx).toNat =
        .decode m.hostMem (descTableAddr qs idx).toNat := by
      apply VirtioDesc.decode_congr
      apply slice_congr
      apply e.mono
      rw [ha]
      exact Set.Ico_subset_Ico (by omega) (by omega)
    simp only [descAt, size, same]
  · rfl

/-- The descriptors that follow one depend on the table only. -/
lemma chainAfter_congr (inside : TableInside m qs) (size : m'.size = m.size)
    (e : Set.EqOn m'.hostMem m.hostMem (tableSpan qs)) : chainAfter m' qs n d = chainAfter m qs n d := by
  induction n generalizing d with
  | zero => rfl
  | succ n ih => simp only [chainAfter, tableDesc_congr inside size e, ih]

/-- A chain depends on the bytes of the table alone. -/
lemma chain_congr (inside : TableInside m qs) (size : m'.size = m.size)
    (e : Set.EqOn m'.hostMem m.hostMem (tableSpan qs)) : chain m' qs head = chain m qs head := by
  simp only [chain, tableDesc_congr inside size e, chainAfter_congr inside size e]

/-- Buffers apart from the table are apart from the entries of a well-formed chain. -/
lemma ChainOk.clear (h : ChainOk m qs head R W) (table : TableInside m qs) (inside : BufInside m W)
    (off : OffTable qs W) : Clear qs (entries head (R ++ W)) W := by
  intro idx hi d hd
  have lt := h.entries_lt hi
  have out := off d hd
  refine Set.disjoint_left.mpr fun p hp => out.notMem_bufSpan (inside d hd) ?_
  simp only [entrySpan, descTableAddr_toNat table lt, VirtioDesc.sizeof, Set.mem_Ico] at hp ⊢
  omega

/-- The copier finds them when it gets there, whatever it has copied before. -/
lemma Clear.rest (h : Clear qs (entries head (R ++ W)) W) : ClearAhead qs W [] :=
  h.ahead (P := R) (by rw [List.append_nil])

end Table

end Mvvmm.Virtio
