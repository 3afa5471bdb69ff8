import Mvvmm.Virtio.Ring

/-!
# Answers

A device answers a chain in two steps: it copies bytes to the first writable descriptors (`Stored`), and then it
publishes an entry in the used ring. What the driver gets out of both is `Answered`: the bytes and the entry are in
guest memory, and nothing else has changed there. It takes no more than that the bytes lie in guest memory, at different
addresses and apart from the place of the entry (`Stored.answered`); what the copier needs to get to them is in
`memcpyToQueue_stored`.
-/

namespace Mvvmm.Virtio
open Bytes CMem

variable {m m₁ m' : GuestMemMap} {qs : QueueState} {buf : Obj} {R F W : List VirtioDesc} {head len off count : Nat}
  {bs bs' : List UInt8}

/-- What a copy to some descriptors has done, from an offset on: nothing but the bytes at their addresses has changed, and
if these lie in guest memory, they have been stored. -/
structure Stored (m m' : GuestMemMap) (F : List VirtioDesc) (off : Nat) (bs : List UInt8) : Prop where
  size : m'.size = m.size
  frame : ∀ p, (∀ i < bs.length, p ≠ (byteAddr F (off + i)).toNat) → m'.hostMem p = m.hostMem p
  eq : BytesInside m F off bs.length → m' = scatterAt m F off bs

/-- A copy of bytes that lie in guest memory. -/
lemma Stored.of_inside (inside : BytesInside m F off bs.length) : Stored m (scatterAt m F off bs) F off bs :=
  ⟨scatterAt_size, fun _ => scatterAt_frame inside, fun _ => rfl⟩

/-- Two copies, the second one where the first one ends, are one. -/
lemma Stored.append (first : Stored m m₁ F off bs) (second : Stored m₁ m' F (off + bs.length) bs') :
    Stored m m' F off (bs ++ bs') where
  size := second.size.trans first.size
  frame := by
    intro p hp
    rw [List.length_append] at hp
    rw [second.frame p, first.frame p]
    · exact fun i hi => hp i (by omega)
    · intro i hi
      rw [Nat.add_assoc]
      exact hp (bs.length + i) (by omega)
  eq := by
    intro inside
    have whole := inside
    rw [List.length_append] at inside
    have inside₁ : BytesInside m F off bs.length := fun i hi => inside i (by omega)
    have inside₂ : BytesInside m₁ F (off + bs.length) bs'.length := by
      intro i hi
      rw [first.size, Nat.add_assoc]
      exact inside (bs.length + i) (by omega)
    rw [second.eq inside₂, first.eq inside₁, scatterAt_scatterAt whole]

/-- A copy of no bytes. -/
lemma memcpyToQueue_none (offset : Int) : memcpyToQueue m qs head offset buf ((0 : Nat) : Int) = .ok (0, m) := by
  simp [memcpyToQueue, memcpyToFromQueue, pure, Except.pure, bind, Except.bind]

/-- The copier stores bytes in the first writable descriptors of a chain. -/
lemma memcpyToQueue_stored (buf : Obj) (begins : Begins m qs head (R ++ F)) (readable : ∀ d ∈ R, d.isWrite = false)
    (writable : ∀ d ∈ F, d.isWrite = true) (lens : ∀ d ∈ F, d.len.toNat < 2 ^ 31) (skip : R.length < loopMax)
    (clear : ClearAhead qs F []) (near : 0 < count → Near F off count) (room : off + count ≤ total F)
    (lt : off + count < 2 ^ 31) (hb : count ≤ buf.size) :
    ∃ m', memcpyToQueue m qs head off buf count = .ok (0, m') ∧ Stored m m' F off (slice buf.bytes 0 count) := by
  rcases Nat.eq_zero_or_pos count with rfl | h0
  · exact ⟨m, memcpyToQueue_none off, rfl, fun _ _ => rfl, fun _ => scatterAt_nil.symm⟩
  · obtain ⟨s, e, -⟩ : ∃ s, copyParts true (m, buf) (parts F off 0 count) = .ok s ∧ s.2.size = buf.size :=
      copyParts_safe (by omega)
    refine ⟨s.1, ?_, copyParts_size e, fun p hp => copyParts_frame e fun part mem touched => ?_, fun inside => ?_⟩
    · rw [memcpyToQueue, memcpyToFromQueue_front begins (fun d hd => ⟨rfl, readable d hd⟩) writable lens skip (near h0) room
        lt h0 (fun _ => clear), e]
      rfl
    · obtain ⟨start, ends, byte⟩ := parts_byte mem
      obtain ⟨j, hj, rfl⟩ := touched
      rw [slice_length] at hp
      refine hp ((part.pos - (0 : Nat)).toNat + j) (by omega) ?_
      rw [← Nat.add_assoc, byte j (by omega)]
    · rw [slice_length] at inside
      rw [copyParts_to inside h0 room (by omega), Except.ok.injEq] at e
      rw [← e]

/-- The driver finds bytes in the first descriptors of a chain and, if its place lies in guest memory, an entry in the used
ring, and nothing else has changed in guest memory. -/
structure Answered (m m' : GuestMemMap) (qs : QueueState) (head len : Nat) (F : List VirtioDesc) (bs : List UInt8) :
    Prop where
  bytes : (gather m' F).take bs.length = bs
  published : UsedInside m qs → Published m m' qs head len
  rest : ∀ p ∉ usedTouched m qs, (∀ i < bs.length, p ≠ (byteAddr F i).toNat) → m'.hostMem p = m.hostMem p

/-- Bytes that lie in guest memory, each at an address of its own that is not in the entry, are there after the entry has
been published. -/
lemma Stored.answered (stored : Stored m m₁ F 0 bs) (inside : BytesInside m F 0 bs.length) (room : bs.length ≤ total F)
    (apart : Set.InjOn (byteAddr F) (Set.Iio bs.length))
    (used : ∀ i < bs.length, (byteAddr F i).toNat ∉ usedTouched m qs) (hhead : head < 2 ^ 32) (hlen : len < 2 ^ 32) :
    Answered m (publishUsed m₁ qs head len) qs head len F bs := by
  -- the bytes are not those of the index, and so the entry goes where it would have gone before
  have kept : ∀ p ∈ usedTouched m qs, m₁.hostMem p = m.hostMem p := by
    intro p hp
    refine stored.frame p fun i hi => ?_
    rintro rfl
    exact used i hi (by rwa [Nat.zero_add] at hp)
  have index : usedIdx m₁ qs = usedIdx m qs := usedIndex_congr stored.size kept
  have touched : usedTouched m₁ qs = usedTouched m qs := usedTouched_congr stored.size kept
  refine ⟨?_, fun ring => ?_, fun p hp out => ?_⟩
  · have inside' : BytesInside (publishUsed m₁ qs head len) F 0 bs.length := by
      intro i hi
      rw [publishUsed_size, stored.size]
      exact inside i hi
    apply List.ext_getElem?
    intro i
    by_cases hi : i < bs.length
    · have byte := scatterAt_bytes inside (by omega) (apart.mono fun j hj => by simpa using hj.2) hi
      rw [Nat.zero_add, ← stored.eq inside] at byte
      rw [List.getElem?_take_of_lt hi, gather_getElem? inside' room hi,
        publishUsed_touched (by rw [touched]; exact used i hi), byte]
    · rw [List.getElem?_eq_none (by simp; omega), List.getElem?_eq_none (by omega)]
  · have ring₁ : UsedInside m₁ qs := by
      have index : virtioRead16 m₁ (qs.usedAddr + 2) = _ := index
      rw [UsedInside, index, stored.size]
      exact ring
    exact (ring₁.published hhead hlen).congr index
  · rw [publishUsed_touched (by rwa [touched]), stored.frame p fun i hi => by rw [Nat.zero_add]; exact out i hi]

/-- The first byte of some descriptors lies in a few of them, behind empty ones. -/
lemma exists_first (h : 0 < total W) :
    ∃ F T, W = F ++ T ∧ 0 < total F ∧ descIndex F 0 = descIndex W 0 ∧ ClearAhead qs F [] := by
  induction W with
  | nil => simp at h
  | cons d W ih =>
    rcases Nat.eq_zero_or_pos d.len.toNat with empty | pos
    · obtain ⟨F, T, rfl, some, index, clear⟩ := ih (by rw [total_cons] at h; omega)
      refine ⟨d :: F, T, rfl, by rw [total_cons]; omega, ?_, ?_, clear⟩
      · simp only [descIndex, if_neg (show ¬ 0 < d.len.toNat by omega), Nat.zero_sub, index]
      · intro idx _
        refine Set.disjoint_right.mpr ?_
        rintro p ⟨i, hi, -⟩
        omega
    · exact ⟨[d], W, rfl, by simpa using pos, by simp [descIndex, pos], by simp [entries], trivial⟩

end Mvvmm.Virtio
