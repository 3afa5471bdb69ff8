import Mvvmm.Virtio.Desc

/-!
# The copier stays in its buffer, and when it does not

`memcpy_to_from_queue` bounds each copy by `min_int(count, desc.len - offset)`, where the difference
is a `uint32_t` that is converted to `int`: a descriptor with `2 ^ 31` bytes left or more makes it
negative, `buf` and `offset` then move backwards and `count` grows.

`copySegs` lists the descriptors that the third loop meets, each with the address its copy starts at
and its signed remaining length. The sum of the remaining lengths before a descriptor is the position
of `buf` there (the loop invariant of `copyLoop_range_iff`), so the copier leaves its buffer if and
only if this sum is negative at some descriptor that it copies from or to (`NeverBack`).
-/

namespace Mvvmm.Virtio
open Bytes CMem

variable {m m' : GuestMemMap} {qs : QueueState} {buf buf' : Obj} {desc : VirtioDesc} {toQueue : Bool}
  {n n' idx : Nat} {offset pos count : Int}

/-- The bytes left in a descriptor as the code computes them: `desc.len - offset` as an `int`. -/
def remaining (desc : VirtioDesc) (offset : Int) : Int :=
  i32 (desc.len.toNat - offset)

/-- One round of the search for a writable descriptor. -/
lemma findWrite_succ :
    findWrite m qs (n + 1) desc =
      if desc.isWrite then .ok (some desc)
      else if !desc.isNext then .ok none
      else match descAt m qs desc.next.toNat with
        | none => .ok none
        | some d => findWrite m qs n d := by
  simp only [findWrite, getDesc_eq, ok_bind]
  cases descAt m qs desc.next.toNat <;> rfl

/-- One round of the search for an offset. -/
lemma findOffset_succ :
    findOffset m qs toQueue (n + 1) desc offset =
      if desc.isWrite != toQueue then .ok none
      else if u32 offset < desc.len.toNat then .ok (some (desc, offset))
      else if !desc.isNext then .ok none
      else match descAt m qs desc.next.toNat with
        | none => .ok none
        | some d => findOffset m qs toQueue n d (i32 (offset - desc.len.toNat)) := by
  simp only [findOffset, getDesc_eq, ok_bind]
  cases descAt m qs desc.next.toNat <;> rfl

/-- One round of the third loop. Either the rest of `count` fits in the descriptor, and the copy is
over, or the descriptor is used up: the test `offset == desc.len` cannot fail there. -/
lemma copyLoop_succ (h1 : -2 ^ 31 ≤ count) (h2 : count < 2 ^ 31) :
    copyLoop qs toQueue (n + 1) m buf desc offset pos count =
      (copyStep m buf toQueue (desc.addr + .ofInt offset) pos (min count (remaining desc offset)) >>=
        fun r =>
          if count ≤ remaining desc offset then .ok (0, r.1, r.2)
          else if !desc.isNext then .ok (-1, r.1, r.2)
          else match descAt r.1 qs desc.next.toNat with
            | none => .ok (-1, r.1, r.2)
            | some d =>
              if d.isWrite != toQueue then .ok (-1, r.1, r.2)
              else copyLoop qs toQueue n r.1 r.2 d 0 (pos + remaining desc offset)
                (i32 (count - remaining desc offset))) := by
  have hr := i32_bounds (desc.len.toNat - offset)
  simp only [copyLoop]
  congr 1
  funext r
  obtain ⟨m1, b1⟩ := r
  by_cases hc : count ≤ remaining desc offset
  · have hl : min count (i32 (desc.len.toNat - offset)) = count := min_eq_left hc
    simp only [hl, sub_self, hc, if_true]
    rfl
  · have hl : min count (i32 (desc.len.toNat - offset)) = remaining desc offset :=
      min_eq_right (by simp only [remaining] at hc ⊢; omega)
    have h0 : i32 (count - remaining desc offset) ≠ 0 := by
      simp only [remaining] at hc ⊢
      simp only [i32] at hr hc ⊢
      omega
    have hu : u32 (i32 (offset + remaining desc offset)) = desc.len.toNat := by
      have := desc.len.toNat_lt
      simp only [u32, remaining, i32]
      omega
    simp only [hl, hc, h0, hu, if_true, if_false, getDesc_eq, ok_bind]
    cases descAt m1 qs desc.next.toNat <;> rfl

/-- A round that copies nothing: no bytes are left, or the address does not pass the check. -/
lemma copyStep_nop {addr : UInt64} {l : Int} (h : l ≤ 0 ∨ m.size < addr.toNat) :
    copyStep m buf toQueue addr pos l = .ok (m, buf) := by
  by_cases hl : l ≤ 0
  · cases toQueue <;> simp [copyStep, virtioMemcpyFromGuest_nop hl, virtioMemcpyToGuest_nop hl, pure,
      Except.pure]
  · have h' : m.size < addr.toNat := by omega
    have hl' : 0 < l := by omega
    cases toQueue <;> simp [copyStep, virtioMemcpyFromGuest_outside h' hl',
      virtioMemcpyToGuest_outside h' hl', pure, Except.pure]

/-- A round that copies at a position before the buffer leaves the buffer. -/
lemma copyStep_neg {addr : UInt64} {l : Int} (h : addr.toNat ≤ m.size) (hl : 0 < l) (hp : pos < 0) :
    copyStep m buf toQueue addr pos l = .error .range := by
  cases toQueue
  · simp [copyStep, virtioMemcpyFromGuest_neg h hl hp]
  · simp [copyStep, virtioMemcpyToGuest_neg h hl hp]

/-- A round whose bytes lie in the buffer stays in the buffer. -/
lemma copyStep_safe (addr : UInt64) {l : Int} (h1 : 0 ≤ pos) (h2 : pos + l ≤ buf.size) :
    ∃ m' buf', copyStep m buf toQueue addr pos l = .ok (m', buf') ∧
      m'.size = m.size ∧ buf'.size = buf.size := by
  cases toQueue
  · obtain ⟨r, b, e, hb⟩ : ∃ r b, virtioMemcpyFromGuest m buf pos addr l = .ok (r, b) ∧
      b.size = buf.size := virtioMemcpyFromGuest_safe h1 h2
    exact ⟨m, b, by simp [copyStep, e, pure, Except.pure], rfl, hb⟩
  · obtain ⟨r, m', e, hm⟩ : ∃ r m', virtioMemcpyToGuest m addr buf pos l = .ok (r, m') ∧
      m'.size = m.size := virtioMemcpyToGuest_safe h1 h2
    exact ⟨m', buf, by simp [copyStep, e, pure, Except.pure], hm, rfl⟩

/-- A descriptor that the third loop meets: the guest address its copy starts at and the bytes left in
it, as a signed number. -/
structure Seg where
  addr : UInt64
  rem : Int
  deriving DecidableEq, Repr

/-- The descriptors that the third loop meets from `desc` on, read from the guest memory as the copies
before them leave it. -/
def copySegs (qs : QueueState) (toQueue : Bool) :
    Nat → GuestMemMap → Obj → VirtioDesc → Int → Int → Int → List Seg
  | 0, _, _, _, _, _, _ => []
  | n + 1, m, buf, desc, offset, pos, count =>
    let seg : Seg := ⟨desc.addr + .ofInt offset, remaining desc offset⟩
    seg ::
      match copyStep m buf toQueue seg.addr pos (min count seg.rem) with
      | .error _ => []
      | .ok (m, buf) =>
        if count ≤ seg.rem then []
        else if !desc.isNext then []
        else match descAt m qs desc.next.toNat with
          | none => []
          | some d =>
            if d.isWrite != toQueue then []
            else copySegs qs toQueue n m buf d 0 (pos + seg.rem) (i32 (count - seg.rem))

/-- No descriptor with bytes left and an address that passes the check is met after the signed lengths
before it, starting from `pos`, have summed up to less than 0 (unless `count` has wrapped, too, and the
copy is over there). -/
def NeverBack (size : Nat) (count : Int) : Int → List Seg → Prop
  | _, [] => True
  | pos, seg :: segs =>
    (pos < 0 → 0 < seg.rem → seg.addr.toNat ≤ size → i32 (count - pos) ≤ 0) ∧
      NeverBack size count (pos + seg.rem) segs

/-- The third loop leaves the buffer if and only if it copies at a negative sum of lengths. The
invariant is that the position plus what is left of `count` never exceeds the original `count`. -/
lemma copyLoop_range_iff {total : Int} (hb : buf.size = total) (hs : m.size = n')
    (inv1 : count = i32 (total - pos)) (inv2 : pos + count ≤ total) :
    copyLoop qs toQueue n m buf desc offset pos count ≠ .error .range ↔
      NeverBack n' total pos (copySegs qs toQueue n m buf desc offset pos count) := by
  induction n generalizing m buf desc offset pos count with
  | zero => simp [copyLoop, copySegs, NeverBack, pure, Except.pure]
  | succ n ih =>
    have hc : -2 ^ 31 ≤ count ∧ count < 2 ^ 31 := inv1 ▸ i32_bounds _
    have hr := i32_bounds (desc.len.toNat - offset)
    rw [copyLoop_succ hc.1 hc.2]
    simp only [copySegs, NeverBack, ← inv1]
    rw [show i32 (desc.len.toNat - offset) = remaining desc offset from rfl] at hr
    generalize remaining desc offset = l at hr ⊢
    generalize desc.addr + .ofInt offset = addr
    by_cases bad : pos < 0 ∧ 0 < l ∧ 0 < count ∧ addr.toNat ≤ m.size
    · rw [copyStep_neg bad.2.2.2 (by omega) bad.1]
      simp only [error_bind]
      constructor
      · exact fun h => absurd rfl h
      · exact fun h => absurd (h.1 bad.1 bad.2.1 (hs ▸ bad.2.2.2)) (by omega)
    · obtain ⟨m', buf', e, hm', hb'⟩ : ∃ m' buf',
          copyStep m buf toQueue addr pos (min count l) = .ok (m', buf') ∧
            m'.size = m.size ∧ buf'.size = buf.size := by
        by_cases hn : min count l ≤ 0 ∨ m.size < addr.toNat
        · exact ⟨m, buf, copyStep_nop hn, rfl, rfl⟩
        · exact copyStep_safe addr (by omega) (by omega)
      have first : pos < 0 → 0 < l → addr.toNat ≤ n' → count ≤ 0 := by
        intro h1 h2 h3
        by_contra h4
        exact bad ⟨h1, h2, by omega, hs ▸ h3⟩
      rw [and_iff_right first]
      simp only [e, ok_bind]
      split
      · simp [NeverBack]
      · rename_i hcl
        split
        · simp [NeverBack]
        · split
          · simp [NeverBack]
          · split
            · simp [NeverBack]
            · apply ih (by omega) (by omega)
              · apply i32_eq_of_emod
                have := i32_emod (total - pos)
                omega
              · simp only [i32]
                omega

instance decidableNeverBack (size : Nat) (count : Int) :
    ∀ (pos : Int) (segs : List Seg), Decidable (NeverBack size count pos segs)
  | _, [] => .isTrue trivial
  | pos, seg :: segs =>
    have := decidableNeverBack size count (pos + seg.rem) segs
    inferInstanceAs (Decidable ((_ → _ → _ → _) ∧ NeverBack size count (pos + seg.rem) segs))

/-- The search for a writable descriptor returns. -/
lemma findWrite_ok : ∃ r, findWrite m qs n desc = .ok r := by
  induction n generalizing desc with
  | zero => exact ⟨_, rfl⟩
  | succ n ih =>
    rw [findWrite_succ]
    split
    · exact ⟨_, rfl⟩
    · split
      · exact ⟨_, rfl⟩
      · split
        · exact ⟨_, rfl⟩
        · exact ih

/-- The search for an offset returns. -/
lemma findOffset_ok : ∃ r, findOffset m qs toQueue n desc offset = .ok r := by
  induction n generalizing desc offset with
  | zero => exact ⟨_, rfl⟩
  | succ n ih =>
    rw [findOffset_succ]
    split
    · exact ⟨_, rfl⟩
    · split
      · exact ⟨_, rfl⟩
      · split
        · exact ⟨_, rfl⟩
        · split
          · exact ⟨_, rfl⟩
          · exact ih

/-- The place of an offset is found by the two searches. -/
lemma locate_eq :
    locate m qs idx offset toQueue =
      match descAt m qs idx with
      | none => .ok none
      | some d => (if toQueue then findWrite m qs loopMax d else .ok (some d)) >>= fun
        | none => .ok none
        | some d => findOffset m qs toQueue loopMax d offset := by
  simp only [locate, getDesc_eq, ok_bind]
  cases descAt m qs idx <;> rfl

/-- The search for the descriptor at `offset` always ends. -/
lemma locate_ok : ∃ r, locate m qs idx offset toQueue = .ok r := by
  rw [locate_eq]
  split
  · exact ⟨_, rfl⟩
  · rename_i d _
    cases toQueue
    · exact findOffset_ok
    · obtain ⟨r, e⟩ : ∃ r, findWrite m qs loopMax d = .ok r := findWrite_ok
      simp only [if_true, e, ok_bind]
      cases r with
      | none => exact ⟨_, rfl⟩
      | some d => exact findOffset_ok

/-- Where the chain is found, the third loop does the copying. -/
lemma memcpyToFromQueue_eq {r : Option (VirtioDesc × Int)} (h0 : count ≠ 0)
    (e : locate m qs idx offset toQueue = .ok r) :
    memcpyToFromQueue m buf qs idx offset count toQueue =
      match r with
      | none => .ok (-1, m, buf)
      | some (desc, off) => copyLoop qs toQueue loopMax m buf desc off 0 count := by
  simp only [memcpyToFromQueue, e, ok_bind, if_neg h0]
  cases r <;> rfl

/-- The copy of `count` bytes at `offset` of a chain meets no descriptor with bytes left after the
lengths before it have led back behind the start of the buffer. -/
def CopyInside (m : GuestMemMap) (buf : Obj) (qs : QueueState) (descIdx : Nat) (offset count : Int)
    (toQueue : Bool) : Prop :=
  ∀ desc off, locate m qs descIdx offset toQueue = .ok (some (desc, off)) →
    NeverBack m.size count 0 (copySegs qs toQueue loopMax m buf desc off 0 count)

instance (m : GuestMemMap) (buf : Obj) (qs : QueueState) (descIdx : Nat) (offset count : Int)
    (toQueue : Bool) : Decidable (CopyInside m buf qs descIdx offset count toQueue) :=
  match e : locate m qs descIdx offset toQueue with
  | .error _ => .isTrue (by simp [CopyInside, e])
  | .ok none => .isTrue (by simp [CopyInside, e])
  | .ok (some (desc, off)) =>
    decidable_of_iff
      (NeverBack m.size count 0 (copySegs qs toQueue loopMax m buf desc off 0 count))
      (by simp [CopyInside, e])

/-- A segment fails only by leaving the buffer. -/
lemma copyStep_error {addr : UInt64} {l : Int} {x : Stop}
    (h : copyStep m buf toQueue addr pos l = .error x) : x = .range := by
  cases toQueue with
  | true =>
    simp only [copyStep, virtioMemcpyToGuest, if_true] at h
    rcases bind_eq_error.mp h with h | ⟨_, _, h⟩
    · rcases bind_eq_error.mp h with h | ⟨_, _, h⟩
      · refine foldlM_error (P := (· = .range)) ?_ h
        intro m c e h
        rcases bind_eq_error.mp h with h | ⟨_, _, h⟩
        · exact Obj.load_error h
        · cases h
      · cases h
    · cases h
  | false =>
    simp only [copyStep, virtioMemcpyFromGuest, Bool.false_eq_true, if_false] at h
    rcases bind_eq_error.mp h with h | ⟨_, _, h⟩
    · rcases bind_eq_error.mp h with h | ⟨_, _, h⟩
      · exact foldlM_error (P := (· = .range)) (fun _ _ _ h => Obj.store_error h) h
      · cases h
    · cases h

/-- The third loop can only fail by leaving the buffer. -/
lemma copyLoop_error {x : Stop}
    (h : copyLoop qs toQueue n m buf desc offset pos count = .error x) : x = .range := by
  induction n generalizing m buf desc offset pos count with
  | zero => cases h
  | succ n ih =>
    simp only [copyLoop] at h
    rcases bind_eq_error.mp h with h | ⟨r, _, h⟩
    · exact copyStep_error h
    · split at h
      · cases h
      · split at h
        · split at h
          · cases h
          · rcases bind_eq_error.mp h with h | ⟨d, _, h⟩
            · rw [getDesc_eq] at h
              cases h
            · split at h
              · cases h
              · split at h
                · cases h
                · exact ih h
        · exact ih h

/-- A copy is safe if and only if it stays inside its buffer. -/
lemma memcpyToFromQueue_safe_iff (h1 : 0 < count) (h2 : count < 2 ^ 31) (hb : buf.size = count) :
    Safe (memcpyToFromQueue m buf qs idx offset count toQueue) ↔
      CopyInside m buf qs idx offset count toQueue := by
  obtain ⟨r, e⟩ : ∃ r, locate m qs idx offset toQueue = .ok r := locate_ok
  rw [memcpyToFromQueue_eq (by omega) e]
  simp only [CopyInside, e]
  cases r with
  | none => simp [safe_ok]
  | some p =>
    obtain ⟨desc, off⟩ := p
    have key : copyLoop qs toQueue loopMax m buf desc off 0 count ≠ .error .range ↔
        NeverBack m.size count 0 (copySegs qs toQueue loopMax m buf desc off 0 count) :=
      copyLoop_range_iff hb rfl (by rw [sub_zero, i32_of_range (by omega) h2]) (by omega)
    constructor
    · rintro h d o eq
      cases eq
      exact key.mp h.2
    · intro h
      refine ⟨?_, key.mpr (h desc off rfl)⟩
      intro abort
      cases copyLoop_error abort

/-- A copy from a chain is safe if and only if its segments stay inside the buffer. -/
lemma memcpyFromQueue_safe_iff (h1 : 0 < count) (h2 : count < 2 ^ 31) (hb : buf.size = count) :
    Safe (memcpyFromQueue m buf qs idx offset count) ↔ CopyInside m buf qs idx offset count false := by
  rw [← memcpyToFromQueue_safe_iff h1 h2 hb, memcpyFromQueue, safe_bind_iff]
  simp [pure, Except.pure, safe_ok]

/-- A copy to a chain is safe if and only if its segments stay inside the buffer. -/
lemma memcpyToQueue_safe_iff (h1 : 0 < count) (h2 : count < 2 ^ 31) (hb : buf.size = count) :
    Safe (memcpyToQueue m qs idx offset buf count) ↔ CopyInside m buf qs idx offset count true := by
  rw [← memcpyToFromQueue_safe_iff h1 h2 hb, memcpyToQueue, safe_bind_iff]
  simp [pure, Except.pure, safe_ok]

/-- `memcpy_to_from_queue` touches only the `count` bytes of its buffer if and only if the lengths of
the chain never lead back behind its start. -/
theorem memcpyToFromQueue_range_iff (m : GuestMemMap) (buf : Obj) (qs : QueueState) (descIdx : Nat)
    (offset count : Int) (toQueue : Bool) (h1 : 0 < count) (h2 : count < 2 ^ 31)
    (hb : buf.size = count) :
    memcpyToFromQueue m buf qs descIdx offset count toQueue ≠ .error .range ↔
      CopyInside m buf qs descIdx offset count toQueue := by
  rw [← memcpyToFromQueue_safe_iff h1 h2 hb]
  refine ⟨fun h => ⟨?_, h⟩, And.right⟩
  obtain ⟨r, e⟩ : ∃ r, locate m qs descIdx offset toQueue = .ok r := locate_ok
  rw [memcpyToFromQueue_eq (by omega) e]
  cases r with
  | none => simp
  | some p =>
    intro abort
    cases copyLoop_error abort

/-- A page of guest memory that holds two descriptors at its start. -/
def twoDescs (d0 d1 : VirtioDesc) : GuestMemMap :=
  .onePage (splice (fun _ => 0) 0 (d0.encode ++ d1.encode))

/-- A queue whose rings all lie at guest address 0. -/
def zeroQueue : QueueState :=
  ⟨0, 8, 0, 0, 0, 0, false⟩

/-- A header of 16 bytes read from a chain of 10 and 6 bytes stays in its buffer. -/
theorem memcpyToFromQueue_range_ten_six :
    (0 : Int) < 16 ∧ (16 : Int) < 2 ^ 31 ∧ (Obj.zero 16).size = (16 : Int) ∧
      memcpyToFromQueue (twoDescs ⟨64, 10, 1, 1⟩ ⟨128, 6, 0, 0⟩) (Obj.zero 16) zeroQueue 0 0 16 false ≠
        .error .range := by
  have e : locate (twoDescs ⟨64, 10, 1, 1⟩ ⟨128, 6, 0, 0⟩) zeroQueue 0 0 false =
      .ok (some (⟨64, 10, 1, 1⟩, 0)) := by decide +kernel
  refine ⟨by decide, by decide, rfl, ?_⟩
  refine (memcpyToFromQueue_range_iff _ _ _ _ _ _ _ (by decide) (by decide) rfl).mpr ?_
  intro desc off h
  rw [e] at h
  cases h
  decide +kernel

/-- A descriptor of `2 ^ 32 - 16` bytes moves `buf` back by 16, and the next one is copied there. -/
theorem memcpyToFromQueue_leaves_buffer :
    (Obj.zero 16).size = (16 : Int) ∧
      memcpyToFromQueue (twoDescs ⟨0, 0xfffffff0, 1, 1⟩ ⟨0, 32, 0, 0⟩) (Obj.zero 16) zeroQueue 0 0 16
        false = .error .range :=
  ⟨rfl, eq_error_of_stop? (by decide +kernel)⟩

end Mvvmm.Virtio
