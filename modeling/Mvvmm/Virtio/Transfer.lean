import Mvvmm.Virtio.Gather

/-!
# Which bytes a copy moves

`memcpy_to_from_queue` ignores what `virtio_memcpy_to_guest` and `virtio_memcpy_from_guest` return, and the two give up
at the first page that does not pass the address check. So the copier may return 0 although it has moved nothing.

`copyCalls` lists the calls that the copier makes, whatever the chain looks like and also if the copies change the chain
on the way, and `byteMoves` the single bytes that these move. If the copier returns 0, the memory and the buffer are as
these moves leave them, and all bytes that were asked for are among them if and only if each lies in guest memory at a
call that gets to it (`memcpyToFromQueue_moves`). On a chain whose entries the copier does not write over before it has
read them, that is: if and only if the bytes of the chain lie in guest memory.
-/

namespace Mvvmm.Virtio
open Bytes CMem

variable {m m' : GuestMemMap} {qs : QueueState} {buf buf' : Obj} {d e : VirtioDesc} {l S : List VirtioDesc}
  {head off pos count n i j : Nat} {toQueue : Bool} {addr : UInt64} {p : Part} {ps : List Part}

/-! ## The calls of a copy -/

/-- The calls that the third loop makes for the descriptors it meets, from a position of the buffer on. -/
def callsOf : Int → Int → List Seg → List Part
  | _, _, [] => []
  | pos, count, seg :: segs =>
    ⟨seg.addr, pos, min count seg.rem⟩ :: callsOf (pos + seg.rem) (i32 (count - seg.rem)) segs

/-- The calls of `virtio_memcpy_from_guest` or `virtio_memcpy_to_guest` that the copier makes. -/
def copyCalls (m : GuestMemMap) (buf : Obj) (qs : QueueState) (descIdx : Nat) (offset count : Int) (toQueue : Bool) :
    List Part :=
  if count = 0 then
    []
  else
    match locate m qs descIdx offset toQueue with
    | .ok (some (desc, off)) => callsOf 0 count (copySegs qs toQueue loopMax m buf desc off 0 count)
    | _ => []

/-- The calls of `memcpy` that a call makes, and what it returns. -/
def Part.memcpys (m : GuestMemMap) (p : Part) : List MemcpyCall × Int :=
  memcpyCalls m p.len.toNat p.addr 0 p.len.toNat

/-- The bytes that a `memcpy` for a call moves: positions in the buffer and in the memory. -/
def MemcpyCall.moves (p : Part) (c : MemcpyCall) : List (Int × Nat) :=
  (List.range c.len).map fun (j : Nat) => (p.pos + c.off + j, c.ptr + j)

/-- The bytes that some calls move, one after the other. -/
def byteMoves (m : GuestMemMap) (ps : List Part) : List (Int × Nat) :=
  ps.flatMap fun p => (p.memcpys m).1.flatMap (MemcpyCall.moves p)

/-- The buffer after bytes were moved from a memory to it. -/
def movedFrom (m : GuestMemMap) (buf : Obj) (moves : List (Int × Nat)) : Obj :=
  { buf with bytes := sets buf.bytes (moves.map fun x => (x.1.toNat, m.hostMem x.2)) }

/-- The memory after bytes were moved to it from a buffer. -/
def movedTo (m : GuestMemMap) (buf : Obj) (moves : List (Int × Nat)) : GuestMemMap :=
  { m with hostMem := sets m.hostMem (moves.map fun x => (x.2, buf.bytes x.1.toNat)) }

/-- Moves in a row. -/
lemma movedFrom_append {xs ys : List (Int × Nat)} :
    movedFrom m buf (xs ++ ys) = movedFrom m (movedFrom m buf xs) ys := by
  simp [movedFrom]

/-- Moves in a row. -/
lemma movedTo_append {xs ys : List (Int × Nat)} : movedTo m buf (xs ++ ys) = movedTo (movedTo m buf xs) buf ys := by
  simp [movedTo]

/-! ## What the calls leave -/

/-- A `memcpy` to the buffer moves its bytes. -/
lemma movedFrom_memcpy {c : MemcpyCall} {b : Obj} (h : b.store (p.pos + c.off) (m.load c.ptr c.len) = .ok buf') :
    buf' = movedFrom m b (c.moves p) := by
  simp only [Obj.store] at h
  split at h
  · rename_i range
    obtain rfl := Except.ok.inj h
    have moves : (c.moves p).map (fun x => (x.1.toNat, m.hostMem x.2)) =
        (List.range c.len).map fun j => ((p.pos + c.off).toNat + j, m.hostMem (c.ptr + j)) := by
      rw [MemcpyCall.moves, List.map_map]
      refine List.map_congr_left fun j _ => ?_
      simp only [Function.comp_apply, Prod.mk.injEq, and_true]
      omega
    rw [movedFrom, moves, sets_range]
    rfl
  · cases h

/-- A `memcpy` to the guest moves its bytes. -/
lemma movedTo_memcpy {c : MemcpyCall} {bs : List UInt8} {m₀ : GuestMemMap}
    (h : buf.load (p.pos + c.off) c.len = .ok bs) : m₀.store c.ptr bs = movedTo m₀ buf (c.moves p) := by
  simp only [Obj.load] at h
  split at h
  · rename_i range
    obtain rfl := Except.ok.inj h
    have moves : (c.moves p).map (fun x => (x.2, buf.bytes x.1.toNat)) =
        (List.range c.len).map fun j => (c.ptr + j, buf.bytes ((p.pos + c.off).toNat + j)) := by
      rw [MemcpyCall.moves, List.map_map]
      refine List.map_congr_left fun j _ => ?_
      simp only [Function.comp_apply, Prod.mk.injEq, true_and]
      congr 1
      omega
    rw [movedTo, moves, sets_range]
    rfl
  · cases h

/-- A call that copies from the guest moves the bytes of its `memcpy`s. -/
lemma virtioMemcpyFromGuest_moves {ret : Int} (h : virtioMemcpyFromGuest m buf p.pos p.addr p.len = .ok (ret, buf')) :
    buf' = movedFrom m buf ((p.memcpys m).1.flatMap (MemcpyCall.moves p)) := by
  obtain ⟨b, run, e⟩ := bind_eq_ok.mp h
  cases e
  clear h
  rw [Part.memcpys]
  generalize (memcpyCalls m p.len.toNat p.addr 0 p.len.toNat).1 = cs at run ⊢
  induction cs generalizing buf with
  | nil =>
    cases run
    rfl
  | cons c cs ih =>
    rw [List.foldlM_cons] at run
    obtain ⟨b, first, rest⟩ := bind_eq_ok.mp run
    rw [List.flatMap_cons, movedFrom_append, ← movedFrom_memcpy first]
    exact ih rest

/-- A call that copies to the guest moves the bytes of its `memcpy`s. -/
lemma virtioMemcpyToGuest_moves {ret : Int} (h : virtioMemcpyToGuest m p.addr buf p.pos p.len = .ok (ret, m')) :
    m' = movedTo m buf ((p.memcpys m).1.flatMap (MemcpyCall.moves p)) := by
  obtain ⟨m₁, run, e⟩ := bind_eq_ok.mp h
  cases e
  clear h
  rw [Part.memcpys]
  generalize (memcpyCalls m p.len.toNat p.addr 0 p.len.toNat).1 = cs at run ⊢
  induction cs generalizing m with
  | nil =>
    cases run
    rfl
  | cons c cs ih =>
    rw [List.foldlM_cons] at run
    obtain ⟨m₁, first, rest⟩ := bind_eq_ok.mp run
    obtain ⟨bs, load, e⟩ := bind_eq_ok.mp first
    cases e
    rw [List.flatMap_cons, movedTo_append, ← movedTo_memcpy load]
    exact ih rest

/-- Which bytes calls move depends on the size of the memory only. -/
lemma byteMoves_congr (size : m'.size = m.size) : byteMoves m' ps = byteMoves m ps := by
  simp only [byteMoves, Part.memcpys, memcpyCalls_congr size]

/-- The memory and the buffer after some calls that do not leave the buffer. -/
lemma copyParts_moves {s : GuestMemMap × Obj} (h : copyParts toQueue (m, buf) ps = .ok s) :
    (toQueue = false → s = (m, movedFrom m buf (byteMoves m ps))) ∧
      (toQueue = true → s = (movedTo m buf (byteMoves m ps), buf)) := by
  induction ps generalizing m buf with
  | nil =>
    cases h
    exact ⟨fun _ => rfl, fun _ => rfl⟩
  | cons p ps ih =>
    rw [copyParts_cons] at h
    obtain ⟨⟨m₁, b₁⟩, step, rest⟩ := bind_eq_ok.mp h
    obtain ⟨fromQueue, intoQueue⟩ := ih rest
    have one : OneSided m m₁ buf b₁ toQueue := copyStep_oneSided step
    have moves : byteMoves m₁ ps = byteMoves m ps := byteMoves_congr one.mem_size
    have cons : byteMoves m (p :: ps) = (p.memcpys m).1.flatMap (MemcpyCall.moves p) ++ byteMoves m ps :=
      List.flatMap_cons
    constructor
    · rintro rfl
      obtain rfl := one.mem rfl
      simp only [copyStep, Bool.false_eq_true, if_false] at step
      obtain ⟨⟨ret, b⟩, call, e⟩ := bind_eq_ok.mp step
      cases e
      rw [fromQueue rfl, cons, movedFrom_append, ← virtioMemcpyFromGuest_moves call]
    · rintro rfl
      obtain rfl := one.buf rfl
      simp only [copyStep, if_true] at step
      obtain ⟨⟨ret, m₂⟩, call, e⟩ := bind_eq_ok.mp step
      cases e
      rw [intoQueue rfl, moves, cons, movedTo_append, ← virtioMemcpyToGuest_moves call]

/-- Whatever the third loop returns, its calls have been made. -/
lemma copyLoop_calls {desc : VirtioDesc} {offset pos count r : Int} (hcount : IsInt count)
    (ret : copyLoop qs toQueue n m buf desc offset pos count = .ok (r, m', buf')) :
    copyParts toQueue (m, buf) (callsOf pos count (copySegs qs toQueue n m buf desc offset pos count)) =
      .ok (m', buf') := by
  induction n generalizing m buf desc offset pos count with
  | zero =>
    cases ret
    rfl
  | succ n ih =>
    rw [copyLoop_succ hcount.1 hcount.2] at ret
    obtain ⟨⟨m₁, b₁⟩, step, ret⟩ := bind_eq_ok.mp ret
    simp only [copySegs, callsOf, copyParts_cons, step, ok_bind]
    simp only at ret
    -- the loop ends here, or goes on with the next descriptor
    split at ret
    · rename_i last
      cases ret
      rw [if_pos last]
      rfl
    · rename_i more
      rw [if_neg more]
      split at ret
      · rename_i stop
        cases ret
        rw [if_pos stop]
        rfl
      · rename_i next
        rw [if_neg next]
        split at ret
        · cases ret
          rfl
        · rename_i d' desc'
          split at ret
          · rename_i dir
            cases ret
            simp only [if_pos dir]
            rfl
          · rename_i dir
            simp only [if_neg dir]
            exact ih (i32_bounds _) ret

/-- Whatever the copier returns, its calls have been made. -/
lemma memcpyToFromQueue_calls {offset count r : Int} (hcount : IsInt count)
    (ret : memcpyToFromQueue m buf qs head offset count toQueue = .ok (r, m', buf')) :
    copyParts toQueue (m, buf) (copyCalls m buf qs head offset count toQueue) = .ok (m', buf') := by
  rw [copyCalls]
  split
  · rename_i zero
    subst zero
    cases ret
    rfl
  · rename_i nonzero
    obtain ⟨r, loc⟩ : ∃ r, locate m qs head offset toQueue = .ok r := locate_ok
    rw [memcpyToFromQueue_eq nonzero loc] at ret
    rw [loc]
    cases r with
    | none =>
      cases ret
      rfl
    | some r => exact copyLoop_calls hcount ret

/-- The positions of guest memory that a copy to a chain stores to. -/
def copyTouched (m : GuestMemMap) (qs : QueueState) (descIdx : Nat) (offset : Int) (buf : Obj) (count : Int) : List Nat :=
  (copyCalls m buf qs descIdx offset count true).flatMap fun p => memcpyTouched m p.addr p.len

/-- Some copies to the guest store nowhere else. -/
lemma copyParts_touched {s : GuestMemMap × Obj} {x : Nat} (h : copyParts true (m, buf) ps = .ok s)
    (out : x ∉ ps.flatMap fun p => memcpyTouched m p.addr p.len) : s.1.hostMem x = m.hostMem x := by
  induction ps generalizing m buf with
  | nil =>
    cases h
    rfl
  | cons p ps ih =>
    rw [List.flatMap_cons, List.mem_append, not_or] at out
    rw [copyParts_cons] at h
    obtain ⟨⟨m₁, b₁⟩, step, rest⟩ := bind_eq_ok.mp h
    have size : m₁.size = m.size := (copyStep_oneSided step).mem_size
    have same : (fun p : Part => memcpyTouched m₁ p.addr p.len) = fun p => memcpyTouched m p.addr p.len := by
      funext p
      rw [memcpyTouched, memcpyCalls_congr size, memcpyTouched]
    rw [ih rest (by rw [same]; exact out.2)]
    simp only [copyStep, if_true] at step
    obtain ⟨⟨ret, m₂⟩, call, e⟩ := bind_eq_ok.mp step
    cases e
    exact virtioMemcpyToGuest_frame out.1 call

/-- A copy to a chain stores nowhere else, whatever it returns. -/
lemma memcpyToQueue_touched {offset count r : Int} {x : Nat} (hcount : IsInt count)
    (h : memcpyToQueue m qs head offset buf count = .ok (r, m')) (out : x ∉ copyTouched m qs head offset buf count) :
    m'.hostMem x = m.hostMem x := by
  obtain ⟨⟨r', m₁, b₁⟩, e, h⟩ := bind_eq_ok.mp h
  cases h
  exact copyParts_touched (memcpyToFromQueue_calls hcount e) out

/-! ## The bytes that are moved -/

/-- The address check lets a call get to its byte `j`: it passes where the call starts and at each page up to there. -/
def Part.Passes (m : GuestMemMap) (p : Part) (j : Nat) : Prop :=
  ∀ i ≤ j, (i = 0 ∨ (p.addr + .ofNat i).toNat % virtioPageSize = 0) → (p.addr + .ofNat i).toNat ≤ m.size

/-- A byte of the buffer has its place in guest memory, and one of the calls gets to it. -/
def Covered (m : GuestMemMap) (ps : List Part) (i : Nat) : Prop :=
  ∃ p ∈ ps, ∃ j : Nat, j < p.len ∧ (i : Int) = p.pos + j ∧ p.Passes m j ∧ (p.addr + .ofNat j).toNat < m.size

/-- No page starts inside a chunk. -/
lemma page_ne_of_lt_chunkLen {addr : UInt64} {count k : Nat} (h0 : 0 < k) (hk : k < chunkLen addr count) :
    (addr + .ofNat k).toNat % virtioPageSize ≠ 0 := by
  have lt := addr.toNat_lt
  rw [UInt64.toNat_add, UInt64.toNat_ofNat']
  simp only [chunkLen, virtioPageSize] at hk ⊢
  omega

/-- A chunk that is not the last ends with its page. -/
lemma page_add_chunkLen {addr : UInt64} {count : Nat} (h : chunkLen addr count < count) :
    (addr + .ofNat (chunkLen addr count)).toNat % virtioPageSize = 0 := by
  have lt := addr.toNat_lt
  rw [UInt64.toNat_add, UInt64.toNat_ofNat']
  simp only [chunkLen, virtioPageSize] at h ⊢
  omega

/-- The page loop moves a byte if and only if the checks pass up to it. -/
lemma memcpyCalls_cover_iff {fuel : Nat} (addr : UInt64) (off count : Nat) (hf : count ≤ fuel) (hi : i < count) :
    (∃ c ∈ (memcpyCalls m fuel addr off count).1, c.off ≤ off + i ∧ off + i < c.off + c.len) ↔
      ∀ k ≤ i, (k = 0 ∨ (addr + .ofNat k).toNat % virtioPageSize = 0) → (addr + .ofNat k).toNat ≤ m.size := by
  induction fuel generalizing addr off count i with
  | zero => omega
  | succ fuel ih =>
    have hl := chunkLen_pos addr (show 0 < count by omega)
    have hl' := chunkLen_le addr count
    by_cases ha : addr.toNat ≤ m.size
    · rw [memcpyCalls_succ ha (by omega)]
      by_cases hk : i < chunkLen addr count
      · refine iff_of_true ⟨_, List.mem_cons_self, Nat.le_add_right _ _, by simp only; omega⟩ ?_
        rintro k hki (rfl | page)
        · simpa using ha
        · rcases Nat.eq_zero_or_pos k with rfl | pos
          · simpa using ha
          · exact absurd page (page_ne_of_lt_chunkLen pos (show k < chunkLen addr count by omega))
      · obtain ⟨j, rfl⟩ : ∃ j, i = chunkLen addr count + j := ⟨i - chunkLen addr count, by omega⟩
        have rest := ih (addr + .ofNat (chunkLen addr count)) (off + chunkLen addr count) (count - chunkLen addr count)
          (show count - chunkLen addr count ≤ fuel by omega) (show j < count - chunkLen addr count by omega)
        simp only [add_ofNat_ofNat] at rest
        constructor
        · rintro ⟨c, hc, h1, h2⟩
          rcases List.mem_cons.mp hc with rfl | hc
          · simp only at h2
            omega
          · have pass := rest.mp ⟨c, hc, by omega, by omega⟩
            intro k hki page
            by_cases before : k < chunkLen addr count
            · rcases Nat.eq_zero_or_pos k with rfl | pos
              · simpa using ha
              · exact absurd (page.resolve_left (by omega)) (page_ne_of_lt_chunkLen pos before)
            · obtain ⟨k, rfl⟩ : ∃ k', k = chunkLen addr count + k' := ⟨k - chunkLen addr count, by omega⟩
              exact pass k (by omega) (.inr (page.resolve_left (by omega)))
        · intro pass
          have start := page_add_chunkLen (show chunkLen addr count < count by omega)
          obtain ⟨c, hc, h1, h2⟩ := rest.mpr fun k hk page => pass _ (by omega) (.inr (by
            rcases page with rfl | page
            · exact start
            · exact page))
          exact ⟨c, List.mem_cons_of_mem _ hc, by omega, by omega⟩
    · rw [memcpyCalls_outside (by omega) (by omega)]
      refine iff_of_false (by simp) fun pass => ha ?_
      simpa using pass 0 (Nat.zero_le _) (.inl rfl)

/-- The calls move a byte of the buffer to or from a place in guest memory if and only if it is covered. -/
lemma byteMoves_iff : (∃ a < m.size, ((i : Int), a) ∈ byteMoves m ps) ↔ Covered m ps i := by
  simp only [byteMoves, List.mem_flatMap, MemcpyCall.moves, List.mem_map, List.mem_range, Prod.mk.injEq]
  constructor
  · rintro ⟨a, ha, p, hp, c, hc, j, hj, hpos, rfl⟩
    have offs := memcpyCalls_off hc
    refine ⟨p, hp, c.off + j, by omega, by omega, ?_, ?_⟩
    · exact (memcpyCalls_cover_iff _ 0 _ le_rfl (by omega)).mp ⟨c, hc, by omega, by omega⟩
    · rwa [← memcpyCalls_byte hc hj]
  · rintro ⟨p, hp, j, hj, hpos, passes, inside⟩
    obtain ⟨c, hc, h1, h2⟩ := (memcpyCalls_cover_iff p.addr 0 p.len.toNat le_rfl (by omega)).mpr passes
    obtain ⟨k, rfl⟩ : ∃ k, j = c.off + k := ⟨j - c.off, by omega⟩
    have byte := memcpyCalls_byte hc (show k < c.len by omega)
    exact ⟨c.ptr + k, by rwa [byte], p, hp, c, hc, k, by omega, by omega, rfl⟩

/-! ## Chains that stay as they are -/

/-- A piece whose bytes lie in guest memory. -/
lemma parts_inside (inside : ∀ i < count, (byteAddr l (off + i)).toNat < m.size) (hp : p ∈ parts l off 0 count) :
    guestSpan p.addr p.len.toNat ⊆ Set.Iio m.size := by
  rintro a ⟨j, hj, rfl⟩
  obtain ⟨first, last, byte⟩ := parts_byte hp
  rw [← byte j (by omega), Nat.add_assoc]
  exact inside _ (by omega)

/-- The checks pass for a call whose bytes lie in guest memory. -/
lemma Part.passes_of_inside (inside : guestSpan p.addr p.len.toNat ⊆ Set.Iio m.size) (hj : (j : Int) < p.len) :
    p.Passes m j :=
  fun i hi _ => (Set.mem_Iio.mp (inside ⟨i, by omega, rfl⟩)).le

/-- No call fails whose bytes lie in guest memory. -/
lemma Part.memcpys_ret (inside : guestSpan p.addr p.len.toNat ⊆ Set.Iio m.size) : (p.memcpys m).2 = 0 := by
  rcases Nat.eq_zero_or_pos p.len.toNat with zero | pos
  · simp [Part.memcpys, zero, memcpyCalls]
  · have ends := (guestSpan_inside pos).mp inside
    exact memcpyCalls_ret (by omega) (by omega) le_rfl

/-- The bytes of the pieces of a copy are covered if and only if they lie in guest memory. -/
lemma covered_parts_iff (hc : 0 < count → off + count ≤ total l) :
    (∀ i < count, Covered m (parts l off 0 count) i) ↔ ∀ i < count, (byteAddr l (off + i)).toNat < m.size := by
  constructor
  · intro covered i hi
    obtain ⟨p, hp, j, hj, hpos, -, inside⟩ := covered i hi
    obtain ⟨first, -, byte⟩ := parts_byte hp
    rwa [← byte j hj, show off + (p.pos - (0 : Nat)).toNat + j = off + i from by omega] at inside
  · intro inside i hi
    obtain ⟨p, hp, h1, h2⟩ : ∃ p ∈ parts l off 0 count,
        p.pos ≤ ((0 : Nat) : Int) + i ∧ ((0 : Nat) : Int) + i < p.pos + p.len :=
      parts_cover (hc (by omega)) hi
    have span := parts_inside inside hp
    refine ⟨p, hp, (i - p.pos).toNat, by omega, by omega, Part.passes_of_inside span (by omega), ?_⟩
    exact span ⟨(i - p.pos).toNat, by omega, rfl⟩

/-- Calls for no bytes cover none. -/
lemma covered_filter : Covered m (ps.filter fun p => 0 < p.len) i ↔ Covered m ps i := by
  simp only [Covered, List.mem_filter, decide_eq_true_eq]
  constructor
  · rintro ⟨p, ⟨hp, -⟩, rest⟩
    exact ⟨p, hp, rest⟩
  · rintro ⟨p, hp, j, hj, rest⟩
    exact ⟨p, ⟨hp, by omega⟩, j, hj, rest⟩

/-- The last call, for what is left in one descriptor. -/
lemma callsOf_last (pos : Nat) (len : e.len.toNat < 2 ^ 31) (h0 : 0 < count) (le : off + count ≤ e.len.toNat) :
    (callsOf pos count (copySegs qs toQueue (n + 1) m buf e off pos count)).filter (fun p => 0 < p.len) =
      parts (e :: S) off pos count := by
  have rem := remaining_eq (show off ≤ e.len.toNat by omega) len
  have all : min (count : Int) ((e.len.toNat - off : Nat) : Int) = count := by omega
  simp only [copySegs, callsOf, rem, ofInt_natCast, all]
  rw [parts, if_neg (by omega), if_pos (by omega)]
  cases copyStep m buf toQueue (e.addr + .ofNat off) pos count with
  | error x => simp [callsOf, h0]
  | ok r =>
    simp only [if_pos (show (count : Int) ≤ ((e.len.toNat - off : Nat) : Int) by omega)]
    simp [callsOf, h0]

/-- In a run of descriptors that the copies leave alone, the calls are for the pieces, but for those of no bytes. -/
lemma callsOf_filter (pos : Nat) (leads : Leads m qs (e :: S)) (hS : ∀ d ∈ S, d.isWrite = toQueue)
    (lens : ∀ d ∈ e :: S, d.len.toNat < 2 ^ 31) (hoff : off ≤ e.len.toNat) (h0 : 0 < count) (hcount : count < 2 ^ 31)
    (hc : off + count ≤ total (e :: S)) (hn : descIndex (e :: S) (off + count - 1) < n) (hb : pos + count ≤ buf.size)
    (clear : toQueue = true → ClearAhead qs (e :: S) []) :
    (callsOf pos count (copySegs qs toQueue n m buf e off pos count)).filter (fun p => 0 < p.len) =
      parts (e :: S) off pos count := by
  induction S generalizing m buf e off pos count n with
  | nil =>
    obtain ⟨n, rfl⟩ : ∃ j, n = j + 1 := ⟨n - 1, by omega⟩
    rw [total_cons, total_nil] at hc
    exact callsOf_last pos (lens e (by simp)) h0 hc
  | cons s S ih =>
    obtain ⟨n, rfl⟩ : ∃ j, n = j + 1 := ⟨n - 1, by omega⟩
    rw [total_cons] at hc
    have rem := remaining_eq hoff (lens e (by simp))
    by_cases hle : off + count ≤ e.len.toNat
    · exact callsOf_last pos (lens e (by simp)) h0 hle
    · obtain ⟨k, hk⟩ : ∃ k, k = e.len.toNat - off := ⟨_, rfl⟩
      have all : min (count : Int) (k : Int) = k := by omega
      obtain ⟨m₁, b₁, step, -, size⟩ : ∃ m' buf', copyStep m buf toQueue (e.addr + .ofNat off) pos (k : Int) =
          .ok (m', buf') ∧ m'.size = m.size ∧ buf'.size = buf.size := copyStep_safe _ (by omega) (by omega)
      obtain ⟨msize, same⟩ := eqOn_entries step (l := s :: S) (by omega) fun t => by simpa using (clear t).1
      obtain ⟨next, desc, rest⟩ := Leads.next (leads.congr msize same)
      simp only [copySegs, callsOf, rem, ofInt_natCast, ← hk, all, step, next, desc, hS s (by simp), Bool.not_true,
        bne_self_eq_false, Bool.false_eq_true, if_false, if_neg (show ¬ (count : Int) ≤ (k : Int) by omega)]
      rw [descIndex, if_neg (by omega)] at hn
      have tail := ih (n := n) (pos + k) rest (fun d hd => hS d (by simp [hd])) (fun d hd => lens d (by simp [hd]))
        (Nat.zero_le _) (show 0 < count - k by omega) (by omega) (by omega)
        (by rw [show 0 + (count - k) - 1 = off + count - 1 - e.len.toNat from by omega]; omega)
        (show pos + k + (count - k) ≤ b₁.size by omega) (fun t => (clear t).2)
      rw [i32_of_range (by omega) (by omega), show (count : Int) - (k : Int) = ((count - k : Nat) : Int) from by omega,
        show (pos : Int) + (k : Int) = ((pos + k : Nat) : Int) from by omega, List.filter_cons]
      rw [Nat.cast_zero] at tail
      rw [tail]
      rcases hoff.eq_or_lt with full | part
      · have whole : parts (e :: s :: S) off pos count = parts (s :: S) 0 pos count := by
          rw [parts, if_pos (by omega), show off - e.len.toNat = 0 from by omega]
        rw [if_neg (by simp only [decide_eq_true_eq]; omega), whole, show pos + k = pos from by omega,
          show count - k = count from by omega]
      · have whole : parts (e :: s :: S) off pos count =
            ⟨e.addr + .ofNat off, pos, k⟩ :: parts (s :: S) 0 (pos + k) (count - k) := by
          rw [parts, if_neg (by omega), if_neg (by omega), ← hk]
        rw [if_pos (by simp only [decide_eq_true_eq]; omega), whole]

/-- The calls of a copy that returns 0, on a chain that the copies leave alone until they have passed. -/
lemma copyCalls_filter {offset count : Int} (chain : IsChain m qs head l) (bytes : total (runOf toQueue l) < 2 ^ 31)
    (hoffset : IsInt offset) (hcount : IsInt count) (hbuf : count ≤ buf.size)
    (clear : toQueue = true → ClearAhead qs (runOf toQueue l) (afterRun toQueue l))
    (ret : memcpyToFromQueue m buf qs head offset count toQueue = .ok (0, m', buf')) (pos : 0 < count) :
    (copyCalls m buf qs head offset count toQueue).filter (fun p => 0 < p.len) =
        parts (runOf toQueue l) offset.toNat 0 count.toNat ∧
      offset.toNat + count.toNat ≤ total (runOf toQueue l) := by
  by_cases located : u32 offset < total (runOf toQueue l) ∧
      (toQueue = true → (readablePart l).length < loopMax) ∧ descIndex (runOf toQueue l) (u32 offset) < loopMax
  · -- The bytes found are below `2 ^ 31`, so the offset is not negative.
    obtain ⟨off, rfl⟩ : ∃ off : Nat, offset = off := by
      refine ⟨offset.toNat, ?_⟩
      have lt := located.1
      simp only [u32, IsInt] at lt hoffset
      omega
    obtain ⟨c, rfl⟩ : ∃ c : Nat, count = c := ⟨count.toNat, by omega⟩
    simp only [IsInt] at hoffset hcount
    rw [Int.toNat_natCast, Int.toNat_natCast]
    by_cases reach : Reaches toQueue l off c
    · have room := reach.bytes
      refine ⟨?_, room⟩
      have skip : (beforeRun toQueue l).length < loopMax := by
        cases toQueue with
        | false => exact Nat.zero_lt_succ _
        | true => exact reach.skip rfl
      have begins : Begins m qs head (beforeRun toQueue l ++ runOf toQueue l) := by
        apply IsChain.begins (T := afterRun toQueue l)
        rwa [List.append_assoc, append_run]
      obtain ⟨Q, e, S, off', run, rfl, lt', loc⟩ := locate_done begins (fun _ => mem_beforeRun)
        (fun _ => runOf_isWrite) (by omega) (by omega) skip reach.near.first
      have last := reach.near.last
      have leads := begins.leads
      rw [run] at last leads room bytes clear
      rw [show total Q + off' + c - 1 = total Q + (off' + c - 1) from by omega, descIndex_append,
        descIndex_append, show descIndex (e :: S) off' = 0 from if_pos lt'] at last
      rw [total_append] at room bytes
      rw [copyCalls, if_neg (by omega), loc, run, parts_skip]
      refine callsOf_filter 0 (Leads.right (P := beforeRun toQueue l ++ Q) ?_) ?_ ?_ lt'.le
        (by omega) (by omega) (by omega) (by omega) (by omega) (fun t => ((clear t).drop).front (S := []))
      · rwa [List.append_assoc]
      · exact fun d hd => runOf_isWrite (l := l) (by rw [run]; simp [hd])
      · intro d hd
        have le := len_le_total hd
        omega
    · obtain ⟨m₁, buf₁, e⟩ := memcpyToFromQueue_short chain bytes reach (by omega) (by omega) (by omega)
        (show c ≤ buf.size by omega) clear
      rw [e] at ret
      cases ret
  · rw [memcpyToFromQueue_eq (by omega) (locate_short chain located)] at ret
    cases ret

/-- If the copier returns 0, then the memory and the buffer are as the moves of its calls leave them, and each byte that
was asked for has been moved to or from guest memory if and only if it has its place there and one of the calls gets to
it. On a chain of less than `2 ^ 31` bytes on which no buffer that is written lies on an entry that comes after it, this
is so if and only if the bytes of the chain lie in guest memory, and then no call has failed. -/
theorem memcpyToFromQueue_moves (m : GuestMemMap) (buf : Obj) (qs : QueueState) (head : Nat) (offset count : Int)
    (toQueue : Bool) (m' : GuestMemMap) (buf' : Obj) (hcount : IsInt count)
    (ret : memcpyToFromQueue m buf qs head offset count toQueue = .ok (0, m', buf')) :
    (toQueue = false →
      m' = m ∧ buf' = movedFrom m buf (byteMoves m (copyCalls m buf qs head offset count toQueue))) ∧
    (toQueue = true →
      m' = movedTo m buf (byteMoves m (copyCalls m buf qs head offset count toQueue)) ∧ buf' = buf) ∧
    ((∀ i < count.toNat, ∃ a < m.size, ((i : Int), a) ∈ byteMoves m (copyCalls m buf qs head offset count toQueue)) ↔
      ∀ i < count.toNat, Covered m (copyCalls m buf qs head offset count toQueue) i) ∧
    ∀ l, IsChain m qs head l → total (runOf toQueue l) < 2 ^ 31 → IsInt offset → count ≤ buf.size →
      (toQueue = true → ClearAhead qs (runOf toQueue l) (afterRun toQueue l)) →
      ((∀ i < count.toNat, Covered m (copyCalls m buf qs head offset count toQueue) i) ↔
        ∀ i < count.toNat, (byteAddr (runOf toQueue l) (offset.toNat + i)).toNat < m.size) ∧
      (0 < count → (∀ i < count.toNat, (byteAddr (runOf toQueue l) (offset.toNat + i)).toNat < m.size) →
        ∀ p ∈ copyCalls m buf qs head offset count toQueue, (p.memcpys m).2 = 0) := by
  obtain ⟨fromQueue, intoQueue⟩ := copyParts_moves (memcpyToFromQueue_calls hcount ret)
  refine ⟨fun t => Prod.mk.inj (fromQueue t), fun t => Prod.mk.inj (intoQueue t),
    forall₂_congr fun _ _ => byteMoves_iff, fun l chain bytes hoffset hbuf clear => ⟨?_, ?_⟩⟩
  · by_cases pos : 0 < count
    · obtain ⟨calls, room⟩ := copyCalls_filter chain bytes hoffset hcount hbuf clear ret pos
      rw [← covered_parts_iff (fun _ => room), ← calls]
      exact forall₂_congr fun _ _ => covered_filter.symm
    · rw [show count.toNat = 0 from by omega]
      simp
  · intro pos inside p hp
    obtain ⟨calls, -⟩ := copyCalls_filter chain bytes hoffset hcount hbuf clear ret pos
    by_cases some : 0 < p.len
    · exact Part.memcpys_ret (parts_inside inside (calls ▸ List.mem_filter.mpr ⟨hp, by simpa using some⟩))
    · simp [Part.memcpys, show p.len.toNat = 0 from by omega, memcpyCalls]

/-- Four of the ten bytes of a descriptor in guest memory. -/
theorem memcpyToFromQueue_moves_ten :
    ∃ m' buf', memcpyToFromQueue (twoDescs tenBytes sixBytes) (Obj.zero 4) zeroQueue 0 2 4 false = .ok (0, m', buf') ∧
      buf' = movedFrom (twoDescs tenBytes sixBytes) (Obj.zero 4)
        (byteMoves (twoDescs tenBytes sixBytes)
          (copyCalls (twoDescs tenBytes sixBytes) (Obj.zero 4) zeroQueue 0 2 4 false)) ∧
      ∀ i : Nat, i < 4 → ∃ a < (twoDescs tenBytes sixBytes).size, ((i : Int), a) ∈
        byteMoves (twoDescs tenBytes sixBytes)
          (copyCalls (twoDescs tenBytes sixBytes) (Obj.zero 4) zeroQueue 0 2 4 false) := by
  have reach : Reaches false ([tenBytes] ++ [sixBytes]) 2 4 := (reaches_iff (by decide) (by decide)).mpr (by decide)
  obtain ⟨s, e, -⟩ : ∃ s, copyParts false (twoDescs tenBytes sixBytes, Obj.zero 4)
      (parts (runOf false ([tenBytes] ++ [sixBytes])) 2 0 4) = .ok s ∧ s.2.size = (Obj.zero 4).size :=
    copyParts_safe (by decide)
  have ret : memcpyToFromQueue (twoDescs tenBytes sixBytes) (Obj.zero 4) zeroQueue 0 (2 : Nat) (4 : Nat) false =
      .ok (0, s.1, s.2) := by
    rw [memcpyToFromQueue_done isChain_ten_six (by decide) reach (by decide) (by simp), e]
    rfl
  obtain ⟨contents, -, moved, chain⟩ := memcpyToFromQueue_moves _ _ _ 0 2 4 false s.1 s.2 (by unfold IsInt; omega) ret
  refine ⟨s.1, s.2, ret, (contents rfl).2, moved.mpr ?_⟩
  exact (chain ([tenBytes] ++ [sixBytes]) isChain_ten_six (by decide) (by unfold IsInt; omega) (by decide)
    (by simp)).1.mpr (by decide)

/-- A readable descriptor whose buffer lies behind a memory of one page. -/
def behindMemory : VirtioDesc :=
  ⟨0x10000, 16, 0, 0⟩

/-- A copy from it fails, the buffer stays as it was, and the copier returns 0. -/
theorem copy_failure_ignored :
    virtioMemcpyFromGuest (twoDescs behindMemory .zero) (Obj.zero 16) 0 behindMemory.addr 16 = .ok (-1, Obj.zero 16) ∧
      memcpyToFromQueue (twoDescs behindMemory .zero) (Obj.zero 16) zeroQueue 0 0 16 false =
        .ok (0, twoDescs behindMemory .zero, Obj.zero 16) := by
  have loc : locate (twoDescs behindMemory .zero) zeroQueue 0 0 false = .ok (some (behindMemory, ((0 : Nat) : Int))) := by
    decide +kernel
  have round : copyLoop zeroQueue false (1024 + 1) (twoDescs behindMemory .zero) (Obj.zero 16) behindMemory (0 : Nat)
      (0 : Nat) (16 : Nat) = _ := copyLoop_within (by decide) (by decide)
  rw [copyStep_nop (.inr (by decide))] at round
  refine ⟨virtioMemcpyFromGuest_outside (by decide) (by decide), ?_⟩
  rw [memcpyToFromQueue_eq (by decide) loc]
  exact round

end Mvvmm.Virtio
