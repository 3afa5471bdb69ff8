import Mvvmm.Virtio.Mem

/-!
# The copies, page by page

The loops of `virtio_memcpy_from_guest` and `virtio_memcpy_to_guest` as they are written: `count` and the length of a
chunk are `int`s, the address wraps around at `2 ^ 64`, and nothing bounds the number of rounds. The two loops differ in
their call of `memcpy` only, so they are one loop `pageLoop` over what the call changes, and `.diverge` is what becomes of
it when it is not over after the rounds it was given.

`pageLoop_calls` says that the loop makes the calls listed by `memcpyCalls` and is over after `count` rounds at the latest.
So what is known of `virtioMemcpyFromGuest` and `virtioMemcpyToGuest` holds of the loops, and in particular that they are
flat copies (`memcpy_pages`).
-/

namespace Mvvmm.Virtio
open Bytes CMem

variable {σ : Type} {m : GuestMemMap} {addr : UInt64} {buf : Obj} {pos count : Int} {n fuel off : Nat} {t : σ}
  {c : MemcpyCall}

/-- C `min_int`. -/
def minInt (a b : Int) : Int :=
  if a < b then a else b

/-- C `min_int(count, VIRTIO_PAGE_SIZE - (addr & (VIRTIO_PAGE_SIZE - 1)))`. The difference has the type of the address and
is converted to `int` for the call. -/
def pageLen (addr : UInt64) (count : Int) : Int :=
  minInt count (i32 (UInt64.ofNat virtioPageSize - (addr &&& .ofNat (virtioPageSize - 1))).toNat)

/-- The `while` loop of the two copies with a bound on the number of its rounds. `copy ptr pos l` is the call of `memcpy`,
with the offset from `host_mem`, the position of `buf` and the length. -/
def pageLoop (m : GuestMemMap) (copy : Nat → Int → Int → σ → Except Stop σ) :
    Nat → σ → UInt64 → Int → Int → Except Stop (Int × σ)
  | 0, _, _, _, _ => .error .diverge
  | n + 1, t, addr, pos, count =>
    if count > 0 then
      let l := pageLen addr count
      match guestAddrToHostAddr m addr with
      | none => return (-1, t)
      | some ptr => do
        let t ← copy ptr pos l t
        pageLoop m copy n t (addr + .ofInt l) (pos + l) (count - l)
    else
      return (0, t)

/-- C `virtio_memcpy_from_guest`, with at most `n` rounds. -/
def memcpyFromGuestLoop (m : GuestMemMap) (n : Nat) (buf : Obj) (pos : Int) (addr : UInt64) (count : Int) :
    Except Stop (Int × Obj) :=
  pageLoop m (fun ptr pos l buf => buf.store pos (m.load ptr l.toNat)) n buf addr pos count

/-- C `virtio_memcpy_to_guest`, with at most `n` rounds. -/
def memcpyToGuestLoop (m : GuestMemMap) (n : Nat) (addr : UInt64) (buf : Obj) (pos : Int) (count : Int) :
    Except Stop (Int × GuestMemMap) :=
  pageLoop m (fun ptr pos l m => do return m.store ptr (← buf.load pos l.toNat)) n m addr pos count

/-- The loop with a `memcpy` that only notes its arguments: the chunks of a copy. -/
def pageChunks (m : GuestMemMap) (n : Nat) (addr : UInt64) (count : Int) : Except Stop (Int × List MemcpyCall) :=
  pageLoop m (fun ptr pos l cs => .ok (cs ++ [⟨ptr, pos.toNat, l.toNat⟩])) n [] addr 0 count

/-- The guest bytes of a call of `memcpy` lie in one page. -/
def MemcpyCall.InOnePage (c : MemcpyCall) : Prop :=
  0 < c.len ∧ (c.ptr + c.len - 1) / virtioPageSize = c.ptr / virtioPageSize

instance (c : MemcpyCall) : Decidable c.InOnePage :=
  inferInstanceAs (Decidable (_ ∧ _))

/-! ## Rounds -/

/-- The mask takes the remainder, and no conversion loses anything. -/
lemma pageLen_eq (h : 0 ≤ count) : pageLen addr count = chunkLen addr count.toNat := by
  have mask : (addr &&& .ofNat (virtioPageSize - 1)).toNat = addr.toNat % 4096 := by
    rw [UInt64.toNat_and]
    exact Nat.and_two_pow_sub_one_eq_mod addr.toNat 12
  have page : (UInt64.ofNat virtioPageSize).toNat = 4096 := rfl
  have le : (addr &&& .ofNat (virtioPageSize - 1)) ≤ UInt64.ofNat virtioPageSize := by
    rw [UInt64.le_iff_toNat_le, mask, page]
    omega
  rw [pageLen, UInt64.toNat_sub_of_le _ _ le, mask, page, i32_of_range (by omega) (by omega), minInt, chunkLen,
    virtioPageSize]
  omega

/-- The loop makes the calls of `memcpyCalls`, and each round has one byte less to copy at least. -/
lemma pageLoop_calls {copy : Nat → Int → Int → σ → Except Stop σ} (hf : count.toNat ≤ fuel) (hn : count.toNat < n) :
    pageLoop m copy n t addr (pos + off) count =
      ((memcpyCalls m fuel addr off count.toNat).1.foldlM (fun t c => copy c.ptr (pos + c.off) c.len t) t >>= fun t =>
        .ok ((memcpyCalls m fuel addr off count.toNat).2, t)) := by
  induction n generalizing fuel off addr count t with
  | zero => omega
  | succ n ih =>
    by_cases more : count > 0
    · obtain ⟨fuel, rfl⟩ : ∃ k, fuel = k + 1 := ⟨fuel - 1, by omega⟩
      have pos' := chunkLen_pos addr (show 0 < count.toNat by omega)
      have le := chunkLen_le addr count.toNat
      have len : pageLen addr count = _ := pageLen_eq more.le
      by_cases ha : addr.toNat ≤ m.size
      · have ptr : guestAddrToHostAddr m addr = some addr.toNat := if_neg (by omega)
        rw [memcpyCalls_succ ha (by omega), List.foldlM_cons, bind_assoc]
        simp only [pageLoop, if_pos more, ptr, len]
        refine bind_congr fun t => ?_
        -- The rest of the loop is the loop for the rest of the bytes.
        have rest : (count - chunkLen addr count.toNat).toNat = count.toNat - chunkLen addr count.toNat := by omega
        have next := @ih (addr + .ofNat (chunkLen addr count.toNat)) (count - chunkLen addr count.toNat) fuel
          (off + chunkLen addr count.toNat) t (by omega) (by omega)
        rw [rest] at next
        rw [← next, ofInt_natCast, Int.natCast_add, ← add_assoc]
      · have ptr : guestAddrToHostAddr m addr = none := if_pos (by omega)
        rw [memcpyCalls_outside (by omega) (by omega)]
        simp only [pageLoop, if_pos more, ptr]
        rfl
    · rw [show count.toNat = 0 from by omega, memcpyCalls_zero]
      simp only [pageLoop, if_neg more]
      rfl

/-- What `virtioMemcpyFromGuest` does, the loop does in any number of rounds above `count`. -/
lemma memcpyFromGuestLoop_eq (hn : count.toNat < n) :
    memcpyFromGuestLoop m n buf pos addr count = virtioMemcpyFromGuest m buf pos addr count := by
  have loop : pageLoop m (fun ptr pos l buf => buf.store pos (m.load ptr l.toNat)) n buf addr (pos + (0 : Nat)) count =
    _ := pageLoop_calls le_rfl hn
  rw [Int.natCast_zero, add_zero] at loop
  exact loop

/-- The loop over the pages is the copy to the guest. -/
lemma memcpyToGuestLoop_eq (hn : count.toNat < n) :
    memcpyToGuestLoop m n addr buf pos count = virtioMemcpyToGuest m addr buf pos count := by
  have loop : pageLoop m (fun ptr pos l m => do return m.store ptr (← buf.load pos l.toNat)) n m addr (pos + (0 : Nat))
    count = _ := pageLoop_calls le_rfl hn
  rw [Int.natCast_zero, add_zero] at loop
  exact loop

/-- The calls are noted in order. -/
lemma foldlM_note (cs cs' : List MemcpyCall) :
    cs'.foldlM (fun cs c => (.ok (cs ++ [⟨c.ptr, (0 + (c.off : Int)).toNat, (c.len : Int).toNat⟩]) : Except Stop _)) cs =
      .ok (cs ++ cs') := by
  induction cs' generalizing cs with
  | nil => rw [List.append_nil, List.foldlM_nil]; rfl
  | cons c cs' ih =>
    rw [List.foldlM_cons, ok_bind, ih, zero_add, Int.toNat_natCast, Int.toNat_natCast, List.append_assoc]
    rfl

/-- The chunks of a copy are the calls of `memcpyCalls`. -/
lemma pageChunks_eq (hn : count.toNat < n) :
    pageChunks m n addr count = .ok ((memcpyCalls m count.toNat addr 0 count.toNat).2,
      (memcpyCalls m count.toNat addr 0 count.toNat).1) := by
  have loop : pageLoop m (fun ptr pos l cs => .ok (cs ++ [(⟨ptr, pos.toNat, l.toNat⟩ : MemcpyCall)])) n [] addr
    (0 + (0 : Nat)) count = _ := pageLoop_calls le_rfl hn
  rw [foldlM_note, ok_bind, List.nil_append] at loop
  exact loop

/-- A chunk ends with its page at the latest. -/
lemma memcpyCalls_inOnePage (hc : c ∈ (memcpyCalls m fuel addr off n).1) : c.InOnePage := by
  induction fuel generalizing addr off n with
  | zero => cases hc
  | succ fuel ih =>
    rcases Nat.eq_zero_or_pos n with rfl | h0
    · rw [memcpyCalls_zero] at hc
      cases hc
    · by_cases ha : addr.toNat ≤ m.size
      · rw [memcpyCalls_succ ha h0] at hc
        rcases List.mem_cons.mp hc with rfl | hc
        · have h := chunkLen_pos addr h0
          simp only [MemcpyCall.InOnePage, chunkLen, virtioPageSize] at h ⊢
          omega
        · exact ih hc
      · rw [memcpyCalls_outside (by omega) h0] at hc
        cases hc

/-! ## Flat copies -/

/-- From any address and for any `count` the two loops end, after `count` rounds at the latest, and every chunk lies in one
page. If the bytes lie in guest memory, the loops return 0 and are one flat copy. -/
theorem memcpy_pages (m : GuestMemMap) (addr : UInt64) (count : Int) (buf : Obj) (pos : Int) (h1 : 0 ≤ pos)
    (h2 : pos + count ≤ buf.size) :
    (∃ ret cs, (∀ n, count.toNat < n → pageChunks m n addr count = .ok (ret, cs)) ∧ ∀ c ∈ cs, c.InOnePage) ∧
    (∃ ret buf', ∀ n, count.toNat < n → memcpyFromGuestLoop m n buf pos addr count = .ok (ret, buf')) ∧
    (∃ ret m', ∀ n, count.toNat < n → memcpyToGuestLoop m n addr buf pos count = .ok (ret, m')) ∧
    (0 < count → addr.toNat + count ≤ m.size → ∀ n, count.toNat < n →
      memcpyFromGuestLoop m n buf pos addr count =
        .ok (0, { buf with bytes := splice buf.bytes pos.toNat (m.load addr.toNat count.toNat) }) ∧
      ∃ m', memcpyToGuestLoop m n addr buf pos count = .ok (0, m') ∧
        m'.load addr.toNat count.toNat = slice buf.bytes pos.toNat count.toNat ∧ m'.size = m.size ∧
        Set.EqOn m'.hostMem m.hostMem (Set.Ico addr.toNat (addr.toNat + count.toNat))ᶜ) := by
  refine ⟨⟨_, _, fun n hn => pageChunks_eq hn, fun c hc => memcpyCalls_inOnePage hc⟩, ?_, ?_, ?_⟩
  · obtain ⟨ret, buf', e, -⟩ := @virtioMemcpyFromGuest_safe m addr buf pos count h1 h2
    exact ⟨ret, buf', fun n hn => by rw [memcpyFromGuestLoop_eq hn, e]⟩
  · obtain ⟨ret, m', e, -⟩ := @virtioMemcpyToGuest_safe m addr buf pos count h1 h2
    exact ⟨ret, m', fun n hn => by rw [memcpyToGuestLoop_eq hn, e]⟩
  · intro pos' inside n hn
    rw [memcpyFromGuestLoop_eq hn, memcpyToGuestLoop_eq hn]
    have page : 0 < virtioPageSize := by decide
    refine ⟨virtioMemcpyFromGuest_flat (by omega) (by omega) h1 h2 pos'.le, _,
      virtioMemcpyToGuest_flat (by omega) (by omega) h1 h2 pos'.le, ?_, rfl, ?_⟩
    · simp only [GuestMemMap.load, GuestMemMap.store]
      rw [slice_splice_of_length slice_length]
    · have frame : Set.EqOn (splice m.hostMem addr.toNat (slice buf.bytes pos.toNat count.toNat)) _ _ := eqOn_splice
      rw [slice_length] at frame
      exact frame

/-- A guest memory of two pages. -/
def twoPages : GuestMemMap where
  size := 8192
  hostMem p := .ofNat p
  size_pos := by decide
  size_page := by decide
  size_lt := by decide

/-- A copy across the boundary of the two pages makes two chunks. One from the last address fails at once. -/
theorem memcpy_pages_across :
    pageChunks twoPages 9 4092 8 = .ok (0, [⟨4092, 0, 4⟩, ⟨4096, 4, 4⟩]) ∧
      memcpyFromGuestLoop twoPages 9 (.zero 8) 0 4092 8 =
        .ok (0, { Obj.zero 8 with bytes := splice (Obj.zero 8).bytes 0 (twoPages.load 4092 8) }) ∧
      pageChunks twoPages 9 0xffffffffffffffff 8 = .ok (-1, []) ∧
      ∃ ret buf', ∀ n, 8 < n → memcpyFromGuestLoop twoPages n (.zero 8) 0 0xffffffffffffffff 8 = .ok (ret, buf') := by
  have across := memcpy_pages twoPages 4092 8 (.zero 8) 0 (by decide) (by decide)
  have last := memcpy_pages twoPages 0xffffffffffffffff 8 (.zero 8) 0 (by decide) (by decide)
  exact ⟨by decide +kernel, (across.2.2.2 (by decide) (by decide) 9 (by decide)).1, by decide +kernel, last.2.1⟩

end Mvvmm.Virtio
