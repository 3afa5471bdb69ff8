import Mvvmm.Lib.CMem
import Mvvmm.Lib.Run

/-!
# Guest memory access

Model of the accessors of `virtio.c` over `struct guest_mem_map` (`mvvm.h`): the address check
`guestAddrToHostAddr` (C `guest_addr_to_host_addr`), the aligned accessors `virtioRead16`,
`virtioWrite16`, `virtioWrite32`, and the page-chunked copies `virtioMemcpyFromGuest`,
`virtioMemcpyToGuest`.

`hostMem` is the host memory from `host_mem` on, as a total function: its first `size` bytes are the
guest's RAM, what lies behind them belongs to somebody else. So a check that is too weak shows as an
access at an offset that is not below `size`, and the run goes on. The three aligned accessors share
`alignedPtr`; the two copy loops share `memcpyCalls`, the list of the calls of `memcpy` they make,
because their control flow does not depend on the bytes.
-/

namespace Mvvmm.Virtio
open Bytes CMem

/-- C `VIRTIO_PAGE_SIZE` (`config.h`). -/
def virtioPageSize : Nat := 4096

/-- The guest memory (C `struct guest_mem_map`), of a size that start-up accepts. -/
structure GuestMemMap where
  size : Nat
  hostMem : Nat → UInt8
  size_pos : 0 < size
  size_page : size % virtioPageSize = 0
  size_lt : size < 2 ^ 64

namespace GuestMemMap
variable {m m' : GuestMemMap} {p n : Nat} {l : List UInt8}

/-- A guest memory of one page. -/
def onePage (f : Nat → UInt8) : GuestMemMap where
  size := 4096
  hostMem := f
  size_pos := by decide
  size_page := by decide
  size_lt := by decide

/-- The `n` host bytes at offset `p`. -/
def load (m : GuestMemMap) (p n : Nat) : List UInt8 :=
  slice m.hostMem p n

/-- The memory after the bytes `l` were stored at offset `p`. -/
def store (m : GuestMemMap) (p : Nat) (l : List UInt8) : GuestMemMap :=
  { m with hostMem := splice m.hostMem p l }

/-- A store keeps the size of the memory. -/
@[simp]
lemma store_size : (m.store p l).size = m.size := rfl

/-- The number of bytes loaded. -/
@[simp]
lemma load_length : (m.load p n).length = n := slice_length

/-- A store of nothing changes nothing. -/
@[simp]
lemma store_nil : m.store p [] = m := by
  simp [store]

end GuestMemMap

variable {m m' : GuestMemMap} {addr : UInt64} {buf buf' : Obj} {pos : Int}

/-- Offset from `host_mem` of the host address of a guest address (C `guest_addr_to_host_addr`);
`none` is `NULL`. -/
def guestAddrToHostAddr (m : GuestMemMap) (addr : UInt64) : Option Nat :=
  if addr.toNat > m.size then none else some addr.toNat

/-- The pointer an aligned accessor dereferences, if it does. -/
def alignedPtr (m : GuestMemMap) (width : Nat) (addr : UInt64) : Option Nat :=
  if addr.toNat % width ≠ 0 then none else guestAddrToHostAddr m addr

/-- C `virtio_read16`. -/
def virtioRead16 (m : GuestMemMap) (addr : UInt64) : UInt16 :=
  match alignedPtr m 2 addr with
  | none => 0
  | some p => .ofNat (leNat (m.load p 2))

/-- C `virtio_write16`. -/
def virtioWrite16 (m : GuestMemMap) (addr : UInt64) (val : UInt16) : GuestMemMap :=
  match alignedPtr m 2 addr with
  | none => m
  | some p => m.store p (leBytes 2 val.toNat)

/-- C `virtio_write32`. -/
def virtioWrite32 (m : GuestMemMap) (addr : UInt64) (val : UInt32) : GuestMemMap :=
  match alignedPtr m 4 addr with
  | none => m
  | some p => m.store p (leBytes 4 val.toNat)

/-- A write of 16 bits keeps the size of the memory. -/
@[simp]
lemma virtioWrite16_size {val : UInt16} : (virtioWrite16 m addr val).size = m.size := by
  simp only [virtioWrite16]
  split <;> rfl

/-- A write of 32 bits keeps the size of the memory. -/
@[simp]
lemma virtioWrite32_size {val : UInt32} : (virtioWrite32 m addr val).size = m.size := by
  simp only [virtioWrite32]
  split <;> rfl

/-- A call `memcpy(buf + off, host_mem + ptr, len)`, or the same with the operands swapped. -/
structure MemcpyCall where
  ptr : Nat
  off : Nat
  len : Nat
  deriving DecidableEq, Repr

/-- The page loop of `virtio_memcpy_from_guest` and `virtio_memcpy_to_guest`: the calls of `memcpy`
it makes and what it returns. `off` is how far `buf` has moved; as each chunk has at least one byte,
`count` rounds are enough. -/
def memcpyCalls (m : GuestMemMap) : Nat → UInt64 → Nat → Nat → List MemcpyCall × Int
  | 0, _, _, _ => ([], 0)
  | fuel + 1, addr, off, count =>
    if count = 0 then
      ([], 0)
    else
      let l := min count (virtioPageSize - addr.toNat % virtioPageSize)
      match guestAddrToHostAddr m addr with
      | none => ([], -1)
      | some p =>
        let r := memcpyCalls m fuel (addr + .ofNat l) (off + l) (count - l)
        (⟨p, off, l⟩ :: r.1, r.2)

/-- C `virtio_memcpy_from_guest`, with `buf` at position `pos` of the object it points into. -/
def virtioMemcpyFromGuest (m : GuestMemMap) (buf : Obj) (pos : Int) (addr : UInt64) (count : Int) :
    Except Stop (Int × Obj) := do
  let r := memcpyCalls m count.toNat addr 0 count.toNat
  let buf ← r.1.foldlM (fun b c => b.store (pos + c.off) (m.load c.ptr c.len)) buf
  return (r.2, buf)

/-- C `virtio_memcpy_to_guest`, with `buf` at position `pos` of the object it points into. -/
def virtioMemcpyToGuest (m : GuestMemMap) (addr : UInt64) (buf : Obj) (pos : Int) (count : Int) :
    Except Stop (Int × GuestMemMap) := do
  let r := memcpyCalls m count.toNat addr 0 count.toNat
  let m ← r.1.foldlM (fun m c => do return m.store c.ptr (← buf.load (pos + c.off) c.len)) m
  return (r.2, m)

/-- A count that is not negative, as an address. -/
lemma ofInt_natCast (k : Nat) : UInt64.ofInt (k : Int) = .ofNat k := by
  apply UInt64.toNat_inj.mp
  simp only [UInt64.ofInt, UInt64.toNat_ofNat']
  omega

/-- Adding a small offset to a guest address does not wrap. -/
lemma toNat_add_ofNat {l : Nat} (h : addr.toNat + l < 2 ^ 64) :
    (addr + .ofNat l).toNat = addr.toNat + l := by
  rw [UInt64.toNat_add, UInt64.toNat_ofNat']
  omega

/-- The length of the chunk that starts at `addr`. -/
def chunkLen (addr : UInt64) (count : Nat) : Nat :=
  min count (virtioPageSize - addr.toNat % virtioPageSize)

/-- A chunk is not empty. -/
lemma chunkLen_pos (addr : UInt64) {count : Nat} (h : 0 < count) : 0 < chunkLen addr count := by
  simp only [chunkLen, virtioPageSize]
  omega

/-- A chunk is no longer than what is left. -/
lemma chunkLen_le (addr : UInt64) (count : Nat) : chunkLen addr count ≤ count := by
  simp only [chunkLen]
  omega

/-- A chunk that starts below the end of the memory ends there at the latest. -/
lemma chunkLen_inside {count : Nat} (h : addr.toNat < m.size) :
    addr.toNat + chunkLen addr count ≤ m.size := by
  have hp := m.size_page
  simp only [chunkLen, virtioPageSize] at hp ⊢
  omega

/-- A copy of nothing makes no calls. -/
lemma memcpyCalls_zero {fuel off : Nat} : memcpyCalls m fuel addr off 0 = ([], 0) := by
  cases fuel <;> rfl

/-- Above the end of the memory the loop stops at once. -/
lemma memcpyCalls_outside {fuel off count : Nat} (h : m.size < addr.toNat) (hc : 0 < count) :
    memcpyCalls m (fuel + 1) addr off count = ([], -1) := by
  have h0 : count ≠ 0 := by omega
  simp [memcpyCalls, h0, guestAddrToHostAddr, h]

/-- One round of the loop at an address that passes the check. -/
lemma memcpyCalls_succ {fuel off count : Nat} (h : addr.toNat ≤ m.size) (hc : 0 < count) :
    memcpyCalls m (fuel + 1) addr off count =
      (⟨addr.toNat, off, chunkLen addr count⟩ ::
        (memcpyCalls m fuel (addr + .ofNat (chunkLen addr count)) (off + chunkLen addr count)
          (count - chunkLen addr count)).1,
        (memcpyCalls m fuel (addr + .ofNat (chunkLen addr count)) (off + chunkLen addr count)
          (count - chunkLen addr count)).2) := by
  have h0 : count ≠ 0 := by omega
  have h1 : ¬ m.size < addr.toNat := by omega
  simp [memcpyCalls, h0, guestAddrToHostAddr, h1, chunkLen]

/-- If the bytes of a copy end in the page behind the memory at the latest, then every chunk but the
last ends inside the memory. -/
lemma chunkLen_next {count : Nat} (h : addr.toNat + count ≤ m.size + virtioPageSize)
    (hk : chunkLen addr count < count) :
    addr.toNat + chunkLen addr count ≤ m.size := by
  have hp := m.size_page
  simp only [chunkLen, virtioPageSize] at h hp hk ⊢
  omega

/-- The loop copies everything and returns 0 if every chunk passes the check. -/
lemma memcpyCalls_ret {fuel off count : Nat} (h : addr.toNat ≤ m.size)
    (h' : addr.toNat + count ≤ m.size + virtioPageSize) (hf : count ≤ fuel) :
    (memcpyCalls m fuel addr off count).2 = 0 := by
  induction fuel generalizing addr off count with
  | zero => rfl
  | succ fuel ih =>
    rcases Nat.eq_zero_or_pos count with rfl | hc
    · rw [memcpyCalls_zero]
    · have hl := chunkLen_pos addr hc
      have hs := m.size_lt
      rw [memcpyCalls_succ h hc]
      rcases (chunkLen_le addr count).eq_or_lt with hk | hk
      · simp only [hk, Nat.sub_self, memcpyCalls_zero]
      · have hn := chunkLen_next h' hk
        have ha := toNat_add_ofNat (l := chunkLen addr count) (by omega : addr.toNat + _ < 2 ^ 64)
        exact ih (by omega) (by omega) (by omega)

/-- The chunks read from the guest make up one flat copy. -/
lemma foldlM_store_flat {fuel off count : Nat} (h : addr.toNat ≤ m.size)
    (h' : addr.toNat + count ≤ m.size + virtioPageSize) (hf : count ≤ fuel)
    (h1 : 0 ≤ pos) (h2 : pos + off + count ≤ buf.size) :
    (memcpyCalls m fuel addr off count).1.foldlM
        (fun b c => b.store (pos + c.off) (m.load c.ptr c.len)) buf =
      .ok { buf with bytes := splice buf.bytes (pos.toNat + off) (m.load addr.toNat count) } := by
  induction fuel generalizing addr off count buf with
  | zero =>
    obtain rfl : count = 0 := by omega
    simp [memcpyCalls, GuestMemMap.load, slice, pure, Except.pure]
  | succ fuel ih =>
    rcases Nat.eq_zero_or_pos count with rfl | hc
    · simp [memcpyCalls_zero, GuestMemMap.load, slice, pure, Except.pure]
    · have hl := chunkLen_pos addr hc
      have hl' := chunkLen_le addr count
      have hs := m.size_lt
      have hp : (pos + (off : Int)).toNat = pos.toNat + off := by omega
      rw [memcpyCalls_succ h hc]
      simp only [List.foldlM_cons]
      rw [Obj.store_ok (by omega) (by simp; omega), ok_bind, hp]
      rcases hl'.eq_or_lt with hk | hk
      · simp [hk, memcpyCalls_zero, pure, Except.pure]
      · have hn := chunkLen_next h' hk
        have ha := toNat_add_ofNat (l := chunkLen addr count) (by omega : addr.toNat + _ < 2 ^ 64)
        rw [ih (by omega) (by omega) (by omega) (by simp only; omega), ha]
        generalize chunkLen addr count = l at *
        obtain ⟨k, rfl⟩ : ∃ k, count = l + k := ⟨count - l, by omega⟩
        simp only [GuestMemMap.load, slice_add, ← splice_append, slice_length]
        rw [show pos.toNat + (off + l) = pos.toNat + off + l from by omega,
          show l + k - l = k from by omega]

/-- The chunks written to the guest make up one flat copy. -/
lemma foldlM_load_flat {fuel off count : Nat} (h : addr.toNat ≤ m.size)
    (h' : addr.toNat + count ≤ m.size + virtioPageSize) (hf : count ≤ fuel)
    (h1 : 0 ≤ pos) (h2 : pos + off + count ≤ buf.size) :
    (memcpyCalls m fuel addr off count).1.foldlM
        (fun m c => do return m.store c.ptr (← buf.load (pos + c.off) c.len)) m' =
      .ok (m'.store addr.toNat (slice buf.bytes (pos.toNat + off) count)) := by
  induction fuel generalizing addr off count m' with
  | zero =>
    obtain rfl : count = 0 := by omega
    simp [memcpyCalls, slice, pure, Except.pure]
  | succ fuel ih =>
    rcases Nat.eq_zero_or_pos count with rfl | hc
    · simp [memcpyCalls_zero, slice, pure, Except.pure]
    · have hl := chunkLen_pos addr hc
      have hl' := chunkLen_le addr count
      have hs := m.size_lt
      have hp : (pos + (off : Int)).toNat = pos.toNat + off := by omega
      rw [memcpyCalls_succ h hc]
      simp only [List.foldlM_cons]
      rw [Obj.load_ok (by omega) (by omega), hp, ok_bind]
      change (memcpyCalls m fuel _ _ _).1.foldlM _ (m'.store addr.toNat _) = _
      rcases hl'.eq_or_lt with hk | hk
      · simp [hk, memcpyCalls_zero, pure, Except.pure]
      · have hn := chunkLen_next h' hk
        have ha := toNat_add_ofNat (l := chunkLen addr count) (by omega : addr.toNat + _ < 2 ^ 64)
        rw [ih (by omega) (by omega) (by omega) (by omega), ha]
        generalize chunkLen addr count = l at *
        obtain ⟨k, rfl⟩ : ∃ k, count = l + k := ⟨count - l, by omega⟩
        simp only [GuestMemMap.store, slice_add, ← splice_append, slice_length]
        rw [show pos.toNat + (off + l) = pos.toNat + off + l from by omega,
          show l + k - l = k from by omega]

/-- The chunks of a copy have at least one byte and stay inside the `count` bytes of the buffer. -/
lemma memcpyCalls_off {fuel off count : Nat} {c : MemcpyCall}
    (hc : c ∈ (memcpyCalls m fuel addr off count).1) :
    off ≤ c.off ∧ c.off + c.len ≤ off + count ∧ 0 < c.len := by
  induction fuel generalizing addr off count with
  | zero => simp [memcpyCalls] at hc
  | succ fuel ih =>
    rcases Nat.eq_zero_or_pos count with rfl | h0
    · simp [memcpyCalls_zero] at hc
    · by_cases ha : addr.toNat ≤ m.size
      · have hl := chunkLen_pos addr h0
        have hl' := chunkLen_le addr count
        rw [memcpyCalls_succ ha h0] at hc
        rcases List.mem_cons.mp hc with rfl | hc
        · simp only
          omega
        · have h := ih hc
          omega
      · rw [memcpyCalls_outside (by omega) h0] at hc
        cases hc

/-- `virtio_memcpy_from_guest` is one flat copy if every chunk passes the check. -/
lemma virtioMemcpyFromGuest_flat {count : Int} (h : addr.toNat ≤ m.size)
    (h' : addr.toNat + count ≤ m.size + virtioPageSize) (h1 : 0 ≤ pos)
    (h2 : pos + count ≤ buf.size) (h3 : 0 ≤ count) :
    virtioMemcpyFromGuest m buf pos addr count =
      .ok (0, { buf with bytes := splice buf.bytes pos.toNat (m.load addr.toNat count.toNat) }) := by
  simp only [virtioMemcpyFromGuest]
  rw [foldlM_store_flat h (by omega) le_rfl h1 (by omega), memcpyCalls_ret h (by omega) le_rfl]
  rfl

/-- `virtio_memcpy_to_guest` is one flat copy if every chunk passes the check. -/
lemma virtioMemcpyToGuest_flat {count : Int} (h : addr.toNat ≤ m.size)
    (h' : addr.toNat + count ≤ m.size + virtioPageSize) (h1 : 0 ≤ pos)
    (h2 : pos + count ≤ buf.size) (h3 : 0 ≤ count) :
    virtioMemcpyToGuest m addr buf pos count =
      .ok (0, m.store addr.toNat (slice buf.bytes pos.toNat count.toNat)) := by
  simp only [virtioMemcpyToGuest]
  rw [foldlM_load_flat h (by omega) le_rfl h1 (by omega), memcpyCalls_ret h (by omega) le_rfl]
  rfl

/-- A copy of no bytes does nothing. -/
lemma virtioMemcpyFromGuest_nop {count : Int} (h : count ≤ 0) :
    virtioMemcpyFromGuest m buf pos addr count = .ok (0, buf) := by
  simp [virtioMemcpyFromGuest, show count.toNat = 0 from by omega, memcpyCalls, pure, Except.pure]

/-- A copy of nothing to the guest. -/
lemma virtioMemcpyToGuest_nop {count : Int} (h : count ≤ 0) :
    virtioMemcpyToGuest m addr buf pos count = .ok (0, m) := by
  simp [virtioMemcpyToGuest, show count.toNat = 0 from by omega, memcpyCalls, pure, Except.pure]

/-- A copy that starts above the end of the memory fails and does nothing. -/
lemma virtioMemcpyFromGuest_outside {count : Int} (h : m.size < addr.toNat) (hc : 0 < count) :
    virtioMemcpyFromGuest m buf pos addr count = .ok (-1, buf) := by
  obtain ⟨k, hk⟩ : ∃ k, count.toNat = k + 1 := ⟨count.toNat - 1, by omega⟩
  simp only [virtioMemcpyFromGuest, hk]
  rw [memcpyCalls_outside h (by omega)]
  rfl

/-- A copy to behind the memory fails and changes nothing. -/
lemma virtioMemcpyToGuest_outside {count : Int} (h : m.size < addr.toNat) (hc : 0 < count) :
    virtioMemcpyToGuest m addr buf pos count = .ok (-1, m) := by
  obtain ⟨k, hk⟩ : ∃ k, count.toNat = k + 1 := ⟨count.toNat - 1, by omega⟩
  simp only [virtioMemcpyToGuest, hk]
  rw [memcpyCalls_outside h (by omega)]
  rfl

/-- A copy to a buffer position before the buffer leaves it with its first chunk. -/
lemma virtioMemcpyFromGuest_neg {count : Int} (h : addr.toNat ≤ m.size) (hc : 0 < count)
    (hp : pos < 0) : virtioMemcpyFromGuest m buf pos addr count = .error .range := by
  obtain ⟨k, hk⟩ : ∃ k, count.toNat = k + 1 := ⟨count.toNat - 1, by omega⟩
  simp only [virtioMemcpyFromGuest, hk]
  rw [memcpyCalls_succ h (by omega), List.foldlM_cons, Obj.store_neg (by simpa using hp)]
  rfl

/-- A copy from in front of the buffer leaves it. -/
lemma virtioMemcpyToGuest_neg {count : Int} (h : addr.toNat ≤ m.size) (hc : 0 < count)
    (hp : pos < 0) : virtioMemcpyToGuest m addr buf pos count = .error .range := by
  obtain ⟨k, hk⟩ : ∃ k, count.toNat = k + 1 := ⟨count.toNat - 1, by omega⟩
  simp only [virtioMemcpyToGuest, hk]
  rw [memcpyCalls_succ h (by omega), List.foldlM_cons, Obj.load_neg (by simpa using hp)]
  rfl

/-- A copy whose `count` bytes lie in the buffer stays in the buffer, whatever the guest address. -/
lemma virtioMemcpyFromGuest_safe {count : Int} (h1 : 0 ≤ pos) (h2 : pos + count ≤ buf.size) :
    ∃ r b, virtioMemcpyFromGuest m buf pos addr count = .ok (r, b) ∧ b.size = buf.size := by
  have key : ∀ (cs : List MemcpyCall) (b : Obj), (∀ c ∈ cs, pos + c.off + c.len ≤ buf.size) →
      b.size = buf.size →
      ∃ b', cs.foldlM (fun b c => b.store (pos + c.off) (m.load c.ptr c.len)) b = .ok b' ∧
        b'.size = buf.size := by
    intro cs
    induction cs with
    | nil => exact fun b _ hb => ⟨b, rfl, hb⟩
    | cons c cs ih =>
      intro b hin hb
      have hc := hin c (by simp)
      rw [List.foldlM_cons, Obj.store_ok (by omega) (by simp; omega)]
      exact ih _ (fun c hc => hin c (by simp [hc])) hb
  obtain ⟨b', e, hb'⟩ := key (memcpyCalls m count.toNat addr 0 count.toNat).1 buf (by
    intro c hc
    have h := memcpyCalls_off hc
    omega) rfl
  exact ⟨_, b', by simp only [virtioMemcpyFromGuest, e]; rfl, hb'⟩

/-- A copy to the guest from inside the buffer is safe. -/
lemma virtioMemcpyToGuest_safe {count : Int} (h1 : 0 ≤ pos) (h2 : pos + count ≤ buf.size) :
    ∃ r m', virtioMemcpyToGuest m addr buf pos count = .ok (r, m') ∧ m'.size = m.size := by
  have key : ∀ (cs : List MemcpyCall) (m0 : GuestMemMap),
      (∀ c ∈ cs, pos + c.off + c.len ≤ buf.size) → m0.size = m.size →
      ∃ m', cs.foldlM (fun m c => do return m.store c.ptr (← buf.load (pos + c.off) c.len)) m0 =
        .ok m' ∧ m'.size = m.size := by
    intro cs
    induction cs with
    | nil => exact fun m0 _ hm => ⟨m0, rfl, hm⟩
    | cons c cs ih =>
      intro m0 hin hm
      have hc := hin c (by simp)
      rw [List.foldlM_cons, Obj.load_ok (by omega) (by omega)]
      exact ih _ (fun c hc => hin c (by simp [hc])) hm
  obtain ⟨m', e, hm'⟩ := key (memcpyCalls m count.toNat addr 0 count.toNat).1 m (by
    intro c hc
    have h := memcpyCalls_off hc
    omega) rfl
  exact ⟨_, m', by simp only [virtioMemcpyToGuest, e]; rfl, hm'⟩

/-- Copying from the guest keeps the size of the buffer. -/
lemma virtioMemcpyFromGuest_size {count ret : Int}
    (h : virtioMemcpyFromGuest m buf pos addr count = .ok (ret, buf')) : buf'.size = buf.size := by
  simp only [virtioMemcpyFromGuest] at h
  obtain ⟨b, hb, e⟩ := bind_eq_ok.mp h
  cases e
  refine (Run.Reach.of_foldlM hb).invariant (I := fun b => b.size = buf.size) rfl ?_
  intro b c b' _ hi _ hs
  rw [Obj.store_size hs, hi]

/-- Copying to the guest keeps the size of its memory. -/
lemma virtioMemcpyToGuest_size {count ret : Int}
    (h : virtioMemcpyToGuest m addr buf pos count = .ok (ret, m')) : m'.size = m.size := by
  simp only [virtioMemcpyToGuest] at h
  obtain ⟨m₁, hm, e⟩ := bind_eq_ok.mp h
  cases e
  refine (Run.Reach.of_foldlM hm).invariant (I := fun m₁ => m₁.size = m.size) rfl ?_
  intro m₁ c m₂ _ hi _ hs
  obtain ⟨l, _, hs⟩ := bind_eq_ok.mp hs
  cases hs
  exact hi

end Mvvmm.Virtio
