import Mvvmm.Virtio.Mmio

/-!
# Which guest offsets are touched

`Access` is a call of one of the five accessors of `Mem.lean`, and `Access.touched` the guest offsets
it dereferences: two or four bytes at the pointer of an aligned accessor, the bytes of every `memcpy` of
a copy. The lemmas `_congr` and `_frame` say that these are the bytes the accessors of the model read and
write. The check `guest_addr > mem_map->size` lets the address `size` pass, and as the memory is a
whole number of pages this is the only address at which it is too weak (`Access.touched_lt_iff`).
-/

namespace Mvvmm.Virtio
open Bytes CMem

variable {m m' : GuestMemMap} {addr : UInt64} {p width : Nat}

/-- A call of an accessor of the guest memory. -/
inductive Access where
  | read16 (addr : UInt64)
  | write16 (addr : UInt64) (val : UInt16)
  | write32 (addr : UInt64) (val : UInt32)
  | memcpyFromGuest (addr : UInt64) (count : Int)
  | memcpyToGuest (addr : UInt64) (count : Int)

/-- The bytes an aligned accessor dereferences. -/
def alignedTouched (m : GuestMemMap) (width : Nat) (addr : UInt64) : List Nat :=
  match alignedPtr m width addr with
  | none => []
  | some p => List.range' p width

/-- The guest bytes of the calls of `memcpy` that a copy loop makes. -/
def memcpyTouched (m : GuestMemMap) (addr : UInt64) (count : Int) : List Nat :=
  (memcpyCalls m count.toNat addr 0 count.toNat).1.flatMap fun c => List.range' c.ptr c.len

namespace Access

/-- The guest offsets an access touches. -/
def touched (m : GuestMemMap) : Access → List Nat
  | read16 addr => alignedTouched m 2 addr
  | write16 addr _ => alignedTouched m 2 addr
  | write32 addr _ => alignedTouched m 4 addr
  | memcpyFromGuest addr count => memcpyTouched m addr count
  | memcpyToGuest addr count => memcpyTouched m addr count

/-- The access does not reach the first byte behind the guest memory. -/
def Below (m : GuestMemMap) : Access → Prop
  | read16 addr => addr.toNat ≠ m.size
  | write16 addr _ => addr.toNat ≠ m.size
  | write32 addr _ => addr.toNat ≠ m.size
  | memcpyFromGuest addr count => ¬ (addr.toNat ≤ m.size ∧ m.size < addr.toNat + count)
  | memcpyToGuest addr count => ¬ (addr.toNat ≤ m.size ∧ m.size < addr.toNat + count)

end Access

/-- A pointer is given out for an aligned address that is at most the size of the memory. -/
lemma alignedPtr_eq_some (h : alignedPtr m width addr = some p) :
    p = addr.toNat ∧ addr.toNat % width = 0 ∧ addr.toNat ≤ m.size := by
  simp only [alignedPtr, guestAddrToHostAddr] at h
  split at h
  · cases h
  · split at h
    · cases h
    · cases h
      omega

/-- An aligned accessor whose width divides the page size only leaves the memory at its very end. -/
lemma alignedTouched_lt_iff (hw : 0 < width) (hd : virtioPageSize % width = 0) :
    (∀ p ∈ alignedTouched m width addr, p < m.size) ↔ addr.toNat ≠ m.size := by
  have hp := m.size_page
  have hm : m.size % width = 0 :=
    Nat.mod_eq_zero_of_dvd ((Nat.dvd_of_mod_eq_zero hd).trans (Nat.dvd_of_mod_eq_zero hp))
  constructor
  · intro h e
    have hin : addr.toNat ∈ alignedTouched m width addr := by
      simp [alignedTouched, alignedPtr, guestAddrToHostAddr, e, hm, List.mem_range'_1, hw]
    exact absurd (h _ hin) (by omega)
  · intro h q hq
    simp only [alignedTouched] at hq
    split at hq
    · cases hq
    · rename_i p e
      obtain ⟨rfl, ha, hle⟩ := alignedPtr_eq_some e
      rw [List.mem_range'_1] at hq
      -- both ends are multiples of the width, so the access ends at `size` at the latest
      obtain ⟨k, hk⟩ := Nat.dvd_of_mod_eq_zero ha
      obtain ⟨n, hn⟩ := Nat.dvd_of_mod_eq_zero hm
      have hlt : width * k < width * n := by omega
      have hkn : k + 1 ≤ n := Nat.lt_of_mul_lt_mul_left hlt
      have := Nat.mul_le_mul_left width hkn
      rw [Nat.mul_add, Nat.mul_one] at this
      omega

/-- A copy that ends inside the memory, or starts above it, only touches the memory. -/
lemma memcpyCalls_inside {fuel off count : Nat} {c : MemcpyCall}
    (h : m.size < addr.toNat ∨ addr.toNat + count ≤ m.size)
    (hc : c ∈ (memcpyCalls m fuel addr off count).1) : c.ptr + c.len ≤ m.size := by
  induction fuel generalizing addr off count with
  | zero => simp [memcpyCalls] at hc
  | succ fuel ih =>
    rcases Nat.eq_zero_or_pos count with rfl | h0
    · simp [memcpyCalls_zero] at hc
    · rcases h with h | h
      · rw [memcpyCalls_outside h h0] at hc
        cases hc
      · have hl' := chunkLen_le addr count
        have hs := m.size_lt
        rw [memcpyCalls_succ (by omega) h0] at hc
        rcases List.mem_cons.mp hc with rfl | hc
        · simp only
          omega
        · apply ih _ hc
          rw [toNat_add_ofNat (by omega)]
          omega

/-- A copy that starts in the memory and goes on behind it reaches the byte at `size`. -/
lemma memcpyCalls_reaches {fuel off count : Nat} (h1 : addr.toNat ≤ m.size)
    (h2 : m.size < addr.toNat + count) (hf : count ≤ fuel) :
    ∃ c ∈ (memcpyCalls m fuel addr off count).1, c.ptr = m.size ∧ 0 < c.len := by
  induction fuel generalizing addr off count with
  | zero => omega
  | succ fuel ih =>
    have hl := chunkLen_pos addr (by omega : 0 < count)
    have hs := m.size_lt
    rw [memcpyCalls_succ h1 (by omega)]
    rcases h1.eq_or_lt with e | h
    · exact ⟨_, List.mem_cons_self, e, hl⟩
    · have hin : addr.toNat + chunkLen addr count ≤ m.size := chunkLen_inside h
      have ha := toNat_add_ofNat (l := chunkLen addr count) (by omega : addr.toNat + _ < 2 ^ 64)
      obtain ⟨c, hc, e⟩ : ∃ c ∈ (memcpyCalls m fuel (addr + .ofNat (chunkLen addr count))
          (off + chunkLen addr count) (count - chunkLen addr count)).1, c.ptr = m.size ∧ 0 < c.len :=
        ih (by omega) (by omega) (by omega)
      exact ⟨c, List.mem_cons_of_mem _ hc, e⟩

/-- A copy stays inside if and only if it does not start inside and end behind the memory. -/
lemma memcpyTouched_lt_iff {count : Int} :
    (∀ p ∈ memcpyTouched m addr count, p < m.size) ↔
      ¬ (addr.toNat ≤ m.size ∧ m.size < addr.toNat + count) := by
  simp only [memcpyTouched, List.mem_flatMap, List.mem_range'_1]
  constructor
  · rintro h ⟨h1, h2⟩
    obtain ⟨c, hc, e, hl⟩ : ∃ c ∈ (memcpyCalls m count.toNat addr 0 count.toNat).1,
      c.ptr = m.size ∧ 0 < c.len := memcpyCalls_reaches h1 (by omega) le_rfl
    have := h m.size ⟨c, hc, by omega, by omega⟩
    omega
  · rintro h p ⟨c, hc, h1, h2⟩
    have hin := memcpyCalls_inside (by omega) hc
    omega

/-- The bytes an accessor touches lie in the guest memory if and only if the access does not reach the
byte at offset `size`. -/
theorem Access.touched_lt_iff (m : GuestMemMap) (a : Access) :
    (∀ p ∈ a.touched m, p < m.size) ↔ a.Below m := by
  cases a with
  | read16 addr => exact alignedTouched_lt_iff (by decide) (by decide)
  | write16 addr val => exact alignedTouched_lt_iff (by decide) (by decide)
  | write32 addr val => exact alignedTouched_lt_iff (by decide) (by decide)
  | memcpyFromGuest addr count => exact memcpyTouched_lt_iff
  | memcpyToGuest addr count => exact memcpyTouched_lt_iff

/-- A device whose guest has put the available ring of queue 0 at the last two bytes of its page. -/
def ringAtEnd : VirtioDevice Unit :=
  virtioMmioWriteReg (virtioInit (.onePage fun _ => 0) 2 8 8 ()) 0x090 4094 4

/-- The index that `queue_notify` then reads lies behind the guest memory. -/
theorem availIdx_touches_behind :
    availIdx ringAtEnd 0 = virtioRead16 ringAtEnd.mem ((ringAtEnd.queue 0).availAddr + 2) ∧
      4096 ∈ (Access.read16 ((ringAtEnd.queue 0).availAddr + 2)).touched ringAtEnd.mem ∧
      ringAtEnd.mem.size = 4096 :=
  ⟨rfl, by decide +kernel, rfl⟩

/-! ## The accessors read and write the touched bytes -/

/-- The calls of a copy depend on the size of the memory only. -/
lemma memcpyCalls_congr (e : m.size = m'.size) (fuel : Nat) (addr : UInt64) (off count : Nat) :
    memcpyCalls m fuel addr off count = memcpyCalls m' fuel addr off count := by
  induction fuel generalizing addr off count with
  | zero => rfl
  | succ fuel ih => simp only [memcpyCalls, guestAddrToHostAddr, e, ih]

/-- What is loaded depends on the bytes loaded only. -/
lemma load_congr_of_mem {n : Nat} (h : ∀ i ∈ List.range' p n, m.hostMem i = m'.hostMem i) :
    m.load p n = m'.load p n := by
  apply slice_congr
  intro i hi
  exact h i (List.mem_range'_1.mpr hi)

/-- What `virtio_read16` returns depends on the touched bytes only. -/
lemma virtioRead16_congr (e : m.size = m'.size)
    (h : ∀ i ∈ alignedTouched m 2 addr, m.hostMem i = m'.hostMem i) :
    virtioRead16 m addr = virtioRead16 m' addr := by
  have hp : alignedPtr m' 2 addr = alignedPtr m 2 addr := by
    simp only [alignedPtr, guestAddrToHostAddr, e]
  simp only [virtioRead16, hp]
  cases hq : alignedPtr m 2 addr with
  | none => rfl
  | some p =>
    simp only [alignedTouched, hq] at h
    simp only [load_congr_of_mem h]

/-- `virtio_write16` changes the touched bytes only. -/
lemma virtioWrite16_frame {val : UInt16} (h : p ∉ alignedTouched m 2 addr) :
    (virtioWrite16 m addr val).hostMem p = m.hostMem p := by
  simp only [virtioWrite16]
  cases hq : alignedPtr m 2 addr with
  | none => rfl
  | some r =>
    simp only [alignedTouched, hq, List.mem_range'_1] at h
    exact eqOn_splice (by simpa using h)

/-- `virtio_write32` changes the touched bytes only. -/
lemma virtioWrite32_frame {val : UInt32} (h : p ∉ alignedTouched m 4 addr) :
    (virtioWrite32 m addr val).hostMem p = m.hostMem p := by
  simp only [virtioWrite32]
  cases hq : alignedPtr m 4 addr with
  | none => rfl
  | some r =>
    simp only [alignedTouched, hq, List.mem_range'_1] at h
    exact eqOn_splice (by simpa using h)

/-- What `virtio_memcpy_from_guest` returns and copies depends on the touched bytes only. -/
lemma virtioMemcpyFromGuest_congr {buf : Obj} {pos count : Int} (e : m.size = m'.size)
    (h : ∀ i ∈ memcpyTouched m addr count, m.hostMem i = m'.hostMem i) :
    virtioMemcpyFromGuest m buf pos addr count = virtioMemcpyFromGuest m' buf pos addr count := by
  simp only [virtioMemcpyFromGuest, memcpyTouched, ← memcpyCalls_congr e] at h ⊢
  generalize (memcpyCalls m count.toNat addr 0 count.toNat) = calls at h ⊢
  suffices key : ∀ b : Obj, calls.1.foldlM (fun b c => b.store (pos + c.off) (m.load c.ptr c.len)) b =
      calls.1.foldlM (fun b c => b.store (pos + c.off) (m'.load c.ptr c.len)) b by rw [key]
  generalize calls.1 = cs at h ⊢
  induction cs with
  | nil => intro b; rfl
  | cons c cs ih =>
    intro b
    simp only [List.flatMap_cons, List.mem_append] at h
    rw [List.foldlM_cons, List.foldlM_cons, load_congr_of_mem fun i hi => h i (.inl hi)]
    congr 1
    funext b'
    exact ih (fun i hi => h i (.inr hi)) b'

/-- `virtio_memcpy_to_guest` changes the touched bytes only. -/
lemma virtioMemcpyToGuest_frame {buf : Obj} {pos count ret : Int} (h : p ∉ memcpyTouched m addr count)
    (e : virtioMemcpyToGuest m addr buf pos count = .ok (ret, m')) : m'.hostMem p = m.hostMem p := by
  simp only [virtioMemcpyToGuest, memcpyTouched] at h e
  obtain ⟨m₁, e₀, e'⟩ := bind_eq_ok.mp e
  clear e
  cases e'
  generalize (memcpyCalls m count.toNat addr 0 count.toNat).1 = cs at h e₀
  induction cs generalizing m with
  | nil =>
    cases e₀
    rfl
  | cons c cs ih =>
    simp only [List.flatMap_cons, List.mem_append, not_or, List.mem_range'_1] at h
    rw [List.foldlM_cons] at e₀
    obtain ⟨m₂, e₁, e₂⟩ := bind_eq_ok.mp e₀
    obtain ⟨l, el, e₁⟩ := bind_eq_ok.mp e₁
    cases e₁
    have hl : l.length = c.len := by
      simp only [Obj.load] at el
      split at el
      · cases el
        exact slice_length
      · cases el
    rw [ih h.2 e₂]
    exact eqOn_splice (by simpa [hl] using h.1)

/-! ## The used ring -/

/-- The bytes that `virtio_consume_desc` writes: the next entry of the used ring and the index. -/
def usedTouched (m : GuestMemMap) (qs : QueueState) : List Nat :=
  let indexAddr := qs.usedAddr + 2
  let ringAddr := usedRingAddr qs (virtioRead16 m indexAddr)
  alignedTouched m 4 ringAddr ++ alignedTouched m 4 (ringAddr + 4) ++ alignedTouched m 2 indexAddr

section Used
variable {qs : QueueState} {descIdx : Nat} {descLen : Int}

/-- An access touches the bytes of its own width. -/
lemma mem_alignedTouched (h : p ∈ alignedTouched m width addr) : addr.toNat ≤ p ∧ p < addr.toNat + width := by
  simp only [alignedTouched] at h
  split at h
  · cases h
  · rename_i q e
    simp only [alignedPtr, guestAddrToHostAddr] at e
    split at e <;> grind

/-- What an access touches depends on the size of the memory only. -/
lemma alignedTouched_congr (e : m'.size = m.size) : alignedTouched m' width addr = alignedTouched m width addr := by
  simp only [alignedTouched, alignedPtr, guestAddrToHostAddr, e]

/-- Publishing an entry changes the touched bytes only. -/
lemma publishUsed_touched (h : p ∉ usedTouched m qs) :
    (publishUsed m qs descIdx descLen).hostMem p = m.hostMem p := by
  simp only [usedTouched, List.mem_append, not_or] at h
  obtain ⟨⟨h1, h2⟩, h3⟩ := h
  simp only [publishUsed]
  rw [virtioWrite16_frame (by rwa [alignedTouched_congr (m := m) (by simp)]),
    virtioWrite32_frame (by rwa [alignedTouched_congr (m := m) (by simp)]), virtioWrite32_frame h1]

/-- The used index depends on the touched bytes only. -/
lemma usedIndex_congr (e : m'.size = m.size) (h : ∀ i ∈ usedTouched m qs, m'.hostMem i = m.hostMem i) :
    virtioRead16 m' (qs.usedAddr + 2) = virtioRead16 m (qs.usedAddr + 2) :=
  (virtioRead16_congr e.symm fun i hi => (h i (by simp [usedTouched, hi])).symm).symm

/-- Where the entry goes depends on the index only. -/
lemma usedTouched_congr (e : m'.size = m.size) (h : ∀ i ∈ usedTouched m qs, m'.hostMem i = m.hostMem i) :
    usedTouched m' qs = usedTouched m qs := by
  simp only [usedTouched, usedIndex_congr e h, alignedTouched_congr e]

end Used

end Mvvmm.Virtio
