import Mathlib.Data.List.Chain
import Mathlib.Data.Set.Lattice
import Mathlib.Order.CompletePartialOrder
import Mvvmm.Virtio.Bounds
import Mvvmm.Virtio.Walk

/-!
# The pieces of a copy

A copy between a buffer and some descriptors is cut up into pieces, one for each descriptor that it meets: `parts` lists
them, and `copyParts` copies them one after the other. `descIndex` counts the descriptors before the one that holds a
byte, and `byteAddr` is the address of this byte. Which bytes of guest memory a buffer has is `bufSpan`, where addresses
wrap at `2 ^ 64`; a chain stays the same as long as the bytes of its entries do (`IsChain.congr`).
-/

namespace Mvvmm.Virtio
open Bytes CMem

variable {m m' : GuestMemMap} {qs : QueueState} {buf : Obj} {d e : VirtioDesc} {l P S T : List VirtioDesc}
  {n head off pos count i : Nat} {toQueue : Bool} {addr : UInt64}

/-! ## Bytes of guest memory -/

/-- The guest addresses of `n` bytes from `addr` on. -/
def guestSpan (addr : UInt64) (n : Nat) : Set Nat :=
  {p | ∃ i < n, p = (addr + .ofNat i).toNat}

/-- The guest addresses of the buffer of a descriptor. -/
def bufSpan (d : VirtioDesc) : Set Nat :=
  guestSpan d.addr d.len.toNat

/-- The positions of an entry of the descriptor table. -/
def entrySpan (qs : QueueState) (idx : Nat) : Set Nat :=
  Set.Ico (descTableAddr qs idx).toNat ((descTableAddr qs idx).toNat + VirtioDesc.sizeof)

/-- The buffers of the descriptors are apart from the entries. -/
def Clear (qs : QueueState) (idxs : List Nat) (l : List VirtioDesc) : Prop :=
  ∀ idx ∈ idxs, ∀ d ∈ l, Disjoint (entrySpan qs idx) (bufSpan d)

/-- No buffer of the first descriptors is on the entry of one that comes after it. -/
def ClearAhead (qs : QueueState) : List VirtioDesc → List VirtioDesc → Prop
  | [], _ => True
  | d :: l, T =>
    (∀ idx ∈ entries d.next.toNat (l ++ T), Disjoint (entrySpan qs idx) (bufSpan d)) ∧ ClearAhead qs l T

/-- Fewer entries and fewer buffers are still apart. -/
lemma Clear.mono {idxs idxs' : List Nat} (h : Clear qs idxs l) (hi : ∀ i ∈ idxs', i ∈ idxs)
    (hl : ∀ d ∈ S, d ∈ l) : Clear qs idxs' S :=
  fun i hi' d hd => h i (hi i hi') d (hl d hd)

/-- Behind some descriptors, too, no buffer is on an entry that comes after it. -/
lemma ClearAhead.drop (h : ClearAhead qs (P ++ l) T) : ClearAhead qs l T := by
  induction P with
  | nil => exact h
  | cons d P ih => exact ih h.2

/-- The entries of the beginning of a list. -/
lemma mem_entries_left {idx i : Nat} (h : i ∈ entries idx l) : i ∈ entries idx (l ++ T) := by
  induction l generalizing idx with
  | nil => cases h
  | cons d l ih =>
    rcases List.mem_cons.mp h with rfl | h
    · exact List.mem_cons_self
    · exact List.mem_cons_of_mem _ (ih h)

/-- The entries behind the last buffer need not be apart from it. -/
lemma ClearAhead.front (h : ClearAhead qs l (S ++ T)) : ClearAhead qs l S := by
  induction l with
  | nil => trivial
  | cons d l ih =>
    refine ⟨fun idx hi => h.1 idx ?_, ih h.2⟩
    rw [← List.append_assoc]
    exact mem_entries_left hi

/-- Two steps from an address are one. -/
lemma add_ofNat_ofNat (addr : UInt64) (i j : Nat) : addr + .ofNat i + .ofNat j = addr + .ofNat (i + j) := by
  rw [UInt64.add_assoc, UInt64.ofNat_add]

/-- A part of a span. -/
lemma guestSpan_subset {k : Nat} (h : off + k ≤ n) : guestSpan (addr + .ofNat off) k ⊆ guestSpan addr n := by
  rintro p ⟨i, hi, rfl⟩
  exact ⟨off + i, by omega, by rw [add_ofNat_ofNat]⟩

/-- A span that does not wrap is an interval. -/
lemma mem_guestSpan {p : Nat} (h : addr.toNat + n ≤ 2 ^ 64) :
    p ∈ guestSpan addr n ↔ addr.toNat ≤ p ∧ p < addr.toNat + n := by
  constructor
  · rintro ⟨i, hi, rfl⟩
    rw [toNat_add_ofNat (by omega)]
    omega
  · rintro ⟨h1, h2⟩
    refine ⟨p - addr.toNat, by omega, ?_⟩
    rw [toNat_add_ofNat (by omega)]
    omega

/-- A span lies in the memory if it is empty or ends there. -/
lemma guestSpan_inside (h : 0 < n) : guestSpan addr n ⊆ Set.Iio m.size ↔ addr.toNat + n ≤ m.size := by
  have hm := m.size_lt
  constructor
  · intro sub
    by_contra out
    have start : addr.toNat < m.size := by simpa using sub ⟨0, h, rfl⟩
    have last := sub ⟨m.size - addr.toNat, by omega, rfl⟩
    rw [Set.mem_Iio, toNat_add_ofNat (by omega)] at last
    omega
  · intro inside p hp
    rw [mem_guestSpan (by omega)] at hp
    exact Set.mem_Iio.mpr (by omega)

/-- Each `memcpy` of a copy is at the guest address of its first byte, and does not wrap. -/
lemma memcpyCalls_ptr {fuel : Nat} {c : MemcpyCall} (hc : c ∈ (memcpyCalls m fuel addr off count).1) :
    c.ptr = (addr + .ofNat (c.off - off)).toNat ∧ c.ptr + c.len ≤ 2 ^ 64 := by
  induction fuel generalizing addr off count with
  | zero => simp [memcpyCalls] at hc
  | succ fuel ih =>
    rcases Nat.eq_zero_or_pos count with rfl | h0
    · simp [memcpyCalls_zero] at hc
    · by_cases ha : addr.toNat ≤ m.size
      · rw [memcpyCalls_succ ha h0] at hc
        rcases List.mem_cons.mp hc with rfl | hc
        · have lt := addr.toNat_lt
          refine ⟨by simp, ?_⟩
          simp only [chunkLen, virtioPageSize]
          omega
        · obtain ⟨ptr, wrap⟩ := ih hc
          have offs := memcpyCalls_off hc
          rw [add_ofNat_ofNat] at ptr
          refine ⟨?_, wrap⟩
          rw [ptr, show chunkLen addr count + (c.off - (off + chunkLen addr count)) = c.off - off from by omega]
      · rw [memcpyCalls_outside (by omega) h0] at hc
        cases hc

/-- The bytes of a `memcpy` are those of the copy. -/
lemma memcpyCalls_byte {fuel j : Nat} {c : MemcpyCall} (hc : c ∈ (memcpyCalls m fuel addr 0 count).1)
    (hj : j < c.len) : c.ptr + j = (addr + .ofNat (c.off + j)).toNat := by
  obtain ⟨ptr, wrap⟩ := memcpyCalls_ptr hc
  rw [Nat.sub_zero] at ptr
  rw [← add_ofNat_ofNat, toNat_add_ofNat (by omega), ptr]

/-- The bytes that a copy touches are those at its address. -/
lemma memcpyTouched_subset {p : Nat} {k : Int} (h : p ∈ memcpyTouched m addr k) : p ∈ guestSpan addr k.toNat := by
  simp only [memcpyTouched, List.mem_flatMap, List.mem_range'_1] at h
  obtain ⟨c, hc, h1, h2⟩ := h
  have offs := memcpyCalls_off hc
  refine ⟨c.off + (p - c.ptr), by omega, ?_⟩
  rw [← memcpyCalls_byte hc (by omega)]
  omega

/-- A copy to the guest changes nothing but the bytes at its address. -/
lemma copyStep_frame {s : GuestMemMap × Obj} {pos k : Int} (h : copyStep m buf true addr pos k = .ok s) :
    Set.EqOn s.1.hostMem m.hostMem (guestSpan addr k.toNat)ᶜ := by
  simp only [copyStep, if_true] at h
  obtain ⟨⟨ret, m₁⟩, e, h⟩ := bind_eq_ok.mp h
  cases h
  intro p hp
  exact virtioMemcpyToGuest_frame (fun touched => hp (memcpyTouched_subset touched)) e

/-! ## Chains whose entries stay the same -/

/-- A descriptor stays as long as its entry in the table does. -/
lemma descAt_congr {idx : Nat} (size : m'.size = m.size)
    (same : Set.EqOn m'.hostMem m.hostMem (entrySpan qs idx)) : descAt m' qs idx = descAt m qs idx := by
  have decode : VirtioDesc.decode m'.hostMem (descTableAddr qs idx).toNat =
      .decode m.hostMem (descTableAddr qs idx).toNat := VirtioDesc.decode_congr (slice_congr same)
  simp only [descAt, size, decode]

/-- The descriptors that follow stay as long as their entries do. -/
lemma Follows.congr (h : Follows m qs d l) (size : m'.size = m.size)
    (same : ∀ idx ∈ entries d.next.toNat l, Set.EqOn m'.hostMem m.hostMem (entrySpan qs idx)) :
    Follows m' qs d l := by
  induction h with
  | last next => exact .last next
  | link next desc _ ih =>
    refine .link next ?_ (ih fun idx hi => same idx (by simp [entries, hi]))
    rw [descAt_congr size (same _ (by simp [entries])), desc]

/-- A chain stays the same as long as its entries do. -/
lemma IsChain.congr (h : IsChain m qs head l) (size : m'.size = m.size)
    (same : ∀ idx ∈ entries head l, Set.EqOn m'.hostMem m.hostMem (entrySpan qs idx)) : IsChain m' qs head l := by
  cases l with
  | nil => exact h
  | cons d l =>
    refine ⟨?_, h.2.congr size fun idx hi => same idx (by simp [entries, hi])⟩
    rw [descAt_congr size (same _ (by simp [entries])), h.1]

/-- Each descriptor of the list comes after the one before. -/
def Leads (m : GuestMemMap) (qs : QueueState) (l : List VirtioDesc) : Prop :=
  l.IsChain fun d d' => nextDesc m qs d = some d'

/-- The last descriptors lead on as well. -/
lemma Leads.right {P S : List VirtioDesc} (h : Leads m qs (P ++ S)) : Leads m qs S :=
  List.IsChain.right_of_append h

/-- The descriptor that comes next. -/
lemma nextDesc_eq_some : nextDesc m qs d = some e ↔ d.isNext = true ∧ descAt m qs d.next.toNat = some e := by
  simp only [nextDesc]
  split <;> simp_all

/-- The first descriptors that follow one. -/
lemma Follows.leads (h : Follows m qs d (S ++ T)) : Leads m qs (d :: S) := by
  induction S generalizing d with
  | nil => exact .singleton d
  | cons s S ih =>
    obtain ⟨next, desc, rest⟩ := Follows.next h
    exact .cons_cons (nextDesc_eq_some.mpr ⟨next, desc⟩) (ih rest)

/-- The rest of a list of descriptors that come one after the other. -/
lemma Leads.next (h : Leads m qs (d :: e :: l)) :
    d.isNext = true ∧ descAt m qs d.next.toNat = some e ∧ Leads m qs (e :: l) := by
  cases h with
  | cons_cons desc rest =>
    obtain ⟨next, desc⟩ := nextDesc_eq_some.mp desc
    exact ⟨next, desc, rest⟩

/-- Descriptors come one after the other as long as their entries stay. -/
lemma Leads.congr (h : Leads m qs (d :: l)) (size : m'.size = m.size)
    (same : ∀ idx ∈ entries d.next.toNat l, Set.EqOn m'.hostMem m.hostMem (entrySpan qs idx)) :
    Leads m' qs (d :: l) := by
  induction l generalizing d with
  | nil => exact .singleton d
  | cons e l ih =>
    obtain ⟨next, desc, rest⟩ := Leads.next h
    refine .cons_cons (nextDesc_eq_some.mpr ⟨next, ?_⟩) (ih rest fun idx hi => same idx (by simp [entries, hi]))
    rw [descAt_congr size (same _ (by simp [entries])), desc]

/-- The chain with the given head begins with the descriptors in the list. -/
def Begins (m : GuestMemMap) (qs : QueueState) (head : Nat) : List VirtioDesc → Prop
  | [] => True
  | d :: l => descAt m qs head = some d ∧ Leads m qs (d :: l)

/-- The beginning of a chain. -/
lemma IsChain.begins (h : IsChain m qs head (l ++ T)) : Begins m qs head l := by
  cases l with
  | nil => trivial
  | cons d l => exact ⟨h.1, h.2.leads⟩

/-- Each of the first descriptors of a chain comes after the one before. -/
lemma Begins.leads (h : Begins m qs head l) : Leads m qs l := by
  cases l with
  | nil => exact .nil
  | cons d l => exact h.2

/-- The beginning of a chain stays as long as its entries do. -/
lemma Begins.congr (h : Begins m qs head l) (size : m'.size = m.size)
    (same : ∀ idx ∈ entries head l, Set.EqOn m'.hostMem m.hostMem (entrySpan qs idx)) : Begins m' qs head l := by
  cases l with
  | nil => trivial
  | cons d l =>
    refine ⟨?_, h.2.congr size fun idx hi => same idx (by simp [entries, hi])⟩
    rw [descAt_congr size (same _ (by simp [entries])), h.1]

/-- The entries that the copier is still to read are not changed by what one round has copied. -/
lemma eqOn_entries {s : GuestMemMap × Obj} {k : Nat}
    (step : copyStep m buf toQueue (d.addr + .ofNat off) pos k = .ok s) (hk : off + k ≤ d.len.toNat)
    (clear : toQueue = true → ∀ idx ∈ entries d.next.toNat l, Disjoint (entrySpan qs idx) (bufSpan d)) :
    s.1.size = m.size ∧ ∀ idx ∈ entries d.next.toNat l, Set.EqOn s.1.hostMem m.hostMem (entrySpan qs idx) := by
  have one : OneSided m s.1 buf s.2 toQueue := copyStep_oneSided step
  refine ⟨one.mem_size, fun idx hi => ?_⟩
  cases toQueue with
  | false =>
    rw [one.mem rfl]
    exact Set.eqOn_refl _ _
  | true =>
    refine (copyStep_frame step).mono ?_
    intro p hp hp'
    exact Set.disjoint_left.mp (clear rfl idx hi) hp (guestSpan_subset hk hp')

/-! ## Offsets in a run -/

/-- The number of descriptors before the one that holds the byte at an offset. -/
def descIndex : List VirtioDesc → Nat → Nat
  | [], _ => 0
  | d :: l, off => if off < d.len.toNat then 0 else descIndex l (off - d.len.toNat) + 1

/-- The guest address of a byte of some descriptors. -/
def byteAddr : List VirtioDesc → Nat → UInt64
  | [], _ => 0
  | d :: l, off => if off < d.len.toNat then d.addr + .ofNat off else byteAddr l (off - d.len.toNat)

/-- The descriptors before a byte are skipped. -/
lemma descIndex_append : descIndex (P ++ l) (total P + off) = P.length + descIndex l off := by
  induction P with
  | nil => simp
  | cons d P ih =>
    rw [List.cons_append, descIndex, total_cons, if_neg (by omega),
      show d.len.toNat + total P + off - d.len.toNat = total P + off from by omega, ih, List.length_cons]
    omega

/-- A byte that lies in one of the descriptors. -/
lemma descIndex_lt (h : off < total l) : descIndex l off < l.length := by
  induction l generalizing off with
  | nil => simp at h
  | cons d l ih =>
    rw [total_cons] at h
    rw [descIndex, List.length_cons]
    split
    · omega
    · exact Nat.succ_lt_succ (ih (by omega))

/-- A piece of a copy: the guest address it starts at, its position in the buffer and its length. -/
structure Part where
  addr : UInt64
  pos : Int
  len : Int
  deriving DecidableEq, Repr

/-- The pieces of a copy of `count` bytes, at position `pos` of the buffer and from an offset of some descriptors on. -/
def parts : List VirtioDesc → Nat → Nat → Nat → List Part
  | [], _, _, _ => []
  | d :: l, off, pos, count =>
    if d.len.toNat ≤ off then
      parts l (off - d.len.toNat) pos count
    else if count ≤ d.len.toNat - off then
      [⟨d.addr + .ofNat off, pos, count⟩]
    else
      ⟨d.addr + .ofNat off, pos, (d.len.toNat - off : Nat)⟩ ::
        parts l 0 (pos + (d.len.toNat - off)) (count - (d.len.toNat - off))

/-- The copies of some pieces, one after the other. -/
def copyParts (toQueue : Bool) (s : GuestMemMap × Obj) (ps : List Part) : Except Stop (GuestMemMap × Obj) :=
  ps.foldlM (fun s p => copyStep s.1 s.2 toQueue p.addr p.pos p.len) s

/-- The pieces behind the first descriptors. -/
lemma parts_skip : parts (P ++ l) (total P + off) pos count = parts l off pos count := by
  induction P with
  | nil => simp
  | cons d P ih =>
    rw [List.cons_append, parts, total_cons, if_pos (by omega),
      show d.len.toNat + total P + off - d.len.toNat = total P + off from by omega, ih]

/-- The first piece is copied first. -/
@[simp]
lemma copyParts_cons {s : GuestMemMap × Obj} {p : Part} {ps : List Part} :
    copyParts toQueue s (p :: ps) =
      (copyStep s.1 s.2 toQueue p.addr p.pos p.len >>= fun s => copyParts toQueue s ps) := by
  simp [copyParts]

/-- Without pieces nothing is copied. -/
@[simp]
lemma copyParts_nil {s : GuestMemMap × Obj} : copyParts toQueue s [] = .ok s := rfl

/-- The rest of the first descriptor is enough. -/
lemma copyParts_within (h0 : 0 < count) (h : off + count ≤ d.len.toNat) :
    copyParts toQueue (m, buf) (parts (d :: l) off pos count) =
      copyStep m buf toQueue (d.addr + .ofNat off) pos count := by
  rw [parts, if_neg (by omega), if_pos (by omega), copyParts_cons]
  simp only [copyParts_nil]
  cases copyStep m buf toQueue (d.addr + .ofNat off) pos count <;> rfl

/-- The first descriptor is used up, and the copy goes on at the start of the next one. -/
lemma copyParts_across (hoff : off ≤ d.len.toNat) (h : d.len.toNat < off + count) :
    copyParts toQueue (m, buf) (parts (d :: l) off pos count) =
      (copyStep m buf toQueue (d.addr + .ofNat off) pos ((d.len.toNat - off : Nat) : Int) >>= fun s =>
        copyParts toQueue s (parts l 0 (pos + (d.len.toNat - off)) (count - (d.len.toNat - off)))) := by
  rcases hoff.eq_or_lt with e | lt
  · rw [parts, if_pos (by omega), copyStep_nop (.inl (by omega)), ok_bind]
    simp [e]
  · rw [parts, if_neg (by omega), if_neg (by omega), copyParts_cons]

/-- Pieces that lie in the buffer are copied without leaving it. -/
lemma copyParts_safe (hb : pos + count ≤ buf.size) :
    ∃ s, copyParts toQueue (m, buf) (parts l off pos count) = .ok s ∧ s.2.size = buf.size := by
  induction l generalizing m buf off pos count with
  | nil => exact ⟨(m, buf), rfl, rfl⟩
  | cons d l ih =>
    rw [parts]
    split
    · exact ih hb
    · split
      · obtain ⟨m₁, b₁, step, -, size⟩ : ∃ m' buf', copyStep m buf toQueue (d.addr + .ofNat off) pos count =
            .ok (m', buf') ∧ m'.size = m.size ∧ buf'.size = buf.size := copyStep_safe _ (by omega) (by omega)
        exact ⟨(m₁, b₁), by rw [copyParts_cons, step]; rfl, size⟩
      · obtain ⟨m₁, b₁, step, -, size⟩ : ∃ m' buf', copyStep m buf toQueue (d.addr + .ofNat off) pos
            ((d.len.toNat - off : Nat) : Int) = .ok (m', buf') ∧ m'.size = m.size ∧ buf'.size = buf.size :=
          copyStep_safe _ (by omega) (by omega)
        obtain ⟨s, e, size'⟩ : ∃ s, copyParts toQueue (m₁, b₁) (parts l 0 (pos + (d.len.toNat - off))
            (count - (d.len.toNat - off))) = .ok s ∧ s.2.size = b₁.size := ih (by omega)
        exact ⟨s, by rw [copyParts_cons, step]; exact e, size'.trans size⟩

/-- The pieces lie in the `count` bytes of the buffer, each at the address of its bytes. -/
lemma parts_byte {p : Part} (hp : p ∈ parts l off pos count) :
    pos ≤ p.pos ∧ p.pos + p.len ≤ pos + count ∧
      ∀ j : Nat, j < p.len → byteAddr l (off + (p.pos - pos).toNat + j) = p.addr + .ofNat j := by
  induction l generalizing off pos count with
  | nil => cases hp
  | cons d l ih =>
    rw [parts] at hp
    split at hp
    · rename_i skip
      obtain ⟨h1, h2, h3⟩ := ih hp
      refine ⟨h1, h2, fun j hj => ?_⟩
      rw [byteAddr, if_neg (by omega), ← h3 j hj]
      congr 1
      omega
    · rename_i skip
      split at hp
      · rename_i fits
        obtain rfl := List.mem_singleton.mp hp
        refine ⟨le_rfl, le_rfl, fun j hj => ?_⟩
        simp only at hj
        rw [byteAddr, sub_self, Int.toNat_zero, Nat.add_zero, if_pos (by omega), add_ofNat_ofNat]
      · rename_i fits
        rcases List.mem_cons.mp hp with rfl | hp
        · refine ⟨le_rfl, by simp only; omega, fun j hj => ?_⟩
          simp only at hj
          rw [byteAddr, sub_self, Int.toNat_zero, Nat.add_zero, if_pos (by omega), add_ofNat_ofNat]
        · obtain ⟨h1, h2, h3⟩ := ih hp
          refine ⟨by omega, by omega, fun j hj => ?_⟩
          rw [byteAddr, if_neg (by omega), ← h3 j hj]
          congr 1
          omega

/-- Every byte of the copy belongs to a piece. -/
lemma parts_cover (hc : off + count ≤ total l) (hi : i < count) :
    ∃ p ∈ parts l off pos count, p.pos ≤ pos + i ∧ pos + i < p.pos + p.len := by
  induction l generalizing off pos count i with
  | nil =>
    rw [total_nil] at hc
    omega
  | cons d l ih =>
    rw [total_cons] at hc
    rw [parts]
    split
    · exact ih (by omega) hi
    · split
      · exact ⟨_, List.mem_singleton_self _, by simp, by simp only; omega⟩
      · by_cases first : i < d.len.toNat - off
        · exact ⟨_, List.mem_cons_self, by simp, by simp only; omega⟩
        · obtain ⟨p, hp, h1, h2⟩ : ∃ p ∈ parts l 0 (pos + (d.len.toNat - off)) (count - (d.len.toNat - off)),
              p.pos ≤ ((pos + (d.len.toNat - off) : Nat) : Int) + (i - (d.len.toNat - off) : Nat) ∧
                ((pos + (d.len.toNat - off) : Nat) : Int) + (i - (d.len.toNat - off) : Nat) < p.pos + p.len :=
            ih (by omega) (by omega)
          exact ⟨p, List.mem_cons_of_mem _ hp, by omega, by omega⟩

/-- The copies of some pieces to the guest change nothing but the bytes at their addresses. -/
lemma copyParts_frame {s : GuestMemMap × Obj} {ps : List Part} (h : copyParts true (m, buf) ps = .ok s) {q : Nat}
    (out : ∀ p ∈ ps, q ∉ guestSpan p.addr p.len.toNat) : s.1.hostMem q = m.hostMem q := by
  induction ps generalizing m buf with
  | nil =>
    cases h
    rfl
  | cons p ps ih =>
    rw [copyParts_cons] at h
    obtain ⟨⟨m₁, b₁⟩, step, rest⟩ := bind_eq_ok.mp h
    rw [ih rest fun p hp => out p (by simp [hp])]
    exact copyStep_frame step (out p (by simp))

/-- The copies of some pieces keep the size of the memory. -/
lemma copyParts_size {s : GuestMemMap × Obj} {ps : List Part} (h : copyParts toQueue (m, buf) ps = .ok s) :
    s.1.size = m.size := by
  induction ps generalizing m buf with
  | nil =>
    cases h
    rfl
  | cons p ps ih =>
    rw [copyParts_cons] at h
    obtain ⟨⟨m₁, b₁⟩, step, rest⟩ := bind_eq_ok.mp h
    have one : OneSided m m₁ buf b₁ toQueue := copyStep_oneSided step
    rw [ih rest, one.mem_size]

end Mvvmm.Virtio
