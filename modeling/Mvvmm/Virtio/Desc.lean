import Mvvmm.Virtio.Mem

/-!
# Descriptors and descriptor chains

Model of the part of `virtio.c` that walks the descriptor table of a queue: `getDesc` (C `get_desc`),
the copier `memcpyToFromQueue` (C `memcpy_to_from_queue`) with its three loops `findWrite`,
`findOffset` and `copyLoop`, and the size scan `getDescRwSize` (C `get_desc_rw_size`) with its two
loops `scanRead` and `scanWrite`.

The loops of the copier give up after 1025 rounds. Those of the scan have no bound, but a table has
`2 ^ 16` entries, so that a scan which is not over after `scanFuel` rounds has met an entry twice and
never ends: it stops with `.diverge`.
-/

namespace Mvvmm.Virtio
open Bytes CMem

/-- C `struct queue_state`. -/
structure QueueState where
  ready : UInt32
  num : UInt32
  lastAvailIdx : UInt16
  descAddr : UInt64
  availAddr : UInt64
  usedAddr : UInt64
  manualRecv : Bool
  deriving DecidableEq, Repr

/-- C `VRING_DESC_F_NEXT`. -/
def vringDescFNext : UInt16 := 1

/-- C `VRING_DESC_F_WRITE`. -/
def vringDescFWrite : UInt16 := 2

/-- C `struct virtio_desc`. -/
structure VirtioDesc where
  addr : UInt64
  len : UInt32
  flags : UInt16
  next : UInt16
  deriving DecidableEq, Repr

namespace VirtioDesc

/-- C `desc.flags & VRING_DESC_F_WRITE`. -/
def isWrite (d : VirtioDesc) : Bool :=
  d.flags &&& vringDescFWrite != 0

/-- C `desc.flags & VRING_DESC_F_NEXT`. -/
def isNext (d : VirtioDesc) : Bool :=
  d.flags &&& vringDescFNext != 0

/-- C `sizeof(struct virtio_desc)`. -/
def sizeof : Nat := 16

/-- The cleared descriptor, C `struct virtio_desc desc = {0}`. -/
def zero : VirtioDesc :=
  ⟨0, 0, 0, 0⟩

/-- The descriptor in the 16 bytes at `a`. -/
def decode (f : Nat → UInt8) (a : Nat) : VirtioDesc where
  addr := .ofNat (leNat (slice f a 8))
  len := .ofNat (leNat (slice f (a + 8) 4))
  flags := .ofNat (leNat (slice f (a + 12) 2))
  next := .ofNat (leNat (slice f (a + 14) 2))

/-- The 16 bytes of a descriptor. -/
def encode (d : VirtioDesc) : List UInt8 :=
  leBytes 8 d.addr.toNat ++ leBytes 4 d.len.toNat ++ leBytes 2 d.flags.toNat ++ leBytes 2 d.next.toNat

/-- A descriptor as an object of the host. -/
def toObj (d : VirtioDesc) : Obj :=
  ⟨sizeof, splice (fun _ => 0) 0 d.encode⟩

/-- The size of an encoded descriptor. -/
@[simp]
lemma encode_length (d : VirtioDesc) : d.encode.length = 16 := by
  simp [encode]

/-- A descriptor whose bytes have just been stored. -/
lemma decode_splice {f : Nat → UInt8} {a : Nat} {l : List UInt8} (h : l.length = 16) :
    decode (splice f a l) a =
      ⟨.ofNat (leNat (l.take 8)), .ofNat (leNat ((l.drop 8).take 4)),
        .ofNat (leNat ((l.drop 12).take 2)), .ofNat (leNat ((l.drop 14).take 2))⟩ := by
  simp only [decode]
  rw [slice_splice_mid (by omega) (by omega), slice_splice_mid (by omega) (by omega),
    slice_splice_mid (by omega) (by omega), slice_splice_mid (by omega) (by omega)]
  simp

/-- Reading back a written descriptor. -/
lemma decode_encode (d : VirtioDesc) {f : Nat → UInt8} {a : Nat} :
    decode (splice f a d.encode) a = d := by
  rw [decode_splice d.encode_length]
  simp only [encode, List.take_append, List.drop_append, leBytes_length, List.append_assoc]
  simp [leNat_leBytes, List.take_of_length_le, List.drop_of_length_le]

/-- Decoding only looks at its 16 bytes. -/
lemma decode_congr {f g : Nat → UInt8} {a b : Nat} (e : slice f a 16 = slice g b 16) :
    decode f a = decode g b := by
  have key : ∀ i n, i + n ≤ 16 → slice f (a + i) n = slice g (b + i) n := by
    intro i n h
    have e' := congrArg (fun l => (l.drop i).take n) e
    simpa only [slice_drop, slice_take, show min n (16 - i) = n from by omega] using e'
  have k0 := key 0 8 (by omega)
  simp only [Nat.add_zero] at k0
  simp only [decode, k0, key 8 4 (by omega), key 12 2 (by omega), key 14 2 (by omega)]

end VirtioDesc

/-- Guest address of entry `idx` of the descriptor table. -/
def descTableAddr (qs : QueueState) (idx : Nat) : UInt64 :=
  qs.descAddr + .ofNat (idx * VirtioDesc.sizeof)

/-- C `get_desc`: what it returns and the descriptor afterwards. -/
def getDesc (m : GuestMemMap) (qs : QueueState) (desc : VirtioDesc) (idx : Nat) :
    Except Stop (Int × VirtioDesc) := do
  let r ← virtioMemcpyFromGuest m desc.toObj 0 (descTableAddr qs idx) VirtioDesc.sizeof
  return (r.1, .decode r.2.bytes 0)

/-- Entry `idx` of the descriptor table, if `get_desc` can read it. -/
def descAt (m : GuestMemMap) (qs : QueueState) (idx : Nat) : Option VirtioDesc :=
  if (descTableAddr qs idx).toNat > m.size then
    none
  else
    some (.decode m.hostMem (descTableAddr qs idx).toNat)

variable {m : GuestMemMap} {qs : QueueState} {desc : VirtioDesc} {idx : Nat}

/-- `get_desc` reads the whole entry, or it fails and leaves the descriptor alone. -/
lemma getDesc_eq :
    getDesc m qs desc idx =
      .ok (match descAt m qs idx with
        | none => (-1, desc)
        | some d => (0, d)) := by
  simp only [getDesc, descAt]
  by_cases h : (descTableAddr qs idx).toNat > m.size
  · rw [virtioMemcpyFromGuest_outside h (by simp [VirtioDesc.sizeof])]
    simp only [ok_bind, h, if_true]
    rw [show VirtioDesc.decode desc.toObj.bytes 0 = desc from desc.decode_encode]
    rfl
  · rw [virtioMemcpyFromGuest_flat (by omega) (by simp [VirtioDesc.sizeof, virtioPageSize]; omega)
      le_rfl (by simp [VirtioDesc.toObj]) (by simp [VirtioDesc.sizeof])]
    have e : VirtioDesc.decode (splice desc.toObj.bytes 0
        (m.load (descTableAddr qs idx).toNat 16)) 0 =
        VirtioDesc.decode m.hostMem (descTableAddr qs idx).toNat :=
      VirtioDesc.decode_congr slice_splice_self
    simp only [ok_bind, h, if_false]
    exact congrArg (fun d => Except.ok ((0 : Int), d)) e

/-- First loop of `memcpy_to_from_queue`: the first write descriptor from `desc` on; `none` is its
`return -1`. -/
def findWrite (m : GuestMemMap) (qs : QueueState) :
    Nat → VirtioDesc → Except Stop (Option VirtioDesc)
  | 0, _ => return none
  | n + 1, desc => do
    if desc.isWrite then
      return some desc
    else if !desc.isNext then
      return none
    else
      let r ← getDesc m qs desc desc.next.toNat
      if r.1 < 0 then
        return none
      else
        findWrite m qs n r.2

/-- Second loop of `memcpy_to_from_queue`: the descriptor at `offset` and the offset in it; `none` is
its `return -1`. -/
def findOffset (m : GuestMemMap) (qs : QueueState) (fWriteFlag : Bool) :
    Nat → VirtioDesc → Int → Except Stop (Option (VirtioDesc × Int))
  | 0, _, _ => return none
  | n + 1, desc, offset => do
    if desc.isWrite != fWriteFlag then
      return none
    else if u32 offset < desc.len.toNat then
      return some (desc, offset)
    else if !desc.isNext then
      return none
    else
      let r ← getDesc m qs desc desc.next.toNat
      if r.1 < 0 then
        return none
      else
        findOffset m qs fWriteFlag n r.2 (i32 (offset - desc.len.toNat))

/-- The copy between `buf + pos` and the guest that a round of `copyLoop` makes; what it returns is
ignored. -/
def copyStep (m : GuestMemMap) (buf : Obj) (toQueue : Bool) (addr : UInt64) (pos l : Int) :
    Except Stop (GuestMemMap × Obj) := do
  if toQueue then
    let r ← virtioMemcpyToGuest m addr buf pos l
    return (r.2, buf)
  else
    let r ← virtioMemcpyFromGuest m buf pos addr l
    return (m, r.2)

/-- Third loop of `memcpy_to_from_queue`, with `buf` moved on to position `pos`. -/
def copyLoop (qs : QueueState) (toQueue : Bool) :
    Nat → GuestMemMap → Obj → VirtioDesc → Int → Int → Int → Except Stop (Int × GuestMemMap × Obj)
  | 0, m, buf, _, _, _, _ => return (-1, m, buf)
  | n + 1, m, buf, desc, offset, pos, count => do
    let l := min count (i32 (desc.len.toNat - offset))
    let (m, buf) ← copyStep m buf toQueue (desc.addr + .ofInt offset) pos l
    let count := i32 (count - l)
    if count = 0 then
      return (0, m, buf)
    else
      let offset := i32 (offset + l)
      let pos := pos + l
      if u32 offset = desc.len.toNat then
        if !desc.isNext then
          return (-1, m, buf)
        else
          let r ← getDesc m qs desc desc.next.toNat
          if r.1 < 0 then
            return (-1, m, buf)
          else if r.2.isWrite != toQueue then
            return (-1, m, buf)
          else
            copyLoop qs toQueue n m buf r.2 0 pos count
      else
        copyLoop qs toQueue n m buf desc offset pos count

/-- The loops of `memcpy_to_from_queue` give up when `i > 1024`. -/
def loopMax : Nat := 1025

/-- Where the third loop of `memcpy_to_from_queue` starts: the descriptor at `offset` and the offset
in it. -/
def locate (m : GuestMemMap) (qs : QueueState) (descIdx : Nat) (offset : Int) (toQueue : Bool) :
    Except Stop (Option (VirtioDesc × Int)) := do
  let r ← getDesc m qs .zero descIdx
  if r.1 < 0 then
    return none
  else
    match ← (if toQueue then findWrite m qs loopMax r.2 else return some r.2) with
    | none => return none
    | some desc => findOffset m qs toQueue loopMax desc offset

/-- C `memcpy_to_from_queue`: what it returns, the guest memory and `buf` afterwards. -/
def memcpyToFromQueue (m : GuestMemMap) (buf : Obj) (qs : QueueState) (descIdx : Nat)
    (offset count : Int) (toQueue : Bool) : Except Stop (Int × GuestMemMap × Obj) := do
  if count = 0 then
    return (0, m, buf)
  else
    match ← locate m qs descIdx offset toQueue with
    | none => return (-1, m, buf)
    | some (desc, offset) => copyLoop qs toQueue loopMax m buf desc offset 0 count

/-- C `memcpy_from_queue`. -/
def memcpyFromQueue (m : GuestMemMap) (buf : Obj) (qs : QueueState) (descIdx : Nat)
    (offset count : Int) : Except Stop (Int × Obj) := do
  let r ← memcpyToFromQueue m buf qs descIdx offset count false
  return (r.1, r.2.2)

/-- C `memcpy_to_queue`. -/
def memcpyToQueue (m : GuestMemMap) (qs : QueueState) (descIdx : Nat) (offset : Int) (buf : Obj)
    (count : Int) : Except Stop (Int × GuestMemMap) := do
  let r ← memcpyToFromQueue m buf qs descIdx offset count true
  return (r.1, r.2.1)

section Sizes
variable {m' : GuestMemMap} {buf buf' : Obj} {toQueue : Bool} {offset count ret : Int} {descIdx : Nat}

/-- A copy changes one side only, and no size. -/
structure OneSided (m m' : GuestMemMap) (buf buf' : Obj) (toQueue : Bool) : Prop where
  mem_size : m'.size = m.size
  buf_size : buf'.size = buf.size
  mem : toQueue = false → m' = m
  buf : toQueue = true → buf' = buf

/-- A copy of nothing is one-sided. -/
lemma OneSided.refl : OneSided m m buf buf toQueue :=
  ⟨rfl, rfl, fun _ => rfl, fun _ => rfl⟩

/-- Two copies in the same direction. -/
lemma OneSided.trans {m₁ : GuestMemMap} {buf₁ : Obj} (h : OneSided m m₁ buf buf₁ toQueue)
    (h' : OneSided m₁ m' buf₁ buf' toQueue) : OneSided m m' buf buf' toQueue where
  mem_size := h'.mem_size.trans h.mem_size
  buf_size := h'.buf_size.trans h.buf_size
  mem e := (h'.mem e).trans (h.mem e)
  buf e := (h'.buf e).trans (h.buf e)

/-- A segment changes one side only. -/
lemma copyStep_oneSided {addr : UInt64} {pos l : Int}
    (h : copyStep m buf toQueue addr pos l = .ok (m', buf')) : OneSided m m' buf buf' toQueue := by
  cases toQueue with
  | true =>
    simp only [copyStep, if_true] at h
    obtain ⟨⟨ret, m₁⟩, e, h⟩ := bind_eq_ok.mp h
    cases h
    exact ⟨virtioMemcpyToGuest_size e, rfl, by simp, fun _ => rfl⟩
  | false =>
    simp only [copyStep, Bool.false_eq_true, if_false] at h
    obtain ⟨⟨ret, b₁⟩, e, h⟩ := bind_eq_ok.mp h
    cases h
    exact ⟨rfl, virtioMemcpyFromGuest_size e, fun _ => rfl, by simp⟩

/-- The loop of the copier changes one side only. -/
lemma copyLoop_oneSided {n : Nat} {pos : Int}
    (h : copyLoop qs toQueue n m buf desc offset pos count = .ok (ret, m', buf')) :
    OneSided m m' buf buf' toQueue := by
  induction n generalizing m buf desc offset pos count with
  | zero =>
    cases h
    exact .refl
  | succ n ih =>
    simp only [copyLoop] at h
    obtain ⟨⟨m₁, b₁⟩, e, h⟩ := bind_eq_ok.mp h
    refine (copyStep_oneSided e).trans ?_
    simp only at h
    split at h
    · cases h
      exact .refl
    · split at h
      · split at h
        · cases h
          exact .refl
        · obtain ⟨r, _, h⟩ := bind_eq_ok.mp h
          split at h
          · cases h
            exact .refl
          · split at h
            · cases h
              exact .refl
            · exact ih h
      · exact ih h

/-- The copier changes one side only. -/
lemma memcpyToFromQueue_oneSided
    (h : memcpyToFromQueue m buf qs descIdx offset count toQueue = .ok (ret, m', buf')) :
    OneSided m m' buf buf' toQueue := by
  simp only [memcpyToFromQueue] at h
  split at h
  · cases h
    exact .refl
  · obtain ⟨d, _, h⟩ := bind_eq_ok.mp h
    split at h
    · cases h
      exact .refl
    · exact copyLoop_oneSided h

/-- Reading a chain keeps the size of the buffer. -/
lemma memcpyFromQueue_size (h : memcpyFromQueue m buf qs descIdx offset count = .ok (ret, buf')) :
    buf'.size = buf.size := by
  obtain ⟨r, e, h⟩ := bind_eq_ok.mp h
  cases h
  exact (memcpyToFromQueue_oneSided e).buf_size

/-- Writing a chain keeps the size of the memory. -/
lemma memcpyToQueue_size (h : memcpyToQueue m qs descIdx offset buf count = .ok (ret, m')) :
    m'.size = m.size := by
  obtain ⟨r, e, h⟩ := bind_eq_ok.mp h
  cases h
  exact (memcpyToFromQueue_oneSided e).mem_size

end Sizes

/-- Rounds after which a scan of the descriptor table has met an entry twice. -/
def scanFuel : Nat := 2 ^ 16 + 2

/-- First loop of `get_desc_rw_size`: the descriptor at its `break`, or `none` at its `goto done`, and
`read_size`. -/
def scanRead (m : GuestMemMap) (qs : QueueState) :
    Nat → VirtioDesc → Int → Except Stop (Option VirtioDesc × Int)
  | 0, _, _ => .error .diverge
  | n + 1, desc, readSize => do
    if desc.isWrite then
      return (some desc, readSize)
    else if !desc.isNext then
      return (none, i32 (readSize + desc.len.toNat))
    else
      let r ← getDesc m qs desc desc.next.toNat
      scanRead m qs n r.2 (i32 (readSize + desc.len.toNat))

/-- Second loop of `get_desc_rw_size`: `write_size`, or `none` at its `return -1`. -/
def scanWrite (m : GuestMemMap) (qs : QueueState) :
    Nat → VirtioDesc → Int → Except Stop (Option Int)
  | 0, _, _ => .error .diverge
  | n + 1, desc, writeSize => do
    if !desc.isWrite then
      return none
    else if !desc.isNext then
      return some (i32 (writeSize + desc.len.toNat))
    else
      let r ← getDesc m qs desc desc.next.toNat
      scanWrite m qs n r.2 (i32 (writeSize + desc.len.toNat))

/-- C `get_desc_rw_size`: `read_size` and `write_size`, or `none` if it returns -1. It ignores what
`get_desc` returns. -/
def getDescRwSize (m : GuestMemMap) (qs : QueueState) (descIdx : Nat) :
    Except Stop (Option (Int × Int)) := do
  let r ← getDesc m qs .zero descIdx
  match ← scanRead m qs scanFuel r.2 0 with
  | (none, readSize) => return some (readSize, 0)
  | (some desc, readSize) =>
    match ← scanWrite m qs scanFuel desc 0 with
    | none => return none
    | some writeSize => return some (readSize, writeSize)

/-- An `int` value. -/
def IsInt (x : Int) : Prop :=
  -2 ^ 31 ≤ x ∧ x < 2 ^ 31

/-- The readable size is an `int`. -/
lemma scanRead_isInt {n : Nat} {x y : Int} {r : Option VirtioDesc} (hx : IsInt x)
    (h : scanRead m qs n desc x = .ok (r, y)) : IsInt y := by
  induction n generalizing desc x with
  | zero => cases h
  | succ n ih =>
    simp only [scanRead] at h
    split at h
    · cases h
      exact hx
    · split at h
      · cases h
        exact i32_bounds _
      · obtain ⟨d, _, h⟩ := bind_eq_ok.mp h
        exact ih (i32_bounds _) h

/-- The writable size is an `int`. -/
lemma scanWrite_isInt {n : Nat} {x y : Int} (h : scanWrite m qs n desc x = .ok (some y)) :
    IsInt y := by
  induction n generalizing desc x with
  | zero => cases h
  | succ n ih =>
    simp only [scanWrite] at h
    split at h
    · cases h
    · split at h
      · cases h
        exact i32_bounds _
      · obtain ⟨d, _, h⟩ := bind_eq_ok.mp h
        exact ih h

/-- The sizes of a chain are `int`s. -/
lemma getDescRwSize_isInt {readSize writeSize : Int}
    (h : getDescRwSize m qs idx = .ok (some (readSize, writeSize))) :
    IsInt readSize ∧ IsInt writeSize := by
  have zero : IsInt 0 := by
    unfold IsInt
    omega
  simp only [getDescRwSize] at h
  obtain ⟨d, _, h⟩ := bind_eq_ok.mp h
  obtain ⟨⟨r, y⟩, e, h⟩ := bind_eq_ok.mp h
  have hy := scanRead_isInt zero e
  cases r with
  | none =>
    cases h
    exact ⟨hy, zero⟩
  | some desc =>
    obtain ⟨x, e', h⟩ := bind_eq_ok.mp h
    cases x with
    | none => cases h
    | some x =>
      cases h
      exact ⟨hy, scanWrite_isInt e'⟩

/-- The scan of the readable part of a chain may run for ever, but it is safe. -/
lemma scanRead_safe {n : Nat} {x : Int} : Safe (scanRead m qs n desc x) := by
  induction n generalizing desc x with
  | zero => exact safe_diverge
  | succ n ih =>
    simp only [scanRead, getDesc_eq, ok_bind]
    split
    · exact safe_ok _
    · split
      · exact safe_ok _
      · exact ih

/-- So is the scan of its writable part. -/
lemma scanWrite_safe {n : Nat} {x : Int} : Safe (scanWrite m qs n desc x) := by
  induction n generalizing desc x with
  | zero => exact safe_diverge
  | succ n ih =>
    simp only [scanWrite, getDesc_eq, ok_bind]
    split
    · exact safe_ok _
    · split
      · exact safe_ok _
      · exact ih

/-- So are both. -/
lemma getDescRwSize_safe : Safe (getDescRwSize m qs idx) := by
  simp only [getDescRwSize, getDesc_eq, ok_bind]
  refine scanRead_safe.bind ?_
  rintro ⟨_ | desc, readSize⟩ _
  · exact safe_ok _
  · refine scanWrite_safe.bind ?_
    rintro (_ | writeSize) _
    · exact safe_ok _
    · exact safe_ok _

end Mvvmm.Virtio
