import Mvvmm.Block.Recv
import Mvvmm.Net.Device
import Mvvmm.Virtio.Scatter

/-!
# The sizes of a chain

`get_desc_rw_size` adds up 32-bit lengths in two `int`s, and the devices allocate their buffers by them. For a chain of
good shape the sizes are the sums of the lengths if and only if both sums are below `2 ^ 31` (`getDescRwSize_exact`);
then what `virtio_block_recv_request` and `virtio_net_recv_request` pass to `malloc` is never negative. `blockAlloc` and
`netAlloc` are the parts of the two functions that come before the allocation.
-/

namespace Mvvmm
open Bytes CMem Virtio

variable {m : GuestMemMap} {qs : QueueState} {l : List VirtioDesc} {head : Nat} {readSize writeSize : Int}

namespace Block

/-- What `virtio_block_recv_request` does before it allocates: the header of the request and the size that `malloc` and
`memset` get; `none` if it allocates no buffer. -/
def blockAlloc (m : GuestMemMap) (qs : QueueState) (descIdx : Nat) (readSize writeSize : Int) :
    Except Stop (Option (BlockRequestHeader × Int)) := do
  let r ← memcpyFromQueue m (.zero BlockRequestHeader.sizeof) qs descIdx 0 BlockRequestHeader.sizeof
  if r.1 < 0 then
    return none
  else
    let h := BlockRequestHeader.decode r.2.bytes
    if h.type = virtioBlkTIn then
      return some (h, writeSize)
    else if h.type = virtioBlkTOut then
      if writeSize < 1 then
        .error .abort
      else
        let len := i32 (readSize - BlockRequestHeader.sizeof)
        if len ≤ 0 then .error .abort else return some (h, len)
    else
      return none

/-- What `virtio_block_recv_request` does with the buffer. -/
def blockFill (m : GuestMemMap) (qs : QueueState) (q : Fin maxQueue) (descIdx : Nat) (h : BlockRequestHeader)
    (size : Int) (buf : Obj) : Except Stop AsyncIoReq := do
  if h.type = virtioBlkTIn then
    return ioReq h.sectorNum buf (Int.tdiv (size - 1) sectorSize) false ⟨h.type, size, q, descIdx⟩
  else
    let (_, buf) ← memcpyFromQueue m buf qs descIdx BlockRequestHeader.sizeof size
    return ioReq h.sectorNum buf (Int.tdiv size sectorSize) true ⟨h.type, 0, q, descIdx⟩

/-- A request is made of a buffer of the size that `blockAlloc` says. -/
lemma blockRequest_eq {q : Fin maxQueue} {descIdx : Nat} :
    blockRequest m qs q descIdx readSize writeSize = (do
      match ← blockAlloc m qs descIdx readSize writeSize with
      | none => return none
      | some (h, size) =>
        let buf ← mallocZero size
        let req ← blockFill m qs q descIdx h size buf
        return some req) := by
  simp only [blockRequest, blockAlloc, bind_assoc]
  congr 1
  funext r
  split
  · rfl
  · split
    · rename_i type
      simp [blockFill, type]
    · rename_i type
      split
      · split
        · rfl
        · split
          · rfl
          · simp [blockFill, type]
      · rfl

/-- An `int` size that is not negative stays so. -/
lemma blockAlloc_nonneg {descIdx : Nat} {h : BlockRequestHeader} {size : Int} (hw : 0 ≤ writeSize)
    (e : blockAlloc m qs descIdx readSize writeSize = .ok (some (h, size))) : 0 ≤ size := by
  simp only [blockAlloc] at e
  obtain ⟨r, -, e⟩ := bind_eq_ok.mp e
  split at e
  · cases e
  · split at e
    · cases e
      exact hw
    · split at e
      · split at e
        · cases e
        · split at e
          · cases e
          · cases e
            omega
      · cases e

end Block

namespace Net

/-- What `virtio_net_recv_request` does before it allocates: the size that `malloc` and `memset` get; `none` if it
allocates no buffer. -/
def netAlloc (m : GuestMemMap) (qs : QueueState) (descIdx : Nat) (readSize : Int) : Except Stop (Option Int) := do
  let r ← memcpyFromQueue m (.zero headerSize) qs descIdx 0 headerSize
  if r.1 < 0 then return none else return some (i32 (readSize - headerSize))

/-- A packet is sent from a buffer of the size that `netAlloc` says. -/
lemma virtioNetRecvRequest_eq {s : VirtioNetDevice} {q : Fin maxQueue} {descIdx : Nat} :
    virtioNetRecvRequest s q descIdx readSize writeSize = (do
      match ← netAlloc s.mem (s.queue q) descIdx readSize with
      | none => return (0, s)
      | some len =>
        let buf ← mallocZero len
        let (_, buf) ← memcpyFromQueue s.mem buf (s.queue q) descIdx headerSize len
        let s := { s with dev := writePacketToEther s.dev buf len }
        return (0, virtioConsumeDesc s q descIdx 0)) := by
  simp only [virtioNetRecvRequest, netRecvRequest, netAlloc, bind_assoc]
  congr 1
  funext r
  split <;> rfl

/-- A chain with room for the header has room for the packet behind it. -/
lemma netAlloc_nonneg {size : Int} (chain : IsChain m qs head l) (hs : total (runOf false l) < 2 ^ 31)
    (e : netAlloc m qs head (total (runOf false l)) = .ok (some size)) : 0 ≤ size := by
  simp only [netAlloc] at e
  obtain ⟨r, copy, e⟩ := bind_eq_ok.mp e
  split at e
  · cases e
  · rename_i ret
    cases e
    have room : Reaches false l 0 headerSize := by
      by_contra short
      obtain ⟨buf', fail⟩ : ∃ buf', memcpyFromQueue m (.zero headerSize) qs head (0 : Nat) headerSize =
        .ok (-1, buf') := memcpyFromQueue_short chain hs short (by decide) (by decide) (by decide) le_rfl
      rw [show ((0 : Nat) : Int) = 0 from rfl, copy] at fail
      cases fail
      exact ret (by simp)
    have bytes := room.bytes
    simp only [headerSize] at bytes ⊢
    rw [i32_of_range (by omega) (by omega)]
    omega

end Net

/-- For every chain the scan returns 0 if and only if the readable descriptors come before the writable ones. The sizes
are then the sums of the lengths, and not negative, if and only if both sums are below `2 ^ 31`; and in that case neither
device allocates a buffer of negative size. -/
theorem getDescRwSize_exact (m : GuestMemMap) (qs : QueueState) (head : Nat) (l : List VirtioDesc)
    (chain : IsChain m qs head l) :
    ((∃ readSize writeSize, getDescRwSize m qs head = .ok (some (readSize, writeSize))) ↔ Shaped l) ∧
    ∀ readSize writeSize, getDescRwSize m qs head = .ok (some (readSize, writeSize)) →
      ((0 ≤ readSize ∧ 0 ≤ writeSize ∧ readSize = total (readablePart l) ∧ writeSize = total (writablePart l)) ↔
        total (readablePart l) < 2 ^ 31 ∧ total (writablePart l) < 2 ^ 31) ∧
      (total (readablePart l) < 2 ^ 31 → total (writablePart l) < 2 ^ 31 →
        (∀ h size, Block.blockAlloc m qs head readSize writeSize = .ok (some (h, size)) → 0 ≤ size) ∧
        ∀ size, Net.netAlloc m qs head readSize = .ok (some size) → 0 ≤ size) := by
  have good : ∀ R W, l = R ++ W → (∀ d ∈ R, d.isWrite = false) → (∀ d ∈ W, d.isWrite = true) →
      getDescRwSize m qs head = .ok (some (i32 (total (readablePart l)), i32 (total (writablePart l)))) := by
    rintro R W rfl hR hW
    obtain ⟨eR, eW⟩ := parts_of_append hR hW
    rw [eR, eW]
    exact getDescRwSize_shape chain hR hW
  refine ⟨⟨?_, ?_⟩, ?_⟩
  · rintro ⟨readSize, writeSize, e⟩
    by_contra bad
    rw [getDescRwSize_badShape chain bad] at e
    cases e
  · rintro ⟨R, W, eq, hR, hW⟩
    exact ⟨_, _, good R W eq hR hW⟩
  · intro readSize writeSize e
    have shaped : Shaped l := by
      by_contra bad
      rw [getDescRwSize_badShape chain bad] at e
      cases e
    obtain ⟨R, W, eq, hR, hW⟩ := shaped
    rw [good R W eq hR hW, Except.ok.injEq, Option.some.injEq, Prod.mk.injEq] at e
    obtain ⟨rfl, rfl⟩ := e
    have bR := i32_bounds (total (readablePart l))
    have bW := i32_bounds (total (writablePart l))
    refine ⟨⟨by omega, ?_⟩, ?_⟩
    · rintro ⟨tR, tW⟩
      rw [i32_of_range (by omega) (by omega), i32_of_range (by omega) (by omega)]
      omega
    · intro tR tW
      rw [i32_of_range (by omega) (by omega), i32_of_range (by omega) (by omega)]
      exact ⟨fun h size e => Block.blockAlloc_nonneg (by omega) e, fun size e => Net.netAlloc_nonneg chain tR e⟩

/-- The chain of 10 readable and 6 writable bytes. -/
theorem getDescRwSize_exact_ten_six :
    ((∃ readSize writeSize, getDescRwSize (twoDescs tenBytes sixBytes) zeroQueue 0 = .ok (some (readSize, writeSize))) ↔
      Shaped [tenBytes, sixBytes]) ∧
    getDescRwSize (twoDescs tenBytes sixBytes) zeroQueue 0 = .ok (some (10, 6)) ∧
    ((0 : Int) ≤ 10 ∧ (0 : Int) ≤ 6 ∧ (10 : Int) = total (readablePart [tenBytes, sixBytes]) ∧
      (6 : Int) = total (writablePart [tenBytes, sixBytes])) := by
  obtain ⟨shape, sizes⟩ := getDescRwSize_exact _ _ _ _ isChain_ten_six
  have e : getDescRwSize (twoDescs tenBytes sixBytes) zeroQueue 0 = .ok (some (10, 6)) := by decide +kernel
  exact ⟨shape, e, (sizes 10 6 e).1.mpr (by decide)⟩

/-- A writable descriptor of `2 ^ 31` bytes behind the header of a read request: the size is negative, and `malloc` gets
it. -/
theorem malloc_of_negative_size :
    getDescRwSize (twoDescs ⟨64, 16, 1, 1⟩ ⟨128, 0x80000000, 2, 0⟩) zeroQueue 0 = .ok (some (16, -2 ^ 31)) ∧
      Block.blockAlloc (twoDescs ⟨64, 16, 1, 1⟩ ⟨128, 0x80000000, 2, 0⟩) zeroQueue 0 16 (-2 ^ 31) =
        .ok (some (⟨Block.virtioBlkTIn, 0⟩, -2 ^ 31)) := by
  decide +kernel

end Mvvmm
