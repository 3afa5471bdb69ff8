import Mvvmm.Virtio.Machine

/-!
# The network device

Model of the network device of `virtio.c` and of the part of `netdev.c` it calls. A packet of the guest
goes through `virtioNetRecvRequest` (C `virtio_net_recv_request`) to the TAP device, which may refuse it
without anybody noticing; a packet from the TAP device goes through
`virtioNetWritePacket` (C `virtio_net_write_packet`) to queue 0, which `queue_notify` leaves alone.

The receiving thread asks `virtio_net_can_write_packet` before each packet and drops the lock in between.
As `virtio_net_write_packet` checks the same again, the machine has the action `rx` at any time.
-/

namespace Mvvmm.Net
open Bytes CMem Virtio

/-- Which packets a TAP device takes, also depending on how many have been written before. -/
abbrev Tap := Nat → List UInt8 → Bool

/-- C `struct ether_device` with the TAP device behind it, and the packets that `write` has been called with, latest
first. -/
structure EtherDevice where
  macAddr : List UInt8
  takes : Tap
  written : List (List UInt8)

/-- The packets of a TAP device that it has taken, latest first. -/
def taken (takes : Tap) : List (List UInt8) → List (List UInt8)
  | [] => []
  | pkt :: written =>
    if takes written.length pkt then pkt :: taken takes written else taken takes written

/-- The packets that have been sent, latest first. -/
def EtherDevice.sent (es : EtherDevice) : List (List UInt8) :=
  taken es.takes es.written

/-- Nothing is sent that was not written. -/
lemma taken_sublist {takes : Tap} {written : List (List UInt8)} : (taken takes written).Sublist written := by
  induction written with
  | nil => exact .slnil
  | cons pkt written ih =>
    rw [taken]
    split
    · exact ih.cons_cons pkt
    · exact ih.cons pkt

/-- A TAP device that takes all packets sends them. -/
lemma taken_all {takes : Tap} {written : List (List UInt8)} (all : ∀ n, ∀ pkt ∈ written, takes n pkt = true) :
    taken takes written = written := by
  induction written with
  | nil => rfl
  | cons pkt written ih =>
    rw [taken, if_pos (all _ pkt (by simp)), ih fun n p hp => all n p (by simp [hp])]

/-- The network device (C `struct virtio_net_device`). -/
abbrev VirtioNetDevice := VirtioDevice EtherDevice

/-- C `sizeof(struct virtio_io_net_header)`, the only value of `header_size`. -/
def headerSize : Nat := 12

/-- C `VIRTIO_NET_MAX_QUEUE_NUM`. -/
def virtioNetMaxQueueNum : Nat := 32

/-- C `write_packet_to_ether`, which does not look at what `write` returns. -/
def writePacketToEther (es : EtherDevice) (buf : Obj) (len : Int) : EtherDevice :=
  if len ≤ 0 then es else { es with written := slice buf.bytes 0 len.toNat :: es.written }

/-- C `virtio_net_recv_request` for any callback `write_packet_to_ether`; it always returns 0. -/
def netRecvRequest {D : Type} (write : D → Obj → Int → D) : DeviceRecv D := fun s q descIdx readSize _ => do
  let r ← memcpyFromQueue s.mem (.zero headerSize) (s.queue q) descIdx 0 headerSize
  if r.1 < 0 then
    return (0, s)
  else
    let len := i32 (readSize - headerSize)
    let buf ← mallocZero len
    let (_, buf) ← memcpyFromQueue s.mem buf (s.queue q) descIdx headerSize len
    let s := { s with dev := write s.dev buf len }
    return (0, virtioConsumeDesc s q descIdx 0)

/-- C `virtio_net_recv_request` of the device with a TAP device. -/
def virtioNetRecvRequest : DeviceRecv EtherDevice :=
  netRecvRequest writePacketToEther

/-- C `virtio_net_can_write_packet`. -/
def virtioNetCanWritePacket (s : VirtioNetDevice) : Bool :=
  (s.queue 0).ready != 0 && (s.queue 0).lastAvailIdx != availIdx s 0

/-- C `virtio_net_write_packet`. -/
def virtioNetWritePacket (s : VirtioNetDevice) (pkt : List UInt8) : Except Stop VirtioNetDevice := do
  if !virtioNetCanWritePacket s then
    return s
  else
    let descIdx := nextHead s 0
    match ← getDescRwSize s.mem (s.queue 0) descIdx with
    | none => return s
    | some (_, writeSize) =>
      let len := i32 (headerSize + pkt.length)
      if len > writeSize then
        return s
      else
        let (_, m) ← memcpyToQueue s.mem (s.queue 0) descIdx 0 (.zero headerSize) headerSize
        let buf : Obj := ⟨pkt.length, splice (fun _ => 0) 0 pkt⟩
        let (_, m) ← memcpyToQueue m (s.queue 0) descIdx headerSize buf pkt.length
        let s := virtioConsumeDesc { s with mem := m } 0 descIdx len
        return s.updQueue 0 fun qs => { qs with lastAvailIdx := qs.lastAvailIdx + 1 }

/-- The address that `mvvm_init_virtio_net` gives to the device. -/
def macAddr : List UInt8 :=
  [0x52, 0x54, 0x00, 0x12, 0x34, 0x56]

/-- C `mvvm_init_virtio_net` and `virtio_net_init`. -/
def virtioNetInit (mem : GuestMemMap) (tap : Tap) : VirtioNetDevice :=
  let s := virtioInit mem 1 8 (.ofNat virtioNetMaxQueueNum) (⟨macAddr, tap, []⟩ : EtherDevice)
  let s := s.updQueue 0 fun qs => { qs with manualRecv := true }
  { s with deviceFeatures := (1 : UInt32) <<< 5, configSpace := splice s.configSpace 0 (macAddr ++ [0, 0]) }

/-- What happens to the network device and its guest. -/
inductive NetAct where
  | dev (a : DevAct)
  /-- The receiving thread hands over a packet of the TAP device. -/
  | rx (pkt : List UInt8)
  deriving DecidableEq, Repr

/-- The network device and its guest. The backend has no thread that calls `queue_notify`. -/
abbrev NetMachine := Machine EtherDevice Empty

/-- A step of the network device. -/
def netStep (c : NetMachine) : NetAct → Except Stop NetMachine
  | .dev a => devStep virtioNetRecvRequest c a
  | .rx pkt =>
    match c.ctl with
    | .idle => do
      let s ← virtioNetWritePacket c.s pkt
      return { c with s }
    | .notify .. => .error .blocked

/-- The network device at start-up. -/
def netInit (mem : GuestMemMap) (tap : Tap) : NetMachine :=
  ⟨virtioNetInit mem tap, .idle⟩

/-- A TAP device that takes every packet. -/
def takesAll : Tap := fun _ _ => true

variable {s s' : VirtioNetDevice} {q : Fin maxQueue} {ret : Int} {descIdx : Nat} {readSize writeSize : Int}

/-- All that `virtio_net_recv_request` can do with a chain: it drops it, or sends it and answers. -/
lemma virtioNetRecvRequest_effect
    (h : virtioNetRecvRequest s q descIdx readSize writeSize = .ok (ret, s')) :
    ret = 0 ∧
      ((memcpyFromQueue s.mem (.zero headerSize) (s.queue q) descIdx 0 headerSize).toOption.any
            (fun r => r.1 < 0) = true ∧ s' = s ∨
        ∃ dev, s' = virtioConsumeDesc { s with dev } q descIdx 0) := by
  simp only [virtioNetRecvRequest, netRecvRequest] at h
  obtain ⟨r, e, h⟩ := bind_eq_ok.mp h
  split at h
  · rename_i neg
    cases h
    refine ⟨rfl, .inl ⟨?_, rfl⟩⟩
    rw [e]
    exact decide_eq_true neg
  · obtain ⟨buf, _, h⟩ := bind_eq_ok.mp h
    obtain ⟨r', _, h⟩ := bind_eq_ok.mp h
    cases h
    exact ⟨rfl, .inr ⟨_, rfl⟩⟩

/-- A packet received for the guest is answered on queue 0, outside the account of `queue_notify`, and no
other queue notices. -/
lemma virtioNetWritePacket_effect {pkt : List UInt8} (h : virtioNetWritePacket s pkt = .ok s') :
    s'.popped = s.popped ∧ (∀ q, (s'.queue q).manualRecv = (s.queue q).manualRecv) ∧
      s'.used.filter (fun u => u.queue ≠ 0) = s.used.filter (fun u => u.queue ≠ 0) ∧
      s'.mem.size = s.mem.size ∧ ∀ q ≠ 0, s'.queue q = s.queue q := by
  simp only [virtioNetWritePacket] at h
  split at h
  · cases h
    exact ⟨rfl, fun _ => rfl, rfl, rfl, fun _ _ => rfl⟩
  · obtain ⟨sizes, _, h⟩ := bind_eq_ok.mp h
    split at h
    · cases h
      exact ⟨rfl, fun _ => rfl, rfl, rfl, fun _ _ => rfl⟩
    · split at h
      · cases h
        exact ⟨rfl, fun _ => rfl, rfl, rfl, fun _ _ => rfl⟩
      · obtain ⟨⟨r₁, m₁⟩, e₁, h⟩ := bind_eq_ok.mp h
        obtain ⟨⟨r₂, m₂⟩, e₂, h⟩ := bind_eq_ok.mp h
        obtain rfl := Except.ok.inj h
        refine ⟨virtioConsumeDesc_popped, ?_, ?_, ?_, ?_⟩
        · intro q
          refine (updQueue_manualRecv ?_ q).trans ?_
          · intro qs
            rfl
          · rw [virtioConsumeDesc_queue]
        · simp only [VirtioDevice.updQueue, virtioConsumeDesc]
          split <;> split <;> simp
        · simp only [VirtioDevice.updQueue, virtioConsumeDesc_mem, publishUsed_size]
          rw [memcpyToQueue_size e₂, memcpyToQueue_size e₁]
        · intro q ne
          simp only [VirtioDevice.updQueue]
          rw [Function.update_of_ne ne, virtioConsumeDesc_queue]

end Mvvmm.Net
