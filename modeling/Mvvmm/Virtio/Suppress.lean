import Mvvmm.Lib.Run
import Mvvmm.Virtio.Bounds
import Mvvmm.Virtio.Ring

/-!
# Interrupt suppression

`virtio_consume_desc` at the grain of its single accesses to guest memory, against a driver that suppresses
interrupts. A store of the device does not reach the guest memory at once: it goes into a FIFO of stores in
flight, as on a processor with a store buffer, and is delivered later. The device itself sees its own
stores (`view`). The release and acquire fences of the accessors leave a load free to overtake an earlier
store, so nothing empties the FIFO before the device reads the flags.

The driver sets and clears the bit `NO_INTERRUPT` in the flags of the available ring. To go idle it clears
the bit, executes a full barrier, so that its store is in memory, reads the index of the used ring again and
sleeps if it sees nothing new; an interrupt wakes it up. `Lost` are the states in which it sleeps on an
unseen entry for good.

`consume_view` connects the steps with the function `virtioConsumeDesc`.
-/

namespace Mvvmm.Virtio
open Bytes CMem Run

/-- A store in flight. -/
structure Store where
  p : Nat
  bytes : List UInt8
  deriving DecidableEq, Repr

/-- Where the device is in `virtio_consume_desc`. -/
inductive ConsumePc where
  | idle
  | readIdx (descIdx : Nat) (descLen : Int)
  | storeId (descIdx : Nat) (descLen : Int) (index : UInt16)
  | storeLen (descLen : Int) (index : UInt16)
  | storeIdx (index : UInt16)
  | loadFlags
  /-- At `s->int_status |= 1` and `trigger_irqfd`. -/
  | raise
  deriving DecidableEq, Repr

/-- What the driver is doing. -/
inductive DriverPc where
  | awake
  /-- It has cleared the bit and executed the barrier. -/
  | reread
  | asleep
  deriving DecidableEq, Repr

/-- A device in `virtio_consume_desc` and its driver. -/
structure Handshake where
  mem : GuestMemMap
  stores : List Store
  pc : ConsumePc
  driver : DriverPc
  /-- The index of the used ring when the driver last looked. -/
  seen : UInt16
  /-- An interrupt was raised since the driver cleared the bit. -/
  raised : Bool

/-- What the two sides do. -/
inductive HandAct where
  /-- The device calls `virtio_consume_desc`. -/
  | consume (descIdx : Nat) (descLen : Int)
  /-- The device makes its next access. -/
  | device
  /-- The oldest store reaches guest memory. -/
  | deliver
  /-- The driver sets `NO_INTERRUPT`. -/
  | suppress
  /-- The driver looks at the used ring. -/
  | poll
  /-- The driver clears `NO_INTERRUPT`, to go idle. -/
  | clear
  /-- The driver looks at the used ring again, and sleeps if there is nothing new. -/
  | reread
  /-- An interrupt wakes up the driver. -/
  | interrupt
  deriving DecidableEq, Repr

variable {B : Type} {qs : QueueState} {h h' : Handshake} {a : HandAct} {st : Store} {m m' : GuestMemMap}

/-- The guest memory with stores delivered. -/
def delivered (m : GuestMemMap) (l : List Store) : GuestMemMap :=
  l.foldl (fun m st => m.store st.p st.bytes) m

/-- The guest memory as the device sees it. -/
def Handshake.view (h : Handshake) : GuestMemMap :=
  delivered h.mem h.stores

/-- A store of the device, by one of its aligned accessors. -/
def Handshake.push (h : Handshake) (width : Nat) (addr : UInt64) (bytes : List UInt8) : Handshake :=
  (alignedPtr h.mem width addr).elim h fun p => { h with stores := h.stores ++ [⟨p, bytes⟩] }

/-- C `virtio_consume_desc`, one access. -/
def consumeStep (qs : QueueState) (h : Handshake) : Except Stop Handshake :=
  match h.pc with
  | .idle => .error .blocked
  | .readIdx d len => return { h with pc := .storeId d len (virtioRead16 h.view (qs.usedAddr + 2)) }
  | .storeId d len index =>
    return { h.push 4 (usedRingAddr qs index) (leBytes 4 (UInt32.ofNat d).toNat) with
      pc := .storeLen len index }
  | .storeLen len index =>
    return { h.push 4 (usedRingAddr qs index + 4) (leBytes 4 (UInt32.ofInt len).toNat) with
      pc := .storeIdx index }
  | .storeIdx index =>
    return { h.push 2 (qs.usedAddr + 2) (leBytes 2 (index + 1).toNat) with pc := .loadFlags }
  | .loadFlags =>
    return { h with pc := if virtioRead16 h.view qs.availAddr &&& 1 ≠ 0 then .idle else .raise }
  | .raise => return { h with raised := true, pc := .idle }

/-- The guest memory after the driver has set the flags of the available ring. -/
def setFlags (m : GuestMemMap) (qs : QueueState) (flags : UInt16) : GuestMemMap :=
  m.store qs.availAddr.toNat (leBytes 2 flags.toNat)

/-- A step of either side. -/
def handStep (qs : QueueState) (h : Handshake) : HandAct → Except Stop Handshake
  | .consume d len =>
    if h.pc = .idle then return { h with pc := .readIdx d len } else .error .blocked
  | .device => consumeStep qs h
  | .deliver =>
    match h.stores with
    | [] => .error .blocked
    | st :: l => return { h with mem := h.mem.store st.p st.bytes, stores := l }
  | .suppress =>
    if h.driver = .awake then return { h with mem := setFlags h.mem qs 1 } else .error .blocked
  | .poll =>
    if h.driver = .awake then return { h with seen := usedIdx h.mem qs } else .error .blocked
  | .clear =>
    if h.driver = .awake then
      return { h with mem := setFlags h.mem qs 0, raised := false, driver := .reread }
    else
      .error .blocked
  | .reread =>
    if h.driver = .reread then
      return { h with driver := if usedIdx h.mem qs = h.seen then .asleep else .awake }
    else
      .error .blocked
  | .interrupt => if h.raised then return { h with driver := .awake } else .error .blocked

/-- Both sides at the beginning: the device in no call, the driver awake. -/
def handInit (mem : GuestMemMap) (seen : UInt16) : Handshake :=
  ⟨mem, [], .idle, .awake, seen, false⟩

/-- Everything is delivered, the device has finished, and the driver sleeps on an unseen entry with no
interrupt raised since it went idle. -/
def Lost (qs : QueueState) (h : Handshake) : Prop :=
  h.stores = [] ∧ h.pc = .idle ∧ h.driver = .asleep ∧ usedIdx h.mem qs ≠ h.seen ∧ h.raised = false

instance (qs : QueueState) (h : Handshake) : Decidable (Lost qs h) :=
  inferInstanceAs (Decidable (_ ∧ _ ∧ _ ∧ _ ∧ _))

/-! ## The function `virtioConsumeDesc` -/

/-- Stores that arrive keep the size of the memory. -/
@[simp]
lemma delivered_size {l : List Store} : (delivered m l).size = m.size := by
  induction l generalizing m with
  | nil => rfl
  | cons st l ih =>
    rw [delivered, List.foldl_cons]
    exact ih

/-- One more store that arrives. -/
lemma delivered_append {l : List Store} : delivered m (l ++ [st]) = (delivered m l).store st.p st.bytes := by
  simp [delivered]

/-- The device sees a store at once. -/
lemma view_push {width : Nat} {addr : UInt64} {bytes : List UInt8} :
    (h.push width addr bytes).view =
      (alignedPtr h.view width addr).elim h.view fun p => h.view.store p bytes := by
  have same : alignedPtr h.view width addr = alignedPtr h.mem width addr := by
    simp only [alignedPtr, guestAddrToHostAddr, Handshake.view, delivered_size]
  rw [same, Handshake.push]
  cases alignedPtr h.mem width addr with
  | none => rfl
  | some p => exact delivered_append

/-- A store that is on its way has not arrived. -/
@[simp]
lemma push_mem {width : Nat} {addr : UInt64} {bytes : List UInt8} :
    (h.push width addr bytes).mem = h.mem := by
  simp only [Handshake.push]
  cases alignedPtr h.mem width addr <;> rfl

/-- A store of the device is none of the driver. -/
@[simp]
lemma push_driver {width : Nat} {addr : UInt64} {bytes : List UInt8} :
    (h.push width addr bytes).driver = h.driver := by
  simp only [Handshake.push]
  cases alignedPtr h.mem width addr <;> rfl

/-- A store raises no interrupt. -/
@[simp]
lemma push_raised {width : Nat} {addr : UInt64} {bytes : List UInt8} :
    (h.push width addr bytes).raised = h.raised := by
  simp only [Handshake.push]
  cases alignedPtr h.mem width addr <;> rfl

/-- The device sees its own store of 32 bits. -/
lemma view_push_write32 {addr : UInt64} {val : UInt32} :
    (h.push 4 addr (leBytes 4 val.toNat)).view = virtioWrite32 h.view addr val := by
  rw [view_push, virtioWrite32]
  cases alignedPtr h.view 4 addr <;> rfl

/-- The device sees its own store of 16 bits. -/
lemma view_push_write16 {addr : UInt64} {val : UInt16} :
    (h.push 2 addr (leBytes 2 val.toNat)).view = virtioWrite16 h.view addr val := by
  rw [view_push, virtioWrite16]
  cases alignedPtr h.view 2 addr <;> rfl

/-- A step of the device that changes nothing but what it pushes and where it is. -/
lemma reach_device (e : consumeStep qs h = .ok h') : Reach (handStep qs) always h h' :=
  .step .device .init trivial e

/-- Up to its look at the flags, the device publishes the entry in its view of the memory. -/
lemma publish_view (qs : QueueState) (d : Nat) (len : Int) (mem : h.view = m) (idle : h.pc = .idle) :
    ∃ h', Reach (handStep qs) always h h' ∧ h'.pc = .loadFlags ∧ h'.driver = h.driver ∧
      h'.raised = h.raised ∧ h'.view = publishUsed m qs d len := by
  obtain ⟨index, hi⟩ : ∃ index, index = virtioRead16 h.view (qs.usedAddr + 2) := ⟨_, rfl⟩
  -- the states between the accesses
  obtain ⟨h₁, e₁⟩ : ∃ h₁, h₁ = { h with pc := .readIdx d len } := ⟨_, rfl⟩
  obtain ⟨h₂, e₂⟩ : ∃ h₂, h₂ = { h₁ with pc := .storeId d len index } := ⟨_, rfl⟩
  obtain ⟨h₃, e₃⟩ : ∃ h₃, h₃ = { h₂.push 4 (usedRingAddr qs index)
    (leBytes 4 (UInt32.ofNat d).toNat) with pc := .storeLen len index } := ⟨_, rfl⟩
  obtain ⟨h₄, e₄⟩ : ∃ h₄, h₄ = { h₃.push 4 (usedRingAddr qs index + 4)
    (leBytes 4 (UInt32.ofInt len).toNat) with pc := .storeIdx index } := ⟨_, rfl⟩
  obtain ⟨h₅, e₅⟩ : ∃ h₅, h₅ = { h₄.push 2 (qs.usedAddr + 2)
    (leBytes 2 (index + 1).toNat) with pc := .loadFlags } := ⟨_, rfl⟩
  have r₁ : Reach (handStep qs) always h h₁ := by
    refine .step (.consume d len) .init trivial ?_
    simp only [handStep, idle, if_true, e₁]
    rfl
  have r₂ : Reach (handStep qs) always h₁ h₂ := by
    refine reach_device ?_
    rw [e₂, hi, e₁]
    rfl
  have r₃ : Reach (handStep qs) always h₂ h₃ := by
    refine reach_device ?_
    rw [e₃, e₂]
    rfl
  have r₄ : Reach (handStep qs) always h₃ h₄ := by
    refine reach_device ?_
    rw [e₄, e₃]
    rfl
  have r₅ : Reach (handStep qs) always h₄ h₅ := by
    refine reach_device ?_
    rw [e₅, e₄]
    rfl
  have v₃ : h₃.view = virtioWrite32 h.view (usedRingAddr qs index) (.ofNat d) := by
    rw [e₃]
    refine view_push_write32.trans ?_
    rw [e₂, e₁]
    rfl
  have v₄ : h₄.view = virtioWrite32 h₃.view (usedRingAddr qs index + 4) (.ofInt len) := by
    rw [e₄]
    exact view_push_write32
  have v₅ : h₅.view = virtioWrite16 h₄.view (qs.usedAddr + 2) (index + 1) := by
    rw [e₅]
    exact view_push_write16
  refine ⟨h₅, (((r₁.trans r₂).trans r₃).trans r₄).trans r₅, ?_, ?_, ?_, ?_⟩
  · rw [e₅]
  · rw [e₅, e₄, e₃, e₂, e₁]
    simp
  · rw [e₅, e₄, e₃, e₂, e₁]
    simp
  · rw [v₅, v₄, v₃, hi, mem]
    rfl

/-- A call of `virtio_consume_desc`, step by step, leaves the device with the guest memory, as it sees it,
that the function `virtioConsumeDesc` returns, and it has raised an interrupt if the function does. -/
theorem consume_view {s : VirtioDevice B} {q : Fin maxQueue} (d : Nat) (len : Int)
    (mem : h.view = s.mem) (idle : h.pc = .idle) :
    ∃ h', Reach (handStep (s.queue q)) always h h' ∧ h'.pc = .idle ∧ h'.driver = h.driver ∧
      h'.view = (virtioConsumeDesc s q d len).mem ∧
      (h'.raised = true ↔
        h.raised = true ∨ (virtioConsumeDesc s q d len).irqs = .trigger :: s.irqs) := by
  obtain ⟨h₅, r, pc, driver, raised, view⟩ := publish_view (s.queue q) d len mem idle
  by_cases flags : virtioRead16 h₅.view (s.queue q).availAddr &&& 1 ≠ 0
  · refine ⟨{ h₅ with pc := .idle }, r.trans (reach_device ?_), rfl, driver, ?_, ?_⟩
    · simp only [consumeStep, pc, if_pos flags]
      rfl
    · rw [virtioConsumeDesc_mem, ← view]
      rfl
    · rw [view] at flags
      simp [virtioConsumeDesc, flags, raised]
  · refine ⟨{ h₅ with raised := true, pc := .idle }, ?_, rfl, driver, ?_, ?_⟩
    · have go : Reach (handStep (s.queue q)) always h₅ { h₅ with pc := .raise } := by
        refine reach_device ?_
        simp only [consumeStep, pc, if_neg flags]
        rfl
      exact (r.trans go).trans (reach_device rfl)
    · rw [virtioConsumeDesc_mem, ← view]
      rfl
    · rw [view] at flags
      simp [virtioConsumeDesc, flags]

/-! ## With a full fence -/

/-- When the device reads the flags, all of its stores have been delivered. -/
def Fenced (h : Handshake) (a : HandAct) : Prop :=
  a = .device → h.pc = .loadFlags → h.stores = []

instance (h : Handshake) (a : HandAct) : Decidable (Fenced h a) :=
  inferInstanceAs (Decidable (_ → _ → _))

/-- A store into the used ring. -/
def InUsed (qs : QueueState) (st : Store) : Prop :=
  qs.usedAddr.toNat + 2 ≤ st.p ∧
    st.p + st.bytes.length ≤ qs.usedAddr.toNat + (4 + 8 * qs.num.toNat)

/-- What is true of both sides if the device reads the flags behind a fence. Stores in flight are entries of
the used ring, but for the index as long as the flags are not read; the flags are clear unless the driver is
awake; and the index is the one the driver has seen when it went to sleep, unless an interrupt is on its
way. -/
structure HandInv (qs : QueueState) (h : Handshake) : Prop where
  ring : RingOk h.mem.size qs
  used : ∀ st ∈ h.stores, InUsed qs st
  entry : ∀ st ∈ h.stores, h.pc ≠ .loadFlags → qs.usedAddr.toNat + 4 ≤ st.p
  clear : h.driver ≠ .awake → virtioRead16 h.mem qs.availAddr &&& 1 = 0
  news : h.driver = .asleep → h.raised = false →
    usedIdx h.mem qs = h.seen ∨ h.pc = .loadFlags ∨ h.pc = .raise

/-- The stores that are on their way after one more. -/
lemma mem_push {width : Nat} {addr : UInt64} {bytes : List UInt8}
    (hs : st ∈ (h.push width addr bytes).stores) : st ∈ h.stores ∨ st = ⟨addr.toNat, bytes⟩ := by
  simp only [Handshake.push] at hs
  cases e : alignedPtr h.mem width addr with
  | none =>
    rw [e] at hs
    exact .inl hs
  | some p =>
    rw [e] at hs
    obtain ⟨rfl, -, -⟩ := alignedPtr_eq_some e
    simpa using hs

/-- A store into the used ring does not change the flags. -/
lemma flags_store (ok : RingOk m.size qs) (hs : InUsed qs st) :
    virtioRead16 (m.store st.p st.bytes) qs.availAddr = virtioRead16 m qs.availAddr := by
  have ha := ok.avail
  have al := ok.availAligned
  have apart := ok.availUsed
  obtain ⟨lo, hi⟩ := hs
  simp only [Apart] at apart
  rw [virtioRead16_eq al (by simp; omega), virtioRead16_eq al (by omega)]
  simp only [GuestMemMap.load, GuestMemMap.store]
  rw [slice_splice_disjoint (by omega)]

/-- A store of an entry does not change the index. -/
lemma usedIdx_store (ok : RingOk m.size qs) (hs : qs.usedAddr.toNat + 4 ≤ st.p) :
    usedIdx (m.store st.p st.bytes) qs = usedIdx m qs := by
  have hu := ok.used
  have al := ok.usedAligned
  have idx := usedIdxAddr_toNat ok
  simp only [usedIdx]
  rw [virtioRead16_eq (by omega) (by simp; omega), virtioRead16_eq (by omega) (by omega), idx]
  simp only [GuestMemMap.load, GuestMemMap.store]
  rw [slice_splice_disjoint (by omega)]

/-- The flags that the driver has set are there. -/
lemma flags_setFlags {flags : UInt16} (ok : RingOk m.size qs) :
    virtioRead16 (setFlags m qs flags) qs.availAddr = flags := by
  have ha := ok.avail
  have al := ok.availAligned
  rw [virtioRead16_eq al (by simp only [setFlags, GuestMemMap.store_size]; omega)]
  simp only [setFlags, GuestMemMap.load, GuestMemMap.store]
  rw [slice_splice_of_length leBytes_length, ofNat_leBytes]

/-- No store is on its way at the beginning. -/
lemma handInv_init {seen : UInt16} (ok : RingOk m.size qs) : HandInv qs (handInit m seen) :=
  ⟨ok, by simp [handInit], by simp [handInit], by simp [handInit], by simp [handInit]⟩

/-- Both sides go on, and memory, stores and sleep are as before. -/
lemma HandInv.goOn {pc : ConsumePc} (i : HandInv qs h) (pc₀ : h.pc ≠ .loadFlags) (pc₁ : h.pc ≠ .raise) :
    HandInv qs { h with pc } := by
  refine ⟨i.ring, i.used, ?_, i.clear, ?_⟩
  · intro st hs _
    exact i.entry st hs pc₀
  · intro asleep quiet
    obtain e | e | e := i.news asleep quiet
    · exact .inl e
    · exact absurd e pc₀
    · exact absurd e pc₁

/-- The device stores an entry, or the index. -/
lemma HandInv.store {width : Nat} {addr : UInt64} {bytes : List UInt8} {pc : ConsumePc} (i : HandInv qs h)
    (pc₀ : h.pc ≠ .loadFlags) (pc₁ : h.pc ≠ .raise) (used : InUsed qs ⟨addr.toNat, bytes⟩)
    (entry : pc ≠ .loadFlags → qs.usedAddr.toNat + 4 ≤ addr.toNat) :
    HandInv qs { h.push width addr bytes with pc } := by
  refine ⟨by simpa using i.ring, ?_, ?_, by simpa using i.clear, ?_⟩
  · intro st hs
    obtain hs | rfl := mem_push hs
    · exact i.used st hs
    · exact used
  · intro st hs ne
    obtain hs | rfl := mem_push hs
    · exact i.entry st hs pc₀
    · exact entry ne
  · intro asleep quiet
    have seen : ∀ w a b, (h.push w a b).seen = h.seen := by
      intro w a b
      simp only [Handshake.push]
      cases alignedPtr h.mem w a <;> rfl
    simp only [push_mem, push_driver, push_raised, seen] at asleep quiet ⊢
    obtain e | e | e := i.news asleep quiet
    · exact .inl e
    · exact absurd e pc₀
    · exact absurd e pc₁

/-- One access of the device. -/
lemma handInv_device (i : HandInv qs h) (fence : h.pc = .loadFlags → h.stores = [])
    (e : consumeStep qs h = .ok h') : HandInv qs h' := by
  have hu := i.ring.used
  have hm := h.mem.size_lt
  have idx := usedIdxAddr_toNat i.ring
  cases pc : h.pc with
  | idle => simp [consumeStep, pc] at e
  | readIdx d len =>
    simp only [consumeStep, pc] at e
    obtain rfl := Except.ok.inj e
    exact i.goOn (by simp [pc]) (by simp [pc])
  | storeId d len index =>
    have ring : (usedRingAddr qs index).toNat = _ := usedRingAddr_toNat i.ring
    have lt := Nat.mod_lt index.toNat i.ring.num_pos
    simp only [consumeStep, pc] at e
    obtain rfl := Except.ok.inj e
    refine i.store (by simp [pc]) (by simp [pc]) ⟨?_, ?_⟩ ?_
    · simp only
      omega
    · simp only [leBytes_length]
      omega
    · intro _
      omega
  | storeLen len index =>
    have ring : (usedRingAddr qs index).toNat = _ := usedRingAddr_toNat i.ring
    have lt := Nat.mod_lt index.toNat i.ring.num_pos
    have ring4 : (usedRingAddr qs index + 4).toNat = (usedRingAddr qs index).toNat + 4 := by
      rw [show (4 : UInt64) = .ofNat 4 from rfl]
      exact toNat_add_ofNat (by omega)
    simp only [consumeStep, pc] at e
    obtain rfl := Except.ok.inj e
    refine i.store (by simp [pc]) (by simp [pc]) ⟨?_, ?_⟩ ?_
    · simp only
      omega
    · simp only [leBytes_length]
      omega
    · intro _
      omega
  | storeIdx index =>
    simp only [consumeStep, pc] at e
    obtain rfl := Except.ok.inj e
    refine i.store (by simp [pc]) (by simp [pc]) ⟨?_, ?_⟩ (by simp)
    · simp only
      omega
    · have pos := i.ring.num_pos
      simp only [leBytes_length]
      omega
  | loadFlags =>
    -- behind the fence the device sees the flags as they are in memory
    have none := fence pc
    have view : h.view = h.mem := by rw [Handshake.view, none]; rfl
    simp only [consumeStep, pc, view] at e
    obtain rfl := Except.ok.inj e
    refine ⟨i.ring, i.used, ?_, i.clear, ?_⟩
    · intro st hs
      rw [none] at hs
      cases hs
    · intro asleep quiet
      have clear := i.clear (by rw [show h.driver = .asleep from asleep]; simp)
      rw [if_neg (by rw [clear]; simp)]
      exact .inr (.inr rfl)
  | raise =>
    simp only [consumeStep, pc] at e
    obtain rfl := Except.ok.inj e
    refine ⟨i.ring, i.used, ?_, i.clear, by simp⟩
    intro st hs _
    exact i.entry st hs (by simp [pc])

/-- One step of either side. -/
lemma handInv_step (i : HandInv qs h) (fenced : Fenced h a) (e : handStep qs h a = .ok h') :
    HandInv qs h' := by
  cases a with
  | consume d len =>
    simp only [handStep] at e
    split at e
    · rename_i pc
      obtain rfl := Except.ok.inj e
      exact i.goOn (by simp [pc]) (by simp [pc])
    · cases e
  | device => exact handInv_device i (fenced rfl) e
  | deliver =>
    simp only [handStep] at e
    split at e
    · cases e
    · rename_i st l stores
      obtain rfl := Except.ok.inj e
      have mem : st ∈ h.stores := by simp [stores]
      have rest : ∀ st' ∈ l, st' ∈ h.stores := by
        intro st' hs
        simp [stores, hs]
      refine ⟨i.ring, fun st' hs => i.used st' (rest st' hs), fun st' hs => i.entry st' (rest st' hs), ?_, ?_⟩
      · intro ne
        rw [flags_store i.ring (i.used st mem)]
        exact i.clear ne
      · intro asleep quiet
        by_cases pc : h.pc = .loadFlags
        · exact .inr (.inl pc)
        · rw [usedIdx_store i.ring (i.entry st mem pc)]
          exact i.news asleep quiet
  | suppress =>
    simp only [handStep] at e
    split at e
    · rename_i awake
      obtain rfl := Except.ok.inj e
      exact ⟨i.ring, i.used, i.entry, by simp [awake], by simp [awake]⟩
    · cases e
  | poll =>
    simp only [handStep] at e
    split at e
    · rename_i awake
      obtain rfl := Except.ok.inj e
      exact ⟨i.ring, i.used, i.entry, i.clear, by simp [awake]⟩
    · cases e
  | clear =>
    simp only [handStep] at e
    split at e
    · obtain rfl := Except.ok.inj e
      refine ⟨i.ring, i.used, i.entry, ?_, by simp⟩
      intro _
      rw [flags_setFlags i.ring]
      rfl
    · cases e
  | reread =>
    simp only [handStep] at e
    split at e
    · rename_i reread
      obtain rfl := Except.ok.inj e
      refine ⟨i.ring, i.used, i.entry, fun _ => i.clear (by rw [reread]; simp), ?_⟩
      intro asleep _
      left
      simp only at asleep
      split at asleep
      · assumption
      · cases asleep
    · cases e
  | interrupt =>
    simp only [handStep] at e
    split at e
    · obtain rfl := Except.ok.inj e
      exact ⟨i.ring, i.used, i.entry, by simp, by simp⟩
    · cases e

/-- As long as the device reads the flags only after its stores were delivered, no interrupt is lost. -/
theorem no_lost_interrupt (m : GuestMemMap) (qs : QueueState) (seen : UInt16) (ok : RingOk m.size qs)
    (r : Reach (handStep qs) Fenced (handInit m seen) h) : ¬ Lost qs h := by
  have i : HandInv qs h := by
    refine r.invariant (I := HandInv qs) (handInv_init ok) ?_
    intro h a h' _ i fenced e
    exact handInv_step i fenced e
  rintro ⟨-, pc, asleep, unseen, quiet⟩
  obtain e | e | e := i.news asleep quiet
  · exact unseen e
  · rw [pc] at e
    cases e
  · rw [pc] at e
    cases e

/-- A queue of two entries with its rings at 256 and 512. -/
def smallQueue : QueueState :=
  ⟨1, 2, 0, 0, 256, 512, false⟩

/-- An entry is published while the driver goes to sleep, and the interrupt wakes it up. -/
theorem no_lost_interrupt_wakes :
    ∃ h, Reach (handStep smallQueue) Fenced (handInit (.onePage fun _ => 0) 0) h ∧
      (h.driver = .asleep ∧ h.raised = true ∧ usedIdx h.mem smallQueue = 1) ∧ ¬ Lost smallQueue h := by
  have ok : RingOk (GuestMemMap.onePage fun _ => 0).size smallQueue := by decide +kernel
  obtain ⟨h, r, t⟩ := Reach.of_test (handStep smallQueue) Fenced .blocked (handInit (.onePage fun _ => 0) 0)
    [.suppress, .consume 0 8, .device, .device, .device, .device, .clear, .reread, .deliver, .deliver,
      .deliver, .device, .device]
    (fun h => decide (h.driver = .asleep ∧ h.raised = true ∧ usedIdx h.mem smallQueue = 1))
    (by decide +kernel)
  exact ⟨h, r, of_decide_eq_true t, no_lost_interrupt _ _ _ ok r⟩

/-- The device reads the flags, which suppress interrupts, while the index is still in flight. The driver
clears them, sees no new entry and sleeps. -/
theorem interrupt_lost :
    ∃ h, RingOk (GuestMemMap.onePage fun _ => 0).size smallQueue ∧
      Reach (handStep smallQueue) always (handInit (.onePage fun _ => 0) 0) h ∧ Lost smallQueue h := by
  have ok : RingOk (GuestMemMap.onePage fun _ => 0).size smallQueue := by decide +kernel
  obtain ⟨h, r, t⟩ := Reach.of_test (handStep smallQueue) always .blocked (handInit (.onePage fun _ => 0) 0)
    [.suppress, .consume 0 8, .device, .device, .device, .device, .device, .clear, .reread, .deliver,
      .deliver, .deliver]
    (fun h => decide (Lost smallQueue h)) (by decide +kernel)
  exact ⟨h, ok, r, of_decide_eq_true t⟩

end Mvvmm.Virtio
