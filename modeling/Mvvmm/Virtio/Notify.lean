import Mvvmm.Virtio.Driver
import Mvvmm.Virtio.Machine

/-!
# Notifications

A driver that has made heads available writes the number of its queue to QUEUE_NOTIFY. KVM turns this into
an increment of the eventfd of the queue. `virtio_ioeventfd_poll_thread` polls the eventfds of all queues,
reads those that are ready, which clears them, and calls `queue_notify` under `s->lock` for each. Other
threads may call `queue_notify` as well.

`PollMachine` is a device with its poll thread and the driver of one of its queues. The device itself takes
the steps of an arbitrary function `step`, of which only `Serves` is used: what a step is for `queue_notify`
(`NotifyEffect`), and that it stores nothing but what `stores` lists. The guest does not set up the queue anew while
its driver uses it and does not store into the part of its available ring that is still to be read, and what it
offers to the device for writing does not lie there (`Conforms`). A counter that is cleared before the ring is read
loses nothing (`delivered_run`): a head that is made available too late for the call of `queue_notify` is
notified after the clear.
-/

namespace Mvvmm.Virtio
open Bytes CMem Run Ring

variable {B W α : Type} {recv : DeviceRecv B} {c c' : Machine B W} {s s' : VirtioDevice B}
  {q i : Fin maxQueue}

/-- What a step of a device is for `queue_notify`. Something else happens, after which a call of it may begin;
or a call goes on with a round, or ends. -/
inductive NotifyEffect (recv : DeviceRecv B) (c : Machine B W) : Machine B W → Prop where
  | other {s : VirtioDevice B} (popped : s.popped = c.s.popped) (size : s.mem.size = c.s.mem.size) :
    NotifyEffect recv c { c with s }
  | start {s : VirtioDevice B} {q : Fin maxQueue} {w : Option W} (idle : c.ctl = .idle)
    (popped : s.popped = c.s.popped) (size : s.mem.size = c.s.mem.size) :
    NotifyEffect recv c (Machine.startNotify { c with s } q w)
  | round {q availIdx w go s'} (ctl : c.ctl = .notify q availIdx w)
    (ne : (c.s.queue q).lastAvailIdx ≠ availIdx) (eff : RoundEffect recv c.s q go s') :
    NotifyEffect recv c ⟨s', if go then c.ctl else .idle⟩
  | done {q availIdx w} (ctl : c.ctl = .notify q availIdx w)
    (e : (c.s.queue q).lastAvailIdx = availIdx) : NotifyEffect recv c { c with ctl := .idle }

/-- A step of a device, as far as `queue_notify` is concerned. -/
lemma DevEffect.notify {a : DevAct} (h : DevEffect recv c a c') : NotifyEffect recv c c' := by
  cases h with
  | guest _ => exact .other rfl rfl
  | mmioRead _ _ => exact .other rfl rfl
  | mmioWrite _ _ =>
    obtain ⟨mem, -, popped, -, -⟩ := virtioMmioWriteReg_untouched (s := c.s)
    exact .other popped (by rw [mem])
  | start idle _ => exact .start idle rfl rfl
  | round ctl ne eq => exact .round ctl ne (queueNotifyRound_effect eq)
  | done ctl e => exact .done ctl e

/-- The device never stops the loop, and leaves the queues and their account alone. -/
def RecvKeeps (recv : DeviceRecv B) : Prop :=
  ∀ s q descIdx readSize writeSize ret s', recv s q descIdx readSize writeSize = .ok (ret, s') →
    0 ≤ ret ∧ s'.queue = s.queue ∧ s'.popped = s.popped ∧ s'.mem.size = s.mem.size

/-- A round of `queue_notify` pops the next head, whatever becomes of it. -/
lemma RoundEffect.pops {go : Bool} (keeps : RecvKeeps recv) (h : RoundEffect recv s q go s') :
    go = true ∧ s'.popped = (q, nextHead s q) :: s.popped ∧ s'.mem.size = s.mem.size ∧
      s'.queue = Function.update s.queue q (s.queue q).advanced := by
  cases h with
  | skip _ => exact ⟨rfl, rfl, rfl, rfl⟩
  | @pass readSize writeSize ret s₁ _ eq _ =>
    obtain ⟨-, queue, popped, size⟩ := keeps _ _ _ _ _ _ _ eq
    refine ⟨rfl, by rw [← popped]; rfl, size, ?_⟩
    simp only [advance, VirtioDevice.updQueue, queue]
    rfl
  | stop _ eq neg => exact absurd (keeps _ _ _ _ _ _ _ eq).1 (by omega)

/-- The heads that `queue_notify` has popped from a queue, oldest first. -/
def poppedHeads (s : VirtioDevice B) (q : Fin maxQueue) : List Nat :=
  ((s.popped.filter fun h => h.1 = q).map Prod.snd).reverse

/-- The heads popped are the same as long as nothing is popped. -/
lemma poppedHeads_congr (h : s'.popped = s.popped) : poppedHeads s' q = poppedHeads s q := by
  rw [poppedHeads, h, poppedHeads]

/-- A pop adds the head to its queue. -/
lemma poppedHeads_self {head : Nat} (h : s'.popped = (q, head) :: s.popped) :
    poppedHeads s' q = poppedHeads s q ++ [head] := by
  simp [poppedHeads, h]

/-- A pop on another queue. -/
lemma poppedHeads_other {head : Nat} (h : s'.popped = (i, head) :: s.popped) (ne : i ≠ q) :
    poppedHeads s' q = poppedHeads s q := by
  simp [poppedHeads, h, ne]

/-! ## The poll thread -/

/-- Where the poll thread is in `virtio_ioeventfd_poll_thread`; `ready` are the eventfds that the last `poll`
has reported. -/
inductive PollPc where
  | poll
  /-- At the head of the loop over the eventfds. -/
  | scan (ready : Fin maxQueue → Bool) (i : Nat)
  | read (ready : Fin maxQueue → Bool) (i : Fin maxQueue)
  /-- Before it looks for the queue of the eventfd. -/
  | map (ready : Fin maxQueue → Bool) (i : Fin maxQueue)
  | lock (ready : Fin maxQueue → Bool) (i q : Fin maxQueue)
  /-- In `queue_notify`. -/
  | notify (ready : Fin maxQueue → Bool) (i q : Fin maxQueue)

/-- The thread is between its read of the eventfd of a queue and the end of the call that follows. -/
def PollPc.serving (q : Fin maxQueue) : PollPc → Bool
  | .map _ i | .lock _ i _ | .notify _ i _ => i = q
  | _ => false

/-- The thread is in `queue_notify`. -/
def PollPc.inNotify : PollPc → Bool
  | .notify .. => true
  | _ => false

/-- The thread has left `queue_notify` if the lock is free. -/
def PollPc.resume (ctl : Ctl W) : PollPc → PollPc
  | .notify ready i q => if ctl.queue?.isNone then .scan ready (i + 1) else .notify ready i q
  | pc => pc

/-- A device, its poll thread, and the driver of a queue: the counters of the eventfds, the heads the driver
has made available, and how many there were at its last notification. -/
structure PollMachine (B W : Type) where
  c : Machine B W
  counter : Fin maxQueue → Nat
  poll : PollPc
  avail : List Nat
  notified : Nat

/-- What happens to a device, its poll thread and the driver. -/
inductive PollAct (α : Type) where
  | back (a : α)
  /-- The driver makes the heads in the next cells of the available ring available. -/
  | publish (k : Nat)
  /-- The driver notifies a queue. -/
  | kick (q : Fin maxQueue)
  /-- The poll thread goes on. -/
  | poll
  deriving DecidableEq, Repr

/-- C `virtio_ioeventfd_poll_thread`, one step outside `queue_notify`; `fd` are the descriptors of the eventfds.
A `poll` that times out changes nothing. -/
def virtioIoeventfdPollThread (fd : Fin maxQueue → Nat) (t : PollMachine B W) :
    Except Stop (PollMachine B W) :=
  match t.poll with
  | .poll =>
    if ∃ i, 0 < t.counter i then
      return { t with poll := .scan (fun i => 0 < t.counter i) 0 }
    else
      .error .blocked
  | .scan ready i =>
    if h : i < maxQueue then
      return { t with poll := if ready ⟨i, h⟩ then .read ready ⟨i, h⟩ else .scan ready (i + 1) }
    else
      return { t with poll := .poll }
  | .read ready i => return { t with counter := Function.update t.counter i 0, poll := .map ready i }
  | .map ready i =>
    match (List.finRange maxQueue).find? fun q => fd q = fd i with
    | some q => return { t with poll := .lock ready i q }
    | none => return { t with poll := .scan ready (i + 1) }
  | .lock ready i q =>
    if t.c.ctl.queue?.isNone then
      let c := t.c.startNotify q none
      return { t with c, poll := PollPc.resume c.ctl (.notify ready i q) }
    else
      .error .blocked
  | .notify .. => .error .blocked

/-- A step of a device, its poll thread and the driver of a queue. -/
def pollStep (step : Machine B W → α → Except Stop (Machine B W)) (fd : Fin maxQueue → Nat)
    (q : Fin maxQueue) (t : PollMachine B W) : PollAct α → Except Stop (PollMachine B W)
  | .back a => do
    let c ← step t.c a
    return { t with c, poll := t.poll.resume c.ctl }
  | .publish k =>
    let qs := t.c.s.queue q
    let mem := publishAvail t.c.s.mem qs (.ofNat (t.avail.length + k))
    return { t with
      c := { t.c with s := { t.c.s with mem } }
      avail := t.avail ++ nextHeads t.c.s.mem qs t.avail.length k }
  | .kick i =>
    return { t with
      counter := Function.update t.counter i (t.counter i + 1)
      notified := if i = q then t.avail.length else t.notified }
  | .poll => virtioIoeventfdPollThread fd t

/-- A step that leaves the queue to its driver: unless a head is popped the queue stays as it is,
and no store hits the part of the available ring that is still to be read. -/
def Leaves (q : Fin maxQueue) (t : PollMachine B W) (c : Machine B W) : Prop :=
  (c.s.popped = t.c.s.popped → c.s.queue q = t.c.s.queue q) ∧
    KeepsAvail t.c.s.mem c.s.mem (t.c.s.queue q) t.avail.length (poppedHeads t.c.s q).length

instance (q : Fin maxQueue) (t : PollMachine B W) (c : Machine B W) : Decidable (Leaves q t c) :=
  inferInstanceAs (Decidable (_ ∧ _))

/-- What the guest does. Its own stores and writes to registers leave the queue to the driver (`stores` says `none` of these).
When the device stores to guest memory, it is not told to store to the part of the available ring that is still to be
read. -/
def Conforms (step : Machine B W → α → Except Stop (Machine B W)) (stores : Machine B W → α → Option (List Nat))
    (q : Fin maxQueue) (t : PollMachine B W) : PollAct α → Prop
  | .back a =>
    match stores t.c a with
    | none => ∀ c ∈ (step t.c a).toOption, Leaves q t c
    | some l => ∀ x ∈ unread (t.c.s.queue q) t.avail.length (poppedHeads t.c.s q).length, x ∉ l
  | .publish k => t.avail.length + k ≤ (poppedHeads t.c.s q).length + (t.c.s.queue q).num.toNat
  | .kick _ | .poll => True

instance (step : Machine B W → α → Except Stop (Machine B W)) (stores : Machine B W → α → Option (List Nat))
    (q : Fin maxQueue) (t : PollMachine B W) : (a : PollAct α) → Decidable (Conforms step stores q t a)
  | .back a =>
    match h : stores t.c a with
    | none => decidable_of_iff (∀ c ∈ (step t.c a).toOption, Leaves q t c) (by simp only [Conforms, h])
    | some l =>
      decidable_of_iff (∀ x ∈ unread (t.c.s.queue q) t.avail.length (poppedHeads t.c.s q).length, x ∉ l)
        (by simp only [Conforms, h])
  | .publish _ => inferInstanceAs (Decidable (_ ≤ _))
  | .kick _ | .poll => .isTrue trivial

/-- The queue is set up and nothing has happened on it. -/
@[mk_iff]
structure Fresh (q : Fin maxQueue) (c : Machine B W) : Prop where
  idle : c.ctl.queue? = none
  ring : RingOk c.s.mem.size (c.s.queue q)
  availIdx : virtioRead16 c.s.mem ((c.s.queue q).availAddr + 2) = 0
  last : (c.s.queue q).lastAvailIdx = 0
  popped : poppedHeads c.s q = []

instance (q : Fin maxQueue) (c : Machine B W) : Decidable (Fresh q c) :=
  decidable_of_iff' _ (fresh_iff q c)

/-- The poll thread has just started. -/
def pollInit (c : Machine B W) : PollMachine B W :=
  ⟨c, fun _ => 0, .poll, [], 0⟩

/-- What is popped are the first heads made available, each once and in order. If the eventfd is clear and not
being served, these are all heads that were available at the last notification. -/
def Delivered (q : Fin maxQueue) (t : PollMachine B W) : Prop :=
  poppedHeads t.c.s q <+: t.avail ∧
    (t.counter q = 0 → t.poll.serving q = false → t.notified ≤ (poppedHeads t.c.s q).length)

/-- What is used of a device: what its steps are for `queue_notify`, and that a step that is not one of the guest stores
nothing but what is listed and leaves a queue that is not left to the backend alone, unless it pops a head. `J` is an
invariant of the device that does not depend on guest memory. -/
structure Serves (step : Machine B W → α → Except Stop (Machine B W)) (stores : Machine B W → α → Option (List Nat))
    (recv : DeviceRecv B) (J : VirtioDevice B → Prop) : Prop where
  keeps : RecvKeeps recv
  effect : ∀ {c a c'}, step c a = .ok c' → NotifyEffect recv c c'
  invariant : ∀ {c a c'}, J c.s → step c a = .ok c' → J c'.s
  memory : ∀ {s mem}, J s → J { s with mem }
  frame : ∀ {c a c' l}, J c.s → stores c a = some l → step c a = .ok c' →
    ∀ x ∉ l, c'.s.mem.hostMem x = c.s.mem.hostMem x
  queue : ∀ {c a c' l q}, J c.s → (c.s.queue q).manualRecv = false → stores c a = some l → step c a = .ok c' →
    c'.s.popped = c.s.popped → c'.s.queue q = c.s.queue q

/-! ## The invariant -/

variable {step : Machine B W → α → Except Stop (Machine B W)} {stores : Machine B W → α → Option (List Nat)}
  {J : VirtioDevice B → Prop} {fd : Fin maxQueue → Nat} {t t' : PollMachine B W} {a : PollAct α}

/-- What holds in every state of a run. A call of `queue_notify` goes up to some number of heads, and a call of
the poll thread up to the last notification unless there was another one since its read. -/
structure PollInv (q : Fin maxQueue) (t : PollMachine B W) : Prop where
  ring : AvailRing t.c.s.mem (t.c.s.queue q) t.avail (poppedHeads t.c.s q).length
  order : poppedHeads t.c.s q <+: t.avail
  auto : (t.c.s.queue q).manualRecv = false
  notified : t.notified ≤ t.avail.length
  seen : ∀ idx w, t.c.ctl = .notify q idx w → ∃ n, idx = .ofNat n ∧ (poppedHeads t.c.s q).length ≤ n ∧
    n ≤ t.avail.length ∧ (t.poll.inNotify = true → t.counter q = 0 → t.notified ≤ n)
  locking : ∀ ready i i', t.poll = .lock ready i i' → i' = i
  calling : ∀ ready i i', t.poll = .notify ready i i' → t.c.ctl.queue? = some i
  served : t.counter q = 0 → t.poll.serving q = false → t.notified ≤ (poppedHeads t.c.s q).length

/-- The invariant says that nothing is lost. -/
lemma PollInv.delivered (h : PollInv q t) : Delivered q t :=
  ⟨h.order, h.served⟩

/-- The invariant holds when the queue has been set up. -/
lemma pollInv_init (fresh : Fresh q c) (auto : (c.s.queue q).manualRecv = false) :
    PollInv q (pollInit c) where
  ring := by
    rw [show (pollInit c).c = c from rfl, fresh.popped]
    exact ⟨fresh.ring, fresh.availIdx, fresh.last, Nat.zero_le _, le_rfl, .empty⟩
  order := by
    rw [show (pollInit c).c = c from rfl, fresh.popped]
    exact List.nil_prefix
  auto := auto
  notified := le_rfl
  seen := by
    intro idx w e
    have idle := fresh.idle
    rw [show c.ctl = .notify q idx w from e] at idle
    cases idle
  locking := by simp [pollInit]
  calling := by simp [pollInit]
  served := fun _ _ => Nat.zero_le _

/-- The poll thread stays where it is if it is not in `queue_notify`, or still in it. -/
lemma PollPc.resume_eq {pc : PollPc} {ctl : Ctl W} (h : pc.inNotify = true → ctl.queue? ≠ none) :
    pc.resume ctl = pc := by
  cases pc with
  | notify ready i i' =>
    have busy := h rfl
    cases ctl with
    | idle => exact absurd rfl busy
    | notify _ _ _ => rfl
  | _ => rfl

/-- While the poll thread is in `queue_notify`, somebody serves a queue. -/
lemma PollInv.inNotify (h : PollInv q t) (e : t.poll.inNotify = true) : t.c.ctl.queue? ≠ none := by
  cases pc : t.poll with
  | notify ready i i' => rw [h.calling _ _ _ pc]; simp
  | _ => simp [pc, PollPc.inNotify] at e

section Steps
variable (h : PollInv q t)
include h

/-- Something happens that leaves the queue to its driver. -/
lemma PollInv.keep (popped : s.popped = t.c.s.popped) (size : s.mem.size = t.c.s.mem.size)
    (leaves : Leaves q t { t.c with s }) : PollInv q { t with c := { t.c with s } } := by
  have heads : poppedHeads s q = poppedHeads t.c.s q := poppedHeads_congr popped
  have queue : s.queue q = t.c.s.queue q := leaves.1 popped
  constructor
  case ring =>
    simp only [heads, queue]
    exact h.ring.keep size leaves.2
  case order => simpa only [heads] using h.order
  case auto => simpa only [queue] using h.auto
  case notified => exact h.notified
  case seen => simpa only [heads] using h.seen
  case locking => exact h.locking
  case calling => exact h.calling
  case served => simpa only [heads] using h.served

/-- A call of `queue_notify` begins: it goes up to all heads that are available. -/
lemma PollInv.start {w : Option W} {pc : PollPc} (idle : t.c.ctl = .idle)
    (calling : ∀ ready j j', pc = .notify ready j j' → (t.c.startNotify i w).ctl.queue? = some j)
    (locking : ∀ ready j j', pc = .lock ready j j' → j' = j)
    (served : pc.serving q = false → t.poll.serving q = false) :
    PollInv q { t with c := t.c.startNotify i w, poll := pc } := by
  constructor
  case ring => simpa using h.ring
  case order => simpa using h.order
  case auto => simpa using h.auto
  case notified => exact h.notified
  case seen =>
    intro idx w' e
    simp only [Machine.startNotify] at e
    split at e
    · rw [idle] at e
      cases e
    · cases e
      refine ⟨t.avail.length, h.ring.availCount, ?_, le_rfl, fun _ _ => h.notified⟩
      simpa using h.ring.popped_le
  case locking => exact locking
  case calling => exact calling
  case served =>
    intro zero out
    simpa using h.served zero (served out)

/-- A call of `queue_notify` pops a head. -/
lemma PollInv.round {idx : UInt16} {w : Option W} {go : Bool} (keeps : RecvKeeps recv)
    (ctl : t.c.ctl = .notify i idx w) (ne : (t.c.s.queue i).lastAvailIdx ≠ idx)
    (eff : RoundEffect recv t.c.s i go s) (leaves : Leaves q t ⟨s, if go then t.c.ctl else .idle⟩) :
    PollInv q { t with c := ⟨s, if go then t.c.ctl else .idle⟩ } := by
  obtain ⟨rfl, popped, size, queue⟩ := eff.pops keeps
  simp only [if_true]
  have ring := h.ring.keep size leaves.2
  by_cases hi : i = q
  · subst hi
    obtain ⟨n, rfl, le, n_le, cover⟩ := h.seen idx w ctl
    have lt : (poppedHeads t.c.s i).length < n := (h.ring.last_ne le n_le).mp ne
    have heads := poppedHeads_self popped
    have len : (poppedHeads s i).length = (poppedHeads t.c.s i).length + 1 := by simp [heads]
    have mine : s.queue i = (t.c.s.queue i).advanced := by simp [queue]
    constructor
    case ring =>
      simp only [len, mine]
      exact ring.pop (lt.trans_le n_le)
    case order =>
      simp only [heads]
      exact Fifo.append_next h.order (h.ring.next (lt.trans_le n_le))
    case auto =>
      simp only [mine]
      exact h.auto
    case notified => exact h.notified
    case seen =>
      intro idx' w' e
      rw [ctl] at e
      cases e
      exact ⟨n, rfl, by simp only [len]; omega, n_le, cover⟩
    case locking => exact h.locking
    case calling => exact h.calling
    case served =>
      intro zero out
      simp only [len]
      exact (h.served zero out).trans (Nat.le_succ _)
  · have heads := poppedHeads_other popped hi
    have same : s.queue q = t.c.s.queue q := by
      rw [queue, Function.update_of_ne (Ne.symm hi)]
    constructor
    case ring =>
      simp only [heads, same]
      exact ring
    case order => simpa only [heads] using h.order
    case auto => simpa only [same] using h.auto
    case notified => exact h.notified
    case seen =>
      intro idx' w' e
      rw [ctl] at e
      cases e
      exact absurd rfl hi
    case locking => exact h.locking
    case calling => exact h.calling
    case served => simpa only [heads] using h.served

/-- A call of `queue_notify` ends: it has popped all that it was to pop. -/
lemma PollInv.done {idx : UInt16} {w : Option W} (ctl : t.c.ctl = .notify i idx w)
    (e : (t.c.s.queue i).lastAvailIdx = idx) :
    PollInv q { t with c := (⟨t.c.s, .idle⟩ : Machine B W), poll := t.poll.resume (.idle : Ctl W) } := by
  refine ⟨h.ring, h.order, h.auto, h.notified, by simp, ?_, ?_, ?_⟩
  · intro ready j j' pc
    cases at' : t.poll with
    | lock r k k' =>
      rw [at'] at pc
      cases pc
      exact h.locking _ _ _ at'
    | _ =>
      rw [at'] at pc
      cases pc
  · intro ready j j' pc
    cases at' : t.poll <;> rw [at'] at pc <;> cases pc
  · intro zero out
    by_cases before : t.poll.serving q = false
    · exact h.served zero before
    · cases at' : t.poll with
      | notify ready j j' =>
        -- the call was for the queue, and there was no notification since
        obtain rfl : j = q := by simpa [at', PollPc.serving] using before
        have mine := h.calling _ _ _ at'
        rw [ctl] at mine
        obtain rfl : i = j := by simpa [Ctl.queue?] using mine
        obtain ⟨n, rfl, le, n_le, cover⟩ := h.seen idx w ctl
        have all : ¬ (poppedHeads t.c.s i).length < n :=
          fun lt => (h.ring.last_ne le n_le).mpr lt e
        exact (cover (by rw [at']; rfl) zero).trans (not_lt.mp all)
      | map ready j | lock ready j j' => simp_all [PollPc.resume]
      | _ => simp [at', PollPc.serving] at before

/-- A step of the device. -/
lemma PollInv.back (keeps : RecvKeeps recv) (eff : NotifyEffect recv t.c c) (leaves : Leaves q t c) :
    PollInv q { t with c, poll := t.poll.resume c.ctl } := by
  cases eff with
  | other popped size =>
    rw [PollPc.resume_eq h.inNotify]
    exact h.keep popped size leaves
  | @start s i w idle popped size =>
    have out : t.poll.inNotify = true → False := by
      intro e
      exact h.inNotify e (by rw [idle]; rfl)
    rw [PollPc.resume_eq fun e => (out e).elim]
    have kept := h.keep (s := s) popped size (by simpa [Leaves] using leaves)
    refine kept.start idle ?_ kept.locking fun e => e
    intro ready j j' e
    exact (out (by rw [e]; rfl)).elim
  | @round i idx w go s' ctl ne eff =>
    have go' := (eff.pops keeps).1
    rw [PollPc.resume_eq (by simpa [go'] using h.inNotify)]
    exact h.round keeps ctl ne eff leaves
  | done ctl e => exact h.done ctl e

/-- The driver makes heads available. -/
lemma PollInv.publish {k : Nat}
    (room : t.avail.length + k ≤ (poppedHeads t.c.s q).length + (t.c.s.queue q).num.toNat) :
    PollInv q { t with
      c := { t.c with s := { t.c.s with
        mem := publishAvail t.c.s.mem (t.c.s.queue q) (.ofNat (t.avail.length + k)) } }
      avail := t.avail ++ nextHeads t.c.s.mem (t.c.s.queue q) t.avail.length k } := by
  constructor
  case ring => exact h.ring.publish room
  case order => exact h.order.trans (List.prefix_append _ _)
  case auto => exact h.auto
  case notified =>
    rw [List.length_append]
    exact h.notified.trans (Nat.le_add_right _ _)
  case seen =>
    intro idx w e
    obtain ⟨n, hn, le, n_le, cover⟩ := h.seen idx w e
    refine ⟨n, hn, le, ?_, cover⟩
    rw [List.length_append]
    exact n_le.trans (Nat.le_add_right _ _)
  case locking => exact h.locking
  case calling => exact h.calling
  case served => exact h.served

/-- The driver notifies a queue. -/
lemma PollInv.kick :
    PollInv q { t with
      counter := Function.update t.counter i (t.counter i + 1)
      notified := if i = q then t.avail.length else t.notified } := by
  have count : Function.update t.counter i (t.counter i + 1) q = 0 → i ≠ q ∧ t.counter q = 0 := by
    intro zero
    by_cases hi : i = q
    · subst hi
      simp at zero
    · rw [Function.update_of_ne (Ne.symm hi)] at zero
      exact ⟨hi, zero⟩
  constructor
  case ring => exact h.ring
  case order => exact h.order
  case auto => exact h.auto
  case notified =>
    simp only
    split
    · exact le_rfl
    · exact h.notified
  case seen =>
    intro idx w e
    obtain ⟨n, hn, le, n_le, cover⟩ := h.seen idx w e
    refine ⟨n, hn, le, n_le, ?_⟩
    intro call zero
    obtain ⟨ne, zero⟩ := count zero
    simp only [if_neg ne]
    exact cover call zero
  case locking => exact h.locking
  case calling => exact h.calling
  case served =>
    intro zero out
    obtain ⟨ne, zero⟩ := count zero
    simp only [if_neg ne]
    exact h.served zero out

/-- The poll thread goes on without a lock, and does not leave the queue unserved. -/
lemma PollInv.move {pc : PollPc} (out : pc.inNotify = false)
    (locking : ∀ ready j j', pc = .lock ready j j' → j' = j)
    (served : pc.serving q = false → t.poll.serving q = false) : PollInv q { t with poll := pc } := by
  refine ⟨h.ring, h.order, h.auto, h.notified, ?_, locking, ?_, ?_⟩
  · intro idx w e
    obtain ⟨n, hn, le, n_le, -⟩ := h.seen idx w e
    exact ⟨n, hn, le, n_le, fun call => absurd (out.symm.trans call) (by decide)⟩
  · rintro ready j j' rfl
    cases out
  · exact fun zero quiet => h.served zero (served quiet)

/-- The poll thread goes on. -/
lemma PollInv.pollThread (inj : Function.Injective fd) (e : virtioIoeventfdPollThread fd t = .ok t') :
    PollInv q t' := by
  cases pc : t.poll with
  | poll =>
    simp only [virtioIoeventfdPollThread, pc] at e
    split at e
    · obtain rfl := Except.ok.inj e
      exact h.move rfl (by simp) (by simp [pc, PollPc.serving])
    · cases e
  | scan ready i =>
    simp only [virtioIoeventfdPollThread, pc] at e
    split at e
    · obtain rfl := Except.ok.inj e
      refine h.move ?_ ?_ (by simp [pc, PollPc.serving])
      · split <;> rfl
      · split <;> simp
    · obtain rfl := Except.ok.inj e
      exact h.move rfl (by simp) (by simp [pc, PollPc.serving])
  | read ready i =>
    simp only [virtioIoeventfdPollThread, pc] at e
    obtain rfl := Except.ok.inj e
    refine ⟨h.ring, h.order, h.auto, h.notified, ?_, by simp, by simp, ?_⟩
    · intro idx w e
      obtain ⟨n, hn, le, n_le, -⟩ := h.seen idx w e
      exact ⟨n, hn, le, n_le, by simp [PollPc.inNotify]⟩
    · intro zero out
      have ne : i ≠ q := by simpa [PollPc.serving] using out
      simp only [Function.update_of_ne (Ne.symm ne)] at zero
      exact h.served zero (by simp [pc, PollPc.serving])
  | map ready i =>
    have find : (List.finRange maxQueue).find? (fun q => fd q = fd i) = some i := by
      rw [List.find?_eq_some_iff_getElem]
      refine ⟨by simp, i, by simp, by simp, ?_⟩
      intro j hj
      simp only [List.getElem_finRange, Fin.cast_mk, Bool.not_eq_true', decide_eq_false_iff_not]
      intro e
      have := congrArg Fin.val (inj e)
      simp only at this
      omega
    simp only [virtioIoeventfdPollThread, pc, find] at e
    obtain rfl := Except.ok.inj e
    exact h.move rfl (by simp) (by simp [pc, PollPc.serving])
  | lock ready i i' =>
    obtain rfl := h.locking _ _ _ pc
    simp only [virtioIoeventfdPollThread, pc] at e
    split at e
    · rename_i free
      have idle : t.c.ctl = .idle := by
        cases ctl : t.c.ctl with
        | idle => rfl
        | notify _ _ _ => simp [ctl, Ctl.queue?] at free
      obtain rfl := Except.ok.inj e
      by_cases manual : (t.c.s.queue i').manualRecv = true
      · -- the backend serves the queue, and the call returns at once
        have ctl : (t.c.startNotify i' none).ctl = .idle := by
          rw [Machine.startNotify, if_pos manual, idle]
        simp only [ctl, PollPc.resume, Ctl.queue?, Option.isNone_none, if_true]
        refine h.start idle (by simp) (by simp) ?_
        have ne : i' ≠ q := by
          rintro rfl
          rw [h.auto] at manual
          cases manual
        simp [pc, PollPc.serving, ne]
      · have ctl : (t.c.startNotify i' none).ctl = .notify i' (availIdx t.c.s i') none := by
          rw [Machine.startNotify, if_neg manual]
        simp only [ctl, PollPc.resume, Ctl.queue?, Option.isNone_some, Bool.false_eq_true, if_false]
        refine h.start idle ?_ (by simp) (by simp [pc, PollPc.serving])
        rintro ready j j' e
        cases e
        rw [ctl]
        rfl
    · cases e
  | notify ready i i' =>
    simp only [virtioIoeventfdPollThread, pc] at e
    cases e

end Steps

/-- A step keeps the size of the guest memory. -/
lemma NotifyEffect.size (keeps : RecvKeeps recv) (h : NotifyEffect recv c c') : c'.s.mem.size = c.s.mem.size := by
  cases h with
  | other _ size => exact size
  | start _ _ size => rw [Machine.startNotify_s]; exact size
  | round _ _ eff => exact (eff.pops keeps).2.2.1
  | done _ _ => rfl

/-- If the guest conforms, every step of the device leaves the queue to its driver. -/
lemma Serves.leaves {b : α} (serves : Serves step stores recv J) (h : PollInv q t) (inv : J t.c.s)
    (guard : Conforms step stores q t (.back b)) (e : step t.c b = .ok c) : Leaves q t c := by
  simp only [Conforms] at guard
  split at guard
  · exact guard c (by rw [e]; rfl)
  · rename_i l own
    refine ⟨serves.queue inv h.auto own e, .of_unread h.ring.ring ((serves.effect e).size serves.keeps) fun x hx => ?_⟩
    exact serves.frame inv own e x (guard x hx)

/-- The poll thread does not change the device. -/
lemma virtioIoeventfdPollThread_s (e : virtioIoeventfdPollThread fd t = .ok t') : t'.c.s = t.c.s := by
  cases pc : t.poll with
  | poll | scan _ _ | map _ _ =>
    simp only [virtioIoeventfdPollThread, pc] at e
    split at e <;> cases e <;> rfl
  | read _ _ =>
    simp only [virtioIoeventfdPollThread, pc] at e
    cases e
    rfl
  | lock ready i i' =>
    simp only [virtioIoeventfdPollThread, pc] at e
    split at e
    · cases e
      exact Machine.startNotify_s
    · cases e
  | notify _ _ _ =>
    simp only [virtioIoeventfdPollThread, pc] at e
    cases e

/-- Every step keeps the invariant. -/
lemma pollInv_step (serves : Serves step stores recv J) (inj : Function.Injective fd) (h : PollInv q t) (inv : J t.c.s)
    (guard : Conforms step stores q t a) (e : pollStep step fd q t a = .ok t') : PollInv q t' ∧ J t'.c.s := by
  cases a with
  | back a =>
    obtain ⟨c, eq, e⟩ := bind_eq_ok.mp e
    obtain rfl := Except.ok.inj e
    exact ⟨h.back serves.keeps (serves.effect eq) (serves.leaves h inv guard eq), serves.invariant inv eq⟩
  | publish k =>
    obtain rfl := Except.ok.inj e
    exact ⟨h.publish guard, serves.memory inv⟩
  | kick i =>
    obtain rfl := Except.ok.inj e
    exact ⟨h.kick, inv⟩
  | poll => exact ⟨h.pollThread inj e, by rw [virtioIoeventfdPollThread_s e]; exact inv⟩

/-- In every run of a device, its poll thread and a conforming guest, no notification is lost. -/
lemma delivered_run (serves : Serves step stores recv J) (inj : Function.Injective fd) (inv : J c.s) (fresh : Fresh q c)
    (auto : (c.s.queue q).manualRecv = false)
    (r : Reach (pollStep step fd q) (Conforms step stores q) (pollInit c) t) : Delivered q t := by
  refine (r.invariant (I := fun t => PollInv q t ∧ J t.c.s) ⟨pollInv_init fresh auto, inv⟩ ?_).1.delivered
  rintro t a t' - ⟨h, inv⟩ guard e
  exact pollInv_step serves inj h inv guard e

end Mvvmm.Virtio
