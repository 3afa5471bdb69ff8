import Mvvmm.Lib.Run
import Mvvmm.Virtio.Mmio

/-!
# A device and its guest

A device together with everything that can happen to it, one action at a time. The guest stores into
its memory, reads and writes registers, and kicks a queue through the ioeventfd. A register access and
`queue_notify` run under `s->lock`; as the guest goes on running while `queue_notify` loops, the rounds
of the loop are actions of their own, and `Ctl` says whether the lock is taken and by whom. `W` is the
type of the threads of the backend that may call `queue_notify` as well.

An action that cannot be taken in a state is `.blocked`. `devStep_effect` is the inversion of the step
function, through which all invariants are proved. `queueNotify_reach` connects the rounds with the
function `queueNotify`: what it returns is what the machine reaches when the guest does nothing between.
-/

namespace Mvvmm.Virtio
open Bytes CMem Run

/-- Who holds `s->lock`: nobody, or a caller of `queue_notify`, which is in its loop. The caller is a
thread of the backend, or the guest itself. -/
inductive Ctl (W : Type) where
  | idle
  | notify (q : Fin maxQueue) (availIdx : UInt16) (caller : Option W)
  deriving DecidableEq, Repr

/-- The queue that is being processed. -/
def Ctl.queue? {W : Type} : Ctl W → Option (Fin maxQueue)
  | .idle => none
  | .notify q _ _ => some q

/-- A device and the holder of its lock. -/
structure Machine (B W : Type) where
  s : VirtioDevice B
  ctl : Ctl W

/-- What the guest and `queue_notify` do. -/
inductive DevAct where
  /-- A processor of the guest stores bytes. -/
  | guest (p : Nat) (l : List UInt8)
  /-- A register is read. -/
  | mmioRead (offset size : Nat)
  /-- A register is written. -/
  | mmioWrite (offset : Nat) (val : UInt32) (size : Nat)
  /-- The poll thread has seen a kick of the queue (C `virtio_ioeventfd_poll_thread`). -/
  | ioeventfd (q : Fin maxQueue)
  /-- `queue_notify` makes a round of its loop. -/
  | round
  /-- `queue_notify` leaves its loop. -/
  | done
  deriving DecidableEq, Repr

variable {B W : Type} {recv : DeviceRecv B} {c c' : Machine B W} {a : DevAct}

/-- The beginning of `queue_notify`, up to its loop. -/
def Machine.startNotify (c : Machine B W) (q : Fin maxQueue) (caller : Option W) : Machine B W :=
  if (c.s.queue q).manualRecv then
    c
  else
    { c with ctl := .notify q (availIdx c.s q) caller }

/-- A step of the device. -/
def devStep (recv : DeviceRecv B) (c : Machine B W) : DevAct → Except Stop (Machine B W)
  | .guest p l =>
    if p + l.length ≤ c.s.mem.size then
      return { c with s := { c.s with mem := c.s.mem.store p l } }
    else
      .error .blocked
  | .mmioRead offset size =>
    match c.ctl with
    | .idle => do
      let _ ← virtioMmioRead c.s offset size
      return c
    | .notify .. => .error .blocked
  | .mmioWrite offset val size =>
    match c.ctl with
    | .idle =>
      match notifies offset val size with
      | some q => return c.startNotify q none
      | none => return { c with s := virtioMmioWriteReg c.s offset val size }
    | .notify .. => .error .blocked
  | .ioeventfd q =>
    match c.ctl with
    | .idle => return c.startNotify q none
    | .notify .. => .error .blocked
  | .round =>
    match c.ctl with
    | .idle => .error .blocked
    | .notify q availIdx _ => do
      if (c.s.queue q).lastAvailIdx = availIdx then
        .error .blocked
      else
        let r ← queueNotifyRound recv c.s q
        return ⟨r.2, if r.1 then c.ctl else .idle⟩
  | .done =>
    match c.ctl with
    | .idle => .error .blocked
    | .notify q availIdx _ =>
      if (c.s.queue q).lastAvailIdx = availIdx then
        return { c with ctl := .idle }
      else
        .error .blocked

/-- The queue that an action notifies. -/
def DevAct.notifies? : DevAct → Option (Fin maxQueue)
  | .mmioWrite offset val size => notifies offset val size
  | .ioeventfd q => some q
  | _ => none

/-- All that a step of the device can do. -/
inductive DevEffect (recv : DeviceRecv B) (c : Machine B W) : DevAct → Machine B W → Prop where
  | guest {p l} (inside : p + l.length ≤ c.s.mem.size) :
    DevEffect recv c (.guest p l) { c with s := { c.s with mem := c.s.mem.store p l } }
  | mmioRead {offset size val} (idle : c.ctl = .idle)
    (eq : virtioMmioRead c.s offset size = .ok val) :
    DevEffect recv c (.mmioRead offset size) c
  | mmioWrite {offset val size} (idle : c.ctl = .idle) (no : notifies offset val size = none) :
    DevEffect recv c (.mmioWrite offset val size)
      { c with s := virtioMmioWriteReg c.s offset val size }
  | start {a q} (idle : c.ctl = .idle) (yes : a.notifies? = some q) :
    DevEffect recv c a (c.startNotify q none)
  | round {q availIdx w go s'} (ctl : c.ctl = .notify q availIdx w)
    (ne : (c.s.queue q).lastAvailIdx ≠ availIdx) (eq : queueNotifyRound recv c.s q = .ok (go, s')) :
    DevEffect recv c .round ⟨s', if go then c.ctl else .idle⟩
  | done {q availIdx w} (ctl : c.ctl = .notify q availIdx w)
    (e : (c.s.queue q).lastAvailIdx = availIdx) :
    DevEffect recv c .done { c with ctl := .idle }

/-- Inversion of `devStep`. -/
lemma devStep_effect (h : devStep recv c a = .ok c') : DevEffect recv c a c' := by
  cases hc : c.ctl with
  | idle =>
    cases a with
    | guest p l =>
      simp only [devStep] at h
      split at h
      · cases h
        exact .guest (by assumption)
      · cases h
    | mmioRead offset size =>
      simp only [devStep, hc] at h
      obtain ⟨val, e, h⟩ := bind_eq_ok.mp h
      cases h
      exact .mmioRead hc e
    | mmioWrite offset val size =>
      simp only [devStep, hc] at h
      split at h
      · rename_i q e
        cases h
        exact .start hc e
      · rename_i e
        cases h
        rw [← hc]
        exact .mmioWrite hc e
    | ioeventfd q =>
      simp only [devStep, hc] at h
      cases h
      exact .start hc rfl
    | round => simp [devStep, hc] at h
    | done => simp [devStep, hc] at h
  | notify q availIdx w =>
    cases a with
    | guest p l =>
      simp only [devStep] at h
      split at h
      · cases h
        exact .guest (by assumption)
      · cases h
    | mmioRead offset size => simp [devStep, hc] at h
    | mmioWrite offset val size => simp [devStep, hc] at h
    | ioeventfd q => simp [devStep, hc] at h
    | round =>
      simp only [devStep, hc] at h
      split at h
      · cases h
      · rename_i ne
        obtain ⟨⟨go, s'⟩, e, h⟩ := bind_eq_ok.mp h
        cases h
        rw [← hc]
        exact .round hc ne e
    | done =>
      simp only [devStep, hc] at h
      split at h
      · rename_i e
        cases h
        exact .done hc e
      · cases h

/-- Beginning `queue_notify` changes nothing but the holder of the lock. -/
@[simp]
lemma Machine.startNotify_s {q : Fin maxQueue} {w : Option W} : (c.startNotify q w).s = c.s := by
  simp only [Machine.startNotify]
  split <;> rfl

variable {s s' : VirtioDevice B} {q : Fin maxQueue}

/-- All that a round of `queue_notify` can do: it skips a chain of bad shape, or it hands the chain to the
device, which may stop the loop. -/
inductive RoundEffect (recv : DeviceRecv B) (s : VirtioDevice B) (q : Fin maxQueue) :
    Bool → VirtioDevice B → Prop where
  | skip (scan : getDescRwSize s.mem (s.queue q) (nextHead s q) = .ok none) :
    RoundEffect recv s q true (advance s q (nextHead s q))
  | pass {readSize writeSize ret s₁}
    (scan : getDescRwSize s.mem (s.queue q) (nextHead s q) = .ok (some (readSize, writeSize)))
    (eq : recv s q (nextHead s q) readSize writeSize = .ok (ret, s₁)) (nonneg : 0 ≤ ret) :
    RoundEffect recv s q true (advance s₁ q (nextHead s q))
  | stop {readSize writeSize ret s₁}
    (scan : getDescRwSize s.mem (s.queue q) (nextHead s q) = .ok (some (readSize, writeSize)))
    (eq : recv s q (nextHead s q) readSize writeSize = .ok (ret, s₁)) (neg : ret < 0) :
    RoundEffect recv s q false s₁

/-- Inversion of `queueNotifyRound`. -/
lemma queueNotifyRound_effect {go : Bool} (h : queueNotifyRound recv s q = .ok (go, s')) :
    RoundEffect recv s q go s' := by
  simp only [queueNotifyRound] at h
  obtain ⟨sizes, scan, h⟩ := bind_eq_ok.mp h
  cases sizes with
  | none =>
    cases h
    exact .skip scan
  | some sizes =>
    obtain ⟨readSize, writeSize⟩ := sizes
    obtain ⟨⟨ret, s₁⟩, e, h⟩ := bind_eq_ok.mp h
    simp only at h
    split at h
    · rename_i neg
      cases h
      exact .stop scan e neg
    · rename_i nonneg
      cases h
      exact .pass scan e (by omega)

/-- The loop of `queue_notify` is a sequence of rounds. -/
lemma queueNotifyLoop_reach {availIdx : UInt16} {n : Nat} (w : Option W)
    (h : queueNotifyLoop recv q availIdx n s = .ok s') :
    Reach (devStep recv) always ⟨s, .notify q availIdx w⟩ ⟨s', .idle⟩ := by
  have fin : ∀ s : VirtioDevice B, (s.queue q).lastAvailIdx = availIdx →
      Reach (devStep recv) always ⟨s, .notify q availIdx w⟩ ⟨s, .idle⟩ := by
    intro s e
    exact .step .done .init trivial (by simp [devStep, e, pure, Except.pure])
  induction n generalizing s with
  | zero =>
    simp only [queueNotifyLoop] at h
    split at h
    · cases h
      exact fin _ (by assumption)
    · cases h
  | succ n ih =>
    simp only [queueNotifyLoop] at h
    split at h
    · cases h
      exact fin _ (by assumption)
    · rename_i ne
      obtain ⟨⟨go, s₁⟩, e, h⟩ := bind_eq_ok.mp h
      have one : Reach (devStep recv) always ⟨s, .notify q availIdx w⟩
          ⟨s₁, if go then .notify q availIdx w else .idle⟩ := by
        refine .step .round .init trivial ?_
        simp only [devStep, ne, if_false, e, ok_bind]
        rfl
      cases go with
      | true => exact one.trans (ih h)
      | false =>
        cases h
        exact one

/-- What `queue_notify` returns is reached by the machine. -/
theorem queueNotify_reach (h : queueNotify recv s q = .ok s') :
    Reach (devStep recv) always (⟨s, .idle⟩ : Machine B W) ⟨s', .idle⟩ := by
  have kick : Reach (devStep recv) always (⟨s, .idle⟩ : Machine B W)
      (Machine.startNotify ⟨s, .idle⟩ q none) := .step (.ioeventfd q) .init trivial rfl
  simp only [queueNotify] at h
  split at h
  · cases h
    exact .init
  · rename_i manual
    rw [Machine.startNotify, if_neg manual] at kick
    exact kick.trans (queueNotifyLoop_reach none h)

end Mvvmm.Virtio
