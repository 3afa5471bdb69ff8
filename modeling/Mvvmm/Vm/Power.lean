import Mathlib.Logic.Function.Basic
import Mvvmm.Lib.CMem
import Mvvmm.Lib.Run

/-!
# The shutdown request

Model of the mailbox `power_cmd` of `mvvm.c`. The handler of SIGTERM calls `mvvm_shutdown`, which stores 1 in it
and pulses IRQ 5; the guest reads port `0x300`, and `handle_power` returns the mailbox and clears it, in two
steps. The handler runs on any thread that does not block the signal: on a thread other than that of the vCPU
at any time, and on that of the vCPU between `unmask_sigterm` and `mask_sigterm` of the loop of `mvvm_run`.

The mask keeps the handler away from `handle_power` on one thread only. `mailbox_run` says what holds of all runs,
and that no request is lost as long as no handler stores between the two steps of `handle_power`.
-/

namespace Mvvmm.Vm
open CMem Run

/-- Why `KVM_RUN` returns: the guest reads port `0x300`, writes it, or does something else that is handled. The last
one is `KVM_EXIT_SHUTDOWN`, or an exit reason that is not handled. -/
inductive KvmExit where
  | powerIn
  | powerOut (data : UInt8)
  | other
  | fatal
  deriving DecidableEq, Repr

/-- How the loop of `mvvm_run` is left: `handle_power` has returned 1, the exit was one of those that end the loop, or
`KVM_RUN` has failed. -/
inductive Ending where
  | power
  | exit
  | failed
  deriving DecidableEq, Repr

/-- Where the thread of the vCPU is in the loop of `mvvm_run`. -/
inductive VcpuPc where
  /-- From `unmask_sigterm` until `KVM_RUN` returns. -/
  | run
  /-- `KVM_RUN` has returned, and `mask_sigterm` is to come. -/
  | exited (exit : KvmExit)
  /-- In `handle_power`, before it reads the mailbox. -/
  | reading
  /-- In `handle_power`, between reading the mailbox and clearing it. -/
  | clearing
  /-- In `handle_power`, for a write. -/
  | writing (data : UInt8)
  /-- The exit is handled, or the loop begins; `unmask_sigterm` is to come. -/
  | handled
  /-- The loop is left. -/
  | stopped (how : Ending)
  deriving DecidableEq, Repr

/-- SIGTERM is not blocked on the thread of the vCPU. -/
def VcpuPc.unmasked : VcpuPc → Bool
  | .run => true
  | .exited _ => true
  | .stopped .failed => true
  | _ => false

/-- Where a thread is in `sigterm_handler`, that is in `mvvm_shutdown`. -/
inductive HandlerPc where
  | idle
  | store
  | raise
  | lower
  deriving DecidableEq, Repr

/-- What happens to the mailbox: a request is stored, the guest starts a read, the mailbox is read. -/
inductive Event where
  | request
  | started
  | read (data : UInt8)
  deriving DecidableEq, Repr

/-- The mailbox, the thread of the vCPU, and the handler on each thread (`none` is the thread of the vCPU). The two
lists are history, latest first: the levels of IRQ 5 and the events of the mailbox. -/
structure Power (T : Type) where
  powerCmd : UInt8
  vcpu : VcpuPc
  handlers : Option T → HandlerPc
  irqs : List Bool
  log : List Event

/-- What happens. -/
inductive PowerAct (T : Type) where
  /-- `KVM_RUN` returns. -/
  | exit (exit : KvmExit)
  /-- `KVM_RUN` fails, and not because a signal has interrupted it. -/
  | fail
  /-- The thread of the vCPU goes on. -/
  | vcpu
  /-- SIGTERM is delivered to a thread. -/
  | deliver (t : Option T)
  /-- The handler on a thread goes on. -/
  | handler (t : Option T)
  deriving DecidableEq, Repr

variable {T : Type} [DecidableEq T] {p p' : Power T} {a : PowerAct T} {l : List Event}

/-- The handler on a thread goes on to `pc`. -/
def Power.setHandler (p : Power T) (t : Option T) (pc : HandlerPc) : Power T :=
  { p with handlers := Function.update p.handlers t pc }

/-- C `handle_power` for a write: what it returns. -/
def handlePowerOut (data : UInt8) : UInt8 :=
  if data = 1 then data else 0

/-- The loop of `mvvm_run` with `handle_power`, one step of the thread of the vCPU. -/
def mvvmRun (p : Power T) : Except Stop (Power T) :=
  match p.vcpu with
  | .exited .powerIn => return { p with vcpu := .reading }
  | .exited (.powerOut data) => return { p with vcpu := .writing data }
  | .exited .other => return { p with vcpu := .handled }
  | .exited .fatal => return { p with vcpu := .stopped .exit }
  | .reading => return { p with vcpu := .clearing, log := .read p.powerCmd :: p.log }
  | .clearing => return { p with vcpu := .handled, powerCmd := 0 }
  | .writing data => return { p with vcpu := if handlePowerOut data ≠ 0 then .stopped .power else .handled }
  | .handled => return { p with vcpu := .run }
  | .run => .error .blocked
  | .stopped _ => .error .blocked

/-- C `mvvm_shutdown`, one step of the handler on a thread. -/
def mvvmShutdown (p : Power T) (t : Option T) : Except Stop (Power T) :=
  match p.handlers t with
  | .idle => .error .blocked
  | .store => return { p.setHandler t .raise with powerCmd := 1, log := .request :: p.log }
  | .raise => return { p.setHandler t .lower with irqs := true :: p.irqs }
  | .lower => return { p.setHandler t .idle with irqs := false :: p.irqs }

/-- A step. While its handler runs, the thread of the vCPU does nothing else. A `KVM_RUN` that a signal has interrupted is
called again, which is no step. -/
def powerStep (p : Power T) : PowerAct T → Except Stop (Power T)
  | .exit exit =>
    if p.vcpu = .run ∧ p.handlers none = .idle then
      return { p with
        vcpu := .exited exit
        log := if exit = .powerIn then .started :: p.log else p.log }
    else
      .error .blocked
  | .fail => if p.vcpu = .run ∧ p.handlers none = .idle then return { p with vcpu := .stopped .failed } else .error .blocked
  | .vcpu => if p.handlers none = .idle then mvvmRun p else .error .blocked
  | .deliver t =>
    if p.handlers t = .idle ∧ (t = none → p.vcpu.unmasked = true) then
      return p.setHandler t .store
    else
      .error .blocked
  | .handler t => mvvmShutdown p t

/-- At the start of `mvvm_run`. -/
def powerStart (T : Type) : Power T :=
  ⟨0, .handled, fun _ => .idle, [], []⟩

/-! ## Requests and reports -/

/-- Every request is reported, by a read that comes after it, as soon as a read that was started after it has been
made. The log is latest first: what comes after a request stands before it. -/
def Reported (l : List Event) : Prop :=
  ∀ later earlier, l = later ++ .request :: earlier →
    (∃ after data before, later = after ++ .read data :: before ∧ .started ∈ before) → .read 1 ∈ later

/-- A read that returns 1 reports a request that no read has reported before. -/
def Requested (l : List Event) : Prop :=
  ∀ later earlier, l = later ++ .read 1 :: earlier →
    ∃ between before, earlier = between ++ .request :: before ∧ .read 1 ∉ between

/-- The handler does not store between the two steps of `handle_power`. -/
def StoresApart (p : Power T) : PowerAct T → Prop
  | .handler t => p.handlers t = .store → p.vcpu ≠ .clearing
  | _ => True

instance (a : PowerAct T) : Decidable (StoresApart p a) :=
  match a with
  | .handler t => inferInstanceAs (Decidable (p.handlers t = .store → p.vcpu ≠ .clearing))
  | .exit _ => .isTrue trivial
  | .fail => .isTrue trivial
  | .vcpu => .isTrue trivial
  | .deliver _ => .isTrue trivial

/-! ## Steps -/

/-- All that a step can do to the mailbox. -/
inductive PowerEffect (p : Power T) : PowerAct T → Power T → Prop where
  | start {exit : KvmExit} {p' : Power T} (vcpu : p.vcpu ≠ .clearing) (vcpu' : p'.vcpu ≠ .clearing)
    (cmd : p'.powerCmd = p.powerCmd) (log : p'.log = .started :: p.log) : PowerEffect p (.exit exit) p'
  | read (vcpu : p.vcpu = .reading) :
    PowerEffect p .vcpu { p with vcpu := .clearing, log := .read p.powerCmd :: p.log }
  | clear (vcpu : p.vcpu = .clearing) : PowerEffect p .vcpu { p with vcpu := .handled, powerCmd := 0 }
  | store {t : Option T} (pc : p.handlers t = .store) :
    PowerEffect p (.handler t) { p.setHandler t .raise with powerCmd := 1, log := .request :: p.log }
  | quiet {a : PowerAct T} {p' : Power T} (vcpu : p'.vcpu = .clearing ↔ p.vcpu = .clearing)
    (cmd : p'.powerCmd = p.powerCmd) (log : p'.log = p.log) : PowerEffect p a p'

/-- Inversion of `mvvmRun`. -/
lemma mvvmRun_effect (h : mvvmRun p = .ok p') : PowerEffect p .vcpu p' := by
  cases pc : p.vcpu with
  | run => simp [mvvmRun, pc] at h
  | stopped => simp [mvvmRun, pc] at h
  | reading =>
    simp only [mvvmRun, pc] at h
    obtain rfl := Except.ok.inj h
    exact .read pc
  | clearing =>
    simp only [mvvmRun, pc] at h
    obtain rfl := Except.ok.inj h
    exact .clear pc
  | exited exit =>
    cases exit <;>
      · simp only [mvvmRun, pc] at h
        obtain rfl := Except.ok.inj h
        exact .quiet (by simp [pc]) rfl rfl
  | writing data =>
    simp only [mvvmRun, pc] at h
    obtain rfl := Except.ok.inj h
    refine .quiet ?_ rfl rfl
    simp only [pc, reduceCtorEq, iff_false]
    split <;> simp
  | handled =>
    simp only [mvvmRun, pc] at h
    obtain rfl := Except.ok.inj h
    exact .quiet (by simp [pc]) rfl rfl

/-- Inversion of `powerStep`. -/
lemma powerStep_effect (h : powerStep p a = .ok p') : PowerEffect p a p' := by
  cases a with
  | exit exit =>
    simp only [powerStep] at h
    split at h
    · rename_i run
      obtain rfl := Except.ok.inj h
      by_cases power : exit = .powerIn
      · exact .start (by simp [run.1]) (by simp) rfl (by simp [power])
      · exact .quiet (by simp [run.1]) rfl (by simp [power])
    · cases h
  | fail =>
    simp only [powerStep] at h
    split at h
    · rename_i run
      obtain rfl := Except.ok.inj h
      exact .quiet (by simp [run.1]) rfl rfl
    · cases h
  | vcpu =>
    simp only [powerStep] at h
    split at h
    · exact mvvmRun_effect h
    · cases h
  | deliver t =>
    simp only [powerStep] at h
    split at h
    · obtain rfl := Except.ok.inj h
      exact .quiet Iff.rfl rfl rfl
    · cases h
  | handler t =>
    cases pc : p.handlers t with
    | idle => simp [powerStep, mvvmShutdown, pc] at h
    | store =>
      simp only [powerStep, mvvmShutdown, pc] at h
      obtain rfl := Except.ok.inj h
      exact .store pc
    | raise =>
      simp only [powerStep, mvvmShutdown, pc] at h
      obtain rfl := Except.ok.inj h
      exact .quiet Iff.rfl rfl rfl
    | lower =>
      simp only [powerStep, mvvmShutdown, pc] at h
      obtain rfl := Except.ok.inj h
      exact .quiet Iff.rfl rfl rfl

/-! ## Unreported requests -/

/-- A request was stored after the last read that has returned 1. -/
def unreported : List Event → Bool
  | [] => false
  | .request :: _ => true
  | .started :: l => unreported l
  | .read data :: l => data != 1 && unreported l

/-- An unreported request stands in the log, with no report after it. -/
lemma unreported_split (h : unreported l = true) :
    ∃ between before, l = between ++ .request :: before ∧ .read 1 ∉ between := by
  induction l with
  | nil => simp [unreported] at h
  | cons e l ih =>
    cases e with
    | request => exact ⟨[], l, rfl, by simp⟩
    | started =>
      obtain ⟨between, before, rfl, no⟩ := ih h
      exact ⟨.started :: between, before, rfl, by simp [no]⟩
    | read data =>
      simp only [unreported, Bool.and_eq_true, bne_iff_ne] at h
      obtain ⟨between, before, rfl, no⟩ := ih h.2
      exact ⟨.read data :: between, before, rfl, by simp [no, Ne.symm h.1]⟩

/-- If no request is unreported, a report comes after every request. -/
lemma reported_of_unreported {later earlier : List Event} (h : unreported l = false)
    (e : l = later ++ .request :: earlier) : .read 1 ∈ later := by
  induction later generalizing l with
  | nil =>
    subst e
    simp [unreported] at h
  | cons x later ih =>
    subst e
    cases x with
    | request => simp [unreported] at h
    | started =>
      have none : unreported (later ++ .request :: earlier) = false := h
      exact List.mem_cons_of_mem _ (ih none rfl)
    | read data =>
      by_cases one : data = 1
      · simp [one]
      · refine List.mem_cons_of_mem _ (ih ?_ rfl)
        simpa [unreported, one] using h

/-- Another event keeps this, if it is no report, or the report of a request that was unreported. -/
lemma Requested.cons {e : Event} (h : Requested l) (new : e = .read 1 → unreported l = true) :
    Requested (e :: l) := by
  intro later earlier eq
  cases later with
  | nil =>
    obtain ⟨rfl, rfl⟩ := List.cons.inj eq
    exact unreported_split (new rfl)
  | cons x later =>
    obtain ⟨-, rfl⟩ := List.cons.inj eq
    exact h later earlier rfl

/-- Every request that a read has followed is reported. A read may be the first after a request only if it
returns 1. -/
def Answered (l : List Event) : Prop :=
  ∀ later earlier, l = later ++ .request :: earlier → (∃ data, .read data ∈ later) → .read 1 ∈ later

/-- Where every read has its answer, every request is reported. -/
lemma Answered.reported (h : Answered l) : Reported l := by
  rintro later earlier eq ⟨after, data, before, rfl, -⟩
  exact h _ earlier eq ⟨data, by simp⟩

/-- One more event. -/
lemma Answered.cons {e : Event} (h : Answered l) (new : ∀ data, e = .read data → data = 1 ∨ unreported l = false) :
    Answered (e :: l) := by
  rintro later earlier eq ⟨data, mem⟩
  cases later with
  | nil => cases mem
  | cons x later =>
    obtain ⟨rfl, rfl⟩ := List.cons.inj eq
    rcases List.mem_cons.mp mem with rfl | mem
    · rcases new data rfl with rfl | none
      · simp
      · exact List.mem_cons_of_mem _ (reported_of_unreported none rfl)
    · exact List.mem_cons_of_mem _ (h later earlier rfl ⟨data, mem⟩)

/-! ## All runs -/

/-- What holds in every run: outside of `handle_power` a full mailbox stands for an unreported request. -/
structure MailboxInv (p : Power T) : Prop where
  full : p.vcpu ≠ .clearing → p.powerCmd = 1 → unreported p.log = true
  requested : Requested p.log

omit [DecidableEq T] in

/-- The invariant holds at the start. -/
lemma mailboxInv_start : MailboxInv (powerStart T) :=
  ⟨fun _ h => absurd h (by simp [powerStart]), fun later earlier eq => by simp [powerStart] at eq⟩

/-- Every step keeps the invariant. -/
lemma mailboxInv_step (h : MailboxInv p) (e : powerStep p a = .ok p') : MailboxInv p' := by
  cases powerStep_effect e with
  | start vcpu vcpu' cmd log =>
    refine ⟨fun _ one => ?_, ?_⟩
    · rw [log]
      exact h.full vcpu (cmd ▸ one)
    · rw [log]
      exact h.requested.cons (by simp)
  | read vcpu =>
    -- the mailbox keeps its 1 until it is cleared, so `full` says nothing in between
    refine ⟨fun no => absurd rfl no, h.requested.cons ?_⟩
    intro one
    exact h.full (by simp [vcpu]) (by simpa using one)
  | clear vcpu => exact ⟨fun _ one => absurd one (by simp), h.requested⟩
  | store pc => exact ⟨fun _ _ => rfl, h.requested.cons (by simp)⟩
  | quiet vcpu cmd log =>
    refine ⟨fun no one => ?_, by rw [log]; exact h.requested⟩
    rw [log]
    exact h.full (fun c => no (vcpu.mpr c)) (cmd ▸ one)

/-! ## Runs without a store between the two steps -/

/-- The mailbox is full if and only if a request is unreported, and none is while it is cleared. -/
structure ApartInv (p : Power T) : Prop where
  full : p.vcpu ≠ .clearing → (p.powerCmd = 1 ↔ unreported p.log = true)
  clearing : p.vcpu = .clearing → unreported p.log = false
  answered : Answered p.log

omit [DecidableEq T] in

/-- The invariant for requests that come apart holds at the start. -/
lemma apartInv_start : ApartInv (powerStart T) where
  full _ := by simp [powerStart, unreported]
  clearing h := by simp [powerStart] at h
  answered later earlier eq := by simp [powerStart] at eq

/-- A step that keeps the stores apart keeps the invariant. -/
lemma apartInv_step (h : ApartInv p) (apart : StoresApart p a) (e : powerStep p a = .ok p') : ApartInv p' := by
  cases powerStep_effect e with
  | start vcpu vcpu' cmd log =>
    refine ⟨fun _ => ?_, fun c => absurd c vcpu', ?_⟩
    · rw [log, cmd]
      exact h.full vcpu
    · rw [log]
      exact h.answered.cons (by simp)
  | read vcpu =>
    have full := h.full (by simp [vcpu])
    -- what was unreported is reported by this very read
    refine ⟨fun no => absurd rfl no, fun _ => ?_, h.answered.cons ?_⟩
    · by_cases one : p.powerCmd = 1
      · simp [unreported, one]
      · have none : unreported p.log = false := by simpa using mt full.mpr one
        simp [unreported, none]
    · rintro data eq
      obtain rfl := Event.read.inj eq
      by_cases one : p.powerCmd = 1
      · exact .inl one
      · exact .inr (by simpa using mt full.mpr one)
  | clear vcpu =>
    refine ⟨fun _ => ?_, fun c => absurd c (by simp), h.answered⟩
    simp [h.clearing vcpu]
  | store pc =>
    refine ⟨fun _ => by simp [unreported], fun c => absurd c (apart pc), h.answered.cons (by simp)⟩
  | quiet vcpu cmd log =>
    refine ⟨fun no => ?_, fun c => ?_, by rw [log]; exact h.answered⟩
    · rw [log, cmd]
      exact h.full fun c => no (vcpu.mpr c)
    · rw [log]
      exact h.clearing (vcpu.mp c)

/-- In every run, a read returns 1 only for an unreported request; and in every run in which no handler stores
between the two steps of `handle_power`, every request is reported. -/
theorem mailbox_run :
    (∀ p : Power T, Reach powerStep always (powerStart T) p → Requested p.log) ∧
      ∀ p : Power T, Reach powerStep StoresApart (powerStart T) p → Reported p.log := by
  constructor
  · intro p r
    have inv : MailboxInv p := r.invariant mailboxInv_start fun p a p' _ h _ e => mailboxInv_step h e
    exact inv.requested
  · intro p r
    have inv : ApartInv p := r.invariant apartInv_start fun p a p' _ h apart e => apartInv_step h apart e
    exact inv.answered.reported

/-- Two requests, one on the thread of the vCPU and one on another thread during a read, are both reported. -/
theorem mailbox_two_requests :
    ∃ p : Power Unit, Reach powerStep StoresApart (powerStart Unit) p ∧
      p.log = [.read 1, .started, .request, .read 1, .started, .request] ∧ Requested p.log ∧ Reported p.log := by
  obtain ⟨p, r, t⟩ := Reach.of_test powerStep StoresApart .blocked (powerStart Unit)
    [.vcpu, .deliver none, .handler none, .handler none, .handler none, .exit .powerIn, .deliver (some ()), .vcpu,
      .vcpu, .vcpu, .handler (some ()), .vcpu, .exit .powerIn, .vcpu, .vcpu]
    (fun p => p.log == [.read 1, .started, .request, .read 1, .started, .request]) (by decide +kernel)
  exact ⟨p, r, by simpa using t, mailbox_run.1 p (r.mono fun _ _ _ => trivial), mailbox_run.2 p r⟩

/-- A request on another thread comes between the two steps of `handle_power` and is cleared with them; the next
read returns 0. -/
theorem request_lost :
    ∃ p : Power Unit, Reach powerStep always (powerStart Unit) p ∧
      p.log = [.read 0, .started, .request, .read 0, .started] ∧ ¬ Reported p.log := by
  obtain ⟨p, r, t⟩ := Reach.of_test powerStep always .blocked (powerStart Unit)
    [.vcpu, .exit .powerIn, .vcpu, .vcpu, .deliver (some ()), .handler (some ()), .vcpu, .vcpu, .exit .powerIn,
      .vcpu, .vcpu]
    (fun p => p.log == [.read 0, .started, .request, .read 0, .started]) (by decide +kernel)
  have log : p.log = [.read 0, .started, .request, .read 0, .started] := by simpa using t
  refine ⟨p, r, log, ?_⟩
  intro h
  have mem := h [.read 0, .started] [.read 0, .started] log ⟨[], 0, [.started], rfl, by simp⟩
  simp at mem

end Mvvmm.Vm
