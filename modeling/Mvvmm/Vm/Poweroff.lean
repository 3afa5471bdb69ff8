import Mvvmm.Lib.Fair
import Mvvmm.Vm.Power

/-!
# From SIGTERM to the end of the virtual machine

Model of the whole way of a shutdown request: `mvvm_shutdown` stores it in the mailbox and pulses IRQ 5
(`Vm.Power`); the guest module `mvvmm_guest.c` takes the interrupt, reads port `0x300` in `my_irq_handler` and
queues `power_work`; `power_work_func` calls `orderly_poweroff`, at the end of which the kernel of the guest calls
`mvvmm_poweroff`, which writes 1 to port `0x300`; and `handle_power` ends the loop of `mvvm_run`. The guest may also
power off on its own, and the loop is left as well when the guest shuts down by a fault, at an exit that is not handled,
and when `KVM_RUN` fails.

The guest has one vCPU, which runs while the thread of the vCPU is in `KVM_RUN`, and the module is loaded. IRQ 5 is
edge-triggered: a rising edge of the line is latched until the guest takes the interrupt. The kernel of the guest is
assumed to write to port `0x300` only through the module.
-/

namespace Mvvmm.Vm.Poweroff
open CMem Run Fair

/-- Where the vCPU is in `my_irq_handler`. -/
inductive IrqPc where
  /-- Not in the handler. -/
  | none
  /-- At `inb(PORT)`. -/
  | inb
  /-- The read of the port has left the guest. -/
  | exit
  /-- `inb` has returned the value. -/
  | test (val : UInt8)
  deriving DecidableEq, Repr

/-- What the vCPU does outside of `my_irq_handler`. -/
inductive TaskPc where
  /-- Anything that is not of the module. -/
  | kernel
  /-- In `power_work_func`. -/
  | work
  /-- In `mvvmm_poweroff`, at `outb(CMD_HALT, PORT)`. -/
  | poweroff
  /-- In `mvvmm_poweroff`, after it. -/
  | spin
  deriving DecidableEq, Repr

/-- C `CMD_HALT`. -/
def cmdHalt : UInt8 := 1

/-- The process on the host, IRQ 5, the byte `*io_data` of the last read, and the module in the guest: its two
places, `pending_command` and whether `power_work` is queued. The last three fields are history: the calls of
`orderly_poweroff`, those of `power_work_func` that have not known the command, and whether the guest has powered off on its
own. -/
structure System (T : Type) where
  vmm : Power T
  latch : Bool
  ioData : UInt8
  irqPc : IrqPc
  task : TaskPc
  pendingCommand : Int
  queued : Bool
  orderly : Nat
  unknown : Nat
  own : Bool

/-- What happens. -/
inductive Act (T : Type) where
  /-- The thread of the vCPU goes on. -/
  | vcpu
  /-- SIGTERM is delivered to a thread. -/
  | deliver (t : Option T)
  /-- The handler on a thread goes on. -/
  | handler (t : Option T)
  /-- The guest leaves `KVM_RUN` for something that is not of the module. -/
  | other
  /-- The guest leaves `KVM_RUN` for something that ends `mvvm_run`. -/
  | fatal
  /-- `KVM_RUN` fails. -/
  | fail
  /-- The vCPU takes IRQ 5. -/
  | irq
  /-- `my_irq_handler` goes on. -/
  | irqHandler
  /-- The kernel takes `power_work` from the queue. -/
  | startWork
  /-- `power_work_func` runs. -/
  | work
  /-- The kernel calls `pm_power_off`, at the end of `orderly_poweroff`. -/
  | pmPowerOff
  /-- The kernel calls `pm_power_off`, because the guest powers off on its own. -/
  | shutdown
  /-- `mvvmm_poweroff` writes to the port. -/
  | outb
  deriving DecidableEq, Repr

variable {T : Type} [DecidableEq T] {s s' : System T} {a : Act T}

/-- The level of IRQ 5. -/
def System.line (s : System T) : Bool :=
  s.vmm.irqs.headD false

/-- The guest runs. -/
def System.Runs (s : System T) : Prop :=
  s.vmm.vcpu = .run ∧ s.vmm.handlers Option.none = .idle

instance (s : System T) : Decidable s.Runs :=
  inferInstanceAs (Decidable (_ ∧ _))

/-- The guest runs, outside of `my_irq_handler`. -/
def System.Free (s : System T) : Prop :=
  s.Runs ∧ s.irqPc = .none

instance (s : System T) : Decidable s.Free :=
  inferInstanceAs (Decidable (_ ∧ _))

/-- C `my_irq_handler`, one step. -/
def myIrqHandler (s : System T) : Except Stop (System T) :=
  match s.irqPc with
  | .none => .error .blocked
  | .inb => do
    let vmm ← powerStep s.vmm (.exit .powerIn)
    return { s with vmm, irqPc := .exit }
  | .exit => return { s with irqPc := .test s.ioData }
  | .test val =>
    if val = cmdHalt then
      -- `schedule_work` does nothing more if the work is queued already
      return { s with pendingCommand := val.toNat, queued := true, irqPc := .none }
    else
      return { s with irqPc := .none }

/-- C `power_work_func`. -/
def powerWorkFunc (s : System T) : System T :=
  if s.pendingCommand = cmdHalt.toNat then
    { s with orderly := s.orderly + 1, task := .kernel }
  else
    { s with unknown := s.unknown + 1, task := .kernel }

/-- C `mvvmm_poweroff`, up to its loop. -/
def mvvmmPoweroff (s : System T) : Except Stop (System T) := do
  let vmm ← powerStep s.vmm (.exit (.powerOut cmdHalt))
  return { s with vmm, task := .spin }

/-- A step. -/
def step (s : System T) : Act T → Except Stop (System T)
  | .vcpu => do
    let vmm ← powerStep s.vmm .vcpu
    return { s with vmm, ioData := if s.vmm.vcpu = .reading then s.vmm.powerCmd else s.ioData }
  | .deliver t => do
    let vmm ← powerStep s.vmm (.deliver t)
    return { s with vmm }
  | .handler t => do
    let vmm ← powerStep s.vmm (.handler t)
    return { s with vmm, latch := s.latch || (s.vmm.handlers t = .raise && !s.line) }
  | .other =>
    if s.Runs ∧ s.irqPc ≠ .exit then do
      let vmm ← powerStep s.vmm (.exit .other)
      return { s with vmm }
    else
      .error .blocked
  | .fatal =>
    if s.Runs ∧ s.irqPc ≠ .exit then do
      let vmm ← powerStep s.vmm (.exit .fatal)
      return { s with vmm }
    else
      .error .blocked
  | .fail => do
    let vmm ← powerStep s.vmm .fail
    return { s with vmm }
  | .irq => if s.Free ∧ s.latch = true then return { s with latch := false, irqPc := .inb } else .error .blocked
  | .irqHandler => if s.Runs then myIrqHandler s else .error .blocked
  | .startWork =>
    if s.Free ∧ s.task = .kernel ∧ s.queued = true then
      return { s with queued := false, task := .work }
    else
      .error .blocked
  | .work => if s.Free ∧ s.task = .work then return powerWorkFunc s else .error .blocked
  | .pmPowerOff =>
    if s.Free ∧ s.task = .kernel ∧ 0 < s.orderly then return { s with task := .poweroff } else .error .blocked
  | .shutdown =>
    if s.Free ∧ s.task = .kernel then return { s with task := .poweroff, own := true } else .error .blocked
  | .outb => if s.Free ∧ s.task = .poweroff then mvvmmPoweroff s else .error .blocked

/-- At the start of `mvvm_run`, with the module. -/
def start (T : Type) : System T :=
  ⟨powerStart T, false, 0, .none, .kernel, 0, false, 0, 0, false⟩

/-! ## Steps -/

/-- The guest leaves `KVM_RUN`. -/
def System.leave (s : System T) (exit : KvmExit) : Power T :=
  { s.vmm with
    vcpu := .exited exit
    log := if exit = .powerIn then .started :: s.vmm.log else s.vmm.log }

/-- How the thread of the vCPU goes on without touching the mailbox. -/
inductive Onward : VcpuPc → VcpuPc → Prop where
  | powerIn : Onward (.exited .powerIn) .reading
  | powerOut {data : UInt8} : Onward (.exited (.powerOut data)) (.writing data)
  | other : Onward (.exited .other) .handled
  | fatal : Onward (.exited .fatal) (.stopped .exit)
  | halt : Onward (.writing 1) (.stopped .power)
  | ignore {data : UInt8} (ne : data ≠ 1) : Onward (.writing data) .handled
  | again : Onward .handled .run

/-- All that a step can do. -/
inductive Effect (s : System T) : Act T → System T → Prop where
  | read (idle : s.vmm.handlers Option.none = .idle) (pc : s.vmm.vcpu = .reading) : Effect s .vcpu
    { s with
      vmm := { s.vmm with vcpu := .clearing, log := .read s.vmm.powerCmd :: s.vmm.log }
      ioData := s.vmm.powerCmd }
  | clear (idle : s.vmm.handlers Option.none = .idle) (pc : s.vmm.vcpu = .clearing) :
    Effect s .vcpu { s with vmm := { s.vmm with vcpu := .handled, powerCmd := 0 } }
  | onward {pc : VcpuPc} (idle : s.vmm.handlers Option.none = .idle) (on : Onward s.vmm.vcpu pc) :
    Effect s .vcpu { s with vmm := { s.vmm with vcpu := pc } }
  | deliver {t : Option T} (pc : s.vmm.handlers t = .idle) :
    Effect s (.deliver t) { s with vmm := s.vmm.setHandler t .store }
  | store {t : Option T} (pc : s.vmm.handlers t = .store) :
    Effect s (.handler t)
      { s with vmm := { s.vmm.setHandler t .raise with powerCmd := 1, log := .request :: s.vmm.log } }
  | raise {t : Option T} (pc : s.vmm.handlers t = .raise) :
    Effect s (.handler t)
      { s with
        vmm := { s.vmm.setHandler t .lower with irqs := true :: s.vmm.irqs }
        latch := s.latch || !s.line }
  | lower {t : Option T} (pc : s.vmm.handlers t = .lower) :
    Effect s (.handler t) { s with vmm := { s.vmm.setHandler t .idle with irqs := false :: s.vmm.irqs } }
  | other (runs : s.Runs) (pc : s.irqPc ≠ .exit) : Effect s .other { s with vmm := s.leave .other }
  | fatal (runs : s.Runs) (pc : s.irqPc ≠ .exit) : Effect s .fatal { s with vmm := s.leave .fatal }
  | fail (runs : s.Runs) : Effect s .fail { s with vmm := { s.vmm with vcpu := .stopped .failed } }
  | irq (free : s.Free) (latch : s.latch = true) : Effect s .irq { s with latch := false, irqPc := .inb }
  | inb (runs : s.Runs) (pc : s.irqPc = .inb) :
    Effect s .irqHandler { s with vmm := s.leave .powerIn, irqPc := .exit }
  | resume (runs : s.Runs) (pc : s.irqPc = .exit) : Effect s .irqHandler { s with irqPc := .test s.ioData }
  | halt (runs : s.Runs) (pc : s.irqPc = .test 1) :
    Effect s .irqHandler { s with pendingCommand := 1, queued := true, irqPc := .none }
  | ignore {val : UInt8} (runs : s.Runs) (pc : s.irqPc = .test val) (ne : val ≠ 1) :
    Effect s .irqHandler { s with irqPc := .none }
  | startWork (free : s.Free) (pc : s.task = .kernel) (queued : s.queued = true) :
    Effect s .startWork { s with queued := false, task := .work }
  | work (free : s.Free) (pc : s.task = .work) (cmd : s.pendingCommand = 1) :
    Effect s .work { s with orderly := s.orderly + 1, task := .kernel }
  | unknown (free : s.Free) (pc : s.task = .work) (cmd : s.pendingCommand ≠ 1) :
    Effect s .work { s with unknown := s.unknown + 1, task := .kernel }
  | pmPowerOff (free : s.Free) (pc : s.task = .kernel) (orderly : 0 < s.orderly) :
    Effect s .pmPowerOff { s with task := .poweroff }
  | shutdown (free : s.Free) (pc : s.task = .kernel) :
    Effect s .shutdown { s with task := .poweroff, own := true }
  | outb (free : s.Free) (pc : s.task = .poweroff) :
    Effect s .outb { s with vmm := s.leave (.powerOut 1), task := .spin }

/-- The guest leaves `KVM_RUN` while it runs. -/
lemma exit_eq (runs : s.Runs) (exit : KvmExit) : powerStep s.vmm (.exit exit) = .ok (s.leave exit) := by
  simp only [powerStep, System.leave]
  exact if_pos runs

/-- All that the thread of the vCPU can do. -/
lemma vcpu_effect (h : step s .vcpu = .ok s') : Effect s .vcpu s' := by
  simp only [step, powerStep, bind_eq_ok, ite_error_eq_ok] at h
  obtain ⟨vmm, ⟨idle, e⟩, h⟩ := h
  obtain rfl := Except.ok.inj h
  cases pc : s.vmm.vcpu with
  | run => simp [mvvmRun, pc] at e
  | stopped => simp [mvvmRun, pc] at e
  | reading =>
    simp only [mvvmRun, pc] at e
    obtain rfl := Except.ok.inj e
    exact .read idle pc
  | clearing =>
    simp only [mvvmRun, pc] at e
    obtain rfl := Except.ok.inj e
    exact .clear idle pc
  | exited exit =>
    cases exit with
    | powerIn =>
      simp only [mvvmRun, pc] at e
      obtain rfl := Except.ok.inj e
      exact .onward idle (pc ▸ .powerIn)
    | powerOut data =>
      simp only [mvvmRun, pc] at e
      obtain rfl := Except.ok.inj e
      exact .onward idle (pc ▸ .powerOut)
    | other =>
      simp only [mvvmRun, pc] at e
      obtain rfl := Except.ok.inj e
      exact .onward idle (pc ▸ .other)
    | fatal =>
      simp only [mvvmRun, pc] at e
      obtain rfl := Except.ok.inj e
      exact .onward idle (pc ▸ .fatal)
  | writing data =>
    simp only [mvvmRun, pc] at e
    obtain rfl := Except.ok.inj e
    by_cases one : data = 1
    · subst one
      exact .onward idle (pc ▸ .halt)
    · simp only [handlePowerOut, one, if_false, ne_eq, not_true_eq_false]
      exact .onward idle (pc ▸ .ignore one)
  | handled =>
    simp only [mvvmRun, pc] at e
    obtain rfl := Except.ok.inj e
    exact .onward idle (pc ▸ .again)

/-- All that a handler can do. -/
lemma handler_effect {t : Option T} (h : step s (.handler t) = .ok s') : Effect s (.handler t) s' := by
  simp only [step, bind_eq_ok] at h
  obtain ⟨vmm, e, h⟩ := h
  obtain rfl := Except.ok.inj h
  cases pc : s.vmm.handlers t with
  | idle => simp [powerStep, mvvmShutdown, pc] at e
  | store =>
    simp only [powerStep, mvvmShutdown, pc] at e
    obtain rfl := Except.ok.inj e
    simpa using Effect.store pc
  | raise =>
    simp only [powerStep, mvvmShutdown, pc] at e
    obtain rfl := Except.ok.inj e
    simpa using Effect.raise pc
  | lower =>
    simp only [powerStep, mvvmShutdown, pc] at e
    obtain rfl := Except.ok.inj e
    simpa using Effect.lower pc

/-- All that `my_irq_handler` can do. -/
lemma irqHandler_effect (h : step s .irqHandler = .ok s') : Effect s .irqHandler s' := by
  simp only [step] at h
  split at h
  · rename_i runs
    cases pc : s.irqPc with
    | none => simp [myIrqHandler, pc] at h
    | inb =>
      simp only [myIrqHandler, pc, exit_eq runs, ok_bind] at h
      obtain rfl := Except.ok.inj h
      exact .inb runs pc
    | exit =>
      simp only [myIrqHandler, pc] at h
      obtain rfl := Except.ok.inj h
      exact .resume runs pc
    | test val =>
      by_cases one : val = 1
      · subst one
        simp only [myIrqHandler, pc, cmdHalt, if_pos] at h
        obtain rfl := Except.ok.inj h
        exact .halt runs pc
      · simp only [myIrqHandler, pc, cmdHalt, one, if_false] at h
        obtain rfl := Except.ok.inj h
        exact .ignore runs pc one
  · cases h

/-- Inversion of `step`. -/
lemma step_effect (h : step s a = .ok s') : Effect s a s' := by
  cases a with
  | vcpu => exact vcpu_effect h
  | handler t => exact handler_effect h
  | irqHandler => exact irqHandler_effect h
  | deliver t =>
    simp only [step, powerStep, bind_eq_ok, ite_error_eq_ok] at h
    obtain ⟨vmm, ⟨idle, e⟩, h⟩ := h
    obtain rfl := Except.ok.inj e
    obtain rfl := Except.ok.inj h
    exact .deliver idle.1
  | other =>
    simp only [step, ite_error_eq_ok] at h
    obtain ⟨⟨runs, pc⟩, h⟩ := h
    simp only [exit_eq runs, ok_bind] at h
    obtain rfl := Except.ok.inj h
    exact .other runs pc
  | fatal =>
    simp only [step, ite_error_eq_ok] at h
    obtain ⟨⟨runs, pc⟩, h⟩ := h
    simp only [exit_eq runs, ok_bind] at h
    obtain rfl := Except.ok.inj h
    exact .fatal runs pc
  | fail =>
    simp only [step, powerStep, bind_eq_ok, ite_error_eq_ok] at h
    obtain ⟨vmm, ⟨runs, e⟩, h⟩ := h
    obtain rfl := Except.ok.inj e
    obtain rfl := Except.ok.inj h
    exact .fail runs
  | irq =>
    simp only [step, ite_error_eq_ok] at h
    obtain ⟨⟨free, latch⟩, h⟩ := h
    obtain rfl := Except.ok.inj h
    exact .irq free latch
  | startWork =>
    simp only [step, ite_error_eq_ok] at h
    obtain ⟨⟨free, pc, queued⟩, h⟩ := h
    obtain rfl := Except.ok.inj h
    exact .startWork free pc queued
  | work =>
    simp only [step, ite_error_eq_ok] at h
    obtain ⟨⟨free, pc⟩, h⟩ := h
    obtain rfl := Except.ok.inj h
    unfold powerWorkFunc
    split
    · rename_i cmd
      exact .work free pc cmd
    · rename_i cmd
      exact .unknown free pc cmd
  | pmPowerOff =>
    simp only [step, ite_error_eq_ok] at h
    obtain ⟨⟨free, pc, orderly⟩, h⟩ := h
    obtain rfl := Except.ok.inj h
    exact .pmPowerOff free pc orderly
  | shutdown =>
    simp only [step, ite_error_eq_ok] at h
    obtain ⟨⟨free, pc⟩, h⟩ := h
    obtain rfl := Except.ok.inj h
    exact .shutdown free pc
  | outb =>
    simp only [step, ite_error_eq_ok] at h
    obtain ⟨⟨free, pc⟩, h⟩ := h
    simp only [mvvmmPoweroff, cmdHalt, exit_eq free.1, ok_bind] at h
    obtain rfl := Except.ok.inj h
    exact .outb free pc

/-- The process on the host makes a step of `Vm.Power`, or none. -/
lemma step_power (h : step s a = .ok s') : s'.vmm = s.vmm ∨ ∃ b, powerStep s.vmm b = .ok s'.vmm := by
  cases a with
  | vcpu | deliver | handler | fail =>
    simp only [step, bind_eq_ok] at h
    obtain ⟨vmm, e, h⟩ := h
    obtain rfl := Except.ok.inj h
    exact .inr ⟨_, e⟩
  | other =>
    cases step_effect h with
    | other runs => exact .inr ⟨_, exit_eq runs _⟩
  | fatal =>
    cases step_effect h with
    | fatal runs => exact .inr ⟨_, exit_eq runs _⟩
  | outb =>
    cases step_effect h with
    | outb free => exact .inr ⟨_, exit_eq free.1 _⟩
  | irqHandler =>
    cases step_effect h with
    | inb runs => exact .inr ⟨_, exit_eq runs _⟩
    | resume | halt | ignore => exact .inl rfl
  | work =>
    cases step_effect h with
    | work | unknown => exact .inl rfl
  | irq | startWork | pmPowerOff | shutdown =>
    cases step_effect h
    exact .inl rfl

/-! ## The ports -/

/-- The thread of the vCPU handles a read of port `0x300`. -/
@[grind]
def HandlesIn (pc : VcpuPc) : Prop :=
  pc = .exited .powerIn ∨ pc = .reading ∨ pc = .clearing

/-- The thread of the vCPU handles a write of 1 to port `0x300`, or has handled it. -/
@[grind]
def HandlesOut (pc : VcpuPc) : Prop :=
  pc = .exited (.powerOut 1) ∨ pc = .writing 1 ∨ pc = .stopped .power

/-- The two ends of port `0x300` agree: only `my_irq_handler` reads it, and only `mvvmm_poweroff` writes it. -/
structure Ports (s : System T) : Prop where
  asked : HandlesIn s.vmm.vcpu → s.irqPc = .exit
  exit : s.irqPc = .exit →
    HandlesIn s.vmm.vcpu ∨ s.vmm.vcpu = .handled ∨ s.vmm.vcpu = .run ∨ s.vmm.vcpu = .stopped .failed
  out : ∀ data, s.vmm.vcpu = .exited (.powerOut data) ∨ s.vmm.vcpu = .writing data → data = 1
  spin : s.task = .spin ↔ HandlesOut s.vmm.vcpu

/-- Every step keeps the places in the guest in step with the thread of the vCPU. -/
lemma Ports.step (h : Ports s) (e : Effect s a s') : Ports s' := by
  obtain ⟨asked, exit, out, spin⟩ := h
  cases e with
  | deliver | store | raise | lower => exact ⟨asked, exit, out, spin⟩
  | read idle pc | clear idle pc => constructor <;> grind
  | onward idle on => constructor <;> grind [Onward]
  | other runs pc | fatal runs pc | inb runs pc =>
    have run := runs.1
    constructor <;> simp only [System.leave] <;> grind
  | fail runs =>
    have run := runs.1
    constructor <;> grind
  | outb free pc => constructor <;> simp only [System.leave] <;> grind [System.Free, System.Runs]
  | irq free | resume runs | halt runs | ignore runs | startWork free | work free | unknown free | pmPowerOff free
  | shutdown free => constructor <;> grind [System.Free, System.Runs]

/-! ## The commands -/

/-- The only command is `CMD_HALT`, and it is pending from the first report on: the work is queued or done. -/
structure Commands (s : System T) : Prop where
  command : s.queued = true ∨ s.task = .work ∨ 0 < s.orderly ↔ s.pendingCommand = 1
  powered : s.task = .poweroff ∨ s.task = .spin → 0 < s.orderly ∨ s.own = true
  known : s.unknown = 0

/-- Every step keeps what is known of the command. -/
lemma Commands.step (h : Commands s) (e : Effect s a s') : Commands s' := by
  obtain ⟨command, powered, known⟩ := h
  cases e with
  | read | clear | onward | deliver | store | raise | lower | other | fatal | fail | irq | inb | resume | ignore =>
    exact ⟨command, powered, known⟩
  | halt runs pc => exact ⟨by simp, powered, known⟩
  | startWork free pc queued => constructor <;> grind
  | work free pc cmd => constructor <;> grind
  | unknown free pc cmd => exact absurd (command.mp (.inr (.inl pc))) cmd
  | pmPowerOff free pc orderly => constructor <;> grind
  | shutdown free pc => constructor <;> grind
  | outb free pc => constructor <;> grind

/-! ## The reports -/

/-- A read has returned 1, and the module has not acted on it. -/
@[grind]
def System.Told (s : System T) : Prop :=
  s.irqPc = .test 1 ∨
    s.irqPc = .exit ∧ s.ioData = 1 ∧
      (s.vmm.vcpu = .clearing ∨ s.vmm.vcpu = .handled ∨ s.vmm.vcpu = .run ∨ s.vmm.vcpu = .stopped .failed)

instance (s : System T) : Decidable s.Told :=
  inferInstanceAs (Decidable (_ ∨ _))

/-- The reports that the module has acted on, and those it is to act on. -/
def System.reports (s : System T) : Nat :=
  s.orderly + s.queued.toNat + (if s.task = .work then 1 else 0) + if s.Told then 1 else 0

/-- The module acts on every report, and on none twice. -/
structure Reports (s : System T) : Prop where
  told : .read 1 ∈ s.vmm.log → s.Told ∨ s.pendingCommand = 1
  reports : s.reports ≤ s.vmm.log.count (.read 1)

omit [DecidableEq T] in
/-- A step that keeps what the module is to do, and the reports, keeps their agreement. -/
lemma Reports.congr (h : Reports s) (mem : .read 1 ∈ s'.vmm.log → .read 1 ∈ s.vmm.log)
    (count : s'.vmm.log.count (.read 1) = s.vmm.log.count (.read 1)) (told : s'.Told ↔ s.Told)
    (command : s'.pendingCommand = s.pendingCommand) (orderly : s'.orderly = s.orderly) (queued : s'.queued = s.queued)
    (task : s'.task = .work ↔ s.task = .work) : Reports s' where
  told one := by
    rw [told, command]
    exact h.told (mem one)
  reports := by
    have le := h.reports
    simp only [System.reports, count, told, orderly, queued, task] at le ⊢
    exact le

/-- Every step keeps the reports that are on their way. -/
lemma Reports.step (h : Reports s) (ports : Ports s) (e : Effect s a s') : Reports s' := by
  cases e with
  | deliver | raise | lower => exact h.congr id rfl Iff.rfl rfl rfl rfl Iff.rfl
  | store pc => exact h.congr (by simp) (by simp) Iff.rfl rfl rfl rfl Iff.rfl
  | read idle pc =>
    -- the report is made here: the module is told of it if and only if the mailbox was full
    have exit := ports.asked (.inr (.inl pc))
    have before : ¬ s.Told := by grind
    obtain ⟨told, reports⟩ := h
    simp only [System.reports, before, if_false] at reports
    constructor
    · grind
    · simp only [System.reports, System.Told, List.count_cons]
      grind
  | clear idle pc => exact h.congr id rfl (by grind) rfl rfl rfl Iff.rfl
  | onward idle on => exact h.congr id rfl (by have exit := ports.exit; grind [Onward]) rfl rfl rfl Iff.rfl
  | other runs pc | fatal runs pc => exact h.congr id rfl (by grind) rfl rfl rfl Iff.rfl
  | fail runs => exact h.congr id rfl (by have run := runs.1; grind) rfl rfl rfl Iff.rfl
  | irq free latch => exact h.congr id rfl (by grind [System.Free]) rfl rfl rfl Iff.rfl
  | inb runs pc =>
    exact h.congr (by simp [System.leave]) (by simp [System.leave]) (by grind [System.leave]) rfl rfl rfl Iff.rfl
  | resume runs pc => exact h.congr id rfl (by grind [System.Runs]) rfl rfl rfl Iff.rfl
  | ignore runs pc ne => exact h.congr id rfl (by grind) rfl rfl rfl Iff.rfl
  | pmPowerOff free pc | shutdown free pc => exact h.congr id rfl Iff.rfl rfl rfl rfl (by simp [pc])
  | outb free pc =>
    have none := free.2
    exact h.congr id rfl (by grind) rfl rfl rfl (by simp [pc])
  | halt runs pc =>
    -- the module acts on the report that it has been told of
    have before : s.Told := .inl pc
    obtain ⟨told, reports⟩ := h
    refine ⟨fun _ => .inr rfl, ?_⟩
    have after : ¬ System.Told { s with pendingCommand := 1, queued := true, irqPc := .none } := by grind
    simp only [System.reports, before, after, if_true, if_false, Bool.toNat_true] at reports ⊢
    omega
  | startWork free pc queued =>
    have told : System.Told { s with queued := false, task := .work } ↔ s.Told := Iff.rfl
    refine ⟨h.told, ?_⟩
    have le := h.reports
    simp only [System.reports, told, queued, pc, reduceCtorEq, if_true, if_false, Bool.toNat_true,
      Bool.toNat_false] at le ⊢
    omega
  | work free pc cmd =>
    have told : System.Told { s with orderly := s.orderly + 1, task := .kernel } ↔ s.Told := Iff.rfl
    refine ⟨h.told, ?_⟩
    have le := h.reports
    simp only [System.reports, told, pc, reduceCtorEq, if_true, if_false] at le ⊢
    omega
  | unknown free pc cmd =>
    have told : System.Told { s with unknown := s.unknown + 1, task := .kernel } ↔ s.Told := Iff.rfl
    refine ⟨h.told, ?_⟩
    have le := h.reports
    simp only [System.reports, told, pc, reduceCtorEq, if_true, if_false] at le ⊢
    omega

/-! ## Every run -/

/-- What holds in every run. -/
structure Inv (s : System T) : Prop where
  mailbox : MailboxInv s.vmm
  ports : Ports s
  commands : Commands s
  reports : Reports s

omit [DecidableEq T] in

/-- The invariant holds at the start. -/
lemma inv_start : Inv (start T) where
  mailbox := mailboxInv_start
  ports := by constructor <;> simp [start, powerStart, HandlesIn, HandlesOut]
  commands := by constructor <;> simp [start]
  reports := by constructor <;> simp [start, powerStart, System.reports, System.Told]

/-- Every step keeps the invariant. -/
lemma Inv.step (h : Inv s) (e : step s a = .ok s') : Inv s' := by
  have effect := step_effect e
  refine ⟨?_, h.ports.step effect, h.commands.step effect, h.reports.step h.ports effect⟩
  rcases step_power e with same | ⟨b, e⟩
  · exact same ▸ h.mailbox
  · exact mailboxInv_step h.mailbox e

/-- The invariant holds in every state that is reached. -/
lemma reach_inv {guard : System T → Act T → Prop} (r : Reach Poweroff.step guard (start T) s) : Inv s :=
  r.invariant inv_start fun _ _ _ _ h _ e => h.step e

/-- A request that no report follows is unreported. -/
lemma unreported_of_split {between before : List Event} (no : .read 1 ∉ between) :
    unreported (between ++ .request :: before) = true := by
  induction between with
  | nil => rfl
  | cons e between ih =>
    rw [List.mem_cons, not_or] at no
    cases e with
    | request => rfl
    | started => exact ih no.2
    | read data =>
      have ne : data ≠ 1 := fun one => no.1 (one ▸ rfl)
      simpa [unreported, ne] using ih no.2

/-- Every report stands for a request of its own. -/
lemma count_read_le {l : List Event} (h : Requested l) :
    l.count (.read 1) + (unreported l).toNat ≤ l.count .request := by
  induction l with
  | nil => simp [unreported]
  | cons e l ih =>
    have le := ih fun later earlier eq => h (e :: later) earlier (by rw [eq]; rfl)
    cases e with
    | request =>
      simp only [List.count_cons_of_ne (show Event.request ≠ .read 1 by simp), List.count_cons_self, unreported,
        Bool.toNat_true]
      omega
    | started => simpa [unreported] using le
    | read data =>
      by_cases one : data = 1
      · subst one
        -- the request that this read reports was unreported
        obtain ⟨between, before, rfl, no⟩ := h [] l rfl
        rw [unreported_of_split no] at le
        simpa [unreported] using le
      · have ne : (data != 1) = true := by simpa using one
        simpa [unreported, one, ne] using le

/-- What brings the virtual machine to its end, if it is not a fault, an exit that is not handled or a `KVM_RUN` that
fails. -/
structure Caused (s : System T) : Prop where
  /-- `power_work_func` knows every command. -/
  known : s.unknown = 0
  /-- `orderly_poweroff` is called at most once for every report. -/
  orderly : s.orderly ≤ s.vmm.log.count (.read 1)
  /-- The guest has at most one report for every request. -/
  reports : s.vmm.log.count (.read 1) ≤ s.vmm.log.count .request
  /-- The guest reaches `mvvmm_poweroff` only after `orderly_poweroff` or on its own. -/
  powered : s.task = .poweroff ∨ s.task = .spin → 0 < s.orderly ∨ s.own = true
  /-- `handle_power` ends `mvvm_run` only when `mvvmm_poweroff` has written to the port. -/
  stopped : s.vmm.vcpu = .stopped .power → s.task = .spin
  /-- Unless the guest powers off on its own, this is because of a request. -/
  requested : s.vmm.vcpu = .stopped .power → s.own = false → .request ∈ s.vmm.log

/-- In every run `handle_power` ends the virtual machine only through the module, and `orderly_poweroff` is called only on
requests: on no more of them than were made. -/
theorem poweroff_requested (r : Reach step always (start T) s) : Caused s := by
  have inv := reach_inv r
  have orderly : s.orderly ≤ s.vmm.log.count (.read 1) := by
    have le := inv.reports.reports
    unfold System.reports at le
    omega
  have reports : s.vmm.log.count (.read 1) ≤ s.vmm.log.count .request := by
    have le := count_read_le inv.mailbox.requested
    omega
  have spin : s.vmm.vcpu = .stopped .power → s.task = .spin := fun pc => inv.ports.spin.mpr (.inr (.inr pc))
  refine ⟨inv.commands.known, orderly, reports, inv.commands.powered, spin, fun pc others => ?_⟩
  have called : 0 < s.orderly := (inv.commands.powered (.inr (spin pc))).resolve_right (by simp [others])
  exact List.count_pos_iff.mp (by omega)

/-- SIGTERM comes twice. The guest has read the first request, and the mailbox is cleared together with the second
one; the virtual machine ends for the first. -/
def twoSignals : List (Act Unit) :=
  [.vcpu, .deliver (some ()), .handler (some ()), .handler (some ()), .handler (some ()), .irq, .irqHandler, .vcpu,
    .vcpu, .deliver (some ()), .handler (some ()), .vcpu, .vcpu, .handler (some ()), .handler (some ()), .irqHandler,
    .irqHandler, .irq, .irqHandler, .vcpu, .vcpu, .vcpu, .vcpu, .irqHandler, .irqHandler, .startWork, .work,
    .pmPowerOff, .outb, .vcpu, .vcpu]

/-- With these signals the virtual machine ends, on account of the one request that the guest has read. -/
theorem poweroff_requested_twice :
    ∃ s : System Unit, Reach step always (start Unit) s ∧
      (s.vmm.vcpu = .stopped .power ∧ s.own = false ∧
        s.vmm.log = [.read 0, .started, .request, .read 1, .started, .request]) ∧
      Caused s := by
  obtain ⟨s, r, test⟩ := Reach.of_test step always .blocked (start Unit) twoSignals
    (fun s => decide (s.vmm.vcpu = .stopped .power ∧ s.own = false ∧
      s.vmm.log = [.read 0, .started, .request, .read 1, .started, .request])) (by decide +kernel)
  exact ⟨s, r, of_decide_eq_true test, poweroff_requested r⟩

/-! ## The first request -/

/-- A read of the port is on its way, and has not reached the mailbox. -/
@[grind]
def System.Asking (s : System T) : Prop :=
  s.irqPc = .exit ∧ (s.vmm.vcpu = .exited .powerIn ∨ s.vmm.vcpu = .reading)

/-- Before the first report. The mailbox is full from the first request on, for it is cleared only after it was
read; and the guest is to read it, unless the interrupt is still to be raised. -/
structure Unread (s : System T) : Prop where
  before : .request ∉ s.vmm.log → s.vmm.irqs = [] ∧ s.latch = false ∧ s.irqPc = .none ∧
    ∀ t, s.vmm.handlers t = .idle ∨ s.vmm.handlers t = .store
  full : .request ∈ s.vmm.log → s.vmm.powerCmd = 1
  clearing : s.vmm.vcpu ≠ .clearing
  due : .request ∈ s.vmm.log →
    s.latch = true ∨ s.irqPc = .inb ∨ s.Asking ∨ s.line = false ∧ ∃ t, s.vmm.handlers t = .raise

/-- A thread that raises the line still does so when the handler on another thread goes on. -/
lemma raise_other {p : Power T} {t : Option T} {pc : HandlerPc} (ne : p.handlers t ≠ .raise)
    (h : ∃ t, p.handlers t = .raise) : ∃ t', (p.setHandler t pc).handlers t' = .raise := by
  obtain ⟨t', raise⟩ := h
  have other : t' ≠ t := fun e => ne (e ▸ raise)
  exact ⟨t', by simp [Power.setHandler, other, raise]⟩

omit [DecidableEq T] in
/-- Nothing has happened to IRQ 5 before the first request. -/
lemma Unread.requested (h : Unread s)
    (began : s.irqPc ≠ .none ∨ ∃ t, s.vmm.handlers t = .raise ∨ s.vmm.handlers t = .lower) :
    .request ∈ s.vmm.log := by
  by_contra no
  obtain ⟨-, -, none, early⟩ := h.before no
  rcases began with pc | ⟨t, pc⟩
  · exact pc none
  · rcases early t with e | e <;> simp [e] at pc

omit [DecidableEq T] in
/-- While the guest runs, no read is on its way. -/
lemma Unread.due_of_runs (h : Unread s) (runs : s.Runs) (requested : .request ∈ s.vmm.log) :
    s.latch = true ∨ s.irqPc = .inb ∨ s.line = false ∧ ∃ t, s.vmm.handlers t = .raise := by
  have run := runs.1
  rcases h.due requested with latch | inb | ⟨-, reading⟩ | raise
  · exact .inl latch
  · exact .inr (.inl inb)
  · simp [run] at reading
  · exact .inr (.inr raise)

/-- A handler does not lose a request that is not read. -/
lemma Unread.handler {t : Option T} (h : Unread s) (e : Effect s (.handler t) s') : Unread s' := by
  cases e with
  | store pc =>
    refine ⟨fun no => absurd (List.mem_cons_self ..) no, fun _ => rfl, h.clearing, fun _ => ?_⟩
    by_cases requested : .request ∈ s.vmm.log
    · exact (h.due requested).imp_right (.imp_right (.imp_right fun d => ⟨d.1, raise_other (by simp [pc]) d.2⟩))
    · have low : s.line = false := by simp [System.line, (h.before requested).1]
      exact .inr (.inr (.inr ⟨low, t, by simp [Power.setHandler]⟩))
  | raise pc =>
    have requested := h.requested (.inr ⟨t, .inl pc⟩)
    refine ⟨fun no => absurd requested no, h.full, h.clearing, fun _ => ?_⟩
    -- a raise of the low line is an edge; if the line is high, the interrupt was due before
    cases high : s.line with
    | false => exact .inl (by simp)
    | true =>
      rcases h.due requested with latch | inb | asking | ⟨low, -⟩
      · exact .inl (by simp [latch])
      · exact .inr (.inl inb)
      · exact .inr (.inr (.inl asking))
      · simp [high] at low
  | lower pc =>
    have requested := h.requested (.inr ⟨t, .inr pc⟩)
    refine ⟨fun no => absurd requested no, h.full, h.clearing, fun _ => ?_⟩
    exact (h.due requested).imp_right (.imp_right (.imp_right fun d => ⟨rfl, raise_other (by simp [pc]) d.2⟩))

/-- Until the first report, the first request stays in the mailbox and the guest is to read it. -/
lemma Unread.step (h : Unread s) (ports : Ports s) (e : Effect s a s') : .read 1 ∈ s'.vmm.log ∨ Unread s' := by
  cases e with
  | store pc => exact .inr (h.handler (.store pc))
  | raise pc => exact .inr (h.handler (.raise pc))
  | lower pc => exact .inr (h.handler (.lower pc))
  | read idle pc =>
    have exit := ports.asked (.inr (.inl pc))
    have full := h.full (h.requested (.inl (by simp [exit])))
    exact .inl (by simp [full])
  | clear idle pc => exact absurd pc h.clearing
  | onward idle on =>
    refine .inr ⟨h.before, h.full, by grind [Onward], fun requested => ?_⟩
    rcases h.due requested with latch | inb | asking | raise
    · exact .inl latch
    · exact .inr (.inl inb)
    · exact .inr (.inr (.inl (by grind [Onward])))
    · exact .inr (.inr (.inr raise))
  | deliver pc =>
    refine .inr ⟨fun no => ?_, h.full, h.clearing, fun requested => ?_⟩
    · obtain ⟨irqs, latch, none, early⟩ := h.before no
      refine ⟨irqs, latch, none, fun t' => ?_⟩
      simp only [Power.setHandler, Function.update_apply]
      split
      · exact .inr rfl
      · exact early t'
    · exact (h.due requested).imp_right (.imp_right (.imp_right fun d => ⟨d.1, raise_other (by simp [pc]) d.2⟩))
  | other runs | fatal runs =>
    refine .inr ⟨h.before, h.full, by simp [System.leave], fun requested => ?_⟩
    exact (h.due_of_runs runs requested).imp_right (.imp_right .inr)
  | fail runs =>
    refine .inr ⟨h.before, h.full, by simp, fun requested => ?_⟩
    exact (h.due_of_runs runs requested).imp_right (.imp_right .inr)
  | outb free =>
    refine .inr ⟨h.before, h.full, by simp [System.leave], fun requested => ?_⟩
    exact (h.due_of_runs free.1 requested).imp_right (.imp_right .inr)
  | irq free latch =>
    have requested : .request ∈ s.vmm.log := by
      by_contra no
      have off := (h.before no).2.1
      simp [latch] at off
    exact .inr ⟨fun no => absurd requested no, h.full, h.clearing, fun _ => .inr (.inl rfl)⟩
  | inb runs pc =>
    have requested := h.requested (.inl (by simp [pc]))
    refine .inr ⟨fun no => absurd (List.mem_cons_of_mem _ requested) no, fun _ => h.full requested,
      by simp [System.leave], fun _ => ?_⟩
    exact .inr (.inr (.inl ⟨rfl, .inl rfl⟩))
  | resume runs pc | halt runs pc | ignore runs pc =>
    have requested := h.requested (.inl (by simp [pc]))
    refine .inr ⟨fun no => absurd requested no, h.full, h.clearing, fun _ => ?_⟩
    rcases h.due_of_runs runs requested with latch | inb | raise
    · exact .inl latch
    · simp [pc] at inb
    · exact .inr (.inr (.inr raise))
  | startWork | work | unknown | pmPowerOff | shutdown => exact .inr ⟨h.before, h.full, h.clearing, h.due⟩

/-- The log only grows. -/
lemma Effect.mem_log {x : Event} (e : Effect s a s') (h : x ∈ s.vmm.log) : x ∈ s'.vmm.log := by
  cases e with
  | read | store => exact List.mem_cons_of_mem _ h
  | inb runs =>
    simp only [System.leave, if_true]
    exact List.mem_cons_of_mem _ h
  | _ => exact h

/-- In every run, either the first report is made or the first request is still in the mailbox. -/
lemma reach_unread {guard : System T → Act T → Prop} (r : Reach Poweroff.step guard (start T) s) :
    .read 1 ∈ s.vmm.log ∨ Unread s := by
  refine r.invariant (I := fun s => .read 1 ∈ s.vmm.log ∨ Unread s) (.inr ?_) fun s a s' r h _ e => ?_
  · constructor <;> simp [start, powerStart]
  · rcases h with one | unread
    · exact .inl ((step_effect e).mem_log one)
    · exact unread.step (reach_inv r).ports (step_effect e)

/-! ## Fair runs -/

/-- What has to go on: the threads of the host, and the kernel of the guest with the module. -/
def Act.Must : Act T → Prop
  | .deliver _ | .other | .fatal | .fail | .shutdown => False
  | _ => True

/-- The steps that the handler on a thread has left. -/
def handlerLeft : HandlerPc → Nat
  | .idle => 0
  | .lower => 1
  | .raise => 2
  | .store => 3

/-- The steps that the thread of the vCPU has left until the guest runs. -/
def vcpuLeft : VcpuPc → Nat
  | .exited _ => 4
  | .reading => 3
  | .writing _ => 3
  | .clearing => 2
  | .handled => 1
  | .run => 0
  | .stopped _ => 0

/-- The steps that `my_irq_handler` has left. -/
def IrqPc.left : IrqPc → Nat
  | .none => 0
  | .test _ => 1
  | .exit => 2
  | .inb => 3

/-- The handler on a thread runs by itself. -/
lemma Effect.handlers {t : Option T} (e : Effect s a s') (busy : s.vmm.handlers t ≠ .idle) (other : a ≠ .handler t) :
    s'.vmm.handlers t = s.vmm.handlers t := by
  cases e with
  | @deliver t' pc =>
    have ne : t ≠ t' := fun e => busy (e ▸ pc)
    simp [Power.setHandler, ne]
  | @store t' | @raise t' | @lower t' =>
    have ne : t ≠ t' := fun e => other (e ▸ rfl)
    simp [Power.setHandler, ne]
  | _ => rfl

/-- A handler goes towards its end. -/
lemma Effect.handlers_left {t : Option T} (e : Effect s (.handler t) s') :
    handlerLeft (s'.vmm.handlers t) < handlerLeft (s.vmm.handlers t) := by
  cases e with
  | store pc | raise pc | lower pc => simp [Power.setHandler, pc, handlerLeft]

/-- A handler that is not at its end can go on. -/
lemma handler_enabled {t : Option T} (busy : s.vmm.handlers t ≠ .idle) : Enabled step (.handler t) s := by
  unfold Enabled
  cases pc : s.vmm.handlers t with
  | idle => exact absurd pc busy
  | store | raise | lower =>
    simp only [step, powerStep, mvvmShutdown, pc]
    exact ⟨_, rfl⟩

/-- The loop of `mvvm_run` is left. -/
def System.Stopped (s : System T) : Prop :=
  ∃ how, s.vmm.vcpu = .stopped how

/-- The thread of the vCPU can go on outside of `KVM_RUN`. -/
lemma vcpu_enabled (idle : s.vmm.handlers Option.none = .idle) (run : s.vmm.vcpu ≠ .run)
    (live : ¬ s.Stopped) : Enabled step .vcpu s := by
  unfold Enabled
  cases pc : s.vmm.vcpu with
  | run => exact absurd pc run
  | stopped how => exact absurd ⟨how, pc⟩ live
  | exited exit =>
    cases exit <;>
      · simp only [step, powerStep, idle, if_true, mvvmRun, pc]
        exact ⟨_, rfl⟩
  | reading | clearing | writing | handled =>
    simp only [step, powerStep, idle, if_true, mvvmRun, pc]
    exact ⟨_, rfl⟩

/-- `my_irq_handler` can go on while the guest runs. -/
lemma irqHandler_enabled (runs : s.Runs) (busy : s.irqPc ≠ .none) : Enabled step .irqHandler s := by
  unfold Enabled
  cases pc : s.irqPc with
  | none => exact absurd pc busy
  | inb =>
    simp only [step, runs, if_true, myIrqHandler, pc, exit_eq]
    exact ⟨_, rfl⟩
  | exit =>
    simp only [step, runs, if_true, myIrqHandler, pc]
    exact ⟨_, rfl⟩
  | test val =>
    simp only [step, runs, if_true, myIrqHandler, pc]
    split <;> exact ⟨_, rfl⟩

/-- The thread of the vCPU moves by itself, except that the guest leaves `KVM_RUN`. -/
lemma Effect.vcpu (e : Effect s a s') (other : a ≠ .vcpu) : s'.vmm.vcpu = s.vmm.vcpu ∨ s.Runs := by
  cases e with
  | read | clear | onward => exact absurd rfl other
  | other runs | fatal runs | fail runs | inb runs => exact .inr runs
  | outb free => exact .inr free.1
  | _ => exact .inl rfl

/-- `my_irq_handler` runs by itself. -/
lemma Effect.irqPc (e : Effect s a s') (busy : s.irqPc ≠ .none) (other : a ≠ .irqHandler) : s'.irqPc = s.irqPc := by
  cases e with
  | irq free => exact absurd free.2 busy
  | inb | resume | halt | ignore => exact absurd rfl other
  | _ => rfl

/-- Outside of `my_irq_handler`, the guest does something only while it runs. -/
lemma Effect.waits (e : Effect s a s') (no : ¬ s.Runs) : s'.irqPc = s.irqPc ∧ s'.task = s.task := by
  cases e with
  | irq free | startWork free | work free | unknown free | pmPowerOff free | shutdown free | outb free =>
    exact absurd free.1 no
  | inb runs | resume runs | halt runs | ignore runs => exact absurd runs no
  | _ => exact ⟨rfl, rfl⟩

/-- The thread of the vCPU goes towards `KVM_RUN`. -/
lemma Effect.vcpu_left (e : Effect s .vcpu s') (live : ¬ s'.Stopped) :
    vcpuLeft s'.vmm.vcpu < vcpuLeft s.vmm.vcpu := by
  cases e with
  | read _ pc | clear _ pc => simp [pc, vcpuLeft]
  | onward _ on => grind [Onward, vcpuLeft, System.Stopped]

/-- `my_irq_handler` goes towards its end. -/
lemma Effect.irq_left (e : Effect s .irqHandler s') : s'.irqPc.left < s.irqPc.left := by
  cases e with
  | inb _ pc | resume _ pc | halt _ pc | ignore _ pc => simp [pc, IrqPc.left]

/-- The loop of `mvvm_run` is left for good. -/
lemma Effect.stopped (e : Effect s a s') (h : s.Stopped) : s'.Stopped := by
  obtain ⟨how, h⟩ := h
  cases e with
  | read _ pc | clear _ pc => simp [h] at pc
  | onward _ on => grind [Onward]
  | other runs | fatal runs | fail runs | inb runs => simp [System.Runs, h] at runs
  | outb free => simp [System.Free, System.Runs, h] at free
  | _ => exact ⟨how, h⟩

/-- A state of a run that goes on for ever. -/
structure Ongoing (s : System T) : Prop where
  inv : Inv s
  unread : .read 1 ∈ s.vmm.log ∨ Unread s
  live : ¬ s.Stopped

section Live
variable {t : Trace (step (T := T))} (on : ∀ n, Ongoing (t.state n)) (fair : ∀ a, Act.Must a → t.StronglyFair a)
  {P Q : System T → Prop}

include on fair

/-- The rule for all that has to go on. -/
lemma leadsTo_of_must (must : a.Must) (rank : System T → Nat)
    (keep : ∀ s b s', Ongoing s → Ongoing s' → P s → ¬ Q s → Effect s b s' → b ≠ a → Q s' ∨ P s' ∧ rank s' ≤ rank s)
    (move : ∀ s s', Ongoing s → Ongoing s' → P s → ¬ Q s → Effect s a s' → Q s' ∨ P s' ∧ rank s' < rank s)
    (again : ∀ n, (∀ m ≥ n, P (t.state m) ∧ ¬ Q (t.state m)) → ∃ m ≥ n, Enabled step a (t.state m)) :
    t.LeadsTo P Q := by
  refine (fair a must).leadsTo rank ?_ ?_ again
  · intro n b hp hq act other
    exact keep _ b _ (on n) (on (n + 1)) hp hq (step_effect (t.next n b act)) other
  · intro n hp hq act
    exact move _ _ (on n) (on (n + 1)) hp hq (step_effect (t.next n a act))

/-- Every handler returns. -/
lemma handler_returns (th : Option T) : t.LeadsTo (fun _ => True) fun s => s.vmm.handlers th = .idle := by
  refine leadsTo_of_must on fair (a := .handler th) trivial (fun s => handlerLeft (s.vmm.handlers th)) ?_ ?_ ?_
  · intro s b s' _ _ _ busy e other
    exact .inr ⟨trivial, by rw [e.handlers busy other]⟩
  · intro s s' _ _ _ _ e
    exact .inr ⟨trivial, e.handlers_left⟩
  · intro n stays
    exact ⟨n, le_rfl, handler_enabled (stays n le_rfl).2⟩

/-- The thread of the vCPU enters the guest again. -/
lemma vcpu_returns : t.LeadsTo (fun _ => True) fun s => s.vmm.vcpu = .run := by
  refine leadsTo_of_must on fair (a := .vcpu) trivial (fun s => vcpuLeft s.vmm.vcpu) ?_ ?_ ?_
  · intro s b s' _ _ _ out e other
    have same := (e.vcpu other).resolve_right fun runs => out runs.1
    exact .inr ⟨trivial, by rw [same]⟩
  · intro s s' _ on' _ _ e
    exact .inr ⟨trivial, e.vcpu_left on'.live⟩
  · intro n stays
    obtain ⟨m, hm, idle⟩ := handler_returns on fair Option.none n trivial
    exact ⟨m, hm, vcpu_enabled idle (stays m hm).2 (on m).live⟩

/-- The guest runs again and again. -/
lemma runs_again : t.LeadsTo (fun _ => True) System.Runs := by
  have idle : t.LeadsTo (fun s => s.vmm.vcpu = .run) fun s => s.vmm.handlers Option.none = .idle :=
    fun n _ => handler_returns on fair Option.none n trivial
  refine (vcpu_returns on fair).trans (idle.and ?_)
  intro n b run busy act
  -- the guest leaves `KVM_RUN` only while no handler runs on its thread
  have e := step_effect (t.next n b act)
  by_cases own : b = .vcpu
  · subst own
    generalize t.state (n + 1) = s' at e
    cases e with
    | read idle | clear idle | onward idle => exact absurd idle busy
  · rw [(e.vcpu own).resolve_right fun runs => busy runs.2]
    exact run

/-- `my_irq_handler` returns. -/
lemma irq_returns : t.LeadsTo (fun _ => True) fun s => s.irqPc = .none := by
  refine leadsTo_of_must on fair (a := .irqHandler) trivial (fun s => s.irqPc.left) ?_ ?_ ?_
  · intro s b s' _ _ _ busy e other
    exact .inr ⟨trivial, by rw [e.irqPc busy other]⟩
  · intro s s' _ _ _ _ e
    exact .inr ⟨trivial, e.irq_left⟩
  · intro n stays
    obtain ⟨m, hm, runs⟩ := runs_again on fair n trivial
    exact ⟨m, hm, irqHandler_enabled runs (stays m hm).2⟩

/-- The guest runs outside of `my_irq_handler` again and again. -/
lemma free_again : t.LeadsTo (fun _ => True) System.Free := by
  have runs : t.LeadsTo (fun s => s.irqPc = .none) System.Runs := fun n _ => runs_again on fair n trivial
  refine ((irq_returns on fair).trans (runs.and ?_)).trans fun n h => ⟨n, le_rfl, h.2, h.1⟩
  intro n b none no act
  rw [((step_effect (t.next n b act)).waits no).1]
  exact none

/-! ### From the signal to the mailbox -/

/-- The handler stores its request. -/
lemma store_live (th : Option T) :
    t.LeadsTo (fun s => s.vmm.handlers th = .store) fun s => .request ∈ s.vmm.log := by
  refine leadsTo_of_must on fair (a := .handler th) trivial (fun _ => 0) ?_ ?_ ?_
  · intro s b s' _ _ pc _ e other
    exact .inr ⟨by rw [e.handlers (by simp [pc]) other, pc], le_rfl⟩
  · intro s s' _ _ pc _ e
    cases e with
    | store => exact .inl (List.mem_cons_self ..)
    | raise pc' | lower pc' => simp [pc] at pc'
  · intro n stays
    exact ⟨n, le_rfl, handler_enabled (by simp [(stays n le_rfl).1])⟩

/-- A handler that is to raise the low line sets off the interrupt, unless another one does so before. -/
lemma raise_live (th : Option T) :
    t.LeadsTo (fun s => s.line = false ∧ s.vmm.handlers th = .raise) fun s => s.latch = true := by
  refine leadsTo_of_must on fair (a := .handler th) trivial (fun _ => 0) ?_ ?_ ?_
  · rintro s b s' _ _ ⟨low, pc⟩ _ e other
    have same := (e.handlers (by simp [pc]) other).trans pc
    cases e with
    | raise => exact .inl (by simp [low])
    | lower => exact .inr ⟨⟨rfl, same⟩, le_rfl⟩
    | _ => exact .inr ⟨⟨low, same⟩, le_rfl⟩
  · rintro s s' _ _ ⟨low, pc⟩ _ e
    cases e with
    | raise => exact .inl (by simp [low])
    | store pc' | lower pc' => simp [pc] at pc'
  · intro n stays
    exact ⟨n, le_rfl, handler_enabled (by simp [(stays n le_rfl).1.2])⟩

/-- The guest takes the interrupt. -/
lemma irq_live : t.LeadsTo (fun s => s.latch = true) fun s => s.irqPc = .inb := by
  refine leadsTo_of_must on fair (a := .irq) trivial (fun _ => 0) ?_ ?_ ?_
  · intro s b s' _ _ latch _ e other
    cases e with
    | irq => exact .inl rfl
    | raise => exact .inr ⟨by simp [latch], le_rfl⟩
    | _ => exact .inr ⟨latch, le_rfl⟩
  · intro s s' _ _ latch _ e
    cases e with
    | irq => exact .inl rfl
  · intro n stays
    obtain ⟨m, hm, free⟩ := free_again on fair n trivial
    exact ⟨m, hm, _, if_pos ⟨free, (stays m hm).1⟩⟩

/-- `my_irq_handler` reads the port. -/
lemma inb_live : t.LeadsTo (fun s => s.irqPc = .inb) System.Asking := by
  refine leadsTo_of_must on fair (a := .irqHandler) trivial (fun _ => 0) ?_ ?_ ?_
  · intro s b s' _ _ inb _ e other
    exact .inr ⟨by rw [e.irqPc (by simp [inb]) other, inb], le_rfl⟩
  · intro s s' _ _ inb _ e
    cases e with
    | inb => exact .inl ⟨rfl, .inl rfl⟩
    | resume _ pc | halt _ pc | ignore _ pc => simp [inb] at pc
  · intro n stays
    obtain ⟨m, hm, runs⟩ := runs_again on fair n trivial
    exact ⟨m, hm, irqHandler_enabled runs (by simp [(stays m hm).1])⟩

/-- The first read of the mailbox finds the request. -/
lemma asking_live : t.LeadsTo System.Asking fun s => .read 1 ∈ s.vmm.log := by
  refine leadsTo_of_must on fair (a := .vcpu) trivial (fun s => vcpuLeft s.vmm.vcpu) ?_ ?_ ?_
  · rintro s b s' _ _ ⟨exit, pc⟩ _ e other
    have vcpu := (e.vcpu other).resolve_right fun runs => by simp [runs.1] at pc
    by_cases own : b = .irqHandler
    · subst own
      cases e with
      | inb runs | resume runs | halt runs | ignore runs => simp [runs.1] at pc
    · have irq := (e.irqPc (by simp [exit]) own).trans exit
      exact .inr ⟨⟨irq, by rwa [vcpu]⟩, by rw [vcpu]⟩
  · rintro s s' on₀ on₁ asking no e
    have left := e.vcpu_left on₁.live
    have unread := on₀.unread.resolve_left no
    cases e with
    | read idle pc => exact .inl ((unread.step on₀.inv.ports (.read idle pc)).resolve_right fun h => h.clearing rfl)
    | clear idle pc => exact absurd pc unread.clearing
    | onward idle on => exact .inr ⟨by grind [Onward], left⟩
  · intro n stays
    obtain ⟨m, hm, idle⟩ := handler_returns on fair Option.none n trivial
    have asking := (stays m hm).1
    exact ⟨m, hm, vcpu_enabled idle (by grind) (on m).live⟩

/-- The first request is reported. -/
lemma report_live : t.LeadsTo (fun s => .request ∈ s.vmm.log) fun s => .read 1 ∈ s.vmm.log := by
  have inb := (inb_live on fair).trans (asking_live on fair)
  have latch := (irq_live on fair).trans inb
  intro n requested
  rcases (on n).unread with one | unread
  · exact ⟨n, le_rfl, one⟩
  · rcases unread.due requested with h | h | h | ⟨low, th, raise⟩
    · exact latch n h
    · exact inb n h
    · exact asking_live on fair n h
    · exact (raise_live on fair th).trans latch n ⟨low, raise⟩

/-! ### From the mailbox to the end -/

/-- The module notes the command. -/
lemma command_live : t.LeadsTo (fun s => .read 1 ∈ s.vmm.log) fun s => s.pendingCommand = 1 := by
  intro n one
  obtain ⟨m, hm, none⟩ := irq_returns on fair n trivial
  have one' := t.stable (fun _ _ _ h e => (step_effect e).mem_log h) one m hm
  refine ⟨m, hm, ((on m).inv.reports.told one').resolve_left ?_⟩
  simp [System.Told, none]

/-- `power_work_func` calls `orderly_poweroff`. -/
lemma work_live : t.LeadsTo (fun s => s.task = .work) fun s => 0 < s.orderly := by
  refine leadsTo_of_must on fair (a := .work) trivial (fun _ => 0) ?_ ?_ ?_
  · intro s b s' _ _ work _ e other
    cases e with
    | startWork _ pc | pmPowerOff _ pc | shutdown _ pc | outb _ pc => simp [work] at pc
    | work | unknown => exact absurd rfl other
    | _ => exact .inr ⟨work, le_rfl⟩
  · intro s s' on₀ _ work _ e
    cases e with
    | work => exact .inl (Nat.succ_pos _)
    | unknown _ _ cmd => exact absurd (on₀.inv.commands.command.mp (.inr (.inl work))) cmd
  · intro n stays
    obtain ⟨m, hm, free⟩ := free_again on fair n trivial
    exact ⟨m, hm, _, if_pos ⟨free, (stays m hm).1⟩⟩

/-- The guest powers off, or is to do so. -/
def System.Leaving (s : System T) : Prop :=
  0 < s.orderly ∨ s.task = .poweroff ∨ s.task = .spin

/-- The work is taken from the queue, unless the guest powers off before. -/
lemma queued_live : t.LeadsTo (fun s => s.queued = true) fun s => s.task = .work ∨ s.Leaving := by
  refine leadsTo_of_must on fair (a := .startWork) trivial (fun _ => 0) ?_ ?_ ?_
  · intro s b s' _ _ queued _ e other
    cases e with
    | startWork => exact absurd rfl other
    | halt => exact .inr ⟨rfl, le_rfl⟩
    | _ => exact .inr ⟨queued, le_rfl⟩
  · intro s s' _ _ _ _ e
    cases e with
    | startWork => exact .inl (.inl rfl)
  · intro n stays
    obtain ⟨m, hm, free⟩ := free_again on fair n trivial
    have before := (stays m hm).2
    have kernel : (t.state m).task = .kernel := by
      cases task : (t.state m).task with
      | kernel => rfl
      | work => exact absurd (.inl task) before
      | poweroff => exact absurd (.inr (.inr (.inl task))) before
      | spin => exact absurd (.inr (.inr (.inr task))) before
    exact ⟨m, hm, _, if_pos ⟨free, kernel, (stays m hm).1⟩⟩

/-- The guest begins to power off. -/
lemma orderly_live : t.LeadsTo (fun s => s.pendingCommand = 1) System.Leaving := by
  intro n cmd
  rcases (on n).inv.commands.command.mpr cmd with queued | work | orderly
  · obtain ⟨m, hm, work | leaving⟩ := queued_live on fair n queued
    · obtain ⟨k, hk, orderly⟩ := work_live on fair m work
      exact ⟨k, hm.trans hk, .inl orderly⟩
    · exact ⟨m, hm, leaving⟩
  · obtain ⟨m, hm, orderly⟩ := work_live on fair n work
    exact ⟨m, hm, .inl orderly⟩
  · exact ⟨n, le_rfl, .inl orderly⟩

/-- The guest runs outside of the module again and again. -/
lemma kernel_again : t.LeadsTo (fun _ => True) fun s => s.task ≠ .work ∧ s.Free := by
  have done : t.LeadsTo (fun _ => True) fun s => s.task ≠ .work := by
    refine leadsTo_of_must on fair (a := .work) trivial (fun _ => 0) ?_ ?_ ?_
    · exact fun _ _ _ _ _ _ _ _ _ => .inr ⟨trivial, le_rfl⟩
    · intro s s' _ _ _ _ e
      cases e with
      | work | unknown => exact .inl (by simp)
    · intro n stays
      obtain ⟨m, hm, free⟩ := free_again on fair n trivial
      exact ⟨m, hm, _, if_pos ⟨free, not_not.mp (stays m hm).2⟩⟩
  have free : t.LeadsTo (fun s => s.task ≠ .work) System.Free := fun n _ => free_again on fair n trivial
  refine done.trans (free.and ?_)
  intro n b task no act
  have e := step_effect (t.next n b act)
  generalize t.state (n + 1) = s' at e
  cases e with
  | startWork free => exact absurd free no
  | work | unknown | pmPowerOff | shutdown | outb => simp
  | _ => exact task

/-- The kernel calls `mvvmm_poweroff`. -/
lemma power_live : t.LeadsTo (fun s => 0 < s.orderly) fun s => s.task = .poweroff ∨ s.task = .spin := by
  refine leadsTo_of_must on fair (a := .pmPowerOff) trivial (fun _ => 0) ?_ ?_ ?_
  · intro s b s' _ _ orderly _ e other
    cases e with
    | work => exact .inr ⟨Nat.succ_pos _, le_rfl⟩
    | _ => exact .inr ⟨orderly, le_rfl⟩
  · intro s s' _ _ _ _ e
    cases e with
    | pmPowerOff => exact .inl (.inl rfl)
  · intro n stays
    obtain ⟨m, hm, task, free⟩ := kernel_again on fair n trivial
    have before := (stays m hm).2
    have kernel : (t.state m).task = .kernel := by
      cases pc : (t.state m).task with
      | kernel => rfl
      | work => exact absurd pc task
      | poweroff => exact absurd (.inl pc) before
      | spin => exact absurd (.inr pc) before
    exact ⟨m, hm, _, if_pos ⟨free, kernel, (stays m hm).1⟩⟩

/-- `mvvmm_poweroff` writes to the port. -/
lemma outb_live : t.LeadsTo (fun s => s.task = .poweroff) fun s => s.task = .spin := by
  refine leadsTo_of_must on fair (a := .outb) trivial (fun _ => 0) ?_ ?_ ?_
  · intro s b s' _ _ task _ e other
    cases e with
    | startWork _ pc | work _ pc | unknown _ pc | pmPowerOff _ pc | shutdown _ pc => simp [task] at pc
    | outb => exact .inl rfl
    | _ => exact .inr ⟨task, le_rfl⟩
  · intro s s' _ _ _ _ e
    cases e with
    | outb => exact .inl rfl
  · intro n stays
    obtain ⟨m, hm, free⟩ := free_again on fair n trivial
    exact ⟨m, hm, _, by simp only [step, mvvmmPoweroff, exit_eq free.1, free, (stays m hm).1]; rfl⟩

/-- Once the module has written to the port, the run does not go on for ever. -/
lemma spin_ends (n : Nat) : (t.state n).task ≠ .spin := by
  intro spin
  have stays : ∀ m ≥ n, (t.state m).task = .spin := by
    refine t.stable (P := fun s => s.task = .spin) (fun s a s' spin e => ?_) spin
    cases step_effect e with
    | startWork _ pc | work _ pc | unknown _ pc | pmPowerOff _ pc | shutdown _ pc | outb _ pc => simp [spin] at pc
    | _ => exact spin
  obtain ⟨m, hm, run⟩ := vcpu_returns on fair n trivial
  have out := (on m).inv.ports.spin.mp (stays m hm)
  simp [HandlesOut, run] at out

end Live

/-- In every fair run the virtual machine ends after SIGTERM, whatever the threads that handle it and the guest do in
between. Requests may be lost among others (`Vm.Power`), but the first one is not. -/
theorem poweroff_live {t : Trace (step (T := T))} (init : t.state 0 = start T)
    (fair : ∀ a, Act.Must a → t.StronglyFair a) (th : Option T) :
    t.LeadsTo (fun s => s.vmm.handlers th = .store) System.Stopped := by
  intro n pc
  by_contra never
  have reach : ∀ m, Reach step always (t.state 0) (t.state m) := t.reach fun _ _ _ => trivial
  rw [init] at reach
  have live : ∀ m, ¬ (t.state m).Stopped := by
    intro m stopped
    have stays := t.stable (P := System.Stopped) (fun s a s' h e => (step_effect e).stopped h) stopped
    exact never ⟨max n m, le_max_left _ _, stays _ (le_max_right _ _)⟩
  have on : ∀ m, Ongoing (t.state m) := fun m => ⟨reach_inv (reach m), reach_unread (reach m), live m⟩
  have leaving : t.LeadsTo System.Leaving fun s => s.task = .poweroff ∨ s.task = .spin := by
    intro m leaving
    rcases leaving with orderly | powered
    · exact power_live on fair m orderly
    · exact ⟨m, le_rfl, powered⟩
  have power := (store_live on fair th).trans ((report_live on fair).trans
    ((command_live on fair).trans ((orderly_live on fair).trans leaving)))
  obtain ⟨m, -, poweroff | spin⟩ := power n pc
  · obtain ⟨k, -, spin⟩ := outb_live on fair m poweroff
    exact spin_ends on fair k spin
  · exact spin_ends on fair m spin

/-- The run of `twoSignals` is fair, for nothing is left to be done after it. -/
theorem poweroff_live_twice :
    ∃ t : Trace (step (T := Unit)), t.state 0 = start Unit ∧ (∀ a, Act.Must a → t.StronglyFair a) ∧
      (t.state 2).vmm.handlers (some ()) = .store ∧ ∃ m ≥ 2, (t.state m).Stopped := by
  obtain ⟨s, ends⟩ : ∃ s, twoSignals.foldlM step (start Unit) = .ok s := ⟨_, rfl⟩
  obtain ⟨t, states⟩ := exists_trace ends
  have zero : t.state 0 = start Unit := (Except.ok.inj (states 0)).symm
  have stored := of_decide_eq_true (Trace.test_state (m := 2) states
    (fun s => decide (s.vmm.handlers (some ()) = .store)) (by decide +kernel))
  have last : ∀ m ≥ 31, t.state m = s := fun m hm => Trace.last_state states ends hm
  have dead : s.vmm.vcpu = .stopped .power ∧ s.vmm.handlers Option.none = .idle ∧ s.vmm.handlers (some ()) = .idle := by
    rw [← last 31 le_rfl]
    exact of_decide_eq_true (Trace.test_state (m := 31) states (fun s => decide (s.vmm.vcpu = .stopped .power ∧
      s.vmm.handlers Option.none = .idle ∧ s.vmm.handlers (some ()) = .idle)) (by decide +kernel))
  have fair : ∀ a, Act.Must a → t.StronglyFair a := by
    intro a must
    refine .of_dead 31 fun m hm ⟨s', e⟩ => ?_
    rw [last m hm] at e
    have idle : ∀ th, s.vmm.handlers th = .idle := by
      intro th
      cases th with
      | none => exact dead.2.1
      | some u => exact dead.2.2
    cases step_effect e with
    | deliver | other | fatal | fail | shutdown => exact must
    | store pc | raise pc | lower pc => simp [idle] at pc
    | read _ pc | clear _ pc => simp [dead.1] at pc
    | onward _ on => grind [Onward]
    | inb runs | resume runs | halt runs | ignore runs => simp [System.Runs, dead.1] at runs
    | irq free | startWork free | work free | unknown free | pmPowerOff free | outb free =>
      simp [System.Free, System.Runs, dead.1] at free
  exact ⟨t, zero, fair, stored, poweroff_live zero fair (some ()) 2 stored⟩

end Mvvmm.Vm.Poweroff
