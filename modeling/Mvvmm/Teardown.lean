import Mvvmm.Lib.CMem
import Mvvmm.Lib.Run
import Mathlib.Data.List.FinRange
import Mathlib.Logic.Function.Basic

/-!
# Teardown

`mvvm_destroy` with both devices, against the threads that are still running: the workers of the pool, the two
poll threads of the ioeventfds, and the thread that receives packets. The vCPU runs in the main thread and has
stopped before.

The model is about which thread uses what, and when. A thread is where it is in its loop (`Pc`), a step of it
uses the resources that the code at this place dereferences (`uses`), and the main thread releases the resources
one by one. What the rings hold is left open: `queue_notify` pops any number of chains, and for each of them may
go to the backend. The mutexes of the devices are kept; a submission to the pool is one step, which is refused
if no worker is free or `quit` is set.

`mvvm_destroy` unmaps the guest memory first, frees each worker when it has joined its thread, then the pool and the
context of the block device, while the poll thread still serves its queue, and the context of the network device
likewise. All this is harmless only if nothing is going on at that moment and nothing comes in afterwards (`Quiet`).
-/

namespace Mvvmm.Teardown
open CMem Run

/-- The two devices. -/
inductive Device where
  | blk
  | net
  deriving DecidableEq, Repr

/-- What `mvvm_destroy` releases: the mapping of the guest memory, the workers of the thread pool (C `struct
worker_thread`), the pool with its arrays, the contexts of the two backends (C `struct block_device_ctx` and `struct
tap_net_ctx`), and the two devices with what belongs to them. -/
inductive Resource (n : Nat) where
  | guestMem
  | worker (i : Fin n)
  | pool
  | blkCtx
  | netCtx
  | device (d : Device)
  deriving DecidableEq, Repr

/-- A thread other than the main thread. -/
inductive Thread (n : Nat) where
  | worker (i : Fin n)
  | poll (d : Device)
  | rx
  deriving DecidableEq, Repr

variable {n : Nat}

/-- The device whose lock the thread takes. -/
def Thread.device : Thread n → Device
  | .worker _ => .blk
  | .poll d => d
  | .rx => .net

/-- Where a thread is. -/
inductive Pc where
  /-- A worker waits for a task, a poll thread is in `poll`, the receiving thread in `timed_read`. -/
  | rest
  /-- The worker has a task: it is in its slot, or `pread` or `pwrite` is going on. -/
  | task
  /-- At the lock of the device. -/
  | lock
  /-- In `virtio_block_req_end`, from the callback. -/
  | answer
  /-- In the loop of `queue_notify`. -/
  | notify
  /-- In `block_read_async` or `block_write_async`, or in `write_packet_to_ether`. -/
  | backend
  /-- In `virtio_block_req_end`, after a refused submission. -/
  | refused
  /-- In `virtio_net_can_write_packet`. -/
  | check
  /-- At the lock in `virtio_net_write_packet`. -/
  | lockAgain
  | deliver
  /-- The worker has returned from its task and is to clear its flag. -/
  | release
  | exited
  deriving DecidableEq, Repr

/-- The thread is on its way to the guest memory, or in it. -/
def Pc.touches : Pc → Bool
  | .rest | .release | .exited => false
  | _ => true

/-- What the code at a place dereferences. -/
def uses (t : Thread n) : Pc → List (Resource n)
  | .rest | .release =>
    match t with
    | .worker i => [.worker i, .pool]
    | .poll d => [.device d]
    | .rx => [.netCtx]
  | .task =>
    match t with
    | .worker i => [.worker i]
    | .poll _ | .rx => []
  | .lock | .lockAgain => [.device t.device]
  | .answer | .notify | .refused | .check | .deliver => [.device t.device, .guestMem]
  | .backend =>
    match t.device with
    | .blk => [.device .blk, .blkCtx, .pool]
    | .net => [.device .net, .netCtx, .guestMem]
  | .exited => []

/-- Where the main thread is in `mvvm_destroy`; `run` is before its `munmap`. -/
inductive MainPc where
  | run
  | poolQuit
  | joinWorker (i : Nat)
  | freePool
  | freeBlkCtx
  | stopPoll (d : Device)
  | joinPoll (d : Device)
  | freeDevice (d : Device)
  | netQuit
  | joinRx
  | freeNetCtx
  | done
  deriving DecidableEq, Repr

/-- What the main thread dereferences. -/
def MainPc.uses : MainPc → List (Resource n)
  | .poolQuit => [.device .blk, .blkCtx, .pool]
  | .joinWorker i => if h : i < n then [.pool, .worker ⟨i, h⟩] else [.pool]
  | .freePool => [.pool]
  | .stopPoll d | .joinPoll d | .freeDevice d => [.device d]
  | .netQuit => [.device .net, .netCtx]
  | .joinRx => [.netCtx]
  | .run | .freeBlkCtx | .freeNetCtx | .done => []

/-- The threads, the mutexes of the devices, the flags that tell the threads to stop, and which resources are
still there. -/
structure Vm (n : Nat) where
  live : Resource n → Bool
  main : MainPc
  pc : Thread n → Pc
  lock : Device → Option (Thread n)
  quit : Bool
  enabled : Device → Bool
  rxQuit : Bool

/-- Which thread goes on, and how. -/
inductive Act (n : Nat) where
  | main
  /-- A wait of the thread has timed out, and it waits again. -/
  | idle (t : Thread n)
  /-- An eventfd is ready, or a packet was read. -/
  | wake (t : Thread n)
  /-- The thread sees that it is to stop, and returns. -/
  | stop (t : Thread n)
  | go (t : Thread n)
  /-- `queue_notify` pops a chain, which goes to the backend or not. -/
  | pop (t : Thread n) (submits : Bool)
  /-- The thread unlocks the device and has nothing more to do there. -/
  | leave (t : Thread n)
  deriving DecidableEq, Repr

/-- The worker that a submission finds: the first one whose flag `is_working` is clear. That a submission refused because
of `quit` leaves the flag of its worker set is left out, as all later ones are refused as well. -/
def Vm.found (s : Vm n) : Option (Fin n) :=
  (List.finRange n).find? fun i => s.pc (.worker i) = .rest || s.pc (.worker i) = .exited

/-- The worker that a thread gives a task to, or tries to. -/
def Vm.submits (s : Vm n) (t : Thread n) : List (Resource n) :=
  if s.pc t = .backend ∧ t.device = .blk then s.found.toList.map .worker else []

/-- What an action dereferences. -/
def Act.uses (s : Vm n) : Act n → List (Resource n)
  | .main => s.main.uses
  | .idle t | .wake t | .stop t | .go t | .pop t _ | .leave t => Teardown.uses t (s.pc t) ++ s.submits t

namespace Vm

/-- The main thread releases a resource. -/
def free (s : Vm n) (r : Resource n) (main : MainPc) : Vm n :=
  { s with live := Function.update s.live r false, main }

/-- A thread goes on. -/
def move (s : Vm n) (t : Thread n) (pc : Pc) : Vm n :=
  { s with pc := Function.update s.pc t pc }

/-- A thread locks its device. -/
def locked (s : Vm n) (t : Thread n) : Vm n :=
  { s with lock := Function.update s.lock t.device (some t) }

/-- A thread unlocks its device. -/
def unlocked (s : Vm n) (t : Thread n) : Vm n :=
  { s with lock := Function.update s.lock t.device none }

/-- The thread has been told to stop. -/
def told (s : Vm n) : Thread n → Bool
  | .worker _ => s.quit
  | .poll d => !s.enabled d
  | .rx => s.rxQuit

end Vm

/-- C `mvvm_destroy`, with `mvvm_destroy_virtio_blk`, `delete_thread_pool`, `mvvm_destroy_virtio_net` and
`virtio_ioeventfd_stop`. -/
def mvvmDestroy (s : Vm n) : Except Stop (Vm n) :=
  match s.main with
  | .run => return s.free .guestMem .poolQuit
  | .poolQuit => return { s with quit := true, main := .joinWorker 0 }
  | .joinWorker i =>
    if h : i < n then
      if s.pc (.worker ⟨i, h⟩) = .exited then return s.free (.worker ⟨i, h⟩) (.joinWorker (i + 1))
      else .error .blocked
    else return { s with main := .freePool }
  | .freePool => return s.free .pool .freeBlkCtx
  | .freeBlkCtx => return s.free .blkCtx (.stopPoll .blk)
  | .stopPoll d => return { s with enabled := Function.update s.enabled d false, main := .joinPoll d }
  | .joinPoll d =>
    if s.pc (.poll d) = .exited then return { s with main := .freeDevice d } else .error .blocked
  | .freeDevice .blk => return s.free (.device .blk) .netQuit
  | .netQuit => return { s with rxQuit := true, main := .joinRx }
  | .joinRx => if s.pc .rx = .exited then return { s with main := .freeNetCtx } else .error .blocked
  | .freeNetCtx => return s.free .netCtx (.stopPoll .net)
  | .freeDevice .net => return s.free (.device .net) .done
  | .done => .error .blocked

/-- Where a thread goes when it has the lock of its device. -/
def Thread.entered : Thread n → Pc
  | .worker _ => .answer
  | .poll _ => .notify
  | .rx => .check

/-- A thread goes on where it has no choice. -/
def threadGo (s : Vm n) (t : Thread n) : Except Stop (Vm n) :=
  match s.pc t with
  | .task => return s.move t .lock
  | .lock =>
    if (s.lock t.device).isNone then return (s.locked t).move t t.entered else .error .blocked
  | .answer | .refused => return s.move t .notify
  | .backend =>
    match t.device with
    | .blk =>
      match s.found with
      | some w =>
        -- a worker has ended only after `quit`
        if s.pc (.worker w) = .rest ∧ s.quit = false then return (s.move (.worker w) .task).move t .notify
        else return s.move t .refused
      | none => return s.move t .refused
    | .net => return s.move t .notify
  | .check => return (s.unlocked t).move t .lockAgain
  | .lockAgain =>
    if (s.lock t.device).isNone then return (s.locked t).move t .deliver else .error .blocked
  | .release => return s.move t .rest
  | .rest | .notify | .deliver | .exited => .error .blocked

/-- A step of the threads. -/
def vmStep (s : Vm n) : Act n → Except Stop (Vm n)
  | .main => mvvmDestroy s
  | .idle t => if s.pc t = .rest then return s else .error .blocked
  | .wake t =>
    match t with
    | .worker _ => .error .blocked
    | .poll _ | .rx => if s.pc t = .rest then return s.move t .lock else .error .blocked
  | .stop t => if s.pc t = .rest ∧ s.told t then return s.move t .exited else .error .blocked
  | .go t => threadGo s t
  | .pop t submits =>
    if s.pc t = .notify then return s.move t (if submits then .backend else .notify)
    else .error .blocked
  | .leave t =>
    match s.pc t with
    | .notify =>
      match t with
      | .worker _ => return (s.unlocked t).move t .release
      | .poll _ | .rx => return (s.unlocked t).move t .rest
    | .check | .deliver => return (s.unlocked t).move t .rest
    | _ => .error .blocked

/-- Everything is set up, and all threads are at rest. -/
def running (n : Nat) : Vm n :=
  ⟨fun _ => true, .run, fun _ => .rest, fun _ => none, false, fun _ => true, false⟩

/-- The step uses nothing that has been released. -/
def Safe (s : Vm n) (a : Act n) : Prop :=
  ∀ r ∈ a.uses s, s.live r = true

instance (s : Vm n) (a : Act n) : Decidable (Safe s a) :=
  inferInstanceAs (Decidable (∀ r ∈ _, _))

/-- No thread is on its way to the guest memory. -/
def Settled (s : Vm n) : Prop :=
  (∀ i, (s.pc (.worker i)).touches = false) ∧ (s.pc (.poll .blk)).touches = false ∧
    (s.pc (.poll .net)).touches = false ∧ (s.pc .rx).touches = false

instance (s : Vm n) : Decidable (Settled s) :=
  inferInstanceAs (Decidable (_ ∧ _))

/-- The guest memory is unmapped when no thread is on its way to it, and after that no eventfd is ready and no
packet comes in. -/
def Quiet (s : Vm n) : Act n → Prop
  | .main => s.main = .run → Settled s
  | .wake _ => s.live .guestMem = true
  | _ => True

instance (s : Vm n) : (a : Act n) → Decidable (Quiet s a)
  | .main => inferInstanceAs (Decidable (_ → _))
  | .wake _ => inferInstanceAs (Decidable (_ = _))
  | .idle _ | .stop _ | .go _ | .pop .. | .leave _ => .isTrue trivial

/-! ## What a step does -/

variable {s s' : Vm n} {a : Act n} {t t' : Thread n}

/-- The thread that takes a step. -/
def Act.thread : Act n → Option (Thread n)
  | .main => none
  | .idle t | .wake t | .stop t | .go t | .pop t _ | .leave t => some t

/-- All that a step of a thread can do to the threads: it moves on, and goes towards the guest memory only if it
has been woken up; it may give a task to a worker at rest. -/
inductive ThreadEffect (s : Vm n) (a : Act n) (t : Thread n) : Vm n → Prop where
  | moves {pc lock} (alive : s.pc t ≠ .exited)
    (way : pc.touches = true → (s.pc t).touches = true ∨ a = .wake t) :
    ThreadEffect s a t { s.move t pc with lock }
  | submits {w} (pc : s.pc t = .backend) (free : s.pc (.worker w) = .rest) :
    ThreadEffect s a t ((s.move (.worker w) .task).move t .notify)

/-- A step of a thread at its place. -/
lemma threadGo_effect (h : threadGo s t = .ok s') : ThreadEffect s a t s' := by
  cases pc : s.pc t with
  | backend =>
    simp only [threadGo, pc] at h
    split at h
    · split at h
      · split at h
        · rename_i free
          obtain rfl := Except.ok.inj h
          exact .submits pc free.1
        · obtain rfl := Except.ok.inj h
          exact .moves (by simp [pc]) (by simp [pc, Pc.touches])
      · obtain rfl := Except.ok.inj h
        exact .moves (by simp [pc]) (by simp [pc, Pc.touches])
    · obtain rfl := Except.ok.inj h
      exact .moves (by simp [pc]) (by simp [pc, Pc.touches])
  | lock | lockAgain =>
    simp only [threadGo, pc] at h
    split at h
    · obtain rfl := Except.ok.inj h
      exact .moves (by simp [pc]) (by simp [pc, Pc.touches])
    · cases h
  | task | answer | refused | check | release =>
    simp only [threadGo, pc] at h
    obtain rfl := Except.ok.inj h
    exact .moves (by simp [pc]) (by simp [pc, Pc.touches])
  | rest | notify | deliver | exited =>
    simp only [threadGo, pc] at h
    cases h

/-- Inversion of `vmStep`. -/
lemma vmStep_effect (h : vmStep s a = .ok s') :
    (a = .main ∧ mvvmDestroy s = .ok s') ∨ ∃ t, a.thread = some t ∧ ThreadEffect s a t s' := by
  cases a with
  | main => exact .inl ⟨rfl, h⟩
  | idle t =>
    simp only [vmStep] at h
    split at h
    · rename_i rest
      obtain rfl := Except.ok.inj h
      refine .inr ⟨t, rfl, ?_⟩
      have stay : s = { s.move t (s.pc t) with lock := s.lock } := by simp [Vm.move]
      have eff : ThreadEffect s (.idle t) t { s.move t (s.pc t) with lock := s.lock } :=
        .moves (by simp [rest]) (by simp [rest, Pc.touches])
      rwa [← stay] at eff
    · cases h
  | wake t =>
    simp only [vmStep] at h
    split at h
    · cases h
    all_goals
      split at h
      · rename_i rest
        obtain rfl := Except.ok.inj h
        exact .inr ⟨_, rfl, .moves (by simp [rest]) fun _ => .inr rfl⟩
      · cases h
  | stop t =>
    simp only [vmStep] at h
    split at h
    · rename_i cond
      obtain rfl := Except.ok.inj h
      exact .inr ⟨t, rfl, .moves (by simp [cond.1]) (by simp [Pc.touches])⟩
    · cases h
  | go t => exact .inr ⟨t, rfl, threadGo_effect h⟩
  | pop t submits =>
    simp only [vmStep] at h
    split at h
    · rename_i pc
      obtain rfl := Except.ok.inj h
      exact .inr ⟨t, rfl, .moves (by simp [pc]) (by simp [pc, Pc.touches])⟩
    · cases h
  | leave t =>
    simp only [vmStep] at h
    refine .inr ⟨t, rfl, ?_⟩
    split at h
    · rename_i pc
      split at h
      all_goals
        obtain rfl := Except.ok.inj h
        exact .moves (by simp [pc]) (by simp [Pc.touches])
    · rename_i pc
      obtain rfl := Except.ok.inj h
      exact .moves (by simp [pc]) (by simp [Pc.touches])
    · rename_i pc
      obtain rfl := Except.ok.inj h
      exact .moves (by simp [pc]) (by simp [Pc.touches])
    · cases h

/-! ## The order of the teardown -/

/-- How far the main thread has come; `n` is the number of workers. -/
def MainPc.stage (n : Nat) : MainPc → Nat
  | .run => 0
  | .poolQuit => 1
  | .joinWorker k => 2 + k
  | .freePool => n + 3
  | .freeBlkCtx => n + 4
  | .stopPoll .blk => n + 5
  | .joinPoll .blk => n + 6
  | .freeDevice .blk => n + 7
  | .netQuit => n + 8
  | .joinRx => n + 9
  | .freeNetCtx => n + 10
  | .stopPoll .net => n + 11
  | .joinPoll .net => n + 12
  | .freeDevice .net => n + 13
  | .done => n + 14

/-- The stage at which a resource is released. -/
def Resource.freedAt : Resource n → Nat
  | .guestMem => 0
  | .worker i => 2 + i
  | .pool => n + 3
  | .blkCtx => n + 4
  | .device .blk => n + 7
  | .netCtx => n + 10
  | .device .net => n + 13

/-- The stage from which on the thread has been joined. -/
def Thread.joinedAt : Thread n → Nat
  | .worker i => 3 + i
  | .poll .blk => n + 7
  | .rx => n + 10
  | .poll .net => n + 13

/-- What holds in every state of a quiet run. -/
structure Inv (s : Vm n) : Prop where
  live : ∀ r, s.live r = decide (s.main.stage n ≤ r.freedAt)
  settled : s.main ≠ .run → ∀ t, (s.pc t).touches = false
  joined : ∀ t, t.joinedAt ≤ s.main.stage n → s.pc t = .exited
  joining : ∀ k, s.main = .joinWorker k → k ≤ n

/-- The stages at which a thread has just been joined. -/
lemma Thread.joinedAt_eq (t : Thread n) :
    (∃ i : Fin n, t = .worker i ∧ t.joinedAt = 3 + i) ∨ t = .poll .blk ∧ t.joinedAt = n + 7 ∨
      t = .rx ∧ t.joinedAt = n + 10 ∨ t = .poll .net ∧ t.joinedAt = n + 13 := by
  cases t with
  | worker i => exact .inl ⟨i, rfl, rfl⟩
  | rx => exact .inr (.inr (.inl ⟨rfl, rfl⟩))
  | poll d =>
    cases d with
    | blk => exact .inr (.inl ⟨rfl, rfl⟩)
    | net => exact .inr (.inr (.inr ⟨rfl, rfl⟩))

/-- No thread has been joined at the beginning. -/
lemma Thread.joinedAt_pos (t : Thread n) : 0 < t.joinedAt := by
  rcases t.joinedAt_eq with ⟨i, -, e⟩ | ⟨-, e⟩ | ⟨-, e⟩ | ⟨-, e⟩ <;> omega

/-- The stages at which something is released. -/
lemma Resource.freedAt_eq (r : Resource n) :
    r = .guestMem ∧ r.freedAt = 0 ∨ (∃ i : Fin n, r = .worker i ∧ r.freedAt = 2 + i) ∨ r = .pool ∧ r.freedAt = n + 3 ∨
      r = .blkCtx ∧ r.freedAt = n + 4 ∨ r = .device .blk ∧ r.freedAt = n + 7 ∨ r = .netCtx ∧ r.freedAt = n + 10 ∨
      r = .device .net ∧ r.freedAt = n + 13 := by
  cases r with
  | worker i => exact .inr (.inl ⟨i, rfl, rfl⟩)
  | device d => cases d <;> simp [freedAt]
  | _ => simp [freedAt]

/-- One resource is released at a time. -/
lemma Resource.freedAt_inj {r r' : Resource n} (h : r.freedAt = r'.freedAt) : r = r' := by
  rcases r.freedAt_eq with ⟨a, e⟩ | ⟨i, a, e⟩ | ⟨a, e⟩ | ⟨a, e⟩ | ⟨a, e⟩ | ⟨a, e⟩ | ⟨a, e⟩ <;>
    rcases r'.freedAt_eq with ⟨a', e'⟩ | ⟨i', a', e'⟩ | ⟨a', e'⟩ | ⟨a', e'⟩ | ⟨a', e'⟩ | ⟨a', e'⟩ | ⟨a', e'⟩ <;>
    first | exact a.trans a'.symm | omega | exact (a.trans (congrArg _ (Fin.ext (by omega)))).trans a'.symm

/-- The running machine has released and joined nothing. -/
lemma inv_running : Inv (running n) := by
  refine ⟨fun r => by simp [running, MainPc.stage], by simp [running], ?_, by simp [running]⟩
  intro t h
  exact absurd h t.joinedAt_pos.not_ge

/-- No thread touches the guest memory when all have settled. -/
lemma Settled.touches (h : Settled s) (t : Thread n) : (s.pc t).touches = false := by
  obtain ⟨workers, blk, net, rx⟩ := h
  cases t with
  | worker i => exact workers i
  | rx => exact rx
  | poll d =>
    cases d with
    | blk => exact blk
    | net => exact net

/-- The main thread comes to the next stage, and releases what is to be released at this one. -/
lemma Inv.advance (h : Inv s) (pc : s'.pc = s.pc) (stage : s'.main.stage n = s.main.stage n + 1)
    (live : ∀ r : Resource n, s'.live r = (s.live r && r.freedAt != s.main.stage n))
    (settled : ∀ t, (s.pc t).touches = false)
    (joined : ∀ t, t.joinedAt = s.main.stage n + 1 → s.pc t = .exited)
    (joining : ∀ k, s'.main = .joinWorker k → k ≤ n) : Inv s' where
  live r := by
    rw [live, h.live, stage, Bool.eq_iff_iff]
    simp only [Bool.and_eq_true, decide_eq_true_eq, bne_iff_ne]
    omega
  settled _ t := by
    rw [pc]
    exact settled t
  joined t ht := by
    rw [pc]
    by_cases now : t.joinedAt = s.main.stage n + 1
    · exact joined t now
    · exact h.joined t (by omega)
  joining := joining

/-- It releases a resource at its stage. -/
lemma Inv.frees (h : Inv s) {r : Resource n} {m : MainPc} (settled : ∀ t, (s.pc t).touches = false)
    (now : r.freedAt = s.main.stage n) (next : m.stage n = s.main.stage n + 1)
    (joined : ∀ t, t.joinedAt = s.main.stage n + 1 → s.pc t = .exited) (joining : ∀ k, m = .joinWorker k → k ≤ n) :
    Inv (s.free r m) := by
  refine h.advance rfl next ?_ settled joined joining
  intro r'
  by_cases e : r' = r
  · subst e
    simp [Vm.free, now]
  · have ne : r'.freedAt ≠ s.main.stage n := fun eq => e (Resource.freedAt_inj (eq.trans now.symm))
    simp [Vm.free, e, ne]

/-- It goes on without releasing anything. -/
lemma Inv.goesOn (h : Inv s) (settled : ∀ t, (s.pc t).touches = false) (pc : s'.pc = s.pc)
    (live : s'.live = s.live) (next : s'.main.stage n = s.main.stage n + 1)
    (none : ∀ r : Resource n, r.freedAt ≠ s.main.stage n)
    (joined : ∀ t, t.joinedAt = s.main.stage n + 1 → s.pc t = .exited)
    (joining : ∀ k, s'.main = .joinWorker k → k ≤ n) : Inv s' := by
  refine h.advance pc next ?_ settled joined joining
  intro r
  rw [live, bne_iff_ne.mpr (none r), Bool.and_true]

/-- A stage at which no thread is joined. -/
lemma Thread.joinedAt_ne {k : Nat} (other : (k ≤ 2 ∨ n + 3 ≤ k) ∧ k ≠ n + 7 ∧ k ≠ n + 10 ∧ k ≠ n + 13)
    (t : Thread n) : t.joinedAt ≠ k := by
  rcases t.joinedAt_eq with ⟨i, -, e⟩ | ⟨-, e⟩ | ⟨-, e⟩ | ⟨-, e⟩ <;> omega

/-- A stage at which nothing is released. -/
lemma Resource.freedAt_ne {k : Nat}
    (other : k ≠ 0 ∧ (k < 2 ∨ n + 2 ≤ k) ∧ k ≠ n + 3 ∧ k ≠ n + 4 ∧ k ≠ n + 7 ∧ k ≠ n + 10 ∧ k ≠ n + 13)
    (r : Resource n) : r.freedAt ≠ k := by
  rcases r.freedAt_eq with ⟨-, e⟩ | ⟨i, -, e⟩ | ⟨-, e⟩ | ⟨-, e⟩ | ⟨-, e⟩ | ⟨-, e⟩ | ⟨-, e⟩ <;> omega

/-- It joins the workers one by one. -/
lemma Inv.joinWorker (h : Inv s) {k : Nat} (settled : ∀ t, (s.pc t).touches = false) (m : s.main = .joinWorker k)
    (e : mvvmDestroy s = .ok s') : Inv s' := by
  have le := h.joining k m
  have stage : s.main.stage n = 2 + k := by rw [m]; rfl
  simp only [mvvmDestroy, m] at e
  split at e
  · rename_i lt
    split at e
    · rename_i exited
      obtain rfl := Except.ok.inj e
      refine h.frees settled (by rw [stage]; rfl) (by rw [stage]; exact (Nat.add_assoc ..).symm) ?_ ?_
      · intro t ht
        rcases t.joinedAt_eq with ⟨i, rfl, e⟩ | ⟨-, e⟩ | ⟨-, e⟩ | ⟨-, e⟩
        · obtain rfl : i = ⟨k, lt⟩ := Fin.ext (show i.val = k by omega)
          exact exited
        all_goals omega
      · rintro k' e
        cases e
        exact lt
    · cases e
  · obtain rfl := Except.ok.inj e
    exact h.goesOn settled rfl rfl (show n + 3 = _ by omega) (Resource.freedAt_ne (by omega))
      (fun t ht => absurd ht (Thread.joinedAt_ne (by omega) t)) (by simp)

/-- A step of the main thread. -/
lemma Inv.main (h : Inv s) (quiet : Quiet s .main) (e : mvvmDestroy s = .ok s') : Inv s' := by
  have settled : ∀ t, (s.pc t).touches = false := by
    by_cases run : s.main = .run
    · exact (quiet run).touches
    · exact h.settled run
  cases m : s.main with
  | run | freePool | freeBlkCtx | freeNetCtx =>
    simp only [mvvmDestroy, m] at e
    obtain rfl := Except.ok.inj e
    exact h.frees settled (by rw [m]; rfl) (by rw [m]; rfl)
      (fun t ht => absurd ht (Thread.joinedAt_ne (by simp [m, MainPc.stage]) t)) (by simp)
  | freeDevice d =>
    simp only [mvvmDestroy, m] at e
    cases d
    all_goals
      obtain rfl := Except.ok.inj e
      exact h.frees settled (by rw [m]; rfl) (by rw [m]; rfl)
        (fun t ht => absurd ht (Thread.joinedAt_ne (by simp [m, MainPc.stage]) t)) (by simp)
  | poolQuit | netQuit =>
    simp only [mvvmDestroy, m] at e
    obtain rfl := Except.ok.inj e
    exact h.goesOn settled rfl rfl (by rw [m]; rfl) (Resource.freedAt_ne (by simp [m, MainPc.stage]))
      (fun t ht => absurd ht (Thread.joinedAt_ne (by simp [m, MainPc.stage]) t)) (by simp)
  | stopPoll d =>
    simp only [mvvmDestroy, m] at e
    obtain rfl := Except.ok.inj e
    cases d
    all_goals
      exact h.goesOn settled rfl rfl (by rw [m]; rfl) (Resource.freedAt_ne (by simp [m, MainPc.stage]))
        (fun t ht => absurd ht (Thread.joinedAt_ne (by simp [m, MainPc.stage]) t)) (by simp)
  | joinWorker k => exact h.joinWorker settled m e
  | joinPoll d =>
    simp only [mvvmDestroy, m] at e
    split at e
    · rename_i exited
      obtain rfl := Except.ok.inj e
      cases d
      all_goals
        refine h.goesOn settled rfl rfl (by rw [m]; rfl) (Resource.freedAt_ne (by simp [m, MainPc.stage])) ?_ (by simp)
        intro t ht
        simp only [m, MainPc.stage] at ht
        rcases t.joinedAt_eq with ⟨i, -, e⟩ | ⟨rfl, e⟩ | ⟨-, e⟩ | ⟨rfl, e⟩ <;> first | exact exited | omega
    · cases e
  | joinRx =>
    simp only [mvvmDestroy, m] at e
    split at e
    · rename_i exited
      obtain rfl := Except.ok.inj e
      refine h.goesOn settled rfl rfl (by rw [m]; rfl) (Resource.freedAt_ne (by simp [m, MainPc.stage])) ?_ (by simp)
      intro t ht
      simp only [m, MainPc.stage] at ht
      rcases t.joinedAt_eq with ⟨i, -, e⟩ | ⟨-, e⟩ | ⟨rfl, e⟩ | ⟨-, e⟩ <;> first | exact exited | omega
    · cases e
  | done =>
    simp only [mvvmDestroy, m] at e
    cases e

/-- A step of another thread: after the unmapping it does not go to the guest memory any more, and who has been
joined does not step. -/
lemma Inv.thread (h : Inv s) (quiet : ∀ t, a = .wake t → s.live .guestMem = true)
    (e : ThreadEffect s a t s') : Inv s' := by
  cases e with
  | @moves pc lock alive way =>
    have other : ∀ t', s.pc t' = .exited → (s.move t pc).pc t' = .exited := by
      intro t' exited
      simp only [Vm.move, Function.update_apply]
      split
      · rename_i e
        exact absurd (e ▸ exited) alive
      · exact exited
    refine ⟨h.live, ?_, fun t' ht => other t' (h.joined t' ht), h.joining⟩
    intro run t'
    have here := h.settled run
    simp only [Vm.move, Function.update_apply]
    split
    · by_contra touches
      obtain before | woken := way (by simpa using touches)
      · rw [here t] at before
        cases before
      · have mapped := quiet t woken
        rw [h.live] at mapped
        cases m : s.main with
        | run => exact run m
        | stopPoll d | joinPoll d | freeDevice d =>
          cases d <;> simp [m, MainPc.stage, Resource.freedAt] at mapped
        | _ => simp [m, MainPc.stage, Resource.freedAt] at mapped
    · exact here t'
  | @submits w pc free =>
    have run : s.main = .run := by
      by_contra run
      have here := h.settled run t
      rw [pc] at here
      cases here
    have early : s.main.stage n = 0 := by rw [run]; rfl
    refine ⟨h.live, fun ne => absurd run ne, fun t' ht => ?_, h.joining⟩
    exact absurd ht (by simpa only [Vm.move, early] using t'.joinedAt_pos.not_ge)

/-- Every step of a quiet run keeps the invariant. -/
lemma inv_step (h : Inv s) (quiet : Quiet s a) (e : vmStep s a = .ok s') : Inv s' := by
  obtain ⟨rfl, e⟩ | ⟨t, -, eff⟩ := vmStep_effect e
  · exact h.main quiet e
  · refine h.thread ?_ eff
    rintro t' rfl
    exact quiet

/-- A thread that steps finds what it uses. -/
lemma Inv.uses_live (h : Inv s) (alive : s.pc t ≠ .exited) {r : Resource n} (hr : r ∈ uses t (s.pc t) ++ s.submits t) :
    s.live r = true := by
  by_cases run : s.main = .run
  · rw [h.live, run]
    simp [MainPc.stage]
  · -- it is at rest or about to be, so what it uses is released only after it was joined
    have settled := h.settled run t
    have joined := h.joined t
    have hr : r ∈ uses t (s.pc t) := by
      have quiet : s.pc t ≠ .backend := by
        intro pc
        rw [pc] at settled
        cases settled
      simpa [Vm.submits, quiet] using hr
    rw [h.live, decide_eq_true_eq]
    by_contra late
    refine alive (joined ?_)
    cases pc : s.pc t with
    | rest | release =>
      rw [pc] at hr
      cases t with
      | worker i =>
        have lt := i.isLt
        obtain rfl | rfl : r = .worker i ∨ r = .pool := by simpa [uses] using hr
        all_goals
          simp only [Resource.freedAt, Thread.joinedAt] at late ⊢
          omega
      | rx =>
        obtain rfl : r = .netCtx := by simpa [uses] using hr
        simp only [Resource.freedAt, Thread.joinedAt] at late ⊢
        omega
      | poll d =>
        obtain rfl : r = .device d := by simpa [uses] using hr
        cases d
        all_goals
          simp only [Resource.freedAt, Thread.joinedAt] at late ⊢
          omega
    | exited => exact absurd pc alive
    | _ =>
      rw [pc] at settled
      cases settled

/-- So does the main thread. -/
lemma Inv.main_uses_live (h : Inv s) {r : Resource n} (hr : r ∈ s.main.uses) : s.live r = true := by
  rw [h.live, decide_eq_true_eq]
  cases m : s.main with
  | stopPoll d | joinPoll d | freeDevice d =>
    rw [m] at hr
    obtain rfl : r = .device d := by simpa [MainPc.uses] using hr
    cases d <;> simp [MainPc.stage, Resource.freedAt]
  | run | freeBlkCtx | freeNetCtx | done =>
    rw [m] at hr
    cases hr
  | joinWorker k =>
    have le := h.joining k m
    rw [m, MainPc.uses] at hr
    simp only [MainPc.stage]
    split at hr
    · rename_i lt
      obtain rfl | rfl : r = .pool ∨ r = .worker ⟨k, lt⟩ := by simpa using hr
      · simp only [Resource.freedAt]
        omega
      · exact le_rfl
    · obtain rfl : r = .pool := by simpa using hr
      simp only [Resource.freedAt]
      omega
  | freePool =>
    rw [m] at hr
    obtain rfl : r = .pool := by simpa [MainPc.uses] using hr
    exact le_rfl
  | joinRx =>
    rw [m] at hr
    obtain rfl : r = .netCtx := by simpa [MainPc.uses] using hr
    simp [MainPc.stage, Resource.freedAt]
  | poolQuit =>
    rw [m] at hr
    obtain rfl | rfl | rfl : r = .device .blk ∨ r = .blkCtx ∨ r = .pool := by simpa [MainPc.uses] using hr
    all_goals simp [MainPc.stage, Resource.freedAt]
  | netQuit =>
    rw [m] at hr
    obtain rfl | rfl : r = .device .net ∨ r = .netCtx := by simpa [MainPc.uses] using hr
    all_goals simp [MainPc.stage, Resource.freedAt]

/-- In every run in which the guest memory is unmapped only when no thread is on its way to it, and nothing comes
in afterwards, no thread uses anything that has been released. -/
theorem teardown_safe (n : Nat) (s s' : Vm n) (a : Act n) (r : Reach vmStep Quiet (running n) s)
    (e : vmStep s a = .ok s') : Safe s a := by
  have h : Inv s := by
    refine r.invariant (I := Inv) inv_running ?_
    intro s a s' _ h quiet e
    exact inv_step h quiet e
  intro res hres
  obtain ⟨rfl, -⟩ | ⟨t, actor, eff⟩ := vmStep_effect e
  · exact h.main_uses_live hres
  · have alive : s.pc t ≠ .exited := by
      cases eff with
      | moves alive _ => exact alive
      | submits pc _ => simp [pc]
    refine h.uses_live alive ?_
    cases a with
    | main => cases actor
    | _ =>
      cases actor
      exact hres

/-- The poll thread submits a request and the worker answers it before the teardown, which then goes through to
its end. -/
theorem teardown_safe_served :
    ∃ s : Vm 1, Reach vmStep Quiet (running 1) s ∧ s.main = .freeDevice .net ∧
      ∃ s', vmStep s .main = .ok s' ∧ Safe s .main := by
  obtain ⟨s, r, t⟩ := Reach.of_test vmStep Quiet .blocked (running 1)
    ([.wake (.poll .blk), .go (.poll .blk), .pop (.poll .blk) true, .go (.poll .blk), .leave (.poll .blk),
      .go (.worker 0), .go (.worker 0), .go (.worker 0), .leave (.worker 0), .main, .go (.worker 0), .main,
      .stop (.worker 0), .main, .main, .main, .idle (.poll .blk), .main, .main, .stop (.poll .blk), .main, .main,
      .main, .stop .rx, .main, .main, .main, .stop (.poll .net), .main])
    (fun s => decide (s.main = .freeDevice .net)) (by decide +kernel)
  have main := of_decide_eq_true t
  have e : vmStep s .main = .ok (s.free (.device .net) .done) := by
    simp only [vmStep, mvvmDestroy, main]
    rfl
  exact ⟨s, r, main, _, e, teardown_safe 1 s _ .main r e⟩

/-- The guest memory is unmapped while a worker reads from the disk; its callback then stores into it. -/
theorem callback_after_unmap :
    ∃ s s' : Vm 1, Reach vmStep always (running 1) s ∧ s.live .guestMem = false ∧
      s.pc (.worker 0) = .answer ∧ vmStep s (.go (.worker 0)) = .ok s' ∧ ¬ Safe s (.go (.worker 0)) := by
  obtain ⟨s, r, t⟩ := Reach.of_test vmStep always .blocked (running 1)
    [.wake (.poll .blk), .go (.poll .blk), .pop (.poll .blk) true, .go (.poll .blk), .leave (.poll .blk),
      .main, .go (.worker 0), .go (.worker 0)]
    (fun s => decide (s.live .guestMem = false ∧ s.pc (.worker 0) = .answer)) (by decide +kernel)
  obtain ⟨unmapped, pc⟩ := of_decide_eq_true t
  refine ⟨s, s.move (.worker 0) .notify, r, unmapped, pc, ?_, ?_⟩
  · simp only [vmStep, threadGo, pc]
    rfl
  · intro safe
    have mapped := safe .guestMem (by simp [Act.uses, uses, pc])
    rw [unmapped] at mapped
    cases mapped

end Mvvmm.Teardown
