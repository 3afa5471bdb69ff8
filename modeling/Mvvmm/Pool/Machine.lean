import Mvvmm.Lib.CMem
import Mvvmm.Lib.Run
import Mathlib.Logic.Function.Basic

/-!
# The thread pool

Model of `threadpool.c` at the grain of single accesses to what the threads share. The threads are the
`n` workers, which run `worker_thread_fn`, and the calls of `thread_pool_run`, one for each element of an
arbitrary type `C`; the type says how many there are, and a thread that calls twice is two calls. Each
has its program counter. A step lets one thread go on, so that a run is an interleaving of all of them.

* A mutex is its holder. It is locked only when free, but `pthread_mutex_unlock` frees it whoever holds
  it: a worker that leaves unlocks `pool->lock`, which it has not locked, and keeps its own lock.
* A worker in `pthread_cond_timedwait` can wake up at any time, so that a signal changes nothing. As
  `ts.tv_nsec` may exceed a second, the call can also fail at once and keep the lock (`invalid`).
* `delete_thread_pool` is modelled up to its first `free`: it sets `quit` and waits.

`F` is the type of the functions and `A` that of their arguments; `none` is `NULL`. The field `call`
of a worker and the log of the pool are history: whose task is in the slot, and what has been
executed, latest first.
-/

namespace Mvvmm.Pool
open CMem

/-- A thread: a worker, or a call of `thread_pool_run`. -/
inductive Thread (n : Nat) (C : Type) where
  | worker (i : Fin n)
  | call (c : C)
  deriving DecidableEq, Repr

/-- Where a worker is in `worker_thread_fn`. -/
inductive WorkerPc (F A : Type) where
  /-- Before it locks `worker->lock` for the first time. -/
  | start
  /-- At the condition of the inner loop. -/
  | test
  /-- At the first operand of `quit && task_fn == NULL`. -/
  | testQuit
  /-- At the second operand. -/
  | testNull
  /-- At the call of `pthread_cond_timedwait`. -/
  | wait
  /-- In it, without the lock. -/
  | sleep
  /-- In `task_fn(arg)`. -/
  | running (fn : F) (arg : Option A)
  | clearFn
  | clearArg
  | lockPool
  | clearFlag
  | unlockPool
  /-- At the unlock of `pool->lock` before the `return`. -/
  | exiting
  | exited
  deriving DecidableEq, Repr

/-- Where a call is in `thread_pool_run`. -/
inductive CallPc (n : Nat) where
  /-- Before it locks `self->lock`. -/
  | start
  /-- At the head of the loop. -/
  | scan (k : Nat)
  | setFlag (i : Fin n)
  | unlockPool (i : Fin n)
  | lockWorker (i : Fin n)
  | testQuit (i : Fin n)
  | setFn (i : Fin n)
  | setArg (i : Fin n)
  /-- At the signal and the unlock before the `return`. -/
  | unlockWorker (i : Fin n) (ret : Int)
  /-- Behind the loop. -/
  | unlockFull
  | returned (ret : Int)
  deriving DecidableEq, Repr

/-- C `struct worker_thread`. -/
structure WorkerThread (n : Nat) (F A C : Type) where
  taskFn : Option F
  arg : Option A
  lock : Option (Thread n C)
  pc : WorkerPc F A
  call : Option C
  deriving DecidableEq, Repr

/-- What a call of `thread_pool_run` is to have executed. -/
structure Task (F A : Type) where
  fn : F
  arg : Option A
  deriving DecidableEq, Repr

/-- An executed task, and the call it was in the slot for. -/
structure Execution (F A C : Type) where
  call : Option C
  task : Task F A
  deriving DecidableEq, Repr

/-- C `struct thread_pool` with its threads. -/
structure ThreadPool (n : Nat) (F A C : Type) where
  workers : Fin n → WorkerThread n F A C
  isWorking : Fin n → Bool
  lock : Option (Thread n C)
  quit : Bool
  calls : C → CallPc n
  log : List (Execution F A C)

variable {n : Nat} {F A C : Type}

namespace ThreadPool

/-- The pool with one of its workers changed. -/
def setWorker (p : ThreadPool n F A C) (i : Fin n) (w : WorkerThread n F A C) : ThreadPool n F A C :=
  { p with workers := Function.update p.workers i w }

/-- The pool with a call gone on. -/
def setCall [DecidableEq C] (p : ThreadPool n F A C) (c : C) (pc : CallPc n) : ThreadPool n F A C :=
  { p with calls := Function.update p.calls c pc }

/-- The pool with a flag changed. -/
def setIsWorking (p : ThreadPool n F A C) (i : Fin n) (b : Bool) : ThreadPool n F A C :=
  { p with isWorking := Function.update p.isWorking i b }

section Fields
variable {p : ThreadPool n F A C} {i j : Fin n} {w : WorkerThread n F A C} {c c' : C} {pc : CallPc n}
  {b : Bool}

/-- The workers after one of them has changed. -/
@[simp, grind =]
lemma setWorker_workers : (p.setWorker i w).workers j = if j = i then w else p.workers j := by
  simp [setWorker, Function.update_apply]

/-- A change of a worker keeps the flags. -/
@[simp, grind =]
lemma setWorker_isWorking : (p.setWorker i w).isWorking j = p.isWorking j := rfl

/-- A change of a worker keeps the lock of the pool. -/
@[simp, grind =]
lemma setWorker_lock : (p.setWorker i w).lock = p.lock := rfl

/-- A change of a worker keeps `quit`. -/
@[simp, grind =]
lemma setWorker_quit : (p.setWorker i w).quit = p.quit := rfl

/-- A change of a worker keeps the calls. -/
@[simp, grind =]
lemma setWorker_calls : (p.setWorker i w).calls c = p.calls c := rfl

/-- A change of a worker keeps the history. -/
@[simp, grind =]
lemma setWorker_log : (p.setWorker i w).log = p.log := rfl

/-- A change of a flag keeps the workers. -/
@[simp, grind =]
lemma setIsWorking_workers : (p.setIsWorking i b).workers j = p.workers j := rfl

/-- The flags after one of them has changed. -/
@[simp, grind =]
lemma setIsWorking_isWorking :
    (p.setIsWorking i b).isWorking j = if j = i then b else p.isWorking j := by
  simp [setIsWorking, Function.update_apply]

/-- A change of a flag keeps the lock of the pool. -/
@[simp, grind =]
lemma setIsWorking_lock : (p.setIsWorking i b).lock = p.lock := rfl

/-- A change of a flag keeps `quit`. -/
@[simp, grind =]
lemma setIsWorking_quit : (p.setIsWorking i b).quit = p.quit := rfl

/-- A change of a flag keeps the calls. -/
@[simp, grind =]
lemma setIsWorking_calls : (p.setIsWorking i b).calls c = p.calls c := rfl

/-- A change of a flag keeps the history. -/
@[simp, grind =]
lemma setIsWorking_log : (p.setIsWorking i b).log = p.log := rfl

variable [DecidableEq C]

/-- A change of a call keeps the workers. -/
@[simp, grind =]
lemma setCall_workers : (p.setCall c pc).workers j = p.workers j := rfl

/-- A change of a call keeps the flags. -/
@[simp, grind =]
lemma setCall_isWorking : (p.setCall c pc).isWorking j = p.isWorking j := rfl

/-- A change of a call keeps the lock of the pool. -/
@[simp, grind =]
lemma setCall_lock : (p.setCall c pc).lock = p.lock := rfl

/-- A change of a call keeps `quit`. -/
@[simp, grind =]
lemma setCall_quit : (p.setCall c pc).quit = p.quit := rfl

/-- The calls after one of them has changed. -/
@[simp, grind =]
lemma setCall_calls : (p.setCall c pc).calls c' = if c' = c then pc else p.calls c' := by
  simp [setCall, Function.update_apply]

/-- A change of a call keeps the history. -/
@[simp, grind =]
lemma setCall_log : (p.setCall c pc).log = p.log := rfl

end Fields

/-- What holds of all workers, and of the changed one, holds of all workers. -/
lemma all_setWorker {p : ThreadPool n F A C} {i : Fin n} {w : WorkerThread n F A C}
    {P : Fin n → WorkerThread n F A C → Prop} (own : P i w) (h : ∀ j, P j (p.workers j)) :
    ∀ j, P j ((p.setWorker i w).workers j) :=
  (Function.forall_update_iff p.workers P).mpr ⟨own, fun j _ => h j⟩

end ThreadPool

/-- C `worker_thread_fn`, one step of a worker. -/
def workerThreadFn (p : ThreadPool n F A C) (i : Fin n) : Except Stop (ThreadPool n F A C) :=
  let w := p.workers i
  match w.pc with
  | .start | .sleep =>
    if w.lock.isNone then
      return p.setWorker i { w with lock := some (.worker i), pc := .test }
    else
      .error .blocked
  | .test =>
    match w.taskFn with
    | none => return p.setWorker i { w with pc := .testQuit }
    | some fn => return p.setWorker i { w with pc := .running fn w.arg }
  | .testQuit => return p.setWorker i { w with pc := if p.quit then .testNull else .wait }
  | .testNull => return p.setWorker i { w with pc := if w.taskFn.isNone then .exiting else .wait }
  | .wait => return p.setWorker i { w with lock := none, pc := .sleep }
  | .running fn arg =>
    return { p.setWorker i { w with pc := .clearFn } with log := ⟨w.call, fn, arg⟩ :: p.log }
  | .clearFn => return p.setWorker i { w with taskFn := none, call := none, pc := .clearArg }
  | .clearArg => return p.setWorker i { w with arg := none, pc := .lockPool }
  | .lockPool =>
    if p.lock.isNone then
      return { p.setWorker i { w with pc := .clearFlag } with lock := some (.worker i) }
    else
      .error .blocked
  | .clearFlag => return (p.setWorker i { w with pc := .unlockPool }).setIsWorking i false
  | .unlockPool => return { p.setWorker i { w with pc := .test } with lock := none }
  | .exiting => return { p.setWorker i { w with pc := .exited } with lock := none }
  | .exited => .error .blocked

/-- A call of `pthread_cond_timedwait` that fails at once. -/
def invalidWait (p : ThreadPool n F A C) (i : Fin n) : Except Stop (ThreadPool n F A C) :=
  match (p.workers i).pc with
  | .wait => return p.setWorker i { p.workers i with pc := .test }
  | _ => .error .blocked

/-- C `thread_pool_run`, one step of a call that submits the given task. -/
def threadPoolRun [DecidableEq C] (task : C → Task F A) (p : ThreadPool n F A C) (c : C) :
    Except Stop (ThreadPool n F A C) :=
  match p.calls c with
  | .start =>
    if p.lock.isNone then
      return { p.setCall c (.scan 0) with lock := some (.call c) }
    else
      .error .blocked
  | .scan k =>
    if h : k < n then
      return p.setCall c (if p.isWorking ⟨k, h⟩ then .scan (k + 1) else .setFlag ⟨k, h⟩)
    else
      return p.setCall c .unlockFull
  | .setFlag i => return (p.setCall c (.unlockPool i)).setIsWorking i true
  | .unlockPool i => return { p.setCall c (.lockWorker i) with lock := none }
  | .lockWorker i =>
    if (p.workers i).lock.isNone then
      return (p.setCall c (.testQuit i)).setWorker i { p.workers i with lock := some (.call c) }
    else
      .error .blocked
  | .testQuit i => return p.setCall c (if p.quit then .unlockWorker i (-1) else .setFn i)
  | .setFn i =>
    return (p.setCall c (.setArg i)).setWorker i
      { p.workers i with taskFn := some (task c).fn, call := some c }
  | .setArg i =>
    return (p.setCall c (.unlockWorker i 0)).setWorker i { p.workers i with arg := (task c).arg }
  | .unlockWorker i ret =>
    return (p.setCall c (.returned ret)).setWorker i { p.workers i with lock := none }
  | .unlockFull => return { p.setCall c (.returned (-1)) with lock := none }
  | .returned _ => .error .blocked

/-- Which thread goes on. -/
inductive PoolAct (n : Nat) (C : Type) where
  | worker (i : Fin n)
  | invalid (i : Fin n)
  | call (c : C)
  /-- C `delete_thread_pool`, up to its `pthread_join`. -/
  | quit
  deriving DecidableEq, Repr

/-- A step of the pool. -/
def poolStep [DecidableEq C] (task : C → Task F A) (p : ThreadPool n F A C) :
    PoolAct n C → Except Stop (ThreadPool n F A C)
  | .worker i => workerThreadFn p i
  | .invalid i => invalidWait p i
  | .call c => threadPoolRun task p c
  | .quit => return { p with quit := true }

/-- C `new_thread_pool`, before any of its threads has run. -/
def newThreadPool (n : Nat) (F A C : Type) : ThreadPool n F A C where
  workers _ := ⟨none, none, none, .start, none⟩
  isWorking _ := false
  lock := none
  quit := false
  calls _ := .start
  log := []

variable {p p' : ThreadPool n F A C}

/-- All that a step of a worker can do. -/
inductive WorkerEffect (p : ThreadPool n F A C) (i : Fin n) : ThreadPool n F A C → Prop where
  | lock (pc : (p.workers i).pc = .start ∨ (p.workers i).pc = .sleep)
    (free : (p.workers i).lock = none) :
    WorkerEffect p i (p.setWorker i { p.workers i with lock := some (.worker i), pc := .test })
  | empty (pc : (p.workers i).pc = .test) (fn : (p.workers i).taskFn = none) :
    WorkerEffect p i (p.setWorker i { p.workers i with pc := .testQuit })
  | call {f} (pc : (p.workers i).pc = .test) (fn : (p.workers i).taskFn = some f) :
    WorkerEffect p i (p.setWorker i { p.workers i with pc := .running f (p.workers i).arg })
  | quitting (pc : (p.workers i).pc = .testQuit) (quit : p.quit = true) :
    WorkerEffect p i (p.setWorker i { p.workers i with pc := .testNull })
  | staying (pc : (p.workers i).pc = .testQuit) (quit : p.quit = false) :
    WorkerEffect p i (p.setWorker i { p.workers i with pc := .wait })
  | leave (pc : (p.workers i).pc = .testNull) (fn : (p.workers i).taskFn = none) :
    WorkerEffect p i (p.setWorker i { p.workers i with pc := .exiting })
  | stay (pc : (p.workers i).pc = .testNull) (fn : (p.workers i).taskFn ≠ none) :
    WorkerEffect p i (p.setWorker i { p.workers i with pc := .wait })
  | sleep (pc : (p.workers i).pc = .wait) :
    WorkerEffect p i (p.setWorker i { p.workers i with lock := none, pc := .sleep })
  | finish {f a} (pc : (p.workers i).pc = .running f a) :
    WorkerEffect p i
      { p.setWorker i { p.workers i with pc := .clearFn } with
        log := ⟨(p.workers i).call, f, a⟩ :: p.log }
  | clearFn (pc : (p.workers i).pc = .clearFn) :
    WorkerEffect p i
      (p.setWorker i { p.workers i with taskFn := none, call := none, pc := .clearArg })
  | clearArg (pc : (p.workers i).pc = .clearArg) :
    WorkerEffect p i (p.setWorker i { p.workers i with arg := none, pc := .lockPool })
  | lockPool (pc : (p.workers i).pc = .lockPool) (free : p.lock = none) :
    WorkerEffect p i
      { p.setWorker i { p.workers i with pc := .clearFlag } with lock := some (.worker i) }
  | clearFlag (pc : (p.workers i).pc = .clearFlag) :
    WorkerEffect p i
      ((p.setWorker i { p.workers i with pc := .unlockPool }).setIsWorking i false)
  | unlockPool (pc : (p.workers i).pc = .unlockPool) :
    WorkerEffect p i { p.setWorker i { p.workers i with pc := .test } with lock := none }
  | exit (pc : (p.workers i).pc = .exiting) :
    WorkerEffect p i { p.setWorker i { p.workers i with pc := .exited } with lock := none }

/-- Inversion of `workerThreadFn`. -/
lemma workerThreadFn_effect {i : Fin n} (h : workerThreadFn p i = .ok p') : WorkerEffect p i p' := by
  cases hpc : (p.workers i).pc with
  | start | sleep =>
    simp only [workerThreadFn, hpc] at h
    split at h
    · rename_i free
      obtain rfl := Except.ok.inj h
      exact .lock (by simp [hpc]) (by simpa using free)
    · cases h
  | test =>
    simp only [workerThreadFn, hpc] at h
    split at h
    · obtain rfl := Except.ok.inj h
      exact .empty hpc (by assumption)
    · obtain rfl := Except.ok.inj h
      exact .call hpc (by assumption)
  | testQuit =>
    simp only [workerThreadFn, hpc] at h
    obtain rfl := Except.ok.inj h
    split
    · exact .quitting hpc (by assumption)
    · rename_i quit
      exact .staying hpc (by simpa using quit)
  | testNull =>
    simp only [workerThreadFn, hpc] at h
    obtain rfl := Except.ok.inj h
    split
    · rename_i fn
      exact .leave hpc (by simpa using fn)
    · rename_i fn
      exact .stay hpc (by simpa using fn)
  | wait =>
    simp only [workerThreadFn, hpc] at h
    obtain rfl := Except.ok.inj h
    exact .sleep hpc
  | running f a =>
    simp only [workerThreadFn, hpc] at h
    obtain rfl := Except.ok.inj h
    exact .finish hpc
  | clearFn =>
    simp only [workerThreadFn, hpc] at h
    obtain rfl := Except.ok.inj h
    exact .clearFn hpc
  | clearArg =>
    simp only [workerThreadFn, hpc] at h
    obtain rfl := Except.ok.inj h
    exact .clearArg hpc
  | lockPool =>
    simp only [workerThreadFn, hpc] at h
    split at h
    · rename_i free
      obtain rfl := Except.ok.inj h
      exact .lockPool hpc (by simpa using free)
    · cases h
  | clearFlag =>
    simp only [workerThreadFn, hpc] at h
    obtain rfl := Except.ok.inj h
    exact .clearFlag hpc
  | unlockPool =>
    simp only [workerThreadFn, hpc] at h
    obtain rfl := Except.ok.inj h
    exact .unlockPool hpc
  | exiting =>
    simp only [workerThreadFn, hpc] at h
    obtain rfl := Except.ok.inj h
    exact .exit hpc
  | exited =>
    simp only [workerThreadFn, hpc] at h
    cases h

/-- A worker leaves the calls as they are. -/
lemma WorkerEffect.calls {i : Fin n} (h : WorkerEffect p i p') (c : C) : p'.calls c = p.calls c := by
  cases h <;> rfl

/-- A worker leaves the other workers as they are. -/
lemma WorkerEffect.other {i j : Fin n} (h : WorkerEffect p i p') (ne : j ≠ i) :
    p'.workers j = p.workers j := by
  cases h <;> simp [ne]

/-- A condition on all workers is kept by the step of one that meets it afterwards. -/
lemma WorkerEffect.all {i : Fin n} {P : Fin n → WorkerThread n F A C → Prop} (h : WorkerEffect p i p')
    (own : P i (p'.workers i)) (all : ∀ j, P j (p.workers j)) : ∀ j, P j (p'.workers j) := by
  intro j
  by_cases e : j = i
  · rw [e]
    exact own
  · rw [h.other e]
    exact all j

/-- A worker does not set `quit`. -/
lemma WorkerEffect.quit {i : Fin n} (h : WorkerEffect p i p') : p'.quit = p.quit := by
  cases h <;> rfl

variable [DecidableEq C] {task : C → Task F A}

/-- All that a step of a call can do. -/
inductive CallEffect (task : C → Task F A) (p : ThreadPool n F A C) (c : C) :
    ThreadPool n F A C → Prop where
  | lockPool (pc : p.calls c = .start) (free : p.lock = none) :
    CallEffect task p c { p.setCall c (.scan 0) with lock := some (.call c) }
  | busy {i : Fin n} (pc : p.calls c = .scan i) (flag : p.isWorking i = true) :
    CallEffect task p c (p.setCall c (.scan (i + 1)))
  | found {i : Fin n} (pc : p.calls c = .scan i) (flag : p.isWorking i = false) :
    CallEffect task p c (p.setCall c (.setFlag i))
  | full {k : Nat} (pc : p.calls c = .scan k) (ge : n ≤ k) :
    CallEffect task p c (p.setCall c .unlockFull)
  | setFlag {i : Fin n} (pc : p.calls c = .setFlag i) :
    CallEffect task p c ((p.setCall c (.unlockPool i)).setIsWorking i true)
  | unlockPool {i : Fin n} (pc : p.calls c = .unlockPool i) :
    CallEffect task p c { p.setCall c (.lockWorker i) with lock := none }
  | lockWorker {i : Fin n} (pc : p.calls c = .lockWorker i) (free : (p.workers i).lock = none) :
    CallEffect task p c
      ((p.setCall c (.testQuit i)).setWorker i { p.workers i with lock := some (.call c) })
  | refuse {i : Fin n} (pc : p.calls c = .testQuit i) (quit : p.quit = true) :
    CallEffect task p c (p.setCall c (.unlockWorker i (-1)))
  | accept {i : Fin n} (pc : p.calls c = .testQuit i) (quit : p.quit = false) :
    CallEffect task p c (p.setCall c (.setFn i))
  | setFn {i : Fin n} (pc : p.calls c = .setFn i) :
    CallEffect task p c
      ((p.setCall c (.setArg i)).setWorker i
        { p.workers i with taskFn := some (task c).fn, call := some c })
  | setArg {i : Fin n} (pc : p.calls c = .setArg i) :
    CallEffect task p c
      ((p.setCall c (.unlockWorker i 0)).setWorker i { p.workers i with arg := (task c).arg })
  | unlockWorker {i : Fin n} {ret : Int} (pc : p.calls c = .unlockWorker i ret) :
    CallEffect task p c
      ((p.setCall c (.returned ret)).setWorker i { p.workers i with lock := none })
  | unlockFull (pc : p.calls c = .unlockFull) :
    CallEffect task p c { p.setCall c (.returned (-1)) with lock := none }

/-- Inversion of `threadPoolRun`. -/
lemma threadPoolRun_effect {c : C} (h : threadPoolRun task p c = .ok p') : CallEffect task p c p' := by
  cases hpc : p.calls c with
  | start =>
    simp only [threadPoolRun, hpc] at h
    split at h
    · rename_i free
      obtain rfl := Except.ok.inj h
      exact .lockPool hpc (by simpa using free)
    · cases h
  | scan k =>
    simp only [threadPoolRun, hpc] at h
    split at h
    · rename_i lt
      obtain rfl := Except.ok.inj h
      cases flag : p.isWorking ⟨k, lt⟩ with
      | true => exact .busy (i := ⟨k, lt⟩) hpc flag
      | false => exact .found hpc flag
    · rename_i ge
      obtain rfl := Except.ok.inj h
      exact .full hpc (by omega)
  | setFlag i =>
    simp only [threadPoolRun, hpc] at h
    obtain rfl := Except.ok.inj h
    exact .setFlag hpc
  | unlockPool i =>
    simp only [threadPoolRun, hpc] at h
    obtain rfl := Except.ok.inj h
    exact .unlockPool hpc
  | lockWorker i =>
    simp only [threadPoolRun, hpc] at h
    split at h
    · rename_i free
      obtain rfl := Except.ok.inj h
      exact .lockWorker hpc (by simpa using free)
    · cases h
  | testQuit i =>
    simp only [threadPoolRun, hpc] at h
    obtain rfl := Except.ok.inj h
    cases quit : p.quit with
    | true => exact .refuse hpc quit
    | false => exact .accept hpc quit
  | setFn i =>
    simp only [threadPoolRun, hpc] at h
    obtain rfl := Except.ok.inj h
    exact .setFn hpc
  | setArg i =>
    simp only [threadPoolRun, hpc] at h
    obtain rfl := Except.ok.inj h
    exact .setArg hpc
  | unlockWorker i ret =>
    simp only [threadPoolRun, hpc] at h
    obtain rfl := Except.ok.inj h
    exact .unlockWorker hpc
  | unlockFull =>
    simp only [threadPoolRun, hpc] at h
    obtain rfl := Except.ok.inj h
    exact .unlockFull hpc
  | returned ret =>
    simp only [threadPoolRun, hpc] at h
    cases h

/-- A call leaves the other calls as they are. -/
lemma CallEffect.other {c c' : C} (h : CallEffect task p c p') (ne : c' ≠ c) :
    p'.calls c' = p.calls c' := by
  cases h <;> simp [ne]

/-- A condition on all calls is kept by the step of one that meets it afterwards. -/
lemma CallEffect.all {c : C} {P : C → CallPc n → Prop} (h : CallEffect task p c p') (own : P c (p'.calls c))
    (all : ∀ c', P c' (p.calls c')) : ∀ c', P c' (p'.calls c') := by
  intro c'
  by_cases e : c' = c
  · rw [e]
    exact own
  · rw [h.other e]
    exact all c'

/-- A call does not set `quit`. -/
lemma CallEffect.quit {c : C} (h : CallEffect task p c p') : p'.quit = p.quit := by
  cases h <;> rfl

/-- A call leaves the workers where they are. -/
lemma CallEffect.pc {c : C} (h : CallEffect task p c p') (j : Fin n) :
    (p'.workers j).pc = (p.workers j).pc := by
  cases h with
  | lockWorker | setFn | setArg | unlockWorker =>
    simp only [ThreadPool.setWorker_workers]
    split
    · rename_i e
      rw [e]
    · rfl
  | _ => rfl

/-- All that a step of the pool can do. -/
inductive PoolEffect (task : C → Task F A) (p : ThreadPool n F A C) :
    PoolAct n C → ThreadPool n F A C → Prop where
  | worker {i : Fin n} {p'} (eff : WorkerEffect p i p') : PoolEffect task p (.worker i) p'
  | invalid {i : Fin n} (pc : (p.workers i).pc = .wait) :
    PoolEffect task p (.invalid i) (p.setWorker i { p.workers i with pc := .test })
  | call {c : C} {p'} (eff : CallEffect task p c p') : PoolEffect task p (.call c) p'
  | quit : PoolEffect task p .quit { p with quit := true }

/-- Inversion of `poolStep`. -/
lemma poolStep_effect {a : PoolAct n C} (h : poolStep task p a = .ok p') : PoolEffect task p a p' := by
  cases a with
  | worker i => exact .worker (workerThreadFn_effect h)
  | invalid i =>
    simp only [poolStep, invalidWait] at h
    split at h
    · rename_i pc
      obtain rfl := Except.ok.inj h
      exact .invalid pc
    · cases h
  | call c => exact .call (threadPoolRun_effect h)
  | quit =>
    obtain rfl := Except.ok.inj h
    exact .quit

end Mvvmm.Pool
