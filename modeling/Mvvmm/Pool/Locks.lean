import Mvvmm.Lib.Exclusion
import Mvvmm.Pool.Machine

/-!
# The locks of the thread pool

Who holds which mutex, and who may unlock it.

* `WorkerLocks`: who is in the critical section of a worker holds its lock. No thread frees it without
  holding it, so this is true of all states, and a call that holds the lock finds its worker asleep.
* `Holders`: who holds a mutex is in its critical section. This is true of all states as well.
* `PoolLock`: who is in the critical section of the pool holds `pool->lock`. A worker that leaves frees
  a lock it does not hold, so this holds only as long as no worker leaves (`NoExit`).

A worker that leaves unlocks `pool->lock` where it should unlock its own: `lock_discipline` says that this
is the only step that breaks the discipline.

The pool is an instance of `Exclusion`: `PoolEffect.step` says what a step does to its mutexes, and the three
invariants follow from the rules there.
-/

namespace Mvvmm.Pool
open CMem Run Exclusion

variable {n : Nat} {F A C : Type}

/-! ## Where the threads are -/

/-- The worker holds its own lock. -/
@[grind]
def WorkerPc.holds : WorkerPc F A → Bool
  | .start | .sleep => false
  | _ => true

/-- The worker holds `pool->lock`. -/
@[grind]
def WorkerPc.holdsPool : WorkerPc F A → Bool
  | .clearFlag | .unlockPool => true
  | _ => false

/-- The worker whose lock the call holds. -/
@[grind]
def CallPc.holds : CallPc n → Option (Fin n)
  | .testQuit i | .setFn i | .setArg i | .unlockWorker i _ => some i
  | _ => none

/-- The call holds `self->lock`. -/
@[grind]
def CallPc.holdsPool : CallPc n → Bool
  | .scan _ | .setFlag _ | .unlockPool _ | .unlockFull => true
  | _ => false

/-- Who is in the critical section of a worker holds its lock. -/
structure WorkerLocks (p : ThreadPool n F A C) : Prop where
  worker : ∀ i, (p.workers i).pc.holds = true → (p.workers i).lock = some (.worker i)
  call : ∀ c i, (p.calls c).holds = some i → (p.workers i).lock = some (.call c)

/-- Who is in the critical section of the pool holds its lock. -/
structure PoolLock (p : ThreadPool n F A C) : Prop where
  worker : ∀ i, (p.workers i).pc.holdsPool = true → p.lock = some (.worker i)
  call : ∀ c, (p.calls c).holdsPool = true → p.lock = some (.call c)

/-- Who holds a lock is in its critical section. -/
structure Holders (p : ThreadPool n F A C) : Prop where
  workerPool : ∀ i, p.lock = some (.worker i) → (p.workers i).pc.holdsPool = true
  callPool : ∀ c, p.lock = some (.call c) → (p.calls c).holdsPool = true
  worker : ∀ i j, (p.workers i).lock = some (.worker j) → j = i ∧ (p.workers i).pc.holds = true
  call : ∀ i c, (p.workers i).lock = some (.call c) → (p.calls c).holds = some i

variable {p p' : ThreadPool n F A C}

/-- A call that holds the lock of a worker finds it asleep. -/
lemma WorkerLocks.asleep {c : C} {i : Fin n} (h : WorkerLocks p)
    (hc : (p.calls c).holds = some i) :
    (p.workers i).pc = .start ∨ (p.workers i).pc = .sleep := by
  have lock := h.call c i hc
  have worker := h.worker i
  cases pc : (p.workers i).pc with
  | start => exact .inl rfl
  | sleep => exact .inr rfl
  | _ =>
    rw [pc, lock] at worker
    cases worker rfl

/-- Only one call at a time holds the lock of a worker. -/
lemma WorkerLocks.call_unique {c c' : C} {i : Fin n} (h : WorkerLocks p)
    (hc : (p.calls c).holds = some i) (hc' : (p.calls c').holds = some i) : c = c' := by
  have e := (h.call c i hc).symm.trans (h.call c' i hc')
  cases e
  rfl

/-- The step is not that of a worker which leaves. -/
def NoExit (p : ThreadPool n F A C) (a : PoolAct n C) : Prop :=
  ∀ i, a = .worker i → (p.workers i).pc ≠ .exiting

instance [DecidableEq F] [DecidableEq A] [DecidableEq C] (p : ThreadPool n F A C) (a : PoolAct n C) :
    Decidable (NoExit p a) :=
  inferInstanceAs (Decidable (∀ _, _ → _))

/-! ## Mutexes -/

/-- A mutex of the pool. -/
inductive Mutex (n : Nat) where
  | pool
  | worker (i : Fin n)
  deriving DecidableEq, Repr

/-- Who holds a mutex. -/
def ThreadPool.holder (p : ThreadPool n F A C) : Mutex n → Option (Thread n C)
  | .pool => p.lock
  | .worker i => (p.workers i).lock

/-- The mutex that a worker is about to unlock; a wait unlocks as well. -/
def WorkerPc.unlocks (i : Fin n) : WorkerPc F A → Option (Mutex n)
  | .wait => some (.worker i)
  | .unlockPool | .exiting => some .pool
  | _ => none

/-- The mutex that a call is about to unlock. -/
def CallPc.unlocks : CallPc n → Option (Mutex n)
  | .unlockPool _ | .unlockFull => some .pool
  | .unlockWorker i _ => some (.worker i)
  | _ => none

/-- The mutex that a step unlocks, and the thread that does so. -/
def unlocks (p : ThreadPool n F A C) : PoolAct n C → Option (Mutex n × Thread n C)
  | .worker i => ((p.workers i).pc.unlocks i).map (·, .worker i)
  | .call c => ((p.calls c).unlocks).map (·, .call c)
  | .invalid _ | .quit => none

/-- The mutexes whose critical sections a worker is in. -/
def WorkerPc.Inside (i : Fin n) (pc : WorkerPc F A) : Mutex n → Prop
  | .pool => pc.holdsPool = true
  | .worker j => j = i ∧ pc.holds = true

/-- The mutexes whose critical sections a call is in. -/
def CallPc.Inside (pc : CallPc n) : Mutex n → Prop
  | .pool => pc.holdsPool = true
  | .worker i => pc.holds = some i

/-- The critical sections that a thread is in. -/
def ThreadPool.inside (p : ThreadPool n F A C) : Thread n C → Mutex n → Prop
  | .worker i => (p.workers i).pc.Inside i
  | .call c => (p.calls c).Inside

/-- The mutexes of the pool and its threads. -/
def ThreadPool.view (p : ThreadPool n F A C) : View (Mutex n) (Thread n C) :=
  ⟨p.holder, p.inside⟩

/-- The invariant of the workers' locks, in terms of critical sections. -/
lemma workerLocks_iff : WorkerLocks p ↔ ∀ i, p.view.Guards (.worker i) := by
  constructor
  · intro h i t inside
    cases t with
    | worker j =>
      obtain ⟨rfl, holds⟩ := inside
      exact h.worker i holds
    | call c => exact h.call c i inside
  · intro h
    exact ⟨fun i holds => h i (.worker i) ⟨rfl, holds⟩, fun c i holds => h i (.call c) holds⟩

/-- The invariant of the lock of the pool, in terms of critical sections. -/
lemma poolLock_iff : PoolLock p ↔ p.view.Guards .pool := by
  constructor
  · intro h t inside
    cases t with
    | worker i => exact h.worker i inside
    | call c => exact h.call c inside
  · intro h
    exact ⟨fun i holds => h (.worker i) holds, fun c holds => h (.call c) holds⟩

/-- The invariant of the holders, in terms of critical sections. -/
lemma holders_iff : Holders p ↔ p.view.Held := by
  constructor
  · intro h m t held
    cases m with
    | pool =>
      cases t with
      | worker i => exact h.workerPool i held
      | call c => exact h.callPool c held
    | worker i =>
      cases t with
      | worker j =>
        obtain ⟨rfl, holds⟩ := h.worker i j held
        exact ⟨rfl, holds⟩
      | call c => exact h.call i c held
  · intro h
    refine ⟨fun i => h .pool (.worker i), fun c => h .pool (.call c), ?_, fun i c => h (.worker i) (.call c)⟩
    intro i j held
    obtain ⟨rfl, holds⟩ := h (.worker i) (.worker j) held
    exact ⟨rfl, holds⟩

/-! ## Steps -/

section Steps
variable [DecidableEq C] {task : C → Task F A} {a : PoolAct n C}

omit [DecidableEq C] in
/-- All mutexes but its own are left as they are by any change of a worker. -/
lemma holder_setWorker_other {i : Fin n} {w : WorkerThread n F A C} (m : Mutex n) (ne : m ≠ .worker i) :
    (p.setWorker i w).holder m = p.holder m := by
  cases m with
  | pool => rfl
  | worker j =>
    have ne : j ≠ i := fun e => ne (by rw [e])
    simp only [ThreadPool.holder, ThreadPool.setWorker_workers, if_neg ne]

omit [DecidableEq C] in
/-- The locks of the workers and `pool->lock` are all mutexes. -/
lemma holder_eq {m : Mutex n} (pool : m = .pool → p'.lock = p.lock)
    (workers : ∀ j, (p'.workers j).lock = (p.workers j).lock) : p'.holder m = p.holder m := by
  cases m with
  | pool => exact pool rfl
  | worker j => exact workers j

omit [DecidableEq C] in

/-- The locks of the workers, if a worker keeps its own. -/
lemma setWorker_workers_lock {i : Fin n} {w : WorkerThread n F A C} (h : w.lock = (p.workers i).lock) (j : Fin n) :
    ((p.setWorker i w).workers j).lock = (p.workers j).lock :=
  ThreadPool.all_setWorker (P := fun j w => w.lock = (p.workers j).lock) h (fun _ => rfl) j

omit [DecidableEq C] in

/-- The critical sections of a worker that has moved. -/
lemma inside_worker {i : Fin n} {w : WorkerThread n F A C} (m : Mutex n) :
    (p.setWorker i w).inside (.worker i) m ↔ w.pc.Inside i m := by
  simp only [ThreadPool.inside, ThreadPool.setWorker_workers, if_true]

/-- The critical sections of a call that has moved. -/
lemma inside_call {c : C} {pc : CallPc n} (m : Mutex n) : (p.setCall c pc).inside (.call c) m ↔ pc.Inside m := by
  simp only [ThreadPool.inside, ThreadPool.setCall_calls, if_true]

omit [DecidableEq C] in
/-- What a step of a worker does to the mutexes. -/
lemma WorkerEffect.step {i : Fin n} (eff : WorkerEffect p i p') :
    Step p.view p'.view (((p.workers i).pc.unlocks i).map (·, .worker i)) := by
  have others : ∀ t ≠ .worker i, ∀ m, p'.inside t m ↔ p.inside t m := by
    intro t ne m
    cases t with
    | worker j =>
      have same : p'.workers j = p.workers j := eff.other fun e => ne (by rw [e])
      simp only [ThreadPool.inside, same]
    | call c => simp only [ThreadPool.inside, eff.calls c]
  have own : ∀ m, p.inside (.worker i) m ↔ (p.workers i).pc.Inside i m := fun _ => Iff.rfl
  cases eff with
  | lock pc free =>
    have start : (p.workers i).pc.unlocks i = none ∧ ∀ m, ¬ (p.workers i).pc.Inside i m := by
      rcases pc with pc | pc
      · rw [pc]
        exact ⟨rfl, by rintro (_ | j) <;> simp [WorkerPc.Inside, WorkerPc.holds, WorkerPc.holdsPool]⟩
      · rw [pc]
        exact ⟨rfl, by rintro (_ | j) <;> simp [WorkerPc.Inside, WorkerPc.holds, WorkerPc.holdsPool]⟩
    rw [start.1]
    refine .lock (m := .worker i) free (by simp [ThreadPool.view, ThreadPool.holder]) holder_setWorker_other others ?_
    intro m
    refine (inside_worker m).trans ?_
    have out : ¬ p.view.inside (.worker i) m := start.2 m
    cases m <;> simp [out, WorkerPc.Inside, WorkerPc.holds, WorkerPc.holdsPool]
  | sleep pc =>
    rw [pc]
    refine .unlock (by simp [ThreadPool.view, ThreadPool.holder]) holder_setWorker_other others fun m => ?_
    refine (inside_worker m).trans (Iff.trans ?_ (and_congr_left fun _ => (own m).symm))
    rw [pc]
    cases m <;> simp +contextual [WorkerPc.Inside, WorkerPc.holds, WorkerPc.holdsPool]
  | lockPool pc free =>
    rw [pc]
    refine .lock (m := .pool) free rfl ?_ others fun m => ?_
    · exact fun m ne => holder_eq (fun e => absurd e ne) (setWorker_workers_lock rfl)
    · refine (inside_worker m).trans (Iff.trans ?_ (or_congr_left (own m).symm))
      rw [pc]
      cases m <;> simp [WorkerPc.Inside, WorkerPc.holds, WorkerPc.holdsPool]
  | unlockPool pc | exit pc =>
    rw [pc]
    refine .unlock rfl ?_ others fun m => ?_
    · exact fun m ne => holder_eq (fun e => absurd e ne) (setWorker_workers_lock rfl)
    · refine (inside_worker m).trans (Iff.trans ?_ (and_congr_left fun _ => (own m).symm))
      rw [pc]
      cases m <;> simp [WorkerPc.Inside, WorkerPc.holds, WorkerPc.holdsPool]
  | empty pc _ | call pc _ | quitting pc _ | staying pc _ | leave pc _ | stay pc _ =>
    rw [pc]
    refine .stay (fun _ => holder_eq (fun _ => rfl) (setWorker_workers_lock rfl)) others fun m => ?_
    refine (inside_worker m).trans (Iff.trans ?_ (own m).symm)
    rw [pc]
    cases m <;> rfl
  | finish pc | clearFn pc | clearArg pc | clearFlag pc =>
    rw [pc]
    refine .stay (fun _ => holder_eq (fun _ => rfl) (setWorker_workers_lock rfl)) others fun m => ?_
    refine (inside_worker m).trans (Iff.trans ?_ (own m).symm)
    rw [pc]
    cases m <;> rfl

/-- What a step of a call does to the mutexes. -/
lemma CallEffect.step {c : C} (eff : CallEffect task p c p') :
    Step p.view p'.view ((p.calls c).unlocks.map (·, .call c)) := by
  have others : ∀ t ≠ .call c, ∀ m, p'.inside t m ↔ p.inside t m := by
    intro t ne m
    cases t with
    | worker j => simp only [ThreadPool.inside, eff.pc j]
    | call c' =>
      have same : p'.calls c' = p.calls c' := eff.other fun e => ne (by rw [e])
      simp only [ThreadPool.inside, same]
  have own : ∀ m, p.inside (.call c) m ↔ (p.calls c).Inside m := fun _ => Iff.rfl
  cases eff with
  | lockPool pc free =>
    rw [pc]
    refine .lock (m := .pool) free rfl ?_ others fun m => ?_
    · exact fun m ne => holder_eq (fun e => absurd e ne) fun _ => rfl
    · refine (inside_call m).trans (Iff.trans ?_ (or_congr_left (own m).symm))
      rw [pc]
      cases m <;> simp [CallPc.Inside, CallPc.holds, CallPc.holdsPool]
  | unlockPool pc | unlockFull pc =>
    rw [pc]
    refine .unlock rfl (fun m ne => holder_eq (fun e => absurd e ne) fun _ => rfl) others fun m => ?_
    refine (inside_call m).trans (Iff.trans ?_ (and_congr_left fun _ => (own m).symm))
    rw [pc]
    cases m <;> simp [CallPc.Inside, CallPc.holds, CallPc.holdsPool]
  | @lockWorker i pc free =>
    rw [pc]
    refine .lock (m := .worker i) free (by simp [ThreadPool.view, ThreadPool.holder]) holder_setWorker_other others
      fun m => ?_
    refine (inside_call m).trans (Iff.trans ?_ (or_congr_left (own m).symm))
    rw [pc]
    cases m <;> simp [CallPc.Inside, CallPc.holds, CallPc.holdsPool, eq_comm]
  | unlockWorker pc =>
    rw [pc]
    refine .unlock (by simp [ThreadPool.view, ThreadPool.holder]) holder_setWorker_other others fun m => ?_
    refine (inside_call m).trans (Iff.trans ?_ (and_congr_left fun _ => (own m).symm))
    rw [pc]
    cases m <;> simp +contextual [CallPc.Inside, CallPc.holds, CallPc.holdsPool, eq_comm]
  | busy pc _ | found pc _ | full pc _ | refuse pc _ | accept pc _ =>
    rw [pc]
    refine .stay (fun _ => rfl) others fun m => ?_
    refine (inside_call m).trans (Iff.trans ?_ (own m).symm)
    rw [pc]
    cases m <;> rfl
  | setFlag pc =>
    rw [pc]
    refine .stay (fun _ => holder_eq (fun _ => rfl) fun _ => rfl) others fun m => ?_
    refine (inside_call m).trans (Iff.trans ?_ (own m).symm)
    rw [pc]
    cases m <;> rfl
  | setFn pc | setArg pc =>
    rw [pc]
    refine .stay (fun _ => holder_eq (fun _ => rfl) (setWorker_workers_lock rfl)) others fun m => ?_
    refine (inside_call m).trans (Iff.trans ?_ (own m).symm)
    rw [pc]
    cases m <;> rfl

/-- What a step does to the mutexes: it unlocks what `unlocks` says. -/
lemma PoolEffect.step (e : PoolEffect task p a p') : Step p.view p'.view (unlocks p a) := by
  cases e with
  | worker eff => exact eff.step
  | call eff => exact eff.step
  | @invalid i pc =>
    refine .keep (fun _ => holder_eq (fun _ => rfl) (setWorker_workers_lock rfl)) fun t m => ?_
    cases t with
    | worker j =>
      simp only [ThreadPool.view, ThreadPool.inside, ThreadPool.setWorker_workers]
      split
      · rename_i e
        rw [e, pc]
        cases m <;> rfl
      · rfl
    | call c => rfl
  | quit => exact .keep (fun _ => rfl) fun _ _ => Iff.rfl

omit [DecidableEq C] in
/-- Only a worker that leaves unlocks a mutex outside its critical section, which is `pool->lock`. -/
lemma unlocks_inside {m : Mutex n} {t : Thread n C} (e : unlocks p a = some (m, t)) (stay : m = .pool → NoExit p a) :
    p.inside t m := by
  cases a with
  | worker i =>
    obtain ⟨m', unlocks, e⟩ := Option.map_eq_some_iff.mp e
    obtain ⟨rfl, rfl⟩ := Prod.mk.inj e
    simp only [ThreadPool.inside]
    cases pc : (p.workers i).pc with
    | wait =>
      rw [pc] at unlocks
      cases unlocks
      exact ⟨rfl, rfl⟩
    | unlockPool =>
      rw [pc] at unlocks
      cases unlocks
      rfl
    | exiting =>
      rw [pc] at unlocks
      cases unlocks
      exact absurd pc (stay rfl i rfl)
    | _ =>
      rw [pc] at unlocks
      cases unlocks
  | call c =>
    obtain ⟨m', unlocks, e⟩ := Option.map_eq_some_iff.mp e
    obtain ⟨rfl, rfl⟩ := Prod.mk.inj e
    simp only [ThreadPool.inside]
    cases pc : p.calls c with
    | unlockPool i | unlockFull | unlockWorker i ret =>
      rw [pc] at unlocks
      cases unlocks
      rfl
    | _ =>
      rw [pc] at unlocks
      cases unlocks
  | invalid _ | quit => cases e

/-- Every step keeps the workers' locks to those inside. -/
lemma workerLocks_step (h : WorkerLocks p) (e : PoolEffect task p a p') : WorkerLocks p' := by
  rw [workerLocks_iff] at h ⊢
  intro i
  exact (h i).step e.step fun t u => unlocks_inside u fun e => by cases e

/-- Every step keeps the lock of the pool to those inside, if no worker exits. -/
lemma poolLock_step (h : PoolLock p) (stay : NoExit p a) (e : PoolEffect task p a p') : PoolLock p' := by
  rw [poolLock_iff] at h ⊢
  exact h.step e.step fun t u => unlocks_inside u fun _ => stay

/-- Every step keeps the holders inside. -/
lemma holders_step (h : Holders p) (e : PoolEffect task p a p') : Holders p' := by
  rw [holders_iff] at h ⊢
  exact h.step e.step

omit [DecidableEq C] in

/-- Nobody is inside at the beginning. -/
lemma workerLocks_init : WorkerLocks (newThreadPool n F A C) :=
  ⟨by simp [newThreadPool, WorkerPc.holds], by simp [newThreadPool, CallPc.holds]⟩

omit [DecidableEq C] in

/-- Nobody is inside the section of the pool at the beginning. -/
lemma poolLock_init : PoolLock (newThreadPool n F A C) :=
  ⟨by simp [newThreadPool, WorkerPc.holdsPool], by simp [newThreadPool, CallPc.holdsPool]⟩

omit [DecidableEq C] in

/-- Nobody holds a lock at the beginning. -/
lemma holders_init : Holders (newThreadPool n F A C) :=
  ⟨by simp [newThreadPool], by simp [newThreadPool], by simp [newThreadPool], by simp [newThreadPool]⟩

/-- Who holds a lock is inside, in every state that is reached. -/
lemma reach_holders (r : Reach (poolStep task) always (newThreadPool n F A C) p) : Holders p :=
  r.invariant (I := Holders) holders_init fun _ _ _ _ h _ e => holders_step h (poolStep_effect e)

end Steps

/-! ## Discipline -/

/-- The step unlocks a mutex only if its thread holds it. -/
def Disciplined (p : ThreadPool n F A C) (a : PoolAct n C) : Prop :=
  ∀ m t, unlocks p a = some (m, t) → p.holder m = some t

/-- The mutex that a call of `thread_pool_run` is about to lock. -/
def CallPc.wants : CallPc n → Option (Mutex n)
  | .start => some .pool
  | .lockWorker i => some (.worker i)
  | _ => none

/-- The mutex that a worker is about to lock; in a wait it is its own. -/
@[grind]
def WorkerPc.wants (i : Fin n) : WorkerPc F A → Option (Mutex n)
  | .start | .sleep => some (.worker i)
  | .lockPool => some .pool
  | _ => none

/-- The worker that a call has selected. -/
def CallPc.selects : CallPc n → Option (Fin n)
  | .setFlag i | .unlockPool i | .lockWorker i | .testQuit i | .setFn i | .setArg i
  | .unlockWorker i _ => some i
  | _ => none

/-- A worker that has returned holds no mutex, and no call is blocked on a mutex of such a worker. -/
structure LockSafe (p : ThreadPool n F A C) : Prop where
  exited : ∀ i m, (p.workers i).pc = .exited → p.holder m ≠ some (.worker i)
  blocked : ∀ c m i, (p.calls c).wants = some m → p.holder m = some (.worker i) →
    (p.workers i).pc ≠ .exited

section Discipline
variable [DecidableEq C] {task : C → Task F A} {a : PoolAct n C}

/-- A step frees just the mutex that it unlocks. -/
theorem unlocks_iff {m : Mutex n} (e : PoolEffect task p a p') (held : p.holder m ≠ none) :
    (unlocks p a).map Prod.fst = some m ↔ p'.holder m = none :=
  e.step.frees_iff held

omit [DecidableEq C] in
/-- A worker that leaves does not hold the lock that it unlocks. -/
lemma not_disciplined_exit {i : Fin n} (holders : Holders p) (pc : (p.workers i).pc = .exiting) :
    ¬ Disciplined p (.worker i) := by
  intro d
  have held : p.lock = some (.worker i) := d .pool (.worker i) (by simp [unlocks, WorkerPc.unlocks, pc])
  have inside := holders.workerPool i held
  rw [pc] at inside
  cases inside

omit [DecidableEq C] in
/-- Every other step unlocks only what its thread holds. -/
lemma disciplined (locks : WorkerLocks p) (pool : PoolLock p) (stay : NoExit p a) : Disciplined p a := by
  intro m t e
  have inside := unlocks_inside e fun _ => stay
  cases m with
  | pool => exact poolLock_iff.mp pool t inside
  | worker i => exact workerLocks_iff.mp locks i t inside

/-- No worker has exited if none was let. -/
lemma exited_step (h : ∀ i, (p.workers i).pc ≠ .exited) (stay : NoExit p a) (e : PoolEffect task p a p') :
    ∀ i, (p'.workers i).pc ≠ .exited := by
  cases e with
  | @worker i _ eff =>
    refine eff.all (P := fun _ w => w.pc ≠ .exited) ?_ h
    have out := stay i rfl
    cases eff with
    | exit pc => exact absurd pc out
    | _ => simp
  | invalid pc => exact ThreadPool.all_setWorker (P := fun _ w => w.pc ≠ .exited) (by simp) h
  | call eff =>
    intro j
    rw [eff.pc j]
    exact h j
  | quit => exact h

omit [DecidableEq C] in

/-- As long as no worker has exited, the locks are released by their holders only. -/
lemma lockSafe_of_alive (h : ∀ i, (p.workers i).pc ≠ .exited) : LockSafe p :=
  ⟨fun i _ pc => absurd pc (h i), fun _ _ i _ _ => h i⟩

/-- As long as no worker leaves, every mutex is unlocked by the thread that holds it, no worker has left
with a mutex and no call waits for such a one. The step of a worker that leaves, and no other, breaks both:
it unlocks `pool->lock` without holding it, and keeps its own lock. -/
theorem lock_discipline (n : Nat) (F A C : Type) [DecidableEq C] (task : C → Task F A)
    (p : ThreadPool n F A C) (r : Reach (poolStep task) NoExit (newThreadPool n F A C) p) :
    LockSafe p ∧ ∀ a p', poolStep task p a = .ok p' →
      (Disciplined p a ↔ NoExit p a) ∧ (LockSafe p' ↔ NoExit p a) := by
  have i : WorkerLocks p ∧ PoolLock p ∧ ∀ i, (p.workers i).pc ≠ .exited := by
    refine r.invariant (I := fun p => WorkerLocks p ∧ PoolLock p ∧ ∀ i, (p.workers i).pc ≠ .exited)
      ⟨workerLocks_init, poolLock_init, by simp [newThreadPool]⟩ ?_
    rintro p a p' - ⟨locks, pool, alive⟩ stay e
    have eff := poolStep_effect e
    exact ⟨workerLocks_step locks eff, poolLock_step pool stay eff, exited_step alive stay eff⟩
  obtain ⟨locks, pool, alive⟩ := i
  have holders := reach_holders (r.mono fun _ _ _ => trivial)
  refine ⟨lockSafe_of_alive alive, ?_⟩
  intro a p' e
  have eff := poolStep_effect e
  constructor
  · constructor
    · rintro d i rfl pc
      exact not_disciplined_exit holders pc d
    · exact disciplined locks pool
  · constructor
    · rintro safe i rfl pc
      -- the worker has its own lock, and nobody will free it
      have own := locks.worker i (by rw [pc]; rfl)
      simp only [poolStep, workerThreadFn, pc] at e
      obtain rfl := Except.ok.inj e
      exact safe.exited i (.worker i) (by simp) (by simpa [ThreadPool.holder] using own)
    · intro stay
      exact lockSafe_of_alive (exited_step alive stay eff)

end Discipline

/-- A worker has seen `quit`, and a call waits for its lock. -/
theorem lock_discipline_quit :
    ∃ p : ThreadPool 1 Unit Unit (Fin 2),
      Reach (poolStep fun _ => ⟨(), none⟩) NoExit (newThreadPool 1 Unit Unit (Fin 2)) p ∧
        ((p.workers 0).pc = .testNull ∧ p.calls 0 = .lockWorker 0) ∧ LockSafe p := by
  obtain ⟨p, r, t⟩ := Reach.of_test (poolStep fun _ => ⟨(), none⟩) NoExit .blocked
    (newThreadPool 1 Unit Unit (Fin 2))
    [.call 0, .call 0, .call 0, .call 0, .worker 0, .worker 0, .quit, .worker 0]
    (fun p => decide ((p.workers 0).pc = .testNull ∧ p.calls 0 = .lockWorker 0)) (by decide +kernel)
  exact ⟨p, r, of_decide_eq_true t, (lock_discipline _ _ _ _ _ p r).1⟩

/-- A worker leaves. It frees `pool->lock`, which one call holds, and keeps the lock that another one waits
for. -/
theorem exit_breaks_discipline :
    ∃ p p' : ThreadPool 1 Unit Unit (Fin 2),
      Reach (poolStep fun _ => ⟨(), none⟩) always (newThreadPool 1 Unit Unit (Fin 2)) p ∧
        p.holder .pool = some (.call 1) ∧ poolStep (fun _ => ⟨(), none⟩) p (.worker 0) = .ok p' ∧
        ¬ Disciplined p (.worker 0) ∧ p'.holder .pool = none ∧ p'.holder (.worker 0) = some (.worker 0) ∧
        (p'.workers 0).pc = .exited ∧ (p'.calls 0).wants = some (.worker 0) := by
  obtain ⟨p, r, t⟩ := Reach.of_test (poolStep fun _ => ⟨(), none⟩) always .blocked
    (newThreadPool 1 Unit Unit (Fin 2))
    [.call 0, .call 0, .call 0, .call 0, .worker 0, .worker 0, .quit, .worker 0, .worker 0, .call 1]
    (fun p => decide ((p.workers 0).pc = .exiting ∧ (p.workers 0).lock = some (.worker 0) ∧
      p.lock = some (.call 1) ∧ p.calls 0 = .lockWorker 0)) (by decide +kernel)
  obtain ⟨pc, own, pool, call⟩ := of_decide_eq_true t
  refine ⟨p, _, r, pool, by simp only [poolStep, workerThreadFn, pc]; rfl, ?_, rfl, ?_, ?_, ?_⟩
  · exact not_disciplined_exit (reach_holders r) pc
  · simpa [ThreadPool.holder] using own
  · simp
  · simp [call, CallPc.wants]

end Mvvmm.Pool
