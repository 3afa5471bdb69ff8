import Mvvmm.Pool.Once

/-!
# The threads of the block device

The thread pool together with the lock of the device, `s->lock`. Outside the pool there is one thread for
each element of a type `O`: the vCPU threads, which access registers, and the poll thread of the ioeventfds.
They take `s->lock`, call `queue_notify`, and unlock it. A worker that executes `block_io_worker_fn` does so
in its completion callback, while it holds its own lock. `queue_notify` submits a request with
`thread_pool_run`, any number of times; what it reads from the rings is left open.

A call of `thread_pool_run` is an element of `C`, and `owner` says which thread makes it. The threads run
before the shutdown: nobody sets `quit`.
-/

namespace Mvvmm.Block
open CMem Run Pool

/-- A thread of the block device. -/
inductive Tid (n : Nat) (O : Type) where
  | outer (o : O)
  | worker (i : Fin n)
  deriving DecidableEq, Repr

/-- Where a thread is in its way through the critical section of the device. -/
inductive SectionPc (C : Type) where
  | before
  /-- At the lock of `s->lock`. -/
  | lock
  | inside
  /-- In a call of `thread_pool_run`. -/
  | call (c : C)
  /-- A worker has returned from its callback. -/
  | after
  deriving DecidableEq, Repr

/-- The thread holds `s->lock`. -/
@[grind]
def SectionPc.holds {C : Type} : SectionPc C → Bool
  | .inside | .call _ => true
  | _ => false

/-- The pool, `s->lock`, and the threads at the section it protects. -/
structure Threads (n : Nat) (O F A C : Type) where
  pool : ThreadPool n F A C
  lock : Option (Tid n O)
  pc : Tid n O → SectionPc C

variable {n : Nat} {O F A C : Type}

/-- Which thread goes on, and how. -/
inductive ThreadAct (n : Nat) (O C : Type) where
  /-- A worker outside its callback. -/
  | worker (i : Fin n)
  | invalid (i : Fin n)
  /-- The thread comes to the lock of the device. -/
  | arrive (t : Tid n O)
  | enter (t : Tid n O)
  /-- It calls `thread_pool_run`. -/
  | submit (t : Tid n O) (c : C)
  /-- It goes on in its call. -/
  | call (t : Tid n O)
  /-- Its call has returned. -/
  | ret (t : Tid n O)
  | leave (t : Tid n O)
  deriving DecidableEq, Repr

/-- The worker executes `block_io_worker_fn`. -/
@[grind]
def isRunning : WorkerPc F A → Bool
  | .running .. => true
  | _ => false

/-- A thread that may come to the lock of the device: a worker does so only in its callback. -/
@[grind]
def Threads.mayArrive (s : Threads n O F A C) : Tid n O → Bool
  | .outer _ => true
  | .worker i => isRunning (s.pool.workers i).pc

/-- Where a thread is when it has left the section. -/
@[grind]
def left : Tid n O → SectionPc C
  | .outer _ => .before
  | .worker _ => .after

section Step
variable [DecidableEq O] [DecidableEq C]

/-- A thread gone on. -/
def Threads.setPc (s : Threads n O F A C) (t : Tid n O) (pc : SectionPc C) : Threads n O F A C :=
  { s with pc := Function.update s.pc t pc }

/-- A step of the threads. -/
def threadStep (owner : C → Tid n O) (task : C → Task F A) (s : Threads n O F A C) :
    ThreadAct n O C → Except Stop (Threads n O F A C)
  | .worker i =>
    if isRunning (s.pool.workers i).pc ∧ s.pc (.worker i) ≠ .after then
      .error .blocked
    else do
      let pool ← poolStep task s.pool (.worker i)
      return { s.setPc (.worker i) .before with pool }
  | .invalid i => do
    let pool ← poolStep task s.pool (.invalid i)
    return { s with pool }
  | .arrive t =>
    if s.pc t = .before ∧ s.mayArrive t then return s.setPc t .lock else .error .blocked
  | .enter t =>
    if s.pc t = .lock ∧ s.lock.isNone then return { s.setPc t .inside with lock := some t }
    else .error .blocked
  | .submit t c =>
    if s.pc t = .inside ∧ owner c = t ∧ s.pool.calls c = .start then return s.setPc t (.call c)
    else .error .blocked
  | .call t =>
    match s.pc t with
    | .call c => do
      let pool ← poolStep task s.pool (.call c)
      return { s with pool }
    | _ => .error .blocked
  | .ret t =>
    match s.pc t with
    | .call c =>
      match s.pool.calls c with
      | .returned _ => return s.setPc t .inside
      | _ => .error .blocked
    | _ => .error .blocked
  | .leave t =>
    if s.pc t = .inside then return { s.setPc t (left t) with lock := none } else .error .blocked

end Step

/-- The device after `mvvm_init_virtio_blk`. -/
def initThreads (n : Nat) (O F A C : Type) : Threads n O F A C :=
  ⟨newThreadPool n F A C, none, fun _ => .before⟩

/-! ## Who waits for whom -/

/-- A mutex of the device. -/
inductive Lock (n : Nat) where
  | device
  | pool (m : Mutex n)
  deriving DecidableEq, Repr

/-- The mutex that a thread is about to lock. -/
def Threads.wants (s : Threads n O F A C) (t : Tid n O) : Option (Lock n) :=
  match s.pc t with
  | .lock => some .device
  | .call c => (s.pool.calls c).wants.map .pool
  | _ =>
    match t with
    | .outer _ => none
    | .worker i => ((s.pool.workers i).pc.wants i).map .pool

/-- The thread that a thread of the pool is. -/
def tid (owner : C → Tid n O) : Thread n C → Tid n O
  | .worker i => .worker i
  | .call c => owner c

/-- Who holds a mutex. -/
def Threads.holder (owner : C → Tid n O) (s : Threads n O F A C) : Lock n → Option (Tid n O)
  | .device => s.lock
  | .pool m => (s.pool.holder m).map (tid owner)

/-- A thread waits for a mutex that the other one holds. -/
def Threads.Waits (owner : C → Tid n O) (s : Threads n O F A C) (t t' : Tid n O) : Prop :=
  ∃ m, s.wants t = some m ∧ s.holder owner m = some t'

/-! ## What a step does -/

section Effect
variable [DecidableEq O] {s s' : Threads n O F A C} {t t' : Tid n O} {pc : SectionPc C}
  {owner : C → Tid n O} {task : C → Task F A} {a : ThreadAct n O C}

/-- A thread that moves does not change the pool. -/
@[simp, grind =]
lemma setPc_pool : (s.setPc t pc).pool = s.pool := rfl

/-- A thread that moves does not change the lock. -/
@[simp, grind =]
lemma setPc_lock : (s.setPc t pc).lock = s.lock := rfl

/-- A thread that moves stays where it has gone, and the others where they are. -/
@[simp, grind =]
lemma setPc_pc : (s.setPc t pc).pc t' = if t' = t then pc else s.pc t' := by
  simp [Threads.setPc, Function.update_apply]

variable [DecidableEq C]

/-- All that a step of the threads can do. -/
inductive ThreadEffect (owner : C → Tid n O) (task : C → Task F A) (s : Threads n O F A C) :
    Threads n O F A C → Prop where
  | worker {i : Fin n} {pool} (out : isRunning (s.pool.workers i).pc = true → s.pc (.worker i) = .after)
    (step : poolStep task s.pool (.worker i) = .ok pool) :
    ThreadEffect owner task s { s.setPc (.worker i) .before with pool }
  | invalid {i : Fin n} {pool} (step : poolStep task s.pool (.invalid i) = .ok pool) :
    ThreadEffect owner task s { s with pool }
  | arrive {t : Tid n O} (pc : s.pc t = .before) (may : s.mayArrive t = true) :
    ThreadEffect owner task s (s.setPc t .lock)
  | enter {t : Tid n O} (pc : s.pc t = .lock) (free : s.lock = none) :
    ThreadEffect owner task s { s.setPc t .inside with lock := some t }
  | submit {t : Tid n O} {c : C} (pc : s.pc t = .inside) (own : owner c = t) (new : s.pool.calls c = .start) :
    ThreadEffect owner task s (s.setPc t (.call c))
  | call {t : Tid n O} {c : C} {pool} (pc : s.pc t = .call c)
    (step : poolStep task s.pool (.call c) = .ok pool) :
    ThreadEffect owner task s { s with pool }
  | ret {t : Tid n O} {c : C} {r : Int} (pc : s.pc t = .call c) (done : s.pool.calls c = .returned r) :
    ThreadEffect owner task s (s.setPc t .inside)
  | leave {t : Tid n O} (pc : s.pc t = .inside) :
    ThreadEffect owner task s { s.setPc t (left t) with lock := none }

/-- Inversion of `threadStep`. -/
lemma threadStep_effect (h : threadStep owner task s a = .ok s') : ThreadEffect owner task s s' := by
  cases a with
  | worker i =>
    simp only [threadStep] at h
    split at h
    · cases h
    · rename_i out
      cases e : poolStep task s.pool (.worker i) with
      | error x =>
        rw [e] at h
        cases h
      | ok pool =>
        rw [e] at h
        obtain rfl := Except.ok.inj h
        exact .worker (by simpa using out) e
  | invalid i =>
    simp only [threadStep] at h
    cases e : poolStep task s.pool (.invalid i) with
    | error x =>
      rw [e] at h
      cases h
    | ok pool =>
      rw [e] at h
      obtain rfl := Except.ok.inj h
      exact .invalid e
  | arrive t =>
    simp only [threadStep] at h
    split at h
    · rename_i cond
      obtain rfl := Except.ok.inj h
      exact .arrive cond.1 cond.2
    · cases h
  | enter t =>
    simp only [threadStep] at h
    split at h
    · rename_i cond
      obtain rfl := Except.ok.inj h
      exact .enter cond.1 (by simpa using cond.2)
    · cases h
  | submit t c =>
    simp only [threadStep] at h
    split at h
    · rename_i cond
      obtain rfl := Except.ok.inj h
      exact .submit cond.1 cond.2.1 cond.2.2
    · cases h
  | call t =>
    simp only [threadStep] at h
    split at h
    · rename_i c pc
      cases e : poolStep task s.pool (.call c) with
      | error x =>
        rw [e] at h
        cases h
      | ok pool =>
        rw [e] at h
        obtain rfl := Except.ok.inj h
        exact .call pc e
    · cases h
  | ret t =>
    simp only [threadStep] at h
    split at h
    · rename_i c pc
      split at h
      · rename_i r done
        obtain rfl := Except.ok.inj h
        exact .ret pc done
      · cases h
    · cases h
  | leave t =>
    simp only [threadStep] at h
    split at h
    · rename_i pc
      obtain rfl := Except.ok.inj h
      exact .leave pc
    · cases h

/-! ## Invariants -/

/-- The pool goes through one of its own runs, in which `quit` is not set. -/
lemma reach_pool (r : Reach (threadStep owner task) always (initThreads n O F A C) s) :
    Reach (poolStep task) always (newThreadPool n F A C) s.pool ∧ s.pool.quit = false := by
  refine r.invariant (I := fun s =>
    Reach (poolStep task) always (newThreadPool n F A C) s.pool ∧ s.pool.quit = false) ⟨.init, rfl⟩ ?_
  rintro s a s' - ⟨run, quit⟩ - e
  have go : ∀ {b pool}, b ≠ .quit → poolStep task s.pool b = .ok pool →
      Reach (poolStep task) always (newThreadPool n F A C) pool ∧ pool.quit = false := by
    intro b pool ne step
    refine ⟨.step b run trivial step, ?_⟩
    have eff := poolStep_effect step
    cases eff with
    | worker eff => exact eff.quit.trans quit
    | invalid pc => exact quit
    | call eff => exact eff.quit.trans quit
    | quit => exact absurd rfl ne
  cases threadStep_effect e with
  | worker out step => exact go (by simp) step
  | invalid step => exact go (by simp) step
  | call pc step => exact go (by simp) step
  | _ => exact ⟨run, quit⟩

/-- Who is in the section holds `s->lock` and the other way round; a call that has begun and not returned is
the one its thread is in; a worker is in its callback only while it executes a task. -/
structure SectionInv (owner : C → Tid n O) (s : Threads n O F A C) : Prop where
  held : ∀ t, s.lock = some t ↔ (s.pc t).holds = true
  own : ∀ t c, s.pc t = .call c → owner c = t
  begun : ∀ c, s.pool.calls c = .start ∨ (∃ r, s.pool.calls c = .returned r) ∨ s.pc (owner c) = .call c
  callback : ∀ i, s.pc (.worker i) = .lock ∨ (s.pc (.worker i)).holds = true →
    isRunning (s.pool.workers i).pc = true

omit [DecidableEq O] [DecidableEq C] in

/-- The invariant holds when the threads start. -/
lemma sectionInv_init : SectionInv owner (initThreads n O F A C) :=
  ⟨by simp [initThreads, SectionPc.holds], by simp [initThreads], by simp [initThreads, newThreadPool],
    by simp [initThreads, SectionPc.holds]⟩

omit [DecidableEq C] in
/-- A thread goes on in the section, and perhaps locks or unlocks `s->lock`. -/
lemma SectionInv.setPc {l : Option (Tid n O)} (h : SectionInv owner s) (held : l = some t ↔ pc.holds = true)
    (others : ∀ t' ≠ t, l = some t' ↔ s.lock = some t') (own : ∀ c, pc = .call c → owner c = t)
    (begun : ∀ c, s.pc t = .call c → (∃ r, s.pool.calls c = .returned r) ∨ pc = .call c)
    (callback : ∀ i, t = .worker i → pc = .lock ∨ pc.holds = true → isRunning (s.pool.workers i).pc = true) :
    SectionInv owner { s.setPc t pc with lock := l } := by
  constructor
  · intro t'
    by_cases e : t' = t
    · simpa [e] using held
    · simpa [e] using (others t' e).trans (h.held t')
  · intro t' c hc
    by_cases e : t' = t
    · rw [e]
      exact own c (by simpa [e] using hc)
    · exact h.own t' c (by simpa [e] using hc)
  · intro c
    rcases h.begun c with start | returned | inCall
    · exact .inl start
    · exact .inr (.inl returned)
    · by_cases e : owner c = t
      · rw [e] at inCall
        rcases begun c inCall with returned | stays
        · exact .inr (.inl returned)
        · exact .inr (.inr (by simpa [e] using stays))
      · exact .inr (.inr (by simpa [e] using inCall))
  · intro i hi
    by_cases e : .worker i = t
    · exact callback i e.symm (by simpa [e] using hi)
    · exact h.callback i (by simpa [e] using hi)

omit [DecidableEq O] [DecidableEq C] in
/-- A step of the pool goes on with the call of the thread that makes it, and ends no callback. -/
lemma SectionInv.withPool {pool : ThreadPool n F A C} (h : SectionInv owner s)
    (calls : ∀ c, pool.calls c = s.pool.calls c ∨ s.pc (owner c) = .call c)
    (running : ∀ i, s.pc (.worker i) = .lock ∨ (s.pc (.worker i)).holds = true →
      isRunning (pool.workers i).pc = isRunning (s.pool.workers i).pc) :
    SectionInv owner { s with pool } := by
  refine ⟨h.held, h.own, ?_, ?_⟩
  · intro c
    rcases calls c with same | inCall
    · rw [same]
      exact h.begun c
    · exact .inr (.inr inCall)
  · intro i hi
    exact (running i hi).trans (h.callback i hi)

/-- Every step keeps the invariant. -/
lemma sectionInv_step (h : SectionInv owner s) (e : ThreadEffect owner task s s') :
    SectionInv owner s' := by
  cases e with
  | @worker i pool out step =>
    cases poolStep_effect step with
    | worker eff =>
      -- the worker is not in a callback, or has come back from it
      have idle : ¬ (s.pc (.worker i) = .lock ∨ (s.pc (.worker i)).holds = true) := by
        intro busy
        have after := out (h.callback i busy)
        simp [after, SectionPc.holds] at busy
      have free : s.lock ≠ some (.worker i) := fun lock => idle (.inr ((h.held _).mp lock))
      have moved : SectionInv owner { s.setPc (.worker i) .before with lock := s.lock } := by
        refine h.setPc ?_ (fun _ _ => Iff.rfl) ?_ ?_ ?_
        · simpa [SectionPc.holds] using free
        · simp
        · intro c hc
          exact absurd (.inr (by rw [hc]; rfl)) idle
        · simp [SectionPc.holds]
      refine moved.withPool (fun c => .inl (eff.calls c)) ?_
      intro j hj
      by_cases e : j = i
      · simp [e, SectionPc.holds] at hj
      · simp only [Threads.setPc, eff.other e]
  | @invalid i pool step =>
    cases poolStep_effect step with
    | invalid pc =>
      refine h.withPool (fun _ => .inl rfl) ?_
      intro j hj
      by_cases e : j = i
      · have running := h.callback j hj
        rw [e, pc] at running
        cases running
      · simp [e]
  | @call t c pool pc step =>
    cases poolStep_effect step with
    | call eff =>
      refine h.withPool ?_ fun j _ => by rw [eff.pc j]
      intro c'
      by_cases e : c' = c
      · rw [e, h.own t c pc]
        exact .inr pc
      · exact .inl (eff.other e)
  | @arrive t pc may =>
    refine h.setPc (l := s.lock) ?_ (fun _ _ => Iff.rfl) ?_ ?_ ?_
    · rw [h.held t, pc]
      rfl
    · simp
    · simp [pc]
    · rintro i rfl -
      exact may
  | @enter t pc free =>
    refine h.setPc (l := some t) ?_ ?_ ?_ ?_ ?_
    · simp [SectionPc.holds]
    · intro t' ne
      simp [free, ne.symm]
    · simp
    · simp [pc]
    · rintro i rfl -
      exact h.callback i (.inl pc)
  | @submit t c pc own new =>
    refine h.setPc (l := s.lock) ?_ (fun _ _ => Iff.rfl) ?_ ?_ ?_
    · rw [h.held t, pc]
      rfl
    · rintro _ ⟨⟩
      exact own
    · simp [pc]
    · rintro i rfl -
      exact h.callback i (.inr (by rw [pc]; rfl))
  | @ret t c r pc done =>
    refine h.setPc (l := s.lock) ?_ (fun _ _ => Iff.rfl) ?_ ?_ ?_
    · rw [h.held t, pc]
      rfl
    · simp
    · intro c' hc
      rw [pc] at hc
      cases hc
      exact .inl ⟨r, done⟩
    · rintro i rfl -
      exact h.callback i (.inr (by rw [pc]; rfl))
  | @leave t pc =>
    have out : (left t : SectionPc C).holds = false ∧ (left t : SectionPc C) ≠ .lock := by
      cases t <;> simp [left, SectionPc.holds]
    have mine : s.lock = some t := (h.held t).mpr (by rw [pc]; rfl)
    refine h.setPc (l := none) ?_ ?_ ?_ ?_ ?_
    · simp [out.1]
    · intro t' ne
      simp [mine, ne.symm]
    · intro c hc
      rw [hc] at out
      cases out.1
    · simp [pc]
    · intro i _ hi
      simp [out] at hi

/-- The invariant holds in every state that is reached. -/
lemma reach_section (r : Reach (threadStep owner task) always (initThreads n O F A C) s) :
    SectionInv owner s :=
  r.invariant (I := SectionInv owner) sectionInv_init fun _ _ _ _ h _ e =>
    sectionInv_step h (threadStep_effect e)

end Effect

/-! ## Deadlocks -/

section Deadlock
variable {s : Threads n O F A C} {t t' : Tid n O} {owner : C → Tid n O} {task : C → Task F A}

/-- A worker outside its callback wants what `worker_thread_fn` is about to lock. -/
lemma SectionInv.wants_worker {i : Fin n} (h : SectionInv owner s)
    (pc : isRunning (s.pool.workers i).pc = false) :
    s.wants (.worker i) = ((s.pool.workers i).pc.wants i).map .pool := by
  have out := h.callback i
  rw [pc] at out
  cases e : s.pc (.worker i) with
  | lock => simp [e] at out
  | inside | call c => simp [e, SectionPc.holds] at out
  | before | after => simp [Threads.wants, e]

/-- A thread in a call wants what `thread_pool_run` is about to lock. -/
lemma SectionInv.wants_call {c : C} (h : SectionInv owner s) (start : s.pool.calls c ≠ .start)
    (going : ∀ r, s.pool.calls c ≠ .returned r) :
    s.wants (owner c) = (s.pool.calls c).wants.map .pool := by
  obtain e | ⟨r, e⟩ | e := h.begun c
  · exact absurd e start
  · exact absurd e (going r)
  · simp [Threads.wants, e]

/-- Who holds `pool->lock` does not wait. -/
lemma SectionInv.goesOn_pool {x : Thread n C} (h : SectionInv owner s) (holders : Holders s.pool)
    (held : s.pool.lock = some x) : s.wants (tid owner x) = none := by
  cases x with
  | worker i =>
    have inside := holders.workerPool i held
    have wants := h.wants_worker (i := i)
    cases pc : (s.pool.workers i).pc <;>
      simp_all [WorkerPc.holdsPool, WorkerPc.wants, isRunning, tid]
  | call c =>
    have inside := holders.callPool c held
    have wants := h.wants_call (c := c)
    cases pc : s.pool.calls c <;> simp_all [CallPc.holdsPool, CallPc.wants, tid]

/-- Who holds the lock of a worker does not wait, unless it is the worker itself and occupied. -/
lemma SectionInv.goesOn_worker {x : Thread n C} {i : Fin n} (h : SectionInv owner s)
    (holders : Holders s.pool) (held : (s.pool.workers i).lock = some x)
    (free : x = .worker i → ¬ (s.pool.workers i).Occupied) : s.wants (tid owner x) = none := by
  cases x with
  | worker j =>
    obtain ⟨rfl, inside⟩ := holders.worker i j held
    have idle := free rfl
    have wants := h.wants_worker (i := j)
    cases pc : (s.pool.workers j).pc <;>
      simp_all [WorkerPc.holds, WorkerPc.wants, isRunning, tid, WorkerThread.Occupied, WorkerPc.busy]
  | call c =>
    have inside := holders.call i c held
    have wants := h.wants_call (c := c)
    cases pc : s.pool.calls c <;> simp_all [CallPc.holds, CallPc.wants, tid]

/-- Threads that wait for `s->lock` wait for one that waits for a lock of the pool at most, and the holder
of such a lock does not wait. -/
lemma SectionInv.waits_down (h : SectionInv owner s) (holders : Holders s.pool) (flags : Flags s.pool)
    {t'' : Tid n O} (w : s.Waits owner t t') (w' : s.Waits owner t' t'') :
    s.pc t = .lock ∧ s.pc t' ≠ .lock := by
  obtain ⟨m, wants, held⟩ := w
  obtain ⟨m', wants', -⟩ := w'
  have goes : s.wants t' ≠ none := by simp [wants']
  cases m with
  | device =>
    have inside := (h.held t').mp held
    constructor
    · cases e : s.pc t with
      | lock => rfl
      | call c => simp [Threads.wants, e] at wants
      | _ => cases t <;> simp [Threads.wants, e] at wants
    · intro e
      rw [e] at inside
      cases inside
  | pool m =>
    simp only [Threads.holder, Option.map_eq_some_iff] at held
    obtain ⟨x, held, rfl⟩ := held
    cases m with
    | pool => exact absurd (h.goesOn_pool holders held) goes
    | worker i =>
      refine absurd (h.goesOn_worker holders held ?_) goes
      rintro rfl
      -- the waiting thread has claimed the worker, or is the worker itself and does not hold its lock
      have inside := (holders.worker i i held).2
      cases e : s.pc t with
      | lock => simp [Threads.wants, e] at wants
      | call c =>
        have claims : (s.pool.calls c).claims = some i := by
          cases pc : s.pool.calls c <;> simp_all [Threads.wants, CallPc.wants, CallPc.claims]
        exact (flags.claimed c i claims).2
      | _ =>
        cases t with
        | outer o => simp [Threads.wants, e] at wants
        | worker j =>
          simp only [Threads.wants, e, Option.map_eq_some_iff, Lock.pool.injEq, exists_eq_right] at wants
          cases pc : (s.pool.workers j).pc <;> simp_all [WorkerPc.wants, WorkerPc.holds]

/-- A callback that submits a request selects another worker: its own is occupied. -/
lemma SectionInv.selects_other {i j : Fin n} {c : C} (h : SectionInv owner s) (locks : WorkerLocks s.pool)
    (flags : Flags s.pool) (e : s.pc (.worker i) = .call c) (sel : (s.pool.calls c).selects = some j) :
    j ≠ i := by
  rintro rfl
  have running := h.callback j (.inr (by rw [e]; rfl))
  have occupied : (s.pool.workers j).Occupied := by
    left
    cases pc : (s.pool.workers j).pc <;> simp_all [isRunning, WorkerPc.busy]
  have flag := flags.occupied j occupied
  cases pc : s.pool.calls c with
  | setFlag k =>
    obtain rfl : k = j := by simpa [pc, CallPc.selects] using sel
    have clear := flags.found c k pc
    rw [flag] at clear
    cases clear
  | unlockPool k | lockWorker k | testQuit k | setFn k =>
    obtain rfl : k = j := by simpa [pc, CallPc.selects] using sel
    exact (flags.claimed c k (by rw [pc]; rfl)).2 occupied
  | setArg k | unlockWorker k _ =>
    obtain rfl : k = j := by simpa [pc, CallPc.selects] using sel
    have asleep := locks.asleep (c := c) (i := k) (by rw [pc]; rfl)
    obtain idle | idle := asleep <;> simp [idle, isRunning] at running
  | _ => simp [pc, CallPc.selects] at sel

/-- Before the shutdown no set of threads is stuck, no thread waits for itself, and a callback that submits
a request does not select its own worker. -/
theorem deadlock_free (n : Nat) (O F A C : Type) [DecidableEq O] [DecidableEq C] (owner : C → Tid n O)
    (task : C → Task F A) (s : Threads n O F A C)
    (r : Reach (threadStep owner task) always (initThreads n O F A C) s) :
    (∀ S : Set (Tid n O), S.Nonempty → ¬ Wait.Stuck (s.Waits owner) S) ∧
    (∀ t, ¬ s.Waits owner t t) ∧
    ∀ i c j, s.pc (.worker i) = .call c → (s.pool.calls c).selects = some j → j ≠ i := by
  obtain ⟨run, quit⟩ := reach_pool r
  have h := reach_section r
  have inv := reach_inv run
  have holders := reach_holders run
  have down : ∀ t t' t'', s.Waits owner t t' → s.Waits owner t' t'' →
      (if s.pc t' = .lock then 1 else 0) < if s.pc t = .lock then 1 else 0 := by
    intro t t' t'' w w'
    obtain ⟨at', out⟩ := h.waits_down holders (inv.flags quit) w w'
    simp [at', out]
  refine ⟨fun S => Wait.not_stuck_of_rank down, Wait.not_waits_self_of_rank down, ?_⟩
  intro i c j e
  exact h.selects_other inv.locks (inv.flags quit) e

/-- An outer thread submits a request; the callback of the worker submits another one, to the other worker,
while the outer thread waits for it. -/
theorem deadlock_free_resubmit :
    ∃ s : Threads 2 Unit Unit Unit Bool,
      Reach (threadStep (fun c => if c then .worker 0 else .outer ()) fun _ => ⟨(), none⟩) always
        (initThreads 2 Unit Unit Unit Bool) s ∧
      (s.wants (.outer ()) = some .device ∧ s.lock = some (.worker 0) ∧
        s.pc (.worker 0) = .call true ∧ s.pool.calls true = .lockWorker 1) ∧
      ¬ Wait.Stuck (s.Waits fun c => if c then .worker 0 else .outer ()) Set.univ := by
  obtain ⟨s, r, t⟩ := Reach.of_test
    (threadStep (fun c => if c then .worker 0 else .outer ()) fun _ => ⟨(), none⟩) always .blocked
    (initThreads 2 Unit Unit Unit Bool)
    ([.arrive (.outer ()), .enter (.outer ()), .submit (.outer ()) false] ++
      List.replicate 9 (.call (.outer ())) ++ [.ret (.outer ()), .leave (.outer ()), .worker 0, .worker 0,
        .arrive (.worker 0), .enter (.worker 0), .submit (.worker 0) true] ++
      List.replicate 5 (.call (.worker 0)) ++ [.arrive (.outer ())])
    (fun s => decide (s.wants (.outer ()) = some .device ∧ s.lock = some (.worker 0) ∧
      s.pc (.worker 0) = .call true ∧ s.pool.calls true = .lockWorker 1))
    (by decide +kernel)
  exact ⟨s, r, of_decide_eq_true t, (deadlock_free _ _ _ _ _ _ _ s r).1 _ ⟨.outer (), trivial⟩⟩

end Deadlock

end Mvvmm.Block
