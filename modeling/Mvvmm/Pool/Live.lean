import Mvvmm.Lib.Fair
import Mvvmm.Pool.Once

/-!
# The pool gets its work done

In every fair infinite run each accepted task is executed at last, and once `quit` is set every worker
ends, so that the `pthread_join`s of `delete_thread_pool` return (`pool_live`). Fair means that a call that has
begun goes on when it can, and that a worker goes on if it can again and again: a mutex that is free again and
again is not kept from it for ever. Nothing is assumed of calls that have not begun, and a task is taken to
return.

A worker waits for two mutexes only, its own and that of the pool. Whoever holds one of them is in its critical
section, in which nothing is waited for, so that both become free again and again (`worker_lock_free`,
`pool_lock_free`), also after a worker that leaves has unlocked `pool->lock` for somebody else. What a worker has
still to do is counted by `left`, which no other thread raises.
-/

namespace Mvvmm.Pool
open CMem Run Fair

variable {n : Nat} {F A C : Type} [DecidableEq C] {task : C → Task F A} {p p' : ThreadPool n F A C}
  {t : Trace (poolStep (n := n) task)} {c : C} {i : Fin n}

/-- What the scheduler is to do. -/
structure FairPool (t : Trace (poolStep (n := n) task)) : Prop where
  workers : ∀ i, t.StronglyFair (.worker i)
  calls : ∀ c, t.WeaklyFair (fun p => p.calls c ≠ .start) (.call c)

/-- Only its own steps move a call. -/
lemma PoolEffect.calls_other {a : PoolAct n C} (e : PoolEffect task p a p') (ne : a ≠ .call c) :
    p'.calls c = p.calls c := by
  cases e with
  | worker eff => exact eff.calls c
  | invalid pc => rfl
  | @call c' _ eff => exact eff.other fun e => ne (by rw [e])
  | quit => rfl

/-! ## Critical sections of calls -/

/-- How many steps a call has at most until it unlocks. -/
def CallPc.left : CallPc n → Nat
  | .scan k => n - k + 2
  | .testQuit _ => 4
  | .setFn _ => 3
  | .setFlag _ | .setArg _ => 2
  | _ => 1

/-- A call in a critical section can go on. -/
lemma call_enabled (h : (p.calls c).holdsPool = true ∨ ∃ i, (p.calls c).holds = some i) :
    p.calls c ≠ .start ∧ Enabled (poolStep task) (.call c) p := by
  refine ⟨fun e => by simp [e, CallPc.holdsPool, CallPc.holds] at h, ?_⟩
  simp only [Enabled, poolStep, threadPoolRun]
  cases pc : p.calls c with
  | start | lockWorker | returned => simp [pc, CallPc.holdsPool, CallPc.holds] at h
  | scan k =>
    by_cases lt : k < n
    · simp only [dif_pos lt]
      exact ⟨_, rfl⟩
    · simp only [dif_neg lt]
      exact ⟨_, rfl⟩
  | _ => exact ⟨_, rfl⟩

/-- A call in a critical section comes to its end, if each of its steps brings it nearer. -/
lemma call_leadsTo {S : CallPc n → Prop} {Q : ThreadPool n F A C → Prop} (fair : FairPool t)
    (inside : ∀ pc, S pc → pc.holdsPool = true ∨ ∃ i, pc.holds = some i)
    (move : ∀ p p', S (p.calls c) → CallEffect task p c p' →
      Q p' ∨ S (p'.calls c) ∧ (p'.calls c).left < (p.calls c).left) :
    t.LeadsTo (fun p => S (p.calls c)) Q := by
  refine Trace.leadsTo_of_rank (a := .call c) (fun p => (p.calls c).left) ?_ ?_ ?_
  · intro k b hs _ act
    have st := t.next k b act
    by_cases own : b = .call c
    · subst own
      exact (move _ _ hs (threadPoolRun_effect st)).imp_right fun h => ⟨h.1, h.2.le⟩
    · have same := (poolStep_effect st).calls_other own
      simp only [same]
      exact .inr ⟨hs, le_rfl⟩
  · intro k hs _ act
    exact move _ _ hs (threadPoolRun_effect (t.next k _ act))
  · intro n stays
    apply fair.calls c n
    intro m hm
    exact call_enabled (inside _ (stays m hm).1)

/-- A call that has locked the pool unlocks it. -/
lemma pool_unlocked (fair : FairPool t) (c : C) :
    t.LeadsTo (fun p => (p.calls c).holdsPool = true) fun p => p.lock = none := by
  refine call_leadsTo (S := fun pc => pc.holdsPool = true) fair (fun _ h => .inl h) ?_
  intro p p' inside eff
  cases eff with
  | unlockPool | unlockFull => exact .inl rfl
  | busy pc | found pc | full pc | setFlag pc =>
    refine .inr ⟨by simp [CallPc.holdsPool], ?_⟩
    simp only [ThreadPool.setCall_calls, ThreadPool.setIsWorking_calls, if_true, pc, CallPc.left]
    omega
  | lockPool pc | lockWorker pc | refuse pc | accept pc | setFn pc | setArg pc | unlockWorker pc =>
    rw [pc] at inside
    cases inside

/-- A call that has locked a worker unlocks it. -/
lemma worker_unlocked (fair : FairPool t) (c : C) (i : Fin n) :
    t.LeadsTo (fun p => (p.calls c).holds = some i) fun p => (p.workers i).lock = none := by
  refine call_leadsTo (S := fun pc => pc.holds = some i) fair (fun _ h => .inr ⟨i, h⟩) ?_
  intro p p' inside eff
  cases eff with
  | unlockWorker pc =>
    rw [pc] at inside
    cases inside
    exact .inl (by simp)
  | refuse pc | accept pc | setFn pc | setArg pc =>
    rw [pc] at inside
    cases inside
    refine .inr ⟨by simp [CallPc.holds], ?_⟩
    simp [pc, CallPc.left]
  | lockPool pc | busy pc | found pc | full pc | setFlag pc | unlockPool pc | lockWorker pc | unlockFull pc =>
    rw [pc] at inside
    cases inside

/-! ## Workers -/

/-- Other threads leave a worker where it is; only a wait that fails takes it to its test. -/
lemma PoolEffect.pc_other {a : PoolAct n C} (e : PoolEffect task p a p') (ne : a ≠ .worker i) :
    (p'.workers i).pc = (p.workers i).pc ∨
      (p.workers i).pc = .wait ∧ p'.workers i = { p.workers i with pc := .test } := by
  cases e with
  | @worker j _ eff => exact .inl (by rw [eff.other fun e => ne (by rw [e])])
  | @invalid j pc =>
    by_cases e : i = j
    · subst e
      exact .inr ⟨pc, by simp⟩
    · exact .inl (by simp [e])
  | call eff => exact .inl (eff.pc i)
  | quit => exact .inl rfl

/-- A worker that cannot go on has ended or waits for a mutex. -/
lemma worker_blocked (h : ¬ Enabled (poolStep task) (.worker i) p) :
    (p.workers i).pc = .exited ∨
      ((p.workers i).pc = .start ∨ (p.workers i).pc = .sleep) ∧ (p.workers i).lock ≠ none ∨
      (p.workers i).pc = .lockPool ∧ p.lock ≠ none := by
  simp only [Enabled, poolStep, workerThreadFn, not_exists] at h
  cases pc : (p.workers i).pc with
  | exited => exact .inl rfl
  | start | sleep =>
    refine .inr (.inl ⟨by simp, fun free => ?_⟩)
    simp only [pc, free, Option.isNone_none, if_true] at h
    exact h _ rfl
  | lockPool =>
    refine .inr (.inr ⟨rfl, fun free => ?_⟩)
    simp only [pc, free, Option.isNone_none, if_true] at h
    exact h _ rfl
  | test =>
    simp only [pc] at h
    cases fn : (p.workers i).taskFn with
    | none =>
      simp only [fn] at h
      exact absurd rfl (h _)
    | some f =>
      simp only [fn] at h
      exact absurd rfl (h _)
  | _ =>
    simp only [pc] at h
    exact absurd rfl (h _)

/-- How many steps a worker has at most until it ends, after it was told to quit. -/
def WorkerThread.left (w : WorkerThread n F A C) : Nat :=
  match w.pc with
  | .exited => 0
  | .exiting => 1
  | .testNull => 2
  | .testQuit => 3
  | .test => if w.taskFn.isSome then 11 else 4
  | .unlockPool => 5
  | .clearFlag => 6
  | .lockPool => 7
  | .clearArg => 8
  | .clearFn => 9
  | .running .. => 10
  | .start | .sleep => 12
  | .wait => 13

omit [DecidableEq C] in
/-- The rank of a worker depends on where it is, and at its test on its slot. -/
lemma left_congr {w w' : WorkerThread n F A C} (pc : w'.pc = w.pc) (fn : w.pc = .test → w'.taskFn = w.taskFn) :
    w'.left = w.left := by
  simp only [WorkerThread.left, pc]
  cases h : w.pc with
  | test => simp only [fn h]
  | _ => rfl

/-- Other threads do not raise the rank of a worker: they store into its slot only while it sleeps. -/
lemma PoolEffect.left_le {a : PoolAct n C} (e : PoolEffect task p a p') (locks : WorkerLocks p)
    (ne : a ≠ .worker i) : (p'.workers i).left ≤ (p.workers i).left := by
  rcases e.pc_other ne with same | ⟨pc, eq⟩
  · refine (left_congr same fun test => ?_).le
    cases e with
    | @worker j _ eff => rw [eff.other fun e => ne (by rw [e])]
    | @invalid j pc =>
      by_cases e : i = j
      · simp [e]
      · simp [e]
    | quit => rfl
    | @call c _ eff =>
      have awake : ∀ j, (p.calls c).holds = some j → i ≠ j := by
        rintro j hc rfl
        rcases locks.asleep hc with pc | pc <;> rw [pc] at test <;> cases test
      cases eff with
      | @setFn j pc | @setArg j pc | @unlockWorker j _ pc => simp [awake j (by rw [pc]; rfl)]
      | @lockWorker j pc free =>
        by_cases e : i = j
        · simp [e]
        · simp [e]
      | _ => rfl
  · rw [eq]
    simp only [WorkerThread.left, pc]
    split <;> omega

/-- A worker gets where each of its steps brings it nearer, if it can go on again and again. -/
lemma worker_leadsTo {P Q : ThreadPool n F A C → Prop} (fair : FairPool t) (inv : ∀ m, Inv task (t.state m))
    (keep : ∀ p a p', Inv task p → P p → a ≠ .worker i → PoolEffect task p a p' → P p')
    (move : ∀ p p', Inv task p → P p → WorkerEffect p i p' → Q p' ∨ P p' ∧ (p'.workers i).left < (p.workers i).left)
    (again : ∀ m, P (t.state m) → ¬ Q (t.state m) → ∃ k ≥ m, Enabled (poolStep task) (.worker i) (t.state k)) :
    t.LeadsTo P Q := by
  refine (fair.workers i).leadsTo (fun p => (p.workers i).left) ?_ ?_ ?_
  · intro k a hp _ act other
    have e := poolStep_effect (t.next k a act)
    exact .inr ⟨keep _ a _ (inv k) hp other e, e.left_le (inv k).locks other⟩
  · intro k hp _ act
    exact move _ _ (inv k) hp (workerThreadFn_effect (t.next k _ act))
  · intro k stays
    exact again k (stays k le_rfl).1 (stays k le_rfl).2

/-! ## Mutexes become free -/

section Again
variable (fair : FairPool t) (inv : ∀ m, Inv task (t.state m))
include fair inv

/-- A worker that has locked the pool unlocks it. -/
lemma pool_released (j : Fin n) : t.LeadsTo (fun p => (p.workers j).pc.holdsPool = true) fun p => p.lock = none := by
  refine worker_leadsTo (i := j) fair inv ?_ ?_ ?_
  · intro p a p' h inside ne e
    rcases e.pc_other ne with same | ⟨pc, -⟩
    · rwa [same]
    · rw [pc] at inside
      cases inside
  · intro p p' h inside eff
    cases eff with
    | unlockPool => exact .inl rfl
    | clearFlag pc =>
      exact .inr ⟨by simp [WorkerPc.holdsPool], by simp [WorkerThread.left, pc]⟩
    | lock pc => rcases pc with pc | pc <;> rw [pc] at inside <;> cases inside
    | empty pc | call pc | quitting pc | staying pc | leave pc | stay pc | sleep pc | finish pc | clearFn pc
    | clearArg pc | lockPool pc | exit pc =>
      rw [pc] at inside
      cases inside
  · intro m inside _
    by_contra never
    rcases worker_blocked fun en => never ⟨m, le_rfl, en⟩ with pc | ⟨pc | pc, -⟩ | ⟨pc, -⟩ <;>
    · rw [pc] at inside
      cases inside

/-- `pool->lock` becomes free again and again. -/
lemma pool_lock_free (holders : ∀ m, Holders (t.state m)) (m : Nat) : ∃ k ≥ m, (t.state k).lock = none := by
  cases held : (t.state m).lock with
  | none => exact ⟨m, le_rfl, held⟩
  | some th =>
    cases th with
    | call c => exact pool_unlocked fair c m ((holders m).callPool c held)
    | worker j => exact pool_released fair inv j m ((holders m).workerPool j held)

omit inv in
/-- So does the lock of a worker that sleeps. -/
lemma worker_lock_free (holders : ∀ m, Holders (t.state m)) (m : Nat)
    (asleep : ((t.state m).workers i).pc = .start ∨ ((t.state m).workers i).pc = .sleep) :
    ∃ k ≥ m, ((t.state k).workers i).lock = none := by
  cases held : ((t.state m).workers i).lock with
  | none => exact ⟨m, le_rfl, held⟩
  | some th =>
    cases th with
    | call c => exact worker_unlocked fair c i m ((holders m).call i c held)
    | worker j =>
      have awake := ((holders m).worker i j held).2
      rcases asleep with pc | pc <;> rw [pc] at awake <;> cases awake

/-- A worker that has not ended can go on again and again. -/
lemma worker_enabled (holders : ∀ m, Holders (t.state m)) (m : Nat) (alive : ((t.state m).workers i).pc ≠ .exited) :
    ∃ k ≥ m, Enabled (poolStep task) (.worker i) (t.state k) := by
  by_contra never
  have blocked : ∀ k ≥ m, ¬ Enabled (poolStep task) (.worker i) (t.state k) := fun k hk en => never ⟨k, hk, en⟩
  -- As it does not move, it waits for the same mutex all the time.
  have still : ∀ k ≥ m, ((t.state k).workers i).pc = ((t.state m).workers i).pc := by
    intro k hk
    induction k, hk using Nat.le_induction with
    | base => rfl
    | succ k hk ih =>
      rw [← ih]
      cases e : t.act k with
      | none => rw [t.stay k e]
      | some a =>
        have st := t.next k a e
        have ne : a ≠ .worker i := by
          rintro rfl
          exact blocked k hk ⟨_, st⟩
        rcases (poolStep_effect st).pc_other ne with same | ⟨pc, -⟩
        · exact same
        · rcases worker_blocked (blocked k hk) with pc' | ⟨pc' | pc', -⟩ | ⟨pc', -⟩ <;> rw [pc] at pc' <;> cases pc'
  rcases worker_blocked (blocked m le_rfl) with pc | ⟨asleep, -⟩ | ⟨pc, -⟩
  · exact alive pc
  · obtain ⟨k, hk, free⟩ := worker_lock_free fair holders m asleep
    rw [← still k hk] at asleep
    rcases worker_blocked (blocked k hk) with pc | ⟨-, held⟩ | ⟨pc, -⟩
    · rcases asleep with pc' | pc' <;> rw [pc] at pc' <;> cases pc'
    · exact held free
    · rcases asleep with pc' | pc' <;> rw [pc] at pc' <;> cases pc'
  · obtain ⟨k, hk, free⟩ := pool_lock_free fair inv holders m
    rw [← still k hk] at pc
    rcases worker_blocked (blocked k hk) with pc' | ⟨pc' | pc', -⟩ | ⟨-, held⟩
    · rw [pc] at pc'
      cases pc'
    · rw [pc] at pc'
      cases pc'
    · rw [pc] at pc'
      cases pc'
    · exact held free

end Again

/-! ## Tasks and shutdown -/

/-- The task of the call is in the slot of the worker and has not been executed. -/
def Pending (c : C) (i : Fin n) (p : ThreadPool n F A C) : Prop :=
  (p.workers i).call = some c ∧ (p.workers i).pc.executed = false

/-- Nobody but the worker itself takes a task out of its slot. -/
lemma Pending.other {a : PoolAct n C} (h : Pending c i p) (inv : Inv task p) (e : PoolEffect task p a p')
    (ne : a ≠ .worker i) : Pending c i p' := by
  obtain ⟨call, exec⟩ := h
  have full : (p.workers i).taskFn ≠ none := fun none => by
    rw [(inv.slots i).call.mpr none] at call
    cases call
  rcases e.pc_other ne with same | ⟨pc, -⟩
  · refine ⟨?_, by rw [same]; exact exec⟩
    cases e with
    | @worker j _ eff => rw [eff.other fun e => ne (by rw [e]), call]
    | @invalid j pc =>
      by_cases e : i = j
      · simpa [← e] using call
      · simpa [e] using call
    | quit => exact call
    | @call c' _ eff =>
      cases eff with
      | @setFn j pc =>
        have free : i ≠ j := by
          rintro rfl
          exact full (inv.placed.setFn i c' pc)
        simpa [free] using call
      | @setArg j pc | @unlockWorker j _ pc | @lockWorker j pc _ =>
        by_cases e : i = j
        · simpa [← e] using call
        · simpa [e] using call
      | _ => exact call
  · exact absurd ((inv.slots i).empty (by rw [pc]; rfl)) full

/-- A step of the worker brings it nearer to the end of the task. -/
lemma Pending.move (h : Pending c i p) (inv : Inv task p) (eff : WorkerEffect p i p') :
    executions p'.log c = 1 ∨ Pending c i p' ∧ (p'.workers i).left < (p.workers i).left := by
  obtain ⟨call, exec⟩ := h
  have full : (p.workers i).taskFn ≠ none := fun none => by
    rw [(inv.slots i).call.mpr none] at call
    cases call
  have slot := (inv.slots i).empty
  have count := inv.counted.slot i c call
  cases eff with
  | lock pc =>
    refine .inr ⟨⟨by simpa using call, by simp [WorkerPc.executed]⟩, ?_⟩
    rcases pc with pc | pc <;> simp only [ThreadPool.setWorker_workers, if_true, WorkerThread.left, pc] <;>
      split <;> omega
  | call pc fn =>
    refine .inr ⟨⟨by simpa using call, by simp [WorkerPc.executed]⟩, ?_⟩
    simp [WorkerThread.left, pc, fn]
  | finish pc =>
    rw [exec] at count
    exact .inl (by simp [executions_cons, call, count])
  | empty pc fn => exact absurd fn full
  | clearFn pc =>
    rw [pc] at exec
    cases exec
  | quitting pc | staying pc | leave pc | stay pc | sleep pc | clearArg pc | lockPool pc | clearFlag pc
  | unlockPool pc | exit pc => exact absurd (slot (by rw [pc]; rfl)) full

/-- After `quit` every step of a worker brings it nearer to its end. -/
lemma quit_move (inv : Inv task p) (quit : p.quit = true) (eff : WorkerEffect p i p') :
    (p'.workers i).pc = .exited ∨ p'.quit = true ∧ (p'.workers i).left < (p.workers i).left := by
  have slot := (inv.slots i).empty
  refine or_iff_not_imp_left.mpr fun ne => ⟨eff.quit.trans quit, ?_⟩
  cases eff with
  | lock pc =>
    rcases pc with pc | pc <;> simp only [ThreadPool.setWorker_workers, if_true, WorkerThread.left, pc] <;>
      split <;> omega
  | staying pc no => exact absurd (no.symm.trans quit) (by decide)
  | stay pc fn => exact absurd (slot (by rw [pc]; rfl)) fn
  | exit pc => exact absurd (by simp) ne
  | unlockPool pc => simp [WorkerThread.left, pc, slot (by rw [pc]; rfl)]
  | empty pc fn | call pc fn => simp [WorkerThread.left, pc, fn]
  | quitting pc | leave pc | sleep pc | finish pc | clearFn pc | clearArg pc | lockPool pc | clearFlag pc =>
    simp [WorkerThread.left, pc]

/-- A worker that has ended stays where it is. -/
lemma PoolEffect.exited {a : PoolAct n C} (e : PoolEffect task p a p') (pc : (p.workers i).pc = .exited) :
    (p'.workers i).pc = .exited := by
  by_cases own : a = .worker i
  · subst own
    cases e with
    | worker eff =>
      cases eff with
      | lock pc' => rcases pc' with pc' | pc' <;> rw [pc] at pc' <;> cases pc'
      | _ pc' =>
        rw [pc] at pc'
        cases pc'
  · rcases e.pc_other own with same | ⟨pc', -⟩
    · exact same.trans pc
    · rw [pc] at pc'
      cases pc'

/-- Once `quit` is set it stays set. -/
lemma PoolEffect.quit_of {a : PoolAct n C} (e : PoolEffect task p a p') (quit : p.quit = true) : p'.quit = true := by
  cases e with
  | worker eff => exact eff.quit.trans quit
  | invalid pc => exact quit
  | call eff => exact eff.quit.trans quit
  | quit => rfl

section Live
variable (fair : FairPool t) (inv : ∀ m, Inv task (t.state m)) (holders : ∀ m, Holders (t.state m))
include fair inv holders

/-- A task in a slot is executed. -/
lemma pending_live (c : C) (i : Fin n) : t.LeadsTo (Pending c i) fun p => executions p.log c = 1 := by
  refine worker_leadsTo (i := i) fair inv (fun p a p' h pending ne e => pending.other h e ne)
    (fun p p' h pending eff => pending.move h eff) ?_
  intro k pending _
  apply worker_enabled fair inv holders
  intro pc
  have call := ((inv k).slots i).call.mpr (((inv k).slots i).empty (by rw [pc]; rfl))
  exact absurd (call.symm.trans pending.1) (by simp)

/-- A worker that is to quit ends. -/
lemma quit_live (i : Fin n) : t.LeadsTo (fun p => p.quit = true) fun p => (p.workers i).pc = .exited :=
  worker_leadsTo (i := i) fair inv (fun _ _ _ _ quit _ e => e.quit_of quit) (fun _ _ h quit eff => quit_move h quit eff)
    fun k _ alive => worker_enabled fair inv holders k alive

end Live

/-- In every fair run every accepted task is executed at last, and once `quit` is set all workers end. -/
theorem pool_live (t : Trace (poolStep (n := n) task)) (init : t.state 0 = newThreadPool n F A C) (fair : FairPool t) :
    (∀ m c, (t.state m).calls c = .returned 0 → ∃ k ≥ m, executions (t.state k).log c = 1) ∧
    ∀ m, (t.state m).quit = true → ∃ k ≥ m, ∀ i, ((t.state k).workers i).pc = .exited := by
  have inv : ∀ m, Inv task (t.state m) := fun m => reach_inv (init ▸ t.reach (fun _ _ _ => trivial) m)
  have holders : ∀ m, Holders (t.state m) := fun m => reach_holders (init ▸ t.reach (fun _ _ _ => trivial) m)
  constructor
  · intro m c acc
    by_cases placed : ∃ i, ((t.state m).workers i).call = some c
    · obtain ⟨i, call⟩ := placed
      cases exec : ((t.state m).workers i).pc.executed with
      | true => exact ⟨m, le_rfl, by rw [(inv m).counted.slot i c call, exec]; rfl⟩
      | false => exact pending_live fair inv holders c i m ⟨call, exec⟩
    · refine ⟨m, le_rfl, ?_⟩
      rw [(inv m).counted.noSlot c fun i call => placed ⟨i, call⟩, acc]
      rfl
  · intro m quit
    exact Trace.all_of_each (t := t) (P := fun i p => (p.workers i).pc = .exited)
      (fun i p a p' pc st => (poolStep_effect st).exited pc) fun i => quit_live fair inv holders i m quit

/-- One worker and two calls. The first call is accepted, then the pool is told to quit, and the worker executes
the task and ends; the second call is never made. -/
def quitWithTask : List (PoolAct 1 Bool) :=
  List.replicate 9 (.call true) ++ [.quit] ++ List.replicate 12 (.worker 0)

/-- After this nothing is left to be done, and so the run is fair. -/
theorem pool_live_quit :
    ∃ t : Trace (poolStep (n := 1) fun c : Bool => (⟨(), some c⟩ : Task Unit Bool)),
      t.state 0 = newThreadPool 1 Unit Bool Bool ∧ FairPool t ∧
      ((t.state 10).calls true = .returned 0 ∧ (t.state 10).quit = true ∧ executions (t.state 10).log true = 0) ∧
      (∃ k, executions (t.state k).log true = 1) ∧ ∃ k, ∀ i, ((t.state k).workers i).pc = .exited := by
  obtain ⟨p, ends⟩ : ∃ p, quitWithTask.foldlM (poolStep fun c : Bool => (⟨(), some c⟩ : Task Unit Bool))
      (newThreadPool 1 Unit Bool Bool) = .ok p := ⟨_, rfl⟩
  obtain ⟨t, states⟩ := exists_trace ends
  have zero : t.state 0 = newThreadPool 1 Unit Bool Bool := (Except.ok.inj (states 0)).symm
  have last : ∀ m ≥ 22, t.state m = p := fun m hm => Trace.last_state states ends hm
  have mid := of_decide_eq_true (Trace.test_state (m := 10) states (fun p => decide (p.calls true = .returned 0 ∧
    p.quit = true ∧ executions p.log true = 0)) (by decide +kernel))
  have dead : (p.workers 0).pc = .exited ∧ p.calls true = .returned 0 ∧ p.calls false = .start := by
    rw [← last 22 le_rfl]
    exact of_decide_eq_true (Trace.test_state (m := 22) states (fun p => decide ((p.workers 0).pc = .exited ∧
      p.calls true = .returned 0 ∧ p.calls false = .start)) (by decide +kernel))
  have fair : FairPool t := by
    constructor
    · intro i
      refine .of_dead 22 fun m hm en => ?_
      rw [last m hm, Subsingleton.elim i 0] at en
      simp [Enabled, poolStep, workerThreadFn, dead.1] at en
    · intro c k en
      obtain ⟨begun, q, st⟩ := en (max k 22) (le_max_left _ _)
      rw [last _ (le_max_right _ _)] at begun st
      cases c with
      | false => exact absurd dead.2.2 begun
      | true => simp [poolStep, threadPoolRun, dead.2.1] at st
  obtain ⟨executed, exits⟩ := pool_live t zero fair
  obtain ⟨k, -, one⟩ := executed 10 true mid.1
  obtain ⟨k', -, all⟩ := exits 10 mid.2.1
  exact ⟨t, zero, fair, mid, ⟨k, one⟩, k', all⟩

end Mvvmm.Pool
