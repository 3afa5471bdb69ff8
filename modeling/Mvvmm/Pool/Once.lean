import Mvvmm.Pool.Locks
import Mathlib.Data.List.FinRange

/-!
# Every accepted task is executed exactly once

The invariants of the thread pool behind its locks, in the order in which they depend on each other.

* `SlotOk`: what a worker has seen of its slot is still true, as it has not let go of the lock since.
* `Flags`: a worker whose flag a call has set is claimed by that call alone and has nothing to do. This rests
  on `pool->lock`, so it holds only as long as `quit` is not set. This is enough, because a call that
  sees `quit` gives up, and a call that does not has claimed its worker before.
* `Placed` and `Counted`: whose task is in a slot, and how often it has been executed.

`exactly_once` puts them together.
-/

namespace Mvvmm.Pool
open CMem Run

variable {n : Nat} {F A C : Type}

/-! ## Where the threads are -/

/-- The worker has begun a task, and has not cleared its flag since. -/
@[grind]
def WorkerPc.busy : WorkerPc F A → Bool
  | .running .. | .clearFn | .clearArg | .lockPool | .clearFlag => true
  | _ => false

/-- The worker has found its slot empty, or emptied it. -/
@[grind]
def WorkerPc.seenEmpty : WorkerPc F A → Bool
  | .testQuit | .testNull | .wait | .clearArg | .lockPool | .clearFlag | .unlockPool | .exiting
  | .exited => true
  | _ => false

/-- The worker has seen `quit`. -/
@[grind]
def WorkerPc.seenQuit : WorkerPc F A → Bool
  | .testNull | .exiting | .exited => true
  | _ => false

/-- The worker has executed the task in its slot. -/
@[grind]
def WorkerPc.executed : WorkerPc F A → Bool
  | .clearFn => true
  | _ => false

/-- The worker lives and has not begun the task in its slot. -/
@[grind]
def WorkerPc.waiting : WorkerPc F A → Bool
  | .start | .test | .sleep => true
  | _ => false

/-- The worker whose flag the call has set, and to which it has not handed its task yet. -/
@[grind]
def CallPc.claims : CallPc n → Option (Fin n)
  | .unlockPool i | .lockWorker i | .testQuit i | .setFn i => some i
  | _ => none

/-- The flags that the call has seen set, all of them below the number. -/
@[grind]
def CallPc.seenBusy : CallPc n → Nat
  | .scan k => k
  | .setFlag i => i
  | .unlockFull => n
  | _ => 0

/-- The call has handed over its task, with its argument. -/
@[grind]
def CallPc.accepted : CallPc n → Bool
  | .unlockWorker _ ret => ret == 0
  | .returned ret => ret == 0
  | _ => false

variable {p p' : ThreadPool n F A C}

/-! ## Slots and flags -/

/-- What a worker has seen of its slot is true. -/
structure SlotOk (w : WorkerThread n F A C) : Prop where
  running : ∀ f a, w.pc = .running f a → w.taskFn = some f ∧ w.arg = a
  executed : w.pc.executed = true → w.taskFn ≠ none
  empty : w.pc.seenEmpty = true → w.taskFn = none
  call : w.call = none ↔ w.taskFn = none

/-- What a worker does itself keeps what it has seen true. -/
lemma SlotOk.worker {i : Fin n} (h : SlotOk (p.workers i)) (eff : WorkerEffect p i p') :
    SlotOk (p'.workers i) := by
  cases eff with
  | lock | sleep | unlockPool =>
    exact ⟨by simp, by simp [WorkerPc.executed], by simp [WorkerPc.seenEmpty], by simpa using h.call⟩
  | call pc fn =>
    exact ⟨by simp [fn], by simp [WorkerPc.executed], by simp [WorkerPc.seenEmpty], by simpa using h.call⟩
  | finish pc =>
    have fn := (h.running _ _ pc).1
    exact ⟨by simp, by simp [fn], by simp [WorkerPc.seenEmpty], by simpa using h.call⟩
  | clearFn => exact ⟨by simp, by simp [WorkerPc.executed], by simp, by simp⟩
  | stay pc fn => exact absurd (h.empty (by rw [pc]; rfl)) fn
  | empty pc fn =>
    exact ⟨by simp, by simp [WorkerPc.executed], by simp [fn], by simpa using h.call⟩
  | quitting pc | staying pc | leave pc | clearArg pc | lockPool pc | clearFlag pc | exit pc =>
    have fn := h.empty (by rw [pc]; rfl)
    exact ⟨by simp, by simp [WorkerPc.executed], by simp [fn], by simpa using h.call⟩

/-- A worker that is asleep has seen nothing. -/
lemma SlotOk.asleep {w : WorkerThread n F A C} (asleep : w.pc = .start ∨ w.pc = .sleep)
    (call : w.call = none ↔ w.taskFn = none) : SlotOk w := by
  rcases asleep with pc | pc
  · exact ⟨by simp [pc], by simp [pc, WorkerPc.executed], by simp [pc, WorkerPc.seenEmpty], call⟩
  · exact ⟨by simp [pc], by simp [pc, WorkerPc.executed], by simp [pc, WorkerPc.seenEmpty], call⟩

/-- The worker has a task, or has had one and not cleared its flag since. -/
@[grind]
def WorkerThread.Occupied (w : WorkerThread n F A C) : Prop :=
  w.pc.busy = true ∨ w.taskFn ≠ none

/-- A call looks at the flags only under `self->lock`. -/
lemma CallPc.holdsPool_of_seenBusy {pc : CallPc n} {k : Nat} (h : k < pc.seenBusy) :
    pc.holdsPool = true := by
  cases pc with
  | scan _ | setFlag _ | unlockFull => rfl
  | _ => exact absurd h (Nat.not_lt_zero k)

/-- The flags as long as `quit` is not set. -/
structure Flags (p : ThreadPool n F A C) : Prop where
  claimed : ∀ c i, (p.calls c).claims = some i → p.isWorking i = true ∧ ¬ (p.workers i).Occupied
  unique : ∀ c c' i, (p.calls c).claims = some i → (p.calls c').claims = some i → c = c'
  occupied : ∀ i, (p.workers i).Occupied → p.isWorking i = true
  found : ∀ c i, p.calls c = .setFlag i → p.isWorking i = false
  seen : ∀ c (i : Fin n), i < (p.calls c).seenBusy → p.isWorking i = true

/-- A worker does not become occupied by what it does itself. -/
lemma WorkerEffect.occupied {i : Fin n} (h : WorkerEffect p i p') :
    ∀ j, (p'.workers j).Occupied → (p.workers j).Occupied := by
  refine h.all (P := fun j w => w.Occupied → (p.workers j).Occupied) ?_ fun _ occ => occ
  intro occ
  cases h with
  | call pc fn => exact .inr (by simp [fn])
  | finish pc | clearFn pc | clearArg pc | lockPool pc | clearFlag pc => exact .inl (by rw [pc]; rfl)
  | _ => exact .inr (by simpa [WorkerThread.Occupied, WorkerPc.busy] using occ)

/-- What a call has to do with the flags is no more than before. -/
structure CallPc.KeepsFlags (isWorking : Fin n → Bool) (pc pc' : CallPc n) : Prop where
  claims : ∀ i, pc'.claims = some i → pc.claims = some i
  found : ∀ i, pc' = .setFlag i → isWorking i = false
  seen : ∀ i : Fin n, i < pc'.seenBusy → isWorking i = true

/-- Steps that set no flag and claim nothing. -/
lemma Flags.mono (h : Flags p) (flags : ∀ i, p'.isWorking i = p.isWorking i)
    (occ : ∀ i, (p'.workers i).Occupied → (p.workers i).Occupied)
    (calls : ∀ c, (p.calls c).KeepsFlags p.isWorking (p'.calls c)) : Flags p' where
  claimed c i hc := by
    obtain ⟨flag, free⟩ := h.claimed c i ((calls c).claims i hc)
    exact ⟨(flags i).trans flag, fun ho => free (occ i ho)⟩
  unique c c' i hc hc' := h.unique c c' i ((calls c).claims i hc) ((calls c').claims i hc')
  occupied i ho := (flags i).trans (h.occupied i (occ i ho))
  found c i hc := (flags i).trans ((calls c).found i hc)
  seen c i hi := (flags i).trans ((calls c).seen i hi)

/-- What a call knows of the flags stays true while the flags do. -/
lemma Flags.calls (h : Flags p) (c : C) : (p.calls c).KeepsFlags p.isWorking (p.calls c) :=
  ⟨fun _ hc => hc, h.found c, h.seen c⟩

/-! ## Tasks -/

/-- The slots hold the tasks of calls, each in one slot only, and a call that is about to store its task
finds the slot empty. -/
structure Placed (task : C → Task F A) (p : ThreadPool n F A C) : Prop where
  fn : ∀ i c, (p.workers i).call = some c → (p.workers i).taskFn = some (task c).fn
  arg : ∀ i c, (p.workers i).call = some c →
    p.calls c = .setArg i ∨ (p.calls c).accepted = true ∧ (p.workers i).arg = (task c).arg
  setArg : ∀ i c, p.calls c = .setArg i → (p.workers i).call = some c
  unique : ∀ i j c, (p.workers i).call = some c → (p.workers j).call = some c → i = j
  setFn : ∀ i c, p.calls c = .setFn i → (p.workers i).taskFn = none

/-- The slots are the same. -/
structure WorkerThread.SameSlot (w w' : WorkerThread n F A C) : Prop where
  fn : w'.taskFn = w.taskFn
  arg : w'.arg = w.arg
  call : w'.call = w.call

/-- The slots of the workers, if a worker keeps its own. -/
lemma setWorker_sameSlot {i : Fin n} {w : WorkerThread n F A C} (h : (p.workers i).SameSlot w) :
    ∀ j, (p.workers j).SameSlot ((p.setWorker i w).workers j) :=
  ThreadPool.all_setWorker (P := fun j w => (p.workers j).SameSlot w) h fun _ => ⟨rfl, rfl, rfl⟩

/-- The call has not come to its slot, or has gone on there without storing anything. -/
structure CallPc.SameTask (pc pc' : CallPc n) : Prop where
  setArg : ∀ i, pc' = .setArg i ↔ pc = .setArg i
  accepted : pc'.accepted = pc.accepted
  setFn : ∀ i, pc' = .setFn i → pc = .setFn i

/-- A call keeps its task while it stays where it is. -/
lemma CallPc.SameTask.refl (pc : CallPc n) : pc.SameTask pc :=
  ⟨fun _ => Iff.rfl, rfl, fun _ h => h⟩

/-- Steps that leave the slots, and the calls at their slots. -/
lemma Placed.mono {task : C → Task F A} (h : Placed task p) (slots : ∀ i, (p.workers i).SameSlot (p'.workers i))
    (calls : ∀ c, (p.calls c).SameTask (p'.calls c)) : Placed task p' where
  fn i c hc := by
    rw [(slots i).fn]
    exact h.fn i c ((slots i).call ▸ hc)
  arg i c hc := by
    rw [(calls c).setArg, (calls c).accepted, (slots i).arg]
    exact h.arg i c ((slots i).call ▸ hc)
  setArg i c hc := (slots i).call.trans (h.setArg i c (((calls c).setArg i).mp hc))
  unique i j c hi hj := h.unique i j c ((slots i).call ▸ hi) ((slots j).call ▸ hj)
  setFn i c hc := (slots i).fn.trans (h.setFn i c ((calls c).setFn i hc))

/-- A call that has not stored its task has none in a slot. -/
lemma Placed.not_placed {task : C → Task F A} (h : Placed task p) {c : C} (out : ∀ i, p.calls c ≠ .setArg i)
    (acc : (p.calls c).accepted = false) (i : Fin n) : (p.workers i).call ≠ some c := by
  intro hc
  rcases h.arg i c hc with setArg | ⟨acc', -⟩
  · exact out i setArg
  · rw [acc] at acc'
    cases acc'

section Count
variable [DecidableEq C]

/-- How often the task of a call has been executed. -/
def executions (log : List (Execution F A C)) (c : C) : Nat :=
  log.countP fun e => e.call = some c

/-- An execution is counted for the call that it is for. -/
lemma executions_cons {log : List (Execution F A C)} {x : Option C} {t : Task F A} {c : C} :
    executions (⟨x, t⟩ :: log) c = executions log c + if x = some c then 1 else 0 := by
  simp [executions, List.countP_cons]

/-- What the slots and the calls say about the executions, and every execution is of an accepted task. -/
structure Counted (task : C → Task F A) (p : ThreadPool n F A C) : Prop where
  slot : ∀ i c, (p.workers i).call = some c →
    executions p.log c = if (p.workers i).pc.executed then 1 else 0
  noSlot : ∀ c, (∀ i, (p.workers i).call ≠ some c) →
    executions p.log c = if (p.calls c).accepted then 1 else 0
  log : ∀ e ∈ p.log, ∃ c, e = ⟨some c, task c⟩

/-- Steps that execute nothing and leave the slots. -/
lemma Counted.mono {task : C → Task F A} (h : Counted task p) (log : p'.log = p.log)
    (workers : ∀ i, (p'.workers i).call = (p.workers i).call ∧
      (p'.workers i).pc.executed = (p.workers i).pc.executed)
    (accepted : ∀ c, (p'.calls c).accepted = (p.calls c).accepted) : Counted task p' where
  slot i c hc := by
    rw [log, (workers i).2]
    exact h.slot i c ((workers i).1 ▸ hc)
  noSlot c hc := by
    rw [log, accepted]
    exact h.noSlot c fun i => (workers i).1 ▸ hc i
  log := by
    rw [log]
    exact h.log

end Count

/-! ## Steps -/

section Steps
variable [DecidableEq C] {task : C → Task F A} {a : PoolAct n C}

/-- A worker leaves only after `quit` was set. -/
lemma seenQuit_step (h : ∀ i, (p.workers i).pc.seenQuit = true → p.quit = true)
    (e : PoolEffect task p a p') : ∀ i, (p'.workers i).pc.seenQuit = true → p'.quit = true := by
  cases e with
  | @worker i _ eff =>
    rw [eff.quit]
    refine eff.all (P := fun _ w => w.pc.seenQuit = true → p.quit = true) ?_ h
    intro seen
    cases eff with
    | quitting pc quit => exact quit
    | leave pc | exit pc => exact h i (by rw [pc]; rfl)
    | _ => simp [WorkerPc.seenQuit] at seen
  | @invalid i pc =>
    exact ThreadPool.all_setWorker (P := fun _ w => w.pc.seenQuit = true → p.quit = true)
      (fun seen => by cases seen) h
  | call eff =>
    intro j seen
    rw [eff.pc j] at seen
    rw [eff.quit]
    exact h j seen
  | quit => exact fun _ _ => rfl

/-- `quit` is never taken back. -/
lemma quit_step (e : PoolEffect task p a p') (quit : p'.quit = false) : p.quit = false := by
  cases e with
  | worker eff => exact eff.quit.symm.trans quit
  | invalid pc => exact quit
  | call eff => exact eff.quit.symm.trans quit
  | quit => cases quit

omit [DecidableEq C] in
/-- As long as `quit` is not set, no worker leaves. -/
lemma noExit_of_quit (seen : ∀ i, (p.workers i).pc.seenQuit = true → p.quit = true)
    (quit : p.quit = false) : NoExit p a := by
  intro i _ pc
  have set := seen i (by rw [pc]; rfl)
  rw [quit] at set
  cases set

/-- Every step keeps what the places of the workers say about their slots. -/
lemma slotOk_step (locks : WorkerLocks p) (h : ∀ i, SlotOk (p.workers i))
    (e : PoolEffect task p a p') : ∀ i, SlotOk (p'.workers i) := by
  cases e with
  | @worker i _ eff => exact eff.all (P := fun _ => SlotOk) ((h i).worker eff) h
  | @invalid i pc =>
    have slot : SlotOk { p.workers i with pc := .test } :=
      ⟨by simp, by simp [WorkerPc.executed], by simp [WorkerPc.seenEmpty], (h i).call⟩
    exact ThreadPool.all_setWorker (P := fun _ => SlotOk) slot h
  | call eff =>
    cases eff with
    | setFn pc =>
      -- the slot changes while its worker is asleep
      exact ThreadPool.all_setWorker (P := fun _ => SlotOk)
        (.asleep (locks.asleep (by rw [pc]; rfl)) (by simp)) h
    | @setArg i pc =>
      exact ThreadPool.all_setWorker (P := fun _ => SlotOk)
        (.asleep (locks.asleep (by rw [pc]; rfl)) (h i).call) h
    | @lockWorker i pc free =>
      exact ThreadPool.all_setWorker (P := fun _ => SlotOk)
        ⟨(h i).running, (h i).executed, (h i).empty, (h i).call⟩ h
    | @unlockWorker i ret pc =>
      exact ThreadPool.all_setWorker (P := fun _ => SlotOk)
        ⟨(h i).running, (h i).executed, (h i).empty, (h i).call⟩ h
    | _ => exact h
  | quit => exact h

omit [DecidableEq C] in
/-- The worker clears its flag under `pool->lock`, and nobody has claimed it. -/
lemma Flags.clearFlag {i : Fin n} (h : Flags p) (lock : PoolLock p) (pc : (p.workers i).pc = .clearFlag)
    (empty : (p.workers i).taskFn = none) :
    Flags ((p.setWorker i { p.workers i with pc := .unlockPool }).setIsWorking i false) := by
  have held := lock.worker i (by rw [pc]; rfl)
  have alone : ∀ c, (p.calls c).holdsPool ≠ true := by
    intro c hc
    exact absurd (held.symm.trans (lock.call c hc)) (by simp)
  have occ := (WorkerEffect.clearFlag pc).occupied
  refine ⟨?_, h.unique, ?_, ?_, ?_⟩
  · intro c j hc
    obtain ⟨flag, free⟩ := h.claimed c j hc
    have ne : j ≠ i := by
      rintro rfl
      exact free (.inl (by rw [pc]; rfl))
    exact ⟨by simpa [ne] using flag, fun ho => free (occ j ho)⟩
  · intro j ho
    have ne : j ≠ i := by
      rintro rfl
      simp [WorkerThread.Occupied, WorkerPc.busy, empty] at ho
    simpa [ne] using h.occupied j (occ j ho)
  · intro c j hc
    have old : p.calls c = .setFlag j := hc
    exact absurd (by rw [old]; rfl) (alone c)
  · intro c j hj
    exact absurd (CallPc.holdsPool_of_seenBusy hj) (alone c)

omit [DecidableEq C] in

/-- A step of a worker keeps what the flags say. -/
lemma flags_worker {i : Fin n} (slots : ∀ i, SlotOk (p.workers i)) (lock : PoolLock p) (h : Flags p)
    (eff : WorkerEffect p i p') : Flags p' := by
  have occ := eff.occupied
  cases eff with
  | clearFlag pc => exact h.clearFlag lock pc ((slots i).empty (by rw [pc]; rfl))
  | _ => exact h.mono (fun _ => rfl) occ h.calls

/-- The call sets a flag that was clear, so nobody has claimed the worker before. -/
lemma Flags.setFlag {c : C} {i : Fin n} (h : Flags p) (lock : PoolLock p) (pc : p.calls c = .setFlag i) :
    Flags ((p.setCall c (.unlockPool i)).setIsWorking i true) := by
  have clear := h.found c i pc
  have unclaimed : ∀ c', (p.calls c').claims ≠ some i := by
    intro c' hc
    rw [(h.claimed c' i hc).1] at clear
    cases clear
  have alone : ∀ c', (p.calls c').holdsPool = true → c' = c := by
    intro c' hc
    have e := (lock.call c' hc).symm.trans (lock.call c (by rw [pc]; rfl))
    cases e
    rfl
  have set : ∀ j, p.isWorking j = true → ((p.setCall c (.unlockPool i)).setIsWorking i true).isWorking j = true := by
    intro j flag
    simp [flag]
  constructor
  · intro c' j hc
    by_cases e : c' = c
    · obtain rfl : i = j := by simpa [e, CallPc.claims] using hc
      refine ⟨by simp, fun ho => ?_⟩
      rw [h.occupied i ho] at clear
      cases clear
    · obtain ⟨flag, free⟩ := h.claimed c' j (by simpa [e] using hc)
      exact ⟨set j flag, free⟩
  · intro c₁ c₂ j h₁ h₂
    by_cases e₁ : c₁ = c
    · obtain rfl : i = j := by simpa [e₁, CallPc.claims] using h₁
      by_cases e₂ : c₂ = c
      · rw [e₁, e₂]
      · exact absurd (by simpa [e₂] using h₂) (unclaimed c₂)
    · by_cases e₂ : c₂ = c
      · obtain rfl : i = j := by simpa [e₂, CallPc.claims] using h₂
        exact absurd (by simpa [e₁] using h₁) (unclaimed c₁)
      · exact h.unique c₁ c₂ j (by simpa [e₁] using h₁) (by simpa [e₂] using h₂)
  · intro j ho
    exact set j (h.occupied j ho)
  · intro c' j hc
    by_cases e : c' = c
    · simp [e] at hc
    · have old : p.calls c' = .setFlag j := by simpa [e] using hc
      exact absurd (alone c' (by rw [old]; rfl)) e
  · intro c' j hj
    by_cases e : c' = c
    · simp [e, CallPc.seenBusy] at hj
    · exact set j (h.seen c' j (by simpa [e] using hj))

/-- The call hands its task to the worker that it alone has claimed. -/
lemma Flags.setFn {c : C} {i : Fin n} {w : WorkerThread n F A C} (h : Flags p) (pc : p.calls c = .setFn i) :
    Flags ((p.setCall c (.setArg i)).setWorker i w) := by
  have claim : (p.calls c).claims = some i := by
    rw [pc]
    rfl
  have claims : ∀ c' j, (((p.setCall c (.setArg i)).setWorker i w).calls c').claims = some j →
      c' ≠ c ∧ (p.calls c').claims = some j := by
    intro c' j hc
    by_cases e : c' = c
    · simp [e, CallPc.claims] at hc
    · exact ⟨e, by simpa [e] using hc⟩
  constructor
  · intro c' j hc
    obtain ⟨ne, old⟩ := claims c' j hc
    obtain ⟨flag, free⟩ := h.claimed c' j old
    have other : j ≠ i := by
      rintro rfl
      exact ne (h.unique c' c j old claim)
    exact ⟨flag, by simpa [other] using free⟩
  · intro c₁ c₂ j h₁ h₂
    exact h.unique c₁ c₂ j (claims c₁ j h₁).2 (claims c₂ j h₂).2
  · intro j ho
    by_cases e : j = i
    · rw [e]
      exact (h.claimed c i claim).1
    · exact h.occupied j (by simpa [e] using ho)
  · intro c' j hc
    by_cases e : c' = c
    · simp [e] at hc
    · exact h.found c' j (by simpa [e] using hc)
  · intro c' j hj
    by_cases e : c' = c
    · simp [e, CallPc.seenBusy] at hj
    · exact h.seen c' j (by simpa [e] using hj)

/-- A step of a call keeps what the flags say. -/
lemma flags_call {c : C} (lock : PoolLock p) (h : Flags p) (quit : p.quit = false)
    (eff : CallEffect task p c p') : Flags p' := by
  have calls : ∀ pc', p'.calls c = pc' → (p.calls c).KeepsFlags p.isWorking pc' →
      ∀ c', (p.calls c').KeepsFlags p.isWorking (p'.calls c') := by
    rintro _ rfl own
    exact eff.all (P := fun c' pc' => (p.calls c').KeepsFlags p.isWorking pc') own h.calls
  cases eff with
  | setFlag pc => exact h.setFlag lock pc
  | setFn pc => exact h.setFn pc
  | refuse pc quit' => exact absurd (quit'.symm.trans quit) (by decide)
  | lockWorker pc | setArg pc | unlockWorker pc =>
    refine h.mono (fun _ => rfl) ?_ (calls _ rfl ⟨?_, ?_, ?_⟩)
    · exact ThreadPool.all_setWorker (P := fun j w => w.Occupied → (p.workers j).Occupied)
        (fun occ => occ) fun _ occ => occ
    · simp [pc, CallPc.claims]
    · simp
    · simp [CallPc.seenBusy]
  | @busy i pc flag =>
    refine h.mono (fun _ => rfl) (fun _ occ => occ) (calls _ rfl ⟨?_, ?_, ?_⟩)
    · simp [CallPc.claims]
    · simp
    · intro j hj
      have le : (j : Nat) < i + 1 := by simpa [CallPc.seenBusy] using hj
      rcases Nat.lt_succ_iff_lt_or_eq.mp le with lt | eq
      · exact h.seen c j (by rw [pc]; exact lt)
      · rw [Fin.ext eq]
        exact flag
  | @found i pc flag =>
    refine h.mono (fun _ => rfl) (fun _ occ => occ) (calls _ rfl ⟨?_, ?_, ?_⟩)
    · simp [CallPc.claims]
    · simpa using flag
    · intro j hj
      exact h.seen c j (by rw [pc]; simpa [CallPc.seenBusy] using hj)
  | @full k pc ge =>
    refine h.mono (fun _ => rfl) (fun _ occ => occ) (calls _ rfl ⟨?_, ?_, ?_⟩)
    · simp [CallPc.claims]
    · simp
    · exact fun j _ => h.seen c j (by rw [pc]; exact j.isLt.trans_le ge)
  | lockPool pc | unlockPool pc | accept pc | unlockFull pc =>
    refine h.mono (fun _ => rfl) (fun _ occ => occ) (calls _ rfl ⟨?_, ?_, ?_⟩)
    · simp [pc, CallPc.claims]
    · simp
    · simp [CallPc.seenBusy]

/-- Every step keeps what the flags say, until `quit` is set. -/
lemma flags_step (slots : ∀ i, SlotOk (p.workers i)) (lock : PoolLock p) (h : Flags p)
    (e : PoolEffect task p a p') (quit : p'.quit = false) : Flags p' := by
  cases e with
  | worker eff => exact flags_worker slots lock h eff
  | @invalid i pc =>
    have occ : WorkerThread.Occupied { p.workers i with pc := .test } → (p.workers i).Occupied := by
      intro occ
      exact .inr (by simpa [WorkerThread.Occupied, WorkerPc.busy] using occ)
    exact h.mono (fun _ => rfl) (ThreadPool.all_setWorker
      (P := fun j w => w.Occupied → (p.workers j).Occupied) occ fun _ occ => occ) h.calls
  | call eff => exact flags_call lock h (quit_step (.call eff) quit) eff
  | quit => cases quit

omit [DecidableEq C] in
/-- A worker empties its slot while no call is about to store an argument there. -/
lemma Placed.emptied {i : Fin n} {w : WorkerThread n F A C} (h : Placed task p) (out : ∀ c, p.calls c ≠ .setArg i)
    (fn : w.taskFn = none) (call : w.call = none) : Placed task (p.setWorker i w) := by
  have other : ∀ j c, ((p.setWorker i w).workers j).call = some c →
      (p.setWorker i w).workers j = p.workers j ∧ (p.workers j).call = some c := by
    intro j c hc
    have ne : j ≠ i := by
      rintro rfl
      simp [call] at hc
    exact ⟨by simp [ne], by simpa [ne] using hc⟩
  constructor
  · intro j c hc
    obtain ⟨same, hc⟩ := other j c hc
    rw [same]
    exact h.fn j c hc
  · intro j c hc
    obtain ⟨same, hc⟩ := other j c hc
    rw [same]
    exact h.arg j c hc
  · intro j c hc
    have ne : j ≠ i := by
      rintro rfl
      exact out c hc
    simpa [ne] using h.setArg j c hc
  · intro j k c hj hk
    exact h.unique j k c (other j c hj).2 (other k c hk).2
  · intro j c hc
    rw [ThreadPool.setWorker_workers]
    split
    · exact fn
    · exact h.setFn j c hc

omit [DecidableEq C] in

/-- A step of a worker keeps the tasks in their places. -/
lemma placed_worker {i : Fin n} (locks : WorkerLocks p) (slots : ∀ i, SlotOk (p.workers i)) (h : Placed task p)
    (eff : WorkerEffect p i p') : Placed task p' := by
  -- a worker that is awake holds its lock
  have out : (p.workers i).pc.holds = true → ∀ c, p.calls c ≠ .setArg i := by
    intro awake c hc
    rcases locks.asleep (c := c) (i := i) (by rw [hc]; rfl) with pc | pc
    · rw [pc] at awake
      cases awake
    · rw [pc] at awake
      cases awake
  cases eff with
  | clearFn pc => exact h.emptied (out (by rw [pc]; rfl)) rfl rfl
  | clearArg pc =>
    have empty := (slots i).empty (by rw [pc]; rfl)
    exact h.emptied (out (by rw [pc]; rfl)) empty ((slots i).call.mpr empty)
  | _ => exact h.mono (setWorker_sameSlot ⟨rfl, rfl, rfl⟩) fun c => .refl (p.calls c)

/-- The call has claimed the worker, so the slot is empty. -/
lemma Placed.accept {c : C} {i : Fin n} (h : Placed task p) (pc : p.calls c = .testQuit i)
    (empty : (p.workers i).taskFn = none) : Placed task (p.setCall c (.setFn i)) := by
  have fresh := h.not_placed (c := c) (by simp [pc]) (by rw [pc]; rfl)
  refine ⟨h.fn, ?_, ?_, h.unique, ?_⟩
  · intro j c' hc
    have ne : c' ≠ c := by
      rintro rfl
      exact fresh j hc
    simpa [ne] using h.arg j c' hc
  · intro j c' hc
    by_cases e : c' = c
    · simp [e] at hc
    · exact h.setArg j c' (by simpa [e] using hc)
  · intro j c' hc
    by_cases e : c' = c
    · obtain rfl : i = j := by simpa [e] using hc
      exact empty
    · exact h.setFn j c' (by simpa [e] using hc)

/-- The call stores its function in the empty slot. -/
lemma Placed.storeFn {c : C} {i : Fin n} (h : Placed task p) (locks : WorkerLocks p) (pc : p.calls c = .setFn i) :
    Placed task ((p.setCall c (.setArg i)).setWorker i
      { p.workers i with taskFn := some (task c).fn, call := some c }) := by
  have empty := h.setFn i c pc
  have fresh := h.not_placed (c := c) (by simp [pc]) (by rw [pc]; rfl)
  have free : ∀ c', (p.workers i).call ≠ some c' := by
    intro c' hc
    rw [h.fn i c' hc] at empty
    cases empty
  constructor
  · intro j c' hc
    by_cases e : j = i
    · obtain rfl : c = c' := by simpa [e] using hc
      simp [e]
    · simpa [e] using h.fn j c' (by simpa [e] using hc)
  · intro j c' hc
    by_cases e : j = i
    · obtain rfl : c = c' := by simpa [e] using hc
      exact .inl (by simp [e])
    · have old : (p.workers j).call = some c' := by simpa [e] using hc
      have ne : c' ≠ c := by
        rintro rfl
        exact fresh j old
      simpa [e, ne] using h.arg j c' old
  · intro j c' hc
    by_cases e : c' = c
    · obtain rfl : i = j := by simpa [e] using hc
      simp [e]
    · have old := h.setArg j c' (by simpa [e] using hc)
      have ne : j ≠ i := by
        rintro rfl
        exact free c' old
      simpa [ne] using old
  · intro j k c' hj hk
    by_cases ej : j = i
    · obtain rfl : c = c' := by simpa [ej] using hj
      by_cases ek : k = i
      · rw [ej, ek]
      · exact absurd (by simpa [ek] using hk) (fresh k)
    · by_cases ek : k = i
      · obtain rfl : c = c' := by simpa [ek] using hk
        exact absurd (by simpa [ej] using hj) (fresh j)
      · exact h.unique j k c' (by simpa [ej] using hj) (by simpa [ek] using hk)
  · intro j c' hc
    by_cases e : c' = c
    · simp [e] at hc
    · have old : p.calls c' = .setFn j := by simpa [e] using hc
      have ne : j ≠ i := by
        rintro rfl
        exact e (locks.call_unique (by rw [old]; rfl) (by rw [pc]; rfl))
      simpa [ne] using h.setFn j c' old

/-- The call stores its argument where its function is. -/
lemma Placed.storeArg {c : C} {i : Fin n} (h : Placed task p) (pc : p.calls c = .setArg i) :
    Placed task ((p.setCall c (.unlockWorker i 0)).setWorker i { p.workers i with arg := (task c).arg }) := by
  have own := h.setArg i c pc
  have call : ∀ j, (((p.setCall c (.unlockWorker i 0)).setWorker i
      { p.workers i with arg := (task c).arg }).workers j).call = (p.workers j).call := by
    exact ThreadPool.all_setWorker (P := fun j w => w.call = (p.workers j).call) rfl fun _ => rfl
  have fn : ∀ j, (((p.setCall c (.unlockWorker i 0)).setWorker i
      { p.workers i with arg := (task c).arg }).workers j).taskFn = (p.workers j).taskFn := by
    exact ThreadPool.all_setWorker (P := fun j w => w.taskFn = (p.workers j).taskFn) rfl fun _ => rfl
  constructor
  · intro j c' hc
    rw [call] at hc
    rw [fn]
    exact h.fn j c' hc
  · intro j c' hc
    rw [call] at hc
    by_cases e : c' = c
    · obtain rfl : j = i := h.unique j i c (e ▸ hc) own
      exact .inr (by simp [e, CallPc.accepted])
    · have ne : j ≠ i := by
        rintro rfl
        rw [own, Option.some.injEq] at hc
        exact e hc.symm
      simpa [e, ne] using h.arg j c' hc
  · intro j c' hc
    rw [call]
    by_cases e : c' = c
    · simp [e] at hc
    · exact h.setArg j c' (by simpa [e] using hc)
  · intro j k c' hj hk
    rw [call] at hj hk
    exact h.unique j k c' hj hk
  · intro j c' hc
    rw [fn]
    by_cases e : c' = c
    · simp [e] at hc
    · exact h.setFn j c' (by simpa [e] using hc)

/-- A step of a call keeps the tasks in their places. -/
lemma placed_call {c : C} (locks : WorkerLocks p) (flags : p.quit = false → Flags p) (h : Placed task p)
    (eff : CallEffect task p c p') : Placed task p' := by
  have calls : (p.calls c).SameTask (p'.calls c) → ∀ c', (p.calls c').SameTask (p'.calls c') :=
    fun own => eff.all (P := fun c' pc' => (p.calls c').SameTask pc') own fun c' => .refl (p.calls c')
  cases eff with
  | @accept i pc quit =>
    refine h.accept pc ?_
    by_contra full
    exact ((flags quit).claimed c i (by rw [pc]; rfl)).2 (.inr full)
  | setFn pc => exact h.storeFn locks pc
  | setArg pc => exact h.storeArg pc
  | lockWorker pc | unlockWorker pc =>
    refine h.mono (setWorker_sameSlot ⟨rfl, rfl, rfl⟩) (calls ⟨?_, ?_, ?_⟩)
    · simp [pc]
    · simp [pc, CallPc.accepted]
    · simp
  | lockPool pc | busy pc | found pc | full pc | setFlag pc | unlockPool pc | refuse pc | unlockFull pc =>
    refine h.mono (fun _ => ⟨rfl, rfl, rfl⟩) (calls ⟨?_, ?_, ?_⟩)
    · simp [pc]
    · simp [pc, CallPc.accepted]
    · simp

/-- Every step keeps the tasks in their places. -/
lemma placed_step (locks : WorkerLocks p) (slots : ∀ i, SlotOk (p.workers i))
    (flags : p.quit = false → Flags p) (h : Placed task p) (e : PoolEffect task p a p') :
    Placed task p' := by
  cases e with
  | worker eff => exact placed_worker locks slots h eff
  | invalid pc => exact h.mono (setWorker_sameSlot ⟨rfl, rfl, rfl⟩) fun c => .refl (p.calls c)
  | call eff => exact placed_call locks flags h eff
  | quit => exact ⟨h.fn, h.arg, h.setArg, h.unique, h.setFn⟩

omit [DecidableEq C] in
/-- A worker that is awake has the argument of the call whose task it has. -/
lemma Placed.accepted (placed : Placed task p) (locks : WorkerLocks p) {i : Fin n}
    (awake : (p.workers i).pc.holds = true) {c : C} (call : (p.workers i).call = some c) :
    (p.calls c).accepted = true ∧ (p.workers i).arg = (task c).arg := by
  rcases placed.arg i c call with setArg | acc
  · have asleep := locks.asleep (c := c) (i := i) (by rw [setArg]; rfl)
    rcases asleep with pc | pc <;> simp [pc, WorkerPc.holds] at awake
  · exact acc

omit [DecidableEq C] in
/-- What a worker runs is the task of the call in its slot. -/
lemma Placed.running (placed : Placed task p) (locks : WorkerLocks p)
    (slots : ∀ i, SlotOk (p.workers i)) {i : Fin n} {f : F} {x : Option A}
    (pc : (p.workers i).pc = .running f x) :
    ∃ c, (p.workers i).call = some c ∧ (⟨f, x⟩ : Task F A) = task c := by
  obtain ⟨hf, hx⟩ := (slots i).running f x pc
  cases call : (p.workers i).call with
  | none =>
    rw [(slots i).call.mp call] at hf
    cases hf
  | some c =>
    have arg := (placed.accepted locks (by rw [pc]; rfl) call).2
    refine ⟨c, rfl, ?_⟩
    rw [placed.fn i c call] at hf
    cases hf
    rw [← hx, arg]

/-- The end of a task adds the one execution its slot was waiting for. -/
lemma Counted.finish (h : Counted task p) (locks : WorkerLocks p)
    (slots : ∀ i, SlotOk (p.workers i)) (placed : Placed task p) {i : Fin n} {f : F} {x : Option A}
    (pc : (p.workers i).pc = .running f x) :
    Counted task { p.setWorker i { p.workers i with pc := .clearFn } with
      log := ⟨(p.workers i).call, f, x⟩ :: p.log } := by
  obtain ⟨c, call, ran⟩ := placed.running locks slots pc
  have calls := setWorker_sameSlot (p := p) (w := { p.workers i with pc := .clearFn }) ⟨rfl, rfl, rfl⟩
  constructor
  · intro j c' hc'
    have old : (p.workers j).call = some c' := (calls j).call ▸ hc'
    simp only [executions_cons, call, Option.some.injEq]
    by_cases e : j = i
    · subst e
      obtain rfl : c = c' := Option.some.inj (call.symm.trans old)
      rw [h.slot j c call, pc]
      simp [WorkerPc.executed]
    · have ne : c ≠ c' := by
        rintro rfl
        exact e (placed.unique j i c old call)
      simpa [e, ne] using h.slot j c' old
  · intro c' hc'
    have other : ∀ j, (p.workers j).call ≠ some c' := fun j => (calls j).call ▸ hc' j
    have ne : c ≠ c' := by
      rintro rfl
      exact other i call
    simp only [executions_cons, call, Option.some.injEq, if_neg ne]
    exact h.noSlot c' other
  · intro e he
    rcases List.mem_cons.mp he with rfl | he
    · exact ⟨c, by rw [← ran, call]⟩
    · exact h.log e he

/-- A slot is emptied only after its task was executed. -/
lemma Counted.clearFn (h : Counted task p) (locks : WorkerLocks p) (placed : Placed task p)
    {i : Fin n} (pc : (p.workers i).pc = .clearFn) :
    Counted task (p.setWorker i
      { p.workers i with taskFn := none, call := none, pc := .clearArg }) := by
  refine ⟨?_, ?_, h.log⟩
  · intro j c hc
    have ne : j ≠ i := by
      rintro rfl
      simp at hc
    simpa [ne] using h.slot j c (by simpa [ne] using hc)
  · intro c hc
    -- the task was in this slot, or in none
    by_cases here : (p.workers i).call = some c
    · have one := h.slot i c here
      have yes := (placed.accepted locks (by rw [pc]; rfl) here).1
      simpa [yes, pc, WorkerPc.executed] using one
    · refine h.noSlot c fun j hj => ?_
      have ne : j ≠ i := by
        rintro rfl
        exact here hj
      exact hc j (by simpa [ne] using hj)

/-- A task that is stored has not been executed. -/
lemma Counted.storeFn {c : C} {i : Fin n} (h : Counted task p) (locks : WorkerLocks p)
    (slots : ∀ i, SlotOk (p.workers i)) (placed : Placed task p) (pc : p.calls c = .setFn i) :
    Counted task ((p.setCall c (.setArg i)).setWorker i
      { p.workers i with taskFn := some (task c).fn, call := some c }) := by
  have empty := (slots i).call.mpr (placed.setFn i c pc)
  have zero := h.noSlot c (placed.not_placed (by simp [pc]) (by rw [pc]; rfl))
  refine ⟨?_, ?_, h.log⟩
  · intro j c' hc
    by_cases e : j = i
    · obtain rfl : c = c' := by simpa [e] using hc
      rcases locks.asleep (c := c) (i := i) (by rw [pc]; rfl) with asleep | asleep
      · simpa [e, asleep, pc, WorkerPc.executed, CallPc.accepted] using zero
      · simpa [e, asleep, pc, WorkerPc.executed, CallPc.accepted] using zero
    · simpa [e] using h.slot j c' (by simpa [e] using hc)
  · intro c' hc
    have ne : c' ≠ c := by
      rintro rfl
      exact hc i (by simp)
    have other : ∀ j, (p.workers j).call ≠ some c' := by
      intro j hj
      have away : j ≠ i := by
        rintro rfl
        rw [empty] at hj
        cases hj
      exact hc j (by simpa [away] using hj)
    simpa [ne] using h.noSlot c' other

/-- A call is accepted with its task in a slot. -/
lemma Counted.storeArg {c : C} {i : Fin n} (h : Counted task p) (placed : Placed task p)
    (pc : p.calls c = .setArg i) :
    Counted task ((p.setCall c (.unlockWorker i 0)).setWorker i { p.workers i with arg := (task c).arg }) := by
  have own := placed.setArg i c pc
  have workers := ThreadPool.all_setWorker (p := p.setCall c (.unlockWorker i 0)) (i := i)
    (w := { p.workers i with arg := (task c).arg })
    (P := fun j w => w.call = (p.workers j).call ∧ w.pc = (p.workers j).pc) ⟨rfl, rfl⟩ fun _ => ⟨rfl, rfl⟩
  refine ⟨?_, ?_, h.log⟩
  · intro j c' hc
    rw [(workers j).1] at hc
    rw [(workers j).2]
    exact h.slot j c' hc
  · intro c' hc
    have other : ∀ j, (p.workers j).call ≠ some c' := fun j => (workers j).1 ▸ hc j
    have ne : c' ≠ c := by
      rintro rfl
      exact other i own
    simpa [ne] using h.noSlot c' other

/-- A step of a worker keeps the count of the executions. -/
lemma counted_worker {i : Fin n} (locks : WorkerLocks p) (slots : ∀ i, SlotOk (p.workers i))
    (placed : Placed task p) (h : Counted task p) (eff : WorkerEffect p i p') : Counted task p' := by
  have workers : (p'.workers i).call = (p.workers i).call ∧
        (p'.workers i).pc.executed = (p.workers i).pc.executed →
      ∀ j, (p'.workers j).call = (p.workers j).call ∧
        (p'.workers j).pc.executed = (p.workers j).pc.executed :=
    fun own => eff.all (P := fun j w => w.call = (p.workers j).call ∧
      w.pc.executed = (p.workers j).pc.executed) own fun _ => ⟨rfl, rfl⟩
  cases eff with
  | finish pc => exact h.finish locks slots placed pc
  | clearFn pc => exact h.clearFn locks placed pc
  | lock pc =>
    refine h.mono rfl (workers ⟨by simp, ?_⟩) fun _ => rfl
    rcases pc with pc | pc
    · simp [pc, WorkerPc.executed]
    · simp [pc, WorkerPc.executed]
  | empty pc | call pc | quitting pc | staying pc | leave pc | stay pc | sleep pc =>
    exact h.mono rfl (workers ⟨by simp, by simp [pc, WorkerPc.executed]⟩) fun _ => rfl
  | clearArg pc | lockPool pc | clearFlag pc | unlockPool pc | exit pc =>
    exact h.mono rfl (workers ⟨by simp, by simp [pc, WorkerPc.executed]⟩) fun _ => rfl

/-- A step of a call keeps the count of the executions. -/
lemma counted_call {c : C} (locks : WorkerLocks p) (slots : ∀ i, SlotOk (p.workers i)) (placed : Placed task p)
    (h : Counted task p) (eff : CallEffect task p c p') : Counted task p' := by
  have accepted : (p'.calls c).accepted = (p.calls c).accepted →
      ∀ c', (p'.calls c').accepted = (p.calls c').accepted :=
    fun own => eff.all (P := fun c' pc' => pc'.accepted = (p.calls c').accepted) own fun _ => rfl
  cases eff with
  | setFn pc => exact h.storeFn locks slots placed pc
  | setArg pc => exact h.storeArg placed pc
  | lockWorker pc | unlockWorker pc =>
    refine h.mono rfl ?_ (accepted (by simp [pc, CallPc.accepted]))
    exact ThreadPool.all_setWorker (P := fun j w => w.call = (p.workers j).call ∧
      w.pc.executed = (p.workers j).pc.executed) ⟨rfl, rfl⟩ fun _ => ⟨rfl, rfl⟩
  | lockPool pc | busy pc | found pc | full pc | setFlag pc | unlockPool pc | refuse pc | accept pc =>
    exact h.mono rfl (fun _ => ⟨rfl, rfl⟩) (accepted (by simp [pc, CallPc.accepted]))
  | unlockFull pc => exact h.mono rfl (fun _ => ⟨rfl, rfl⟩) (accepted (by simp [pc, CallPc.accepted]))

/-- Every step keeps the count of the executions. -/
lemma counted_step (locks : WorkerLocks p) (slots : ∀ i, SlotOk (p.workers i)) (placed : Placed task p)
    (h : Counted task p) (e : PoolEffect task p a p') : Counted task p' := by
  cases e with
  | worker eff => exact counted_worker locks slots placed h eff
  | @invalid i pc =>
    refine h.mono rfl ?_ fun _ => rfl
    exact ThreadPool.all_setWorker (P := fun j w => w.call = (p.workers j).call ∧
      w.pc.executed = (p.workers j).pc.executed) ⟨rfl, by rw [pc]; rfl⟩ fun _ => ⟨rfl, rfl⟩
  | call eff => exact counted_call locks slots placed h eff
  | quit => exact ⟨h.slot, h.noSlot, h.log⟩

/-! ## Runs -/

/-- All invariants of the pool. -/
structure Inv (task : C → Task F A) (p : ThreadPool n F A C) : Prop where
  locks : WorkerLocks p
  seenQuit : ∀ i, (p.workers i).pc.seenQuit = true → p.quit = true
  slots : ∀ i, SlotOk (p.workers i)
  poolLock : p.quit = false → PoolLock p
  flags : p.quit = false → Flags p
  placed : Placed task p
  counted : Counted task p

/-- The invariant holds for a new pool. -/
lemma inv_init : Inv task (newThreadPool n F A C) where
  locks := workerLocks_init
  seenQuit := by simp [newThreadPool, WorkerPc.seenQuit]
  slots _ := ⟨by simp [newThreadPool], by simp [newThreadPool, WorkerPc.executed],
    by simp [newThreadPool], by simp [newThreadPool]⟩
  poolLock _ := poolLock_init
  flags _ := ⟨by simp [newThreadPool, CallPc.claims], by simp [newThreadPool, CallPc.claims],
    by simp [newThreadPool, WorkerThread.Occupied, WorkerPc.busy], by simp [newThreadPool],
    by simp [newThreadPool, CallPc.seenBusy]⟩
  placed := ⟨by simp [newThreadPool], by simp [newThreadPool], by simp [newThreadPool],
    by simp [newThreadPool], by simp [newThreadPool]⟩
  counted := ⟨by simp [newThreadPool], by simp [newThreadPool, executions, CallPc.accepted],
    by simp [newThreadPool]⟩

/-- Every step keeps the invariant. -/
lemma inv_step (h : Inv task p) (e : PoolEffect task p a p') : Inv task p' where
  locks := workerLocks_step h.locks e
  seenQuit := seenQuit_step h.seenQuit e
  slots := slotOk_step h.locks h.slots e
  poolLock quit :=
    have quit := quit_step e quit
    poolLock_step (h.poolLock quit) (noExit_of_quit h.seenQuit quit) e
  flags quit :=
    have quit' := quit_step e quit
    flags_step h.slots (h.poolLock quit') (h.flags quit') e quit
  placed := placed_step h.locks h.slots h.flags h.placed e
  counted := counted_step h.locks h.slots h.placed h.counted e

/-- The invariant holds in every state that is reached. -/
lemma reach_inv (r : Reach (poolStep task) always (newThreadPool n F A C) p) : Inv task p :=
  r.invariant (I := Inv task) inv_init fun _ _ _ _ h _ e => inv_step h (poolStep_effect e)

/-- `thread_pool_run` takes the first worker whose flag is clear, and gives up only if there is none: the
flags do not change while it looks at them. -/
theorem scan_first (r : Reach (poolStep task) always (newThreadPool n F A C) p) (quit : p.quit = false)
    (c : C) :
    (∀ i, p.calls c = .setFlag i → (List.finRange n).find? (fun j => !p.isWorking j) = some i) ∧
      (p.calls c = .unlockFull → (List.finRange n).find? (fun j => !p.isWorking j) = none) := by
  have flags := (reach_inv r).flags quit
  have seen := flags.seen c
  constructor
  · intro i pc
    rw [pc] at seen
    rw [List.find?_eq_some_iff_getElem]
    refine ⟨by simp [flags.found c i pc], i, by simp, by simp, ?_⟩
    intro j hj
    simpa using seen ⟨j, by omega⟩ hj
  · intro pc
    rw [pc] at seen
    rw [List.find?_eq_none]
    intro j _
    simpa using seen j j.isLt

/-- The task of the call is in the slot of the worker, which lives and has not begun it. -/
def Waiting (task : C → Task F A) (p : ThreadPool n F A C) (c : C) (i : Fin n) : Prop :=
  (p.workers i).call = some c ∧ (p.workers i).taskFn = some (task c).fn ∧
    (p.workers i).arg = (task c).arg ∧ (p.workers i).pc.waiting = true

/-- The worker is executing the task of the call. -/
def Running (task : C → Task F A) (p : ThreadPool n F A C) (c : C) (i : Fin n) : Prop :=
  (p.workers i).call = some c ∧ (p.workers i).pc = .running (task c).fn (task c).arg

/-- The task of the call waits in exactly one slot, or is running on exactly one worker, or has been
executed exactly once. -/
inductive Once (task : C → Task F A) (p : ThreadPool n F A C) (c : C) : Prop where
  | waiting (waits : ∃! i, Waiting task p c i) (runs : ∀ i, ¬ Running task p c i)
    (zero : executions p.log c = 0)
  | running (waits : ∀ i, ¬ Waiting task p c i) (runs : ∃! i, Running task p c i)
    (zero : executions p.log c = 0)
  | executed (waits : ∀ i, ¬ Waiting task p c i) (runs : ∀ i, ¬ Running task p c i)
    (one : executions p.log c = 1)

/-- An accepted task is in one of the three conditions. -/
lemma Inv.once {c : C} (h : Inv task p) (acc : p.calls c = .returned 0) : Once task p c := by
  by_cases placed : ∃ i, (p.workers i).call = some c
  · obtain ⟨i, hi⟩ := placed
    have fn := h.placed.fn i c hi
    have arg : (p.workers i).arg = (task c).arg := by
      rcases h.placed.arg i c hi with setArg | ⟨-, arg⟩
      · rw [acc] at setArg
        cases setArg
      · exact arg
    have count := h.counted.slot i c hi
    have only : ∀ j, (p.workers j).call = some c → j = i := fun j hj => h.placed.unique j i c hj hi
    obtain ⟨running, -, empty, -⟩ := h.slots i
    -- what the worker is doing decides the condition; most of its positions imply an empty slot
    cases pc : (p.workers i).pc with
    | start | test | sleep =>
      refine .waiting ⟨i, ⟨hi, fn, arg, by rw [pc]; rfl⟩, fun j hj => only j hj.1⟩ ?_ ?_
      · rintro j ⟨hj, run⟩
        rw [only j hj, pc] at run
        cases run
      · rw [count, pc]
        rfl
    | running f b =>
      obtain ⟨hf, hb⟩ := running f b pc
      refine .running ?_ ⟨i, ⟨hi, ?_⟩, fun j hj => only j hj.1⟩ ?_
      · rintro j ⟨hj, -, -, wait⟩
        rw [only j hj, pc] at wait
        cases wait
      · rw [pc, ← arg, hb]
        rw [hf] at fn
        cases fn
        rfl
      · rw [count, pc]
        rfl
    | clearFn =>
      refine .executed ?_ ?_ ?_
      · rintro j ⟨hj, -, -, wait⟩
        rw [only j hj, pc] at wait
        cases wait
      · rintro j ⟨hj, run⟩
        rw [only j hj, pc] at run
        cases run
      · rw [count, pc]
        rfl
    | _ =>
      rw [empty (by rw [pc]; rfl)] at fn
      cases fn
  · have none : ∀ i, (p.workers i).call ≠ some c := fun i hi => placed ⟨i, hi⟩
    refine .executed (fun i hw => none i hw.1) (fun i hr => none i hr.1) ?_
    rw [h.counted.noSlot c none, acc]
    rfl

/-- In every run of the pool, each accepted task waits, is running or has been executed, exactly once; a
call that is about to store its task finds the slot empty; no worker ends with a task in its slot; a
refused task is nowhere and was never executed; and what is executed are accepted tasks with their own
arguments. -/
theorem exactly_once (n : Nat) (F A C : Type) [DecidableEq C] (task : C → Task F A)
    (p : ThreadPool n F A C) (r : Reach (poolStep task) always (newThreadPool n F A C) p) :
    (∀ c, p.calls c = .returned 0 → Once task p c) ∧
    (∀ c i, p.calls c = .setFn i → (p.workers i).taskFn = none) ∧
    (∀ i, (p.workers i).pc = .exited → (p.workers i).taskFn = none) ∧
    (∀ c, p.calls c = .returned (-1) →
      executions p.log c = 0 ∧ ∀ i, (p.workers i).call ≠ some c) ∧
    ∀ e ∈ p.log, ∃ c, e = ⟨some c, task c⟩ ∧ (p.calls c).accepted = true := by
  have h := reach_inv r
  refine ⟨fun c => h.once, fun c i => h.placed.setFn i c, ?_, ?_, ?_⟩
  · intro i pc
    exact (h.slots i).empty (by rw [pc]; rfl)
  · intro c refused
    have none := h.placed.not_placed (c := c) (by simp [refused]) (by rw [refused]; rfl)
    refine ⟨?_, none⟩
    rw [h.counted.noSlot c none, refused]
    rfl
  · intro e he
    obtain ⟨c, rfl⟩ := h.counted.log e he
    refine ⟨c, rfl, ?_⟩
    -- an executed task is counted, so its call cannot have stopped before it was accepted
    have pos : 0 < executions p.log c := List.countP_pos_iff.mpr ⟨_, he, by simp⟩
    by_cases placed : ∃ i, (p.workers i).call = some c
    · obtain ⟨i, hi⟩ := placed
      have count := h.counted.slot i c hi
      rcases h.placed.arg i c hi with pc | ⟨acc, -⟩
      · have asleep := h.locks.asleep (c := c) (i := i) (by rw [pc]; rfl)
        rcases asleep with pc | pc <;> simp [pc, WorkerPc.executed] at count <;> omega
      · exact acc
    · have count := h.counted.noSlot c fun i hi => placed ⟨i, hi⟩
      cases acc : (p.calls c).accepted with
      | true => rfl
      | false =>
        rw [acc] at count
        simp only [Bool.false_eq_true, if_false] at count
        omega

/-- A pool of one worker and two calls: the first is accepted and its task is running when the pool is
told to quit, the second has found no free worker. -/
theorem exactly_once_two_calls :
    ∃ p, Reach (poolStep fun c : Bool => (⟨(), some c⟩ : Task Unit Bool)) always
        (newThreadPool 1 Unit Bool Bool) p ∧
      (p.calls true = .returned 0 ∧ p.calls false = .returned (-1) ∧ p.quit = true) ∧
      Once (fun c : Bool => ⟨(), some c⟩) p true ∧ executions p.log false = 0 := by
  obtain ⟨p, r, h⟩ := Reach.of_test
    (poolStep fun c : Bool => (⟨(), some c⟩ : Task Unit Bool)) always .blocked
    (newThreadPool 1 Unit Bool Bool)
    (List.replicate 9 (.call true) ++ List.replicate 4 (.call false) ++
      List.replicate 2 (.worker 0) ++ [.quit])
    (fun p => decide (p.calls true = .returned 0 ∧ p.calls false = .returned (-1) ∧ p.quit = true))
    (by decide +kernel)
  have h := of_decide_eq_true h
  obtain ⟨once, -, -, refused, -⟩ := exactly_once 1 Unit Bool Bool _ p r
  exact ⟨p, r, h, once true h.1, (refused false h.2.1).1⟩

end Steps

end Mvvmm.Pool
