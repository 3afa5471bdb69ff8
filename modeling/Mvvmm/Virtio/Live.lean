import Mvvmm.Lib.Fair
import Mvvmm.Virtio.Notify

/-!
# Notifications in fair runs

`Virtio.Notify` says that no notification is lost: as long as its heads are not popped, its eventfd is set or the
poll thread is serving it. Here is what follows for infinite runs in which the threads go on: the call of
`queue_notify` that has the lock comes to its end (`ServedRun.idle_again`), the poll thread gets to its own call, and
all heads that were notified are popped (`ServedRun.popped_live`).

The system may be any one that has a device, its poll thread and the driver of a queue in it, `view` says where.
`ServedRun` is what is to be known of it.
-/

namespace Mvvmm.Virtio
open CMem Run Fair

variable {B W σ α ε : Type} {recv : DeviceRecv B} {q : Fin maxQueue} {fd : Fin maxQueue → Nat} {v v' : PollMachine B W}

/-- How many heads of a queue have been popped. -/
def PollMachine.popped (q : Fin maxQueue) (v : PollMachine B W) : Nat :=
  (poppedHeads v.c.s q).length

/-- How many heads have been popped can be told from the counter of the queue. -/
lemma AvailRing.unique {m : GuestMemMap} {qs : QueueState} {avail : List Nat} {p p' : Nat}
    (h : AvailRing m qs avail p) (h' : AvailRing m qs avail p') : p = p' := by
  have num := h.ring.num_lt
  have room := h.room
  have room' := h'.room
  have le := h.popped_le
  have le' := h'.popped_le
  have last := h.lastCount.symm.trans h'.lastCount
  rcases le_total p p' with small | large
  · exact (ofNat_inj small (by omega)).mp last
  · exact ((ofNat_inj large (by omega)).mp last.symm).symm

/-- What a step that the poll thread does not make means to it. -/
structure Beside (recv : DeviceRecv B) (v v' : PollMachine B W) : Prop where
  effect : NotifyEffect recv v.c v'.c
  poll : v'.poll = v.poll.resume v'.c.ctl
  notified : v.notified ≤ v'.notified

/-! ## A call of `queue_notify` -/

/-- What a step means to a call of `queue_notify` that has the lock: nothing, a round, or the end. -/
inductive CallEffect (q : Fin maxQueue) (v : PollMachine B W) (idx : UInt16) (w : Option W) (v' : PollMachine B W) :
    Prop where
  | none (ctl : v'.c.ctl = .notify q idx w) (popped : v'.popped q = v.popped q)
  | round (ne : idx ≠ .ofNat (v.popped q)) (ctl : v'.c.ctl = .notify q idx w) (popped : v'.popped q = v.popped q + 1)
  | done (e : idx = .ofNat (v.popped q)) (ctl : v'.c.ctl = .idle) (popped : v'.popped q = v.popped q)

variable {idx : UInt16} {w : Option W}

/-- A step of another thread. -/
lemma Beside.call (h : Beside recv v v') (inv : PollInv q v) (keeps : RecvKeeps recv)
    (ctl : v.c.ctl = .notify q idx w) : CallEffect q v idx w v' := by
  have last : (v.c.s.queue q).lastAvailIdx = .ofNat (v.popped q) := inv.ring.lastCount
  have eff := h.effect
  generalize hc : v'.c = c' at eff
  cases eff with
  | other popped _ => exact .none (by rw [hc]; exact ctl) (by simp [PollMachine.popped, hc, poppedHeads_congr popped])
  | start idle _ _ =>
    rw [ctl] at idle
    cases idle
  | round ctl' ne eff =>
    rw [ctl] at ctl'
    cases ctl'
    obtain ⟨rfl, popped, -, -⟩ := eff.pops keeps
    refine .round (fun e => ne (last.trans e.symm)) (by rw [hc]; exact ctl) ?_
    simp [PollMachine.popped, hc, poppedHeads_self popped]
  | done ctl' e =>
    rw [ctl] at ctl'
    cases ctl'
    exact .done (e.symm.trans last) (by rw [hc]) (by rw [PollMachine.popped, hc]; rfl)

/-- All that a step of the poll thread can do: it goes on without a lock, or its call begins. -/
inductive PollEffect (v : PollMachine B W) : PollMachine B W → Prop where
  | poll (pc : v.poll = .poll) (some : ∃ i, 0 < v.counter i) :
    PollEffect v { v with poll := .scan (fun i => 0 < v.counter i) 0 }
  | ready {ready i h} (pc : v.poll = .scan ready i) (yes : ready ⟨i, h⟩ = true) :
    PollEffect v { v with poll := .read ready ⟨i, h⟩ }
  | skip {ready i h} (pc : v.poll = .scan ready i) (no : ready ⟨i, h⟩ = false) :
    PollEffect v { v with poll := .scan ready (i + 1) }
  | last {ready i} (pc : v.poll = .scan ready i) (le : maxQueue ≤ i) : PollEffect v { v with poll := .poll }
  | read {ready i} (pc : v.poll = .read ready i) :
    PollEffect v { v with counter := Function.update v.counter i 0, poll := .map ready i }
  | map {ready i} (pc : v.poll = .map ready i) : PollEffect v { v with poll := .lock ready i i }
  | lock {ready i} (pc : v.poll = .lock ready i i) (idle : v.c.ctl = .idle) :
    PollEffect v { v with
      c := v.c.startNotify i none, poll := PollPc.resume (v.c.startNotify i none).ctl (.notify ready i i) }

/-- Nobody is in `queue_notify` if it serves no queue. -/
lemma ctl_eq_idle {ctl : Ctl W} (h : ctl.queue?.isNone = true) : ctl = .idle := by
  cases ctl with
  | idle => rfl
  | notify _ _ _ => cases h

/-- Inversion of `virtioIoeventfdPollThread`. -/
lemma pollThread_effect (inj : Function.Injective fd) (inv : PollInv q v)
    (st : virtioIoeventfdPollThread fd v = .ok v') : PollEffect v v' := by
  cases pc : v.poll with
  | poll =>
    simp only [virtioIoeventfdPollThread, pc] at st
    split at st
    · rename_i some
      obtain rfl := Except.ok.inj st
      exact .poll pc some
    · cases st
  | scan ready i =>
    simp only [virtioIoeventfdPollThread, pc] at st
    split at st
    · rename_i lt
      obtain rfl := Except.ok.inj st
      cases yes : ready ⟨i, lt⟩ with
      | true => exact .ready pc yes
      | false => exact .skip pc yes
    · rename_i ge
      obtain rfl := Except.ok.inj st
      exact .last pc (not_lt.mp ge)
  | read ready i =>
    simp only [virtioIoeventfdPollThread, pc] at st
    obtain rfl := Except.ok.inj st
    exact .read pc
  | map ready i =>
    simp only [virtioIoeventfdPollThread, pc] at st
    split at st
    · rename_i j find
      obtain rfl := Except.ok.inj st
      obtain rfl : j = i := inj (by simpa using List.find?_some find)
      exact .map pc
    · rename_i none
      have no := List.find?_eq_none.mp none i (List.mem_finRange i)
      simp at no
  | lock ready i j =>
    obtain rfl := inv.locking _ _ _ pc
    simp only [virtioIoeventfdPollThread, pc] at st
    split at st
    · rename_i free
      obtain rfl := Except.ok.inj st
      exact .lock pc (ctl_eq_idle free)
    · cases st
  | notify ready i j =>
    simp only [virtioIoeventfdPollThread, pc] at st
    cases st

/-- The poll thread leaves a call of another thread alone. -/
lemma PollEffect.call (h : PollEffect v v') (ctl : v.c.ctl = .notify q idx w) : CallEffect q v idx w v' := by
  cases h with
  | lock _ idle =>
    rw [ctl] at idle
    cases idle
  | _ => exact .none ctl rfl

/-- The poll thread pops nothing itself, and does not notify. -/
lemma PollEffect.popped (h : PollEffect v v') : v'.popped q = v.popped q ∧ v'.notified = v.notified := by
  cases h with
  | lock _ _ => simp [PollMachine.popped]
  | _ => exact ⟨rfl, rfl⟩

/-- The poll thread changes nothing of the driver. -/
lemma PollEffect.rest (h : PollEffect v v') : v' = { v with c := v'.c, counter := v'.counter, poll := v'.poll } := by
  cases h with
  | _ => rfl

/-- A head that was popped stays so. -/
lemma NotifyEffect.popped_le {c c' : Machine B W} (h : NotifyEffect recv c c') (keeps : RecvKeeps recv) :
    (poppedHeads c.s q).length ≤ (poppedHeads c'.s q).length := by
  cases h with
  | other popped _ => rw [poppedHeads_congr popped]
  | start _ popped _ => rw [Machine.startNotify_s, poppedHeads_congr popped]
  | @round i _ _ _ _ _ _ eff =>
    obtain ⟨-, popped, -, -⟩ := eff.pops keeps
    by_cases mine : i = q
    · subst mine
      rw [poppedHeads_self popped, List.length_append]
      exact Nat.le_add_right ..
    · rw [poppedHeads_other popped mine]
  | done _ _ => exact le_rfl

/-- A round pops a head of the queue that is processed. -/
lemma devStep_round_popped {c c' : Machine B W} (keeps : RecvKeeps recv) (st : devStep recv c .round = .ok c')
    (mine : ∀ i a w, c.ctl = .notify i a w → i = q) :
    (poppedHeads c'.s q).length = (poppedHeads c.s q).length + 1 := by
  have eff : DevEffect recv c .round c' := devStep_effect st
  cases eff with
  | start _ yes => cases yes
  | round ctl _ eq =>
    obtain rfl := mine _ _ _ ctl
    obtain ⟨-, popped, -, -⟩ := (queueNotifyRound_effect eq).pops keeps
    rw [poppedHeads_self popped, List.length_append, List.length_singleton]

/-- The end of `queue_notify` leaves the device idle. -/
lemma devStep_done_idle {c c' : Machine B W} (st : devStep recv c .done = .ok c') : c'.ctl = .idle := by
  have eff : DevEffect recv c .done c' := devStep_effect st
  cases eff with
  | start _ yes => cases yes
  | done _ _ => rfl

/-! ## The poll thread -/

/-- The poll thread has to do with no other queue. -/
def PollPc.Only (q : Fin maxQueue) : PollPc → Prop
  | .poll => True
  | .scan ready _ => ∀ i, ready i = true → i = q
  | .read ready i | .map ready i | .lock ready i _ | .notify ready i _ => i = q ∧ ∀ j, ready j = true → j = q

/-- No other queue is notified. -/
structure PollMachine.Only (q : Fin maxQueue) (v : PollMachine B W) : Prop where
  counter : ∀ i, 0 < v.counter i → i = q
  poll : v.poll.Only q

/-- A thread that serves one queue only goes on to do so. -/
lemma PollPc.Only.resume {ctl : Ctl W} {pc : PollPc} (h : pc.Only q) : (pc.resume ctl).Only q := by
  cases pc with
  | notify ready i j =>
    simp only [PollPc.resume]
    split
    · exact h.2
    · exact h
  | _ => exact h

/-- The poll thread serves the queue of its eventfd only. -/
lemma PollEffect.only (h : PollEffect v v') (only : v.Only q) : v'.Only q := by
  obtain ⟨counter, poll⟩ := only
  cases h with
  | poll _ _ => exact ⟨counter, fun i yes => counter i (of_decide_eq_true yes)⟩
  | ready pc yes =>
    rw [pc] at poll
    exact ⟨counter, poll _ yes, poll⟩
  | skip pc _ =>
    rw [pc] at poll
    exact ⟨counter, poll⟩
  | last _ _ => exact ⟨counter, trivial⟩
  | @read ready j pc =>
    rw [pc] at poll
    refine ⟨fun i pos => ?_, poll⟩
    simp only [Function.update_apply] at pos
    split at pos
    · cases pos
    · exact counter i pos
  | map pc =>
    rw [pc] at poll
    exact ⟨counter, poll⟩
  | @lock ready j pc _ =>
    rw [pc] at poll
    have calls : (PollPc.notify ready j j).Only q := poll
    exact ⟨counter, calls.resume⟩

/-- An upper bound for the steps of the poll thread until it calls `queue_notify` for a queue whose eventfd is set or
being served: what is left of the pass over the eventfds, and one more pass if this one does not get to the queue. -/
def PollPc.left (q : Fin maxQueue) : PollPc → Nat
  | .poll => 5 * maxQueue + 2
  | .scan ready i => 5 * (maxQueue - i) + 1 + if i ≤ q ∧ ready q then 0 else 5 * maxQueue + 2
  | .read ready i => 5 * (maxQueue - i) + if i = q ∨ i < q ∧ ready q then 0 else 5 * maxQueue + 2
  | .map ready i => 5 * (maxQueue - i) - 1 + if i = q ∨ i < q ∧ ready q then 0 else 5 * maxQueue + 2
  | .lock ready i _ => 5 * (maxQueue - i) - 2 + if i = q ∨ i < q ∧ ready q then 0 else 5 * maxQueue + 2
  | .notify ready i _ => 5 * (maxQueue - i) - 3 + if i < q ∧ ready q then 0 else 5 * maxQueue + 2

/-- Leaving `queue_notify` is progress. -/
lemma PollPc.left_resume {ctl : Ctl W} {pc : PollPc} : (pc.resume ctl).left q ≤ pc.left q := by
  cases pc with
  | notify ready i j =>
    have lt := i.isLt
    simp only [PollPc.resume]
    split
    · simp only [PollPc.left, Fin.lt_def, Nat.succ_le_iff]
      split <;> omega
    · exact le_rfl
  | _ => exact le_rfl

/-- A call that has the lock goes beyond a head. -/
def Covers (q : Fin maxQueue) (i : Nat) (v : PollMachine B W) : Prop :=
  ∃ k w, v.c.ctl = .notify q (.ofNat k) w ∧ i < k ∧ k < v.popped q + 2 ^ 16

/-- A step of the poll thread brings it nearer to its call for a queue, or the call begins. -/
lemma PollEffect.left {i : Nat} (h : PollEffect v v') (inv : PollInv q v) (notified : i < v.notified)
    (waits : v.popped q ≤ i) : Covers q i v' ∨ v'.poll.left q < v.poll.left q := by
  have set : v.poll.serving q = false → 0 < v.counter q := by
    intro out
    by_contra zero
    have le := inv.served (by omega) out
    rw [← PollMachine.popped] at le
    omega
  cases h with
  | poll pc _ =>
    have pos := set (by rw [pc]; rfl)
    refine .inr ?_
    rw [pc]
    simp [PollPc.left, pos]
  | @ready ready j h pc yes =>
    refine .inr ?_
    rw [pc]
    simp only [PollPc.left, Fin.lt_def, Fin.ext_iff]
    by_cases hq : j = q
    · subst hq
      simp [yes]
    · have iff : j ≤ q ∧ ready q = true ↔ j < q ∧ ready q = true := and_congr_left fun _ => by omega
      simp only [iff, hq, false_or]
      omega
  | @skip ready j h pc no =>
    refine .inr ?_
    have iff : j + 1 ≤ q ∧ ready q = true ↔ j ≤ q ∧ ready q = true := by
      refine and_congr_left fun yes => ⟨fun le => by omega, fun le => ?_⟩
      rcases Nat.lt_or_eq_of_le le with lt | rfl
      · exact lt
      · rw [yes] at no
        cases no
    rw [pc]
    simp only [PollPc.left, iff]
    omega
  | @last ready j pc le =>
    refine .inr ?_
    have out : ¬ (j ≤ q ∧ ready q = true) := fun x => by omega
    rw [pc]
    simp only [PollPc.left, if_neg out]
    omega
  | @read ready j pc =>
    refine .inr ?_
    have lt := j.isLt
    rw [pc]
    simp only [PollPc.left]
    omega
  | @map ready j pc =>
    refine .inr ?_
    have lt := j.isLt
    rw [pc]
    simp only [PollPc.left]
    omega
  | @lock ready j pc idle =>
    by_cases mine : j = q
    · subst mine
      have auto : ¬ (v.c.s.queue j).manualRecv = true := by rw [inv.auto]; exact Bool.false_ne_true
      have room := inv.ring.room
      have small := inv.ring.ring.num_lt
      refine .inl ⟨v.avail.length, none, ?_, notified.trans_le inv.notified, ?_⟩
      · simp only [Machine.startNotify, if_neg auto]
        rw [show availIdx v.c.s j = _ from inv.ring.availCount]
      · simp only [PollMachine.popped, Machine.startNotify_s]
        omega
    · have lt := j.isLt
      have le : ((PollPc.notify ready j j).resume (v.c.startNotify j none).ctl).left q ≤ _ := PollPc.left_resume
      refine .inr (le.trans_lt ?_)
      rw [pc]
      simp only [PollPc.left, mine, false_or]
      omega

/-! ## Fair runs -/

/-- A run of a system with a device, its poll thread and the driver of a queue, in which the poll thread, the rounds of
`queue_notify` and its end are fair actions. -/
structure ServedRun {step : σ → α → Except ε σ} (t : Trace step) (view : σ → PollMachine B W) (recv : DeviceRecv B)
    (fd : Fin maxQueue → Nat) (q : Fin maxQueue) (poll round done : α) : Prop where
  inj : Function.Injective fd
  keeps : RecvKeeps recv
  inv : ∀ n, PollInv q (view (t.state n))
  /-- No other queue is processed under the lock. -/
  mine : ∀ n i a w, (view (t.state n)).c.ctl = .notify i a w → i = q
  own : ∀ n, t.act n = some poll →
    virtioIoeventfdPollThread fd (view (t.state n)) = .ok (view (t.state (n + 1)))
  other : ∀ n b, t.act n = some b → b ≠ poll → Beside recv (view (t.state n)) (view (t.state (n + 1)))
  canPoll : ∀ n v, virtioIoeventfdPollThread fd (view (t.state n)) = .ok v → Enabled step poll (t.state n)
  canRound : ∀ n a w, (view (t.state n)).c.ctl = .notify q a w →
    ((view (t.state n)).c.s.queue q).lastAvailIdx ≠ a → Enabled step round (t.state n)
  canEnd : ∀ n a w, (view (t.state n)).c.ctl = .notify q a w →
    ((view (t.state n)).c.s.queue q).lastAvailIdx = a → Enabled step done (t.state n)
  rounds : ∀ n, t.act n = some round →
    (view (t.state (n + 1))).popped q = (view (t.state n)).popped q + 1
  ends : ∀ n, t.act n = some done → (view (t.state (n + 1))).c.ctl = .idle
  fairPoll : t.StronglyFair poll
  fairRound : t.StronglyFair round
  fairEnd : t.StronglyFair done

namespace ServedRun
variable {step : σ → α → Except ε σ} {t : Trace step} {view : σ → PollMachine B W} {poll round done : α}
  (h : ServedRun t view recv fd q poll round done)
include h

/-- What a step means to the call that has the lock. -/
lemma call {n : Nat} {b : α} (e : t.act n = some b) (ctl : (view (t.state n)).c.ctl = .notify q idx w) :
    CallEffect q (view (t.state n)) idx w (view (t.state (n + 1))) := by
  by_cases mine : b = poll
  · subst mine
    exact (pollThread_effect h.inj (h.inv n) (h.own n e)).call ctl
  · exact (h.other n b e mine).call (h.inv n) h.keeps ctl

/-- Heads that have been popped stay popped. -/
lemma popped_mono {n m : Nat} (hm : n ≤ m) : (view (t.state n)).popped q ≤ (view (t.state m)).popped q := by
  induction m, hm using Nat.le_induction with
  | base => exact le_rfl
  | succ m hm ih =>
    refine ih.trans ?_
    cases e : t.act m with
    | none => rw [t.stay m e]
    | some b =>
      by_cases mine : b = poll
      · subst mine
        exact (pollThread_effect h.inj (h.inv m) (h.own m e)).popped.1.ge
      · exact (h.other m b e mine).effect.popped_le h.keeps

/-- The index of the device counts the heads popped. -/
lemma last (n : Nat) : ((view (t.state n)).c.s.queue q).lastAvailIdx = .ofNat ((view (t.state n)).popped q) :=
  (h.inv n).ring.lastCount

/-- A call has popped all that it was to pop. -/
lemma rounds_live (idx : UInt16) (w : Option W) :
    t.LeadsTo (fun s => (view s).c.ctl = .notify q idx w)
      fun s => (view s).c.ctl = .idle ∨ (view s).c.ctl = .notify q idx w ∧ idx = .ofNat ((view s).popped q) := by
  -- A round takes the counter of popped heads one step nearer to the index that the call goes up to.
  have near : ∀ k : Nat, idx ≠ .ofNat k → (idx - .ofNat (k + 1)).toNat < (idx - .ofNat k).toNat := by
    intro k ne
    have far : idx.toNat ≠ k % 2 ^ 16 := fun e => ne (UInt16.toNat_inj.mp (e.trans UInt16.toNat_ofNat'.symm))
    have lt := idx.toNat_lt
    rw [UInt16.toNat_sub, UInt16.toNat_sub, UInt16.toNat_ofNat', UInt16.toNat_ofNat']
    omega
  refine h.fairRound.leadsTo (fun s => (idx - .ofNat ((view s).popped q)).toNat) ?_ ?_ ?_
  · intro n b ctl no e _
    cases h.call e ctl with
    | none ctl popped => exact .inr ⟨ctl, by rw [popped]⟩
    | round ne ctl popped => exact .inr ⟨ctl, by rw [popped]; exact (near _ ne).le⟩
    | done _ ctl _ => exact .inl (.inl ctl)
  · intro n ctl no e
    have pops := h.rounds n e
    cases h.call e ctl with
    | none _ popped => omega
    | round ne ctl popped => exact .inr ⟨ctl, by rw [popped]; exact near _ ne⟩
    | done _ ctl _ => exact .inl (.inl ctl)
  · intro n stays
    obtain ⟨ctl, no⟩ := stays n le_rfl
    refine ⟨n, le_rfl, h.canRound n idx w ctl fun e => no (.inr ⟨ctl, ?_⟩)⟩
    rw [← e, h.last n]

/-- A call that has popped all that it was to pop ends. -/
lemma done_live (idx : UInt16) (w : Option W) :
    t.LeadsTo (fun s => (view s).c.ctl = .notify q idx w ∧ idx = .ofNat ((view s).popped q))
      fun s => (view s).c.ctl = .idle := by
  refine h.fairEnd.leadsTo (fun _ => 0) ?_ ?_ ?_
  · rintro n b ⟨ctl, all⟩ no e _
    cases h.call e ctl with
    | none ctl popped => exact .inr ⟨⟨ctl, by rw [popped]; exact all⟩, le_rfl⟩
    | round ne _ _ => exact absurd all ne
    | done _ ctl _ => exact .inl ctl
  · intro n _ _ e
    exact .inl (h.ends n e)
  · intro n stays
    obtain ⟨⟨ctl, all⟩, -⟩ := stays n le_rfl
    exact ⟨n, le_rfl, h.canEnd n idx w ctl (by rw [h.last n, ← all])⟩

/-- The lock becomes free again and again. -/
lemma idle_again (n : Nat) : ∃ m ≥ n, (view (t.state m)).c.ctl = .idle := by
  cases ctl : (view (t.state n)).c.ctl with
  | idle => exact ⟨n, le_rfl, ctl⟩
  | notify i idx w =>
    obtain rfl := h.mine n i idx w ctl
    obtain ⟨m, hm, idle | all⟩ := h.rounds_live idx w n ctl
    · exact ⟨m, hm, idle⟩
    · obtain ⟨k, hk, idle⟩ := h.done_live idx w m all
      exact ⟨k, hm.trans hk, idle⟩

/-- A call that goes beyond a head pops it. -/
lemma covers_live (i : Nat) : t.LeadsTo (fun s => Covers q i (view s)) fun s => i < (view s).popped q := by
  intro n covers
  by_contra never
  have waits : ∀ m ≥ n, (view (t.state m)).popped q ≤ i := fun m hm => not_lt.mp fun lt => never ⟨m, hm, lt⟩
  have stays : ∀ m ≥ n, Covers q i (view (t.state m)) := by
    intro m hm
    induction m, hm using Nat.le_induction with
    | base => exact covers
    | succ m hm ih =>
      obtain ⟨k, w, ctl, lt, near⟩ := ih
      cases e : t.act m with
      | none =>
        rw [t.stay m e]
        exact ⟨k, w, ctl, lt, near⟩
      | some b =>
        cases h.call e ctl with
        | none ctl popped => exact ⟨k, w, ctl, lt, by omega⟩
        | round _ ctl popped => exact ⟨k, w, ctl, lt, by omega⟩
        | done all _ _ =>
          -- The call ends only when it has popped the head.
          have le := waits m hm
          have eq := (ofNat_inj (by omega) near).mp all.symm
          omega
  obtain ⟨m, hm, idle⟩ := h.idle_again n
  obtain ⟨k, w, ctl, -⟩ := stays m hm
  rw [idle] at ctl
  cases ctl

/-- While heads of a notification wait to be popped, the poll thread can go on whenever the lock is free. -/
lemma can_poll {n i : Nat} (idle : (view (t.state n)).c.ctl = .idle) (notified : i < (view (t.state n)).notified)
    (waits : (view (t.state n)).popped q ≤ i) : Enabled step poll (t.state n) := by
  refine (fun ⟨v, st⟩ => h.canPoll n v st :
    (∃ v, virtioIoeventfdPollThread fd (view (t.state n)) = .ok v) → _) ?_
  cases pc : (view (t.state n)).poll with
  | poll =>
    have pos : 0 < (view (t.state n)).counter q := by
      by_contra zero
      have le := (h.inv n).served (by omega) (by rw [pc]; rfl)
      rw [← PollMachine.popped] at le
      omega
    simp only [virtioIoeventfdPollThread, pc]
    rw [if_pos ⟨q, pos⟩]
    exact ⟨_, rfl⟩
  | scan ready j =>
    simp only [virtioIoeventfdPollThread, pc]
    split <;> exact ⟨_, rfl⟩
  | read ready j =>
    simp only [virtioIoeventfdPollThread, pc]
    exact ⟨_, rfl⟩
  | map ready j =>
    simp only [virtioIoeventfdPollThread, pc]
    split <;> exact ⟨_, rfl⟩
  | lock ready j j' =>
    simp only [virtioIoeventfdPollThread, pc, idle]
    exact ⟨_, rfl⟩
  | notify ready j j' =>
    have busy := (h.inv n).calling _ _ _ pc
    rw [idle] at busy
    cases busy

/-- A head that was notified comes to be popped, or some call goes beyond it. -/
lemma poll_live (i : Nat) :
    t.LeadsTo (fun s => i < (view s).notified) fun s => i < (view s).popped q ∨ Covers q i (view s) := by
  refine h.fairPoll.leadsTo (fun s => (view s).poll.left q) ?_ ?_ ?_
  · intro n b notified _ e ne
    have beside := h.other n b e ne
    refine .inr ⟨notified.trans_le beside.notified, ?_⟩
    rw [beside.poll]
    exact PollPc.left_resume
  · intro n notified no e
    have eff := pollThread_effect h.inj (h.inv n) (h.own n e)
    rw [not_or, not_lt] at no
    rcases eff.left (h.inv n) notified no.1 with covers | lt
    · exact .inl (.inr covers)
    · exact .inr ⟨by rw [(eff.popped (q := q)).2]; exact notified, lt⟩
  · intro n stays
    obtain ⟨m, hm, idle⟩ := h.idle_again n
    obtain ⟨notified, no⟩ := stays m hm
    rw [not_or, not_lt] at no
    exact ⟨m, hm, h.can_poll idle notified no.1⟩

/-- All heads that are available at a notification are popped. -/
lemma popped_live (i : Nat) : t.LeadsTo (fun s => i < (view s).notified) fun s => i < (view s).popped q := by
  intro n notified
  obtain ⟨m, hm, popped | covers⟩ := h.poll_live i n notified
  · exact ⟨m, hm, popped⟩
  · obtain ⟨k, hk, popped⟩ := h.covers_live i m covers
    exact ⟨k, hm.trans hk, popped⟩

end ServedRun

end Mvvmm.Virtio
