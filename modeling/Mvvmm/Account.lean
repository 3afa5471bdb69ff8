import Mvvmm.Stores
import Mvvmm.Virtio.Ring
import Mathlib.Algebra.BigOperators.Group.Finset.Piecewise
import Mathlib.Data.Fintype.BigOperators
import Mathlib.Algebra.Order.Group.Multiset
import Mathlib.Tactic.Abel

/-!
# The account of descriptor chains

Every chain that `queue_notify` has advanced past should have been answered by one entry of the used
ring, or be owned by a request in flight. As a head may come back many times, this is an equation of
multisets: the heads popped are the heads answered and the heads in flight (`Block.Accounted`,
`Net.Accounted`).

Three branches break the account: a chain that `get_desc_rw_size` rejects, a header that cannot be read,
and a request type other than IN and OUT. In none of them the chain is answered (`Swallows`). An answer
is also lost if the used ring is not in guest memory. In a run that avoids this the account is always
balanced (`Block.reach_accounted`, `Net.reach_accounted`).

The record of the answers in that account is the device's own. What the driver can see are the used rings in
guest memory, so the main result (`chains_accounted`) is about a run under observation (`watchStep`): each time
the device may have answered a chain of some queue, an observer reads from guest memory which entries have come
into the used ring of that queue. The two accounts agree unless the data of an answer are copied over the index of
the used ring (`Block.Publishes`).
-/

namespace Mvvmm
open CMem Virtio Run

/-- Changing one entry of a finite family changes a sum over it by that entry. -/
lemma sum_update {ι α M : Type} [Fintype ι] [DecidableEq ι] [AddCommMonoid M] (f : ι → α) (g : α → M)
    (i : ι) (x : α) : ∑ j, g (Function.update f i x j) + g (f i) = ∑ j, g (f j) + g x := by
  have e : ∀ j, g (Function.update f i x j) = Function.update (g ∘ f) i (g x) j := by
    intro j
    rw [← Function.comp_update]
    rfl
  simp only [e]
  rw [Finset.sum_update_of_mem (Finset.mem_univ i),
    ← Finset.add_sum_erase _ (fun j => g (f j)) (Finset.mem_univ i), Finset.sdiff_singleton_eq_erase]
  simp only [Function.comp]
  abel

/-- The head of a chain and its queue. -/
abbrev ChainHead := Fin maxQueue × Nat

/-- The heads that have been answered in a used ring. -/
def answered {B : Type} (s : VirtioDevice B) : Multiset ChainHead :=
  s.used.map fun u => (u.queue, u.head)

/-- A device, and the heads that an observer of guest memory has found to be published by it. -/
structure Watch (B W : Type) where
  c : Machine B W
  published : List ChainHead

section Watch
variable {B W A : Type} (step : Machine B W → A → Except Stop (Machine B W))
  (answersOn : Machine B W → A → Option (Fin maxQueue))

/-- What the observer finds in the used ring of the queue on which a step may answer. -/
def found (c c' : Machine B W) (a : A) : List ChainHead :=
  match answersOn c a with
  | none => []
  | some q => (newEntries c.s.mem c'.s.mem (c.s.queue q)).map fun head => (q, head)

/-- One step under observation. -/
def watchStep (w : Watch B W) (a : A) : Except Stop (Watch B W) := do
  let c' ← step w.c a
  return ⟨c', w.published ++ found answersOn w.c c' a⟩

variable {step answersOn}

/-- Nothing is found in a step that does not answer and leaves guest memory alone. -/
lemma found_nil {c c' : Machine B W} {a : A} (same : c'.s.mem = c.s.mem ∨ answersOn c a = none) :
    found answersOn c c' a = [] := by
  unfold found
  split
  · rfl
  · rename_i q e
    rcases same with same | same
    · rw [same, newEntries_self, List.map_nil]
    · rw [e] at same
      cases same

/-- One entry is found in a step that publishes one. -/
lemma found_one {c c' : Machine B W} {a : A} {q : Fin maxQueue} {head : Nat} (on : answersOn c a = some q)
    (e : newEntries c.s.mem c'.s.mem (c.s.queue q) = [head]) : found answersOn c c' a = [(q, head)] := by
  unfold found
  rw [on]
  dsimp only
  rw [e, List.map_singleton]

/-- A run under observation is a run, and what holds of the device and of the entries found, and is kept by each step
with what is found in it, holds of the device and of all that was found. -/
lemma Reach.watched {guard : Machine B W → A → Prop} {c₀ : Machine B W} {w : Watch B W}
    {I : Machine B W → List ChainHead → Prop} (init : I c₀ [])
    (keep : ∀ c a c' l, Reach step guard c₀ c → I c l → guard c a → step c a = .ok c' →
      I c' (l ++ found answersOn c c' a))
    (r : Reach (watchStep step answersOn) (fun w => guard w.c) ⟨c₀, []⟩ w) :
    Reach step guard c₀ w.c ∧ I w.c w.published := by
  refine r.invariant (I := fun w => Reach step guard c₀ w.c ∧ I w.c w.published) ⟨.init, init⟩ ?_
  rintro w a w' - ⟨r, h⟩ hg e
  simp only [watchStep] at e
  obtain ⟨c', e₁, e⟩ := bind_eq_ok.mp e
  cases e
  exact ⟨.step a r hg e₁, keep _ _ _ _ r h hg e₁⟩

end Watch

namespace Block

/-- The chain a worker owns. -/
def Worker.owns (x : Worker) : Multiset ChainHead :=
  match x.req? with
  | none => 0
  | some req => {(req.queueIdx, req.descIdx)}

/-- The chains of the requests in flight. -/
def inFlight (ctx : BlockDeviceCtx) : Multiset ChainHead :=
  ∑ w, (ctx.workers w).owns

/-- Every popped chain has been answered once or is in flight once. -/
def Accounted (c : BlockMachine) : Prop :=
  (c.s.popped : Multiset ChainHead) = answered c.s + inFlight c.s.dev

/-- What `virtio_block_recv_request` read of the header makes it drop the chain: the header cannot be read,
or the type of the request is unknown. -/
def dropsHeader : Except Stop (Int × Obj) → Bool
  | .ok r =>
    let type := (BlockRequestHeader.decode r.2.bytes).type
    r.1 < 0 || type != virtioBlkTIn && type != virtioBlkTOut
  | .error _ => false

/-- The next chain of the queue will not be answered: its shape is bad, or its header makes the device
drop it. -/
def Swallows (s : VirtioBlockDevice) (q : Fin maxQueue) : Prop :=
  getDescRwSize s.mem (s.queue q) (nextHead s q) = .ok none ∨
    dropsHeader (memcpyFromQueue s.mem (.zero BlockRequestHeader.sizeof) (s.queue q) (nextHead s q) 0
      BlockRequestHeader.sizeof) = true

instance (s : VirtioBlockDevice) (q : Fin maxQueue) : Decidable (Swallows s q) :=
  inferInstanceAs (Decidable (_ ∨ _))

/-- The steps that keep the account: a round pops no chain that is swallowed, and whatever is answered
finds its used ring in guest memory. -/
def Answers (c : BlockMachine) : BlockAct → Prop
  | .dev .round => ∀ q ∈ c.ctl.queue?,
    ¬ Swallows c.s q ∧ (c.s.dev.freeWorker = none → UsedRingInside c.s.mem.size (c.s.queue q))
  | .complete w => ∀ req ∈ (c.s.dev.workers w).req?,
    UsedRingInside c.s.mem.size (c.s.queue req.queueIdx)
  | _ => True

instance (c : BlockMachine) : (a : BlockAct) → Decidable (Answers c a)
  | .dev .round => inferInstanceAs (Decidable (∀ q ∈ _, _))
  | .complete _ => inferInstanceAs (Decidable (∀ req ∈ _, _))
  | .dev (.guest ..) | .dev (.mmioRead ..) | .dev (.mmioWrite ..) | .dev (.ioeventfd ..) | .dev .done
  | .io _ | .release _ => .isTrue trivial

variable {c c' : BlockMachine} {s s' : VirtioBlockDevice} {q : Fin maxQueue} {ret : Int}

/-- What is in flight after the state of one worker has changed. -/
lemma inFlight_setWorker (ctx : BlockDeviceCtx) (w : Fin virtioBlkMaxQueueNum) (x : Worker) :
    inFlight (ctx.setWorker w x) + (ctx.workers w).owns = inFlight ctx + x.owns :=
  sum_update ctx.workers Worker.owns w x

/-- A request dropped without an answer was swallowed. -/
lemma swallows_of_none {descIdx : Nat} {readSize writeSize : Int} (hd : descIdx = nextHead s q)
    (h : blockRequest s.mem (s.queue q) q descIdx readSize writeSize = .ok none) : Swallows s q := by
  subst hd
  simp only [blockRequest] at h
  obtain ⟨r, e, h⟩ := bind_eq_ok.mp h
  refine .inr ?_
  rw [e]
  simp only [dropsHeader, Bool.or_eq_true, Bool.and_eq_true, decide_eq_true_eq, bne_iff_ne]
  split at h
  · exact .inl (by assumption)
  · split at h
    · obtain ⟨buf, _, h⟩ := bind_eq_ok.mp h
      cases h
    · split at h
      · split at h
        · cases h
        · split at h
          · cases h
          · obtain ⟨buf, _, h⟩ := bind_eq_ok.mp h
            obtain ⟨r', _, h⟩ := bind_eq_ok.mp h
            cases h
      · exact .inr ⟨by assumption, by assumption⟩

/-- An answered request goes from the requests in flight to the used ring. -/
lemma answered_reqEnd {arg : BlockRequest} {buf : Obj}
    (ring : UsedRingInside s.mem.size (s.queue arg.queueIdx))
    (h : virtioBlockReqEnd s arg buf ret = .ok s') :
    answered s' = answered s + {(arg.queueIdx, arg.descIdx)} ∧ s'.dev = s.dev ∧
      s'.popped = s.popped := by
  obtain ⟨m', len, size, rfl⟩ := virtioBlockReqEnd_ok h
  have inside : UsedInside m' (s.queue arg.queueIdx) := UsedRingInside.usedInside (by rwa [size])
  have used := virtioConsumeDesc_used (s := { s with mem := m' }) arg.descIdx len inside
  refine ⟨?_, virtioConsumeDesc_dev, virtioConsumeDesc_popped⟩
  rw [answered, used, List.map_cons, ← Multiset.cons_coe, ← Multiset.singleton_add, add_comm]
  rfl

/-- A worker that takes over a request owns its chain. -/
lemma inFlight_queue {ctx : BlockDeviceCtx} {w : Fin virtioBlkMaxQueueNum} (req : AsyncIoReq)
    (idle : ctx.workers w = .idle) :
    inFlight (ctx.setWorker w (.queued req)) =
      inFlight ctx + {(req.arg.queueIdx, req.arg.descIdx)} := by
  have h := inFlight_setWorker ctx w (.queued req)
  rw [idle] at h
  simpa [Worker.owns, Worker.req?] using h

/-- A round that swallows nothing adds the popped head to the answered ones or to those in flight. -/
lemma account_round {go : Bool} (no : ¬ Swallows s q)
    (ring : s.dev.freeWorker = none → UsedRingInside s.mem.size (s.queue q))
    (acc : (s.popped : Multiset ChainHead) = answered s + inFlight s.dev)
    (h : RoundEffect virtioBlockRecvRequest s q go s') :
    (s'.popped : Multiset ChainHead) = answered s' + inFlight s'.dev := by
  -- the history of a device that has advanced past `nextHead s q`
  have popped : ∀ s₁ : VirtioBlockDevice, s₁.popped = s.popped →
      ((advance s₁ q (nextHead s q)).popped : Multiset ChainHead) =
        answered s + inFlight s.dev + {(q, nextHead s q)} := by
    intro s₁ e
    rw [← acc, advance, e, ← Multiset.cons_coe, ← Multiset.singleton_add, add_comm]
  cases h with
  | skip scan => exact absurd (.inl scan) no
  | stop scan eq neg =>
    obtain ⟨rfl, _⟩ := virtioBlockRecvRequest_effect eq
    exact absurd neg (by decide)
  | @pass readSize writeSize ret s₁ scan eq nonneg =>
    obtain ⟨-, eff⟩ := virtioBlockRecvRequest_effect eq
    cases eff with
    | drop none => exact absurd (swallows_of_none rfl none) no
    | @queue req i made free =>
      obtain ⟨-, hq, hd⟩ := Makes.sound ⟨_, _, scan, made⟩
      have fl := inFlight_queue req (freeWorker_idle free)
      rw [hq, hd] at fl
      rw [popped (setWorker s i (.queued req)) rfl, add_assoc, ← fl]
      rfl
    | @refuse req _ made full eq' =>
      obtain ⟨-, hq, hd⟩ := Makes.sound ⟨_, _, scan, made⟩
      obtain ⟨ans, dev, pop⟩ := answered_reqEnd (by rw [hq]; exact ring full) eq'
      rw [popped _ pop]
      rw [hq, hd] at ans
      have e1 : answered (advance s₁ q (nextHead s q)) = answered s₁ := rfl
      have e2 : (advance s₁ q (nextHead s q)).dev = s₁.dev := rfl
      rw [e1, e2, ans, dev]
      abel

/-- One step keeps the account. -/
lemma account_step {a : BlockAct} (acc : Accounted c) (guard : Answers c a)
    (sound : ∀ w, (c.s.dev.workers w).All AsyncIoReq.Sound) (h : blockStep c a = .ok c') : Accounted c' := by
  unfold Accounted at acc ⊢
  cases blockStep_effect h with
  | @dev a c' eff =>
    cases eff with
    | guest _ => exact acc
    | mmioRead _ _ => exact acc
    | @mmioWrite offset val size _ _ =>
      obtain ⟨-, dev, popped, used, -⟩ : Untouched c.s (virtioMmioWriteReg c.s offset val size) :=
        virtioMmioWriteReg_untouched
      simp only [answered, dev, popped, used]
      exact acc
    | start _ _ =>
      rw [Machine.startNotify_s]
      exact acc
    | round ctl _ eq =>
      obtain ⟨no, ring⟩ := guard _ (by rw [ctl]; rfl)
      exact account_round no ring acc (queueNotifyRound_effect eq)
    | done _ _ => exact acc
  | @io w req ret disk req' queued eq =>
    have hw := sound w
    rw [queued] at hw
    have e := (blockIoWorkerFn_sound hw eq).2
    have fl := inFlight_setWorker { c.s.dev with disk } w (.finished req' ret)
    simp only [queued, Worker.owns, Worker.req?, e] at fl
    have fl' := add_right_cancel fl
    exact acc.trans (congrArg _ fl'.symm)
  | @complete w req ret s' idle finished eq =>
    obtain ⟨ans, dev, popped⟩ := answered_reqEnd (guard _ (by rw [finished]; rfl)) eq
    have fl := inFlight_setWorker s'.dev w .returning
    simp only [dev, finished, Worker.owns, Worker.req?, add_zero] at fl
    rw [Machine.startNotify_s]
    have e1 : answered (setWorker s' w .returning) = answered s' := rfl
    have e2 : (setWorker s' w .returning).dev = c.s.dev.setWorker w .returning := by
      rw [← dev]
      rfl
    have e3 : (setWorker s' w .returning).popped = c.s.popped := popped
    rw [e1, e2, e3, ans, acc, ← fl]
    abel
  | @release w returning ne =>
    have fl := inFlight_setWorker c.s.dev w .idle
    simp only [returning, Worker.owns, Worker.req?, add_zero] at fl
    exact acc.trans (congrArg _ fl.symm)

/-- In every run whose steps all answer what they should, the account of the block device is balanced. -/
lemma reach_accounted {mem : GuestMemMap} {disk : Disk}
    (r : Reach blockStep Answers (blockInit mem disk) c) : Accounted c := by
  refine r.invariant (I := Accounted) ?_ ?_
  · simp [Accounted, answered, inFlight, blockInit, virtioBlockInit, virtioInit, virtioReset, Worker.owns,
      Worker.req?]
  · intro c a c' r acc guard e
    exact account_step acc guard (reach_sound r) e

/-- The queue on which a step may answer chains. -/
def answersOn (c : BlockMachine) : BlockAct → Option (Fin maxQueue)
  | .dev .round => c.ctl.queue?
  | .complete w => (c.s.dev.workers w).req?.map (·.queueIdx)
  | _ => none

/-- The data of an answer leave the index of the used ring as it was. -/
def SparesIndex (s : VirtioBlockDevice) (req : BlockRequest) (buf : Obj) (ret : Int) : Prop :=
  ∀ m ∈ (answerCopied s req buf ret).toOption,
    usedIdx m (s.queue req.queueIdx) = usedIdx s.mem (s.queue req.queueIdx)

instance (s : VirtioBlockDevice) (req : BlockRequest) (buf : Obj) (ret : Int) :
    Decidable (SparesIndex s req buf ret) :=
  inferInstanceAs (Decidable (∀ m ∈ _, _))

/-- The data that a step copies to a chain it answers leave the index of the used ring as it was. -/
def Spares (c : BlockMachine) : BlockAct → Prop
  | .dev .round => ∀ q ∈ c.ctl.queue?, c.s.dev.freeWorker = none →
    ∀ req ∈ nextRequest c.s q, SparesIndex c.s req.arg req.buf (-1)
  | .complete w =>
    match c.s.dev.workers w with
    | .finished req ret => SparesIndex c.s req.arg req.buf ret
    | _ => True
  | _ => True

instance (c : BlockMachine) : (a : BlockAct) → Decidable (Spares c a)
  | .dev .round => inferInstanceAs (Decidable (∀ q ∈ _, _))
  | .complete w => by
    simp only [Spares]
    split <;> infer_instance
  | .dev (.guest ..) | .dev (.mmioRead ..) | .dev (.mmioWrite ..) | .dev (.ioeventfd ..) | .dev .done
  | .io _ | .release _ => .isTrue trivial

/-- The steps that keep the account in guest memory. -/
def Publishes (c : BlockMachine) (a : BlockAct) : Prop :=
  Answers c a ∧ Spares c a

instance (c : BlockMachine) (a : BlockAct) : Decidable (Publishes c a) :=
  inferInstanceAs (Decidable (_ ∧ _))

/-- The entry of an answered request is found in guest memory. -/
lemma newEntries_reqEnd {arg : BlockRequest} {buf : Obj} (lt : arg.descIdx < 2 ^ 32)
    (ring : UsedRingInside s.mem.size (s.queue arg.queueIdx)) (spares : SparesIndex s arg buf ret)
    (h : virtioBlockReqEnd s arg buf ret = .ok s') :
    newEntries s.mem s'.mem (s.queue arg.queueIdx) = [arg.descIdx] := by
  obtain ⟨m', len, copied, size, rfl⟩ := virtioBlockReqEnd_copied h
  have index : usedIdx m' (s.queue arg.queueIdx) = usedIdx s.mem (s.queue arg.queueIdx) :=
    spares m' (by rw [copied]; rfl)
  have inside : UsedInside m' (s.queue arg.queueIdx) := UsedRingInside.usedInside (by rwa [size])
  rw [virtioConsumeDesc_mem]
  exact inside.newEntries lt index

/-- What the observer finds in a round are the answers of the round. -/
lemma found_round {go : Bool} {ctl : Ctl (Fin virtioBlkMaxQueueNum)} (on : answersOn c (.dev .round) = some q)
    (ring : c.s.dev.freeWorker = none → UsedRingInside c.s.mem.size (c.s.queue q))
    (spares : c.s.dev.freeWorker = none → ∀ req ∈ nextRequest c.s q, SparesIndex c.s req.arg req.buf (-1))
    (h : RoundEffect virtioBlockRecvRequest c.s q go s') :
    answered s' = answered c.s + (found answersOn c ⟨s', ctl⟩ (.dev .round) : Multiset ChainHead) := by
  have none : ∀ {s' : VirtioBlockDevice}, s'.used = c.s.used → s'.mem = c.s.mem →
      answered s' = answered c.s + (found answersOn c ⟨s', ctl⟩ (.dev .round) : Multiset ChainHead) := by
    intro s' used mem
    rw [found_nil (.inl mem), answered, used]
    exact (add_zero _).symm
  cases h with
  | skip scan => exact none rfl rfl
  | stop scan eq neg =>
    obtain ⟨rfl, _⟩ := virtioBlockRecvRequest_effect eq
    exact absurd neg (by decide)
  | @pass readSize writeSize ret s₁ scan eq nonneg =>
    obtain ⟨-, eff⟩ := virtioBlockRecvRequest_effect eq
    cases eff with
    | drop _ => exact none rfl rfl
    | queue _ _ => exact none rfl rfl
    | @refuse req _ made full eq' =>
      have makes : Makes c.s q req := ⟨_, _, scan, made⟩
      obtain ⟨-, rfl, hd⟩ := makes.sound
      have entry := newEntries_reqEnd (by rw [hd]; exact nextHead_lt.trans (by decide)) (ring full)
        (spares full req makes.nextRequest) eq'
      rw [found_one on entry]
      exact (answered_reqEnd (ring full) eq').1

/-- What the observer finds in a step of the block device are the answers of the step. -/
lemma found_step {a : BlockAct} (guard : Publishes c a)
    (lt : ∀ w, (c.s.dev.workers w).All fun req => req.arg.descIdx < 2 ^ 32) (h : blockStep c a = .ok c') :
    answered c'.s = answered c.s + (found answersOn c c' a : Multiset ChainHead) := by
  obtain ⟨answers, spares⟩ := guard
  have none : ∀ {c' : BlockMachine} {a : BlockAct}, c'.s.used = c.s.used →
      c'.s.mem = c.s.mem ∨ answersOn c a = none →
      answered c'.s = answered c.s + (found answersOn c c' a : Multiset ChainHead) := by
    intro c' a used same
    rw [found_nil same, answered, used]
    exact (add_zero _).symm
  cases blockStep_effect h with
  | @dev a c' eff =>
    cases eff with
    | guest _ => exact none rfl (.inr rfl)
    | mmioRead _ _ => exact none rfl (.inr rfl)
    | @mmioWrite offset val size _ _ =>
      obtain ⟨-, -, -, used, -⟩ : Untouched c.s (virtioMmioWriteReg c.s offset val size) :=
        virtioMmioWriteReg_untouched
      exact none used (.inr rfl)
    | start _ _ => exact none (by rw [Machine.startNotify_s]) (.inl (by rw [Machine.startNotify_s]))
    | @round q availIdx w go s' ctl _ eq =>
      have on : c.ctl.queue? = some q := by rw [ctl]; rfl
      exact found_round on (answers _ on).2 (spares _ on) (queueNotifyRound_effect eq)
    | done _ _ => exact none rfl (.inr rfl)
  | io _ _ => exact none rfl (.inr rfl)
  | @complete w req ret s' idle finished eq =>
    have lt := lt w
    have on : (c.s.dev.workers w).req? = some req.arg := by rw [finished]; rfl
    simp only [Spares, finished] at spares
    rw [finished] at lt
    have ring := answers _ on
    have on : answersOn c (.complete w) = some req.arg.queueIdx := by rw [answersOn, on]; rfl
    have entry := newEntries_reqEnd lt ring spares eq
    rw [found_one on (by rw [Machine.startNotify_s]; exact entry), Machine.startNotify_s]
    exact (answered_reqEnd ring eq).1
  | release _ _ => exact none rfl (.inr rfl)

/-- In every run whose answers are all published, the account is balanced with the entries found in guest memory. -/
lemma watch_accounted {mem : GuestMemMap} {disk : Disk} {w : Watch BlockDeviceCtx (Fin virtioBlkMaxQueueNum)}
    (r : Reach (watchStep blockStep answersOn) (fun w => Publishes w.c) ⟨blockInit mem disk, []⟩ w) :
    (w.c.s.popped : Multiset ChainHead) = w.published + inFlight w.c.s.dev := by
  have keep : ∀ (c : BlockMachine) (a : BlockAct) c' (l : List ChainHead),
      Reach blockStep Publishes (blockInit mem disk) c → answered c.s = l → Publishes c a → blockStep c a = .ok c' →
        answered c'.s = ↑(l ++ found answersOn c c' a) := by
    intro c a c' l r e guard eq
    have lt : ∀ w, (c.s.dev.workers w).All fun req => req.arg.descIdx < 2 ^ 32 := by
      refine reach_all ?_ ?_ r
      · intro c q req _ _ made
        rw [made.sound.2.2]
        exact nextHead_lt.trans (by decide)
      · intro d req ret d' req' lt eq
        obtain ⟨buf, -, rfl⟩ := blockIoWorkerFn_buf eq
        exact lt
    rw [found_step guard lt eq, e, Multiset.coe_add]
  obtain ⟨run, pub⟩ := Reach.watched (I := fun c l => answered c.s = l) rfl keep r
  rw [← pub]
  exact reach_accounted (run.mono fun _ _ => And.left)

end Block

namespace Net

/-- The answers to the chains that `queue_notify` pops. Those on queue 0 are for the packets received. -/
def sentBack (s : VirtioNetDevice) : Multiset ChainHead :=
  ((s.used.filter fun u => u.queue ≠ 0).map fun u => (u.queue, u.head) : List ChainHead)

/-- Every popped chain has been answered once. -/
def Accounted (c : NetMachine) : Prop :=
  (c.s.popped : Multiset ChainHead) = sentBack c.s

/-- The next chain of the queue will not be answered: its shape is bad or its header cannot be read. -/
def Swallows (s : VirtioNetDevice) (q : Fin maxQueue) : Prop :=
  getDescRwSize s.mem (s.queue q) (nextHead s q) = .ok none ∨
    (memcpyFromQueue s.mem (.zero headerSize) (s.queue q) (nextHead s q) 0 headerSize).toOption.any
      (fun r => r.1 < 0) = true

instance (s : VirtioNetDevice) (q : Fin maxQueue) : Decidable (Swallows s q) :=
  inferInstanceAs (Decidable (_ ∨ _))

/-- The steps that keep the account: a round pops no chain that is swallowed, and finds the used ring in
guest memory. -/
def Answers (c : NetMachine) : NetAct → Prop
  | .dev .round => ∀ q ∈ c.ctl.queue?,
    ¬ Swallows c.s q ∧ UsedRingInside c.s.mem.size (c.s.queue q)
  | _ => True

instance (c : NetMachine) : (a : NetAct) → Decidable (Answers c a)
  | .dev .round => inferInstanceAs (Decidable (∀ q ∈ _, _))
  | .dev (.guest ..) | .dev (.mmioRead ..) | .dev (.mmioWrite ..) | .dev (.ioeventfd ..) | .dev .done
  | .rx _ => .isTrue trivial

variable {c c' : NetMachine} {s s' : VirtioNetDevice} {q : Fin maxQueue}

/-- An answer on the transmit queue. -/
lemma sentBack_cons {head : Nat} {len : Int} (hq : q ≠ 0) (used : s'.used = ⟨q, head, len⟩ :: s.used) :
    sentBack s' = sentBack s + {(q, head)} := by
  rw [sentBack, used, List.filter_cons_of_pos (by simpa using hq), List.map_cons, ← Multiset.cons_coe,
    ← Multiset.singleton_add, add_comm]
  rfl

/-- A round that swallows nothing answers the popped head. -/
lemma account_round {go : Bool} (hq : q ≠ 0) (no : ¬ Swallows s q)
    (ring : UsedRingInside s.mem.size (s.queue q))
    (acc : (s.popped : Multiset ChainHead) = sentBack s) (h : RoundEffect virtioNetRecvRequest s q go s') :
    (∀ q, (s'.queue q).manualRecv = (s.queue q).manualRecv) ∧
      (s'.popped : Multiset ChainHead) = sentBack s' := by
  cases h with
  | skip scan => exact absurd (.inl scan) no
  | stop scan eq neg =>
    obtain ⟨rfl, -⟩ := virtioNetRecvRequest_effect eq
    exact absurd neg (by decide)
  | @pass readSize writeSize ret s₁ scan eq nonneg =>
    obtain ⟨-, ⟨drop, -⟩ | ⟨dev, e⟩⟩ := virtioNetRecvRequest_effect eq
    · exact absurd (.inr drop) no
    · have used : s₁.used = ⟨q, nextHead s q, 0⟩ :: s.used := by
        rw [e]
        exact virtioConsumeDesc_used (s := { s with dev }) (nextHead s q) 0 ring.usedInside
      have popped : s₁.popped = s.popped := by
        rw [e]
        exact virtioConsumeDesc_popped
      have queue : s₁.queue = s.queue := by
        rw [e]
        exact virtioConsumeDesc_queue
      constructor
      · intro q'
        rw [← queue]
        exact advance_manualRecv _ q'
      · have e : sentBack (advance s₁ q (nextHead s q)) = sentBack s₁ := rfl
        rw [e, sentBack_cons hq used, ← acc, advance, popped, ← Multiset.cons_coe, ← Multiset.singleton_add, add_comm]

/-- One step keeps the account of the network device. -/
lemma account_step {a : NetAct} (manual : (c.s.queue 0).manualRecv = true)
    (tx : ∀ q availIdx w, c.ctl = .notify q availIdx w → q ≠ 0) (acc : Accounted c)
    (guard : Answers c a) (h : netStep c a = .ok c') :
    (c'.s.queue 0).manualRecv = true ∧ (∀ q availIdx w, c'.ctl = .notify q availIdx w → q ≠ 0) ∧
      Accounted c' := by
  unfold Accounted at acc ⊢
  cases a with
  | dev a =>
    cases devStep_effect h with
    | guest _ => exact ⟨manual, tx, acc⟩
    | mmioRead _ _ => exact ⟨manual, tx, acc⟩
    | @mmioWrite offset val size _ _ =>
      obtain ⟨-, -, popped, used, man⟩ : Untouched c.s (virtioMmioWriteReg c.s offset val size) :=
        virtioMmioWriteReg_untouched
      refine ⟨(man 0).trans manual, tx, ?_⟩
      simp only [sentBack, popped, used]
      exact acc
    | @start a q idle yes =>
      refine ⟨by rwa [Machine.startNotify_s], ?_, by rwa [Machine.startNotify_s]⟩
      intro q' availIdx w e
      simp only [Machine.startNotify] at e
      split at e
      · exact tx _ _ _ e
      · rename_i auto
        cases e
        rintro rfl
        exact auto manual
    | @round q availIdx w go s' ctl ne eq =>
      obtain ⟨no, ring⟩ := guard _ (by rw [ctl]; rfl)
      have hq := tx _ _ _ ctl
      obtain ⟨man, acc'⟩ := account_round hq no ring acc (queueNotifyRound_effect eq)
      refine ⟨(man 0).trans manual, ?_, acc'⟩
      intro q' availIdx' w' e
      cases go with
      | true => exact tx _ _ _ e
      | false => cases e
    | done _ _ => exact ⟨manual, by simp, acc⟩
  | rx pkt =>
    simp only [netStep] at h
    split at h
    · rename_i idle
      obtain ⟨s', e, h⟩ := bind_eq_ok.mp h
      cases h
      obtain ⟨popped, man, used, -, -⟩ := virtioNetWritePacket_effect e
      refine ⟨(man 0).trans manual, tx, ?_⟩
      rw [popped, sentBack, used]
      exact acc
    · cases h

/-- In every run whose steps all answer what they should, the account of the network device is balanced, and the queue
that `queue_notify` is about is never the receive queue. -/
lemma reach_accounted {mem : GuestMemMap} {tap : Tap} (r : Reach netStep Answers (netInit mem tap) c) :
    (∀ q availIdx w, c.ctl = .notify q availIdx w → q ≠ 0) ∧ Accounted c := by
  refine (r.invariant (I := fun c => (c.s.queue 0).manualRecv = true ∧
    (∀ q availIdx w, c.ctl = .notify q availIdx w → q ≠ 0) ∧ Accounted c) ?_ ?_).2
  · exact ⟨rfl, by simp [netInit], rfl⟩
  · rintro c a c' _ ⟨manual, tx, acc⟩ guard e
    exact account_step manual tx acc guard e

/-- The queue on which a step may answer chains that `queue_notify` pops. -/
def answersOn (c : NetMachine) : NetAct → Option (Fin maxQueue)
  | .dev .round => c.ctl.queue?
  | _ => none

/-- What the observer finds in a round are the answers of the round. -/
lemma found_round {go : Bool} {ctl : Ctl Empty} (hq : q ≠ 0) (on : answersOn c (.dev .round) = some q)
    (ring : UsedRingInside c.s.mem.size (c.s.queue q)) (h : RoundEffect virtioNetRecvRequest c.s q go s') :
    sentBack s' = sentBack c.s + (found answersOn c ⟨s', ctl⟩ (.dev .round) : Multiset ChainHead) := by
  have none : ∀ {s' : VirtioNetDevice}, s'.used = c.s.used → s'.mem = c.s.mem →
      sentBack s' = sentBack c.s + (found answersOn c ⟨s', ctl⟩ (.dev .round) : Multiset ChainHead) := by
    intro s' used mem
    rw [found_nil (.inl mem), sentBack, used]
    exact (add_zero _).symm
  cases h with
  | skip scan => exact none rfl rfl
  | stop scan eq neg =>
    obtain ⟨rfl, -⟩ := virtioNetRecvRequest_effect eq
    exact absurd neg (by decide)
  | pass scan eq nonneg =>
    obtain ⟨-, ⟨-, rfl⟩ | ⟨dev, rfl⟩⟩ := virtioNetRecvRequest_effect eq
    · exact none rfl rfl
    · have entry : newEntries c.s.mem (publishUsed c.s.mem (c.s.queue q) (nextHead c.s q) 0) (c.s.queue q) =
          [nextHead c.s q] := ring.usedInside.newEntries (nextHead_lt.trans (by decide)) rfl
      rw [found_one on (by rw [← entry]; exact congrArg (newEntries _ · _) virtioConsumeDesc_mem)]
      exact sentBack_cons hq (virtioConsumeDesc_used (s := { c.s with dev }) (nextHead c.s q) 0 ring.usedInside)

/-- What the observer finds in a step of the network device are the answers of the step. -/
lemma found_step {a : NetAct} (tx : ∀ q availIdx w, c.ctl = .notify q availIdx w → q ≠ 0) (guard : Answers c a)
    (h : netStep c a = .ok c') :
    sentBack c'.s = sentBack c.s + (found answersOn c c' a : Multiset ChainHead) := by
  have none : ∀ {c' : NetMachine} {a : NetAct},
      c'.s.used.filter (fun u => u.queue ≠ 0) = c.s.used.filter (fun u => u.queue ≠ 0) →
      c'.s.mem = c.s.mem ∨ answersOn c a = none →
      sentBack c'.s = sentBack c.s + (found answersOn c c' a : Multiset ChainHead) := by
    intro c' a used same
    rw [found_nil same, sentBack, used]
    exact (add_zero _).symm
  cases a with
  | dev a =>
    cases devStep_effect h with
    | guest _ => exact none rfl (.inr rfl)
    | mmioRead _ _ => exact none rfl (.inr rfl)
    | @mmioWrite offset val size _ _ =>
      obtain ⟨-, -, -, used, -⟩ : Untouched c.s (virtioMmioWriteReg c.s offset val size) :=
        virtioMmioWriteReg_untouched
      exact none (by rw [used]) (.inr rfl)
    | start _ _ => exact none (by rw [Machine.startNotify_s]) (.inl (by rw [Machine.startNotify_s]))
    | @round q availIdx w go s' ctl ne eq =>
      have on : c.ctl.queue? = some q := by rw [ctl]; rfl
      exact found_round (tx _ _ _ ctl) on (guard _ on).2 (queueNotifyRound_effect eq)
    | done _ _ => exact none rfl (.inr rfl)
  | rx pkt =>
    simp only [netStep] at h
    split at h
    · obtain ⟨s', e, h⟩ := bind_eq_ok.mp h
      cases h
      obtain ⟨-, -, used, -, -⟩ := virtioNetWritePacket_effect e
      exact none used (.inr rfl)
    · cases h

/-- In every run whose steps all answer what they should, the account is balanced with the entries found in guest
memory. -/
lemma watch_accounted {mem : GuestMemMap} {tap : Tap} {w : Watch EtherDevice Empty}
    (r : Reach (watchStep netStep answersOn) (fun w => Answers w.c) ⟨netInit mem tap, []⟩ w) :
    (w.c.s.popped : Multiset ChainHead) = w.published := by
  have keep : ∀ (c : NetMachine) (a : NetAct) c' (l : List ChainHead),
      Reach netStep Answers (netInit mem tap) c → sentBack c.s = l → Answers c a → netStep c a = .ok c' →
        sentBack c'.s = ↑(l ++ found answersOn c c' a) := by
    intro c a c' l r e guard eq
    rw [found_step (reach_accounted r).1 guard eq, e, Multiset.coe_add]
  obtain ⟨run, pub⟩ := Reach.watched (I := fun c l => sentBack c.s = l) rfl keep r
  rw [← pub]
  exact (reach_accounted run).2

end Net

/-- In every run whose steps all answer what they should, the heads popped are the heads of the entries found in the used
rings in guest memory and those in flight, for both devices. -/
theorem chains_accounted (mem : GuestMemMap) (disk : Block.Disk) (tap : Net.Tap) :
    (∀ w, Reach (watchStep Block.blockStep Block.answersOn) (fun w => Block.Publishes w.c)
        ⟨Block.blockInit mem disk, []⟩ w →
      (w.c.s.popped : Multiset ChainHead) = w.published + Block.inFlight w.c.s.dev) ∧
    ∀ w, Reach (watchStep Net.netStep Net.answersOn) (fun w => Net.Answers w.c) ⟨Net.netInit mem tap, []⟩ w →
      (w.c.s.popped : Multiset ChainHead) = w.published :=
  ⟨fun _ r => Block.watch_accounted r, fun _ r => Net.watch_accounted r⟩

/-- A read of one sector is popped and its entry is found, and so is that of a packet of 8 bytes. -/
theorem chains_accounted_read_packet :
    (∃ w, Reach (watchStep Block.blockStep Block.answersOn) (fun w => Block.Publishes w.c)
        ⟨Block.blockInit (Block.requestMem [⟨768, 16, 1, 1⟩, ⟨1024, 513, 2, 0⟩] ⟨0, 0⟩) (.zero 512), []⟩ w ∧
      w.published = [(0, 0)] ∧
      (w.c.s.popped : Multiset ChainHead) = w.published + Block.inFlight w.c.s.dev) ∧
    ∃ w, Reach (watchStep Net.netStep Net.answersOn) (fun w => Net.Answers w.c)
        ⟨Net.netInit (Block.requestMem [⟨768, 20, 0, 0⟩] ⟨0, 0⟩) Net.takesAll, []⟩ w ∧
      w.published = [(1, 0)] ∧ (w.c.s.popped : Multiset ChainHead) = w.published := by
  constructor
  · obtain ⟨w, r, h⟩ := Reach.of_test (watchStep Block.blockStep Block.answersOn) (fun w => Block.Publishes w.c)
      .blocked ⟨Block.blockInit (Block.requestMem [⟨768, 16, 1, 1⟩, ⟨1024, 513, 2, 0⟩] ⟨0, 0⟩) (.zero 512), []⟩
      (Block.setupAndKick ++ [.dev .round, .io 0, .dev .done, .complete 0, .dev .done, .release 0])
      (fun w => w.published = [(0, 0)]) (by decide +kernel)
    exact ⟨w, r, of_decide_eq_true h, (chains_accounted _ _ Net.takesAll).1 w r⟩
  · obtain ⟨w, r, h⟩ := Reach.of_test (watchStep Net.netStep Net.answersOn) (fun w => Net.Answers w.c) .blocked
      ⟨Net.netInit (Block.requestMem [⟨768, 20, 0, 0⟩] ⟨0, 0⟩) Net.takesAll, []⟩
      [.dev (.mmioWrite 0x030 1 4), .dev (.mmioWrite 0x090 256 4), .dev (.mmioWrite 0x0a0 512 4),
        .dev (.ioeventfd 1), .dev .round, .dev .done]
      (fun w => w.published = [(1, 0)]) (by decide +kernel)
    exact ⟨w, r, of_decide_eq_true h, (chains_accounted _ (.zero 0) _).2 w r⟩

namespace Block

/-- A FLUSH request is popped and never answered. -/
theorem flush_swallowed :
    ∃ w, Reach (watchStep blockStep answersOn) always
        ⟨blockInit (requestMem [⟨768, 16, 1, 1⟩, ⟨1024, 1, 2, 0⟩] ⟨4, 0⟩) (.zero 512), []⟩ w ∧
      (w.c.ctl = .idle ∧ w.c.s.popped = [(0, 0)] ∧ w.published = [] ∧ inFlight w.c.s.dev = 0) ∧
      ¬ (w.c.s.popped : Multiset ChainHead) = w.published + inFlight w.c.s.dev := by
  obtain ⟨w, r, h⟩ := Reach.of_test (watchStep blockStep answersOn) always .blocked
    ⟨blockInit (requestMem [⟨768, 16, 1, 1⟩, ⟨1024, 1, 2, 0⟩] ⟨4, 0⟩) (.zero 512), []⟩
    (setupAndKick ++ [.dev .round, .dev .done])
    (fun w => decide ((w.c.ctl = .idle ∧ w.c.s.popped = [(0, 0)] ∧ w.published = [] ∧
      inFlight w.c.s.dev = 0) ∧ ¬ (w.c.s.popped : Multiset ChainHead) = w.published + inFlight w.c.s.dev))
    (by decide +kernel)
  exact ⟨w, r, of_decide_eq_true h⟩

end Block

end Mvvmm
