import Mvvmm.Block.Driver
import Mvvmm.Lib.Linear

/-!
# Where the requests are

Two halves of what holds in every run of a conforming driver in which no request is refused. `Memory` says
what the guest memory holds: the rings, the chains of the requests whose answer has not been read, the
requests not yet popped, and the data delivered and not yet read. `Ledger` says where the requests are: each
popped one is with one worker, before or after its I/O, or has been answered.

Every step changes each half in one of a few ways. The memory is left alone as far as it matters
(`Memory.keep`), or a request is popped, answered, made available or read. In the ledger a free worker takes
over a request (`Ledger.pop`), or a worker goes on with its request (`Ledger.move`).
-/

namespace Mvvmm.Block
open Bytes CMem Virtio Run Linear

/-- A request that has taken effect. -/
abbrev IoCommit := Commit Cmd (List UInt8)

/-- What a worker does with the request of the given number. -/
def Carries (reqs : List Request) (commits : List IoCommit) (i : Nat) : Worker → Prop
  | .queued req => ∃ x, reqs[i]? = some x ∧ req = x.io ∧ ∀ c ∈ commits, c.id ≠ i
  | .finished req ret =>
    ∃ x d, reqs[i]? = some x ∧ ret = 0 ∧ req = x.ioDone (x.cmd.exec d).2 ∧
      ⟨i, x.cmd, (x.cmd.exec d).2⟩ ∈ commits
  | _ => True

/-- What the guest memory holds in every state of a conforming run. -/
structure Memory (t : Traffic) : Prop where
  rings : Rings t.mem t.qs t.avail t.used t.popped t.consumed
  placed : ∀ x ∈ t.reqs, Placed t.mem.size t.qs x
  separated : Separated t.reqs t.read
  chains : ∀ i x, i ∉ t.read → t.reqs[i]? = some x → chain t.mem t.qs x.head = some x.footprint
  fresh : ∀ i x, t.popped ≤ i → t.reqs[i]? = some x → request t.mem t.qs x.head = some x
  delivered : ∀ k a, t.consumed ≤ k → t.answers[k]? = some a →
    ∃ x, t.reqs[a.1]? = some x ∧ gather t.mem x.writable = a.2

/-- Where the requests are in every state of a conforming run. -/
structure Ledger (t : Traffic) (commits : List IoCommit) : Prop where
  once : t.inFlight + (t.answered : Multiset Nat) = Multiset.range t.popped
  distinct : ∀ w w', (t.c.s.dev.workers w).req?.isSome → (t.c.s.dev.workers w').req?.isSome →
    t.owner w = t.owner w' → w = w'
  workers : ∀ w, Carries t.reqs commits (t.owner w) (t.c.s.dev.workers w)
  heads : List.Forall₂ (fun h a => ∃ x, t.reqs[a.1]? = some x ∧ x.head = h) t.used t.answers
  pops : (t.c.s.popped.map fun p => p.2).reverse = t.avail.take t.popped
  committed : ∀ c ∈ commits, c.id < t.popped

variable {t : Traffic} {commits : List IoCommit} {c' : BlockMachine} {i : Nat} {w : Fin virtioBlkMaxQueueNum}
  {x : Request}

/-! ## The ledger -/

/-- What one worker does changes the requests in flight by its own. -/
lemma counts_update (ws : Fin virtioBlkMaxQueueNum → Worker) (owner : Fin virtioBlkMaxQueueNum → Nat)
    (w : Fin virtioBlkMaxQueueNum) (x : Worker) (i : Nat) :
    ∑ j, (Function.update ws w x j).counts (Function.update owner w i j) + (ws w).counts (owner w) =
      ∑ j, (ws j).counts (owner j) + x.counts i := by
  have sum := sum_update (fun j => (ws j, owner j)) (fun p => p.1.counts p.2) w (x, i)
  have pair : ∀ j, Function.update (fun j => (ws j, owner j)) w (x, i) j =
      (Function.update ws w x j, Function.update owner w i j) := by
    intro j
    simp only [Function.update_apply]
    split <;> rfl
  simpa only [pair] using sum

section Facts
variable (h : Ledger t commits)
include h

/-- No request is answered twice. -/
lemma Ledger.answered_nodup : t.answered.Nodup := by
  have nodup := Multiset.nodup_range t.popped
  rw [← h.once] at nodup
  exact Multiset.coe_nodup.mp (Multiset.nodup_add.mp nodup).2.1

/-- Only popped requests are answered. -/
lemma Ledger.answered_lt (hi : i ∈ t.answered) : i < t.popped := by
  rw [← Multiset.mem_range, ← h.once]
  exact Multiset.mem_add.mpr (.inr hi)

/-- Only popped requests have their answers read. -/
lemma Ledger.read_lt (hi : i ∈ t.read) : i < t.popped :=
  h.answered_lt (List.mem_of_mem_take hi)

/-- The request of a worker has been popped and not answered. -/
lemma Ledger.busy (some : (t.c.s.dev.workers w).req?.isSome) :
    t.owner w < t.popped ∧ t.owner w ∉ t.answered ∧ t.answers.length < t.popped := by
  have mem : t.owner w ∈ t.inFlight := by
    refine Multiset.mem_sum.mpr ⟨w, Finset.mem_univ w, ?_⟩
    rw [Worker.counts, if_pos some]
    exact Multiset.mem_singleton_self _
  have nodup := Multiset.nodup_range t.popped
  rw [← h.once] at nodup
  have disjoint := (Multiset.nodup_add.mp nodup).2.2
  have card := congrArg Multiset.card h.once
  have pos := Multiset.card_pos_iff_exists_mem.mpr ⟨_, mem⟩
  rw [Multiset.card_add, Multiset.coe_card, Multiset.card_range, Traffic.answered, List.length_map] at card
  refine ⟨?_, ?_, by omega⟩
  · rw [← Multiset.mem_range, ← h.once]
    exact Multiset.mem_add.mpr (.inl mem)
  · intro ans
    exact Multiset.disjoint_left.mp disjoint mem ans

/-- An answer that was not read yet is not among those read. -/
lemma Ledger.unread {k : Nat} {a : Nat × List UInt8} (le : t.consumed ≤ k)
    (e : t.answers[k]? = some a) : a.1 ∉ t.read := by
  have nodup := h.answered_nodup
  rw [← List.take_append_drop t.consumed t.answered] at nodup
  have mem : a.1 ∈ t.answered.drop t.consumed := by
    refine List.mem_of_getElem? (i := k - t.consumed) ?_
    rw [List.getElem?_drop, Traffic.answered, List.getElem?_map,
      show t.consumed + (k - t.consumed) = k by omega, e]
    rfl
  intro read
  exact (List.nodup_append.mp nodup).2.2 _ read _ mem rfl

end Facts

/-- Fewer requests are outstanding after an answer was read. -/
lemma Separated.mono {reqs : List Request} {read read' : List Nat} (h : Separated reqs read)
    (sub : read ⊆ read') : Separated reqs read' := by
  intro i hi j hj ni nj
  exact h i hi j hj (fun m => ni (sub m)) (fun m => nj (sub m))

/-- There is one entry in the used ring for each answer. -/
lemma Ledger.used_length (h : Ledger t commits) : t.used.length = t.answered.length := by
  rw [h.heads.length_eq, Traffic.answered, List.length_map]

/-! ## The guest memory -/

section Steps
variable (h : Memory t)
include h

/-- A step that leaves alone what is still to be read. -/
lemma Memory.keep (ledger : Ledger t commits) (queue : c'.s.queue 0 = t.qs)
    (used : c'.s.used = t.c.s.used) (popped : c'.s.popped = t.c.s.popped) (size : c'.s.mem.size = t.mem.size)
    (keeps : KeepsTraffic t c'.s.mem) : Memory { t with c := c' } := by
  have eq : ({ t with c := c' } : Traffic).qs = t.qs := queue
  have eu : ({ t with c := c' } : Traffic).used = t.used := by simp only [Traffic.used, used]
  have ep : ({ t with c := c' } : Traffic).popped = t.popped := by simp only [Traffic.popped, popped]
  have kept : ∀ i x, i ∉ t.read → t.reqs[i]? = some x → KeepsRequest t.mem c'.s.mem t.qs x := by
    intro i x live e
    exact keeps.requests i (List.getElem?_eq_some_iff.mp e).1 live x e
  constructor
  case rings =>
    rw [eq, eu, ep]
    exact h.rings.keep size keeps.rings
  case placed =>
    rw [eq]
    intro x hx
    have placed := h.placed x hx
    rwa [← size] at placed
  case separated => exact h.separated
  case chains =>
    rw [eq]
    intro i x live e
    exact (kept i x live e).chain.trans (h.chains i x live e)
  case fresh =>
    rw [eq, ep]
    intro i x le e
    have live : i ∉ t.read := fun read => absurd (ledger.read_lt read) (not_lt.mpr le)
    exact (kept i x live e).request (h.fresh i x le e)
  case delivered =>
    intro k a le e
    obtain ⟨x, hx, bytes⟩ := h.delivered k a le e
    exact ⟨x, hx, (kept _ x (ledger.unread le e) hx).parts.2.trans bytes⟩

/-- The device pops a request. -/
lemma Memory.pop {s' : VirtioBlockDevice} {ctl : Ctl (Fin virtioBlkMaxQueueNum)}
    {owner : Fin virtioBlkMaxQueueNum → Nat} (lt : t.popped < t.reqs.length) (mem : s'.mem = t.mem)
    (queue : s'.queue 0 = t.qs.advanced) (used : s'.used = t.c.s.used)
    (popped : s'.popped.length = t.popped + 1) : Memory { t with c := ⟨s', ctl⟩, owner } := by
  have em : ({ t with c := ⟨s', ctl⟩, owner } : Traffic).mem = t.mem := mem
  have eq : ({ t with c := ⟨s', ctl⟩, owner } : Traffic).qs = t.qs.advanced := queue
  have eu : ({ t with c := ⟨s', ctl⟩, owner } : Traffic).used = t.used := by simp only [Traffic.used, used]
  have ep : ({ t with c := ⟨s', ctl⟩, owner } : Traffic).popped = t.popped + 1 := popped
  constructor
  case rings =>
    rw [em, eq, eu, ep]
    exact h.rings.pop (by rwa [Traffic.avail, List.length_map])
  case placed =>
    rw [em, eq]
    exact fun x hx => (h.placed x hx).advanced
  case separated => exact h.separated
  case chains =>
    rw [em, eq]
    intro i x live e
    rw [chain_advanced]
    exact h.chains i x live e
  case fresh =>
    rw [em, eq, ep]
    intro i x le e
    rw [request_advanced]
    exact h.fresh i x (by omega) e
  case delivered =>
    rw [em]
    exact h.delivered

omit h in
/-- What a device is that has stored the result of a request and published its head. -/
lemma virtioConsumeDesc_scatterAt {s s' : VirtioBlockDevice} {bs : List UInt8} {n : Int}
    (ring : RingOk s.mem.size (s.queue 0))
    (e : s' = virtioConsumeDesc { s with mem := scatterAt s.mem x.writable 0 bs } 0 x.head n) :
    s'.mem = publishUsed (scatterAt s.mem x.writable 0 bs) (s.queue 0) x.head n ∧ s'.queue = s.queue ∧
      s'.used = ⟨0, x.head, n⟩ :: s.used ∧ s'.popped = s.popped ∧ s'.dev = s.dev := by
  have inside : UsedInside (scatterAt s.mem x.writable 0 bs) (s.queue 0) := by
    apply RingOk.usedInside
    rwa [scatterAt_size]
  subst e
  exact ⟨virtioConsumeDesc_mem, virtioConsumeDesc_queue, virtioConsumeDesc_used _ _ inside,
    virtioConsumeDesc_popped, virtioConsumeDesc_dev⟩

/-- An answer leaves the other requests alone that are outstanding. -/
lemma Memory.keepsOthers {y : Request} {j : Nat} {bs : List UInt8} {n : Int} (e : t.reqs[i]? = some x) (live : i ∉ t.read)
    (ej : t.reqs[j]? = some y) (hj : j ∉ t.read) (ne : j ≠ i) :
    KeepsRequest t.mem (publishUsed (scatterAt t.mem x.writable 0 bs) t.qs x.head n) t.qs y := by
  have px := h.placed x (List.mem_of_getElem? e)
  have py := h.placed y (List.mem_of_getElem? ej)
  have ring : RingOk (scatterAt t.mem x.writable 0 bs).size t.qs := by rw [scatterAt_size]; exact h.rings.ring
  have apart := h.separated i (List.getElem?_eq_some_iff.mp e).1 j (List.getElem?_eq_some_iff.mp ej).1
    live hj ne.symm x e y ej
  exact (KeepsRequest.scatterAt h.rings.ring px py apart).trans (.publishUsed ring (by rwa [scatterAt_size]))

/-- The device answers a request. -/
lemma Memory.answer {s' : VirtioBlockDevice} {ctl : Ctl (Fin virtioBlkMaxQueueNum)} {bs : List UInt8}
    {n : Int} (ledger : Ledger t commits) (e : t.reqs[i]? = some x) (pop : i < t.popped) (new : i ∉ t.answered)
    (room : t.answers.length < t.popped) (len : bs.length = total x.writable)
    (mem : s'.mem = publishUsed (scatterAt t.mem x.writable 0 bs) t.qs x.head n) (queue : s'.queue 0 = t.qs)
    (used : s'.used = ⟨0, x.head, n⟩ :: t.c.s.used) (popped : s'.popped = t.c.s.popped) :
    Memory { t with c := ⟨s', ctl⟩, answers := t.answers ++ [(i, bs)] } := by
  obtain ⟨t', ht'⟩ : ∃ t' : Traffic, t' = { t with c := ⟨s', ctl⟩, answers := t.answers ++ [(i, bs)] } :=
    ⟨_, rfl⟩
  have em : t'.mem = publishUsed (scatterAt t.mem x.writable 0 bs) t.qs x.head n := by rw [ht']; exact mem
  have eq : t'.qs = t.qs := by rw [ht']; exact queue
  have eu : t'.used = t.used ++ [x.head] := by
    rw [ht']
    simp only [Traffic.used, used, List.map_cons, List.reverse_cons]
  have ep : t'.popped = t.popped := by rw [ht']; exact congrArg List.length popped
  have er : t'.reqs = t.reqs := by rw [ht']
  have ec : t'.consumed = t.consumed := by rw [ht']
  have ea : t'.answers = t.answers ++ [(i, bs)] := by rw [ht']
  have consumed_le := h.rings.consumed_le
  rw [ledger.used_length] at consumed_le
  -- the new answer is behind all those that have been read
  have read : t'.read = t.read := by
    rw [Traffic.read, Traffic.answered, ea, ec, List.map_append]
    exact List.take_append_of_le_length consumed_le
  have placed := h.placed x (List.mem_of_getElem? e)
  have live : i ∉ t.read := fun m => new (List.mem_of_mem_take m)
  have ring : RingOk (scatterAt t.mem x.writable 0 bs).size t.qs := by rw [scatterAt_size]; exact h.rings.ring
  have size : t'.mem.size = t.mem.size := by rw [em, publishUsed_size, scatterAt_size]
  have chain_eq : ∀ head, chain t'.mem t.qs head = chain t.mem t.qs head := by
    intro head
    rw [em, chain_congr ring.table publishUsed_size (ring.eqOn_table (publishUsed_frame ring)),
      chain_scatterAt h.rings.ring placed]
  have kept : ∀ j y, j ∉ t.read → j ≠ i → t.reqs[j]? = some y → KeepsRequest t.mem t'.mem t.qs y := by
    intro j y hj ne ej
    rw [em]
    exact h.keepsOthers e live ej hj ne
  rw [← ht']
  constructor
  case rings =>
    rw [em, eq, eu, ep, ec, show t'.avail = t.avail by rw [Traffic.avail, er]; rfl]
    refine (h.rings.keep scatterAt_size (keepsRings_scatterAt h.rings.ring placed)).answer ?_ ?_
    · rw [ledger.heads.length_eq]
      exact room
    · exact (chain_some (h.chains i x live e)).1
  case placed =>
    rw [er, eq, size]
    exact h.placed
  case separated =>
    rw [er, read]
    exact h.separated
  case chains =>
    rw [er, read, eq]
    intro j y hj ej
    rw [chain_eq]
    exact h.chains j y hj ej
  case fresh =>
    rw [er, ep, eq]
    intro j y le ej
    have hj : j ∉ t.read := fun m => absurd (ledger.read_lt m) (not_lt.mpr le)
    exact (kept j y hj (by omega) ej).request (h.fresh j y le ej)
  case delivered =>
    rw [er, ec, ea]
    intro k a le ek
    rcases Nat.lt_or_ge k t.answers.length with lt | ge
    · rw [List.getElem?_append_left lt] at ek
      obtain ⟨y, ey, bytes⟩ := h.delivered k a le ek
      have ne : a.1 ≠ i := fun eq => new (eq ▸ List.mem_map_of_mem (List.mem_of_getElem? ek))
      exact ⟨y, ey, (kept _ y (ledger.unread le ek) ne ey).parts.2.trans bytes⟩
    · rw [List.getElem?_append_right ge, List.getElem?_singleton] at ek
      split at ek
      · obtain rfl := Option.some.inj ek
        have own : KeepsRequest (scatterAt t.mem x.writable 0 bs) t'.mem t.qs x := by
          rw [em]
          exact .publishUsed ring (by rwa [scatterAt_size])
        exact ⟨x, e, own.parts.2.trans (gather_scatterAt_all placed.bufInside.2 placed.writable len)⟩
      · cases ek

/-- The driver makes requests available. -/
lemma Memory.publish {xs : List Request} {seen : List (List Nat)} (guard : Conforms t (.publish xs)) :
    Memory { t with
      c.s.mem := publishAvail t.mem t.qs (.ofNat (t.reqs.length + xs.length)), reqs := t.reqs ++ xs,
      seen } := by
  obtain ⟨room, heads, new, separated⟩ := guard
  have placed : ∀ x ∈ t.reqs ++ xs, Placed t.mem.size t.qs x := by
    intro x hx
    rcases List.mem_append.mp hx with hx | hx
    · exact h.placed x hx
    · exact (new x hx).2.2
  have kept : ∀ x ∈ t.reqs ++ xs, KeepsRequest t.mem
      (publishAvail t.mem t.qs (.ofNat (t.reqs.length + xs.length))) t.qs x :=
    fun x hx => .publishAvail h.rings.ring (placed x hx)
  have avail : t.reqs.length = t.avail.length := by rw [Traffic.avail, List.length_map]
  -- a request is an old one, or one of those in the guest memory now
  have cases : ∀ (i : Nat) (x : Request), (t.reqs ++ xs)[i]? = some x →
      t.reqs[i]? = some x ∨ request t.mem t.qs x.head = some x := by
    intro i x e
    rcases Nat.lt_or_ge i t.reqs.length with lt | ge
    · rw [List.getElem?_append_left lt] at e
      exact .inl e
    · rw [List.getElem?_append_right ge] at e
      exact .inr (new x (List.mem_of_getElem? e)).1
  constructor
  case rings =>
    have rings := h.rings.publish (k := xs.length) (by rw [← avail]; exact room)
    rw [← avail, heads, Traffic.avail, ← List.map_append] at rings
    exact rings
  case placed => exact placed
  case separated => exact separated
  case chains =>
    intro i x live e
    refine (kept x (List.mem_of_getElem? e)).chain.trans ?_
    rcases cases i x e with old | now
    · exact h.chains i x live old
    · exact (request_chain now).2
  case fresh =>
    intro i x le e
    apply (kept x (List.mem_of_getElem? e)).request
    rcases cases i x e with old | now
    · exact h.fresh i x le old
    · exact now
  case delivered =>
    intro k a le e
    obtain ⟨x, ex, bytes⟩ := h.delivered k a le e
    refine ⟨x, ?_, (kept x (List.mem_append_left _ (List.mem_of_getElem? ex))).parts.2.trans bytes⟩
    exact (List.getElem?_append_left (List.getElem?_eq_some_iff.mp ex).1).trans ex

/-- The driver reads an answer. -/
lemma Memory.consume (lt : t.consumed < t.used.length) : Memory { t with consumed := t.consumed + 1 } := by
  have sub : t.read ⊆ t.answered.take (t.consumed + 1) :=
    (List.take_prefix_take_left (Nat.le_succ _)).subset
  constructor
  case rings => exact h.rings.consume lt
  case placed => exact h.placed
  case separated => exact h.separated.mono sub
  case chains => exact fun i x live => h.chains i x fun m => live (sub m)
  case fresh => exact h.fresh
  case delivered => exact fun k a le => h.delivered k a (by simp only at le; omega)

end Steps

/-! ## The workers -/

/-- What a worker does stays so when further requests are made available. -/
lemma Carries.append {reqs : List Request} {W : Worker} (h : Carries reqs commits i W) (xs : List Request) :
    Carries (reqs ++ xs) commits i W := by
  have mono : ∀ x, reqs[i]? = some x → (reqs ++ xs)[i]? = some x := by
    intro x e
    rw [List.getElem?_append_left (List.getElem?_eq_some_iff.mp e).1, e]
  cases W with
  | queued req =>
    obtain ⟨x, e, rest⟩ := h
    exact ⟨x, mono x e, rest⟩
  | finished req ret =>
    obtain ⟨x, d, e, rest⟩ := h
    exact ⟨x, d, mono x e, rest⟩
  | idle => trivial
  | returning => trivial

/-- What a worker does stays so when another request takes effect. -/
lemma Carries.commit {reqs : List Request} {W : Worker} {k : IoCommit} (h : Carries reqs commits i W)
    (ne : W.req?.isSome → k.id ≠ i) : Carries reqs (commits ++ [k]) i W := by
  cases W with
  | queued req =>
    obtain ⟨x, e, io, new⟩ := h
    refine ⟨x, e, io, ?_⟩
    intro c hc
    rcases List.mem_append.mp hc with hc | hc
    · exact new c hc
    · rw [List.mem_singleton.mp hc]
      exact ne rfl
  | finished req ret =>
    obtain ⟨x, d, e, ret, done, mem⟩ := h
    exact ⟨x, d, e, ret, done, List.mem_append_left _ mem⟩
  | idle => trivial
  | returning => trivial

section Workers
variable {s' : VirtioBlockDevice} {ctl : Ctl (Fin virtioBlkMaxQueueNum)} (h : Ledger t commits)
include h

/-- A step that leaves the workers and the used ring alone. -/
lemma Ledger.keep (dev : c'.s.dev = t.c.s.dev) (used : c'.s.used = t.c.s.used)
    (popped : c'.s.popped = t.c.s.popped) : Ledger { t with c := c' } commits := by
  have eu : ({ t with c := c' } : Traffic).used = t.used := by simp only [Traffic.used, used]
  have ep : ({ t with c := c' } : Traffic).popped = t.popped := by simp only [Traffic.popped, popped]
  constructor
  case once =>
    rw [ep]
    simp only [Traffic.inFlight, dev]
    exact h.once
  case distinct =>
    simp only [dev]
    exact h.distinct
  case workers =>
    simp only [dev]
    exact h.workers
  case heads =>
    rw [eu]
    exact h.heads
  case pops =>
    rw [ep]
    simp only [popped]
    exact h.pops
  case committed =>
    rw [ep]
    exact h.committed

/-- A free worker takes over the next request. -/
lemma Ledger.pop (e : t.reqs[t.popped]? = some x) (idle : t.c.s.dev.workers w = .idle)
    (workers : s'.dev.workers = Function.update t.c.s.dev.workers w (.queued x.io))
    (used : s'.used = t.c.s.used) (popped : s'.popped = (0, x.head) :: t.c.s.popped) :
    Ledger { t with c := ⟨s', ctl⟩, owner := Function.update t.owner w t.popped } commits := by
  have len : s'.popped.length = t.popped + 1 := by
    rw [popped]
    rfl
  constructor
  case once =>
    have sum := counts_update t.c.s.dev.workers t.owner w (.queued x.io) t.popped
    rw [idle, ← workers] at sum
    change _ + 0 = t.inFlight + {t.popped} at sum
    change (∑ j, (s'.dev.workers j).counts (Function.update t.owner w t.popped j)) +
      (t.answered : Multiset Nat) = Multiset.range s'.popped.length
    rw [add_zero] at sum
    rw [sum, len, Multiset.range_succ, ← Multiset.singleton_add, ← h.once]
    abel
  case distinct =>
    -- the number of the new request is larger than those of the others
    have other : ∀ v, v ≠ w → (t.c.s.dev.workers v).req?.isSome → t.owner v ≠ t.popped :=
      fun v _ some => (h.busy some).1.ne
    intro v v' hv hv' eq
    simp only [workers, Function.update_apply] at hv hv' eq
    split at eq
    · split at eq
      · simp_all
      · rename_i ev ev'
        rw [if_neg ev'] at hv'
        exact absurd eq.symm (other v' ev' hv')
    · rename_i ev
      rw [if_neg ev] at hv
      split at eq
      · exact absurd eq (other v ev hv)
      · rename_i ev'
        rw [if_neg ev'] at hv'
        exact h.distinct v v' hv hv' eq
  case workers =>
    intro v
    simp only [workers, Function.update_apply]
    split
    · exact ⟨x, e, rfl, fun c hc => (h.committed c hc).ne⟩
    · exact h.workers v
  case heads =>
    simp only [Traffic.used, used]
    exact h.heads
  case pops =>
    change (s'.popped.map _).reverse = t.avail.take s'.popped.length
    rw [popped, List.map_cons, List.reverse_cons, h.pops, ← popped, len, List.take_add_one, Traffic.avail,
      List.getElem?_map, e]
    rfl
  case committed =>
    intro c hc
    have lt := h.committed c hc
    change c.id < s'.popped.length
    omega

/-- A worker goes on with its request. -/
lemma Ledger.move {X : Worker} {answers : List (Nat × List UInt8)} {commits' : List IoCommit}
    (workers : s'.dev.workers = Function.update t.c.s.dev.workers w X)
    (popped : s'.popped = t.c.s.popped)
    (busy : X.req?.isSome → (t.c.s.dev.workers w).req?.isSome)
    (counts : X.counts (t.owner w) + ((answers.map fun a => a.1 : List Nat) : Multiset Nat) =
      (t.c.s.dev.workers w).counts (t.owner w) + (t.answered : Multiset Nat))
    (carries : Carries t.reqs commits' (t.owner w) X)
    (others : ∀ v, v ≠ w → Carries t.reqs commits' (t.owner v) (t.c.s.dev.workers v))
    (heads : List.Forall₂ (fun h a => ∃ x, t.reqs[a.1]? = some x ∧ x.head = h)
      (s'.used.map fun u => u.head).reverse answers)
    (committed : ∀ c ∈ commits', c.id < t.popped) :
    Ledger { t with c := ⟨s', ctl⟩, answers } commits' := by
  have ep : s'.popped.length = t.popped := congrArg List.length popped
  have was : ∀ v, (s'.dev.workers v).req?.isSome → (t.c.s.dev.workers v).req?.isSome := by
    intro v some
    rw [workers, Function.update_apply] at some
    split at some
    · rename_i e
      rw [e]
      exact busy some
    · exact some
  constructor
  case once =>
    have sum := counts_update t.c.s.dev.workers t.owner w X (t.owner w)
    rw [Function.update_eq_self, ← workers] at sum
    change (∑ j, (s'.dev.workers j).counts (t.owner j)) +
      ((answers.map fun a => a.1 : List Nat) : Multiset Nat) = Multiset.range s'.popped.length
    -- what the worker counted before is added on both sides
    apply add_right_cancel (b := (t.c.s.dev.workers w).counts (t.owner w))
    rw [add_right_comm, sum, add_assoc, counts, ep, ← h.once]
    change t.inFlight + _ = _
    abel
  case distinct => exact fun v v' hv hv' => h.distinct v v' (was v hv) (was v' hv')
  case workers =>
    intro v
    simp only [workers, Function.update_apply]
    split
    · rename_i e
      rw [e]
      exact carries
    · rename_i ne
      exact others v ne
  case heads => exact heads
  case pops =>
    change (s'.popped.map _).reverse = t.avail.take s'.popped.length
    rw [popped]
    exact h.pops
  case committed =>
    intro c hc
    change c.id < s'.popped.length
    rw [ep]
    exact committed c hc

/-- The driver makes requests available. -/
lemma Ledger.publish {m : GuestMemMap} {xs : List Request} {seen : List (List Nat)}
    (le : t.popped ≤ t.avail.length) :
    Ledger { t with c.s.mem := m, reqs := t.reqs ++ xs, seen } commits where
  once := h.once
  distinct := h.distinct
  workers w := (h.workers w).append xs
  heads := by
    refine h.heads.imp ?_
    rintro head a ⟨x, e, rfl⟩
    exact ⟨x, (List.getElem?_append_left (List.getElem?_eq_some_iff.mp e).1).trans e, rfl⟩
  pops := by
    have take : ((t.reqs ++ xs).map fun x => x.head).take t.popped = t.avail.take t.popped := by
      rw [List.map_append]
      exact List.take_append_of_le_length le
    exact h.pops.trans take.symm
  committed := h.committed

end Workers

end Mvvmm.Block
