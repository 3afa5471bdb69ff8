import Mathlib.Data.List.Nodup
import Mathlib.Data.List.Perm.Basic
import Mathlib.Logic.Relation

/-!
# Linearizability

An object with sequential meaning `exec : σ → κ → σ × ρ` is used by many at once. Operations are numbered in
the order of their invocation; each takes effect at one moment between its invocation and its answer
(`Step.commit`), and commits may come in any order. `Linearization` says that a list of operations with their
results is a sequential run that explains what was answered, and that respects real time: an operation
answered before another was invoked does not come after it.

The order of the commits is such a run, in every reachable state (`run_inv`). A concurrent program
is linearizable if its steps are matched by steps of this system.
-/

namespace Linear
variable {σ κ ρ : Type*} {exec : σ → κ → σ × ρ} {s s₀ : σ}

/-- An operation that has taken effect: its number, what it was and what it returned. -/
structure Commit (κ ρ : Type*) where
  id : Nat
  op : κ
  result : ρ

/-- The meaning of operations carried out one after the other. -/
def execAll (exec : σ → κ → σ × ρ) : σ → List κ → σ × List ρ
  | s, [] => (s, [])
  | s, k :: ks =>
    let r := execAll exec (exec s k).1 ks
    (r.1, (exec s k).2 :: r.2)

/-- One operation after others. -/
lemma execAll_append {k : κ} {ks : List κ} :
    execAll exec s (ks ++ [k]) =
      ((exec (execAll exec s ks).1 k).1, (execAll exec s ks).2 ++ [(exec (execAll exec s ks).1 k).2]) := by
  induction ks generalizing s with
  | nil => rfl
  | cons k' ks ih => simp [execAll, ih]

/-- A result of a sequential run is the result of an operation in some state. -/
lemma mem_execAll {ks : List κ} {r : ρ} (h : r ∈ (execAll exec s ks).2) : ∃ s' k, r = (exec s' k).2 := by
  induction ks generalizing s with
  | nil => cases h
  | cons k ks ih =>
    rcases List.mem_cons.mp h with rfl | h
    · exact ⟨s, k, rfl⟩
    · exact ih h

/-- An object in use: its state, the operations invoked, for each of them those that had been answered when
it was invoked, the operations that have taken effect, and the answers. -/
structure Sys (σ κ ρ : Type*) where
  state : σ
  ops : List κ
  seen : List (List Nat)
  commits : List (Commit κ ρ)
  answers : List (Nat × ρ)

variable {y y' : Sys σ κ ρ}

/-- Nothing has been invoked yet. -/
def Sys.init (s : σ) : Sys σ κ ρ :=
  ⟨s, [], [], [], []⟩

/-- The numbers of the operations that have taken effect. -/
def Sys.committed (y : Sys σ κ ρ) : List Nat :=
  y.commits.map fun c => c.id

/-- The numbers of the operations that have been answered. -/
def Sys.answered (y : Sys σ κ ρ) : List Nat :=
  y.answers.map fun a => a.1

/-- The first operation was answered before the second was invoked. -/
def Sys.Before (y : Sys σ κ ρ) (i j : Nat) : Prop :=
  ∃ l, y.seen[j]? = some l ∧ i ∈ l

/-- An operation is invoked, takes effect, or is answered. -/
inductive Step (exec : σ → κ → σ × ρ) (y : Sys σ κ ρ) : Sys σ κ ρ → Prop where
  | invoke (k : κ) : Step exec y { y with ops := y.ops ++ [k], seen := y.seen ++ [y.answered] }
  | commit {i : Nat} {k : κ} (op : y.ops[i]? = some k) (new : i ∉ y.committed) :
    Step exec y { y with
      state := (exec y.state k).1, commits := y.commits ++ [⟨i, k, (exec y.state k).2⟩] }
  | answer {c : Commit κ ρ} (mem : c ∈ y.commits) (new : c.id ∉ y.answered) :
    Step exec y { y with answers := y.answers ++ [(c.id, c.result)] }

/-- A list of operations with their results is a sequential run from `s₀` to `s` that explains all answers,
and in which no operation comes after one that was invoked after its answer. -/
structure Linearization (exec : σ → κ → σ × ρ) (s₀ s : σ) (ops : List κ) (answers : List (Nat × ρ))
    (before : Nat → Nat → Prop) (order : List (Commit κ ρ)) : Prop where
  nodup : (order.map fun c => c.id).Nodup
  ops : ∀ c ∈ order, ops[c.id]? = some c.op
  run : execAll exec s₀ (order.map fun c => c.op) = (s, order.map fun c => c.result)
  explains : ∀ a ∈ answers, ∃ c ∈ order, c.id = a.1 ∧ c.result = a.2
  realTime : order.Pairwise fun c c' => ¬ before c'.id c.id

/-- What holds in every reachable state. -/
structure Inv (exec : σ → κ → σ × ρ) (s₀ : σ) (y : Sys σ κ ρ) : Prop where
  linear : Linearization exec s₀ y.state y.ops y.answers y.Before y.commits
  seen : ∀ l ∈ y.seen, l ⊆ y.answered
  length : y.seen.length = y.ops.length
  answered : y.answered.Nodup

/-- What has been answered has been committed. -/
lemma Inv.answered_subset (h : Inv exec s₀ y) : y.answered ⊆ y.committed := by
  intro i hi
  obtain ⟨a, ha, rfl⟩ := List.mem_map.mp hi
  obtain ⟨c, hc, e, -⟩ := h.linear.explains a ha
  exact List.mem_map.mpr ⟨c, hc, e⟩

/-- An operation that was answered before another was invoked has been answered. -/
lemma Inv.before_answered (h : Inv exec s₀ y) {i j : Nat} (b : y.Before i j) : i ∈ y.answered := by
  obtain ⟨l, e, hi⟩ := b
  exact h.seen l (List.mem_of_getElem? e) hi

/-- Nothing has happened at the beginning. -/
lemma inv_init : Inv exec s (Sys.init s) :=
  ⟨⟨List.nodup_nil, by simp [Sys.init], rfl, by simp [Sys.init], .nil⟩, by simp [Sys.init], rfl,
    List.nodup_nil⟩

/-- Every step keeps the order of the commits a linearization. -/
lemma inv_step (h : Inv exec s₀ y) (st : Step exec y y') : Inv exec s₀ y' := by
  cases st with
  | invoke k =>
    refine ⟨⟨h.linear.nodup, ?_, h.linear.run, h.linear.explains, ?_⟩, ?_, ?_, h.answered⟩
    · intro c hc
      have e := h.linear.ops c hc
      rw [List.getElem?_append_left (List.getElem?_eq_some_iff.mp e).1, e]
    · -- A committed operation was invoked earlier, so the new one is not behind it.
      refine h.linear.realTime.imp_of_mem ?_
      rintro c c' hc _ no ⟨l, e, hl⟩
      have lt := (List.getElem?_eq_some_iff.mp (h.linear.ops c hc)).1
      rw [← h.length] at lt
      rw [List.getElem?_append_left lt] at e
      exact no ⟨l, e, hl⟩
    · intro l hl
      rcases List.mem_append.mp hl with hl | hl
      · exact h.seen l hl
      · rw [List.mem_singleton.mp hl]
        exact List.Subset.refl _
    · simp [h.length]
  | @commit i k op new =>
    refine ⟨⟨?_, ?_, ?_, ?_, ?_⟩, h.seen, h.length, h.answered⟩
    · rw [List.map_append, List.map_singleton]
      exact h.linear.nodup.append (List.nodup_singleton i) (List.disjoint_singleton.mpr new)
    · intro c hc
      rcases List.mem_append.mp hc with hc | hc
      · exact h.linear.ops c hc
      · rw [List.mem_singleton.mp hc]
        exact op
    · rw [List.map_append, List.map_singleton, execAll_append, h.linear.run, List.map_append,
        List.map_singleton]
    · intro a ha
      obtain ⟨c, hc, e⟩ := h.linear.explains a ha
      exact ⟨c, List.mem_append_left _ hc, e⟩
    · -- The operation has not been answered, so it was not answered before any other was invoked.
      refine List.pairwise_append.mpr ⟨h.linear.realTime, List.pairwise_singleton _ _, ?_⟩
      intro c _ c' hc' before
      rw [List.mem_singleton.mp hc'] at before
      exact new (h.answered_subset (h.before_answered before))
  | @answer c mem new =>
    have sub : y.answered ⊆ y.answered ++ [c.id] := List.subset_append_left _ _
    have eq : (y.answers ++ [(c.id, c.result)]).map (fun a => a.1) = y.answered ++ [c.id] := by
      rw [List.map_append, List.map_singleton]
      rfl
    refine ⟨⟨h.linear.nodup, h.linear.ops, h.linear.run, ?_, h.linear.realTime⟩, ?_, h.length, ?_⟩
    · intro a ha
      rcases List.mem_append.mp ha with ha | ha
      · exact h.linear.explains a ha
      · rw [List.mem_singleton.mp ha]
        exact ⟨c, mem, rfl, rfl⟩
    · intro l hl
      simp only [Sys.answered, eq]
      exact List.Subset.trans (h.seen l hl) sub
    · simp only [Sys.answered, eq]
      exact h.answered.append (List.nodup_singleton _) (List.disjoint_singleton.mpr new)

/-- Several operations can be invoked one after the other. -/
lemma run_invoke (ks : List κ) : Relation.ReflTransGen (Step exec) y
    { y with ops := y.ops ++ ks, seen := y.seen ++ ks.map fun _ => y.answered } := by
  induction ks generalizing y with
  | nil =>
    simp only [List.append_nil, List.map_nil]
    exact .refl
  | cons k ks ih =>
    have rest := ih (y := { y with ops := y.ops ++ [k], seen := y.seen ++ [y.answered] })
    simp only [List.append_assoc, List.singleton_append] at rest
    exact rest.head (.invoke k)

/-- In every run the order of the commits is a linearization. -/
lemma run_inv (r : Relation.ReflTransGen (Step exec) (Sys.init s₀) y) : Inv exec s₀ y := by
  induction r with
  | refl => exact inv_init
  | tail _ st ih => exact inv_step ih st

end Linear
