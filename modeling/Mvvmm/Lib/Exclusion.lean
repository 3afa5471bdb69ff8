import Mathlib.Order.WellFounded
import Mathlib.Tactic.Common

/-!
# Mutual exclusion

Threads that lock and unlock mutexes, seen from outside: a `View` says who holds each mutex, and which critical sections
each thread is in, as far as its program counter tells. `Step` is all that a step of one thread can do to them. It may
unlock a mutex that it does not hold; as long as it only unlocks the mutex of a section that it is in, the section stays
guarded (`Guards.step`).

The second part is about threads that wait for each other. A set of threads is stuck if each of them waits for one of the
set; a single thread that waits for itself is such a set. A rank that goes down along every two waits in a row rules this
out.
-/

namespace Exclusion
variable {M T : Type*}

/-- Who holds the mutexes, and which critical sections the threads are in. -/
structure View (M T : Type*) where
  holder : M → Option T
  inside : T → M → Prop

/-- Who is in the critical section of the mutex holds it. -/
def View.Guards (v : View M T) (m : M) : Prop :=
  ∀ t, v.inside t m → v.holder m = some t

/-- Who holds a mutex is in its critical section. -/
def View.Held (v : View M T) : Prop :=
  ∀ m t, v.holder m = some t → v.inside t m

/-- All that a step can do: nothing to the mutexes, or a thread locks one that is free, or it unlocks one. The index is the
mutex that is unlocked and the thread that does so. -/
inductive Step (v v' : View M T) : Option (M × T) → Prop where
  | keep (holder : ∀ m, v'.holder m = v.holder m) (inside : ∀ t m, v'.inside t m ↔ v.inside t m) : Step v v' none
  | lock {m : M} {t : T} (free : v.holder m = none) (own : v'.holder m = some t)
    (other : ∀ m' ≠ m, v'.holder m' = v.holder m') (others : ∀ t' ≠ t, ∀ m', v'.inside t' m' ↔ v.inside t' m')
    (inside : ∀ m', v'.inside t m' ↔ v.inside t m' ∨ m' = m) : Step v v' none
  | unlock {m : M} {t : T} (own : v'.holder m = none) (other : ∀ m' ≠ m, v'.holder m' = v.holder m')
    (others : ∀ t' ≠ t, ∀ m', v'.inside t' m' ↔ v.inside t' m')
    (inside : ∀ m', v'.inside t m' ↔ v.inside t m' ∧ m' ≠ m) : Step v v' (some (m, t))

variable {v v' : View M T} {m : M} {t : T} {r : Option (M × T)}

/-- A thread that stays in its sections does nothing to the mutexes. -/
lemma Step.stay (holder : ∀ m, v'.holder m = v.holder m) (others : ∀ t' ≠ t, ∀ m, v'.inside t' m ↔ v.inside t' m)
    (inside : ∀ m, v'.inside t m ↔ v.inside t m) : Step v v' none := by
  refine .keep holder fun t' m => ?_
  by_cases e : t' = t
  · rw [e]
    exact inside m
  · exact others t' e m

/-- A section stays guarded if its mutex is only unlocked by a thread that is in it. -/
lemma View.Guards.step (h : v.Guards m) (st : Step v v' r) (disciplined : ∀ t, r = some (m, t) → v.inside t m) :
    v'.Guards m := by
  intro t' inside'
  cases st with
  | keep holder inside => rw [holder, h t' ((inside t' m).mp inside')]
  | @lock m₀ t free own other others inside =>
    by_cases e : m = m₀
    · -- Nobody was in the section.
      subst e
      have nobody : ∀ t, ¬ v.inside t m := fun t ht => by
        rw [h t ht] at free
        cases free
      by_cases et : t' = t
      · rw [et, own]
      · exact absurd ((others t' et m).mp inside') (nobody t')
    · rw [other m e]
      by_cases et : t' = t
      · subst et
        exact h t' (((inside m).mp inside').resolve_right e)
      · exact h t' ((others t' et m).mp inside')
  | @unlock m₀ t own other others inside =>
    by_cases e : m = m₀
    · -- Only the thread that unlocks was in the section, and it has left.
      subst e
      have alone := h t (disciplined t rfl)
      by_cases et : t' = t
      · subst et
        exact absurd rfl ((inside m).mp inside').2
      · have two := h t' ((others t' et m).mp inside')
        rw [alone] at two
        exact absurd (Option.some.inj two).symm et
    · rw [other m e]
      by_cases et : t' = t
      · subst et
        exact h t' ((inside m).mp inside').1
      · exact h t' ((others t' et m).mp inside')

/-- Whoever locks a mutex enters its section, and who unlocks one need not have held it. -/
lemma View.Held.step (h : v.Held) (st : Step v v' r) : v'.Held := by
  intro m t' held
  cases st with
  | keep holder inside => exact (inside t' m).mpr (h m t' (by rw [← holder, held]))
  | @lock m₀ t free own other others inside =>
    by_cases e : m = m₀
    · subst e
      obtain rfl := Option.some.inj (own.symm.trans held)
      exact (inside m).mpr (.inr rfl)
    · have before := h m t' ((other m e).symm.trans held)
      by_cases et : t' = t
      · subst et
        exact (inside m).mpr (.inl before)
      · exact (others t' et m).mpr before
  | @unlock m₀ t own other others inside =>
    by_cases e : m = m₀
    · subst e
      cases own.symm.trans held
    · have before := h m t' ((other m e).symm.trans held)
      by_cases et : t' = t
      · subst et
        exact (inside m).mpr ⟨before, e⟩
      · exact (others t' et m).mpr before

/-- A mutex that is held becomes free if and only if the step unlocks it. -/
lemma Step.frees_iff (st : Step v v' r) (held : v.holder m ≠ none) : r.map Prod.fst = some m ↔ v'.holder m = none := by
  cases st with
  | keep holder _ =>
    rw [holder]
    exact iff_of_false (fun h => by cases h) held
  | @lock m₀ t free own other _ _ =>
    refine iff_of_false (fun h => by cases h) ?_
    by_cases e : m = m₀
    · exact absurd (e ▸ free) held
    · rw [other m e]
      exact held
  | @unlock m₀ t own other _ _ =>
    by_cases e : m = m₀
    · subst e
      exact iff_of_true rfl own
    · rw [other m e]
      exact iff_of_false (fun h => e (Option.some.inj h).symm) held

end Exclusion

namespace Wait
variable {T : Type*} {waits : T → T → Prop} {S : Set T} {rank : T → Nat}

/-- Every thread of the set waits for one of the set. -/
def Stuck (waits : T → T → Prop) (S : Set T) : Prop :=
  ∀ t ∈ S, ∃ t' ∈ S, waits t t'

/-- No set of threads is stuck, if a rank goes down along every two waits in a row. -/
lemma not_stuck_of_rank (down : ∀ t t' t'', waits t t' → waits t' t'' → rank t' < rank t)
    (nonempty : S.Nonempty) : ¬ Stuck waits S := by
  intro stuck
  -- a thread of least rank waits for one that waits as well
  obtain ⟨t, ht, least⟩ := (measure rank).wf.has_min S nonempty
  obtain ⟨t', ht', w⟩ := stuck t ht
  obtain ⟨t'', -, w'⟩ := stuck t' ht'
  exact least t' ht' (down t t' t'' w w')

/-- Nor does a thread wait for itself. -/
lemma not_waits_self_of_rank (down : ∀ t t' t'', waits t t' → waits t' t'' → rank t' < rank t) (t : T) :
    ¬ waits t t :=
  fun w => Nat.lt_irrefl _ (down t t t w w)

end Wait
