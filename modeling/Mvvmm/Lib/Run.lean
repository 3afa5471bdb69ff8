import Mathlib.Tactic.Common

/-!
# Runs of a step function

A system is a step function `step : σ → α → Except ε σ`, where an action that fails or is not
enabled gives an error. `Reach step guard s₀ s` says that `s` is reached from `s₀` by actions that all
meet `guard` in the state they are taken in; with a guard that is always true these are all runs.
Every invariant is proved through `Reach.invariant`, and a concrete run enters through
`Reach.of_foldlM`. `Numbered` are the runs of a relation that counts its steps.
-/

namespace Run
variable {σ α ε : Type*} {step : σ → α → Except ε σ} {guard guard' : σ → α → Prop} {s₀ s s' : σ}

/-- The states a run reaches by actions that meet the guard. -/
inductive Reach (step : σ → α → Except ε σ) (guard : σ → α → Prop) (s₀ : σ) : σ → Prop where
  | init : Reach step guard s₀ s₀
  | step {s s' : σ} (a : α) :
    Reach step guard s₀ s → guard s a → step s a = .ok s' → Reach step guard s₀ s'

/-- A run of exactly `n` steps, which are numbered from `k` on. -/
inductive Numbered (step : Nat → σ → σ → Prop) : Nat → Nat → σ → σ → Prop where
  | done {k : Nat} {s : σ} : Numbered step k 0 s s
  | next {k n : Nat} {s s₁ s' : σ} (first : step k s s₁) (rest : Numbered step (k + 1) n s₁ s') :
    Numbered step k (n + 1) s s'

/-- The guard of the unrestricted runs. -/
def always (_ : σ) (_ : α) : Prop := True

/-- A property of the initial state that every allowed step keeps holds in every reached state. -/
lemma Reach.invariant {I : σ → Prop} (init : I s₀)
    (keep : ∀ s a s', Reach step guard s₀ s → I s → guard s a → step s a = .ok s' → I s')
    (r : Reach step guard s₀ s) : I s := by
  induction r with
  | init => exact init
  | step a r g e ih => exact keep _ a _ r ih g e

/-- A run under a guard is one under a weaker guard. -/
lemma Reach.mono (h : ∀ s a, guard s a → guard' s a) (r : Reach step guard s₀ s) :
    Reach step guard' s₀ s := by
  induction r with
  | init => exact .init
  | step a _ g e ih => exact .step a ih (h _ a g) e

/-- A run followed by a run. -/
lemma Reach.trans (r : Reach step guard s₀ s) (r' : Reach step guard s s') :
    Reach step guard s₀ s' := by
  induction r' with
  | init => exact r
  | step a _ g e ih => exact .step a ih g e

/-- A list of actions that all succeed is an unrestricted run. -/
lemma Reach.of_foldlM {as : List α} (h : as.foldlM step s₀ = .ok s) : Reach step always s₀ s := by
  induction as generalizing s₀ with
  | nil =>
    cases h
    exact .init
  | cons a as ih =>
    rw [List.foldlM_cons] at h
    cases e : step s₀ a with
    | error x =>
      rw [e] at h
      cases h
    | ok s₁ =>
      rw [e] at h
      exact (Reach.step a .init trivial e).trans (ih h)

/-- The state after some actions, if they can be taken, is reached. -/
lemma Reach.of_getD (as : List α) : Reach step always s₀ ((as.foldlM step s₀).toOption.getD s₀) := by
  cases e : as.foldlM step s₀ with
  | error x => exact .init
  | ok s => exact .of_foldlM e

/-- The system that also keeps a list, latest first, of what its actions have to note. -/
def noted {β : Type*} (step : σ → α → Except ε σ) (note : α → Option β) (t : σ × List β) (a : α) :
    Except ε (σ × List β) :=
  (step t.1 a).map fun s => (s, (note a).toList ++ t.2)

/-- A step with notes is a step, and notes what its action has to. -/
lemma noted_eq_ok {β : Type*} {note : α → Option β} {t t' : σ × List β} {a : α}
    (h : noted step note t a = .ok t') :
    ∃ s', step t.1 a = .ok s' ∧ t' = (s', (note a).toList ++ t.2) := by
  cases e : step t.1 a with
  | error x => simp [noted, e, Except.map] at h
  | ok s' =>
    simp only [noted, e, Except.map, Except.ok.injEq] at h
    exact ⟨s', rfl, h.symm⟩

/-- The step function that refuses an action outside the guard. -/
def guarded (step : σ → α → Except ε σ) (guard : σ → α → Prop) [∀ s a, Decidable (guard s a)] (e : ε)
    (s : σ) (a : α) : Except ε σ :=
  if guard s a then step s a else .error e

instance (s : σ) (a : α) : Decidable (always s a) :=
  .isTrue trivial

/-- A list of actions that all meet the guard and succeed is a run. -/
lemma Reach.of_guarded [∀ s a, Decidable (guard s a)] {e : ε} {as : List α}
    (h : as.foldlM (guarded step guard e) s₀ = .ok s) : Reach step guard s₀ s := by
  refine (Reach.of_foldlM h).invariant (I := Reach step guard s₀) .init ?_
  intro s a s' _ r _ h
  unfold guarded at h
  split at h
  · exact .step a r (by assumption) h
  · cases h

/-- A list of actions whose outcome passes a test reaches a state that passes it. -/
lemma Reach.of_test (step : σ → α → Except ε σ) (guard : σ → α → Prop)
    [∀ s a, Decidable (guard s a)] (e : ε) (s₀ : σ) (as : List α) (test : σ → Bool)
    (h : (as.foldlM (guarded step guard e) s₀).toOption.any test = true) :
    ∃ s, Reach step guard s₀ s ∧ test s = true := by
  cases r : as.foldlM (guarded step guard e) s₀ with
  | error x =>
    rw [r] at h
    cases h
  | ok s =>
    rw [r] at h
    exact ⟨s, .of_guarded r, h⟩

end Run
