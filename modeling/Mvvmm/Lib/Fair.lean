import Mvvmm.Lib.Run
import Mathlib.Data.Set.Finite.Lattice
import Mathlib.Order.Interval.Set.Basic

/-!
# Fair runs

What must happen at last. A `Trace` is an infinite run of a step function, in which any number of moments may
pass without an action. An action is weakly fair if it is taken when it stays enabled, strongly fair if it is taken
when it is enabled again and again (`WeaklyFair`, `StronglyFair`); weak fairness may be limited to the states
of a condition, outside which nobody has to take the action.

`t.LeadsTo P Q` says that after every state of `P` there is one of `Q`. The rule is `leadsTo_of_rank`: no action
leaves `P` but for `Q`, none raises the rank, and the helpful one, which fairness says is taken, lowers it. For a
strongly fair action there is `StronglyFair.leadsTo`.
-/

namespace Fair
open Run

variable {σ α ε : Type*} {step : σ → α → Except ε σ} {P Q R : σ → Prop} {a : α} {n : Nat}

/-- A guarded step succeeds if and only if the guard holds and the step does. -/
lemma guarded_eq_ok {guard : σ → α → Prop} [∀ s a, Decidable (guard s a)] {e : ε} {s s' : σ} :
    guarded step guard e s a = .ok s' ↔ guard s a ∧ step s a = .ok s' := by
  unfold guarded
  split
  · rename_i yes
    exact ⟨fun h => ⟨yes, h⟩, fun h => h.2⟩
  · rename_i no
    exact ⟨nofun, fun h => absurd h.1 no⟩

/-- The action can be taken. -/
def Enabled (step : σ → α → Except ε σ) (a : α) (s : σ) : Prop :=
  ∃ s', step s a = .ok s'

/-- An infinite run. -/
structure Trace (step : σ → α → Except ε σ) where
  state : Nat → σ
  act : Nat → Option α
  stay : ∀ n, act n = none → state (n + 1) = state n
  next : ∀ n a, act n = some a → step (state n) a = .ok (state (n + 1))

namespace Trace
variable (t : Trace step)

/-- An action that stays enabled, in states of the condition, is taken. -/
def WeaklyFair (G : σ → Prop) (a : α) : Prop :=
  ∀ n, (∀ m ≥ n, G (t.state m) ∧ Enabled step a (t.state m)) → ∃ m ≥ n, t.act m = some a

/-- An action that is enabled again and again is taken. -/
def StronglyFair (a : α) : Prop :=
  ∀ n, (∀ m ≥ n, ∃ k ≥ m, Enabled step a (t.state k)) → ∃ m ≥ n, t.act m = some a

/-- After every state of the first kind there is one of the second. -/
def LeadsTo (P Q : σ → Prop) : Prop :=
  ∀ n, P (t.state n) → ∃ m ≥ n, Q (t.state m)

variable {t}

/-- Every state of a run is reached, by actions that meet what all actions of the run meet. -/
lemma reach {guard : σ → α → Prop} (meets : ∀ n a, t.act n = some a → guard (t.state n) a) (n : Nat) :
    Reach step guard (t.state 0) (t.state n) := by
  induction n with
  | zero => exact .init
  | succ n ih =>
    cases e : t.act n with
    | none =>
      rw [t.stay n e]
      exact ih
    | some a => exact .step a ih (meets n a e) (t.next n a e)

/-- What every action keeps holds from then on. -/
lemma stable (keep : ∀ s a s', P s → step s a = .ok s' → P s') (h : P (t.state n)) :
    ∀ m ≥ n, P (t.state m) := by
  intro m hm
  induction m, hm using Nat.le_induction with
  | base => exact h
  | succ m _ ih =>
    cases e : t.act m with
    | none =>
      rw [t.stay m e]
      exact ih
    | some a => exact keep _ a _ ih (t.next m a e)

/-- What leads to something leads to what that leads to. -/
lemma LeadsTo.trans (h : t.LeadsTo P Q) (h' : t.LeadsTo Q R) : t.LeadsTo P R := by
  intro n hp
  obtain ⟨m, hm, hq⟩ := h n hp
  obtain ⟨k, hk, hr⟩ := h' m hq
  exact ⟨k, hm.trans hk, hr⟩

/-- What stays as long as the goal is not reached still holds when it is reached. -/
lemma LeadsTo.and (h : t.LeadsTo P Q)
    (keep : ∀ n b, P (t.state n) → ¬ Q (t.state n) → t.act n = some b → P (t.state (n + 1))) :
    t.LeadsTo P fun s => P s ∧ Q s := by
  intro n hp
  obtain ⟨m, hm, hq⟩ := h n hp
  obtain ⟨k, rfl⟩ := Nat.exists_eq_add_of_le hm
  -- the induction is on the moments that are left until the goal is reached
  induction k generalizing n with
  | zero => exact ⟨n, le_rfl, hp, hq⟩
  | succ k ih =>
    by_cases now : Q (t.state n)
    · exact ⟨n, le_rfl, hp, now⟩
    · have next : P (t.state (n + 1)) := by
        cases e : t.act n with
        | none =>
          rw [t.stay n e]
          exact hp
        | some b => exact keep n b hp now e
      obtain ⟨m, hm, both⟩ := ih (n + 1) next (by omega) (by rwa [show n + 1 + k = n + (k + 1) by omega])
      exact ⟨m, by omega, both⟩

/-- A finite number of things that are to happen and then stay have all happened at some moment. -/
lemma all_of_each {ι : Type*} [Finite ι] {P : ι → σ → Prop}
    (keep : ∀ i s a s', P i s → step s a = .ok s' → P i s') (each : ∀ i, ∃ m ≥ n, P i (t.state m)) :
    ∃ m ≥ n, ∀ i, P i (t.state m) := by
  choose m hm h using each
  obtain ⟨b, hb⟩ := Set.finite_range m |>.bddAbove
  refine ⟨max n b, le_max_left _ _, fun i => ?_⟩
  exact stable (keep i) (h i) _ ((hb ⟨i, rfl⟩).trans (le_max_right _ _))

/-- The rule: as long as the goal is not reached no action leaves the states of `P` or raises their rank, and
the action that fairness provides for lowers it. -/
lemma leadsTo_of_rank (rank : σ → Nat)
    (keep : ∀ n b, P (t.state n) → ¬ Q (t.state n) → t.act n = some b →
      Q (t.state (n + 1)) ∨ P (t.state (n + 1)) ∧ rank (t.state (n + 1)) ≤ rank (t.state n))
    (move : ∀ n, P (t.state n) → ¬ Q (t.state n) → t.act n = some a →
      Q (t.state (n + 1)) ∨ P (t.state (n + 1)) ∧ rank (t.state (n + 1)) < rank (t.state n))
    (taken : ∀ n, (∀ m ≥ n, P (t.state m) ∧ ¬ Q (t.state m)) → ∃ m ≥ n, t.act m = some a) :
    t.LeadsTo P Q := by
  intro n hp
  by_contra never
  have no : ∀ m ≥ n, ¬ Q (t.state m) := fun m hm hq => never ⟨m, hm, hq⟩
  have one : ∀ m ≥ n, P (t.state m) → P (t.state (m + 1)) ∧ rank (t.state (m + 1)) ≤ rank (t.state m) := by
    intro m hm hp
    cases e : t.act m with
    | none =>
      rw [t.stay m e]
      exact ⟨hp, le_rfl⟩
    | some b => exact (keep m b hp (no m hm) e).resolve_left (no _ (by omega))
  have all : ∀ m ≥ n, P (t.state m) := by
    intro m hm
    induction m, hm using Nat.le_induction with
    | base => exact hp
    | succ m hm ih => exact (one m hm ih).1
  have mono : ∀ m ≥ n, ∀ k ≥ m, rank (t.state k) ≤ rank (t.state m) := by
    intro m hm k hk
    induction k, hk using Nat.le_induction with
    | base => exact le_rfl
    | succ k hk ih => exact (one k (hm.trans hk) (all k (hm.trans hk))).2.trans ih
  -- The rank falls again and again, which it cannot.
  have fall : ∀ r, ∀ m ≥ n, rank (t.state m) = r → False := by
    intro r
    induction r using Nat.strong_induction_on with
    | h r ih =>
      intro m hm hr
      obtain ⟨k, hk, e⟩ := taken m fun k hk => ⟨all k (hm.trans hk), no k (hm.trans hk)⟩
      have lt := ((move k (all k (hm.trans hk)) (no k (hm.trans hk)) e).resolve_left (no _ (by omega))).2
      have le := mono m hm k hk
      exact ih _ (by omega) (k + 1) (by omega) rfl
  exact fall _ n le_rfl rfl

/-- The rule for a strongly fair action, which is enabled again and again as long as the goal is not reached. -/
lemma StronglyFair.leadsTo (fair : t.StronglyFair a) (rank : σ → Nat)
    (keep : ∀ n b, P (t.state n) → ¬ Q (t.state n) → t.act n = some b → b ≠ a →
      Q (t.state (n + 1)) ∨ P (t.state (n + 1)) ∧ rank (t.state (n + 1)) ≤ rank (t.state n))
    (move : ∀ n, P (t.state n) → ¬ Q (t.state n) → t.act n = some a →
      Q (t.state (n + 1)) ∨ P (t.state (n + 1)) ∧ rank (t.state (n + 1)) < rank (t.state n))
    (again : ∀ n, (∀ m ≥ n, P (t.state m) ∧ ¬ Q (t.state m)) → ∃ m ≥ n, Enabled step a (t.state m)) :
    t.LeadsTo P Q := by
  refine leadsTo_of_rank rank ?_ move ?_
  · intro n b hp hq e
    by_cases own : b = a
    · subst own
      exact (move n hp hq e).imp_right fun h => ⟨h.1, h.2.le⟩
    · exact keep n b hp hq e own
  · intro n stays
    exact fair n fun m hm => again m fun k hk => stays k (hm.trans hk)

/-- What is tested of the outcome of the first actions holds of the state after them. -/
lemma test_state {step' : σ → α → Except ε σ} {as : List α} {s₀ : σ} {m : Nat}
    (states : ∀ m, (as.take m).foldlM step' s₀ = .ok (t.state m)) (test : σ → Bool)
    (h : ((as.take m).foldlM step' s₀).toOption.any test = true) : test (t.state m) = true := by
  rw [states m] at h
  exact h

/-- After a list of actions its outcome stays. -/
lemma last_state {as : List α} {s₀ s : σ} (states : ∀ m, (as.take m).foldlM step s₀ = .ok (t.state m))
    (ends : as.foldlM step s₀ = .ok s) {m : Nat} (hm : as.length ≤ m) : t.state m = s := by
  have eq := states m
  rw [List.take_of_length_le hm, ends] at eq
  exact (Except.ok.inj eq).symm

/-- An action that is never enabled again need not be taken. -/
lemma StronglyFair.of_dead (k : Nat) (dead : ∀ m ≥ k, ¬ Enabled step a (t.state m)) : t.StronglyFair a := by
  intro n en
  obtain ⟨m, hm, yes⟩ := en (max n k) (le_max_left n k)
  exact absurd yes (dead m ((le_max_right n k).trans hm))

/-- A run of the step function that refuses an action outside the guard is a run of the step function itself. -/
def ofGuarded {guard : σ → α → Prop} [∀ s a, Decidable (guard s a)] {e : ε} (t : Trace (guarded step guard e)) :
    Trace step where
  state := t.state
  act := t.act
  stay := t.stay
  next n a some := (guarded_eq_ok.mp (t.next n a some)).2

/-- The actions of a guarded trace meet the guard. -/
lemma ofGuarded_meets {guard : σ → α → Prop} [∀ s a, Decidable (guard s a)] {e : ε}
    (t : Trace (guarded step guard e)) (n : Nat) (a : α) (some : t.ofGuarded.act n = some a) :
    guard (t.ofGuarded.state n) a :=
  (guarded_eq_ok.mp (t.next n a some)).1

end Trace

/-- A list of actions that all succeed, after which nothing happens, is an infinite run. -/
lemma exists_trace {as : List α} {s₀ s : σ} (h : as.foldlM step s₀ = .ok s) :
    ∃ t : Trace step, ∀ m, (as.take m).foldlM step s₀ = .ok (t.state m) := by
  induction as generalizing s₀ with
  | nil =>
    refine ⟨⟨fun _ => s₀, fun _ => none, fun _ _ => rfl, fun _ _ e => by cases e⟩, fun m => ?_⟩
    rw [List.take_nil]
    rfl
  | cons a as ih =>
    rw [List.foldlM_cons] at h
    cases e : step s₀ a with
    | error x =>
      rw [e] at h
      cases h
    | ok s₁ =>
      rw [e] at h
      obtain ⟨t, states⟩ := ih h
      have zero : s₁ = t.state 0 := Except.ok.inj (states 0)
      refine ⟨⟨fun n => n.casesOn s₀ t.state, fun n => n.casesOn (some a) t.act, ?_, ?_⟩, ?_⟩
      · intro n none
        cases n with
        | zero => cases none
        | succ n => exact t.stay n none
      · intro n b some
        cases n with
        | zero =>
          cases some
          exact e.trans (congrArg _ zero)
        | succ n => exact t.next n b some
      · intro m
        cases m with
        | zero => rfl
        | succ m =>
          rw [List.take_succ_cons, List.foldlM_cons]
          change (step s₀ a >>= fun s => (as.take m).foldlM step s) = .ok (t.state m)
          rw [e]
          exact states m

variable (step) in
/-- A list of actions that all meet the guard, after which some actions are blocked, is a run that is fair to them. -/
lemma exists_fair_trace (guard : σ → α → Prop) [∀ s a, Decidable (guard s a)] (e : ε) (as : List α) (s₀ : σ)
    (acts : List α) (h : (as.foldlM (guarded step guard e) s₀).toOption.any
      (fun s => acts.all fun a => (step s a).toOption.isNone) = true) :
    ∃ t : Trace step, (∀ m, (as.take m).foldlM (guarded step guard e) s₀ = .ok (t.state m)) ∧
      (∀ n a, t.act n = some a → guard (t.state n) a) ∧ ∀ a ∈ acts, t.StronglyFair a := by
  cases ends : as.foldlM (guarded step guard e) s₀ with
  | error x =>
    rw [ends] at h
    cases h
  | ok s =>
    rw [ends] at h
    obtain ⟨t, states⟩ := exists_trace ends
    refine ⟨t.ofGuarded, states, t.ofGuarded_meets, fun a ha => .of_dead as.length fun m hm ⟨s', next⟩ => ?_⟩
    have none : (step s a).toOption.isNone = true := List.all_eq_true.mp h a ha
    rw [show t.ofGuarded.state m = s from Trace.last_state states ends hm] at next
    rw [next] at none
    cases none

end Fair
