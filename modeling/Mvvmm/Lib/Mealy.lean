import Mathlib.Data.List.Basic
import Mathlib.Tactic.Common

/-!
# Machines with output

A Mealy machine is a step function `step : σ → α → β × σ`, which takes an input and gives an output and the next
state. `run` feeds it a list of inputs. Two machines are compared by a relation between their states:
`run_sim` is for machines that go step by step, and `run_stutter` for one that takes some inputs
without any output, which the other one does not see. `Along` says that all inputs of a run meet a condition in the
state they come in, and `run_skip` compares a run with the one that leaves some of its inputs out.
-/

namespace Mealy
variable {σ τ α β γ δ : Type*} {step : σ → α → β × σ} {s : σ} {t : τ} {a : α} {as : List α}

/-- The outputs for a list of inputs, and the state afterwards. -/
def run (step : σ → α → β × σ) : σ → List α → List β × σ
  | s, [] => ([], s)
  | s, a :: as => ((step s a).1 :: (run step (step s a).2 as).1, (run step (step s a).2 as).2)

/-- Without inputs nothing happens. -/
@[simp]
lemma run_nil : run step s [] = ([], s) := rfl

/-- The first input is served first. -/
@[simp]
lemma run_cons :
    run step s (a :: as) = ((step s a).1 :: (run step (step s a).2 as).1, (run step (step s a).2 as).2) := rfl

/-- One more input. -/
lemma run_concat : (run step s (as ++ [a])).2 = (step (run step s as).2 a).2 := by
  induction as generalizing s with
  | nil => rfl
  | cons b as ih => exact ih

/-- Its output comes last. -/
lemma run_concat_fst : (run step s (as ++ [a])).1 = (run step s as).1 ++ [(step (run step s as).2 a).1] := by
  induction as generalizing s with
  | nil => rfl
  | cons b as ih => exact congrArg _ ih

/-- Every output is that of its input in the state after the inputs before. -/
lemma run_getElem? {k : Nat} :
    (run step s as).1[k]? = as[k]?.map fun a => (step (run step s (as.take k)).2 a).1 := by
  induction as generalizing s k with
  | nil => simp
  | cons a as ih =>
    cases k with
    | zero => simp
    | succ k => simp [ih]

section Simulation
variable {step' : τ → γ → δ × τ} {f : α → γ} {g : δ → β}

/-- A machine whose states stay related to those of another one, and that gives the outputs of the other one, does so
over whole runs. Inputs and outputs may be translated. -/
lemma run_sim {R : σ → τ → Prop}
    (keep : ∀ s t, ∀ a ∈ as, R s t → (step s a).1 = g (step' t (f a)).1 ∧ R (step s a).2 (step' t (f a)).2) (h : R s t) :
    (run step s as).1 = (run step' t (as.map f)).1.map g ∧ R (run step s as).2 (run step' t (as.map f)).2 := by
  induction as generalizing s t with
  | nil => exact ⟨rfl, h⟩
  | cons a as ih =>
    obtain ⟨out, rel⟩ := keep s t a (by simp) h
    obtain ⟨outs, rel'⟩ := ih (fun s t a ha => keep s t a (by simp [ha])) rel
    exact ⟨by rw [List.map_cons, run_cons, run_cons, List.map_cons, out, outs], rel'⟩

end Simulation

section Stutter
variable {step : σ → α → List β × σ} {step' : τ → γ → List β × τ} {f : α → Option γ}

/-- A machine that gives the outputs of another one for the inputs that the other one sees, and none for the rest. -/
lemma run_stutter {R : σ → τ → Prop}
    (skip : ∀ s t, ∀ a ∈ as, f a = none → R s t → (step s a).1 = [] ∧ R (step s a).2 t)
    (keep : ∀ s t, ∀ a ∈ as, ∀ c, f a = some c → R s t →
      (step s a).1 = (step' t c).1 ∧ R (step s a).2 (step' t c).2) (h : R s t) :
    (run step s as).1.flatten = (run step' t (as.filterMap f)).1.flatten ∧
      R (run step s as).2 (run step' t (as.filterMap f)).2 := by
  induction as generalizing s t with
  | nil => exact ⟨rfl, h⟩
  | cons a as ih =>
    have ih' : ∀ {s t}, R s t → _ := fun {s t} => @ih s t (fun s t a ha => skip s t a (by simp [ha]))
      (fun s t a ha => keep s t a (by simp [ha]))
    cases e : f a with
    | none =>
      obtain ⟨out, rel⟩ := skip s t a (by simp) e h
      rw [List.filterMap_cons_none e, run_cons]
      simpa [out] using ih' rel
    | some c =>
      obtain ⟨out, rel⟩ := keep s t a (by simp) c e h
      obtain ⟨outs, rel'⟩ := ih' rel
      rw [List.filterMap_cons_some e, run_cons, run_cons]
      exact ⟨by rw [List.flatten_cons, List.flatten_cons, out, outs], rel'⟩

end Stutter

section Along
variable {P : σ → α → Prop}

/-- Every input of a run meets the condition in the state it comes in. -/
def Along (step : σ → α → β × σ) (P : σ → α → Prop) : σ → List α → Prop
  | _, [] => True
  | s, a :: as => P s a ∧ Along step P (step s a).2 as

/-- A condition along a run holds at each input. -/
lemma along_iff : Along step P s as ↔ ∀ k a, as[k]? = some a → P (run step s (as.take k)).2 a := by
  induction as generalizing s with
  | nil => simp [Along]
  | cons b as ih =>
    rw [Along, ih]
    constructor
    · rintro ⟨first, rest⟩ k a h
      cases k with
      | zero =>
        obtain rfl := Option.some.inj h
        exact first
      | succ k => exact rest k a h
    · intro h
      exact ⟨h 0 b rfl, fun k a hk => h (k + 1) a hk⟩

/-- A condition along a run holds along its beginning. -/
lemma Along.take (h : Along step P s as) (k : Nat) : Along step P s (as.take k) := by
  rw [along_iff] at h ⊢
  intro i a hi
  rw [List.getElem?_take] at hi
  split at hi
  · rename_i lt
    rw [List.take_take, Nat.min_eq_left (Nat.le_of_lt lt)]
    exact h i a hi
  · cases hi

/-- A run keeps its relation to the run without some of the inputs, if these keep it and the others do on both sides. -/
lemma run_skip {R : σ → σ → Prop} {p : α → Bool} {t : σ} (along : Along step P s as)
    (skip : ∀ s t a, p a = false → P s a → R s t → R (step s a).2 t)
    (keep : ∀ s t a, p a = true → R s t → R (step s a).2 (step t a).2) (h : R s t) :
    R (run step s as).2 (run step t (as.filter p)).2 := by
  induction as generalizing s t with
  | nil => exact h
  | cons a as ih =>
    cases e : p a with
    | false =>
      rw [List.filter_cons_of_neg (by simp [e])]
      exact ih along.2 (skip s t a e along.1 h)
    | true =>
      rw [List.filter_cons_of_pos e]
      exact ih along.2 (keep s t a e h)

end Along

end Mealy
