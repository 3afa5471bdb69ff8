import Mathlib.Data.Fintype.Card

/-!
# Deterministic iterations

An iteration goes from an element to the next by a partial function, until there is none. `Trail next a l` says
that the iteration from `a` visits the elements of `l` after it and then ends. As the iteration is deterministic,
it never ends once it visits an element twice; so a trail has no duplicates, and if the elements that can come
next are at most `n`, it has at most `n` of them (`Trail.length_le`).

`IsLoop loop step` is a loop with a bound on its rounds. If its states follow an iteration that can visit at most `N`
elements, a bound above `N` is as good as any other: what the loop returns with some bound, it returns with that one
(`IsLoop.of_rounds`).
-/

namespace Iter
variable {α : Type*} {next : α → Option α} {a b : α} {l l' : List α}

/-- The iteration from `a` visits the elements of the list, in this order, and then ends. -/
inductive Trail (next : α → Option α) : α → List α → Prop where
  | stop {a : α} (h : next a = none) : Trail next a []
  | step {a b : α} {l : List α} (h : next a = some b) (rest : Trail next b l) : Trail next a (b :: l)

/-- There is one trail only from an element on. -/
lemma Trail.unique (t : Trail next a l) (t' : Trail next a l') : l = l' := by
  induction t generalizing l' with
  | stop h =>
    cases t' with
    | stop _ => rfl
    | step h' _ => cases h.symm.trans h'
  | step h _ ih =>
    cases t' with
    | stop h' => cases h.symm.trans h'
    | step h' rest' =>
      obtain rfl := Option.some.inj (h.symm.trans h')
      rw [ih rest']

/-- What an element of a trail is followed by. -/
lemma Trail.drop {s : List α} (t : Trail next a (s ++ b :: l)) : Trail next b l := by
  induction s generalizing a with
  | nil =>
    cases t with
    | step _ rest => exact rest
  | cons x s ih =>
    cases t with
    | step _ rest => exact ih rest

/-- An iteration that ends does not come back to where it was. -/
lemma Trail.not_mem (t : Trail next a l) : a ∉ l := by
  intro mem
  obtain ⟨s, r, rfl⟩ := List.append_of_mem mem
  have same := congrArg List.length (t.unique t.drop)
  simp only [List.length_append, List.length_cons] at same
  omega

/-- A trail that ends meets no element twice. -/
lemma Trail.nodup (t : Trail next a l) : l.Nodup := by
  induction t with
  | stop _ => exact List.nodup_nil
  | step _ rest ih => exact List.nodup_cons.mpr ⟨rest.not_mem, ih⟩

/-- All elements of a trail come next after something else. -/
lemma Trail.forall_mem {P : α → Prop} (h : ∀ x y, next x = some y → y ≠ x → P y) (t : Trail next a l) :
    ∀ y ∈ l, P y := by
  induction t with
  | stop _ => exact nofun
  | @step a b l e rest ih =>
    have ne : b ≠ a := by
      rintro rfl
      exact (Trail.step e rest).not_mem List.mem_cons_self
    intro y hy
    rcases List.mem_cons.mp hy with rfl | hy
    · exact h _ _ e ne
    · exact ih y hy

/-- If at most `n` elements can come next, the iteration visits at most `n` of them before it ends. -/
lemma Trail.length_le {n : Nat} (g : Fin n → α) (h : ∀ x y, next x = some y → y ≠ x → y ∈ Set.range g)
    (t : Trail next a l) : l.length ≤ n := by
  classical
  have sub : l.toFinset ⊆ Finset.univ.image g := by
    intro y hy
    obtain ⟨i, rfl⟩ := t.forall_mem h y (List.mem_toFinset.mp hy)
    exact Finset.mem_image_of_mem g (Finset.mem_univ i)
  calc l.length = l.toFinset.card := (List.toFinset_card_of_nodup t.nodup).symm
    _ ≤ (Finset.univ.image g).card := Finset.card_le_card sub
    _ ≤ (Finset.univ : Finset (Fin n)).card := Finset.card_image_le
    _ = n := by simp

section Loop
variable {σ ε β : Type*} {loop : Nat → σ → Except ε β} {step : σ → β ⊕ σ} {view : σ → α} {s : σ} {r : β} {n k : Nat}

/-- The loop with a bound on the number of its rounds: each of them returns something or goes on with a state. -/
structure IsLoop (loop : Nat → σ → Except ε β) (step : σ → β ⊕ σ) : Prop where
  zero : ∀ s r, loop 0 s ≠ .ok r
  succ : ∀ n s, loop (n + 1) s = (step s).elim .ok (loop n)

/-- A loop that returns has left a trail, and returns the same with every bound above the length of the trail. -/
lemma IsLoop.trail (loops : IsLoop loop step)
    (next_eq : ∀ s, next (view s) = (step s).elim (fun _ => none) fun s' => some (view s'))
    (h : loop n s = .ok r) : ∃ l, Trail next (view s) l ∧ ∀ k, l.length < k → loop k s = .ok r := by
  induction n generalizing s with
  | zero => exact absurd h (loops.zero s r)
  | succ n ih =>
    rw [loops.succ] at h
    cases e : step s with
    | inl r' =>
      rw [e] at h
      refine ⟨[], .stop (by rw [next_eq, e]; rfl), fun k hk => ?_⟩
      obtain ⟨k, rfl⟩ := Nat.exists_eq_succ_of_ne_zero (Nat.ne_of_gt hk)
      rw [Nat.succ_eq_add_one, loops.succ, e]
      exact h
    | inr s' =>
      rw [e] at h
      obtain ⟨l, trail, rounds⟩ := ih h
      refine ⟨view s' :: l, .step (by rw [next_eq, e]; rfl) trail, fun k hk => ?_⟩
      obtain ⟨k, rfl⟩ := Nat.exists_eq_succ_of_ne_zero (Nat.ne_of_gt (Nat.zero_lt_of_lt hk))
      rw [Nat.succ_eq_add_one, loops.succ, e]
      exact rounds k (Nat.lt_of_succ_lt_succ hk)

/-- What a loop returns with some bound, it returns with a bound above the number of elements that can come next. -/
lemma IsLoop.of_rounds {N : Nat} (loops : IsLoop loop step)
    (next_eq : ∀ s, next (view s) = (step s).elim (fun _ => none) fun s' => some (view s')) (g : Fin N → α)
    (range : ∀ x y, next x = some y → y ≠ x → y ∈ Set.range g) (hk : N < k) (h : loop n s = .ok r) :
    loop k s = .ok r := by
  obtain ⟨l, trail, rounds⟩ := loops.trail next_eq h
  exact rounds k ((trail.length_le g range).trans_lt hk)

end Loop

end Iter
