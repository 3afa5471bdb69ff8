import Mathlib.Data.Set.Lattice
import Mathlib.Order.CompletePartialOrder
import Mvvmm.Lib.Bytes

/-!
# Stores that log their writes

A store of cells together with the intervals that were written to it, so that one can speak about where a program has
written and not only about what is there now. `Within L` is what a program does each of whose writes is to one of the areas
in `L`: it is composed by `Within.trans`, and what lies apart from the areas is read as before.
-/

namespace Journal
open Bytes

/-- A store and the positions and lengths of the writes to it, the latest one first. -/
structure Store (α : Type*) where
  cells : Nat → α
  writes : List (Nat × Nat)

variable {α : Type*} {s s' s'' : Store α} {L L' : List (Nat × Nat)} {r r' : Nat × Nat} {l : List α} {a b n k : Nat}

/-- The positions of an area, given by where it is and its length. -/
def area (r : Nat × Nat) : Set Nat :=
  Set.Ico r.1 (r.1 + r.2)

/-- An area inside another one. -/
lemma area_subset (h1 : b ≤ a) (h2 : a + n ≤ b + k) : area (a, n) ⊆ area (b, k) :=
  Set.Ico_subset_Ico h1 h2

/-- Areas one behind the other do not meet. -/
lemma disjoint_area (h : a + n ≤ b ∨ b + k ≤ a) : Disjoint (area (a, n)) (area (b, k)) := by
  rw [Set.disjoint_left]
  rintro i ⟨low, high⟩ ⟨low', high'⟩
  simp only at low high low' high'
  omega

/-- Write a list from `a` on. -/
def Store.put (s : Store α) (a : Nat) (l : List α) : Store α :=
  ⟨splice s.cells a l, (a, l.length) :: s.writes⟩

/-- What changes from one store to the other is written, and each write is to one of the areas. -/
structure Within (L : List (Nat × Nat)) (s s' : Store α) : Prop where
  log : ∀ w ∈ s'.writes, w ∈ s.writes ∨ ∃ r ∈ L, area w ⊆ area r
  frame : ∀ i, (∀ r ∈ L, i ∉ area r) → s'.cells i = s.cells i

/-- Two changes within the same areas. -/
lemma Within.trans (h : Within L s s') (h' : Within L s' s'') : Within L s s'' where
  log w hw := (h'.log w hw).elim (h.log w) .inr
  frame i hi := (h'.frame i hi).trans (h.frame i hi)

/-- A change within some areas is one within more. -/
lemma Within.mono (h : Within L s s') (sub : L ⊆ L') : Within L' s s' where
  log w hw := (h.log w hw).imp_right fun ⟨r, hr, inside⟩ => ⟨r, sub hr, inside⟩
  frame i hi := h.frame i fun r hr => hi r (sub hr)

/-- A store into one of the areas. -/
lemma within_put (hr : r ∈ L) (h : area (a, l.length) ⊆ area r) : Within L s (s.put a l) where
  log w hw := by
    rcases List.mem_cons.mp hw with rfl | old
    · exact .inr ⟨r, hr, h⟩
    · exact .inl old
  frame i hi := eqOn_splice fun inside => hi r hr (h inside)

/-- What lies apart from the areas is read as before. -/
lemma Within.slice_eq (h : Within L s s') (apart : ∀ r ∈ L, Disjoint (area (b, n)) (area r)) :
    slice s'.cells b n = slice s.cells b n := by
  apply slice_congr
  intro i hi
  exact h.frame i fun r hr => Set.disjoint_left.mp (apart r hr) hi

/-- A program that writes to one area only. -/
lemma Within.slice_off (h : Within [(a, k)] s s') (apart : b + n ≤ a ∨ a + k ≤ b) :
    slice s'.cells b n = slice s.cells b n := by
  refine h.slice_eq fun r hr => ?_
  rw [List.mem_singleton.mp hr]
  exact disjoint_area apart

/-- A single write. -/
lemma within_put_self (h : l.length = n) : Within [(a, n)] s (s.put a l) :=
  within_put (List.mem_singleton.mpr rfl) (area_subset (Nat.le_refl _) (Nat.le_of_eq (by rw [h])))

/-- What was stored can be read back. -/
lemma slice_put (h : l.length = n) : slice (s.put a l).cells a n = l :=
  slice_splice_of_length h

end Journal
