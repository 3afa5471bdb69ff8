import Mathlib.Data.List.Infix
import Mathlib.Data.Nat.ModEq
import Mathlib.Logic.Relation

/-!
# Rings and the queue they stand for

A ring of `num` cells holds the entry number `i` of a sequence in its cell `i % num`, and the two sides
count entries by free-running counters. `Holds num cell l lo hi` says that the cells hold the entries
`lo ≤ i < hi` of `l`. An entry may be added as long as no more than `num` are held, because the cell it
goes to then belongs to none of them (`Holds.push`). Where nobody takes entries out, the cells hold the last `num` of
them (`Recent`).

`Fifo` is what such a pair of rings is for: entries are offered, served in the order in which they were
offered, and taken in the order in which they were served.
-/

namespace Ring
variable {α : Type*} {num i j lo hi lo' hi' : Nat} {cell cell' : Nat → α} {l l' : List α} {x : α}

/-- The cells hold the entries `lo ≤ i < hi` of a sequence. -/
def Holds (num : Nat) (cell : Nat → α) (l : List α) (lo hi : Nat) : Prop :=
  ∀ i, lo ≤ i → i < hi → l[i]? = some (cell (i % num))

/-- Two entries that are less than `num` apart do not share a cell. -/
lemma cell_ne (h : i < j) (h' : j < i + num) : i % num ≠ j % num := by
  intro e
  obtain ⟨k, hk⟩ := (Nat.modEq_iff_dvd' h.le).mp e
  have pos : 0 < k := by
    rcases Nat.eq_zero_or_pos k with rfl | hk'
    · omega
    · exact hk'
  have := Nat.le_mul_of_pos_right num pos
  omega

/-- No entry is held. -/
lemma Holds.empty : Holds num cell l lo lo := by
  intro i h1 h2
  omega

/-- Fewer entries are held as well. -/
lemma Holds.mono (h : Holds num cell l lo hi) (h1 : lo ≤ lo') (h2 : hi' ≤ hi) :
    Holds num cell l lo' hi' :=
  fun i hi1 hi2 => h i (by omega) (by omega)

/-- Later entries of the sequence do not matter. -/
lemma Holds.append (h : Holds num cell l lo hi) : Holds num cell (l ++ l') lo hi := by
  intro i h1 h2
  have e := h i h1 h2
  rw [List.getElem?_append_left (List.getElem?_eq_some_iff.mp e).1, e]

/-- Cells that agree on the held entries hold the same. -/
lemma Holds.congr (h : Holds num cell l lo hi)
    (e : ∀ i, lo ≤ i → i < hi → cell' (i % num) = cell (i % num)) : Holds num cell' l lo hi := by
  intro i h1 h2
  rw [e i h1 h2, h i h1 h2]

/-- A further entry is held after its cell was written, if there was room for it. -/
lemma Holds.push (h : Holds num cell l lo hi) (room : hi < lo + num)
    (frame : ∀ k, k ≠ hi % num → cell' k = cell k) (entry : l[hi]? = some (cell' (hi % num))) :
    Holds num cell' l lo (hi + 1) := by
  intro i h1 h2
  rcases Nat.lt_succ_iff_lt_or_eq.mp h2 with lt | rfl
  · rw [frame _ (cell_ne lt (by omega)), h i h1 lt]
  · exact entry

/-- The entries between two points of the sequence, as the cells have them. -/
lemma Holds.of_map (len : l.length = lo) :
    Holds num cell (l ++ (List.range hi).map fun k => cell ((lo + k) % num)) lo (lo + hi) := by
  intro i h1 h2
  rw [List.getElem?_append_right (by omega), List.getElem?_map, List.getElem?_range (by omega), len]
  rw [Option.map_some, show lo + (i - lo) = i from by omega]

/-- The cells hold the last `num` entries of a sequence whose first one went to the cell of `u`. -/
def Recent (num : Nat) (cell : Nat → α) (u : Nat) (l : List α) : Prop :=
  ∀ i x, l[i]? = some x → l.length ≤ i + num → cell ((u + i) % num) = x

/-- An empty list has no recent entries. -/
lemma Recent.nil : Recent num cell i [] := by
  intro j x hx
  rw [List.getElem?_nil] at hx
  cases hx

/-- Cells that are the same hold the same entries. -/
lemma Recent.congr (h : Recent num cell i l) (e : ∀ k < num, cell' k = cell k) : Recent num cell' i l := by
  intro j x hx recent
  have lt := (List.getElem?_eq_some_iff.mp hx).1
  rw [e _ (Nat.mod_lt _ (by omega)), h j x hx recent]

/-- One more entry goes to the cell of the oldest one. -/
lemma Recent.push {u : Nat} (h : Recent num cell u l) (frame : ∀ k, k ≠ (u + l.length) % num → cell' k = cell k)
    (entry : cell' ((u + l.length) % num) = x) : Recent num cell' u (l ++ [x]) := by
  intro i y hy recent
  rw [List.length_append, List.length_singleton] at recent
  rcases Nat.lt_trichotomy i l.length with lt | rfl | gt
  · rw [List.getElem?_append_left lt] at hy
    rw [frame _ (cell_ne (by omega) (by omega)), h i y hy (by omega)]
  · rw [List.getElem?_concat_length] at hy
    rw [entry, Option.some.inj hy]
  · rw [List.getElem?_eq_none (by rw [List.length_append, List.length_singleton]; omega)] at hy
    cases hy

/-! ## The queue -/

/-- Entries that were offered, served and taken. -/
structure Fifo (α : Type*) where
  offered : List α
  served : List α
  taken : List α

namespace Fifo
variable {f f' : Fifo α}

/-- Nothing has happened yet. -/
def empty : Fifo α :=
  ⟨[], [], []⟩

/-- Some entries are offered, the next one is served, or the next one is taken. -/
inductive Step (f : Fifo α) : Fifo α → Prop where
  | offer (l : List α) : Step f { f with offered := f.offered ++ l }
  | serve {x : α} (next : f.offered[f.served.length]? = some x) :
    Step f { f with served := f.served ++ [x] }
  | take {x : α} (next : f.served[f.taken.length]? = some x) :
    Step f { f with taken := f.taken ++ [x] }

/-- What was taken is a beginning of what was served, and that of what was offered. -/
def InOrder (f : Fifo α) : Prop :=
  f.taken <+: f.served ∧ f.served <+: f.offered

/-- A list that goes on as the longer one does is a beginning of it. -/
lemma append_next (h : l <+: l') (next : l'[l.length]? = some x) : l ++ [x] <+: l' := by
  obtain ⟨r, rfl⟩ := h
  rw [List.getElem?_append_right le_rfl, Nat.sub_self] at next
  cases r with
  | nil => cases next
  | cons y r =>
    cases next
    exact ⟨r, by simp⟩

/-- A step keeps the order of the queue. -/
lemma Step.inOrder (st : Step f f') (h : f.InOrder) : f'.InOrder := by
  cases st with
  | offer l => exact ⟨h.1, h.2.trans (List.prefix_append _ _)⟩
  | serve next => exact ⟨h.1.trans (List.prefix_append _ _), append_next h.2 next⟩
  | take next => exact ⟨append_next h.1 next, h.2⟩

/-- In every run from the empty queue the entries stay in order. -/
lemma run_inOrder (r : Relation.ReflTransGen Step (empty : Fifo α) f) : f.InOrder := by
  induction r with
  | refl => exact ⟨List.prefix_rfl, List.prefix_rfl⟩
  | tail _ st ih => exact st.inOrder ih

end Fifo

end Ring
