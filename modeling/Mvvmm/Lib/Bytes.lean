import Mathlib.Data.Nat.Digits.Defs
import Mathlib.Data.Set.Function
import Mathlib.Order.Interval.Set.Basic
import Mathlib.Tactic.Ring

/-!
# Byte stores

A store is a total function from positions to cells. `slice f a n` reads the `n` cells from `a` on
and `splice f a l` overwrites the cells from `a` on by the list `l`; both are over an arbitrary cell
type. A frame condition is `Set.EqOn` of the two stores on a set of positions, so that disjointness
of writes is disjointness of sets. `sets` overwrites single cells one after the other, and
`patch xs off l` a part of a list.

The second half is the little-endian view of a list of bytes: `leNat` (its value, by
`Nat.ofDigits`) and `leBytes n v` (the low `n` bytes of `v`), whose value is `v % 256 ^ n`.
-/

namespace Bytes

section Store
variable {α : Type*} {f g : Nat → α} {l l' : List α} {a b n m i : Nat}

/-- The `n` cells of a store from `a` on. -/
def slice (f : Nat → α) (a : Nat) : Nat → List α
  | 0 => []
  | n + 1 => f a :: slice f (a + 1) n

/-- A store overwritten by a list from `a` on. -/
def splice (f : Nat → α) (a : Nat) (l : List α) : Nat → α :=
  fun i => if i < a then f i else (l[i - a]?).getD (f i)

/-- A store overwritten by several lists, one after the other. -/
def splices (f : Nat → α) (ls : List (Nat × List α)) : Nat → α :=
  ls.foldl (fun f p => splice f p.1 p.2) f

/-- A store after single cells were overwritten, one after the other. -/
def sets (f : Nat → α) (ps : List (Nat × α)) : Nat → α :=
  ps.foldl (fun f p => Function.update f p.1 p.2) f

/-- A slice has the length that was asked for. -/
@[simp]
lemma slice_length : (slice f a n).length = n := by
  induction n generalizing a with
  | zero => rfl
  | succ n ih => simp [slice, ih]

/-- A slice of a constant function. -/
lemma slice_const {x : α} : slice (fun _ => x) a n = List.replicate n x := by
  induction n generalizing a with
  | zero => rfl
  | succ n ih => rw [slice, ih, List.replicate_succ]

/-- An element of a slice. -/
lemma slice_getElem? : (slice f a n)[i]? = if i < n then some (f (a + i)) else none := by
  induction n generalizing a i with
  | zero => simp [slice]
  | succ n ih =>
    cases i with
    | zero => simp [slice]
    | succ i =>
      simp only [slice, List.getElem?_cons_succ, ih, Nat.add_lt_add_iff_right]
      rw [show a + 1 + i = a + (i + 1) from by omega]

/-- A slice in two pieces. -/
lemma slice_add : slice f a (n + m) = slice f a n ++ slice f (a + n) m := by
  induction n generalizing a with
  | zero => simp [slice]
  | succ n ih =>
    rw [show n + 1 + m = (n + m) + 1 from by omega]
    simp only [slice, ih, List.cons_append]
    rw [show a + 1 + n = a + (n + 1) from by omega]

/-- A slice only depends on the cells it reads. -/
lemma slice_congr (e : Set.EqOn f g (Set.Ico a (a + n))) : slice f a n = slice g a n := by
  apply List.ext_getElem?
  intro i
  simp only [slice_getElem?]
  split
  · rename_i h
    rw [e ⟨by omega, by omega⟩]
  · rfl

/-- The first elements of a slice. -/
lemma slice_take (k : Nat) : (slice f a n).take k = slice f a (min k n) := by
  apply List.ext_getElem?
  intro i
  rw [List.getElem?_take]
  simp only [slice_getElem?]
  grind

/-- A slice without its first elements. -/
lemma slice_drop (k : Nat) : (slice f a n).drop k = slice f (a + k) (n - k) := by
  apply List.ext_getElem?
  intro i
  rw [List.getElem?_drop]
  simp only [slice_getElem?]
  grind

/-- Nothing changes below a splice. -/
lemma splice_of_lt (h : i < a) : splice f a l i = f i := by
  simp [splice, h]

/-- Nothing changes behind a splice. -/
lemma splice_of_ge (h : a + l.length ≤ i) : splice f a l i = f i := by
  have h1 : ¬ i < a := by omega
  have h2 : l[i - a]? = none := List.getElem?_eq_none (by omega)
  simp [splice, h1, h2]

/-- What a splice puts in its place. -/
lemma splice_of_mem (h1 : a ≤ i) (h2 : i < a + l.length) : some (splice f a l i) = l[i - a]? := by
  have h3 : ¬ i < a := by omega
  have h4 : i - a < l.length := by omega
  simp [splice, h3, List.getElem?_eq_getElem h4]

/-- A splice leaves every cell outside its interval alone. -/
lemma eqOn_splice : Set.EqOn (splice f a l) f (Set.Ico a (a + l.length))ᶜ := by
  intro i h
  simp only [Set.mem_compl_iff, Set.mem_Ico, not_and, not_lt] at h
  by_cases hi : i < a
  · exact splice_of_lt hi
  · exact splice_of_ge (h (by omega))

/-- An empty splice changes nothing. -/
@[simp]
lemma splice_nil : splice f a [] = f := by
  funext i
  simp [splice]

/-- Two adjacent splices are one splice of the appended lists. -/
lemma splice_append : splice (splice f a l) (a + l.length) l' = splice f a (l ++ l') := by
  funext i
  simp only [splice]
  grind

/-- What was put in can be read back. -/
lemma slice_splice_self : slice (splice f a l) a l.length = l := by
  apply List.ext_getElem?
  intro i
  rw [slice_getElem?]
  split
  · rw [splice_of_mem (by omega) (by omega), show a + i - a = i from by omega]
  · rw [List.getElem?_eq_none (by omega)]

/-- What was spliced in is read back. -/
lemma slice_splice_of_length (h : l.length = n) : slice (splice f a l) a n = l := by
  rw [← h, slice_splice_self]

/-- A slice disjoint from a splice is not changed by it. -/
lemma slice_splice_disjoint (h : b + n ≤ a ∨ a + l.length ≤ b) :
    slice (splice f a l) b n = slice f b n := by
  apply slice_congr
  apply eqOn_splice.mono
  intro i hi
  simp only [Set.mem_Ico, Set.mem_compl_iff, not_and, not_lt] at hi ⊢
  omega

/-- A slice wholly inside a splice is the matching part of the list. -/
lemma slice_splice_mid (h1 : a ≤ b) (h2 : b + n ≤ a + l.length) :
    slice (splice f a l) b n = (l.drop (b - a)).take n := by
  apply List.ext_getElem?
  intro i
  rw [slice_getElem?, List.getElem?_take, List.getElem?_drop]
  split
  · rw [splice_of_mem (by omega) (by omega), show b + i - a = b - a + i from by omega]
  · rfl

/-- Cells are overwritten in the order of the list. -/
@[simp]
lemma sets_append {ps ps' : List (Nat × α)} : sets f (ps ++ ps') = sets (sets f ps) ps' :=
  List.foldl_append

/-- Overwriting one cell. -/
lemma splice_singleton {x : α} : splice f a [x] = Function.update f a x := by
  funext i
  rcases Nat.lt_trichotomy i a with lt | rfl | gt
  · rw [splice_of_lt lt, Function.update_of_ne (by omega)]
  · simp [splice]
  · rw [splice_of_ge (by simp; omega), Function.update_of_ne (by omega)]

/-- Overwriting cell by cell with a slice of another store. -/
lemma sets_range {n : Nat} :
    sets f ((List.range n).map fun j => (a + j, g (b + j))) = splice f a (slice g b n) := by
  induction n with
  | zero => simp [sets, slice]
  | succ n ih =>
    have step : splice (splice f a (slice g b n)) (a + n) [g (b + n)] = splice f a (slice g b (n + 1)) := by
      nth_rewrite 2 [← slice_length (f := g) (a := b) (n := n)]
      rw [splice_append, slice_add]
      rfl
    rw [List.range_succ, List.map_append, sets_append, ih, ← step, splice_singleton]
    rfl

end Store

section Patch
variable {α : Type*} {f : Nat → α} {l xs ys : List α} {a n off : Nat}

/-- A list with the elements from `off` on replaced by those of another one. -/
def patch (xs : List α) (off : Nat) (l : List α) : List α :=
  xs.take off ++ l ++ xs.drop (off + l.length)

/-- A list that is replaced as a whole. -/
lemma patch_all (h : l.length = xs.length) : patch xs 0 l = l := by
  simp [patch, h]

/-- The elements of a list with a part replaced. -/
lemma patch_getElem? {i : Nat} (h : off + l.length ≤ xs.length) :
    (patch xs off l)[i]? = if off ≤ i ∧ i < off + l.length then l[i - off]? else xs[i]? := by
  have len : (xs.take off).length = off := by
    rw [List.length_take]
    omega
  rw [patch, List.append_assoc]
  by_cases before : i < off
  · rw [List.getElem?_append_left (by omega), if_neg (by omega), List.getElem?_take_of_lt before]
  · rw [List.getElem?_append_right (by omega), len]
    by_cases inside : i < off + l.length
    · rw [List.getElem?_append_left (by omega), if_pos (by omega)]
    · rw [List.getElem?_append_right (by omega), if_neg (by omega), List.getElem?_drop]
      congr 1
      omega

/-- A slice around a splice. -/
lemma slice_splice_patch (h : off + l.length ≤ n) : slice (splice f (a + off) l) a n = patch (slice f a n) off l := by
  obtain ⟨k, rfl⟩ : ∃ k, n = off + (l.length + k) := ⟨n - off - l.length, by omega⟩
  rw [slice_add, slice_add, slice_splice_disjoint (.inl le_rfl), slice_splice_self, slice_splice_disjoint (.inr le_rfl)]
  simp only [patch, slice_take, slice_drop, List.append_assoc]
  rw [show min off (off + (l.length + k)) = off from by omega,
    show off + (l.length + k) - (off + l.length) = k from by omega, Nat.add_assoc]

end Patch

section LittleEndian
variable {bs : List UInt8} {n v : Nat}

/-- The value of a list of bytes, least significant byte first. -/
def leNat (bs : List UInt8) : Nat :=
  Nat.ofDigits 256 (bs.map UInt8.toNat)

/-- The low `n` bytes of `v`, least significant byte first. -/
def leBytes : Nat → Nat → List UInt8
  | 0, _ => []
  | n + 1, v => UInt8.ofNat v :: leBytes n (v / 256)

/-- No bytes are the number 0. -/
@[simp]
lemma leNat_nil : leNat [] = 0 := rfl

/-- The first byte is the lowest. -/
@[simp]
lemma leNat_cons (b : UInt8) : leNat (b :: bs) = b.toNat + 256 * leNat bs := by
  simp [leNat, Nat.ofDigits_cons]

/-- The number of bytes that a number is encoded in. -/
@[simp]
lemma leBytes_length : (leBytes n v).length = n := by
  induction n generalizing v with
  | zero => rfl
  | succ n ih => simp [leBytes, ih]

/-- The bytes of an encoded number. -/
lemma leBytes_getElem? {i : Nat} : (leBytes n v)[i]? = if i < n then some (UInt8.ofNat (v / 256 ^ i)) else none := by
  induction n generalizing v i with
  | zero => simp [leBytes]
  | succ n ih =>
    cases i with
    | zero => simp [leBytes]
    | succ i =>
      simp only [leBytes, List.getElem?_cons_succ, ih, Nat.add_lt_add_iff_right]
      rw [pow_succ, Nat.mul_comm, Nat.div_div_eq_div_mul]

/-- The number in some bytes is bounded by their count. -/
lemma leNat_lt : leNat bs < 256 ^ bs.length := by
  have h : ∀ x ∈ bs.map UInt8.toNat, x < 256 := by
    intro x hx
    obtain ⟨b, _, rfl⟩ := List.mem_map.mp hx
    exact b.toNat_lt
  simpa [leNat] using Nat.ofDigits_lt_base_pow_length (by omega) h

/-- Decoding gives back the number, as far as the bytes hold it. -/
lemma leNat_leBytes : leNat (leBytes n v) = v % 256 ^ n := by
  induction n generalizing v with
  | zero => simp [leBytes, Nat.mod_one]
  | succ n ih =>
    simp only [leBytes, leNat_cons, ih, UInt8.toNat_ofNat']
    rw [show 2 ^ 8 = 256 from rfl, pow_succ, Nat.mul_comm (256 ^ n) 256, Nat.mod_mul]

end LittleEndian

end Bytes
