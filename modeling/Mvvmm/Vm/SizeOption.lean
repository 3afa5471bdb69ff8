import Mathlib.Algebra.Order.Ring.Int
import Mvvmm.Vm.Options

/-!
# What a memory size stands for

`memorySize` says what the argument of the option `-m` stands for, by exact arithmetic: a numeral with its sign, times a
power of two if one of the letters k, m and g ends the string, and it must be below `2 ^ 64` and not negative.
`parseMemorySize_eq` brings `parse_memory_size` into the same form. It computes with what `strtoull` returns, where a minus
sign has been taken modulo `2 ^ 64`: `parseMemorySize_iff` says that this is the only difference.
-/

namespace Mvvmm.Vm
open CString

/-- The factor that the rest of a string behind its numeral stands for. -/
def factor : List UInt8 → Option Nat
  | [] => some 1
  | [c] =>
    if c = 0x6b ∨ c = 0x4b then
      some (2 ^ 10)
    else if c = 0x6d ∨ c = 0x4d then
      some (2 ^ 20)
    else if c = 0x67 ∨ c = 0x47 then
      some (2 ^ 30)
    else
      none
  | _ => none

/-- The memory size that a string stands for, if it does for one. -/
def memorySize (str : List UInt8) : Option Nat := do
  let (v, rest) ← exactNumeral str
  let k ← factor rest
  if 0 ≤ v * k ∧ v * k < 2 ^ 64 then some (v * k).toNat else none

/-- The numeral is negative, and modulo `2 ^ 64` it still fits with its factor. -/
def WrapsNegative (str : List UInt8) : Prop :=
  ∃ v rest k, exactNumeral str = some (v, rest) ∧ factor rest = some k ∧ v < 0 ∧ -2 ^ 64 < v ∧
    (2 ^ 64 + v) * k < 2 ^ 64

variable {str rest : List UInt8} {result : UInt64} {c : UInt8} {v : Int}

/-- A letter and the multiplier of the code for it. -/
lemma suffixMultiplier_eq : (suffixMultiplier c).map UInt64.toNat = factor [c] := by
  simp only [suffixMultiplier, factor]
  split
  · rfl
  · split
    · rfl
    · split <;> rfl

/-- The check before the multiplication is exact. -/
lemma gt_div_iff {val multiplier : UInt64} (pos : 0 < multiplier.toNat) :
    val > uint64Max / multiplier ↔ ¬ val.toNat * multiplier.toNat < 2 ^ 64 := by
  have max : uint64Max.toNat = 2 ^ 64 - 1 := rfl
  rw [gt_iff_lt, UInt64.lt_iff_toNat_lt, UInt64.toNat_div, max, Nat.div_lt_iff_lt_mul pos]
  omega

/-- A unit is not 0. -/
lemma factor_pos {k : Nat} (h : factor rest = some k) : 0 < k := by
  unfold factor at h
  repeat' split at h
  all_goals
    cases h
    try decide

/-- C `parse_memory_size`, in terms of the exact numeral. -/
lemma parseMemorySize_eq (str : List UInt8) (result : UInt64) :
    parseMemorySize str result = match exactNumeral str with
      | none => (-1, result)
      | some (v, rest) =>
        match factor rest with
        | none => (-1, result)
        | some k =>
          if v.natAbs < 2 ^ 64 ∧ (UInt64.ofInt v).toNat * k < 2 ^ 64 then
            (0, .ofNat ((UInt64.ofInt v).toNat * k))
          else
            (-1, result) := by
  simp only [parseMemorySize, strtoull_eq]
  cases exactNumeral str with
  | none => rfl
  | some r =>
    obtain ⟨v, rest⟩ := r
    by_cases big : 2 ^ 64 ≤ v.natAbs
    · simp only [if_pos big, if_true]
      cases factor rest with
      | none => rfl
      | some k => exact (if_neg fun h => absurd h.1 (by omega)).symm
    · simp only [if_neg big, Bool.false_eq_true, if_false]
      have small : v.natAbs < 2 ^ 64 := by omega
      cases rest with
      | nil =>
        have lt := (UInt64.ofInt v).toNat_lt
        simp only [factor, Nat.mul_one, UInt64.ofNat_toNat]
        rw [if_pos ⟨small, lt⟩]
      | cons c rest =>
        cases rest with
        | nil =>
          have same := @suffixMultiplier_eq c
          cases e : suffixMultiplier c with
          | none =>
            rw [e] at same
            simp only [← same, e, Option.map_none]
          | some multiplier =>
            rw [e, Option.map_some] at same
            simp only [← same, e, ne_eq, not_true, if_false, gt_div_iff (factor_pos same.symm)]
            by_cases fits : (UInt64.ofInt v).toNat * multiplier.toNat < 2 ^ 64
            · rw [if_neg (not_not.mpr fits), if_pos ⟨small, fits⟩, UInt64.ofNat_mul, UInt64.ofNat_toNat,
                UInt64.ofNat_toNat]
            · rw [if_pos fits, if_neg (fun h => fits h.2)]
        | cons d rest =>
          cases e : suffixMultiplier c with
          | none => simp [e, factor]
          | some multiplier => simp [e, factor]

/-- What `strtoull` makes of a numeral of small magnitude. -/
lemma toNat_ofInt (h : v.natAbs < 2 ^ 64) :
    ((UInt64.ofInt v).toNat : Int) = if v < 0 then 2 ^ 64 + v else v := by
  simp only [UInt64.ofInt, UInt64.toNat_ofNat']
  split <;> omega

/-- The exact product fits if and only if the numeral is not negative and its product does. -/
lemma product_iff {k : Nat} (pos : 0 < k) :
    (0 ≤ v * k ∧ v * k < 2 ^ 64) ↔ v.natAbs < 2 ^ 64 ∧ 0 ≤ v ∧ (UInt64.ofInt v).toNat * k < 2 ^ 64 := by
  have hk : (0 : Int) < k := Int.natCast_pos.mpr pos
  constructor
  · rintro ⟨h0, lt⟩
    have nonneg : 0 ≤ v := nonneg_of_mul_nonneg_left h0 hk
    have le : v ≤ v * k := le_mul_of_one_le_right nonneg (by omega)
    have cast := toNat_ofInt (show v.natAbs < 2 ^ 64 by omega)
    rw [if_neg (by omega)] at cast
    refine ⟨by omega, nonneg, ?_⟩
    rw [← cast] at lt
    exact_mod_cast lt
  · rintro ⟨small, nonneg, lt⟩
    have cast := toNat_ofInt small
    rw [if_neg (by omega)] at cast
    refine ⟨mul_nonneg nonneg hk.le, ?_⟩
    rw [← cast]
    exact_mod_cast lt

/-- `parse_memory_size` returns the memory size that the string stands for, or -1 and leaves `*result` alone if there is
none; unless a negative numeral wraps around. -/
theorem parseMemorySize_iff (str : List UInt8) (result : UInt64) :
    (parseMemorySize str result = match memorySize str with
      | some n => (0, .ofNat n)
      | none => (-1, result)) ↔ ¬ WrapsNegative str := by
  rw [parseMemorySize_eq]
  cases hn : exactNumeral str with
  | none => simp [memorySize, WrapsNegative, hn]
  | some r =>
    obtain ⟨v, rest⟩ := r
    cases hk : factor rest with
    | none => simp [memorySize, WrapsNegative, hn, hk]
    | some k =>
      have pos := factor_pos hk
      have wraps : WrapsNegative str ↔ v < 0 ∧ -2 ^ 64 < v ∧ (2 ^ 64 + v) * k < 2 ^ 64 := by
        simp [WrapsNegative, hn, hk]
      have size : memorySize str = if 0 ≤ v * k ∧ v * k < 2 ^ 64 then some (v * k).toNat else none := by
        simp [memorySize, hn, hk]
      simp only [hk]
      by_cases neg : v < 0
      · -- a negative numeral is accepted if and only if it wraps to one that fits
        have none : memorySize str = none := by
          rw [size, if_neg]
          exact fun h => absurd ((product_iff pos).mp h).2.1 (by omega)
        rw [none, wraps]
        by_cases small : v.natAbs < 2 ^ 64
        · have cast := toNat_ofInt small
          rw [if_pos neg] at cast
          have same : (UInt64.ofInt v).toNat * k < 2 ^ 64 ↔ (2 ^ 64 + v) * (k : Int) < 2 ^ 64 := by
            rw [← cast]
            exact_mod_cast Iff.rfl
          by_cases fits : (UInt64.ofInt v).toNat * k < 2 ^ 64
          · rw [if_pos ⟨small, fits⟩]
            simp only [Prod.mk.injEq]
            exact iff_of_false (fun h => absurd h.1 (by decide)) (not_not.mpr ⟨neg, by omega, same.mp fits⟩)
          · rw [if_neg (fun h => fits h.2)]
            exact iff_of_true rfl (fun h => fits (same.mpr h.2.2))
        · rw [if_neg (fun h => small h.1)]
          exact iff_of_true rfl (fun h => by omega)
      · rw [wraps, size]
        refine iff_of_true ?_ (fun h => neg h.1)
        by_cases fits : v.natAbs < 2 ^ 64 ∧ (UInt64.ofInt v).toNat * k < 2 ^ 64
        · have cast := toNat_ofInt fits.1
          rw [if_neg neg] at cast
          have value : (v * k).toNat = (UInt64.ofInt v).toNat * k := by
            nth_rewrite 1 [← cast]
            rw [← Int.natCast_mul, Int.toNat_natCast]
          rw [if_pos fits, if_pos ((product_iff pos).mpr ⟨fits.1, by omega, fits.2⟩), value]
        · rw [if_neg fits, if_neg (fun h => fits ⟨((product_iff pos).mp h).1, ((product_iff pos).mp h).2.2⟩)]

/-- ` 0x10M` stands for 16 MB. -/
theorem parseMemorySize_hex :
    ¬ WrapsNegative (ofChars [' ', '0', 'x', '1', '0', 'M']) ∧
      parseMemorySize (ofChars [' ', '0', 'x', '1', '0', 'M']) 7 = (0, 0x1000000) := by
  have nonneg : ¬ WrapsNegative (ofChars [' ', '0', 'x', '1', '0', 'M']) := by
    have num : exactNumeral (ofChars [' ', '0', 'x', '1', '0', 'M']) = some (16, ofChars ['M']) := by decide +kernel
    rintro ⟨v, rest, k, e, -, neg, -⟩
    rw [num] at e
    cases e
    omega
  have size : memorySize (ofChars [' ', '0', 'x', '1', '0', 'M']) = some 0x1000000 := by decide +kernel
  have run := (parseMemorySize_iff (ofChars [' ', '0', 'x', '1', '0', 'M']) 7).mpr nonneg
  rw [size] at run
  exact ⟨nonneg, run⟩

/-- `-1` stands for no memory size, but is taken for `2 ^ 64 - 1`. -/
theorem negative_size_accepted :
    memorySize (ofChars ['-', '1']) = none ∧ parseMemorySize (ofChars ['-', '1']) 7 = (0, 0xffffffffffffffff) ∧
      WrapsNegative (ofChars ['-', '1']) := by
  refine ⟨by decide +kernel, by decide +kernel, -1, [], 1, by decide +kernel, rfl, by decide, by decide, by decide⟩

end Mvvmm.Vm
