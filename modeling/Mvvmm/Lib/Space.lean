import Mathlib.Data.List.Induction
import Mvvmm.Lib.Bytes
import Mvvmm.Lib.Mealy

/-!
# Little-endian byte spaces

A space of `n` bytes that is accessed with any width at any offset: a read returns the little-endian value of its bytes,
a write replaces its bytes, and an access that does not lie wholly in the space reads 0 or writes nothing. `step` is the
machine. `lastByte` says the same by the history of the accesses: a byte is the one that was last written to its
position. `run_step_state` and `run_step_output` put the two together.
-/

namespace Space
open Bytes Mealy

/-- An access to a space. -/
inductive Access where
  | read (offset width : Nat)
  | write (offset width val : Nat)
  deriving DecidableEq, Repr

variable {n : Nat} {f : Nat → UInt8} {as : List Access} {a : Access}

/-- A space of `n` bytes: what an access returns, if it is a read, and the bytes afterwards. -/
def step (n : Nat) (f : Nat → UInt8) : Access → Option Nat × (Nat → UInt8)
  | .read offset width => (some (if offset + width ≤ n then leNat (slice f offset width) else 0), f)
  | .write offset width val => (none, if offset + width ≤ n then splice f offset (leBytes width val) else f)

/-- The byte that was last written to a position, for a history with the latest access first. -/
def lastByte (n : Nat) (f : Nat → UInt8) : List Access → Nat → UInt8
  | [], i => f i
  | .read _ _ :: h, i => lastByte n f h i
  | .write offset width val :: h, i =>
    if offset + width ≤ n ∧ offset ≤ i ∧ i < offset + width then
      .ofNat (val / 256 ^ (i - offset))
    else
      lastByte n f h i

/-- What a read returns after a history: the value of the bytes last written, or 0 if it is not in the space. -/
def lastValue (n : Nat) (f : Nat → UInt8) (h : List Access) : Access → Option Nat
  | .read offset width =>
    some (if offset + width ≤ n then leNat ((List.range width).map fun j => lastByte n f h (offset + j)) else 0)
  | .write .. => none

/-- A slice, position by position. -/
lemma slice_eq_map {α : Type*} {g : Nat → α} {b k : Nat} : slice g b k = (List.range k).map fun j => g (b + j) := by
  apply List.ext_getElem?
  intro i
  rw [slice_getElem?, List.getElem?_map]
  split
  · rename_i lt
    rw [List.getElem?_range lt, Option.map_some]
  · rename_i ge
    rw [List.getElem?_eq_none (by simpa using ge), Option.map_none]

/-- One more access. -/
lemma step_lastByte {h : List Access} : (step n (lastByte n f h) a).2 = lastByte n f (a :: h) := by
  cases a with
  | read offset width => rfl
  | write offset width val =>
    funext i
    simp only [step, lastByte]
    by_cases inside : offset + width ≤ n
    · rw [if_pos inside]
      by_cases own : offset ≤ i ∧ i < offset + width
      · have get := splice_of_mem (f := lastByte n f h) own.1
          (show i < offset + (leBytes width val).length by simpa using own.2)
        rw [leBytes_getElem?, if_pos (by omega)] at get
        rw [if_pos ⟨inside, own⟩]
        exact Option.some.inj get
      · rw [if_neg (fun x => own x.2)]
        apply eqOn_splice
        simpa using own
    · rw [if_neg inside, if_neg (fun x => inside x.1)]

/-- After a run the bytes are those last written. -/
lemma run_step_state : (run (step n) f as).2 = lastByte n f as.reverse := by
  induction as using List.reverseRecOn with
  | nil => rfl
  | append_singleton as a ih =>
    rw [run_concat, ih, step_lastByte, List.reverse_append, List.reverse_singleton, List.singleton_append]

/-- In a run every read returns the value of the bytes last written. -/
lemma run_step_output {k : Nat} :
    (run (step n) f as).1[k]? = as[k]?.map (lastValue n f (as.take k).reverse) := by
  rw [run_getElem?, run_step_state]
  congr 1
  funext a
  cases a with
  | read offset width => simp only [step, lastValue, slice_eq_map]
  | write offset width val => rfl

end Space
