import Mvvmm.Lib.Bytes

/-!
# C objects and C integers

What a model of C code needs of the language. `Stop` lists the ways a call ends without returning,
and a call is a value of `Except Stop`. `Obj` is an allocated object: a size and its bytes, where
every access is checked against the size and an access outside stops the run with `.range`. The
`int` of C is an `Int` that `i32` wraps to 32 bits.
-/

namespace CMem
open Bytes

/-- Why a run does not return. -/
inductive Stop where
  /-- `abort()` was called. -/
  | abort
  /-- A position outside an allocated object was read or written. -/
  | range
  /-- A loop runs for ever. -/
  | diverge
  /-- The step cannot be taken in this state: the thread is elsewhere, or waits for a lock. -/
  | blocked
  deriving DecidableEq, Repr

section Except
variable {ε α β : Type} {x : Except ε α} {f : α → Except ε β} {b : β} {e : ε}

/-- A sequence succeeds if and only if both of its calls do. -/
lemma bind_eq_ok : (x >>= f) = .ok b ↔ ∃ a, x = .ok a ∧ f a = .ok b := by
  cases x with
  | error e => simp [bind, Except.bind]
  | ok a => simp [bind, Except.bind]

/-- A guarded call succeeds if and only if its guard holds and it does. -/
lemma ite_error_eq_ok {p : Prop} [Decidable p] {a : α} : (if p then x else .error e) = .ok a ↔ p ∧ x = .ok a := by
  by_cases h : p <;> simp [h]

/-- A sequence fails with its first call, or with its second. -/
lemma bind_eq_error : (x >>= f) = .error e ↔ x = .error e ∨ ∃ a, x = .ok a ∧ f a = .error e := by
  cases x with
  | error e => simp [bind, Except.bind]
  | ok a => simp [bind, Except.bind]

/-- A first call that succeeds hands on its result. -/
@[simp]
lemma ok_bind (a : α) : ((Except.ok a : Except ε α) >>= f) = f a := rfl

/-- A first call that fails ends the sequence. -/
@[simp]
lemma error_bind (e : ε) : ((Except.error e : Except ε α) >>= f) = .error e := rfl

/-- The stop of a run that does not return. -/
def stop? : Except ε α → Option ε
  | .error e => some e
  | .ok _ => none

/-- What `stop?` finds is the error. -/
lemma eq_error_of_stop? (h : stop? x = some e) : x = .error e := by
  cases x with
  | error e' =>
    cases h
    rfl
  | ok a => cases h

/-- If every step of a fold can only fail in some ways, so can the fold. -/
lemma foldlM_error {σ : Type} {P : ε → Prop} {g : σ → α → Except ε σ}
    (step : ∀ s a e, g s a = .error e → P e) {as : List α} {s : σ} (h : as.foldlM g s = .error e) :
    P e := by
  induction as generalizing s with
  | nil => cases h
  | cons a as ih =>
    rw [List.foldlM_cons] at h
    rcases bind_eq_error.mp h with h | ⟨s', _, h⟩
    · exact step _ _ _ h
    · exact ih h

end Except

section Safe
variable {α β : Type} {x : Except Stop α} {f : α → Except Stop β}

/-- A call that neither aborts nor leaves an object. -/
def Safe (x : Except Stop α) : Prop :=
  x ≠ .error .abort ∧ x ≠ .error .range

/-- A call that returns is safe. -/
lemma safe_ok (a : α) : Safe (.ok a) :=
  ⟨nofun, nofun⟩

/-- A step that has to wait is safe. -/
lemma safe_blocked : Safe (.error .blocked : Except Stop α) :=
  ⟨nofun, nofun⟩

/-- A loop that runs for ever is safe. -/
lemma safe_diverge : Safe (.error .diverge : Except Stop α) :=
  ⟨nofun, nofun⟩

/-- An `abort()` is not safe. -/
lemma not_safe_abort : ¬ Safe (.error .abort : Except Stop α) :=
  fun h => h.1 rfl

/-- An access outside of an object is not safe. -/
lemma not_safe_range : ¬ Safe (.error .range : Except Stop α) :=
  fun h => h.2 rfl

/-- A sequence is safe if and only if its first call is, and its second for what the first returns. -/
lemma safe_bind_iff : Safe (x >>= f) ↔ Safe x ∧ ∀ a, x = .ok a → Safe (f a) := by
  cases x with
  | error e => simp [Safe]
  | ok a => simp [Safe]

/-- A sequence of safe calls is safe. -/
lemma Safe.bind (hx : Safe x) (hf : ∀ a, x = .ok a → Safe (f a)) : Safe (x >>= f) :=
  safe_bind_iff.mpr ⟨hx, hf⟩

/-- A call that returns unless it aborts or leaves an object. -/
def Returns (x : Except Stop α) : Prop :=
  Safe x → ∃ a, x = .ok a

/-- A call that has returned does return. -/
lemma returns_ok (a : α) : Returns (.ok a) :=
  fun _ => ⟨a, rfl⟩

/-- A call of `abort()` counts as one that crashes. -/
lemma returns_abort : Returns (.error .abort : Except Stop α) :=
  fun h => absurd h not_safe_abort

/-- A call that can only fail by leaving an object. -/
lemma returns_of_range (h : ∀ e, x = .error e → e = .range) : Returns x := by
  intro safe
  cases x with
  | ok a => exact ⟨a, rfl⟩
  | error e =>
    obtain rfl := h e rfl
    exact absurd safe not_safe_range

/-- A call that can only fail by running for ever. -/
lemma Safe.returns_iff (h : Safe x) : Returns x ↔ ∃ a, x = .ok a :=
  ⟨fun returns => returns h, fun ok _ => ok⟩

/-- A sequence returns unless it crashes if and only if its first call does, and its second for what the first returns. -/
lemma returns_bind_iff : Returns (x >>= f) ↔ Returns x ∧ ∀ a, x = .ok a → Returns (f a) := by
  cases x with
  | error e => simp [Returns, Safe]
  | ok a => simp [Returns, safe_ok]

/-- A sequence of calls that return. -/
lemma Returns.bind (hx : Returns x) (hf : ∀ a, x = .ok a → Returns (f a)) : Returns (x >>= f) :=
  returns_bind_iff.mpr ⟨hx, hf⟩

end Safe

/-- An allocated object: its size and its bytes. -/
structure Obj where
  size : Nat
  bytes : Nat → UInt8

namespace Obj
variable {o o' : Obj} {pos : Int} {n : Nat} {l bs : List UInt8}

/-- An object of `n` zero bytes. -/
def zero (n : Nat) : Obj :=
  ⟨n, fun _ => 0⟩

/-- All bytes of an object. -/
def data (o : Obj) : List UInt8 :=
  slice o.bytes 0 o.size

/-- Read `n` bytes at `pos`. -/
def load (o : Obj) (pos : Int) (n : Nat) : Except Stop (List UInt8) :=
  if 0 ≤ pos ∧ pos + n ≤ o.size then .ok (slice o.bytes pos.toNat n) else .error .range

/-- Write the bytes `l` at `pos`. -/
def store (o : Obj) (pos : Int) (l : List UInt8) : Except Stop Obj :=
  if 0 ≤ pos ∧ pos + l.length ≤ o.size then
    .ok { o with bytes := splice o.bytes pos.toNat l }
  else
    .error .range

/-- A read inside the object. -/
lemma load_ok (h1 : 0 ≤ pos) (h2 : pos + n ≤ o.size) :
    o.load pos n = .ok (slice o.bytes pos.toNat n) := by
  simp [load, h1, h2]

/-- A write inside the object. -/
lemma store_ok (h1 : 0 ≤ pos) (h2 : pos + l.length ≤ o.size) :
    o.store pos l = .ok { o with bytes := splice o.bytes pos.toNat l } := by
  simp [store, h1, h2]

/-- A write keeps the size of the object. -/
lemma store_size (h : o.store pos l = .ok o') : o'.size = o.size := by
  simp only [store] at h
  split at h
  · cases h
    rfl
  · cases h

/-- A read fails only by leaving the object. -/
lemma load_error {e : Stop} (h : o.load pos n = .error e) : e = .range := by
  simp only [load] at h
  split at h
  · cases h
  · cases h
    rfl

/-- A write fails only by leaving the object. -/
lemma store_error {e : Stop} (h : o.store pos l = .error e) : e = .range := by
  simp only [store] at h
  split at h
  · cases h
  · cases h
    rfl

/-- A read in front of the object leaves it. -/
lemma load_neg (h : pos < 0) : o.load pos n = .error .range := by
  simp only [load]
  rw [if_neg (by omega)]

/-- A write in front of the object leaves it. -/
lemma store_neg (h : pos < 0) : o.store pos l = .error .range := by
  simp only [store]
  rw [if_neg (by omega)]

end Obj

/-- An allocation of `size` bytes that are then cleared. It does not fail, but for a negative size: the
huge `size_t` that this converts to gives `NULL`, and the bytes to be cleared lie in no object. -/
def mallocZero (size : Int) : Except Stop Obj :=
  if size < 0 then .error .range else .ok (.zero size.toNat)

/-- An allocation of a size that is not negative. -/
lemma mallocZero_of_nonneg {size : Int} (h : 0 ≤ size) : mallocZero size = .ok (.zero size.toNat) := by
  rw [mallocZero, if_neg (by omega)]

/-- Conversion of an integer to the 32-bit `int` of C. -/
def i32 (x : Int) : Int :=
  (x + 2 ^ 31) % 2 ^ 32 - 2 ^ 31

/-- Conversion of an `int` to the 32-bit `unsigned` of C. -/
def u32 (x : Int) : Nat :=
  (x % 2 ^ 32).toNat

/-- An `int` is not changed by its conversion. -/
lemma i32_of_range {x : Int} (h1 : -2 ^ 31 ≤ x) (h2 : x < 2 ^ 31) : i32 x = x := by
  unfold i32
  omega

/-- A converted number is an `int`. -/
lemma i32_bounds (x : Int) : -2 ^ 31 ≤ i32 x ∧ i32 x < 2 ^ 31 := by
  unfold i32
  omega

/-- Two integers with the same 32 low bits convert to the same `int`. -/
lemma i32_eq_of_emod {x y : Int} (h : x % 2 ^ 32 = y % 2 ^ 32) : i32 x = i32 y := by
  unfold i32
  omega

/-- A sum of `int`s may be wrapped once, at the end. -/
lemma i32_add_i32 (x y : Int) : i32 (i32 x + y) = i32 (x + y) := by
  unfold i32
  omega

/-- The conversion to `int` keeps a number modulo `2 ^ 32`. -/
lemma i32_emod (x : Int) : i32 x % 2 ^ 32 = x % 2 ^ 32 := by
  unfold i32
  omega

end CMem
