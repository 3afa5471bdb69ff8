import Mathlib.Algebra.Ring.Nat
import Mathlib.Tactic.Common

/-!
# Numerals in C strings

`strtoull` of the C library with base 0, as the C standard describes it. A string is the list of its bytes
before the terminator. White space and a sign may come first; then `0x` and a hexadecimal digit begin a
hexadecimal numeral, any other `0` an octal one, and other digits a decimal one. The numeral is as long as
possible. A value that does not fit is reported as a range error; a minus sign negates modulo `2 ^ 64`.
-/

namespace CString

/-- The bytes of an ASCII text. -/
def ofChars (cs : List Char) : List UInt8 :=
  cs.map fun c => .ofNat c.toNat

/-- C `isspace`, in the locale of a C program. -/
def isSpace (c : UInt8) : Bool :=
  c == 0x20 || 0x09 ≤ c && c ≤ 0x0d

/-- The value of a digit, letters included; 36 for any other byte. -/
def digitVal (c : UInt8) : Nat :=
  if 0x30 ≤ c ∧ c ≤ 0x39 then
    c.toNat - 0x30
  else if 0x61 ≤ c ∧ c ≤ 0x7a then
    c.toNat - 0x61 + 10
  else if 0x41 ≤ c ∧ c ≤ 0x5a then
    c.toNat - 0x41 + 10
  else
    36

/-- A digit of the given base. -/
def isDigit (base : Nat) (c : UInt8) : Bool :=
  digitVal c < base

/-- The value of the digits of a numeral. -/
def numeral (base : Nat) (digits : List UInt8) : Nat :=
  digits.foldl (fun v c => v * base + digitVal c) 0

/-- An optional sign: whether it is a minus sign, and what follows it. -/
def takeSign : List UInt8 → Bool × List UInt8
  | [] => (false, [])
  | c :: s => if c = 0x2d then (true, s) else if c = 0x2b then (false, s) else (false, c :: s)

/-- The base that the beginning of a numeral asks for, and where its digits begin. -/
def takeBase : List UInt8 → Nat × List UInt8
  | [] => (10, [])
  | c :: s =>
    if c ≠ 0x30 then
      (10, c :: s)
    else
      match s with
      | x :: d :: s' =>
        if (x = 0x78 ∨ x = 0x58) ∧ isDigit 16 d = true then (16, d :: s') else (8, c :: s)
      | _ => (8, c :: s)

/-- What `strtoull` returns, whether it sets `errno` to `ERANGE`, and the string at `endptr`; `none` if there is
no numeral, and `endptr` is the string itself. -/
structure Converted where
  val : UInt64
  erange : Bool
  endptr : Option (List UInt8)
  deriving DecidableEq, Repr

/-- C `strtoull(str, &endptr, 0)`. -/
def strtoull (str : List UInt8) : Converted :=
  let (neg, s) := takeSign (str.dropWhile isSpace)
  let (base, s) := takeBase s
  let digits := s.takeWhile (isDigit base)
  let rest := s.dropWhile (isDigit base)
  let v := numeral base digits
  if digits = [] then
    ⟨0, false, none⟩
  else if 2 ^ 64 ≤ v then
    ⟨.ofNat (2 ^ 64 - 1), true, some rest⟩
  else
    ⟨if neg then -.ofNat v else .ofNat v, false, some rest⟩

/-- The numeral that a string begins with, as `strtoull` reads it: its value, sign included and as an integer, and what
follows it. -/
def exactNumeral (str : List UInt8) : Option (Int × List UInt8) :=
  let (neg, s) := takeSign (str.dropWhile isSpace)
  let (base, s) := takeBase s
  let digits := s.takeWhile (isDigit base)
  let v : Int := numeral base digits
  if digits = [] then none else some (if neg then -v else v, s.dropWhile (isDigit base))

/-- `strtoull` reduces the value modulo `2 ^ 64`, unless it is too large in magnitude. -/
lemma strtoull_eq (str : List UInt8) :
    strtoull str = match exactNumeral str with
      | none => ⟨0, false, none⟩
      | some (v, rest) =>
        if 2 ^ 64 ≤ v.natAbs then ⟨.ofNat (2 ^ 64 - 1), true, some rest⟩ else ⟨.ofInt v, false, some rest⟩ := by
  have cast : ∀ v : Nat, UInt64.ofInt v = .ofNat v := by
    intro v
    apply UInt64.toNat_inj.mp
    simp only [UInt64.ofInt, UInt64.toNat_ofNat']
    omega
  simp only [strtoull, exactNumeral]
  split
  · rfl
  · cases (takeSign (str.dropWhile isSpace)).1 with
    | true => simp [UInt64.ofInt_neg, cast]
    | false => simp [cast]

example : strtoull (ofChars [' ', '-', '0', 'x', '1', 'F', 'g']) = ⟨-31, false, some (ofChars ['g'])⟩ := by
  decide +kernel

example : strtoull (ofChars ['0', 'x', 'k']) = ⟨0, false, some (ofChars ['x', 'k'])⟩ := by decide +kernel

end CString
