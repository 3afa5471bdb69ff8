import Mathlib.Data.Finset.Basic

/-!
# Programs that keep books

Programs that make calls which may fail, take and give back items (memory, descriptors, threads), and print errors.
Which calls succeed is given from outside, as `ok : C → Bool`. The books list the items that are held and those that
some variable of the program names: a variable that names nothing is a null pointer or a descriptor -1. To give back
or to use an item that is not held, or to follow a null pointer, is a misuse, and ends the program.

`Ensures ok p Q b` says that `p`, started with the books `b`, comes to its end without a misuse, and with a result and
books that satisfy `Q`. The simp set computes it; a function with a return code gets a `Returns` for `Q`, and
`Ensures.returns` is the rule for its caller.
-/

namespace Ledger
variable {C R α β : Type}

/-- What a program must not do. -/
inductive Misuse (R : Type) where
  | null
  | missing (r : R)
  deriving DecidableEq, Repr

/-- The items that are held, those that are named, and the errors that were printed, latest first. -/
structure Books (R : Type) where
  held : Finset R
  named : Finset R
  errors : List String

/-- A program. -/
def Prog (C R α : Type) : Type :=
  (C → Bool) → Books R → Except (Misuse R) (α × Books R)

instance : Monad (Prog C R) where
  pure a := fun _ b => .ok (a, b)
  bind p f := fun ok b =>
    match p ok b with
    | .ok (a, b') => f a ok b'
    | .error e => .error e

/-- Whether a call succeeds. -/
def call (c : C) : Prog C R Bool :=
  fun ok b => .ok (ok c, b)

/-- To print an error. -/
def say (s : String) : Prog C R Unit :=
  fun _ b => .ok ((), { b with errors := s :: b.errors })

/-- To follow a null pointer. -/
def crash : Prog C R α :=
  fun _ _ => .error .null

/-- The program ends without a misuse, as `Q` says. -/
def Ensures (ok : C → Bool) (p : Prog C R α) (Q : α → Books R → Prop) (b : Books R) : Prop :=
  match p ok b with
  | .ok (a, b') => Q a b'
  | .error _ => False

/-- The two ways in which a function ends: with one result if all went well, and with another one otherwise. -/
inductive Returns (good : Prop) (done failed : α) (yes no : Books R → Prop) : α → Books R → Prop where
  | ok {b : Books R} (h : good) (post : yes b) : Returns good done failed yes no done b
  | fail {b : Books R} (h : ¬ good) (post : no b) : Returns good done failed yes no failed b

section Rules
variable {ok : C → Bool} {p : Prog C R α} {Q Q' : α → Books R → Prop} {b : Books R}

/-- A program that only returns. -/
@[simp]
lemma ensures_pure (a : α) : Ensures ok (pure a) Q b ↔ Q a b := Iff.rfl

/-- A sequence ensures what its second part does from where the first leaves off. -/
@[simp]
lemma ensures_bind (p : Prog C R α) (f : α → Prog C R β) {Q : β → Books R → Prop} :
    Ensures ok (p >>= f) Q b ↔ Ensures ok p (fun a b' => Ensures ok (f a) Q b') b := by
  have eq : (p >>= f) ok b = match p ok b with
    | .ok (a, b') => f a ok b'
    | .error e => .error e := rfl
  unfold Ensures
  rw [eq]
  cases p ok b <;> rfl

/-- A call returns what `ok` says of it. -/
@[simp]
lemma ensures_call {Q : Bool → Books R → Prop} (c : C) : Ensures ok (call c) Q b ↔ Q (ok c) b := Iff.rfl

/-- A message is put down. -/
@[simp]
lemma ensures_say {Q : Unit → Books R → Prop} (s : String) :
    Ensures ok (say s) Q b ↔ Q () { b with errors := s :: b.errors } := Iff.rfl

/-- A program that crashes ensures nothing. -/
@[simp]
lemma ensures_crash : ¬ Ensures ok crash Q b := id

/-- A call whose failure is handled. -/
lemma ensures_unless {c : C} {p p' : Prog C R α} :
    Ensures ok (call c >>= fun x => if (!x) = true then p' else p) Q b ↔
      (ok c = false → Ensures ok p' Q b) ∧ (ok c = true → Ensures ok p Q b) := by
  rw [ensures_bind, ensures_call]
  cases ok c <;> simp

/-- A program that ensures something returns. -/
lemma Ensures.exists (h : Ensures ok p Q b) : ∃ a b', p ok b = .ok (a, b') ∧ Q a b' := by
  unfold Ensures at h
  cases e : p ok b with
  | error x => simp [e] at h
  | ok x =>
    rw [e] at h
    exact ⟨_, _, rfl, h⟩

/-- A program ensures what follows from what it ensures. -/
lemma Ensures.mono (h : Ensures ok p Q b) (imp : ∀ a b', Q a b' → Q' a b') : Ensures ok p Q' b := by
  obtain ⟨a, b', e, q⟩ := h.exists
  simp only [Ensures, e]
  exact imp a b' q

/-- The caller of a function that returns goes on in one of two ways. -/
lemma Ensures.returns {f : α → Prog C R β} {Q : β → Books R → Prop} {good : Prop} {done failed : α}
    {yes no : Books R → Prop} (h : Ensures ok p (Returns good done failed yes no) b)
    (onward : good → ∀ b', yes b' → Ensures ok (f done) Q b')
    (back : ¬ good → ∀ b', no b' → Ensures ok (f failed) Q b') : Ensures ok (p >>= f) Q b := by
  refine (ensures_bind p f).mpr (h.mono ?_)
  rintro a b' (⟨good, post⟩ | ⟨bad, post⟩)
  · exact onward good b' post
  · exact back bad b' post

end Rules

variable [DecidableEq R]

/-- To take an item. -/
def gain (r : R) : Prog C R Unit :=
  fun _ b => .ok ((), { b with held := insert r b.held })

/-- To give an item back. -/
def drop (r : R) : Prog C R Unit :=
  fun _ b => if r ∈ b.held then .ok ((), { b with held := b.held.erase r }) else .error (.missing r)

/-- To use an item. -/
def touch (r : R) : Prog C R Unit :=
  fun _ b => if r ∈ b.held then .ok ((), b) else .error (.missing r)

/-- To store an item in its variable. -/
def name (r : R) : Prog C R Unit :=
  fun _ b => .ok ((), { b with named := insert r b.named })

/-- To clear the variable of an item. -/
def unname (r : R) : Prog C R Unit :=
  fun _ b => .ok ((), { b with named := b.named.erase r })

/-- Whether the variable of an item is set. -/
def isNamed (r : R) : Prog C R Bool :=
  fun _ b => .ok (r ∈ b.named, b)

section Rules
variable {ok : C → Bool} {Q : Unit → Books R → Prop} {b : Books R} {r : R}

/-- A resource that is taken is held. -/
@[simp]
lemma ensures_gain : Ensures ok (gain r) Q b ↔ Q () { b with held := insert r b.held } := Iff.rfl

/-- Only what is held can be given back. -/
@[simp]
lemma ensures_drop : Ensures ok (drop r) Q b ↔ r ∈ b.held ∧ Q () { b with held := b.held.erase r } := by
  by_cases h : r ∈ b.held <;> simp [Ensures, drop, h]

/-- Only what is held can be used. -/
@[simp]
lemma ensures_touch : Ensures ok (touch r) Q b ↔ r ∈ b.held ∧ Q () b := by
  by_cases h : r ∈ b.held <;> simp [Ensures, touch, h]

/-- A name that is given is known. -/
@[simp]
lemma ensures_name : Ensures ok (name r) Q b ↔ Q () { b with named := insert r b.named } := Iff.rfl

/-- A name that is withdrawn is not known any more. -/
@[simp]
lemma ensures_unname : Ensures ok (unname r) Q b ↔ Q () { b with named := b.named.erase r } := Iff.rfl

/-- Whether a name is known. -/
@[simp]
lemma ensures_isNamed {Q : Bool → Books R → Prop} : Ensures ok (isNamed r) Q b ↔ Q (decide (r ∈ b.named)) b := Iff.rfl

end Rules

end Ledger
