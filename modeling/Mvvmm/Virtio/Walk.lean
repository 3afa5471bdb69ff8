import Mathlib.Data.List.TakeWhile
import Mvvmm.Lib.Trail
import Mvvmm.Virtio.Copy

/-!
# Walking along a chain

The chains of a queue as the code meets them: it follows the 16-bit `next` links from entry to entry and compares
neither with the size of the queue. `IsChain m qs head l` says that the walk from `head` ends, that `get_desc` can read
every entry on the way, and that `l` are its descriptors. Such a chain has at most `2 ^ 16 + 1` of them
(`IsChain.length_le`), so that the scan of a chain always comes to its end.

`getDescRwSize_shape` and `getDescRwSize_badShape` say what `get_desc_rw_size` returns for a chain: the sums of the
lengths, wrapped to `int`, if the readable descriptors come before the writable ones, and -1 else.
-/

namespace Mvvmm.Virtio
open Bytes CMem Iter

variable {m m' : GuestMemMap} {qs : QueueState} {d e : VirtioDesc} {l R W T : List VirtioDesc} {n head : Nat} {x : Int}

/-- The list holds the descriptors that follow one along the `next` links. -/
inductive Follows (m : GuestMemMap) (qs : QueueState) : VirtioDesc → List VirtioDesc → Prop where
  | last {d : VirtioDesc} (next : d.isNext = false) : Follows m qs d []
  | link {d d' : VirtioDesc} {l : List VirtioDesc} (next : d.isNext = true)
    (desc : descAt m qs d.next.toNat = some d') (rest : Follows m qs d' l) : Follows m qs d (d' :: l)

/-- The chain with the given head consists of the descriptors in the list. -/
def IsChain (m : GuestMemMap) (qs : QueueState) (head : Nat) : List VirtioDesc → Prop
  | [] => False
  | d :: l => descAt m qs head = some d ∧ Follows m qs d l

/-- The indices of the entries of a chain. -/
def entries : Nat → List VirtioDesc → List Nat
  | _, [] => []
  | idx, d :: l => idx :: entries d.next.toNat l

/-- The descriptor that follows one, if there is one and `get_desc` can read it. -/
def nextDesc (m : GuestMemMap) (qs : QueueState) (d : VirtioDesc) : Option VirtioDesc :=
  if d.isNext then descAt m qs d.next.toNat else none

/-- Entry `i` of the descriptor table, or the cleared descriptor if `get_desc` cannot read it. -/
def entryOf (m : GuestMemMap) (qs : QueueState) (i : Fin (2 ^ 16)) : VirtioDesc :=
  (descAt m qs i).getD .zero

/-- The next descriptor can be read, and the others follow it. -/
lemma Follows.next {d' : VirtioDesc} (h : Follows m qs d (d' :: l)) :
    d.isNext = true ∧ descAt m qs d.next.toNat = some d' ∧ Follows m qs d' l := by
  cases h with
  | link next desc rest => exact ⟨next, desc, rest⟩

/-- The descriptors that follow form a trail. -/
lemma Follows.trail (h : Follows m qs d l) : Trail (nextDesc m qs) d l := by
  induction h with
  | last next => exact .stop (by simp [nextDesc, next])
  | link next desc _ ih => exact .step (by simp [nextDesc, next, desc]) ih

/-- A descriptor that can be read is one of the entries of the table. -/
lemma descAt_mem_range {next : UInt16} (h : descAt m qs next.toNat = some d) :
    d ∈ Set.range (entryOf m qs) :=
  ⟨⟨next.toNat, next.toNat_lt⟩, by simp [entryOf, h]⟩

/-- At most `2 ^ 16` descriptors follow one. -/
lemma Follows.length_le (h : Follows m qs d l) : l.length ≤ 2 ^ 16 := by
  refine h.trail.length_le (entryOf m qs) ?_
  intro x y e _
  simp only [nextDesc] at e
  split at e
  · exact descAt_mem_range e
  · cases e

/-- A chain is no longer than the table, but for its head. -/
lemma IsChain.length_le (h : IsChain m qs head l) : l.length ≤ 2 ^ 16 + 1 := by
  cases l with
  | nil => simp
  | cons d l => exact Nat.succ_le_succ h.2.length_le

/-- The end of a chain follows what is before it. -/
lemma Follows.drop (h : Follows m qs d l) (eq : d :: l = R ++ e :: T) : Follows m qs e T := by
  induction R generalizing d l with
  | nil =>
    obtain ⟨rfl, rfl⟩ := List.cons.inj eq
    exact h
  | cons r R ih =>
    obtain ⟨rfl, rfl⟩ := List.cons.inj eq
    cases R with
    | nil => exact (Follows.next h).2.2
    | cons r R => exact ih (Follows.next h).2.2 rfl

/-- The way to a later descriptor goes through the next one. -/
lemma Follows.step (h : Follows m qs d (R ++ e :: T)) :
    ∃ d' l, R ++ e :: T = d' :: l ∧ d.isNext = true ∧ descAt m qs d.next.toNat = some d' ∧ Follows m qs d' l := by
  obtain ⟨d', l, eq⟩ := List.exists_cons_of_ne_nil (show R ++ e :: T ≠ [] by simp)
  rw [eq] at h
  exact ⟨d', l, eq, h.next⟩

/-! ## Lengths and shape -/

/-- The number of bytes of some descriptors. -/
def total (l : List VirtioDesc) : Nat :=
  (l.map fun d => d.len.toNat).sum

/-- No descriptors have no bytes. -/
@[simp]
lemma total_nil : total [] = 0 := rfl

/-- The bytes of the first descriptor and of the others. -/
@[simp]
lemma total_cons : total (d :: l) = d.len.toNat + total l := by
  simp [total]

/-- The bytes of two lists of descriptors. -/
@[simp]
lemma total_append : total (R ++ W) = total R + total W := by
  simp [total]

/-- The part of a chain before its first writable descriptor. -/
def readablePart (l : List VirtioDesc) : List VirtioDesc :=
  l.takeWhile fun d => !d.isWrite

/-- The part of a chain from its first writable descriptor on. -/
def writablePart (l : List VirtioDesc) : List VirtioDesc :=
  l.dropWhile fun d => !d.isWrite

/-- The readable descriptors come before the writable ones. -/
def Shaped (l : List VirtioDesc) : Prop :=
  ∃ R W, l = R ++ W ∧ (∀ d ∈ R, d.isWrite = false) ∧ ∀ d ∈ W, d.isWrite = true

/-- A chain is its readable and its writable part. -/
lemma readablePart_append_writablePart (l : List VirtioDesc) : readablePart l ++ writablePart l = l :=
  List.takeWhile_append_dropWhile

/-- The descriptors of the readable part are readable. -/
lemma readablePart_readable (h : d ∈ readablePart l) : d.isWrite = false := by
  simpa using List.mem_takeWhile_imp h

/-- The second part of a chain begins with a writable descriptor. -/
lemma writablePart_head (h : writablePart l = d :: T) : d.isWrite = true := by
  have first := List.head?_dropWhile_not (fun d : VirtioDesc => !d.isWrite) l
  rw [show l.dropWhile (fun d => !d.isWrite) = d :: T from h] at first
  simpa using first

/-- The two parts of a chain of good shape. -/
lemma parts_of_append (hR : ∀ d ∈ R, d.isWrite = false) (hW : ∀ d ∈ W, d.isWrite = true) :
    readablePart (R ++ W) = R ∧ writablePart (R ++ W) = W := by
  induction R with
  | nil =>
    cases W with
    | nil => exact ⟨rfl, rfl⟩
    | cons w W => simp [readablePart, writablePart, hW w (by simp)]
  | cons r R ih =>
    obtain ⟨h1, h2⟩ := ih (fun d hd => hR d (by simp [hd]))
    simp only [readablePart, writablePart] at h1 h2
    simp [readablePart, writablePart, hR r (by simp), h1, h2]

/-- Behind the first writable descriptor of a chain of good shape all are writable. -/
lemma Shaped.writable (h : Shaped l) (hd : d ∈ writablePart l) : d.isWrite = true := by
  obtain ⟨R, W, rfl, hR, hW⟩ := h
  rw [(parts_of_append hR hW).2] at hd
  exact hW d hd

/-- A chain of bad shape has a readable descriptor behind a writable one. -/
lemma exists_of_not_shaped (h : ¬ Shaped l) :
    ∃ R w W r T, l = R ++ w :: (W ++ r :: T) ∧ (∀ d ∈ R, d.isWrite = false) ∧ w.isWrite = true ∧
      (∀ d ∈ W, d.isWrite = true) ∧ r.isWrite = false := by
  have split := readablePart_append_writablePart l
  cases rest : writablePart l with
  | nil =>
    rw [rest, List.append_nil] at split
    exact absurd ⟨l, [], by simp, fun d hd => readablePart_readable (split ▸ hd), nofun⟩ h
  | cons w L =>
    have hw := writablePart_head rest
    have split' : L.takeWhile (·.isWrite) ++ L.dropWhile (·.isWrite) = L := List.takeWhile_append_dropWhile
    cases rest' : L.dropWhile (·.isWrite) with
    | nil =>
      rw [rest', List.append_nil] at split'
      refine absurd ⟨readablePart l, w :: L, by rw [← rest, split], fun d hd => readablePart_readable hd, ?_⟩ h
      intro d hd
      rcases List.mem_cons.mp hd with rfl | hd
      · exact hw
      · exact List.mem_takeWhile_imp (split' ▸ hd)
    | cons r T =>
      have hr : r.isWrite = false := by
        have first := List.head?_dropWhile_not (fun d : VirtioDesc => d.isWrite) L
        rw [rest'] at first
        simpa using first
      refine ⟨readablePart l, w, L.takeWhile (·.isWrite), r, T, ?_, fun d hd => readablePart_readable hd, hw,
        fun d hd => List.mem_takeWhile_imp hd, hr⟩
      rw [← rest', split', ← rest, split]

/-! ## The scan -/

/-- A round of the first loop that goes on. -/
lemma scanRead_link (hd : d.isWrite = false) (next : d.isNext = true) (desc : descAt m qs d.next.toNat = some e) :
    scanRead m qs (n + 1) d x = scanRead m qs n e (i32 (x + d.len.toNat)) := by
  simp only [scanRead, hd, next, getDesc_eq, desc, ok_bind, Bool.false_eq_true, if_false, Bool.not_true]

/-- A round of the second loop that goes on. -/
lemma scanWrite_link (hd : d.isWrite = true) (next : d.isNext = true) (desc : descAt m qs d.next.toNat = some e) :
    scanWrite m qs (n + 1) d x = scanWrite m qs n e (i32 (x + d.len.toNat)) := by
  simp only [scanWrite, hd, next, getDesc_eq, desc, ok_bind, Bool.false_eq_true, if_false, Bool.not_true]

/-- The first loop sums up a chain that is all readable. -/
lemma scanRead_last (follows : Follows m qs d l) (hR : ∀ e ∈ d :: l, e.isWrite = false) (hx : IsInt x)
    (hn : l.length < n) : scanRead m qs n d x = .ok (none, i32 (x + total (d :: l))) := by
  induction follows generalizing x n with
  | @last d next =>
    obtain ⟨n, rfl⟩ : ∃ k, n = k + 1 := ⟨n - 1, by simp at hn; omega⟩
    simp [scanRead, hR d (by simp), next, pure, Except.pure]
  | @link d d' l next desc rest ih =>
    obtain ⟨n, rfl⟩ : ∃ k, n = k + 1 := ⟨n - 1, by simp at hn; omega⟩
    rw [scanRead_link (hR d (by simp)) next desc,
      ih (fun e he => hR e (by simp [he])) (i32_bounds _) (by simp at hn; omega), i32_add_i32]
    simp only [total_cons]
    rw [show x + (d.len.toNat : Int) + ((d'.len.toNat + total l : Nat) : Int) =
      x + ((d.len.toNat + (d'.len.toNat + total l) : Nat) : Int) from by omega]

/-- The first loop sums up the readable descriptors and breaks at the first writable one. -/
lemma scanRead_write (follows : Follows m qs d l) (eq : d :: l = R ++ e :: W)
    (hR : ∀ d ∈ R, d.isWrite = false) (he : e.isWrite = true) (hx : IsInt x) (hn : R.length < n) :
    scanRead m qs n d x = .ok (some e, i32 (x + total R)) := by
  induction R generalizing d l x n with
  | nil =>
    obtain ⟨n, rfl⟩ : ∃ k, n = k + 1 := ⟨n - 1, by simp at hn; omega⟩
    obtain ⟨rfl, rfl⟩ := List.cons.inj eq
    simp [scanRead, he, i32_of_range hx.1 hx.2, pure, Except.pure]
  | cons r R ih =>
    obtain ⟨n, rfl⟩ : ∃ k, n = k + 1 := ⟨n - 1, by simp at hn; omega⟩
    simp only [List.cons_append, List.cons.injEq] at eq
    obtain ⟨rfl, rfl⟩ := eq
    obtain ⟨d', l', eq, next, desc, rest⟩ := follows.step
    rw [scanRead_link (hR d (by simp)) next desc,
      ih rest eq.symm (fun d hd => hR d (by simp [hd])) (i32_bounds _) (by simp at hn; omega), i32_add_i32, total_cons,
      show x + (d.len.toNat : Int) + (total R : Int) = x + ((d.len.toNat + total R : Nat) : Int) from by omega]

/-- The second loop sums up the rest of a chain that is all writable. -/
lemma scanWrite_last (follows : Follows m qs d l) (hW : ∀ e ∈ d :: l, e.isWrite = true) (hn : l.length < n) :
    scanWrite m qs n d x = .ok (some (i32 (x + total (d :: l)))) := by
  induction follows generalizing x n with
  | @last d next =>
    obtain ⟨n, rfl⟩ : ∃ k, n = k + 1 := ⟨n - 1, by simp at hn; omega⟩
    simp [scanWrite, hW d (by simp), next, pure, Except.pure]
  | @link d d' l next desc rest ih =>
    obtain ⟨n, rfl⟩ : ∃ k, n = k + 1 := ⟨n - 1, by simp at hn; omega⟩
    rw [scanWrite_link (hW d (by simp)) next desc, ih (fun e he => hW e (by simp [he])) (by simp at hn; omega),
      i32_add_i32]
    simp only [total_cons]
    rw [show x + (d.len.toNat : Int) + ((d'.len.toNat + total l : Nat) : Int) =
      x + ((d.len.toNat + (d'.len.toNat + total l) : Nat) : Int) from by omega]

/-- The second loop gives up at a readable descriptor. -/
lemma scanWrite_turn (follows : Follows m qs d l) (eq : d :: l = W ++ e :: T) (hW : ∀ d ∈ W, d.isWrite = true)
    (he : e.isWrite = false) (hn : W.length < n) : scanWrite m qs n d x = .ok none := by
  induction W generalizing d l x n with
  | nil =>
    obtain ⟨n, rfl⟩ : ∃ k, n = k + 1 := ⟨n - 1, by simp at hn; omega⟩
    obtain ⟨rfl, rfl⟩ := List.cons.inj eq
    simp [scanWrite, he, pure, Except.pure]
  | cons w W ih =>
    obtain ⟨n, rfl⟩ : ∃ k, n = k + 1 := ⟨n - 1, by simp at hn; omega⟩
    simp only [List.cons_append, List.cons.injEq] at eq
    obtain ⟨rfl, rfl⟩ := eq
    obtain ⟨d', l', eq, next, desc, rest⟩ := follows.step
    rw [scanWrite_link (hW d (by simp)) next desc]
    exact ih rest eq.symm (fun d hd => hW d (by simp [hd])) (by simp at hn; omega)

/-- 0 is an `int`. -/
lemma isInt_zero : IsInt 0 := by
  unfold IsInt
  omega

/-- For a chain of good shape the scan returns the sums of the lengths, as `int`s. -/
lemma getDescRwSize_shape (chain : IsChain m qs head (R ++ W)) (hR : ∀ d ∈ R, d.isWrite = false)
    (hW : ∀ d ∈ W, d.isWrite = true) :
    getDescRwSize m qs head = .ok (some (i32 (total R), i32 (total W))) := by
  obtain ⟨d, l, eq⟩ : ∃ d l, R ++ W = d :: l := by
    cases e : R ++ W with
    | nil =>
      rw [e] at chain
      exact chain.elim
    | cons d l => exact ⟨d, l, rfl⟩
  rw [eq] at chain
  obtain ⟨desc, follows⟩ := chain
  have len := follows.length_le
  have fuel : 2 ^ 16 + 1 < scanFuel := by decide
  have length := congrArg List.length eq
  simp only [List.length_append, List.length_cons] at length
  simp only [getDescRwSize, getDesc_eq, desc, ok_bind]
  cases W with
  | nil =>
    -- no writable descriptor: the first loop comes to the end of the chain
    rw [List.append_nil] at eq
    rw [scanRead_last follows (eq ▸ hR) isInt_zero (by omega), ← eq]
    simp [pure, Except.pure, i32]
  | cons w W =>
    simp only [List.length_cons] at length
    rw [scanRead_write follows eq.symm hR (hW w (by simp)) isInt_zero (by omega)]
    simp only [ok_bind]
    rw [scanWrite_last (follows.drop eq.symm) hW (by omega)]
    simp [pure, Except.pure]

/-- The sums do not wrap if they are below `2 ^ 31`. -/
lemma getDescRwSize_sums (chain : IsChain m qs head (R ++ W)) (hR : ∀ d ∈ R, d.isWrite = false)
    (hW : ∀ d ∈ W, d.isWrite = true) (bytes : total R + total W < 2 ^ 31) :
    getDescRwSize m qs head = .ok (some ((total R : Int), (total W : Int))) := by
  rw [getDescRwSize_shape chain hR hW, i32_of_range (by omega) (by omega), i32_of_range (by omega) (by omega)]

/-- For a chain of bad shape the scan returns -1. -/
lemma getDescRwSize_badShape (chain : IsChain m qs head l) (bad : ¬ Shaped l) :
    getDescRwSize m qs head = .ok none := by
  obtain ⟨R, w, W, r, T, eq, hR, hw, hW, hr⟩ := exists_of_not_shaped bad
  cases l with
  | nil => exact chain.elim
  | cons d l =>
    obtain ⟨desc, follows⟩ := chain
    have len := follows.length_le
    have fuel : 2 ^ 16 + 1 < scanFuel := by decide
    have length := congrArg List.length eq
    simp only [List.length_append, List.length_cons] at length
    have turn : scanWrite m qs scanFuel w 0 = .ok none := by
      refine scanWrite_turn (W := w :: W) (follows.drop eq) rfl ?_ hr (by rw [List.length_cons]; omega)
      intro d hd
      rcases List.mem_cons.mp hd with rfl | hd
      · exact hw
      · exact hW d hd
    simp only [getDescRwSize, getDesc_eq, desc, ok_bind]
    rw [scanRead_write follows eq hR hw isInt_zero (by omega)]
    simp only [ok_bind, turn]
    rfl

end Mvvmm.Virtio
