import Mvvmm.Virtio.Parts

/-!
# The copier on a chain

What `memcpy_to_from_queue` does on any chain whose lengths sum up to less than `2 ^ 31`. It works on a run of
descriptors (`runOf`): the readable ones at the start of the chain, or the first writable ones.

* `memcpyToFromQueue_done`: if the bytes lie in the run and none of its three loops meets more than 1025 descriptors
  (`Reaches`), the copier copies the pieces one after the other and returns 0,
* `memcpyToFromQueue_short`: else it returns -1.

When it copies to the chain the guest memory changes under it, so there the entries that it is still to read have to be
apart from the buffers it writes (`ClearAhead`). The scan of a chain has no such limit on the descriptors it meets
(`memcpyQueue_agrees`).
-/

namespace Mvvmm.Virtio
open Bytes CMem

variable {m : GuestMemMap} {qs : QueueState} {buf : Obj} {d e : VirtioDesc} {l P R W S T : List VirtioDesc}
  {n head off pos count : Nat} {toQueue : Bool}

/-! ## The three loops -/

/-- The list is empty or its first descriptor is not for copies in this direction. -/
def RunEnds (toQueue : Bool) (T : List VirtioDesc) : Prop :=
  ∀ t ∈ T.head?, t.isWrite ≠ toQueue

/-- What is left of a descriptor, as an `int`. -/
lemma remaining_eq (h : off ≤ d.len.toNat) (hd : d.len.toNat < 2 ^ 31) :
    remaining d off = ((d.len.toNat - off : Nat) : Int) := by
  rw [remaining, i32_of_range (by omega) (by omega)]
  omega

/-- A round of the third loop that is its last one. -/
lemma copyLoop_within (hd : d.len.toNat < 2 ^ 31) (h : off + count ≤ d.len.toNat) :
    copyLoop qs toQueue (n + 1) m buf d off pos count =
      (copyStep m buf toQueue (d.addr + .ofNat off) pos count >>= fun s => .ok (0, s.1, s.2)) := by
  rw [copyLoop_succ (by omega) (by omega), remaining_eq (by omega) hd, ofInt_natCast,
    show min (count : Int) ((d.len.toNat - off : Nat) : Int) = (count : Int) from by omega]
  simp only [if_pos (show (count : Int) ≤ ((d.len.toNat - off : Nat) : Int) by omega)]

/-- A round of the third loop that uses up the descriptor. -/
lemma copyLoop_across (hd : d.len.toNat < 2 ^ 31) (hc : count < 2 ^ 31) (hoff : off ≤ d.len.toNat)
    (h : d.len.toNat < off + count) :
    copyLoop qs toQueue (n + 1) m buf d off pos count =
      (copyStep m buf toQueue (d.addr + .ofNat off) pos ((d.len.toNat - off : Nat) : Int) >>= fun s =>
        if !d.isNext then .ok (-1, s.1, s.2)
        else match descAt s.1 qs d.next.toNat with
          | none => .ok (-1, s.1, s.2)
          | some d' =>
            if d'.isWrite != toQueue then .ok (-1, s.1, s.2)
            else copyLoop qs toQueue n s.1 s.2 d' ((0 : Nat) : Int) ((pos + (d.len.toNat - off) : Nat) : Int)
              ((count - (d.len.toNat - off) : Nat) : Int)) := by
  obtain ⟨k, hk⟩ : ∃ k, k = d.len.toNat - off := ⟨_, rfl⟩
  rw [copyLoop_succ (by omega) (by omega), remaining_eq hoff hd, ofInt_natCast, ← hk,
    show min (count : Int) (k : Int) = (k : Int) from by omega, i32_of_range (by omega) (by omega),
    show (count : Int) - (k : Int) = ((count - k : Nat) : Int) from by omega,
    show (pos : Int) + (k : Int) = ((pos + k : Nat) : Int) from by omega]
  simp only [if_neg (show ¬ (count : Int) ≤ (k : Int) by omega)]
  rfl

/-- The third loop copies the pieces and returns 0 if they lie in the run and it has enough rounds. -/
lemma copyLoop_done (leads : Leads m qs (e :: S)) (hS : ∀ d ∈ S, d.isWrite = toQueue)
    (lens : ∀ d ∈ e :: S, d.len.toNat < 2 ^ 31) (hoff : off ≤ e.len.toNat) (h0 : 0 < count) (hcount : count < 2 ^ 31)
    (hc : off + count ≤ total (e :: S)) (hn : descIndex (e :: S) (off + count - 1) < n)
    (clear : toQueue = true → ClearAhead qs (e :: S) []) :
    copyLoop qs toQueue n m buf e off pos count =
      (copyParts toQueue (m, buf) (parts (e :: S) off pos count) >>= fun s => .ok (0, s.1, s.2)) := by
  -- The memory changes with each piece, so the rest of the run is carried along as `leads` and `clear`.
  induction S generalizing m buf e off pos count n with
  | nil =>
    obtain ⟨n, rfl⟩ : ∃ j, n = j + 1 := ⟨n - 1, by omega⟩
    rw [total_cons, total_nil] at hc
    rw [copyLoop_within (lens e (by simp)) (by omega), copyParts_within h0 (by omega)]
  | cons s S ih =>
    obtain ⟨n, rfl⟩ : ∃ j, n = j + 1 := ⟨n - 1, by omega⟩
    have len := lens e (by simp)
    rw [total_cons] at hc
    by_cases hle : off + count ≤ e.len.toNat
    · rw [copyLoop_within len hle, copyParts_within h0 hle]
    · rw [copyLoop_across len hcount hoff (by omega), copyParts_across hoff (by omega), bind_assoc]
      cases step : copyStep m buf toQueue (e.addr + .ofNat off) pos ((e.len.toNat - off : Nat) : Int) with
      | error x => rfl
      | ok r =>
        obtain ⟨size, same⟩ := eqOn_entries step (l := s :: S) (by omega) fun t => by
          simpa using (clear t).1
        obtain ⟨next, desc, rest⟩ := Leads.next (leads.congr size same)
        simp only [ok_bind, next, desc, hS s (by simp), Bool.not_true, bne_self_eq_false, Bool.false_eq_true,
          if_false]
        rw [descIndex, if_neg (by omega)] at hn
        refine ih rest (fun d hd => hS d (by simp [hd])) (fun d hd => lens d (by simp [hd])) (Nat.zero_le _) (by omega)
          (by omega) (by omega) ?_ (fun t => (clear t).2)
        rw [show 0 + (count - (e.len.toNat - off)) - 1 = off + count - 1 - e.len.toNat from by omega]
        omega

/-- The third loop returns -1 if the run is too short or it has not enough rounds. -/
lemma copyLoop_short (follows : Follows m qs e (S ++ T)) (ends : RunEnds toQueue T)
    (hS : ∀ d ∈ S, d.isWrite = toQueue) (hs : total (e :: S) < 2 ^ 31) (hoff : off ≤ e.len.toNat)
    (h0 : 0 < count) (hc : count < 2 ^ 31) (hb : pos + count ≤ buf.size)
    (short : total (e :: S) < off + count ∨ n ≤ descIndex (e :: S) (off + count - 1))
    (clear : toQueue = true → ClearAhead qs (e :: S) T) :
    ∃ m' buf', copyLoop qs toQueue n m buf e off pos count = .ok (-1, m', buf') := by
  induction n generalizing m buf e off pos count S with
  | zero => exact ⟨m, buf, rfl⟩
  | succ n ih =>
    rw [total_cons] at hs short
    have hgt : e.len.toNat < off + count := by
      by_contra hle
      rw [descIndex] at short
      split at short <;> omega
    rw [copyLoop_across (by omega) hc hoff hgt]
    obtain ⟨m₁, b₁, step, -, size⟩ : ∃ m' buf', copyStep m buf toQueue (e.addr + .ofNat off) pos
        ((e.len.toNat - off : Nat) : Int) = .ok (m', buf') ∧ m'.size = m.size ∧ buf'.size = buf.size :=
      copyStep_safe _ (by omega) (by omega)
    have kept : Follows m₁ qs e (S ++ T) := by
      obtain ⟨size, same⟩ := eqOn_entries step (by omega) fun t => (clear t).1
      exact follows.congr size same
    rw [step, ok_bind]
    cases S with
    | nil =>
      -- The run ends here: the chain does too, or it goes on in the other direction.
      cases T with
      | nil =>
        cases kept with
        | last next => exact ⟨m₁, b₁, by simp [next]⟩
      | cons t T =>
        obtain ⟨next, desc, -⟩ := Follows.next kept
        have other : (t.isWrite != toQueue) = true := by simpa using ends t (by simp)
        exact ⟨m₁, b₁, by simp [next, desc, other]⟩
    | cons s S =>
      obtain ⟨next, desc, rest⟩ := Follows.next kept
      simp only [next, desc, hS s (by simp), Bool.not_true, bne_self_eq_false, Bool.false_eq_true, if_false]
      rw [descIndex, if_neg (by omega)] at short
      refine ih rest (fun d hd => hS d (by simp [hd])) (by omega) (Nat.zero_le _) (by omega) (by omega) (by omega)
        ?_ (fun t => (clear t).2)
      rw [show 0 + (count - (e.len.toNat - off)) - 1 = off + count - 1 - e.len.toNat from by omega]
      omega

/-- The second loop finds the descriptor that holds the byte at the offset. -/
lemma findOffset_done (leads : Leads m qs (e :: S)) (hS : ∀ d ∈ e :: S, d.isWrite = toQueue)
    (hoff : off < total (e :: S)) (lt : off < 2 ^ 31) (hn : descIndex (e :: S) off < n) :
    ∃ P e' S' off', e :: S = P ++ e' :: S' ∧ off = total P + off' ∧ off' < e'.len.toNat ∧
      findOffset m qs toQueue n e off = .ok (some (e', (off' : Int))) := by
  have hu : u32 (off : Int) = off := by
    simp only [u32]
    omega
  induction S generalizing e off n with
  | nil =>
    obtain ⟨n, rfl⟩ : ∃ j, n = j + 1 := ⟨n - 1, by omega⟩
    rw [total_cons, total_nil] at hoff
    refine ⟨[], e, [], off, rfl, by simp, by omega, ?_⟩
    rw [findOffset_succ, hu, hS e (by simp), if_neg (by simp), if_pos (by omega)]
  | cons s S ih =>
    obtain ⟨n, rfl⟩ : ∃ j, n = j + 1 := ⟨n - 1, by omega⟩
    obtain ⟨next, desc, rest⟩ := Leads.next leads
    rw [total_cons] at hoff
    rw [descIndex] at hn
    rw [findOffset_succ, hu, hS e (by simp), if_neg (by simp)]
    by_cases hlt : off < e.len.toNat
    · exact ⟨[], e, s :: S, off, rfl, by simp, hlt, by rw [if_pos hlt]⟩
    · rw [if_neg hlt] at hn
      obtain ⟨P, e', S', off', eq, eo, lt', find⟩ := ih rest (fun d hd => hS d (List.mem_cons_of_mem _ hd))
        (show off - e.len.toNat < total (s :: S) by omega) (by omega) (Nat.lt_of_succ_lt_succ hn)
        (by simp only [u32]; omega)
      refine ⟨e :: P, e', S', off', by rw [eq]; rfl, by rw [total_cons]; omega, lt', ?_⟩
      rw [if_neg hlt, if_neg (by simp [next]), desc]
      simp only
      rw [i32_of_range (by omega) (by omega),
        show (off : Int) - (e.len.toNat : Int) = ((off - e.len.toNat : Nat) : Int) from by omega, find]

/-- The second loop gives up if the offset, as the `uint32_t` it is compared as, lies behind the run, or if it has not
enough rounds. -/
lemma findOffset_short {offset : Int} (follows : Follows m qs e (S ++ T)) (ends : RunEnds toQueue T)
    (hS : ∀ d ∈ e :: S, d.isWrite = toQueue)
    (short : total (e :: S) ≤ u32 offset ∨ n ≤ descIndex (e :: S) (u32 offset)) :
    findOffset m qs toQueue n e offset = .ok none := by
  induction n generalizing e offset S with
  | zero => rfl
  | succ n ih =>
    rw [total_cons, descIndex] at short
    have hge : ¬ u32 offset < e.len.toNat := by
      intro lt
      rw [if_pos lt] at short
      omega
    rw [if_neg hge] at short
    rw [findOffset_succ, hS e (by simp), if_neg (by simp), if_neg hge]
    cases S with
    | nil =>
      -- Behind the run the loop meets the end of the chain or, in its next round, the other direction.
      cases T with
      | nil =>
        cases follows with
        | last next => simp [next]
      | cons t T =>
        obtain ⟨next, desc, -⟩ := Follows.next follows
        have other : (t.isWrite != toQueue) = true := by simpa using ends t (by simp)
        rw [if_neg (by simp [next]), desc]
        cases n with
        | zero => rfl
        | succ n => simp only [findOffset_succ, other, if_true]
    | cons s S =>
      obtain ⟨next, desc, rest⟩ := Follows.next follows
      -- The subtraction wraps to `int`, but the comparison is made as `uint32_t`.
      have step : u32 (i32 (offset - e.len.toNat)) = u32 offset - e.len.toNat := by
        simp only [u32, i32] at hge ⊢
        omega
      rw [if_neg (by simp [next]), desc]
      refine ih rest (fun d hd => hS d (List.mem_cons_of_mem _ hd)) ?_
      rw [step]
      omega

/-- The first loop finds the first writable descriptor. -/
lemma findWrite_done {w : VirtioDesc} (leads : Leads m qs (d :: l)) (eq : d :: l = R ++ w :: W)
    (hR : ∀ d ∈ R, d.isWrite = false) (hw : w.isWrite = true) (hn : R.length < n) :
    findWrite m qs n d = .ok (some w) := by
  induction R generalizing d l n with
  | nil =>
    obtain ⟨n, rfl⟩ : ∃ k, n = k + 1 := ⟨n - 1, by simp at hn; omega⟩
    cases eq
    rw [findWrite_succ, if_pos hw]
  | cons r R ih =>
    obtain ⟨n, rfl⟩ : ∃ k, n = k + 1 := ⟨n - 1, by simp at hn; omega⟩
    simp only [List.cons_append, List.cons.injEq] at eq
    obtain ⟨rfl, eq⟩ := eq
    cases l with
    | nil => simp at eq
    | cons d' l =>
      obtain ⟨next, desc, rest⟩ := Leads.next leads
      rw [findWrite_succ, hR d (by simp), next, desc]
      exact ih rest eq (fun d hd => hR d (by simp [hd])) (by simp at hn; omega)

/-- The first loop gives up behind readable descriptors if they are the whole chain or too many. -/
lemma findWrite_short (follows : Follows m qs d l) (eq : d :: l = R ++ W) (hR : ∀ d ∈ R, d.isWrite = false)
    (short : W = [] ∨ n ≤ R.length) : findWrite m qs n d = .ok none := by
  induction n generalizing d l R with
  | zero => rfl
  | succ n ih =>
    cases R with
    | nil =>
      simp only [List.nil_append] at eq
      rcases short with rfl | short
      · cases eq
      · simp at short
    | cons r R =>
      simp only [List.cons_append, List.cons.injEq] at eq
      obtain ⟨rfl, rfl⟩ := eq
      rw [findWrite_succ, hR d (by simp), if_neg (by simp)]
      cases eq : R ++ W with
      | nil =>
        rw [eq] at follows
        cases follows with
        | last next => simp [next]
      | cons d' l' =>
        rw [eq] at follows
        obtain ⟨next, desc, rest⟩ := follows.next
        rw [if_neg (by simp [next]), desc]
        refine ih rest eq.symm (fun d hd => hR d (by simp [hd])) ?_
        exact short.imp_right Nat.le_of_succ_le_succ

/-! ## The copier -/

/-- The descriptors that the copier works on: the readable ones at the start of the chain, or the writable ones that
come first. -/
def runOf (toQueue : Bool) (l : List VirtioDesc) : List VirtioDesc :=
  if toQueue then (writablePart l).takeWhile (·.isWrite) else readablePart l

/-- What comes after the run. -/
def afterRun (toQueue : Bool) (l : List VirtioDesc) : List VirtioDesc :=
  if toQueue then (writablePart l).dropWhile (·.isWrite) else writablePart l

/-- Less than 1025 descriptors come before the one that holds the first byte, and less than 1025 from there to the one
that holds the last byte. -/
structure Near (l : List VirtioDesc) (off count : Nat) : Prop where
  first : descIndex l off < loopMax
  last : descIndex l (off + count - 1) < descIndex l off + loopMax

/-- The bytes lie in the run, and the loops of the copier get to them: each gives up after 1025 descriptors. -/
structure Reaches (toQueue : Bool) (l : List VirtioDesc) (off count : Nat) : Prop where
  bytes : off + count ≤ total (runOf toQueue l)
  skip : toQueue = true → (readablePart l).length < loopMax
  near : Near (runOf toQueue l) off count

/-- The descriptors of a run go in one direction. -/
lemma runOf_isWrite (h : d ∈ runOf toQueue l) : d.isWrite = toQueue := by
  cases toQueue with
  | true => exact List.mem_takeWhile_imp h
  | false => exact readablePart_readable h

/-- Behind a run comes nothing, or a descriptor of the other direction. -/
lemma runEnds_afterRun : RunEnds toQueue (afterRun toQueue l) := by
  intro t ht
  cases toQueue with
  | true =>
    have first := List.head?_dropWhile_not (fun d : VirtioDesc => d.isWrite) (writablePart l)
    rw [show (writablePart l).dropWhile (fun d => d.isWrite) = afterRun true l from rfl,
      Option.mem_def.mp ht] at first
    simpa using first
  | false =>
    obtain ⟨T, eq⟩ := List.head?_eq_some_iff.mp ht
    simp [writablePart_head eq]

/-- What comes before the run. -/
def beforeRun (toQueue : Bool) (l : List VirtioDesc) : List VirtioDesc :=
  if toQueue then readablePart l else []

/-- The three parts of a chain. -/
lemma append_run (toQueue : Bool) (l : List VirtioDesc) :
    beforeRun toQueue l ++ (runOf toQueue l ++ afterRun toQueue l) = l := by
  cases toQueue with
  | false => exact readablePart_append_writablePart l
  | true =>
    rw [show runOf true l ++ afterRun true l = writablePart l from List.takeWhile_append_dropWhile]
    exact readablePart_append_writablePart l

/-- Where the run is in the chain. -/
lemma eq_of_run (run : runOf toQueue l = e :: S) : l = beforeRun toQueue l ++ e :: (S ++ afterRun toQueue l) := by
  rw [← List.cons_append, ← run, append_run]

/-- Only the copies to a chain have something before their run: readable descriptors. -/
lemma mem_beforeRun (h : d ∈ beforeRun toQueue l) : toQueue = true ∧ d.isWrite = false := by
  cases toQueue with
  | false => cases h
  | true => exact ⟨rfl, readablePart_readable h⟩

/-- The entries of the rest of a chain. -/
lemma mem_entries_drop {idx i : Nat} (eq : d :: l = P ++ e :: T) (h : i ∈ entries e.next.toNat T) :
    i ∈ entries idx (d :: l) := by
  induction P generalizing d l idx with
  | nil =>
    obtain ⟨rfl, rfl⟩ := List.cons.inj eq
    simp [entries, h]
  | cons p P ih =>
    simp only [List.cons_append, List.cons.injEq] at eq
    obtain ⟨rfl, rfl⟩ := eq
    rw [entries]
    cases eq' : P ++ e :: T with
    | nil => simp at eq'
    | cons d' l' => exact List.mem_cons_of_mem _ (ih eq'.symm)

/-- Buffers apart from all entries of a chain are apart from those that come after them. -/
lemma Clear.ahead (clear : Clear qs (entries head l) S) (eq : l = P ++ (S ++ T)) : ClearAhead qs S T := by
  induction S generalizing P with
  | nil => trivial
  | cons e S ih =>
    refine ⟨fun idx hi => clear idx ?_ e (by simp), ih (clear.mono (fun _ hi => hi) (by simp +contextual)) (P := P ++ [e])
      (by simpa using eq)⟩
    cases l with
    | nil => simp at eq
    | cons d l => exact mem_entries_drop eq hi

/-- The copier finds the descriptor that holds the first byte. -/
lemma locate_done (begins : Begins m qs head (P ++ S)) (before : ∀ d ∈ P, toQueue = true ∧ d.isWrite = false)
    (dir : ∀ d ∈ S, d.isWrite = toQueue) (hoff : off < total S) (lt : off < 2 ^ 31) (skip : P.length < loopMax)
    (first : descIndex S off < loopMax) :
    ∃ Q e S' off', S = Q ++ e :: S' ∧ off = total Q + off' ∧ off' < e.len.toNat ∧
      locate m qs head off toQueue = .ok (some (e, (off' : Int))) := by
  cases S with
  | nil => simp at hoff
  | cons e S =>
    cases eq : P ++ e :: S with
    | nil => simp at eq
    | cons d l =>
      rw [eq] at begins
      obtain ⟨desc, leads⟩ := begins
      have rest : Leads m qs (e :: S) := List.IsChain.right_of_append (eq ▸ leads)
      rw [locate_eq, desc]
      cases toQueue with
      | false =>
        -- A copy from the chain starts with the first descriptor.
        cases P with
        | nil =>
          obtain ⟨rfl, -⟩ := List.cons.inj eq
          exact findOffset_done rest dir hoff lt first
        | cons p P => cases (before p (by simp)).1
      | true =>
        simp only [if_true, findWrite_done leads eq.symm (fun d hd => (before d hd).2) (dir e (by simp)) skip, ok_bind]
        exact findOffset_done rest dir hoff lt first

/-- The copier does not find a byte behind the run, nor one behind too many descriptors. -/
lemma locate_short {offset : Int} (chain : IsChain m qs head l)
    (short : ¬ (u32 offset < total (runOf toQueue l) ∧ (toQueue = true → (readablePart l).length < loopMax) ∧
      descIndex (runOf toQueue l) (u32 offset) < loopMax)) :
    locate m qs head offset toQueue = .ok none := by
  cases l with
  | nil => exact chain.elim
  | cons d l =>
    obtain ⟨desc, follows⟩ := chain
    rw [locate_eq, desc]
    have ends : RunEnds toQueue (afterRun toQueue (d :: l)) := runEnds_afterRun
    cases run : runOf toQueue (d :: l) with
    | nil =>
      -- No descriptor of this direction: the second loop stops at once, or the first one finds no writable descriptor.
      cases toQueue with
      | false =>
        have eq : afterRun false (d :: l) = d :: l := by
          simpa [run, beforeRun] using append_run false (d :: l)
        have other : (d.isWrite != false) = true := by
          rw [eq] at ends
          simpa using ends d (by simp)
        simp only [Bool.false_eq_true, if_false, ok_bind]
        rw [show loopMax = 1024 + 1 from rfl, findOffset_succ, if_pos other]
      | true =>
        have none : writablePart (d :: l) = [] := by
          cases rest : writablePart (d :: l) with
          | nil => rfl
          | cons w W => simp [runOf, rest, writablePart_head rest] at run
        simp only [if_true]
        rw [findWrite_short follows (readablePart_append_writablePart _).symm (fun _ => readablePart_readable)
          (.inl none)]
        rfl
    | cons e S =>
      have dir : ∀ x ∈ e :: S, x.isWrite = toQueue := fun x hx => runOf_isWrite (run ▸ hx)
      rw [run] at short
      cases toQueue with
      | false =>
        have eq := eq_of_run run
        obtain ⟨rfl, -⟩ := List.cons.inj eq
        refine findOffset_short (follows.drop eq) ends dir ?_
        simp only [Bool.false_eq_true, false_implies, true_and] at short
        omega
      | true =>
        have eq := eq_of_run run
        simp only [if_true]
        by_cases skip : (readablePart (d :: l)).length < loopMax
        · have leads : Leads m qs (d :: l) := Follows.leads (T := []) (by rwa [List.append_nil])
          rw [findWrite_done leads eq (fun _ => readablePart_readable) (dir e (by simp)) skip, ok_bind]
          refine findOffset_short (follows.drop eq) ends dir ?_
          simp only [skip, implies_true, true_and] at short
          omega
        · rw [findWrite_short follows eq (fun _ => readablePart_readable) (.inr (Nat.le_of_not_lt skip))]
          rfl

/-- The copier copies the pieces and returns 0, if the bytes lie in the first descriptors of the run. -/
lemma memcpyToFromQueue_front (begins : Begins m qs head (P ++ S))
    (before : ∀ d ∈ P, toQueue = true ∧ d.isWrite = false) (dir : ∀ d ∈ S, d.isWrite = toQueue)
    (lens : ∀ d ∈ S, d.len.toNat < 2 ^ 31) (skip : P.length < loopMax) (near : Near S off count)
    (bytes : off + count ≤ total S) (lt : off + count < 2 ^ 31) (h0 : 0 < count)
    (clear : toQueue = true → ClearAhead qs S []) :
    memcpyToFromQueue m buf qs head off count toQueue =
      (copyParts toQueue (m, buf) (parts S off 0 count) >>= fun s => .ok (0, s.1, s.2)) := by
  obtain ⟨Q, e, S', off', rfl, rfl, lt', loc⟩ := locate_done begins before dir (by omega) (by omega) skip near.first
  have leads : Leads m qs (e :: S') := Leads.right (P := P ++ Q) (by
    rw [List.append_assoc]
    exact begins.leads)
  have last := near.last
  rw [show total Q + off' + count - 1 = total Q + (off' + count - 1) from by omega, descIndex_append,
    descIndex_append, show descIndex (e :: S') off' = 0 from if_pos lt'] at last
  rw [total_append] at bytes
  rw [memcpyToFromQueue_eq (by omega) loc, parts_skip]
  exact copyLoop_done leads (fun d hd => dir d (by simp [hd])) (fun d hd => lens d (by simp at hd ⊢; tauto))
    lt'.le h0 (by omega) (by omega) (by omega) (fun t => (clear t).drop)

/-- A descriptor is not longer than all together. -/
lemma len_le_total (h : d ∈ l) : d.len.toNat ≤ total l := by
  obtain ⟨P, T, rfl⟩ := List.append_of_mem h
  rw [total_append, total_cons]
  omega

/-- The copier copies the pieces and returns 0. -/
lemma memcpyToFromQueue_done (chain : IsChain m qs head l) (hs : total (runOf toQueue l) < 2 ^ 31)
    (reach : Reaches toQueue l off count) (h0 : 0 < count)
    (clear : toQueue = true → ClearAhead qs (runOf toQueue l) (afterRun toQueue l)) :
    memcpyToFromQueue m buf qs head off count toQueue =
      (copyParts toQueue (m, buf) (parts (runOf toQueue l) off 0 count) >>= fun s => .ok (0, s.1, s.2)) := by
  have bytes := reach.bytes
  have skip : (beforeRun toQueue l).length < loopMax := by
    cases toQueue with
    | false => exact Nat.zero_lt_succ _
    | true => exact reach.skip rfl
  have begins : Begins m qs head (beforeRun toQueue l ++ runOf toQueue l) := by
    apply IsChain.begins (T := afterRun toQueue l)
    rwa [List.append_assoc, append_run]
  exact memcpyToFromQueue_front begins (fun _ => mem_beforeRun) (fun _ => runOf_isWrite)
    (fun d hd => (len_le_total hd).trans_lt hs) skip reach.near bytes (by omega) h0 (fun t => (clear t).front (S := []))

/-- The copier returns -1 if it does not get to all of the bytes. -/
lemma memcpyToFromQueue_short (chain : IsChain m qs head l) (hs : total (runOf toQueue l) < 2 ^ 31)
    (short : ¬ Reaches toQueue l off count) (hoff : off < 2 ^ 31) (h0 : 0 < count) (hc : count < 2 ^ 31)
    (hb : count ≤ buf.size) (clear : toQueue = true → ClearAhead qs (runOf toQueue l) (afterRun toQueue l)) :
    ∃ m' buf', memcpyToFromQueue m buf qs head off count toQueue = .ok (-1, m', buf') := by
  by_cases located : off < total (runOf toQueue l) ∧ (toQueue = true → (readablePart l).length < loopMax) ∧
      descIndex (runOf toQueue l) off < loopMax
  · have skip : (beforeRun toQueue l).length < loopMax := by
      cases toQueue with
      | false => exact Nat.zero_lt_succ _
      | true => exact located.2.1 rfl
    have begins : Begins m qs head (beforeRun toQueue l ++ runOf toQueue l) := by
      apply IsChain.begins (T := afterRun toQueue l)
      rwa [List.append_assoc, append_run]
    obtain ⟨P, e, S, off', run, rfl, lt, loc⟩ :=
      locate_done begins (fun _ => mem_beforeRun) (fun _ => runOf_isWrite) located.1 hoff skip located.2.2
    have dir : ∀ d ∈ S, d.isWrite = toQueue := fun d hd => runOf_isWrite (l := l) (by rw [run]; simp [hd])
    have follows : Follows m qs e (S ++ afterRun toQueue l) := by
      have eq := append_run toQueue l
      rw [run] at eq
      cases l with
      | nil => exact chain.elim
      | cons d l => exact chain.2.drop (R := beforeRun toQueue (d :: l) ++ P) (by simpa using eq.symm)
    have tot : total (e :: S) < 2 ^ 31 := by
      rw [run, total_append] at hs
      omega
    have bytes : total (e :: S) < off' + count ∨ loopMax ≤ descIndex (e :: S) (off' + count - 1) := by
      by_contra enough
      have first : descIndex (runOf toQueue l) (total P + off') = P.length := by
        rw [run, descIndex_append, show descIndex (e :: S) off' = 0 from if_pos lt, Nat.add_zero]
      refine short ⟨?_, located.2.1, located.2.2, ?_⟩
      · rw [run, total_append]
        omega
      · rw [first, run, show total P + off' + count - 1 = total P + (off' + count - 1) from by omega, descIndex_append]
        omega
    rw [memcpyToFromQueue_eq (by omega) loc]
    rw [run] at clear
    exact copyLoop_short follows runEnds_afterRun dir tot lt.le h0 hc
      (show 0 + count ≤ buf.size by omega) bytes (fun t => (clear t).drop)
  · have hu : u32 (off : Int) = off := by simp only [u32]; omega
    exact ⟨m, buf, by rw [memcpyToFromQueue_eq (by omega) (locate_short chain (by rwa [hu]))]⟩

/-- On a chain of no more than 1024 descriptors, the copier gets to the whole run. -/
lemma reaches_iff (len : l.length < loopMax) (h0 : 0 < count) :
    Reaches toQueue l off count ↔ off + count ≤ total (runOf toQueue l) := by
  refine ⟨Reaches.bytes, fun bytes => ?_⟩
  have lenQ := congrArg List.length (append_run toQueue l)
  have lenR := congrArg List.length (readablePart_append_writablePart l)
  have first : descIndex (runOf toQueue l) off < (runOf toQueue l).length := descIndex_lt (by omega)
  have last : descIndex (runOf toQueue l) (off + count - 1) < (runOf toQueue l).length := descIndex_lt (by omega)
  simp only [List.length_append] at lenQ lenR
  exact ⟨bytes, fun _ => by omega, by omega, by omega⟩

/-- The runs of a chain of good shape are its two parts. -/
lemma runOf_shape (hR : ∀ d ∈ R, d.isWrite = false) (hW : ∀ d ∈ W, d.isWrite = true) :
    runOf false (R ++ W) = R ∧ runOf true (R ++ W) = W := by
  obtain ⟨first, second⟩ := parts_of_append hR hW
  refine ⟨first, ?_⟩
  rw [runOf, if_pos rfl, second]
  exact List.takeWhile_eq_self_iff.mpr hW

/-- What the copier returns, in either direction. -/
lemma memcpyToFromQueue_ret (chain : IsChain m qs head l) (hs : total (runOf toQueue l) < 2 ^ 31) (hoff : off < 2 ^ 31)
    (h0 : 0 < count) (hc : count < 2 ^ 31) (hb : count ≤ buf.size)
    (clear : toQueue = true → ClearAhead qs (runOf toQueue l) (afterRun toQueue l)) :
    ∃ ret m' buf', memcpyToFromQueue m buf qs head off count toQueue = .ok (ret, m', buf') ∧
      (ret = 0 ∨ ret = -1) ∧ (ret = 0 ↔ Reaches toQueue l off count) := by
  by_cases reach : Reaches toQueue l off count
  · obtain ⟨s, e, -⟩ : ∃ s, copyParts toQueue (m, buf) (parts (runOf toQueue l) off 0 count) = .ok s ∧
      s.2.size = buf.size := copyParts_safe (by omega)
    exact ⟨0, s.1, s.2, by rw [memcpyToFromQueue_done chain hs reach h0 clear, e]; rfl, .inl rfl, by simp [reach]⟩
  · obtain ⟨m', buf', e⟩ := memcpyToFromQueue_short chain hs reach hoff h0 hc hb clear
    exact ⟨-1, m', buf', e, .inr rfl, by simp [reach]⟩

/-- What a copy from a chain of good shape reaches. -/
lemma reaches_false_iff (hR : ∀ d ∈ R, d.isWrite = false) (hW : ∀ d ∈ W, d.isWrite = true) :
    Reaches false (R ++ W) off count ↔ off + count ≤ total R ∧ Near R off count := by
  have run := (runOf_shape hR hW).1
  constructor
  · rintro ⟨h1, -, h2⟩
    exact run ▸ ⟨h1, h2⟩
  · rintro ⟨h1, h2⟩
    exact ⟨by rwa [run], by simp, by rwa [run]⟩

/-- What a copy to a chain of good shape reaches. -/
lemma reaches_true_iff (hR : ∀ d ∈ R, d.isWrite = false) (hW : ∀ d ∈ W, d.isWrite = true) :
    Reaches true (R ++ W) off count ↔ off + count ≤ total W ∧ R.length < loopMax ∧ Near W off count := by
  have run := (runOf_shape hR hW).2
  have part := (parts_of_append hR hW).1
  constructor
  · rintro ⟨h1, h2, h3⟩
    rw [part] at h2
    rw [run] at h1 h3
    exact ⟨h1, h2 rfl, h3⟩
  · rintro ⟨h1, h2, h3⟩
    exact ⟨by rwa [run], fun _ => by rwa [part], by rwa [run]⟩

/-- A copy from a chain that does not reach its end fails. -/
lemma memcpyFromQueue_short (chain : IsChain m qs head l) (hs : total (runOf false l) < 2 ^ 31)
    (short : ¬ Reaches false l off count) (hoff : off < 2 ^ 31) (h0 : 0 < count) (hc : count < 2 ^ 31)
    (hb : count ≤ buf.size) : ∃ buf', memcpyFromQueue m buf qs head off count = .ok (-1, buf') := by
  obtain ⟨m', buf', e⟩ := memcpyToFromQueue_short chain hs short hoff h0 hc hb (by simp)
  exact ⟨buf', by rw [memcpyFromQueue, e]; rfl⟩

/-- A copy to a chain that does not reach its end fails. -/
lemma memcpyToQueue_short (chain : IsChain m qs head l) (hs : total (runOf true l) < 2 ^ 31)
    (short : ¬ Reaches true l off count) (hoff : off < 2 ^ 31) (h0 : 0 < count) (hc : count < 2 ^ 31)
    (hb : count ≤ buf.size) (clear : ClearAhead qs (runOf true l) (afterRun true l)) :
    ∃ m', memcpyToQueue m qs head off buf count = .ok (-1, m') := by
  obtain ⟨m', buf', e⟩ := memcpyToFromQueue_short chain hs short hoff h0 hc hb (fun _ => clear)
  exact ⟨m', by rw [memcpyToQueue, e]; rfl⟩

/-! ## The scan and the copier -/

/-- On a chain of less than `2 ^ 31` bytes whose entries are apart from its buffers, and for which the scan returns 0, a
copy succeeds if and only if its bytes lie in the size that the scan returns and the copier does not give up on its
way to them. -/
theorem memcpyQueue_agrees (m : GuestMemMap) (qs : QueueState) (head : Nat) (l : List VirtioDesc) (buf : Obj)
    (readSize writeSize : Int) (offset count : Nat) (chain : IsChain m qs head l) (bytes : total l < 2 ^ 31)
    (clear : Clear qs (entries head l) l) (scan : getDescRwSize m qs head = .ok (some (readSize, writeSize)))
    (hoffset : offset < 2 ^ 31) (h0 : 0 < count) (hcount : count < 2 ^ 31) (hbuf : count ≤ buf.size) :
    (∃ ret buf', memcpyFromQueue m buf qs head offset count = .ok (ret, buf') ∧ (ret = 0 ∨ ret = -1) ∧
      (ret = 0 ↔ (offset + count : Int) ≤ readSize ∧ Near (readablePart l) offset count)) ∧
    (∃ ret m', memcpyToQueue m qs head offset buf count = .ok (ret, m') ∧ (ret = 0 ∨ ret = -1) ∧
      (ret = 0 ↔ (offset + count : Int) ≤ writeSize ∧ (readablePart l).length < loopMax ∧
        Near (writablePart l) offset count)) := by
  have shaped : Shaped l := by
    by_contra bad
    rw [getDescRwSize_badShape chain bad] at scan
    cases scan
  obtain ⟨R, W, rfl, hR, hW⟩ := shaped
  obtain ⟨runR, runW⟩ := runOf_shape hR hW
  obtain ⟨partR, partW⟩ := parts_of_append hR hW
  rw [total_append] at bytes
  rw [getDescRwSize_shape chain hR hW, i32_of_range (by omega) (by omega), i32_of_range (by omega) (by omega),
    Except.ok.injEq, Option.some.injEq, Prod.mk.injEq] at scan
  obtain ⟨rfl, rfl⟩ := scan
  have clearW : ClearAhead qs (runOf true (R ++ W)) (afterRun true (R ++ W)) := by
    refine Clear.ahead (clear.mono (fun i hi => hi) fun d hd => ?_) (append_run true (R ++ W)).symm
    rw [runW] at hd
    exact List.mem_append_right R hd
  rw [partR, partW]
  constructor
  · obtain ⟨ret, m', buf', e, values, iff⟩ : ∃ ret m' buf',
        memcpyToFromQueue m buf qs head offset count false = .ok (ret, m', buf') ∧ (ret = 0 ∨ ret = -1) ∧
          (ret = 0 ↔ Reaches false (R ++ W) offset count) :=
      memcpyToFromQueue_ret chain (by rw [runR]; omega) hoffset h0 hcount hbuf (by simp)
    refine ⟨ret, buf', by rw [memcpyFromQueue, e]; rfl, values, ?_⟩
    rw [iff, reaches_false_iff hR hW]
    exact and_congr_left' (by omega)
  · obtain ⟨ret, m', buf', e, values, iff⟩ : ∃ ret m' buf',
        memcpyToFromQueue m buf qs head offset count true = .ok (ret, m', buf') ∧ (ret = 0 ∨ ret = -1) ∧
          (ret = 0 ↔ Reaches true (R ++ W) offset count) :=
      memcpyToFromQueue_ret chain (by rw [runW]; omega) hoffset h0 hcount hbuf (fun _ => clearW)
    refine ⟨ret, m', by rw [memcpyToQueue, e]; rfl, values, ?_⟩
    rw [iff, reaches_true_iff hR hW]
    exact and_congr_left' (by omega)

/-- A readable descriptor of 10 bytes. -/
def tenBytes : VirtioDesc :=
  ⟨64, 10, 1, 1⟩

/-- A writable descriptor of 6 bytes. -/
def sixBytes : VirtioDesc :=
  ⟨128, 6, 2, 0⟩

/-- A readable descriptor before a writable one. -/
lemma isChain_ten_six : IsChain (twoDescs tenBytes sixBytes) zeroQueue 0 ([tenBytes] ++ [sixBytes]) :=
  ⟨by decide +kernel, .link rfl (by decide +kernel) (.last rfl)⟩

/-- Their buffers are off the table. -/
lemma clear_ten_six : Clear zeroQueue (entries 0 ([tenBytes] ++ [sixBytes])) ([tenBytes] ++ [sixBytes]) := by
  intro idx hi d hd
  rw [Set.disjoint_left]
  intro p hp hp'
  have ends : (descTableAddr zeroQueue idx).toNat + 16 ≤ 64 := by
    simp only [entries, List.cons_append, List.nil_append, List.mem_cons, List.not_mem_nil, or_false] at hi
    rcases hi with rfl | rfl <;> decide
  have start : 64 ≤ d.addr.toNat ∧ d.addr.toNat + d.len.toNat ≤ 2 ^ 64 := by
    simp only [List.cons_append, List.nil_append, List.mem_cons, List.not_mem_nil, or_false] at hd
    rcases hd with rfl | rfl <;> decide
  have hp' := (mem_guestSpan start.2).mp hp'
  simp only [entrySpan, Set.mem_Ico, VirtioDesc.sizeof] at hp
  omega

/-- Four bytes from the middle of either part of a chain of 10 and 6 bytes. -/
theorem memcpyQueue_agrees_ten_six :
    (∃ ret buf', memcpyFromQueue (twoDescs tenBytes sixBytes) (Obj.zero 4) zeroQueue 0 (2 : Nat) (4 : Nat) =
      .ok (ret, buf') ∧ (ret = 0 ∨ ret = -1) ∧
      (ret = 0 ↔ ((2 : Nat) + (4 : Nat) : Int) ≤ 10 ∧ Near (readablePart ([tenBytes] ++ [sixBytes])) 2 4)) ∧
    (∃ ret m', memcpyToQueue (twoDescs tenBytes sixBytes) zeroQueue 0 (2 : Nat) (Obj.zero 4) (4 : Nat) = .ok (ret, m') ∧
      (ret = 0 ∨ ret = -1) ∧
      (ret = 0 ↔ ((2 : Nat) + (4 : Nat) : Int) ≤ 6 ∧ (readablePart ([tenBytes] ++ [sixBytes])).length < loopMax ∧
        Near (writablePart ([tenBytes] ++ [sixBytes])) 2 4)) :=
  memcpyQueue_agrees _ _ 0 ([tenBytes] ++ [sixBytes]) (Obj.zero 4) 10 6 2 4 isChain_ten_six (by decide)
    clear_ten_six (by decide +kernel) (by decide) (by decide) (by decide) (by decide)

/-- Entry `i` of a chain of 1026 readable descriptors, each of one byte. -/
def longEntry (i : Nat) : VirtioDesc :=
  ⟨0x7000, 1, if i < 1025 then 1 else 0, .ofNat (i + 1)⟩

/-- A guest memory of 8 pages that begins with this chain. -/
def longChain : GuestMemMap where
  size := 8 * 4096
  hostMem p := ((longEntry (p / 16)).encode[p % 16]?).getD 0
  size_pos := by decide
  size_page := by decide
  size_lt := by decide

/-- An entry of the table of the long chain. -/
lemma longChain_slice (i : Nat) : slice longChain.hostMem (i * 16) 16 = (longEntry i).encode := by
  apply List.ext_getElem?
  intro j
  rw [slice_getElem?]
  split
  · rename_i lt
    simp only [longChain, show (i * 16 + j) / 16 = i from by omega, show (i * 16 + j) % 16 = j from by omega]
    rw [List.getElem?_eq_getElem (by simpa using lt)]
    rfl
  · rw [List.getElem?_eq_none (by simp; omega)]

/-- An entry of the long chain can be read. -/
lemma descAt_longChain {i : Nat} (h : i < 1026) : descAt longChain zeroQueue i = some (longEntry i) := by
  have addr : (descTableAddr zeroQueue i).toNat = i * 16 := by
    rw [descTableAddr, VirtioDesc.sizeof, toNat_add_ofNat (by simp [zeroQueue]; omega)]
    simp [zeroQueue]
  have decode : VirtioDesc.decode longChain.hostMem (i * 16) = longEntry i := by
    rw [← (longEntry i).decode_encode (f := fun _ => 0) (a := 0)]
    apply VirtioDesc.decode_congr
    rw [longChain_slice, slice_splice_of_length (longEntry i).encode_length]
  rw [descAt, addr, if_neg (by simp [longChain]; omega), decode]

/-- The descriptors that follow one in the long chain. -/
lemma follows_longChain (k : Nat) (h : k < 1026) :
    Follows longChain zeroQueue (longEntry (1025 - k)) ((List.range' (1026 - k) k).map longEntry) := by
  induction k with
  | zero => exact .last (by decide)
  | succ k ih =>
    rw [List.range'_succ, List.map_cons, show 1026 - (k + 1) + 1 = 1026 - k from by omega,
      show 1026 - (k + 1) = 1025 - k from by omega]
    refine .link ?_ ?_ (ih (by omega))
    · rw [longEntry, if_pos (by omega)]
      simp [VirtioDesc.isNext, vringDescFNext]
    · have next : (longEntry (1025 - (k + 1))).next.toNat = 1025 - k := by
        simp only [longEntry, UInt16.toNat_ofNat']
        omega
      rw [next]
      exact descAt_longChain (by omega)

/-- The long chain is a chain. -/
lemma isChain_longChain : IsChain longChain zeroQueue 0 ((List.range' 0 1026).map longEntry) := by
  rw [List.range'_succ, List.map_cons]
  exact ⟨descAt_longChain (by decide), follows_longChain 1025 (by decide)⟩

/-- Each descriptor of the long chain has one byte. -/
lemma total_longEntry (i k : Nat) : total ((List.range' i k).map longEntry) = k := by
  induction k generalizing i with
  | zero => rfl
  | succ k ih =>
    rw [List.range'_succ, List.map_cons, total_cons, ih, show (longEntry i).len.toNat = 1 from rfl]
    omega

/-- A byte of the long chain is in the descriptor of the same number. -/
lemma descIndex_longEntry {i k off : Nat} (h : off < k) : descIndex ((List.range' i k).map longEntry) off = off := by
  induction k generalizing i off with
  | zero => omega
  | succ k ih =>
    rw [List.range'_succ, List.map_cons, descIndex, show (longEntry i).len.toNat = 1 from rfl]
    split
    · omega
    · rw [ih (by omega)]
      omega

/-- The descriptors of the long chain are readable. -/
lemma longEntry_readable : ∀ d ∈ (List.range' 0 1026).map longEntry, d.isWrite = false := by
  intro d hd
  obtain ⟨i, -, rfl⟩ := List.mem_map.mp hd
  simp only [longEntry, VirtioDesc.isWrite]
  split <;> decide

/-- The scan returns the size of a chain of 1026 descriptors, but the copier gives up before it has copied so many
bytes. -/
theorem memcpyFromQueue_gives_up :
    getDescRwSize longChain zeroQueue 0 = .ok (some (1026, 0)) ∧
      ∃ buf', memcpyFromQueue longChain (Obj.zero 1026) zeroQueue 0 (0 : Nat) (1026 : Nat) = .ok (-1, buf') := by
  have chain : IsChain longChain zeroQueue 0 ((List.range' 0 1026).map longEntry ++ []) := by
    rw [List.append_nil]
    exact isChain_longChain
  have run := (runOf_shape longEntry_readable (W := []) (by simp)).1
  constructor
  · rw [getDescRwSize_shape chain longEntry_readable (by simp), total_longEntry]
    rfl
  · refine memcpyFromQueue_short chain (by rw [run, total_longEntry]; decide) ?_ (by decide) (by decide) (by decide)
      le_rfl
    intro reach
    have last := reach.near.last
    rw [run, descIndex_longEntry (by decide), descIndex_longEntry (by decide)] at last
    exact absurd last (by decide)

end Mvvmm.Virtio
