import Mvvmm.Lib.Fair
import Mvvmm.Uart.Machine
import Mvvmm.Vm.Keyboard

/-!
# The console, from the keyboard to the guest

The way of what is typed to the guest: `keyboard_thread_func` reads it and decodes the escapes, and calls
`write_to_serial` for each byte, which waits for the receive register to become empty, but for three seconds at most;
the guest reads the register whenever it likes. Ctrl+A and Ctrl+C raise SIGINT, whose handler, on whatever thread,
ends the process; the keyboard thread may go on until then. After `mvvm_run` has returned, `vm->quit` is set and the
loop is left.

The keyboard thread makes its calls one after the other, so that the calls of `Uart.Machine` are numbered here.
`typed_obtained` follows the bytes through all of this: the guest obtains what the calls hand over, these are the
bytes that are decoded but for those of the calls that time out, and as long as the guest takes each byte at last,
all that is typed comes to be handed over and obtained.
-/

namespace Mvvmm.Vm.Input
open CMem Run Fair Mealy
open Uart (Serial Direction numRegs isRxEmpty serialStep access KeepsPending Conserved pending)

/-- The keyboard thread, with what is left of its round, and the serial port. The rest is about the process
(`vm->quit`, SIGINT and the end) and history: the bytes typed, and what was done with the decoded ones; a call
of `write_to_serial` has handed its byte over or not. -/
structure Console where
  kb : Keyboard
  events : List KeyEvent
  m : Uart.Machine Nat
  quit : Bool
  killed : Bool
  exited : Bool
  typed : List UInt8
  log : List (KeyEvent × Bool)

/-- What happens to them. -/
inductive Act where
  /-- The thread begins a round, with what `poll` and `read` return. -/
  | key (p : PollResult)
  /-- It goes on with what is left of its round. -/
  | event
  /-- The wait of its call of `write_to_serial` times out. -/
  | timeout
  /-- The guest accesses a port. -/
  | guest (direction : Direction) (offset : Fin numRegs) (ioData : UInt8)
  /-- `mvvm_run` has returned. -/
  | quit
  /-- The handler of SIGINT runs. -/
  | sigintHandler
  deriving DecidableEq, Repr

/-- After a step of the call of `write_to_serial` in hand, which has returned or waits. -/
def Console.called (s : Console) (m : Uart.Machine Nat) (e : KeyEvent) (es : List KeyEvent) : Console :=
  match m.calls s.log.length with
  | .returned accepted => { s with m, events := es, log := s.log ++ [(e, accepted)] }
  | _ => { s with m }

/-- A step of the console. -/
def step (s : Console) (a : Act) : Except Stop Console :=
  if s.exited then
    .error .blocked
  else
    match a with
    | .key p =>
      if s.events = [] ∧ s.kb.left = false then
        let (events, kb) := keyRound s.kb (p, s.quit)
        -- A byte that is read when the loop is left is not looked at.
        return { s with kb, events, typed := if kb.left then s.typed else s.typed ++ p.byte?.toList }
      else
        .error .blocked
    | .event =>
      match s.events with
      | [] => .error .blocked
      | .sigint :: es => return { s with events := es, killed := true, log := s.log ++ [(.sigint, true)] }
      | .writeToSerial c :: es => do
        let m ← serialStep (fun _ => c) s.m (.write s.log.length)
        return s.called m (.writeToSerial c) es
    | .timeout =>
      match s.events with
      | .writeToSerial c :: es => do
        let m ← serialStep (fun _ => c) s.m (.timeout s.log.length)
        return s.called m (.writeToSerial c) es
      | _ => .error .blocked
    | .guest direction offset ioData =>
      if s.quit then
        .error .blocked
      else
        return { s with m := access s.m direction offset ioData }
    | .quit => return { s with quit := true }
    | .sigintHandler => if s.killed then return { s with exited := true } else .error .blocked

/-- The guest leaves a byte in the receive register alone unless it obtains it. -/
def Conforms (s : Console) : Act → Prop
  | .guest direction offset ioData => KeepsPending s.m.s direction offset ioData
  | _ => True

instance (s : Console) : (a : Act) → Decidable (Conforms s a)
  | .guest direction offset ioData => inferInstanceAs (Decidable (KeepsPending s.m.s direction offset ioData))
  | .key _ | .event | .timeout | .quit | .sigintHandler => .isTrue trivial

/-- The console at start-up. -/
def start : Console :=
  ⟨keyboardStart, [], Uart.start Nat, false, false, false, [], []⟩

/-- What is to be done with what was typed. -/
def decoded (typed : List UInt8) : List KeyEvent :=
  (run decodeByte false typed).1.flatten

/-- The byte of a call that has handed it over. -/
def handedByte : KeyEvent × Bool → Option UInt8
  | (.writeToSerial c, true) => some c
  | _ => none

/-- The bytes handed over. -/
def handed (log : List (KeyEvent × Bool)) : List UInt8 :=
  log.filterMap handedByte

/-- The machine or the process has come to its end. -/
def Console.Ended (s : Console) : Prop :=
  s.quit = true ∨ s.exited = true

instance (s : Console) : Decidable s.Ended :=
  inferInstanceAs (Decidable (_ ∨ _))

/-! ## Steps -/

/-- All that a step can do. -/
inductive Effect (s : Console) : Act → Console → Prop where
  | key {p} (none : s.events = []) (goes : s.kb.left = false) :
    Effect s (.key p) { s with
      kb := (keyRound s.kb (p, s.quit)).2
      events := (keyRound s.kb (p, s.quit)).1
      typed := if (keyRound s.kb (p, s.quit)).2.left then s.typed else s.typed ++ p.byte?.toList }
  | sigint {es} (e : s.events = .sigint :: es) :
    Effect s .event { s with events := es, killed := true, log := s.log ++ [(.sigint, true)] }
  | accept {c es} (e : s.events = .writeToSerial c :: es) (empty : isRxEmpty s.m.s = true) :
    Effect s .event { s with
      m := { s.m with
        s := Uart.receive s.m.s c
        calls := Function.update s.m.calls s.log.length (.returned true)
        accepted := s.m.accepted ++ [c] }
      events := es
      log := s.log ++ [(.writeToSerial c, true)] }
  | wait {c es} (e : s.events = .writeToSerial c :: es) (full : isRxEmpty s.m.s = false) :
    Effect s .event { s with
      m := { s.m with calls := Function.update s.m.calls s.log.length .waiting } }
  | timeout {c es} (e : s.events = .writeToSerial c :: es) :
    Effect s .timeout { s with
      m := { s.m with calls := Function.update s.m.calls s.log.length (.returned false) }
      events := es
      log := s.log ++ [(.writeToSerial c, false)] }
  | guest {direction offset ioData} (runs : s.quit = false) :
    Effect s (.guest direction offset ioData) { s with m := access s.m direction offset ioData }
  | quit : Effect s .quit { s with quit := true }
  | exit (killed : s.killed = true) : Effect s .sigintHandler { s with exited := true }

variable {s s' : Console} {a : Act} {es : List KeyEvent} {c : UInt8}

/-- A call of `write_to_serial` looks at the receive register. -/
lemma write_effect (e : s.events = .writeToSerial c :: es)
    (st : (serialStep (fun _ => c) s.m (.write s.log.length) >>= fun m =>
      pure (s.called m (.writeToSerial c) es)) = .ok s') : Effect s .event s' := by
  obtain ⟨m, step, st⟩ := bind_eq_ok.mp st
  obtain rfl := Except.ok.inj st
  simp only [serialStep, Uart.writeToSerial] at step
  split at step
  case h_1 | h_2 =>
    split at step
    · rename_i empty
      obtain rfl := Except.ok.inj step
      simp only [Console.called, Function.update_self]
      exact .accept e empty
    · rename_i full
      obtain rfl := Except.ok.inj step
      simp only [Console.called, Function.update_self]
      exact .wait e (Bool.eq_false_iff.mpr full)
  case h_3 => cases step

/-- Its wait times out. -/
lemma timeout_effect (e : s.events = .writeToSerial c :: es)
    (st : (serialStep (fun _ => c) s.m (.timeout s.log.length) >>= fun m =>
      pure (s.called m (.writeToSerial c) es)) = .ok s') : Effect s .timeout s' := by
  obtain ⟨m, step, st⟩ := bind_eq_ok.mp st
  obtain rfl := Except.ok.inj st
  simp only [serialStep, Uart.timedOut] at step
  split at step
  · obtain rfl := Except.ok.inj step
    simp only [Console.called, Function.update_self]
    exact .timeout e
  · cases step

/-- Inversion of `step`. -/
lemma step_effect (st : step s a = .ok s') : s.exited = false ∧ Effect s a s' := by
  unfold step at st
  split at st
  · cases st
  rename_i alive
  refine ⟨Bool.eq_false_iff.mpr alive, ?_⟩
  cases a with
  | key p =>
    simp only at st
    split at st
    · rename_i ready
      obtain rfl := Except.ok.inj st
      exact .key ready.1 ready.2
    · cases st
  | event =>
    simp only at st
    split at st
    · cases st
    · rename_i es e
      obtain rfl := Except.ok.inj st
      exact .sigint e
    · rename_i c es e
      exact write_effect e st
  | timeout =>
    simp only at st
    split at st
    · rename_i c es e
      exact timeout_effect e st
    · cases st
  | guest direction offset ioData =>
    simp only at st
    split at st
    · cases st
    · rename_i runs
      obtain rfl := Except.ok.inj st
      exact .guest (Bool.eq_false_iff.mpr runs)
  | quit =>
    obtain rfl := Except.ok.inj st
    exact .quit
  | sigintHandler =>
    simp only at st
    split at st
    · rename_i killed
      obtain rfl := Except.ok.inj st
      exact .exit killed
    · cases st

/-! ## The invariant -/

/-- What holds in every state of a run in which the guest leaves the pending byte alone. -/
structure Inv (s : Console) : Prop where
  dealt : s.log.map Prod.fst ++ s.events = decoded s.typed
  listens : s.kb.left = false → Listens s.kb (run decodeByte false s.typed).2
  calls : ∀ n ≥ s.log.length, ∀ b, s.m.calls n ≠ .returned b
  accepted : s.m.accepted = handed s.log
  conserved : Conserved s.m

/-- The invariant holds when the thread starts. -/
lemma inv_start : Inv start where
  dealt := rfl
  listens _ := listens_start
  calls n _ b e := by
    cases e
  accepted := rfl
  conserved := Uart.conserved_start

/-- One more byte. -/
lemma decoded_concat {typed : List UInt8} :
    decoded (typed ++ [c]) = decoded typed ++ (decodeByte (run decodeByte false typed).2 c).1 := by
  rw [decoded, run_concat_fst, List.flatten_append, List.flatten_singleton]
  rfl

/-- What is typed later does not change what was decoded. -/
lemma decoded_mono {typed typed' : List UInt8} (h : typed <+: typed') : decoded typed <+: decoded typed' := by
  obtain ⟨more, rfl⟩ := h
  induction more using List.reverseRecOn with
  | nil =>
    rw [List.append_nil]
  | append_singleton more c ih =>
    rw [← List.append_assoc, decoded_concat]
    exact ih.trans (List.prefix_append ..)

/-- A round begins. -/
lemma Inv.key {p : PollResult} (h : Inv s) (none : s.events = []) (goes : s.kb.left = false) :
    Inv { s with
      kb := (keyRound s.kb (p, s.quit)).2
      events := (keyRound s.kb (p, s.quit)).1
      typed := if (keyRound s.kb (p, s.quit)).2.left then s.typed else s.typed ++ p.byte?.toList } := by
  have dec := h.dealt
  rw [none] at dec
  have listens := h.listens goes
  cases quit : s.quit with
  | true =>
    have round : keyRound s.kb (p, true) = ([], { s.kb with ch := (timedGetchar p s.kb.ch).2, left := true }) := by
      simp [keyRound, goes]
    rw [round]
    exact ⟨dec, Bool.noConfusion, h.calls, h.accepted, h.conserved⟩
  | false =>
    cases byte : p.byte? with
    | none =>
      rw [keyRound_none goes listens.ch byte, goes]
      simp only [Option.toList_none, List.append_nil, Bool.false_eq_true, if_false]
      exact ⟨dec, fun _ => listens, h.calls, h.accepted, h.conserved⟩
    | some c =>
      rw [keyRound_byte goes byte, listens.state]
      simp only [Option.toList_some, Bool.false_eq_true, if_false]
      refine ⟨?_, fun _ => ⟨rfl, (byte_ch c).1, ?_⟩, h.calls, h.accepted, h.conserved⟩
      · rw [decoded_concat, ← dec, List.append_nil]
      · rw [run_concat]

/-- The event in hand has been dealt with. -/
lemma Inv.done {m : Uart.Machine Nat} {killed accepted : Bool} {e : KeyEvent} (h : Inv s) (events : s.events = e :: es)
    (calls : ∀ n > s.log.length, m.calls n = s.m.calls n) (handed : m.accepted = handed (s.log ++ [(e, accepted)]))
    (conserved : Conserved m) : Inv { s with m, killed, events := es, log := s.log ++ [(e, accepted)] } where
  dealt := by
    rw [← h.dealt, events, List.map_append, List.append_assoc]
    rfl
  listens := h.listens
  calls n hn b := by
    rw [List.length_append, List.length_singleton] at hn
    rw [calls n (by omega)]
    exact h.calls n (by omega) b
  accepted := handed
  conserved := conserved

/-- What is handed over with one more call. -/
lemma handed_concat {log : List (KeyEvent × Bool)} {x : KeyEvent × Bool} :
    handed (log ++ [x]) = handed log ++ (handedByte x).toList := by
  rw [handed, List.filterMap_append]
  cases e : handedByte x with
  | none => rw [List.filterMap_cons_none e]; rfl
  | some c => rw [List.filterMap_cons_some e]; rfl

/-- Every step keeps the invariant. -/
lemma inv_step (h : Inv s) (conforms : Conforms s a) (st : step s a = .ok s') : Inv s' := by
  obtain ⟨-, eff⟩ := step_effect st
  cases eff with
  | key none goes => exact h.key none goes
  | sigint e =>
    refine h.done e (fun _ _ => rfl) ?_ h.conserved
    rw [handed_concat, h.accepted]
    exact (List.append_nil _).symm
  | @accept c es e empty =>
    refine h.done (m := { s.m with
      s := Uart.receive s.m.s c, calls := _, accepted := s.m.accepted ++ [c] }) e
      (fun n hn => Function.update_of_ne (Nat.ne_of_gt hn) ..) ?_ ?_
    · rw [handed_concat, h.accepted]
      rfl
    · have all := h.conserved
      rw [Conserved, pending, if_pos empty, List.append_nil] at all
      rw [Conserved, Uart.pending_receive, all]
  | wait e full =>
    refine ⟨h.dealt, h.listens, fun n hn b => ?_, h.accepted, h.conserved⟩
    simp only [Function.update_apply]
    split
    · intro e
      cases e
    · exact h.calls n hn b
  | timeout e =>
    refine h.done (m := { s.m with calls := _ }) e (fun n hn => Function.update_of_ne (Nat.ne_of_gt hn) ..) ?_
      h.conserved
    rw [handed_concat, h.accepted]
    exact (List.append_nil _).symm
  | @guest direction offset ioData runs =>
    have served : serialStep (fun _ => 0) s.m (.guest direction offset ioData) =
        .ok (access s.m direction offset ioData) := rfl
    have keeps : Uart.KeepsPendingAct s.m (.guest direction offset ioData) := conforms
    exact ⟨h.dealt, h.listens, h.calls, h.accepted, Uart.conserved_step h.conserved keeps served⟩
  | quit => exact { h with }
  | exit _ => exact { h with }

/-- What the guest has obtained was handed over, and what is dealt with was decoded. -/
lemma Inv.ordered (h : Inv s) : s.m.obtained <+: handed s.log ∧ s.log.map Prod.fst <+: decoded s.typed := by
  refine ⟨?_, ⟨_, h.dealt⟩⟩
  rw [← h.accepted]
  exact h.conserved.lossless.ordered

/-- If no byte is pending, the guest has obtained all that was handed over. -/
lemma Inv.obtained (h : Inv s) (empty : isRxEmpty s.m.s = true) : s.m.obtained = handed s.log := by
  have all := h.conserved
  rw [Conserved, h.accepted, pending, if_pos empty, List.append_nil] at all
  exact all.symm

/-! ## What stays -/

/-- Nothing of the history is taken back. -/
structure Grows (s s' : Console) : Prop where
  typed : s.typed <+: s'.typed
  log : s.log <+: s'.log
  obtained : s.m.obtained <+: s'.m.obtained
  ended : s.Ended → s'.Ended

/-- The histories have not changed. -/
lemma Grows.refl : Grows s s :=
  ⟨List.prefix_rfl, List.prefix_rfl, List.prefix_rfl, id⟩

/-- Histories that grow, and grow again. -/
lemma Grows.trans {s₁ s₂ s₃ : Console} (h : Grows s₁ s₂) (h' : Grows s₂ s₃) : Grows s₁ s₃ :=
  ⟨h.typed.trans h'.typed, h.log.trans h'.log, h.obtained.trans h'.obtained, h'.ended ∘ h.ended⟩

/-- Every step only adds to the histories. -/
lemma step_grows (st : step s a = .ok s') : Grows s s' := by
  obtain ⟨-, eff⟩ := step_effect st
  cases eff with
  | key _ _ =>
    refine ⟨?_, List.prefix_rfl, List.prefix_rfl, id⟩
    simp only
    split
    · exact List.prefix_rfl
    · exact List.prefix_append ..
  | sigint _ | accept _ _ | timeout _ => exact ⟨List.prefix_rfl, List.prefix_append .., List.prefix_rfl, id⟩
  | wait _ _ => exact ⟨List.prefix_rfl, List.prefix_rfl, List.prefix_rfl, id⟩
  | guest _ =>
    refine ⟨List.prefix_rfl, List.prefix_rfl, ?_, id⟩
    simp only [access]
    split
    · exact List.prefix_append ..
    · exact List.prefix_rfl
  | quit => exact ⟨List.prefix_rfl, List.prefix_rfl, List.prefix_rfl, fun _ => .inl rfl⟩
  | exit _ => exact ⟨List.prefix_rfl, List.prefix_rfl, List.prefix_rfl, fun _ => .inr rfl⟩

/-- The thread stays at its event until it is dealt with. -/
lemma step_events (st : step s a = .ok s') (some : s.events ≠ []) :
    s.log.length < s'.log.length ∨ s'.log = s.log ∧ s'.events = s.events := by
  obtain ⟨-, eff⟩ := step_effect st
  cases eff with
  | key none _ => exact absurd none some
  | sigint _ | accept _ _ | timeout _ => exact .inl (by simp)
  | wait _ _ | guest _ | quit | exit _ => exact .inr ⟨rfl, rfl⟩

/-- An empty receive register stays empty until the thread hands over a byte. -/
lemma step_empty (conforms : Conforms s a) (st : step s a = .ok s') (ne : a ≠ .event)
    (empty : isRxEmpty s.m.s = true) : isRxEmpty s'.m.s = true := by
  have iff : ∀ u : Serial, pending u = [] → isRxEmpty u = true := by
    intro u none
    by_contra full
    rw [pending, if_neg full] at none
    cases none
  have none : pending s.m.s = [] := if_pos empty
  obtain ⟨-, eff⟩ := step_effect st
  cases eff with
  | sigint _ | accept _ _ | wait _ _ => exact absurd rfl ne
  | key _ _ | timeout _ | quit | exit _ => exact empty
  | @guest direction offset ioData _ =>
    refine iff _ ?_
    cases direction with
    | exitOut => exact (Uart.pending_exitOut conforms).trans none
    | exitIn =>
      rw [Uart.pending_exitIn (v := ioData) conforms] at none
      exact (List.append_eq_nil_iff.mp none).2

/-- The thread can go on as long as something is left of its round. -/
lemma Inv.event_ok (h : Inv s) (some : s.events ≠ []) (alive : s.exited = false) : Enabled step .event s := by
  cases e : s.events with
  | nil => exact absurd e some
  | cons x es =>
    cases x with
    | sigint =>
      simp only [Enabled, step, alive, e]
      exact ⟨_, rfl⟩
    | writeToSerial c =>
      obtain ⟨m, write⟩ : ∃ m, serialStep (fun _ => c) s.m (.write s.log.length) = .ok m := by
        simp only [serialStep, Uart.writeToSerial]
        cases pc : s.m.calls s.log.length with
        | returned b => exact absurd pc (h.calls _ le_rfl b)
        | start | waiting =>
          simp only
          split <;> exact ⟨_, rfl⟩
      simp only [Enabled, step, alive, e, write, ok_bind]
      exact ⟨_, rfl⟩

/-- Calls that all hand their bytes over. -/
lemma handed_all {log : List (KeyEvent × Bool)} {text : List UInt8} (all : ∀ x ∈ log, x.2 = true)
    (calls : log.map Prod.fst = text.map .writeToSerial) : handed log = text := by
  induction log generalizing text with
  | nil =>
    rw [List.map_nil, eq_comm, List.map_eq_nil_iff] at calls
    exact calls.symm
  | cons x log ih =>
    cases text with
    | nil => cases calls
    | cons c text =>
      obtain ⟨event, yes⟩ := x
      obtain rfl : yes = true := all _ List.mem_cons_self
      rw [List.map_cons, List.map_cons, List.cons.injEq] at calls
      obtain ⟨rfl, calls⟩ := calls
      exact congrArg (c :: ·) (ih (fun x hx => all x (List.mem_cons_of_mem _ hx)) calls)

/-- Only a call that times out does not hand its byte over. -/
lemma step_handed (st : step s a = .ok s') (ne : a ≠ .timeout) (all : ∀ x ∈ s.log, x.2 = true) :
    ∀ x ∈ s'.log, x.2 = true := by
  obtain ⟨-, eff⟩ := step_effect st
  cases eff with
  | key _ _ | wait _ _ | guest _ | quit | exit _ => exact all
  | timeout _ => exact absurd rfl ne
  | sigint _ | accept _ _ =>
    intro x hx
    rcases List.mem_append.mp hx with old | new
    · exact all x old
    · rw [List.mem_singleton.mp new]

/-! ## Fair runs -/

section Fair
variable {r : Trace step} (inv : ∀ n, Inv (r.state n))
  (conforms : ∀ n a, r.act n = some a → Conforms (r.state n) a) (fair : r.StronglyFair .event)
  (takes : r.LeadsTo (fun s => isRxEmpty s.m.s = false) fun s => s.Ended ∨ isRxEmpty s.m.s = true)

/-- The histories grow along a run. -/
lemma trace_grows {n m : Nat} (hm : n ≤ m) : Grows (r.state n) (r.state m) :=
  r.stable (P := Grows (r.state n)) (fun _ _ _ h st => h.trans (step_grows st)) .refl m hm

/-- If no call times out, all bytes are handed over. -/
lemma all_handed (first : r.state 0 = start) (never : ∀ i, r.act i ≠ some .timeout) (n : Nat) :
    ∀ x ∈ (r.state n).log, x.2 = true := by
  induction n with
  | zero =>
    rw [first]
    intro x hx
    cases hx
  | succ n ih =>
    cases e : r.act n with
    | none =>
      rw [r.stay n e]
      exact ih
    | some b => exact step_handed (r.next n b e) (fun eq => never n (by rw [e, eq])) ih

include takes in
/-- The receive register becomes empty again and again. -/
lemma empty_again (n : Nat) : ∃ m ≥ n, (r.state m).Ended ∨ isRxEmpty (r.state m).m.s = true := by
  cases empty : isRxEmpty (r.state n).m.s with
  | true => exact ⟨n, le_rfl, .inr empty⟩
  | false => exact takes n empty

include takes in
/-- Before an event of the thread is dealt with, the receive register becomes empty. -/
lemma room_live (j : Nat) : r.LeadsTo (fun s => s.log.length = j ∧ s.events ≠ [])
    fun s => (s.Ended ∨ j < s.log.length) ∨ (s.log.length = j ∧ s.events ≠ []) ∧ isRxEmpty s.m.s = true := by
  intro n at_j
  obtain ⟨m, hm, now⟩ := empty_again takes n
  -- If the event is not dealt with before, the thread is still at it.
  have stays : j < (r.state m).log.length ∨ (r.state m).log.length = j ∧ (r.state m).events ≠ [] := by
    clear now
    induction m, hm using Nat.le_induction with
    | base => exact .inr at_j
    | succ m hm ih =>
      have grows := (trace_grows (r := r) (Nat.le_add_right m 1)).log.length_le
      rcases ih with past | ⟨len, some⟩
      · exact .inl (by omega)
      · cases e : r.act m with
        | none =>
          rw [r.stay m e]
          exact .inr ⟨len, some⟩
        | some b =>
          rcases step_events (r.next m b e) some with more | ⟨log, events⟩
          · exact .inl (by omega)
          · exact .inr ⟨by rw [log]; exact len, by rw [events]; exact some⟩
  rcases stays with past | still
  · exact ⟨m, hm, .inl (.inr past)⟩
  · rcases now with ended | empty
    · exact ⟨m, hm, .inl (.inl ended)⟩
    · exact ⟨m, hm, .inr ⟨still, empty⟩⟩

include inv conforms fair in
/-- Then it is dealt with. -/
lemma deal_live (j : Nat) : r.LeadsTo (fun s => (s.log.length = j ∧ s.events ≠ []) ∧ isRxEmpty s.m.s = true)
    fun s => s.Ended ∨ j < s.log.length := by
  refine fair.leadsTo (fun _ => 0) ?_ ?_ ?_
  · rintro n b ⟨⟨len, some⟩, empty⟩ _ e ne
    rcases step_events (r.next n b e) some with more | ⟨log, events⟩
    · exact .inl (.inr (by omega))
    · refine .inr ⟨⟨⟨by rw [log]; exact len, by rw [events]; exact some⟩, ?_⟩, le_rfl⟩
      exact step_empty (conforms n b e) (r.next n b e) ne empty
  · rintro n ⟨⟨len, some⟩, empty⟩ _ e
    obtain ⟨-, eff⟩ := step_effect (r.next n _ e)
    generalize r.state (n + 1) = s' at eff ⊢
    cases eff with
    | sigint _ | accept _ _ =>
      refine .inl (.inr ?_)
      simp only [List.length_append, List.length_singleton]
      omega
    | wait _ full =>
      rw [empty] at full
      cases full
  · intro n stays
    obtain ⟨⟨⟨-, some⟩, -⟩, no⟩ := stays n le_rfl
    rw [not_or] at no
    have alive : (r.state n).exited = false := Bool.eq_false_iff.mpr fun e => no.1 (.inr e)
    exact ⟨n, le_rfl, (inv n).event_ok some alive⟩

include inv conforms fair takes in
/-- All that is decoded is dealt with. -/
lemma dealt_live (n : Nat) : ∀ j ≤ (decoded (r.state n).typed).length,
    ∃ m ≥ n, (r.state m).Ended ∨ j ≤ (r.state m).log.length := by
  intro j
  induction j with
  | zero => exact fun _ => ⟨n, le_rfl, .inr (Nat.zero_le _)⟩
  | succ j ih =>
    intro lt
    obtain ⟨m, hm, ended | le⟩ := ih (by omega)
    · exact ⟨m, hm, .inl ended⟩
    rcases Nat.lt_or_eq_of_le le with past | len
    · exact ⟨m, hm, .inr past⟩
    have some : (r.state m).events ≠ [] := by
      intro none
      have all := congrArg List.length (inv m).dealt
      have more := (decoded_mono (trace_grows (r := r) hm).typed).length_le
      rw [none, List.append_nil, List.length_map] at all
      omega
    obtain ⟨k, hk, (now | still)⟩ := room_live takes j m ⟨len.symm, some⟩
    · exact ⟨k, hm.trans hk, now⟩
    · obtain ⟨i, hi, now⟩ := deal_live inv conforms fair j k still
      exact ⟨i, hm.trans (hk.trans hi), now⟩

end Fair

/-- In every run in which the guest leaves the pending byte alone, it obtains what the calls of `write_to_serial` have
handed over, in order, and the events dealt with are those decoded from what is typed, in order. If moreover the
thread goes on and the guest takes every byte at last, then all that was decoded at some moment is dealt with
and obtained, but for the bytes of calls that timed out, unless the machine or the process ends. A text typed with
its `0x01` bytes doubled is obtained as it is if no call times out. -/
theorem typed_obtained {r : Trace step} (first : r.state 0 = start)
    (conforms : ∀ n a, r.act n = some a → Conforms (r.state n) a) (n : Nat) :
    ((r.state n).m.obtained <+: handed (r.state n).log ∧
      (r.state n).log.map Prod.fst <+: decoded (r.state n).typed) ∧
    (r.StronglyFair .event →
      r.LeadsTo (fun s => isRxEmpty s.m.s = false) (fun s => s.Ended ∨ isRxEmpty s.m.s = true) →
      ∃ m ≥ n, ∀ k ≥ m, (r.state k).Ended ∨
        decoded (r.state n).typed <+: (r.state k).log.map Prod.fst ∧
        handed ((r.state k).log.take (decoded (r.state n).typed).length) <+: (r.state k).m.obtained ∧
        ∀ text, (r.state n).typed = text.flatMap double → (∀ i, r.act i ≠ some .timeout) →
          text <+: (r.state k).m.obtained) := by
  have inv : ∀ n, Inv (r.state n) := by
    intro n
    refine (r.reach conforms n).invariant (I := Inv) ?_ ?_
    · rw [first]
      exact inv_start
    · intro s a s' _ h guard st
      exact inv_step h guard st
  refine ⟨(inv n).ordered, fun fair takes => ?_⟩
  obtain ⟨len, hlen⟩ : ∃ len, len = (decoded (r.state n).typed).length := ⟨_, rfl⟩
  obtain ⟨m, hm, dealt⟩ := dealt_live inv conforms fair takes n len hlen.le
  obtain ⟨k₀, hk₀, now⟩ := empty_again takes m
  refine ⟨k₀, hm.trans hk₀, fun k hk => ?_⟩
  have later := trace_grows (r := r) hk
  rcases dealt with ended | long
  · exact .inl ((trace_grows (hk₀.trans hk)).ended ended)
  rcases now with ended | empty
  · exact .inl (later.ended ended)
  refine .inr ?_
  -- The first events of the log are those decoded at the beginning.
  have enough : len ≤ (r.state k).log.length := long.trans (trace_grows (hk₀.trans hk)).log.length_le
  have events : decoded (r.state n).typed <+: (r.state k).log.map Prod.fst := by
    refine List.prefix_of_prefix_length_le (decoded_mono (trace_grows (hm.trans (hk₀.trans hk))).typed)
      (inv k).ordered.2 ?_
    rw [List.length_map, ← hlen]
    exact enough
  have got : handed ((r.state k).log.take len) <+: (r.state k).m.obtained := by
    have same : (r.state k).log.take len = (r.state k₀).log.take len := by
      obtain ⟨more, e⟩ := later.log
      rw [← e, List.take_append_of_le_length (long.trans (trace_grows hk₀).log.length_le)]
    rw [same]
    refine List.IsPrefix.trans ?_ later.obtained
    rw [(inv k₀).obtained empty]
    exact (List.take_prefix len _).filterMap _
  refine ⟨events, hlen ▸ got, fun text typed never => ?_⟩
  have calls : ((r.state k).log.take len).map Prod.fst = text.map .writeToSerial := by
    rw [List.map_take, hlen, ← List.prefix_iff_eq_take.mp events, decoded, typed, decode_double]
  rw [handed_all (fun x hx => all_handed first never k x (List.mem_of_mem_take hx)) calls] at got
  exact got

/-- A byte and a doubled Ctrl+A are typed, with a pause. The second call has to wait until the guest has read the first
byte, and the guest programs the divisor latch in between, while no byte is there. -/
def threeKeys : List Act :=
  [.key (.event true (some 0x61)), .event, .key (.event true (some 0x01)), .key .timeout,
    .key (.event true (some 0x01)), .event, .guest .exitIn 0 0, .guest .exitOut 3 0x80, .guest .exitOut 0 0x0c,
    .guest .exitOut 3 0x03, .event, .guest .exitIn 5 0, .guest .exitIn 0 0]

/-- The run is fair, for the thread has nothing left to do, and the guest has taken both bytes at its end. -/
theorem typed_obtained_three_keys :
    ∃ r : Trace step, r.state 0 = start ∧ (∀ n a, r.act n = some a → Conforms (r.state n) a) ∧
      r.StronglyFair .event ∧
      r.LeadsTo (fun s => isRxEmpty s.m.s = false) (fun s => s.Ended ∨ isRxEmpty s.m.s = true) ∧
      (r.state 5).typed = [0x61, 0x01].flatMap double ∧
      ∃ m ≥ 5, ∀ k ≥ m, (r.state k).Ended ∨
        handed ((r.state k).log.take (decoded (r.state 5).typed).length) <+: (r.state k).m.obtained := by
  obtain ⟨r, states, conforms, fair⟩ := exists_fair_trace step Conforms .blocked threeKeys start [.event]
    (by decide +kernel)
  have zero : r.state 0 = start := (Except.ok.inj (states 0)).symm
  have fairEvent : r.StronglyFair .event := fair _ (List.mem_singleton_self _)
  have typed : (r.state 5).typed = [0x61, 0x01].flatMap double :=
    of_decide_eq_true (Trace.test_state (m := 5) states (fun s => decide (s.typed = [0x61, 0x01].flatMap double))
      (by decide +kernel))
  have taken : ∀ n ≥ 13, isRxEmpty (r.state n).m.s = true := by
    intro n hn
    refine Trace.test_state (m := n) states (fun s => isRxEmpty s.m.s) ?_
    rw [List.take_of_length_le hn]
    decide +kernel
  have takes : r.LeadsTo (fun s => isRxEmpty s.m.s = false) (fun s => s.Ended ∨ isRxEmpty s.m.s = true) :=
    fun n _ => ⟨max n 13, le_max_left .., .inr (taken _ (le_max_right ..))⟩
  obtain ⟨-, live⟩ := typed_obtained zero conforms 5
  obtain ⟨m, hm, all⟩ := live fairEvent takes
  exact ⟨r, zero, conforms, fairEvent, takes, typed, m, hm, fun k hk => (all k hk).imp_right fun h => h.2.1⟩

end Mvvmm.Vm.Input
