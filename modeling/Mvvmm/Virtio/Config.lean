import Mvvmm.Lib.Space
import Mvvmm.Virtio.Registers

/-!
# The configuration space

The registers from `VIRTIO_MMIO_CONFIG` on, which both devices give a size of 8 bytes. The code tests the bounds of an
access on its own for each of the three sizes and either direction; `configStep_space` says that all of them amount to
one step of a little-endian byte space, and `configSpace_refines` what follows for any sequence of accesses.
-/

namespace Mvvmm.Virtio
open Bytes CMem Mealy Space

/-- The size of an access. -/
inductive Width where
  | one
  | two
  | four
  deriving DecidableEq, Repr

/-- The size in bytes. -/
def Width.size : Width → Nat
  | .one => 1
  | .two => 2
  | .four => 4

/-- An access to the configuration space, at an offset from its beginning. -/
inductive ConfigAct where
  | read (offset : Nat) (w : Width)
  | write (offset : Nat) (w : Width) (val : UInt32)
  deriving DecidableEq, Repr

/-- What is accessed. -/
def ConfigAct.access : ConfigAct → Space.Access
  | .read offset w => .read offset w.size
  | .write offset w val => .write offset w.size val.toNat

variable {B : Type} {recv : DeviceRecv B} {s : VirtioDevice B} {f : Nat → UInt8} {offset : Nat} {w : Width} {val : UInt32}

/-- The call of `virtio_mmio_read` or `virtio_mmio_write`: what it returns, and the device afterwards. -/
def configStep (recv : DeviceRecv B) (s : VirtioDevice B) : ConfigAct → Except Stop (Option UInt32) × VirtioDevice B
  | .read offset w => ((virtioMmioRead s (virtioMmioConfig + offset) w.size).map some, s)
  | .write offset w val =>
    match virtioMmioWrite recv s (virtioMmioConfig + offset) val w.size with
    | .ok s => (.ok none, s)
    | .error e => (.error e, s)

/-- The device with the given bytes in its configuration space. -/
def withConfig (s : VirtioDevice B) (f : Nat → UInt8) : VirtioDevice B :=
  { s with configSpace := f }

/-- The three tests of an access are one. -/
lemma config_bound (size : s.configSpaceSize = 8) :
    (offset < s.configSpaceSize.toNat ↔ offset + 1 ≤ 8) ∧ (offset < (s.configSpaceSize - 1).toNat ↔ offset + 2 ≤ 8) ∧
      (offset < (s.configSpaceSize - 3).toNat ↔ offset + 4 ≤ 8) := by
  have h0 : (8 : UInt32).toNat = 8 := rfl
  have h1 : (8 - 1 : UInt32).toNat = 7 := rfl
  have h3 : (8 - 3 : UInt32).toNat = 5 := rfl
  rw [size, h0, h1, h3]
  omega

/-- A read of the configuration space is of its bytes, or of 0 if it passes the end. -/
lemma virtioConfigRead_eq (size : s.configSpaceSize = 8) :
    virtioConfigRead s offset w.size =
      .ok (.ofNat (if offset + w.size ≤ 8 then leNat (slice s.configSpace offset w.size) else 0)) := by
  obtain ⟨one, two, four⟩ := @config_bound B s offset size
  by_cases inside : offset + w.size ≤ 8
  · rw [if_pos inside]
    cases w with
    | one =>
      have byte : (s.configSpace offset).toUInt32 = .ofNat (leNat (slice s.configSpace offset 1)) := by
        simp [slice]
      simp only [virtioConfigRead, Width.size, if_pos (one.mpr inside), byte]
      rfl
    | two => exact if_pos (two.mpr inside)
    | four => exact if_pos (four.mpr inside)
  · rw [if_neg inside]
    cases w with
    | one => exact if_neg (one.not.mpr inside)
    | two => exact if_neg (two.not.mpr inside)
    | four => exact if_neg (four.not.mpr inside)

/-- A write of the configuration space is to its bytes, or nothing if it passes the end. -/
lemma virtioConfigWrite_eq (size : s.configSpaceSize = 8) :
    virtioConfigWrite s offset val w.size = withConfig s
      (if offset + w.size ≤ 8 then splice s.configSpace offset (leBytes w.size val.toNat) else s.configSpace) := by
  obtain ⟨one, two, four⟩ := @config_bound B s offset size
  by_cases inside : offset + w.size ≤ 8
  · rw [if_pos inside]
    cases w with
    | one => exact if_pos (one.mpr inside)
    | two => exact if_pos (two.mpr inside)
    | four => exact if_pos (four.mpr inside)
  · rw [if_neg inside]
    cases w with
    | one => exact if_neg (one.not.mpr inside)
    | two => exact if_neg (two.not.mpr inside)
    | four => exact if_neg (four.not.mpr inside)

/-- No queue is notified at an offset of the configuration space. -/
lemma notifies_config {k : Nat} : notifies (virtioMmioConfig + offset) val k = none := by
  simp only [notifies]
  rw [if_neg]
  rintro ⟨-, e⟩
  exact absurd (Reg.ofOffset_lt e) (by omega)

/-- The value of an access fits into 32 bits. -/
lemma toNat_ofNat_leNat : (UInt32.ofNat (leNat (slice f offset w.size))).toNat = leNat (slice f offset w.size) := by
  have lt := @leNat_lt (slice f offset w.size)
  have le : 256 ^ (slice f offset w.size).length ≤ 2 ^ 32 := by
    rw [slice_length]
    cases w <;> decide
  rw [UInt32.toNat_ofNat']
  exact Nat.mod_eq_of_lt (lt.trans_le le)

/-- An access to the configuration space is a step of a byte space. -/
lemma configStep_space (size : s.configSpaceSize = 8) (a : ConfigAct) :
    configStep recv (withConfig s f) a =
      (.ok ((Space.step 8 f a.access).1.map .ofNat), withConfig s (Space.step 8 f a.access).2) := by
  have size' : (withConfig s f).configSpaceSize = 8 := size
  cases a with
  | read offset w =>
    simp only [configStep, virtioMmioRead]
    rw [if_pos (Nat.le_add_right _ _), Nat.add_sub_cancel_left, virtioConfigRead_eq size']
    rfl
  | write offset w val =>
    simp only [configStep, virtioMmioWrite, notifies_config, virtioMmioWriteReg]
    rw [if_pos (Nat.le_add_right _ _), Nat.add_sub_cancel_left, virtioConfigWrite_eq size']
    rfl

/-- What a step of the space returns fits into 32 bits. -/
lemma toNat_space {a : ConfigAct} :
    (((Space.step 8 f a.access).1.map UInt32.ofNat).map UInt32.toNat) = (Space.step 8 f a.access).1 := by
  cases a with
  | write offset w val => rfl
  | read offset w =>
    simp only [ConfigAct.access, Space.step, Option.map_some]
    split
    · rw [toNat_ofNat_leNat]
    · rfl

/-- The machine that keeps the bytes of the configuration space only. -/
lemma run_configStep (size : s.configSpaceSize = 8) (acts : List ConfigAct) :
    (run (configStep recv) s acts).1 =
        (run (Space.step 8) s.configSpace (acts.map ConfigAct.access)).1.map (fun r => .ok (r.map .ofNat)) ∧
      (run (configStep recv) s acts).2 =
        withConfig s (run (Space.step 8) s.configSpace (acts.map ConfigAct.access)).2 := by
  refine run_sim (R := fun s' f => s' = withConfig s f) ?_ rfl
  rintro s' f a - rfl
  rw [configStep_space size]
  exact ⟨rfl, rfl⟩

/-- For every sequence of accesses of any sizes at any offsets of the configuration space: each read returns the
little-endian value of the bytes last written to its positions, or there from the beginning, and 0 if it does not lie
wholly in the space; and nothing changes but the bytes of the writes that lie wholly in it. -/
theorem configSpace_refines (recv : DeviceRecv B) (s : VirtioDevice B) (size : s.configSpaceSize = 8)
    (acts : List ConfigAct) :
    (∀ k a, acts[k]? = some a → ∃ r : Option UInt32, (run (configStep recv) s acts).1[k]? = some (.ok r) ∧
      r.map UInt32.toNat = lastValue 8 s.configSpace ((acts.take k).map ConfigAct.access).reverse a.access) ∧
    (run (configStep recv) s acts).2 =
      { s with configSpace := lastByte 8 s.configSpace (acts.map ConfigAct.access).reverse } := by
  obtain ⟨outs, state⟩ := @run_configStep B recv s size acts
  constructor
  · intro k a h
    rw [outs, List.getElem?_map, run_getElem?, List.getElem?_map, h]
    refine ⟨_, rfl, ?_⟩
    rw [toNat_space, ← List.map_take]
    have out := @run_step_output 8 s.configSpace (acts.map ConfigAct.access) k
    rw [run_getElem?, List.getElem?_map, h, ← List.map_take] at out
    exact Option.some.inj out
  · rw [state, run_step_state]
    rfl

/-- A device with a cleared configuration space of 8 bytes. -/
def clearedDevice : VirtioDevice Unit :=
  virtioInit (.onePage fun _ => 0) 1 8 32 ()

/-- Two overlapping writes are read back with another size; a write of which the last byte is outside does nothing. -/
theorem configSpace_refines_overlap :
    clearedDevice.configSpaceSize = 8 ∧
    ∃ r : Option UInt32,
      (run (configStep fun s _ _ _ _ => .ok (0, s)) clearedDevice [.write 4 .four 0x44332211, .write 6 .one 0xff,
        .write 7 .two 0xaaaa, .read 5 .two]).1[3]? = some (.ok r) ∧ r.map UInt32.toNat = some 0xff22 :=
  ⟨rfl, (configSpace_refines (fun s _ _ _ _ => .ok (0, s)) clearedDevice rfl [.write 4 .four 0x44332211,
    .write 6 .one 0xff, .write 7 .two 0xaaaa, .read 5 .two]).1 3 (.read 5 .two) rfl⟩

end Mvvmm.Virtio
