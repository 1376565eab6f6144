import Mathlib

/-! Fixed-width big-endian fields over byte strings, and the bounded reader that
takes them off the front of an input. -/

namespace ReticulumProtocols.Wire
open List

abbrev Bytes := List UInt8

instance : LawfulBEq Bytes := inferInstance

theorem forall_byte {P : UInt8 → Prop} (each : ∀ n < 256, P (UInt8.ofNat n)) (c : UInt8) : P c := by
  have found := each c.toNat c.toNat_lt
  rwa [UInt8.ofNat_toNat] at found

theorem bind_eq_ok {ε α β : Type} {x : Except ε α} {f : α → Except ε β} {b : β} :
    x >>= f = .ok b ↔ ∃ a, x = .ok a ∧ f a = .ok b := by
  cases x with
  | error error => exact iff_of_false (fun done => by cases done) fun ⟨_, done, _⟩ => by cases done
  | ok a => exact ⟨fun done => ⟨a, rfl, done⟩, fun ⟨_, same, done⟩ => Except.ok.inj same ▸ done⟩

/-- The low `width` bytes of a value, most significant byte first. -/
def be : Nat → Nat → Bytes
  | 0, _ => []
  | width + 1, value => UInt8.ofNat (value / 256 ^ width) :: be width value

def beNat (bytes : Bytes) : Nat :=
  bytes.foldl (fun total byte => total * 256 + byte.toNat) 0

/-- Split off exactly `count` bytes, or fail when the input is shorter. -/
def readN (count : Nat) (input : Bytes) : Option (Bytes × Bytes) :=
  if count ≤ input.length then some (input.take count, input.drop count) else none

@[simp] theorem be_length (width value : Nat) : (be width value).length = width := by
  induction width with
  | zero => rfl
  | succ width ih => simp [be, ih]

private theorem foldl_beNat (bytes : Bytes) (start : Nat) :
    bytes.foldl (fun total byte => total * 256 + byte.toNat) start =
      start * 256 ^ bytes.length + beNat bytes := by
  induction bytes generalizing start with
  | nil => simp [beNat]
  | cons byte bytes ih =>
    rw [beNat, foldl_cons, foldl_cons, ih, ih (0 * 256 + byte.toNat), length_cons]
    ring

theorem beNat_cons (byte : UInt8) (bytes : Bytes) :
    beNat (byte :: bytes) = byte.toNat * 256 ^ bytes.length + beNat bytes := by
  rw [beNat, foldl_cons, foldl_beNat]
  ring

theorem beNat_be_mod (width value : Nat) : beNat (be width value) = value % 256 ^ width := by
  induction width with
  | zero => simp [be, beNat, Nat.mod_one]
  | succ width ih =>
    have split := Nat.mod_mul (a := 256 ^ width) (b := 256) (x := value)
    rw [be, beNat_cons, be_length, ih, pow_succ, split, UInt8.toNat_ofNat']
    ring

theorem beNat_be (width value : Nat) (bound : value < 256 ^ width) :
    beNat (be width value) = value := by
  rw [beNat_be_mod, Nat.mod_eq_of_lt bound]

@[simp] theorem readN_append (taken rest : Bytes) :
    readN taken.length (taken ++ rest) = some (taken, rest) := by
  simp [readN]

theorem readN_be (width value : Nat) (rest : Bytes) :
    readN width (be width value ++ rest) = some (be width value, rest) := by
  simpa using readN_append (be width value) rest

end ReticulumProtocols.Wire
