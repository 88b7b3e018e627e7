import Mathlib.Data.Nat.Digits.Defs

/-!
# Byte strings as numbers

The values of `swap.h`'s little- and big-endian integers.
-/
namespace EmuThreeDS

variable (bytes : List UInt8)

def leValue : Nat := Nat.ofDigits 256 (bytes.map (·.toNat))

def leBytes : Nat → Nat → List UInt8
  | 0, _ => []
  | size + 1, value => (value % 256).toUInt8 :: leBytes size (value / 256)

theorem leValue_zeros (size : Nat) : leValue (List.replicate size 0) = 0 := by
  unfold leValue
  rw [List.map_replicate]
  induction size with
  | zero => rfl
  | succ size ih =>
    rw [List.replicate_succ, Nat.ofDigits_cons, ih]
    rfl

@[simp] theorem length_leBytes (size value : Nat) : (leBytes size value).length = size := by
  induction size generalizing value with
  | zero => rfl
  | succ size ih => exact congrArg (· + 1) (ih (value / 256))

theorem leValue_leBytes (size value : Nat) : leValue (leBytes size value) = value % 256 ^ size := by
  induction size generalizing value with
  | zero => simp [leBytes, leValue, Nat.mod_one]
  | succ size ih =>
    have digit : ((value % 256).toUInt8).toNat = value % 256 := by
      rw [UInt8.toNat_ofNat']
      omega
    have tail : leValue (leBytes (size + 1) value) =
        (value % 256).toUInt8.toNat + 256 * leValue (leBytes size (value / 256)) := rfl
    rw [tail, ih, digit, Nat.pow_succ', Nat.mod_mul]

theorem leBytes_leValue : leBytes bytes.length (leValue bytes) = bytes := by
  induction bytes with
  | nil => rfl
  | cons byte rest ih =>
    have less := byte.toNat_lt
    have value : leValue (byte :: rest) = byte.toNat + 256 * leValue rest := rfl
    rw [value, List.length_cons, leBytes, Nat.add_mul_mod_self_left, Nat.mod_eq_of_lt less,
      Nat.add_mul_div_left _ _ (by decide), Nat.div_eq_of_lt less, Nat.zero_add]
    congr 1
    exact UInt8.ofNat_toNat

theorem leValue_lt : leValue bytes < 256 ^ bytes.length := by
  rw [← leBytes_leValue bytes, leValue_leBytes, length_leBytes]
  exact Nat.mod_lt _ (Nat.pow_pos (by decide))

def beValue : Nat := leValue bytes.reverse

end EmuThreeDS
