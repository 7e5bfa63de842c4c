import Mathlib

/-!
# Fixed-width big-endian numerals

Network byte order for numbers of any width. Values are natural numbers; a
value wider than its field keeps its low digits, as a store through a
fixed-width integer type does.
-/

namespace BigEndian

/-- The `width` low base-256 digits of `n`, most significant digit first. -/
def encode : Nat → Nat → List UInt8
  | 0, _ => []
  | width + 1, n => UInt8.ofNat (n / 256 ^ width) :: encode width n

/-- The number a digit string denotes, by the weight of its first digit. -/
def decode : List UInt8 → Nat
  | [] => 0
  | byte :: rest => 256 ^ rest.length * byte.toNat + decode rest

@[simp] theorem length_encode (width n : Nat) : (encode width n).length = width := by
  induction width with
  | zero => rfl
  | succ width ih => simp [encode, ih]

/-- A field read back is the stored value modulo the width of the field. -/
theorem decode_encode (width n : Nat) : decode (encode width n) = n % 256 ^ width := by
  induction width with
  | zero => simp [encode, decode, Nat.mod_one]
  | succ width ih =>
    rw [encode, decode, ih, length_encode, Nat.pow_succ, Nat.mod_mul]
    simp [Nat.add_comm]

theorem decode_encode_of_lt {width n : Nat} (h : n < 256 ^ width) :
    decode (encode width n) = n := by
  rw [decode_encode, Nat.mod_eq_of_lt h]

/-- A field at the front of a buffer, read back. -/
theorem decode_take_encode {width n : Nat} (h : n < 256 ^ width) (tail : List UInt8) :
    decode ((encode width n ++ tail).take width) = n := by
  rw [List.take_left' (length_encode width n), decode_encode_of_lt h]

theorem drop_encode (width n : Nat) (tail : List UInt8) :
    (encode width n ++ tail).drop width = tail :=
  List.drop_left' (length_encode width n)

end BigEndian
