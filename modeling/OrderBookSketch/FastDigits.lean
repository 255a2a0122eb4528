/-
This file models `fast_l2a` and `fast_i2a` of Common/include/Common.hpp, and proves that
they store the zero-padded decimal digits of the lowest places of a number.

A buffer is what lies from its pointer on. The loops go down from the last place, and
divide the number by ten in each turn; when it has run out, they store zeros. The
specialisations for three, two and one digits are unrolled and have no such branch.
-/

import OrderBookSketch.Library.Buffer
import OrderBookSketch.Library.Decimal

namespace ObLib

open Buffers Decimals

/-- `for(--len; len >= 0; --len)`, in a buffer of characters. -/
def fastDigits (buf : Nat → UInt8) : Nat → Nat → Nat → UInt8
  | 0, _ => buf
  | len + 1, i =>
    if i = 0 then fastDigits (Function.update buf len '0'.toUInt8) len i
    else fastDigits (Function.update buf len ('0'.toUInt8 + UInt8.ofNat (i % 10))) len (i / 10)

def fastL2a (buf : Nat → UInt8) (len : Nat) (i : UInt64) : Nat → UInt8 := fastDigits buf len i.toNat

def fastI2a (buf : Nat → UInt8) (len : Nat) (i : UInt32) : Nat → UInt8 := fastDigits buf len i.toNat

/-- `(char)('0' + (i%10))`. -/
def lastDigit (i : UInt32) : UInt8 := '0'.toUInt8 + (i % 10).toUInt8

def fastI2aThree (buf : Nat → UInt8) (i : UInt32) : Nat → UInt8 :=
  let buf := Function.update buf 2 (lastDigit i)
  let i := i / 10
  let buf := Function.update buf 1 (lastDigit i)
  let i := i / 10
  Function.update buf 0 (lastDigit i)

def fastI2aTwo (buf : Nat → UInt8) (i : UInt32) : Nat → UInt8 :=
  let buf := Function.update buf 1 (lastDigit i)
  let i := i / 10
  Function.update buf 0 (lastDigit i)

def fastI2aOne (buf : Nat → UInt8) (i : UInt32) : Nat → UInt8 := Function.update buf 0 (lastDigit i)

/-- `fast_i2a<n>`. -/
def fastI2aTemplate (n : Nat) (buf : Nat → UInt8) (i : UInt32) : Nat → UInt8 :=
  match n with
  | 1 => fastI2aOne buf i
  | 2 => fastI2aTwo buf i
  | 3 => fastI2aThree buf i
  | n => fastDigits buf n i.toNat

/-! ### The loop -/

theorem zero_add_digit (i : Nat) : '0'.toUInt8 + UInt8.ofNat (i % 10) = digitByte (i % 10) := by
  unfold digitByte
  rw [UInt8.ofNat_add]
  rfl

/-- One turn: the branch for a number that has run out stores what the other one would. -/
theorem fastDigits_succ (buf : Nat → UInt8) (len i : Nat) :
    fastDigits buf (len + 1) i =
      fastDigits (Function.update buf len (digitByte (i % 10))) len (i / 10) := by
  rw [fastDigits]
  split
  case isTrue ranOut =>
    subst ranOut
    rfl
  case isFalse => rw [zero_add_digit]

/-- The loop writes one digit to each place. -/
theorem fastDigits_eq (buf : Nat → UInt8) (len i : Nat) :
    fastDigits buf len i =
      write buf 0 len fun index => digitByte (i / 10 ^ (len - 1 - index) % 10) := by
  induction len generalizing buf i with
  | zero => rw [write_zero]; rfl
  | succ len inductionHypothesis =>
    rw [fastDigits_succ, inductionHypothesis, ← write_update_last, Nat.zero_add]
    have last : digitByte (i / 10 ^ (len + 1 - 1 - len) % 10) = digitByte (i % 10) := by
      rw [Nat.add_sub_cancel, Nat.sub_self, Nat.pow_zero, Nat.div_one]
    rw [last]
    refine write_congr fun index inside => ?_
    have place : (len - 1 - index).succ = len + 1 - 1 - index := by omega
    rw [Nat.div_div_eq_div_mul, ← Nat.pow_succ', place]

/-- The first bytes of a buffer are the digits of a number, and the others are as before. -/
structure HoldsDigits (before after : Nat → UInt8) (len value : Nat) : Prop where
  digits : (List.range len).map after = zeroPadded len value
  others : ∀ index, len ≤ index → after index = before index

theorem holdsDigits_fastDigits (buf : Nat → UInt8) (len i : Nat) :
    HoldsDigits buf (fastDigits buf len i) len (i % 10 ^ len) where
  digits := by
    rw [← map_range_digit, fastDigits_eq]
    refine List.map_congr_left fun index member => ?_
    refine Eq.trans (congrArg _ (Nat.zero_add index).symm) ?_
    exact write_inside (List.mem_range.mp member)
  others := by
    intro index behind
    rw [fastDigits_eq]
    exact write_outside fun range => by omega

/-! ### The specialisations -/

theorem lastDigit_eq (i : UInt32) : lastDigit i = digitByte (i.toNat % 10) := by
  rw [← zero_add_digit]
  unfold lastDigit
  congr 1

theorem toNat_div_ten (i : UInt32) : (i / 10).toNat = i.toNat / 10 := UInt32.toNat_div i 10

/-- The unrolled loops are the loop. -/
theorem fastI2aTemplate_eq (n : Nat) (buf : Nat → UInt8) (i : UInt32) :
    fastI2aTemplate n buf i = fastDigits buf n i.toNat := by
  match n with
  | 0 => rfl
  | 1 =>
    rw [fastDigits_succ, ← lastDigit_eq]
    rfl
  | 2 =>
    rw [fastDigits_succ, fastDigits_succ, ← lastDigit_eq, ← toNat_div_ten, ← lastDigit_eq]
    rfl
  | 3 =>
    rw [fastDigits_succ, fastDigits_succ, fastDigits_succ, ← lastDigit_eq, ← toNat_div_ten,
      ← lastDigit_eq, ← toNat_div_ten, ← lastDigit_eq]
    rfl
  | _ + 4 => rfl

/-- The digits of a number modulo ten to the length, in every buffer; and the same bytes by the
template, for every number of digits. -/
theorem fast_digits_stored :
    (∀ (buf : Nat → UInt8) (len : Nat) (i : UInt64),
      HoldsDigits buf (fastL2a buf len i) len (i.toNat % 10 ^ len)) ∧
    (∀ (buf : Nat → UInt8) (len : Nat) (i : UInt32),
      HoldsDigits buf (fastI2a buf len i) len (i.toNat % 10 ^ len)) ∧
    ∀ (n : Nat) (buf : Nat → UInt8) (i : UInt32), fastI2aTemplate n buf i = fastI2a buf n i :=
  ⟨fun buf len i => holdsDigits_fastDigits buf len i.toNat,
    fun buf len i => holdsDigits_fastDigits buf len i.toNat, fastI2aTemplate_eq⟩

end ObLib
