/-
This file gives words their bytes, and words of the same bytes in reverse.

A word of so many bytes is determined by them, so the word that has the bytes of another
one in reverse is unique, and reversing is its own inverse. Two words that are reversed
and set in each other's place make a longer one that is reversed. A word that comes of a
narrower one by sign extension is one whose value lies in the narrower range.
-/

import Mathlib.Algebra.Group.Nat.Defs
import Mathlib.Algebra.Ring.Int.Defs

namespace ByteOrders

/-- The byte at a place, the lowest at 0. -/
def byte {width : Nat} (word : BitVec width) (place : Nat) : BitVec 8 := word.extractLsb' (8 * place) 8

/-- The second word has the bytes of the first in reverse. -/
def Reversed (size : Nat) (word reverse : BitVec (8 * size)) : Prop :=
  ∀ place < size, byte reverse place = byte word (size - 1 - place)

theorem byte_append_low {high low : Nat} (first : BitVec high) (second : BitVec low) {place : Nat}
    (inside : 8 * place + 8 ≤ low) : byte (first ++ second) place = byte second place :=
  BitVec.extractLsb'_append_eq_of_add_le inside

theorem byte_append_high {high : Nat} (first : BitVec high) {size : Nat} (second : BitVec (8 * size))
    (place : Nat) : byte (first ++ second) (size + place) = byte first place := by
  unfold byte
  rw [BitVec.extractLsb'_append_eq_of_le (by omega)]
  congr 1
  omega

/-- The word of given bytes. -/
def ofBytes : (size : Nat) → (Nat → BitVec 8) → BitVec (8 * size)
  | 0, _ => 0#0
  | size + 1, bytes => ofBytes size (fun place => bytes (place + 1)) ++ bytes 0

theorem byte_ofBytes {size place : Nat} (bytes : Nat → BitVec 8) (inside : place < size) :
    byte (ofBytes size bytes) place = bytes place := by
  induction size generalizing bytes place with
  | zero => exact absurd inside (Nat.not_lt_zero place)
  | succ size inductionHypothesis =>
    cases place with
    | zero => exact BitVec.extractLsb'_append_eq_right
    | succ place =>
      have later := inductionHypothesis (fun place => bytes (place + 1)) (Nat.lt_of_succ_lt_succ inside)
      rw [← later, Nat.add_comm place 1]
      exact @byte_append_high _ _ 1 (bytes 0) place

theorem getLsbD_byte {width : Nat} (word : BitVec width) (index : Nat) :
    (byte word (index / 8)).getLsbD (index % 8) = word.getLsbD index := by
  have small : index % 8 < 8 := Nat.mod_lt _ (by decide)
  simp only [byte, BitVec.getLsbD_extractLsb', Nat.div_add_mod, small, decide_true, Bool.true_and]

variable {size : Nat} {word other reverse : BitVec (8 * size)}

/-- Words of the same bytes are the same. -/
theorem eq_of_bytes (same : ∀ place < size, byte word place = byte other place) : word = other := by
  refine BitVec.eq_of_getLsbD_eq fun index inside => ?_
  rw [← getLsbD_byte, same (index / 8) (by omega), getLsbD_byte]

theorem Reversed.symm (reversed : Reversed size word reverse) : Reversed size reverse word := by
  intro place inside
  have back : size - 1 - (size - 1 - place) = place := by omega
  have here := reversed (size - 1 - place) (by omega)
  rw [back] at here
  exact here.symm

/-- Only one word has these bytes in reverse. -/
theorem Reversed.unique (reversed : Reversed size word reverse)
    (reversedOther : Reversed size other reverse) : word = other :=
  eq_of_bytes fun place inside =>
    (reversed.symm place inside).trans (reversedOther.symm place inside).symm

/-- The reverse of two words is that of the second in front of that of the first. -/
theorem Reversed.append {first second : Nat} {high highReverse : BitVec (8 * first)}
    {low lowReverse : BitVec (8 * second)} (reversedHigh : Reversed first high highReverse)
    (reversedLow : Reversed second low lowReverse) {place : Nat} (inside : place < first + second) :
    byte (lowReverse ++ highReverse) place = byte (high ++ low) (first + second - 1 - place) := by
  by_cases inHigh : place < first
  · have behind : first + second - 1 - place = second + (first - 1 - place) := by omega
    rw [behind, byte_append_high, byte_append_low _ _ (by omega), reversedHigh place inHigh]
  · obtain ⟨rest, rfl⟩ := Nat.exists_eq_add_of_le (Nat.not_lt.mp inHigh)
    have before : first + second - 1 - (first + rest) = second - 1 - rest := by omega
    rw [before, byte_append_high, byte_append_low _ _ (by omega),
      reversedLow rest (Nat.lt_of_add_lt_add_left inside)]

/-! ### Narrow words -/

/-- The signed value of a word is one of so many bits. -/
def Narrow (bits : Nat) {width : Nat} (word : BitVec width) : Prop :=
  -2 ^ (bits - 1) ≤ word.toInt ∧ word.toInt < 2 ^ (bits - 1)

instance (bits : Nat) {width : Nat} (word : BitVec width) : Decidable (Narrow bits word) :=
  inferInstanceAs (Decidable (_ ∧ _))

theorem setWidth_signExtend {bits width : Nat} (wider : bits ≤ width) (word : BitVec bits) :
    (word.signExtend width).setWidth bits = word := by
  refine BitVec.eq_of_getLsbD_eq fun index inside => ?_
  rw [BitVec.getLsbD_setWidth, BitVec.getLsbD_signExtend]
  simp only [inside, Nat.lt_of_lt_of_le inside wider, decide_true, Bool.true_and, if_true]

/-- Taking the lowest bits and extending their sign leaves exactly the narrow words as they are. -/
theorem signExtend_setWidth_eq_iff {bits width : Nat} (some : 0 < bits) (wider : bits ≤ width)
    (word : BitVec width) : (word.setWidth bits).signExtend width = word ↔ Narrow bits word := by
  have double : (2 : Int) ^ bits = 2 * 2 ^ (bits - 1) := by
    obtain ⟨fewer, rfl⟩ := Nat.exists_eq_succ_of_ne_zero (Nat.ne_of_gt some)
    rw [Nat.succ_sub_one, Int.pow_succ, Int.mul_comm]
  have value : ((word.setWidth bits).signExtend width).toInt = word.toInt.bmod (2 ^ bits) := by
    rw [BitVec.toInt_signExtend_of_le wider, BitVec.toInt_setWidth, BitVec.toInt_eq_toNat_bmod,
      Int.bmod_bmod_of_dvd (Nat.pow_dvd_pow 2 wider)]
  rw [← BitVec.toInt_inj, value]
  unfold Narrow
  constructor
  · intro same
    have low := Int.le_bmod (x := word.toInt) (Nat.two_pow_pos bits)
    have high := Int.bmod_lt (x := word.toInt) (Nat.two_pow_pos bits)
    rw [same] at low high
    push_cast at low high
    omega
  · rintro ⟨low, high⟩
    refine Int.bmod_eq_of_le_mul_two ?_ ?_ <;> push_cast <;> omega

end ByteOrders
