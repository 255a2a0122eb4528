/-
This file models `hex_to_string` of both OrderGenerator.hpp files on the bytes of a
string, and proves that it accepts exactly the lower-case hex strings and undoes their
encoding.

A digit is found by a binary search in a table of 16, which compares signed characters.
The search may end behind the table, where the NUL of the literal stands; no digit is a
NUL, so a character that is not in the table differs from what is found there as well.
-/

import OrderBookSketch.Library.LowerBound
import Mathlib.Data.List.GetD
import Mathlib.Data.List.Induction

namespace ObLib

open OrderStatistics

/-- `std::invalid_argument`. -/
structure InvalidArgument where
  what : String
deriving DecidableEq, Repr

namespace HexString

/-- The characters of `lut`. -/
def lut : List UInt8 := "0123456789abcdef".toList.map Char.toUInt8

/-- The value of a `char`, which is signed. -/
def char (c : UInt8) : Int := c.toInt8.toInt

/-- The place of a digit. Behind the table, the search is at the NUL of the literal. -/
def hexDigit (a : UInt8) : Except InvalidArgument Nat :=
  let p := lowerBound (lut.map char) (char a)
  if lut.getD p 0 ≠ a then .error ⟨"not a hex digit"⟩ else .ok p

/-- The loop, two characters in each turn. -/
def hexBytes : List UInt8 → Except InvalidArgument (List UInt8)
  | a :: b :: input => do
    let p ← hexDigit a
    let q ← hexDigit b
    let output ← hexBytes input
    return UInt8.ofNat (p <<< 4 ||| q) :: output
  | _ => .ok []

def hexToString (input : List UInt8) : Except InvalidArgument (List UInt8) :=
  if input.length % 2 = 1 then .error ⟨"odd length"⟩ else hexBytes input

/-! ### The encoding -/

/-- The character of a digit: 0-9 or a-f. -/
def digitChar (digit : Nat) : UInt8 := UInt8.ofNat (if digit < 10 then 48 + digit else 87 + digit)

/-- Two lower-case digits for each byte, the high one first. -/
def encode (bytes : List UInt8) : List UInt8 :=
  bytes.flatMap fun byte => [digitChar (byte.toNat / 16), digitChar (byte.toNat % 16)]

/-- One of 0-9 or a-f. -/
def IsHexDigit (c : UInt8) : Prop :=
  48 ≤ c.toNat ∧ c.toNat ≤ 57 ∨ 97 ≤ c.toNat ∧ c.toNat ≤ 102

theorem sorted_lut : (lut.map char).Pairwise (· ≤ ·) := by decide

theorem below_lut : ∀ digit < 16, below (lut.map char) (char (lut.getD digit 0)) = digit := by decide

theorem getD_lut : ∀ digit < 16, lut.getD digit 0 = digitChar digit := by decide

/-- The search finds a digit at its place, and accepts nothing else. -/
theorem hexDigit_eq_ok_iff {a : UInt8} {digit : Nat} :
    hexDigit a = .ok digit ↔ digit < 16 ∧ digitChar digit = a := by
  unfold hexDigit
  rw [lowerBound_eq sorted_lut]
  constructor
  · intro found
    simp only at found
    split at found
    case isTrue => cases found
    case isFalse same =>
      have place : below (lut.map char) (char a) = digit := Except.ok.inj found
      rw [place, not_not] at same
      by_cases inside : digit < 16
      · exact ⟨inside, (getD_lut digit inside).symm.trans same⟩
      · -- Behind the table stands the NUL, and a NUL is found in front of it.
        rw [List.getD_eq_default _ _ (Nat.le_of_not_lt inside)] at same
        have front : below (lut.map char) (char 0) = 0 := by decide
        rw [← same, front] at place
        omega
  · rintro ⟨inside, rfl⟩
    rw [← getD_lut digit inside, below_lut digit inside]
    exact if_neg fun differs => differs rfl

/-! ### Bytes -/

/-- The halves of a byte. -/
theorem byte_of_digits {high low : Nat} (highSmall : high < 16) (lowSmall : low < 16) :
    (UInt8.ofNat (high <<< 4 ||| low)).toNat = high * 16 + low := by
  have joined : high <<< 4 ||| low = high * 16 + low := by
    rw [← Nat.shiftLeft_add_eq_or_of_lt lowSmall, Nat.shiftLeft_eq]
  rw [joined]
  exact UInt8.toNat_ofNat_of_lt' (by rw [UInt8.size]; omega)

theorem encode_cons (byte : UInt8) (bytes : List UInt8) :
    encode (byte :: bytes) =
      digitChar (byte.toNat / 16) :: digitChar (byte.toNat % 16) :: encode bytes := rfl

theorem length_encode (bytes : List UInt8) : (encode bytes).length = 2 * bytes.length := by
  induction bytes with
  | nil => rfl
  | cons byte bytes inductionHypothesis =>
    rw [encode_cons, List.length_cons, List.length_cons, List.length_cons, inductionHypothesis]
    omega

theorem parity_cons_cons (a b : UInt8) (input : List UInt8) :
    (a :: b :: input).length % 2 = input.length % 2 := by
  rw [List.length_cons, List.length_cons]
  omega

/-- One turn of the loop: two digits make the byte that they encode. -/
theorem hexBytes_cons_iff {a b : UInt8} {input output : List UInt8} :
    hexBytes (a :: b :: input) = .ok output ↔
      ∃ byte later, output = byte :: later ∧ hexBytes input = .ok later ∧
        digitChar (byte.toNat / 16) = a ∧ digitChar (byte.toNat % 16) = b := by
  constructor
  · intro accepted
    cases foundHigh : hexDigit a with
    | error => rw [hexBytes, foundHigh] at accepted; cases accepted
    | ok high =>
      cases foundLow : hexDigit b with
      | error => rw [hexBytes, foundHigh, foundLow] at accepted; cases accepted
      | ok low =>
        cases rest : hexBytes input with
        | error => rw [hexBytes, foundHigh, foundLow, rest] at accepted; cases accepted
        | ok later =>
          rw [hexBytes, foundHigh, foundLow, rest] at accepted
          obtain ⟨highSmall, rfl⟩ := hexDigit_eq_ok_iff.mp foundHigh
          obtain ⟨lowSmall, rfl⟩ := hexDigit_eq_ok_iff.mp foundLow
          have value := byte_of_digits highSmall lowSmall
          refine ⟨_, later, (Except.ok.inj accepted).symm, rfl, ?_, ?_⟩
          · rw [value]
            exact congrArg digitChar (by omega)
          · rw [value]
            exact congrArg digitChar (by omega)
  · rintro ⟨byte, later, rfl, rest, rfl, rfl⟩
    have highSmall : byte.toNat / 16 < 16 := by
      have bound := byte.toNat_lt
      omega
    have lowSmall : byte.toNat % 16 < 16 := Nat.mod_lt _ (by decide)
    have same : UInt8.ofNat ((byte.toNat / 16) <<< 4 ||| byte.toNat % 16) = byte := by
      refine UInt8.toNat_inj.mp ((byte_of_digits highSmall lowSmall).trans ?_)
      omega
    rw [hexBytes, hexDigit_eq_ok_iff.mpr ⟨highSmall, rfl⟩, hexDigit_eq_ok_iff.mpr ⟨lowSmall, rfl⟩,
      rest]
    exact congrArg (fun first => Except.ok (first :: later)) same

theorem hexBytes_encode (bytes : List UInt8) : hexBytes (encode bytes) = .ok bytes := by
  induction bytes with
  | nil => rfl
  | cons byte bytes inductionHypothesis =>
    rw [encode_cons]
    exact hexBytes_cons_iff.mpr ⟨byte, bytes, rfl, inductionHypothesis, rfl, rfl⟩

/-- What is accepted is an encoding. -/
theorem eq_encode_of_hexToString {input output : List UInt8}
    (accepted : hexToString input = .ok output) : input = encode output := by
  unfold hexToString at accepted
  split at accepted
  case isTrue => cases accepted
  case isFalse even =>
    induction input using List.twoStepInduction generalizing output with
    | nil =>
      cases accepted
      rfl
    | singleton => exact absurd rfl even
    | cons_cons a b input inductionHypothesis _ =>
      obtain ⟨byte, later, rfl, rest, rfl, rfl⟩ := hexBytes_cons_iff.mp accepted
      rw [parity_cons_cons] at even
      rw [encode_cons, ← inductionHypothesis even rest]

theorem hexToString_encode (bytes : List UInt8) : hexToString (encode bytes) = .ok bytes := by
  have even : ¬ (encode bytes).length % 2 = 1 := by
    rw [length_encode]
    omega
  rw [hexToString, if_neg even, hexBytes_encode]

/-! ### Acceptance -/

theorem isHexDigit_iff (c : UInt8) : IsHexDigit c ↔ ∃ digit < 16, digitChar digit = c := by
  constructor
  · rintro (⟨low, high⟩ | ⟨low, high⟩)
    · refine ⟨c.toNat - 48, by omega, ?_⟩
      rw [digitChar, if_pos (by omega), Nat.add_sub_cancel' low, UInt8.ofNat_toNat]
    · refine ⟨c.toNat - 87, by omega, ?_⟩
      rw [digitChar, if_neg (by omega), Nat.add_sub_cancel' (by omega), UInt8.ofNat_toNat]
  · rintro ⟨digit, small, rfl⟩
    have value : (digitChar digit).toNat = if digit < 10 then 48 + digit else 87 + digit :=
      UInt8.toNat_ofNat_of_lt' (by rw [UInt8.size]; split <;> omega)
    unfold IsHexDigit
    rw [value]
    split <;> omega

/-- Pairs of hex digits are an encoding. -/
theorem exists_encode {input : List UInt8} (even : input.length % 2 = 0)
    (digits : ∀ c ∈ input, IsHexDigit c) : ∃ bytes, encode bytes = input := by
  induction input using List.twoStepInduction with
  | nil => exact ⟨[], rfl⟩
  | singleton => cases even
  | cons_cons a b input inductionHypothesis _ =>
    obtain ⟨digitA, digitsRest⟩ := List.forall_mem_cons.mp digits
    obtain ⟨digitB, digitsRest⟩ := List.forall_mem_cons.mp digitsRest
    rw [parity_cons_cons] at even
    obtain ⟨bytes, rfl⟩ := inductionHypothesis even digitsRest
    obtain ⟨high, highSmall, rfl⟩ := (isHexDigit_iff a).mp digitA
    obtain ⟨low, lowSmall, rfl⟩ := (isHexDigit_iff b).mp digitB
    have value := byte_of_digits highSmall lowSmall
    refine ⟨UInt8.ofNat (high <<< 4 ||| low) :: bytes, ?_⟩
    rw [encode_cons, value, show (high * 16 + low) / 16 = high by omega,
      show (high * 16 + low) % 16 = low by omega]

theorem isHexDigit_of_mem_encode {bytes : List UInt8} {c : UInt8} (member : c ∈ encode bytes) :
    IsHexDigit c := by
  obtain ⟨byte, -, either⟩ := List.mem_flatMap.mp member
  have bound := byte.toNat_lt
  rw [isHexDigit_iff]
  rcases List.mem_cons.mp either with rfl | low
  · exact ⟨byte.toNat / 16, by omega, rfl⟩
  · rw [List.mem_singleton.mp low]
    exact ⟨byte.toNat % 16, Nat.mod_lt _ (by decide), rfl⟩

/-- A string is accepted exactly when it is of an even number of lower-case hex digits, and decoding
is the inverse of the encoding. -/
theorem hexToString_decodes :
    (∀ input, (∃ output, hexToString input = .ok output) ↔
      input.length % 2 = 0 ∧ ∀ c ∈ input, IsHexDigit c) ∧
    (∀ bytes, hexToString (encode bytes) = .ok bytes) ∧
    ∀ input other output, hexToString input = .ok output → hexToString other = .ok output →
      input = other := by
  refine ⟨fun input => ⟨?_, ?_⟩, hexToString_encode, fun input other output accepted acceptedOther => ?_⟩
  · rintro ⟨output, accepted⟩
    rw [eq_encode_of_hexToString accepted, length_encode]
    exact ⟨Nat.mul_mod_right 2 _, fun c => isHexDigit_of_mem_encode⟩
  · rintro ⟨even, digits⟩
    obtain ⟨bytes, rfl⟩ := exists_encode even digits
    exact ⟨bytes, hexToString_encode bytes⟩
  · rw [eq_encode_of_hexToString accepted, eq_encode_of_hexToString acceptedOther]

end HexString

end ObLib
