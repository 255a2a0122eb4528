/-
This file models `ByteOrderConverter` of Common/include/ByteConverter.hpp for its integral
types, and proves for which values a conversion is right.

The argument of all three helpers is a `short`, so a wider value loses its upper bits on
the way in and gets them back by sign extension only if it is one that a `short` holds.
The 32-bit helper moreover reverses in a register of 16 bits, for which the result of
the instruction is not defined; it is a parameter here, and a conversion is right only if
it is so whatever the instruction leaves. The variants called slow reverse the bytes of
the same extended argument.
-/

import OrderBookSketch.Library.ByteOrder

namespace ObLib

open ByteOrders

inductive ByteOrder where
  | bigEndian
  | littleEndian
deriving DecidableEq, Repr

namespace ByteOrderConverter

/-! ### The helpers -/

/-- `xchg %b0, %h0`. -/
def xchg (val : BitVec 16) : BitVec 16 := ofBytes 2 fun place => byte val (1 - place)

/-- `bswap` on a register of 32 bits. -/
def bswap (val : BitVec 32) : BitVec 32 := ofBytes 4 fun place => byte val (3 - place)

def convert16bit (val : Int16) (order : ByteOrder) : Int16 :=
  if order = .littleEndian then val else .ofBitVec (xchg val.toBitVec)

/-- What `bswap` leaves of a register of 16 bits is the argument `bswap16`. -/
def convert32bit (bswap16 : BitVec 16 → BitVec 16) (val : Int16) (order : ByteOrder) : Int32 :=
  if order = .littleEndian then val.toInt32
  else (Int16.ofBitVec (bswap16 val.toBitVec)).toInt32

def convert64bit (val : Int16) (order : ByteOrder) : Int64 :=
  if order = .littleEndian then val.toInt64
  else
    let ll := val.toInt64.toBitVec
    let low : BitVec 32 := ll.extractLsb' 0 32
    let high : BitVec 32 := ll.extractLsb' 32 32
    -- The registers of the halves are each other's as results.
    .ofBitVec (bswap low ++ bswap high)

def convert16bitSlow (val : Int16) (order : ByteOrder) : Int16 :=
  if order = .littleEndian then val
  else
    let c := byte val.toBitVec
    .ofBitVec (ofBytes 2 fun
      | 0 => c 1
      | _ => c 0)

def convert32bitSlow (val : Int16) (order : ByteOrder) : Int32 :=
  if order = .littleEndian then val.toInt32
  else
    let c := byte val.toInt32.toBitVec
    .ofBitVec (ofBytes 4 fun
      | 0 => c 3
      | 1 => c 2
      | 2 => c 1
      | _ => c 0)

def convert64bitSlow (val : Int16) (order : ByteOrder) : Int64 :=
  if order = .littleEndian then val.toInt64
  else
    let c := byte val.toInt64.toBitVec
    .ofBitVec (ofBytes 8 fun
      | 0 => c 7
      | 1 => c 6
      | 2 => c 5
      | 3 => c 4
      | 4 => c 3
      | 5 => c 2
      | 6 => c 1
      | _ => c 0)

/-! ### The overloads -/

inductive Integral where
  | short
  | unsignedShort
  | int
  | unsignedInt
  | longLong
  | unsignedLongLong
deriving DecidableEq, Repr

def Integral.size : Integral → Nat
  | .short => 2
  | .unsignedShort => 2
  | .int => 4
  | .unsignedInt => 4
  | .longLong => 8
  | .unsignedLongLong => 8

def convertShort (val : Int16) (order : ByteOrder) : Int16 := convert16bit val order

def convertUnsignedShort (val : UInt16) (order : ByteOrder) : UInt16 :=
  (convert16bit val.toInt16 order).toUInt16

def convertInt (bswap16 : BitVec 16 → BitVec 16) (val : Int32) (order : ByteOrder) : Int32 :=
  convert32bit bswap16 val.toInt16 order

def convertUnsignedInt (bswap16 : BitVec 16 → BitVec 16) (val : UInt32) (order : ByteOrder) :
    UInt32 :=
  (convert32bit bswap16 val.toInt32.toInt16 order).toUInt32

def convertLongLong (val : Int64) (order : ByteOrder) : Int64 := convert64bit val.toInt16 order

def convertUnsignedLongLong (val : UInt64) (order : ByteOrder) : UInt64 :=
  (convert64bit val.toInt64.toInt16 order).toUInt64

/-- The overload of `convertByteOrder` for a type, on the bits of its values. -/
def convertByteOrder (bswap16 : BitVec 16 → BitVec 16) (order : ByteOrder) :
    (type : Integral) → BitVec (8 * type.size) → BitVec (8 * type.size)
  | .short, val => (convertShort (.ofBitVec val) order).toBitVec
  | .unsignedShort, val => (convertUnsignedShort (.ofBitVec val) order).toBitVec
  | .int, val => (convertInt bswap16 (.ofBitVec val) order).toBitVec
  | .unsignedInt, val => (convertUnsignedInt bswap16 (.ofBitVec val) order).toBitVec
  | .longLong, val => (convertLongLong (.ofBitVec val) order).toBitVec
  | .unsignedLongLong, val => (convertUnsignedLongLong (.ofBitVec val) order).toBitVec

/-- The value unchanged, or with its bytes reversed. -/
def Converted (order : ByteOrder) (size : Nat) (val result : BitVec (8 * size)) : Prop :=
  match order with
  | .littleEndian => result = val
  | .bigEndian => Reversed size val result

/-- The values that are converted right. -/
def Convertible (order : ByteOrder) : (type : Integral) → BitVec (8 * type.size) → Prop
  | .short, _ | .unsignedShort, _ => True
  | .int, val | .unsignedInt, val => order = .littleEndian ∧ Narrow 16 val
  | .longLong, val | .unsignedLongLong, val => Narrow 16 val

/-- The values that two conversions give back. -/
def Restorable (order : ByteOrder) : (type : Integral) → BitVec (8 * type.size) → Prop
  | .short, _ | .unsignedShort, _ => True
  | .int, val | .unsignedInt, val => order = .littleEndian ∧ Narrow 16 val
  | .longLong, val | .unsignedLongLong, val =>
    if order = .littleEndian then Narrow 16 val else val = 0 ∨ val = -1

/-! ### Reversing -/

theorem reversed_xchg (val : BitVec 16) : Reversed 2 val (xchg val) :=
  fun _ inside => byte_ofBytes _ inside

theorem reversed_bswap (val : BitVec 32) : Reversed 4 val (bswap val) :=
  fun _ inside => byte_ofBytes _ inside

/-- The halves of a word, each reversed and in the place of the other, are the word reversed. -/
theorem reversed_halves (ll : BitVec 64) :
    Reversed 8 ll (bswap (ll.extractLsb' 0 32) ++ bswap (ll.extractLsb' 32 32)) := by
  intro place inside
  have halves : ll.extractLsb' 32 32 ++ ll.extractLsb' 0 32 = ll :=
    (BitVec.extractLsb'_append_extractLsb'_eq_extractLsb' rfl).trans BitVec.extractLsb'_eq_self
  have reversed := (reversed_bswap (ll.extractLsb' 32 32)).append
    (reversed_bswap (ll.extractLsb' 0 32)) inside
  rwa [halves] at reversed

/-! ### The helpers and their arguments -/

theorem reversed_convert64bit (val : Int16) :
    Reversed 8 (val.toBitVec.signExtend 64) (convert64bit val .bigEndian).toBitVec :=
  reversed_halves _

/-- The slow variants are the other ones, for 16 and for 64 bits; and the one for 32 bits reverses
the extended argument. -/
theorem slow_variants (val : Int16) (order : ByteOrder) :
    convert16bitSlow val order = convert16bit val order ∧
      convert64bitSlow val order = convert64bit val order ∧
      Converted order 4 val.toInt32.toBitVec (convert32bitSlow val order).toBitVec := by
  cases order with
  | littleEndian => exact ⟨rfl, (if_pos rfl).trans (if_pos rfl).symm, congrArg Int32.toBitVec (if_pos rfl)⟩
  | bigEndian =>
    have slow64 : Reversed 8 val.toInt64.toBitVec (convert64bitSlow val .bigEndian).toBitVec := by
      unfold convert64bitSlow
      rw [if_neg nofun, Int64.toBitVec_ofBitVec]
      intro place inside
      rw [byte_ofBytes _ inside]
      match place, inside with
      | 0, _ | 1, _ | 2, _ | 3, _ | 4, _ | 5, _ | 6, _ | 7, _ => rfl
    refine ⟨congrArg Int16.ofBitVec ?_, ?_, ?_⟩
    · refine congrArg (ofBytes 2) (funext fun place => ?_)
      cases place with
      | zero => rfl
      | succ place => exact congrArg (byte _) (by omega)
    · exact Int64.toBitVec_inj.mp (slow64.symm.unique (reversed_convert64bit val).symm)
    · show Reversed 4 val.toInt32.toBitVec (convert32bitSlow val .bigEndian).toBitVec
      unfold convert32bitSlow
      rw [if_neg nofun, Int32.toBitVec_ofBitVec]
      intro place inside
      rw [byte_ofBytes _ inside]
      match place, inside with
      | 0, _ | 1, _ | 2, _ | 3, _ => rfl

/-! ### Narrowing -/

/-- What is left of a word on the way through a `short`. -/
def extended {width : Nat} (val : BitVec width) : BitVec width := (val.setWidth 16).signExtend width

theorem extended_eq_iff {width : Nat} (wider : 16 ≤ width) (val : BitVec width) :
    extended val = val ↔ Narrow 16 val :=
  signExtend_setWidth_eq_iff (by decide) wider val

theorem extended_extended {width : Nat} (wider : 16 ≤ width) (val : BitVec width) :
    extended (extended val) = extended val :=
  congrArg (BitVec.signExtend width) (setWidth_signExtend wider _)

theorem toInt16_of_int (val : BitVec 32) : (Int32.ofBitVec val).toInt16 = .ofBitVec (val.setWidth 16) :=
  congrArg Int16.ofBitVec (BitVec.signExtend_eq_setWidth_of_le val (by decide))

theorem toInt16_of_longLong (val : BitVec 64) :
    (Int64.ofBitVec val).toInt16 = .ofBitVec (val.setWidth 16) :=
  congrArg Int16.ofBitVec (BitVec.signExtend_eq_setWidth_of_le val (by decide))

/-- The reverse of a word that comes of a `short` ends in bits that are all the sign. -/
theorem getLsbD_of_reversed {narrow : BitVec 16} {reverse : BitVec 64}
    (reversed : Reversed 8 (narrow.signExtend 64) reverse) {index : Nat} (inside : index < 16) :
    reverse.getLsbD index = narrow.msb := by
  rw [← getLsbD_byte, reversed (index / 8) (by omega), byte, BitVec.getLsbD_extractLsb',
    BitVec.getLsbD_signExtend, if_neg (by omega)]
  simp only [show index % 8 < 8 by omega, show 8 * (8 - 1 - index / 8) + index % 8 < 64 by omega,
    decide_true, Bool.true_and]

/-- A second conversion sees nothing but the sign. -/
theorem extended_of_reversed {narrow : BitVec 16} {reverse : BitVec 64}
    (reversed : Reversed 8 (narrow.signExtend 64) reverse) :
    extended reverse = if narrow.msb then -1 else 0 := by
  have bits : ∀ index < 64, (extended reverse).getLsbD index = narrow.msb := by
    intro index inside
    unfold extended
    rw [BitVec.getLsbD_signExtend, BitVec.msb_eq_getLsbD_last, BitVec.getLsbD_setWidth,
      BitVec.getLsbD_setWidth, getLsbD_of_reversed reversed (by decide : 16 - 1 < 16)]
    split
    case isTrue low =>
      rw [getLsbD_of_reversed reversed low]
      simp only [inside, low, decide_true, Bool.true_and]
    case isFalse => simp only [inside, decide_true, Bool.true_and, Nat.reduceSub, Nat.reduceLT]
  refine BitVec.eq_of_getLsbD_eq fun index inside => ?_
  rw [bits index inside]
  cases narrow.msb with
  | true => exact (BitVec.getLsbD_allOnes.trans (decide_eq_true inside)).symm
  | false => exact BitVec.getLsbD_zero.symm

/-! ### Conversions -/

/-- The value is converted right, whatever the instruction leaves. -/
def Converts (order : ByteOrder) (type : Integral) (val : BitVec (8 * type.size)) : Prop :=
  ∀ bswap16, Converted order type.size val (convertByteOrder bswap16 order type val)

/-- A second conversion gives the value back, whatever the instruction leaves. -/
def Restores (order : ByteOrder) (type : Integral) (val : BitVec (8 * type.size)) : Prop :=
  ∀ bswap16, convertByteOrder bswap16 order type (convertByteOrder bswap16 order type val) = val

/-- A conversion of 32 bits. -/
def bits32 (bswap16 : BitVec 16 → BitVec 16) (order : ByteOrder) (val : BitVec 32) : BitVec 32 :=
  (convert32bit bswap16 (.ofBitVec (val.setWidth 16)) order).toBitVec

/-- A conversion of 64 bits. -/
def bits64 (order : ByteOrder) (val : BitVec 64) : BitVec 64 :=
  (convert64bit (.ofBitVec (val.setWidth 16)) order).toBitVec

theorem convert_int (bswap16 : BitVec 16 → BitVec 16) (order : ByteOrder) :
    convertByteOrder bswap16 order .int = bits32 bswap16 order := by
  funext val
  exact congrArg (fun val => (convert32bit bswap16 val order).toBitVec) (toInt16_of_int val)

theorem convert_unsignedInt (bswap16 : BitVec 16 → BitVec 16) (order : ByteOrder) :
    convertByteOrder bswap16 order .unsignedInt = bits32 bswap16 order :=
  convert_int bswap16 order

theorem convert_longLong (bswap16 : BitVec 16 → BitVec 16) (order : ByteOrder) :
    convertByteOrder bswap16 order .longLong = bits64 order := by
  funext val
  exact congrArg (fun val => (convert64bit val order).toBitVec) (toInt16_of_longLong val)

theorem convert_unsignedLongLong (bswap16 : BitVec 16 → BitVec 16) (order : ByteOrder) :
    convertByteOrder bswap16 order .unsignedLongLong = bits64 order :=
  convert_longLong bswap16 order

/-- Two bytes are converted right, and back again. -/
theorem convert16bit_right (order : ByteOrder) (val : BitVec 16) :
    Converted order 2 val (convert16bit (.ofBitVec val) order).toBitVec ∧
      (convert16bit (convert16bit (.ofBitVec val) order) order).toBitVec = val := by
  cases order with
  | littleEndian => exact ⟨rfl, rfl⟩
  | bigEndian =>
    exact ⟨reversed_xchg val, (reversed_xchg (xchg val)).symm.unique (reversed_xchg val)⟩

theorem bits32_littleEndian (bswap16 : BitVec 16 → BitVec 16) (val : BitVec 32) :
    bits32 bswap16 .littleEndian val = extended val := rfl

theorem bits64_littleEndian (val : BitVec 64) : bits64 .littleEndian val = extended val := rfl

/-- Four bytes in the other order: nothing is right for both of two results of the instruction. -/
theorem not_bits32_bigEndian (val : BitVec 32) :
    (¬ ∀ bswap16, Reversed 4 val (bits32 bswap16 .bigEndian val)) ∧
      ¬ ∀ bswap16, bits32 bswap16 .bigEndian (bits32 bswap16 .bigEndian val) = val := by
  constructor
  · intro converts
    have zeros : Reversed 4 val 0 := converts fun _ => 0
    have ones : Reversed 4 val (-1) := converts fun _ => -1
    exact absurd (zeros.symm.unique ones.symm) (by decide)
  · intro restores
    have zeros : 0 = val := restores fun _ => 0
    have ones : -1 = val := restores fun _ => -1
    exact absurd (zeros.trans ones.symm) (by decide)

theorem reversed_bits64 (val : BitVec 64) : Reversed 8 (extended val) (bits64 .bigEndian val) :=
  reversed_convert64bit _

/-- Eight bytes in the other order: the values of a `short`. -/
theorem reversed_bits64_iff (val : BitVec 64) :
    Reversed 8 val (bits64 .bigEndian val) ↔ Narrow 16 val := by
  rw [← extended_eq_iff (by decide)]
  constructor
  · exact (reversed_bits64 val).unique
  · intro same
    have reversed := reversed_bits64 val
    rwa [same] at reversed

/-- Eight bytes in the other order and back: the values that consist of their sign. -/
theorem bits64_bits64_iff (val : BitVec 64) :
    bits64 .bigEndian (bits64 .bigEndian val) = val ↔ val = 0 ∨ val = -1 := by
  have zeros : Reversed 8 (0 : BitVec 64) 0 := by unfold Reversed; decide
  have ones : Reversed 8 (-1 : BitVec 64) (-1) := by unfold Reversed; decide
  constructor
  · intro same
    have again := reversed_bits64 (bits64 .bigEndian val)
    rw [same, extended_of_reversed (reversed_bits64 val)] at again
    split at again
    · exact Or.inr (again.symm.unique ones.symm)
    · exact Or.inl (again.symm.unique zeros.symm)
  · rintro (rfl | rfl) <;> decide

/-- A conversion of 32 bits and what it comes to, in both orders. -/
theorem bits32_iff (order : ByteOrder) (val : BitVec 32) :
    ((∀ bswap16, Converted order 4 val (bits32 bswap16 order val)) ↔
      order = .littleEndian ∧ Narrow 16 val) ∧
    ((∀ bswap16, bits32 bswap16 order (bits32 bswap16 order val) = val) ↔
      order = .littleEndian ∧ Narrow 16 val) := by
  rw [← extended_eq_iff (by decide) val]
  cases order with
  | littleEndian =>
    have twice : extended (extended val) = extended val := extended_extended (by decide) val
    simp only [Converted, bits32_littleEndian, twice, forall_const, true_and, and_self]
  | bigEndian =>
    obtain ⟨notConverts, notRestores⟩ := not_bits32_bigEndian val
    exact ⟨iff_of_false notConverts nofun, iff_of_false notRestores nofun⟩

/-- A conversion of 64 bits and what it comes to. -/
theorem bits64_iff (order : ByteOrder) (val : BitVec 64) :
    (Converted order 8 val (bits64 order val) ↔ Narrow 16 val) ∧
    (bits64 order (bits64 order val) = val ↔
      if order = .littleEndian then Narrow 16 val else val = 0 ∨ val = -1) := by
  cases order with
  | littleEndian =>
    have twice : extended (extended val) = extended val := extended_extended (by decide) val
    rw [if_pos rfl, ← extended_eq_iff (by decide) val, bits64_littleEndian, bits64_littleEndian,
      twice]
    exact ⟨Iff.rfl, Iff.rfl⟩
  | bigEndian => exact ⟨reversed_bits64_iff val, bits64_bits64_iff val⟩

/-- A conversion is right, and undone by another one, for exactly these values. -/
theorem convertByteOrder_iff (order : ByteOrder) (type : Integral) (val : BitVec (8 * type.size)) :
    (Converts order type val ↔ Convertible order type val) ∧
      (Restores order type val ↔ Restorable order type val) := by
  unfold Converts Restores
  cases type with
  | short =>
    obtain ⟨converts, restores⟩ := convert16bit_right order val
    exact ⟨iff_of_true (fun _ => converts) trivial, iff_of_true (fun _ => restores) trivial⟩
  | unsignedShort =>
    obtain ⟨converts, restores⟩ := convert16bit_right order val
    exact ⟨iff_of_true (fun _ => converts) trivial, iff_of_true (fun _ => restores) trivial⟩
  | int =>
    simp only [convert_int]
    exact bits32_iff order val
  | unsignedInt =>
    simp only [convert_unsignedInt]
    exact bits32_iff order val
  | longLong =>
    simp only [convert_longLong, forall_const]
    exact bits64_iff order val
  | unsignedLongLong =>
    simp only [convert_unsignedLongLong, forall_const]
    exact bits64_iff order val

/-- The int 65536 is not even left unchanged. -/
theorem wide_int_is_not_converted :
    ¬ ∀ (order : ByteOrder) (type : Integral) (val : BitVec (8 * type.size)),
      Converts order type val ∧ Restores order type val := by
  intro claim
  have unchanged : bits32 id .littleEndian 65536 = 65536 := (claim .littleEndian .int 65536).1 id
  exact absurd unchanged (by decide)

end ByteOrderConverter

end ObLib
