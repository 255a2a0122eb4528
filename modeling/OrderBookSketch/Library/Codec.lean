/-
This file gives values a fixed number of bytes, and streams of such values a reader.

A codec carries the proofs that every value takes its number of bytes and is read
back from them, so that codecs for the fields of a packed struct make a codec for the
struct. Words are little-endian. A read takes exactly its number of bytes off the
front of the stream, or none when there are too few. A reader that takes one message
off in every turn reads a whole stream of them.
-/

import OrderBookSketch.Library.Loop
import Mathlib.Data.Nat.Digits.Defs

namespace Codecs

open Loops

/-- A fixed number of bytes for every value, from which the value is read back. -/
structure Codec (Value : Type) where
  size : Nat
  encode : Value → List UInt8
  decode : List UInt8 → Value
  length_encode : ∀ value, (encode value).length = size
  decode_encode : ∀ value, decode (encode value) = value

variable {Value Other : Type}

/-! ### Words -/

/-- The lowest bytes of a number, the lowest first. -/
def littleEndian : Nat → Nat → List UInt8
  | 0, _ => []
  | size + 1, value => UInt8.ofNat value :: littleEndian size (value / 256)

theorem length_littleEndian (size value : Nat) : (littleEndian size value).length = size := by
  induction size generalizing value with
  | zero => rfl
  | succ size inductionHypothesis => rw [littleEndian, List.length_cons, inductionHypothesis]

theorem ofDigits_littleEndian (size value : Nat) :
    Nat.ofDigits 256 ((littleEndian size value).map UInt8.toNat) = value % 256 ^ size := by
  induction size generalizing value with
  | zero => rw [Nat.pow_zero, Nat.mod_one]; rfl
  | succ size inductionHypothesis =>
    have low : (UInt8.ofNat value).toNat = value % 256 := UInt8.toNat_ofNat'
    rw [littleEndian, List.map_cons, Nat.ofDigits_cons, inductionHypothesis, low, Nat.pow_succ',
      Nat.mod_mul]

/-- A word of so many bytes. -/
def word (size : Nat) : Codec (BitVec (8 * size)) where
  size := size
  encode := fun value => littleEndian size value.toNat
  decode := fun bytes => BitVec.ofNat (8 * size) (Nat.ofDigits 256 (bytes.map UInt8.toNat))
  length_encode := fun value => length_littleEndian size value.toNat
  decode_encode := by
    intro value
    have wide : 2 ^ (8 * size) = 256 ^ size := Nat.pow_mul 2 8 size
    have fits : value.toNat % 256 ^ size = value.toNat :=
      Nat.mod_eq_of_lt (by rw [← wide]; exact value.isLt)
    rw [ofDigits_littleEndian, fits, BitVec.ofNat_toNat, BitVec.setWidth_eq]

def byte : Codec UInt8 where
  size := 1
  encode := fun value => [value]
  decode := fun bytes => bytes.headD 0
  length_encode := fun _ => rfl
  decode_encode := fun _ => rfl

namespace Codec

/-! ### Structs -/

/-- Values that stand for others. -/
def map (codec : Codec Value) (out : Other → Value) (back : Value → Other)
    (inverse : ∀ other, back (out other) = other) : Codec Other where
  size := codec.size
  encode := fun other => codec.encode (out other)
  decode := fun bytes => back (codec.decode bytes)
  length_encode := fun other => codec.length_encode (out other)
  decode_encode := fun other => by rw [codec.decode_encode, inverse]

/-- One field behind another. -/
def prod (first : Codec Value) (second : Codec Other) : Codec (Value × Other) where
  size := first.size + second.size
  encode := fun value => first.encode value.1 ++ second.encode value.2
  decode := fun bytes => (first.decode (bytes.take first.size), second.decode (bytes.drop first.size))
  length_encode := fun value => by
    rw [List.length_append, first.length_encode, second.length_encode]
  decode_encode := fun value => by
    rw [List.take_left' (first.length_encode value.1), List.drop_left' (first.length_encode value.1),
      first.decode_encode, second.decode_encode]

end Codec

def int16 : Codec Int16 := (word 2).map Int16.toBitVec Int16.ofBitVec Int16.ofBitVec_toBitVec

def int32 : Codec Int32 := (word 4).map Int32.toBitVec Int32.ofBitVec Int32.ofBitVec_toBitVec

def int64 : Codec Int64 := (word 8).map Int64.toBitVec Int64.ofBitVec Int64.ofBitVec_toBitVec

namespace Codec

/-! ### Streams -/

/-- A value read off the front of a stream, and the rest of it. -/
def read (codec : Codec Value) (bytes : List UInt8) : Option (Value × List UInt8) :=
  if codec.size ≤ bytes.length then
    some (codec.decode (bytes.take codec.size), bytes.drop codec.size)
  else none

theorem read_encode_append (codec : Codec Value) (value : Value) (rest : List UInt8) :
    codec.read (codec.encode value ++ rest) = some (value, rest) := by
  have length := codec.length_encode value
  unfold read
  rw [if_pos (by rw [List.length_append, length]; exact Nat.le_add_right _ _),
    List.take_left' length, List.drop_left' length, codec.decode_encode]

theorem read_nil {codec : Codec Value} (some : 0 < codec.size) : codec.read [] = none :=
  if_neg (Nat.not_le.mpr some)

end Codec

/-- A reader that takes one message off in every turn, and leaves when nothing is left, reads every
message of a stream, in order. -/
theorem loop_stream {State Message : Type} {body : State → State ⊕ State}
    {encode : Message → List UInt8} (reader : List Message → List UInt8 → State)
    (leaves : ∀ received, body (reader received []) = .inr (reader received []))
    (messages : List Message)
    (takes : ∀ message ∈ messages, ∀ received rest,
      body (reader received (encode message ++ rest)) = .inl (reader (received ++ [message]) rest))
    (fuel : Nat) (enough : messages.length < fuel) (received : List Message) :
    loop body fuel (reader received (messages.flatMap encode)) =
      some (reader (received ++ messages) []) := by
  induction messages generalizing fuel received with
  | nil =>
    obtain ⟨fuel, rfl⟩ := Nat.exists_eq_succ_of_ne_zero (Nat.ne_of_gt enough)
    rw [List.append_nil]
    exact loop_inr fuel (leaves received)
  | cons message messages inductionHypothesis =>
    obtain ⟨fuel, rfl⟩ := Nat.exists_eq_succ_of_ne_zero (Nat.ne_of_gt (Nat.zero_lt_of_lt enough))
    obtain ⟨takesFirst, takesRest⟩ := List.forall_mem_cons.mp takes
    rw [List.flatMap_cons, loop_inl fuel (takesFirst received _),
      inductionHypothesis takesRest fuel (Nat.lt_of_succ_lt_succ enough), List.append_assoc,
      List.singleton_append]

end Codecs
