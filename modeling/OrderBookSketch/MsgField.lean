/-
This file models `NSESession::fillMsgField`, and proves when it fills a field with its
data.

The loop moves the cursor in the buffer but not the one in the data, so every byte of
the field becomes the first byte of the data. The field is right exactly when the data
repeats its first byte; the rest of the packet is left alone in any case, and disjoint
fields may be filled in either order.
-/

import OrderBookSketch.Library.Buffer
import Mathlib.Data.List.Pairwise

namespace Oms

open Buffers

/-- Between two turns of the loop: the buffer, and the cursors in the data and in the buffer. -/
structure FieldCopy where
  buf : Nat → UInt8
  p : Nat
  pos : Nat

namespace FieldCopy

/-- `buf[pos] = *p; ++pos;`. -/
def turn (data : Nat → UInt8) (copy : FieldCopy) : FieldCopy :=
  { copy with
    buf := Function.update copy.buf copy.pos (data copy.p)
    pos := copy.pos + 1 }

/-- `for(int i = 0; i < bytes ; ++i)`. -/
def turns (data : Nat → UInt8) : Nat → FieldCopy → FieldCopy
  | 0, copy => copy
  | bytes + 1, copy => turns data bytes (copy.turn data)

/-- The loop writes the byte under a cursor that does not move. -/
theorem buf_turns (data : Nat → UInt8) (bytes : Nat) (copy : FieldCopy) :
    (turns data bytes copy).buf = write copy.buf copy.pos bytes fun _ => data copy.p := by
  induction bytes generalizing copy with
  | zero => exact write_zero.symm
  | succ bytes inductionHypothesis =>
    rw [turns, inductionHypothesis, ← write_update_first]
    rfl

end FieldCopy

/-- A field that fits lies in the buffer from its offset on, and its data from the pointer on. -/
def fillMsgField (buf : Nat → UInt8) (offset bytes : Nat) (data : Nat → UInt8) : Nat → UInt8 :=
  (FieldCopy.turns data bytes { buf := buf, p := 0, pos := offset }).buf

/-- The field holds the data, and every other byte is as before. -/
structure Filled (before after : Nat → UInt8) (offset bytes : Nat) (data : Nat → UInt8) : Prop where
  field : ∀ i < bytes, after (offset + i) = data i
  others : ∀ index, ¬ (offset ≤ index ∧ index < offset + bytes) → after index = before index

/-- A field is filled by writing the block, and by nothing else. -/
theorem filled_iff {before after data : Nat → UInt8} {offset bytes : Nat} :
    Filled before after offset bytes data ↔ after = write before offset bytes data := by
  constructor
  · intro filled
    funext index
    by_cases inside : offset ≤ index ∧ index < offset + bytes
    · obtain ⟨i, rfl⟩ := Nat.exists_eq_add_of_le inside.1
      have small := Nat.lt_of_add_lt_add_left inside.2
      rw [filled.field i small, write_inside small]
    · rw [filled.others index inside, write_outside inside]
  · rintro rfl
    exact ⟨fun i => write_inside, fun index => write_outside⟩

theorem fillMsgField_eq (buf : Nat → UInt8) (offset bytes : Nat) (data : Nat → UInt8) :
    fillMsgField buf offset bytes data = write buf offset bytes fun _ => data 0 :=
  FieldCopy.buf_turns data bytes _

/-! ### Packets -/

/-- The arguments of a call for a packet. -/
structure MsgField where
  offset : Nat
  bytes : Nat
  data : Nat → UInt8

namespace MsgField

/-- The fields share no byte. -/
def Apart (first second : MsgField) : Prop :=
  first.offset + first.bytes ≤ second.offset ∨ second.offset + second.bytes ≤ first.offset

def fill (buf : Nat → UInt8) (field : MsgField) : Nat → UInt8 :=
  fillMsgField buf field.offset field.bytes field.data

/-- The packet that filling the fields makes, one after another. -/
def fillAll (buf : Nat → UInt8) (fields : List MsgField) : Nat → UInt8 := fields.foldl fill buf

instance : Std.Symm Apart where
  symm := fun _ _ => Or.symm

theorem fill_comm (buf : Nat → UInt8) {first second : MsgField} (apart : Apart first second) :
    fill (fill buf first) second = fill (fill buf second) first := by
  unfold fill
  simp only [fillMsgField_eq]
  exact write_comm apart

/-- Fields that share no byte make the same packet in any order. -/
theorem fillAll_perm (buf : Nat → UInt8) {fields others : List MsgField}
    (apart : fields.Pairwise Apart) (order : fields.Perm others) :
    fillAll buf fields = fillAll buf others := by
  refine order.foldl_eq' (fun first inFirst second inSecond buf => ?_) buf
  by_cases same : first = second
  · rw [same]
  · exact fill_comm buf (apart.forall inFirst inSecond same)

end MsgField

open MsgField

/-- A field is filled with its data exactly when the data repeats its first byte; the other bytes are
left alone in any case, and disjoint fields make the same packet in any order. -/
theorem fillMsgField_filled_iff (buf : Nat → UInt8) :
    (∀ (offset bytes : Nat) (data : Nat → UInt8),
      (Filled buf (fillMsgField buf offset bytes data) offset bytes data ↔
        ∀ i < bytes, data i = data 0) ∧
      ∀ index, ¬ (offset ≤ index ∧ index < offset + bytes) →
        fillMsgField buf offset bytes data index = buf index) ∧
    ∀ fields others : List MsgField, fields.Pairwise Apart → fields.Perm others →
      fillAll buf fields = fillAll buf others := by
  refine ⟨fun offset bytes data => ⟨?_, fun index outside => ?_⟩, fun fields others => fillAll_perm buf⟩
  · rw [filled_iff, fillMsgField_eq, write_eq_iff]
    exact forall₂_congr fun i _ => eq_comm
  · rw [fillMsgField_eq, write_outside outside]

/-- The two bytes of a length of ten are not what is stamped. -/
theorem second_byte_is_not_copied :
    ¬ ∀ (buf : Nat → UInt8) (offset bytes : Nat) (data : Nat → UInt8),
      Filled buf (fillMsgField buf offset bytes data) offset bytes data := by
  intro claim
  have filled := claim (fun _ => 0) 0 2 fun i => if i = 0 then 10 else 0
  exact absurd (filled.field 1 (by decide)) (by decide)

end Oms
