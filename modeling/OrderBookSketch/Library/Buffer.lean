/-
This file gives buffers, and the loops that fill a part of one, their meaning.

A buffer is what is stored from an address on, so that a store to any index has a
meaning and "every other byte is unchanged" includes the bytes around an array. A loop
stores one byte in each turn, upwards from the first or downwards from the last; both
come to writing the bytes of a block to a range of the buffer at once, which leaves the
rest alone.
-/

import Mathlib.Logic.Function.Basic

namespace Buffers

variable {Value : Type}

/-! ### Ranges -/

/-- The values of a block in place of those of the buffer, in a range of so many from an offset on. -/
def write (buf : Nat → Value) (offset bytes : Nat) (block : Nat → Value) : Nat → Value := fun index =>
  if offset ≤ index ∧ index < offset + bytes then block (index - offset) else buf index

variable {buf block other : Nat → Value} {offset bytes : Nat}

theorem write_inside {index : Nat} (inside : index < bytes) :
    write buf offset bytes block (offset + index) = block index := by
  unfold write
  rw [if_pos ⟨Nat.le_add_right _ _, Nat.add_lt_add_left inside _⟩, Nat.add_sub_cancel_left]

theorem write_outside {index : Nat} (outside : ¬ (offset ≤ index ∧ index < offset + bytes)) :
    write buf offset bytes block index = buf index :=
  if_neg outside

@[simp] theorem write_zero : write buf offset 0 block = buf :=
  funext fun _ => write_outside fun range => by omega

/-- A loop upwards: the first byte, and then the others. -/
theorem write_update_first :
    write (Function.update buf offset (block 0)) (offset + 1) bytes (fun index => block (index + 1)) =
      write buf offset (bytes + 1) block := by
  funext index
  unfold write
  rcases Nat.lt_trichotomy index offset with before | rfl | behind
  · rw [if_neg (by omega), if_neg (by omega), Function.update_of_ne (Nat.ne_of_lt before)]
  · rw [if_neg (by omega), if_pos (by omega), Function.update_self, Nat.sub_self]
  · by_cases inside : index < offset + (bytes + 1)
    · rw [if_pos (by omega), if_pos (by omega)]
      exact congrArg block (by omega : index - (offset + 1) + 1 = index - offset)
    · rw [if_neg (by omega), if_neg (by omega), Function.update_of_ne (Nat.ne_of_gt behind)]

/-- A loop downwards: the last byte, and then the others. -/
theorem write_update_last :
    write (Function.update buf (offset + bytes) (block bytes)) offset bytes block =
      write buf offset (bytes + 1) block := by
  funext index
  unfold write
  rcases Nat.lt_trichotomy index (offset + bytes) with before | rfl | behind
  · by_cases inside : offset ≤ index
    · rw [if_pos ⟨inside, before⟩, if_pos (by omega)]
    · rw [if_neg (by omega), if_neg (by omega), Function.update_of_ne (Nat.ne_of_lt before)]
  · rw [if_neg (by omega), if_pos (by omega), Function.update_self, Nat.add_sub_cancel_left]
  · rw [if_neg (by omega), if_neg (by omega), Function.update_of_ne (Nat.ne_of_gt behind)]

theorem write_congr (same : ∀ index < bytes, block index = other index) :
    write buf offset bytes block = write buf offset bytes other := by
  funext index
  unfold write
  split
  case isTrue inside => exact same _ (by omega)
  case isFalse => rfl

/-- Blocks that are written to the same range leave the same buffer only if they are the same there. -/
theorem write_eq_iff : write buf offset bytes block = write buf offset bytes other ↔
    ∀ index < bytes, block index = other index := by
  refine ⟨fun same index inside => ?_, write_congr⟩
  have here := congrFun same (offset + index)
  rwa [write_inside inside, write_inside inside] at here

/-- Writes to ranges that share no index are in either order. -/
theorem write_comm {first second : Nat} {width : Nat}
    (apart : first + bytes ≤ second ∨ second + width ≤ first) :
    write (write buf first bytes block) second width other =
      write (write buf second width other) first bytes block := by
  funext index
  unfold write
  by_cases inFirst : first ≤ index ∧ index < first + bytes
  · rw [if_neg (by omega), if_pos inFirst, if_pos inFirst]
  · by_cases inSecond : second ≤ index ∧ index < second + width
    · rw [if_pos inSecond, if_neg inFirst, if_pos inSecond]
    · rw [if_neg inSecond, if_neg inFirst, if_neg inFirst, if_neg inSecond]

end Buffers
