/-
This file gives ring buffers their queue.

A ring has a number of slots, each empty or with a value, and is read at an index. The
slots from there on, around the end, hold the values of the queue in their order, and
the other slots are empty; so a full ring and an empty one are told apart by the slot
that is read. A place of the ring is the read index with an offset of at most one
round.
-/

import Mathlib.Tactic.SplitIfs

namespace Rings

/-- The index that is an offset behind another, around the end. -/
def place (size read offset : Nat) : Nat :=
  if read + offset < size then read + offset else read + offset - size

variable {size read offset other : Nat}

theorem place_lt (inside : read < size) (bound : offset ≤ size) : place size read offset < size := by
  unfold place
  split_ifs <;> omega

theorem place_zero (inside : read < size) : place size read 0 = read := if_pos inside

/-- A whole round leads back. -/
theorem place_size (size read : Nat) : place size read size = read := by
  unfold place
  split_ifs <;> omega

theorem place_ne (bound : offset < size) (boundOther : other < size) (apart : offset ≠ other) :
    place size read offset ≠ place size read other := by
  unfold place
  split_ifs <;> omega

/-- From the next index on, offsets are one less. -/
theorem place_place_one (inside : read < size) (bound : offset + 1 ≤ size) :
    place size (place size read 1) offset = place size read (offset + 1) := by
  unfold place
  split_ifs <;> omega

/-- The next index behind an offset. -/
theorem place_one_place (inside : read < size) (bound : offset < size) :
    place size (place size read offset) 1 = place size read (offset + 1) := by
  unfold place
  split_ifs <;> omega

variable {Value : Type}

/-- From the read index on, the slots hold the values, and then none. -/
structure Holds (slots : List (Option Value)) (read : Nat) (items : List Value) : Prop where
  fits : items.length ≤ slots.length
  inside : read < slots.length
  content : ∀ offset < slots.length, slots[place slots.length read offset]? = some items[offset]?

variable {slots : List (Option Value)} {items : List Value}

theorem holds_nil (some : 0 < size) : Holds (List.replicate size none) 0 ([] : List Value) where
  fits := Nat.zero_le _
  inside := by rwa [List.length_replicate]
  content := by
    intro offset bound
    rw [List.length_replicate] at bound ⊢
    rw [List.getElem?_replicate_of_lt (place_lt some (Nat.le_of_lt bound)), List.getElem?_nil]

theorem Holds.slot_read (holds : Holds slots read items) : slots[read]? = some items.head? := by
  have first := holds.content 0 (Nat.zero_lt_of_lt holds.inside)
  rwa [place_zero holds.inside, ← List.head?_eq_getElem?] at first

/-- The slot behind the values is empty unless the ring is full, when it is the first of them. -/
theorem Holds.slot_write (holds : Holds slots read items) :
    slots[place slots.length read items.length]? =
      some (if items.length < slots.length then none else items.head?) := by
  split_ifs with room
  · rw [holds.content _ room, List.getElem?_eq_none (Nat.le_refl _)]
  · have full : items.length = slots.length := Nat.le_antisymm holds.fits (Nat.not_lt.mp room)
    rw [full, place_size, holds.slot_read]

/-- A value put behind the others. -/
theorem Holds.push (holds : Holds slots read items) (room : items.length < slots.length)
    (value : Value) :
    Holds (slots.set (place slots.length read items.length) (some value)) read (items ++ [value])
    where
  fits := by
    rw [List.length_append, List.length_set, List.length_singleton]
    exact room
  inside := by
    rw [List.length_set]
    exact holds.inside
  content := by
    intro offset bound
    rw [List.length_set] at bound ⊢
    by_cases last : offset = items.length
    · rw [last, List.getElem?_set_self (place_lt holds.inside holds.fits), List.getElem?_concat_length]
    · rw [List.getElem?_set_ne (place_ne room bound (Ne.symm last)), holds.content offset bound]
      rcases Nat.lt_or_gt_of_ne last with before | behind
      · rw [List.getElem?_append_left before]
      · rw [List.getElem?_eq_none (Nat.le_of_lt behind), List.getElem?_eq_none]
        rw [List.length_append, List.length_singleton]
        exact behind

/-- The first value taken out. -/
theorem Holds.pop {value : Value} (holds : Holds slots read (value :: items)) :
    Holds (slots.set read none) (place slots.length read 1) items where
  fits := by
    rw [List.length_set]
    exact Nat.le_of_succ_le holds.fits
  inside := by
    rw [List.length_set]
    exact place_lt holds.inside (Nat.succ_le_of_lt (Nat.zero_lt_of_lt holds.inside))
  content := by
    intro offset bound
    rw [List.length_set] at bound ⊢
    rw [place_place_one holds.inside bound]
    rcases Nat.lt_or_eq_of_le (Nat.succ_le_of_lt bound) with more | last
    · have apart : read ≠ place slots.length read (offset + 1) := fun same =>
        place_ne (Nat.zero_lt_of_lt bound) more (Nat.zero_ne_add_one offset)
          ((place_zero holds.inside).trans same)
      rw [List.getElem?_set_ne apart, holds.content _ more, List.getElem?_cons_succ]
    · rw [show offset + 1 = slots.length from last, place_size,
        List.getElem?_set_self holds.inside, List.getElem?_eq_none]
      have fits := holds.fits
      rw [List.length_cons] at fits
      omega

end Rings
