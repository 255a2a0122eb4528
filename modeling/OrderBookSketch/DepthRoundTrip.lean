/-
This file proves that erasing the level that was just inserted undoes the insertion.

`insert_level_before` spills the last level, shifts from the last slot backwards and
stamps only the levels with a price; `erase_level` shifts forwards over the slots with a
price, and fetches the first excess level if the last slot had one. The two meet again
because the spilled level comes first among the excess levels, and because an empty slot
that the second shift passes over is a slot that was empty before the first.

What comes back is what is seen of the levels. Their change stamps do not, since both
operations take a new one.
-/

import OrderBookSketch.DepthSlots
import OrderBookSketch.Library.OrderedMapPosition

namespace ObLib

open Containers

namespace DepthSide

variable {isBid : Bool} {size : Nat} {side : DepthSide isBid} {valid level : Nat}

/-! ### Packed slots -/

/-- The first `valid` slots have levels, the best first, the others are empty, and only a full
half has excess levels, all of them worse than the last slot. -/
structure Packed (size : Nat) (side : DepthSide isBid) (valid : Nat) : Prop where
  fits : valid ≤ size
  occupied : ∀ idx < valid, (side.levels idx).price ≠ invalidLevelPrice
  vacant : ∀ idx < size, valid ≤ idx → (side.levels idx).price = invalidLevelPrice
  ordered : ∀ other < valid, ∀ idx < other,
    better isBid (side.levels idx).price (side.levels other).price
  visible : ∀ idx < size, (side.levels idx).isExcess = false
  full : side.excess.entries ≠ [] → valid = size
  worse : ∀ entry ∈ side.excess.entries, better isBid (side.levels (size - 1)).price entry.1

theorem Packed.price_eq_iff (packed : Packed size side valid) {idx : Nat} (bound : idx < size) :
    (side.levels idx).price = invalidLevelPrice ↔ valid ≤ idx := by
  constructor
  · intro empty
    by_contra front
    exact packed.occupied idx (not_le.mp front) empty
  · exact packed.vacant idx bound

theorem Packed.excess_eq_nil (packed : Packed size side valid) (room : valid < size) :
    side.excess.entries = [] := by
  by_contra some
  exact room.ne (packed.full some)

/-! ### What the insertion shows -/

/-- The price is in its slot, the levels before it are as they were, those from there on are one
slot further, and the last level, if there is one, is the first of the excess levels. -/
structure Inserted (size : Nat) (side : DepthSide isBid) (level : Nat) (price : Price)
    (next : DepthSide isBid) : Prop where
  placed : (next.levels level).price = price
  kept : ∀ idx < level, (next.levels idx).content = (side.levels idx).content
  moved : ∀ idx, level ≤ idx → idx + 1 < size →
    (next.levels (idx + 1)).content = (side.levels idx).content
  spilled : if (side.levels (size - 1)).price = invalidLevelPrice then next.excess = side.excess
    else ∃ spilled, spilled.content = (side.levels (size - 1)).content ∧
      next.excess.entries = ((side.levels (size - 1)).price, spilled) :: side.excess.entries

/-- A slot behind the inserted price gets the level of the slot before. -/
theorem levels_insertLevelBefore_succ {idx : Nat} (behind : level ≤ idx) (bound : idx + 1 < size)
    (lastChanged : ChangeId) (price : Price) :
    (side.insertLevelBefore size lastChanged level price).1.levels (idx + 1) =
      (side.levels (idx + 1)).moveDown (side.levels idx) (lastChanged + 1) := by
  rw [levels_insertLevelBefore (by omega), if_neg (by omega), if_pos ⟨by omega, bound⟩,
    Nat.add_sub_cancel]

theorem Packed.insertLevelBefore (packed : Packed size side valid) (bound : level < size)
    (lastChanged : ChangeId) (price : Price) :
    Inserted size side level price (side.insertLevelBefore size lastChanged level price).1 where
  placed := by
    rw [levels_insertLevelBefore bound, if_pos rfl]
    rfl
  kept := by
    intro idx front
    rw [levels_insertLevelBefore bound, if_neg front.ne, if_neg (by omega)]
  moved := by
    intro idx behind inside
    rw [levels_insertLevelBefore_succ behind inside, DepthLevel.content_moveDown]
  spilled := by
    rw [excess_insertLevelBefore]
    split_ifs with empty occupied
    · exact absurd empty occupied
    · rfl
    · exact ⟨_, DepthLevel.content_assign .., OrderedMap.entries_insert_front packed.worse _⟩

/-! ### The way back -/

/-- Every slot and the excess levels show what they did. -/
structure Restored (size : Nat) (side next : DepthSide isBid) : Prop where
  visible : ∀ idx < size, (next.levels idx).content = (side.levels idx).content
  excess : next.excess = side.excess

/-- The slots before the last one get their levels back. -/
theorem Packed.shifted_inserted (packed : Packed size side valid) (lastChanged change : ChangeId)
    (price : Price) {idx : Nat} (before : idx < size - 1) (bound : level < size) :
    ((side.insertLevelBefore size lastChanged level price).1.shifted level change idx).content =
      (side.levels idx).content := by
  have inserted := packed.insertLevelBefore bound lastChanged price
  unfold shifted
  split_ifs with moves
  · rw [DepthLevel.content_moveUp, inserted.moved idx moves.1 (by omega)]
  · rcases Nat.lt_or_ge idx level with front | behind
    · exact inserted.kept idx front
    · -- the slot is passed over, so the level that was in front of it is empty, and it was too
      obtain ⟨empty, other⟩ := not_or.mp fun passes => moves ⟨behind, passes⟩
      obtain ⟨front, rfl⟩ : ∃ front, idx = front + 1 := ⟨idx - 1, by omega⟩
      have emptyHere := not_not.mp empty
      have emptyFront := emptyHere
      rw [levels_insertLevelBefore_succ (by omega) (by omega),
        DepthLevel.price_moveDown] at emptyFront
      have vacantFrom := (packed.price_eq_iff (by omega)).mp emptyFront
      rw [DepthLevel.content_eq_none_iff.mpr emptyHere,
        DepthLevel.content_eq_none_iff.mpr (packed.vacant _ (by omega) (by omega))]

/-- The last slot gets the level it spilled, or is empty again; the excess levels are as they
were. -/
theorem Packed.refilled_inserted (packed : Packed size side valid) (bound : level < size)
    (lastChanged change : ChangeId) (price : Price) {next : DepthSide isBid}
    (refilled : Refilled size (side.insertLevelBefore size lastChanged level price).1 level
      change next) :
    (next.levels (size - 1)).content = (side.levels (size - 1)).content ∧
      next.excess = side.excess := by
  have last : size - 1 < size := by omega
  have spilled := (packed.insertLevelBefore bound lastChanged price).spilled
  by_cases empty : (side.levels (size - 1)).price = invalidLevelPrice
  · rw [if_pos empty] at spilled
    have vacantFrom := (packed.price_eq_iff last).mp empty
    have nothing := packed.excess_eq_nil (vacantFrom.trans_lt last)
    rw [DepthLevel.content_eq_none_iff.mpr empty]
    rcases refilled.cases with ⟨_, _, first, -, -⟩ | ⟨-, slot, excess⟩ | ⟨other, vacant, slot, excess⟩
    · rw [spilled, nothing] at first
      cases first
    · rw [slot, excess]
      exact ⟨DepthLevel.content_eq_none_iff.mpr rfl, spilled⟩
    · rw [slot, excess]
      exact ⟨DepthLevel.content_eq_none_iff.mpr vacant, spilled⟩
  · rw [if_neg empty] at spilled
    obtain ⟨spill, shown, entries⟩ := spilled
    have full : size ≤ valid := by
      have front := mt (packed.price_eq_iff last).mpr empty
      omega
    have head := congrArg List.head? entries
    rw [List.head?_cons] at head
    rcases refilled.cases with ⟨_, _, first, slot, excess⟩ | ⟨first, -, -⟩ | ⟨other, vacant, -, -⟩
    · obtain ⟨rfl, rfl⟩ := Prod.mk.inj (Option.some.inj (first.symm.trans head))
      refine ⟨?_, excess.trans (OrderedMap.ext_entries ?_)⟩
      · rw [slot, DepthLevel.content_moveUp, shown]
      · rw [OrderedMap.entries_erase_head head, entries, List.tail_cons]
    · rw [first] at head
      cases head
    · -- a full half has a level in front of the last slot too, and that one is in it now
      obtain ⟨front, same⟩ : ∃ front, size - 1 = front + 1 := ⟨size - 2, by omega⟩
      rw [same, levels_insertLevelBefore_succ (by omega) (by omega),
        DepthLevel.price_moveDown] at vacant
      exact absurd vacant (packed.occupied front (by omega))

/-- Inserting a level at any slot shifts the levels from there on and spills the last one, and
erasing it again puts everything back. The price need not belong there, and the slot may even be
an empty one behind other empty slots. -/
theorem insertLevelBefore_eraseLevel (packed : Packed size side valid) (lastChanged : ChangeId)
    (bound : level < size) (price : Price) :
    Inserted size side level price (side.insertLevelBefore size lastChanged level price).1 ∧
      ∃ next change,
        (side.insertLevelBefore size lastChanged level price).1.eraseLevel size
          (side.insertLevelBefore size lastChanged level price).2 (.slot level) =
            some (next, change) ∧
        Restored size side next := by
  have visible : ((side.insertLevelBefore size lastChanged level price).1.levels level).isExcess =
      false := by
    rw [levels_insertLevelBefore bound, if_pos rfl]
    rfl
  obtain ⟨next, erased, slots, refilled⟩ := eraseLevel_slot
    (side.insertLevelBefore size lastChanged level price).2 bound visible
  have lastSlot := packed.refilled_inserted bound _ _ _ refilled
  refine ⟨packed.insertLevelBefore bound lastChanged price, next, _, erased, fun idx inside => ?_,
    lastSlot.2⟩
  rcases Nat.lt_or_ge idx (size - 1) with before | atLast
  · rw [slots idx before]
    exact packed.shifted_inserted _ _ _ before bound
  · obtain rfl : idx = size - 1 := by omega
    exact lastSlot.1

/-- Three bids on three slots and a worse one. -/
def fourBids : DepthSide true where
  levels := fun idx =>
    if idx = 0 then { price := 105, totalQty := 10, ordersCount := 1 }
    else if idx = 1 then { price := 103, totalQty := 20, ordersCount := 2 }
    else if idx = 2 then { price := 101, totalQty := 30, ordersCount := 3 }
    else {}
  excess := .insert .empty 99 { price := 99, totalQty := 40, ordersCount := 4, isExcess := true }

theorem insertLevelBefore_eraseLevel_fourBids :
    Inserted 3 fourBids 1 104 (fourBids.insertLevelBefore 3 7 1 104).1 ∧
      ∃ next change,
        (fourBids.insertLevelBefore 3 7 1 104).1.eraseLevel 3
          (fourBids.insertLevelBefore 3 7 1 104).2 (.slot 1) = some (next, change) ∧
        Restored 3 fourBids next :=
  have packed : Packed 3 fourBids 3 :=
    { fits := by decide
      occupied := by decide
      vacant := by decide
      ordered := by decide
      visible := by decide
      full := by decide
      worse := by decide }
  insertLevelBefore_eraseLevel packed 7 (by decide) 104

end DepthSide

end ObLib
