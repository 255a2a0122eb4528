/-
This file says what the operations of a depth do to the slots of a side: where the
search stops, what each slot holds after the levels are shifted, and that no operation
leaves a gap between the levels or mistakes a visible level for an excess level.
-/

import OrderBookSketch.Depth
import OrderBookSketch.OrderBookType2

namespace ObLib

open Containers

/-! ### What a level shows -/

namespace DepthLevel

/-- What is seen of a level: nothing of an empty slot, and else the price, the total quantity and
the number of the orders. -/
def content (level : DepthLevel) : Option Level :=
  if level.price = invalidLevelPrice then none
  else some { price := level.price, qty := level.totalQty, orderCount := level.ordersCount }

theorem content_eq_none_iff {level : DepthLevel} :
    level.content = none ↔ level.price = invalidLevelPrice := by
  simp [content]

@[simp] theorem content_stamp (level : DepthLevel) (change : ChangeId) :
    (level.stamp change).content = level.content := rfl

@[simp] theorem content_assign (level rhs : DepthLevel) : (level.assign rhs).content = rhs.content :=
  rfl

@[simp] theorem content_moveDown (slot level : DepthLevel) (change : ChangeId) :
    (slot.moveDown level change).content = level.content := by
  unfold moveDown
  split_ifs <;> rfl

@[simp] theorem content_moveUp (slot level : DepthLevel) (change : ChangeId) :
    (slot.moveUp level change).content = level.content := rfl

@[simp] theorem price_moveDown (slot level : DepthLevel) (change : ChangeId) :
    (slot.moveDown level change).price = level.price := by
  unfold moveDown
  split_ifs <;> rfl

@[simp] theorem ordersCount_moveDown (slot level : DepthLevel) (change : ChangeId) :
    (slot.moveDown level change).ordersCount = level.ordersCount := by
  unfold moveDown
  split_ifs <;> rfl

@[simp] theorem isExcess_moveDown (slot level : DepthLevel) (change : ChangeId) :
    (slot.moveDown level change).isExcess = slot.isExcess := by
  unfold moveDown
  split_ifs <;> rfl

end DepthLevel

namespace DepthSide

variable {isBid : Bool}

/-! ### Shifting levels -/

theorem shiftDown_apply (level : Nat) (change : ChangeId) (turns : Nat) (levels : Nat → DepthLevel)
    (idx : Nat) :
    shiftDown level change turns levels idx =
      if level < idx ∧ idx ≤ level + turns then (levels idx).moveDown (levels (idx - 1)) change
      else levels idx := by
  induction turns generalizing levels with
  | zero =>
    rw [shiftDown, if_neg]
    omega
  | succ turns inductionHypothesis =>
    rw [shiftDown, inductionHypothesis]
    -- the turns left write below the slot of this turn and read below it
    rcases Nat.lt_trichotomy idx (level + turns + 1) with below | rfl | above
    · have here : (level < idx ∧ idx ≤ level + turns) ↔ level < idx ∧ idx ≤ level + (turns + 1) := by
        omega
      rw [Function.update_of_ne below.ne, Function.update_of_ne (by omega)]
      simp only [here]
    · rw [if_neg (by omega), if_pos (by omega), Function.update_self]
      rfl
    · rw [if_neg (by omega), if_neg (by omega), Function.update_of_ne above.ne']

theorem shiftUp_apply (level : Nat) (change : ChangeId) (turns curr : Nat)
    (levels : Nat → DepthLevel) (idx : Nat) :
    shiftUp level change turns curr levels idx =
      if (curr ≤ idx ∧ idx < curr + turns) ∧
          ((levels idx).price ≠ invalidLevelPrice ∨ idx = level) then
        (levels idx).moveUp (levels (idx + 1)) change
      else levels idx := by
  induction turns generalizing curr levels with
  | zero =>
    rw [shiftUp, if_neg]
    omega
  | succ turns inductionHypothesis =>
    rw [shiftUp, inductionHypothesis]
    -- the turns left neither write nor read the slot of this turn
    rcases Nat.lt_trichotomy idx curr with before | rfl | behind
    · have outside : ¬ (curr + 1 ≤ idx ∧ idx < curr + 1 + turns) := by omega
      have outsideHere : ¬ (curr ≤ idx ∧ idx < curr + (turns + 1)) := by omega
      simp only [outside, outsideHere, false_and, if_false]
      split_ifs
      · exact Function.update_of_ne before.ne ..
      · rfl
    · rw [if_neg (by omega)]
      have here : (idx ≤ idx ∧ idx < idx + (turns + 1)) := by omega
      simp only [here, true_and]
      split_ifs
      · exact Function.update_self ..
      · rfl
    · have kept (other : Nat) (different : other ≠ curr) :
          (if (levels curr).price ≠ invalidLevelPrice ∨ curr = level then
            Function.update levels curr ((levels curr).moveUp (levels (curr + 1)) change)
          else levels) other = levels other := by
        split_ifs
        · exact Function.update_of_ne different ..
        · rfl
      have range : (curr + 1 ≤ idx ∧ idx < curr + 1 + turns) ↔
          curr ≤ idx ∧ idx < curr + (turns + 1) := by omega
      simp only [kept idx behind.ne', kept (idx + 1) (by omega), range]

/-! ### The search -/

/-- The search passes over the level: it has another price and, if a level may be created, is not
empty and not worse than the price. -/
def PassedOver (isBid : Bool) (price : Price) (shouldCreate : Bool) (level : DepthLevel) : Prop :=
  level.price ≠ price ∧
    (shouldCreate → level.price ≠ invalidLevelPrice ∧ ¬ better isBid price level.price)

/-- The search passes over all the slots from one up to another. -/
def PassedFrom (isBid : Bool) (levels : Nat → DepthLevel) (price : Price) (shouldCreate : Bool)
    (first last : Nat) : Prop :=
  ∀ idx, first ≤ idx → idx < last → PassedOver isBid price shouldCreate (levels idx)

/-- Where the search may stop from one slot on and before another. -/
def StopOk (isBid : Bool) (levels : Nat → DepthLevel) (price : Price) (shouldCreate : Bool)
    (first last : Nat) : Stop → Prop
  | .found idx => idx < last ∧ (levels idx).price = price ∧
      PassedFrom isBid levels price shouldCreate first idx
  | .vacant idx => idx < last ∧ shouldCreate ∧ (levels idx).price = invalidLevelPrice ∧
      PassedFrom isBid levels price shouldCreate first idx
  | .before idx => idx < last ∧ shouldCreate ∧ (levels idx).price ≠ invalidLevelPrice ∧
      better isBid price (levels idx).price ∧
      PassedFrom isBid levels price shouldCreate first idx
  | .last => PassedFrom isBid levels price shouldCreate first last

variable {levels : Nat → DepthLevel} {price : Price} {shouldCreate : Bool}

theorem PassedFrom.step {first last : Nat}
    (passed : PassedFrom isBid levels price shouldCreate (first + 1) last)
    (passes : PassedOver isBid price shouldCreate (levels first)) :
    PassedFrom isBid levels price shouldCreate first last := by
  intro idx fromFirst before
  rcases Nat.eq_or_lt_of_le fromFirst with rfl | later
  · exact passes
  · exact passed idx later before

theorem search_spec (isBid : Bool) (levels : Nat → DepthLevel) (price : Price)
    (shouldCreate : Bool) (turns first : Nat) :
    StopOk isBid levels price shouldCreate first (first + turns)
      (search isBid levels price shouldCreate turns first) := by
  induction turns generalizing first with
  | zero => exact fun idx fromFirst before => absurd before (not_lt.mpr fromFirst)
  | succ turns inductionHypothesis =>
    have nothing : PassedFrom isBid levels price shouldCreate first first :=
      fun idx fromFirst before => absurd before (not_lt.mpr fromFirst)
    unfold search
    split_ifs with found vacant worse
    · exact ⟨by omega, found, nothing⟩
    · exact ⟨by omega, vacant.1, vacant.2, nothing⟩
    · exact ⟨by omega, worse.1, fun empty => vacant ⟨worse.1, empty⟩, worse.2, nothing⟩
    · have passes : PassedOver isBid price shouldCreate (levels first) :=
        ⟨found, fun create => ⟨fun empty => vacant ⟨create, empty⟩, fun less => worse ⟨create, less⟩⟩⟩
      have later := inductionHypothesis (first + 1)
      rw [Nat.add_right_comm, Nat.add_assoc] at later
      cases stop : search isBid levels price shouldCreate turns (first + 1) with
      | found idx =>
        rw [stop] at later
        exact ⟨later.1, later.2.1, later.2.2.step passes⟩
      | vacant idx =>
        rw [stop] at later
        exact ⟨later.1, later.2.1, later.2.2.1, later.2.2.2.step passes⟩
      | before idx =>
        rw [stop] at later
        exact ⟨later.1, later.2.1, later.2.2.1, later.2.2.2.1, later.2.2.2.2.step passes⟩
      | last =>
        rw [stop] at later
        exact later.step passes

/-- A search that may not create a level does not stop at an empty slot or a worse price. -/
theorem findLevel_of_not_create (size : Nat) (side : DepthSide isBid) (lastChanged : ChangeId)
    (price : Price) :
    ∃ ptr, side.findLevel size lastChanged price false = (side, lastChanged, ptr) ∧
      ((∃ idx < size - 1, ptr = .slot idx ∧ (side.levels idx).price = price) ∨
        (∀ idx < size - 1, (side.levels idx).price ≠ price) ∧
          ((side.excess.get price).isSome ∧ ptr = .excess price ∨
            side.excess.get price = none ∧ ptr = .slot (size - 1))) := by
  have ok := search_spec isBid side.levels price false (size - 1) 0
  rw [Nat.zero_add] at ok
  unfold findLevel
  cases stop : search isBid side.levels price false (size - 1) 0 with
  | found idx =>
    rw [stop] at ok
    exact ⟨_, rfl, .inl ⟨idx, ok.1, rfl, ok.2.1⟩⟩
  | vacant idx =>
    rw [stop] at ok
    exact absurd ok.2.1 (by decide)
  | before idx =>
    rw [stop] at ok
    exact absurd ok.2.1 (by decide)
  | last =>
    rw [stop] at ok
    have absent : ∀ idx < size - 1, (side.levels idx).price ≠ price :=
      fun idx before => (ok idx (Nat.zero_le _) before).1
    by_cases inExcess : (side.excess.get price).isSome
    · exact ⟨_, if_pos inExcess, .inr ⟨absent, .inl ⟨inExcess, rfl⟩⟩⟩
    · refine ⟨.slot (size - 1), ?_, .inr ⟨absent, .inr ⟨by simpa using inExcess, rfl⟩⟩⟩
      simp [inExcess]

/-! ### What each slot holds afterwards -/

variable {size : Nat} {side : DepthSide isBid} {lastChanged : ChangeId}

theorem levels_insertLevelBefore {level : Nat} (bound : level < size) (price : Price) (idx : Nat) :
    (side.insertLevelBefore size lastChanged level price).1.levels idx =
      if idx = level then (side.levels level).init price false
      else if level < idx ∧ idx < size then
        (side.levels idx).moveDown (side.levels (idx - 1)) (lastChanged + 1)
      else side.levels idx := by
  have range : (level < idx ∧ idx ≤ level + (size - 1 - level)) ↔ level < idx ∧ idx < size := by
    omega
  have here : ¬ (level < level ∧ level ≤ level + (size - 1 - level)) := by omega
  show Function.update (shiftDown level _ _ _) level _ idx = _
  rw [Function.update_apply, shiftDown_apply, shiftDown_apply, if_neg here]
  simp only [range]

theorem excess_insertLevelBefore (level : Nat) (price : Price) :
    (side.insertLevelBefore size lastChanged level price).1.excess =
      if (side.levels (size - 1)).price ≠ invalidLevelPrice then
        side.excess.insert (side.levels (size - 1)).price
          ((({} : DepthLevel).init 0 true).assign (side.levels (size - 1)))
      else side.excess := rfl

/-- What `erase_level` leaves in a slot before the last one. -/
def shifted (side : DepthSide isBid) (level : Nat) (change : ChangeId) (idx : Nat) : DepthLevel :=
  if level ≤ idx ∧ ((side.levels idx).price ≠ invalidLevelPrice ∨ idx = level) then
    (side.levels idx).moveUp (side.levels (idx + 1)) change
  else side.levels idx

/-- What `erase_level` leaves in the last slot and in the excess levels. -/
def Refilled (size : Nat) (side : DepthSide isBid) (level : Nat) (change : ChangeId)
    (next : DepthSide isBid) : Prop :=
  if level = size - 1 ∨ (side.levels (size - 1)).price ≠ invalidLevelPrice then
    match side.excess.entries.head? with
    | some (price, first) =>
      next.levels (size - 1) = (side.levels (size - 1)).moveUp first change ∧
        next.excess = side.excess.erase price
    | none =>
      next.levels (size - 1) =
          ((side.levels (size - 1)).init invalidLevelPrice false).stamp change ∧
        next.excess = side.excess
  else next.levels (size - 1) = side.levels (size - 1) ∧ next.excess = side.excess

/-- The last slot takes the first excess level, or is made empty when there is none, or was empty
already and is not the erased one. -/
theorem Refilled.cases {level : Nat} {change : ChangeId} {next : DepthSide isBid}
    (refilled : Refilled size side level change next) :
    (∃ price first, side.excess.entries.head? = some (price, first) ∧
      next.levels (size - 1) = (side.levels (size - 1)).moveUp first change ∧
      next.excess = side.excess.erase price) ∨
    (side.excess.entries.head? = none ∧
      next.levels (size - 1) =
        ((side.levels (size - 1)).init invalidLevelPrice false).stamp change ∧
      next.excess = side.excess) ∨
    (level ≠ size - 1 ∧ (side.levels (size - 1)).price = invalidLevelPrice ∧
      next.levels (size - 1) = side.levels (size - 1) ∧ next.excess = side.excess) := by
  unfold Refilled at refilled
  split_ifs at refilled with refills
  · cases first : side.excess.entries.head? with
    | none =>
      rw [first] at refilled
      exact .inr (.inl ⟨rfl, refilled⟩)
    | some entry =>
      rw [first] at refilled
      exact .inl ⟨_, _, rfl, refilled⟩
  · obtain ⟨other, empty⟩ := not_or.mp refills
    exact .inr (.inr ⟨other, not_not.mp empty, refilled⟩)

/-- Erasing the level in a slot moves the levels behind it up and refills the last slot. -/
theorem eraseLevel_slot (lastChanged : ChangeId) {level : Nat} (bound : level < size)
    (visible : (side.levels level).isExcess = false) :
    ∃ next, side.eraseLevel size lastChanged (.slot level) = some (next, lastChanged + 1) ∧
      (∀ idx < size - 1, next.levels idx = side.shifted level (lastChanged + 1) idx) ∧
      Refilled size side level (lastChanged + 1) next := by
  have shift (idx : Nat) :
      shiftUp level (lastChanged + 1) (size - 1 - level) level side.levels idx =
        if idx < size - 1 then side.shifted level (lastChanged + 1) idx else side.levels idx := by
    rw [shiftUp_apply]
    have range : (level ≤ idx ∧ idx < level + (size - 1 - level)) ↔
        level ≤ idx ∧ idx < size - 1 := by omega
    simp only [range, shifted]
    by_cases before : idx < size - 1 <;> simp [before]
  have lastSlot : shiftUp level (lastChanged + 1) (size - 1 - level) level side.levels (size - 1) =
      side.levels (size - 1) := by
    rw [shift, if_neg (lt_irrefl _)]
  have notExcess : ¬ (side.level (.slot level)).isExcess = true := by
    rw [DepthSide.level, visible]
    decide
  unfold eraseLevel Refilled
  rw [if_neg notExcess]
  simp only [lastSlot]
  split_ifs with refills
  · refine ⟨_, rfl, fun idx before => ?_, ?_⟩
    · unfold refill
      cases first : side.excess.entries.head? <;>
        simp only [Function.update_of_ne before.ne, shift, if_pos before]
    · unfold refill
      cases first : side.excess.entries.head? <;> simp [lastSlot]
  · refine ⟨_, rfl, fun idx before => ?_, lastSlot, rfl⟩
    simp only [shift, if_pos before]

/-! ### The order of the slots -/

/-- No level is behind an empty slot, an empty slot has no orders, and a level is marked as excess
exactly when it is in the map, where it stands under its price. -/
structure Orderly (size : Nat) (side : DepthSide isBid) : Prop where
  visible : ∀ idx < size, (side.levels idx).isExcess = false
  gapless : ∀ idx other, idx < other → other < size →
    (side.levels idx).price = invalidLevelPrice → (side.levels other).price = invalidLevelPrice
  unused : ∀ idx < size, (side.levels idx).price = invalidLevelPrice →
    (side.levels idx).ordersCount = 0
  excess : ∀ price level, side.excess.get price = some level →
    level.isExcess = true ∧ level.price = price ∧ price ≠ invalidLevelPrice

theorem orderly_empty (size : Nat) : Orderly size (empty : DepthSide isBid) where
  visible := fun _ _ => rfl
  gapless := fun _ _ _ _ _ => rfl
  unused := fun _ _ _ => rfl
  excess := fun _ _ stored => by cases stored

/-- The pointer is to a slot of the half or to a level in the map. -/
def Points (size : Nat) (side : DepthSide isBid) : LevelPtr → Prop
  | .slot idx => idx < size
  | .excess price => (side.excess.get price).isSome

theorem level_modify {ptr : LevelPtr} (points : Points size side ptr)
    (change : DepthLevel → DepthLevel) :
    (side.modify ptr change).level ptr = change (side.level ptr) := by
  cases ptr with
  | slot idx => exact Function.update_self ..
  | excess price =>
    obtain ⟨old, stored⟩ := Option.isSome_iff_exists.mp points
    simp only [modify, level, OrderedMap.get_modify, if_true, stored, Option.map_some,
      Option.getD_some]

theorem Points.modify {ptr : LevelPtr} (points : Points size side ptr)
    (change : DepthLevel → DepthLevel) : Points size (side.modify ptr change) ptr := by
  cases ptr with
  | slot idx => exact points
  | excess price =>
    simp only [Points, DepthSide.modify, OrderedMap.get_modify, if_true, Option.isSome_map]
    exact points

/-- Changing a level but not its price keeps the order. -/
theorem Orderly.modify (orderly : Orderly size side) (ptr : LevelPtr)
    {change : DepthLevel → DepthLevel}
    (price : (change (side.level ptr)).price = (side.level ptr).price)
    (isExcess : (change (side.level ptr)).isExcess = (side.level ptr).isExcess)
    (unused : (side.level ptr).price = invalidLevelPrice →
      (change (side.level ptr)).ordersCount = (side.level ptr).ordersCount) :
    Orderly size (side.modify ptr change) := by
  cases ptr with
  | slot slot =>
    have prices (idx : Nat) :
        ((side.modify (.slot slot) change).levels idx).price = (side.levels idx).price := by
      show (Function.update side.levels slot _ idx).price = _
      rw [Function.update_apply]
      split_ifs with same
      · rw [same]
        exact price
      · rfl
    exact {
      visible := by
        intro idx bound
        show (Function.update side.levels slot _ idx).isExcess = false
        rw [Function.update_apply]
        split_ifs with same
        · exact isExcess.trans (orderly.visible slot (same ▸ bound))
        · exact orderly.visible idx bound
      gapless := by
        intro idx other before bound
        rw [prices, prices]
        exact orderly.gapless idx other before bound
      unused := by
        intro idx bound
        rw [prices]
        show _ → (Function.update side.levels slot _ idx).ordersCount = 0
        rw [Function.update_apply]
        intro empty
        split_ifs with same
        · rw [same] at empty bound
          exact (unused empty).trans (orderly.unused slot bound empty)
        · exact orderly.unused idx bound empty
      excess := orderly.excess }
  | excess key =>
    refine { orderly with excess := ?_ }
    intro other level stored
    change (side.excess.modify key change).get other = some level at stored
    rw [OrderedMap.get_modify] at stored
    split_ifs at stored with same
    · obtain ⟨old, held, rfl⟩ := Option.map_eq_some_iff.mp stored
      have here : side.level (.excess key) = old := by rw [DepthSide.level, held]; rfl
      rw [here] at price isExcess
      rw [price, isExcess, same]
      exact orderly.excess key old held
    · exact orderly.excess other level stored

end DepthSide

end ObLib
