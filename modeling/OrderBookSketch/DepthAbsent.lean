/-
This file proves when `changeQtyOrder` and `close_order` at a price that has no level
leave the depth alone: only a change by nothing does.

`findLevel` has no pointer for a level that it does not find. Its search of the array
ends at the last slot of the side, and when the map has no level either, it returns the
pointer to that slot, which the callers take for the level of the price.
-/

import OrderBookSketch.DepthSlots
import OrderBookSketch.Library.Run

namespace ObLib

open Containers Runs

namespace DepthSide

variable {isBid : Bool} {size : Nat} {side : DepthSide isBid} {price : Price}

/-- The array or the map holds a level of the price. -/
def HasLevel (size : Nat) (side : DepthSide isBid) (price : Price) : Prop :=
  (price ≠ invalidLevelPrice ∧ ∃ idx < size, (side.levels idx).price = price) ∨
    (side.excess.get price).isSome

instance (size : Nat) (side : DepthSide isBid) (price : Price) :
    Decidable (side.HasLevel size price) :=
  inferInstanceAs (Decidable (
    (price ≠ invalidLevelPrice ∧ ∃ idx < size, (side.levels idx).price = price) ∨
      (side.excess.get price).isSome))

/-- For a price that has no level, a slot is found all the same. -/
theorem findLevel_absent (absent : ¬ side.HasLevel size price) (lastChanged : ChangeId) :
    ∃ idx, side.findLevel size lastChanged price false = (side, lastChanged, .slot idx) := by
  obtain ⟨ptr, found, place⟩ := findLevel_of_not_create size side lastChanged price
  rcases place with ⟨idx, -, rfl, -⟩ | ⟨-, ⟨inExcess, -⟩ | ⟨-, rfl⟩⟩
  · exact ⟨idx, found⟩
  · exact absurd (.inr inExcess) absent
  · exact ⟨size - 1, found⟩

/-- The change counter moves with every change, also where it comes round. -/
theorem succ_ne (lastChanged : ChangeId) : lastChanged + 1 ≠ lastChanged := fun same =>
  absurd (Int32.add_eq_left.mp same) (by decide)

/-- A change by something moves the change counter. -/
theorem changeQtyOrder_absent (absent : ¬ side.HasLevel size price) (lastChanged : ChangeId)
    (delta : Quantity) :
    (side.changeQtyOrder size lastChanged price delta).2 =
      if delta ≠ 0 then lastChanged + 1 else lastChanged := by
  obtain ⟨idx, found⟩ := findLevel_absent absent lastChanged
  unfold changeQtyOrder
  rw [found]
  show (if delta ≠ 0 then _ else _ : DepthSide isBid × ChangeId).2 = _
  split_ifs <;> rfl

theorem changeQtyOrder_zero (absent : ¬ side.HasLevel size price) (lastChanged : ChangeId) :
    side.changeQtyOrder size lastChanged price 0 = (side, lastChanged) := by
  obtain ⟨idx, found⟩ := findLevel_absent absent lastChanged
  unfold changeQtyOrder
  rw [found]
  rfl

/-- A close throws, or tells that it has emptied a level, or moves the change counter. -/
theorem closeOrder_absent (absent : ¬ side.HasLevel size price) (lastChanged : ChangeId)
    (openQty : Quantity) {next : DepthSide isBid} {nextChanged : ChangeId}
    (closes : side.closeOrder size lastChanged price openQty = some (next, nextChanged, .ok false)) :
    nextChanged = lastChanged + 1 := by
  obtain ⟨idx, found⟩ := findLevel_absent absent lastChanged
  unfold closeOrder at closes
  rw [found] at closes
  simp only at closes
  split at closes
  · cases closes
  · obtain ⟨erased, -, same⟩ := Option.bind_eq_some_iff.mp closes
    cases same
  · cases closes
    rfl

end DepthSide

namespace Depth

open DepthSide

variable {size : Nat} {depth : Depth}

/-- The call is a change or a close at a price that has no level. -/
def NamesNoLevel (size : Nat) (depth : Depth) : Call → Prop
  | .closeOrder price _ isBid => ¬ (depth.side isBid).HasLevel size price
  | .changeQtyOrder price _ isBid => ¬ (depth.side isBid).HasLevel size price
  | .addOrder _ _ _ => False
  | .replaceOrder _ _ _ _ _ => False

instance (size : Nat) (depth : Depth) : DecidablePred (depth.NamesNoLevel size)
  | .closeOrder price _ isBid => inferInstanceAs (Decidable (¬ (depth.side isBid).HasLevel size price))
  | .changeQtyOrder price _ isBid =>
    inferInstanceAs (Decidable (¬ (depth.side isBid).HasLevel size price))
  | .addOrder _ _ _ => .isFalse id
  | .replaceOrder _ _ _ _ _ => .isFalse id

/-- The call does not throw, returns false if it returns anything, and leaves the depth as it is. -/
def Ignores (size : Nat) (depth : Depth) (call : Call) : Prop :=
  depth.call size call = some (depth, .ok false)

/-- The call is a change by nothing. -/
def Call.ChangesNothing : Call → Prop
  | .changeQtyOrder _ delta _ => delta = 0
  | _ => False

@[simp] theorem lastChanged_setSide (isBid : Bool) (side : DepthSide isBid) (lastChanged : ChangeId) :
    (depth.setSide isBid side lastChanged).lastChanged = lastChanged := by
  cases isBid <;> rfl

theorem setSide_self (isBid : Bool) :
    depth.setSide isBid (depth.side isBid) depth.lastChanged = depth := by
  cases isBid <;> rfl

theorem ignores_change_iff {price : Price} {isBid : Bool}
    (absent : ¬ (depth.side isBid).HasLevel size price) (delta : Quantity) :
    depth.Ignores size (.changeQtyOrder price delta isBid) ↔ delta = 0 := by
  constructor
  · intro ignores
    have next := (Prod.mk.inj (Option.some.inj ignores)).1
    have counter : (depth.changeQtyOrder size price delta isBid).lastChanged = depth.lastChanged :=
      congrArg lastChanged next
    rw [changeQtyOrder, lastChanged_setSide, changeQtyOrder_absent absent] at counter
    by_contra something
    rw [if_pos something] at counter
    exact succ_ne depth.lastChanged counter
  · rintro rfl
    show some (depth.changeQtyOrder size price 0 isBid, Except.ok false) = _
    rw [changeQtyOrder, changeQtyOrder_zero absent]
    exact congrArg (fun next => some (next, Except.ok false)) (setSide_self isBid)

theorem not_ignores_close {price : Price} {isBid : Bool}
    (absent : ¬ (depth.side isBid).HasLevel size price) (openQty : Quantity) :
    ¬ depth.Ignores size (.closeOrder price openQty isBid) := by
  intro ignores
  obtain ⟨⟨side, nextChanged, result⟩, closes, same⟩ := Option.bind_eq_some_iff.mp ignores
  obtain ⟨next, rfl⟩ := Prod.mk.inj (Option.some.inj same)
  have counter : nextChanged = depth.lastChanged :=
    (lastChanged_setSide isBid side nextChanged).symm.trans (congrArg lastChanged next)
  have moved := closeOrder_absent absent depth.lastChanged openQty closes
  exact succ_ne depth.lastChanged (moved.symm.trans counter)

/-- Over every run, from any depth, the changes and closes at prices that have no level are ignored
exactly when they are changes by nothing. -/
theorem absent_ignored_iff (size : Nat) (depth : Depth) (calls : List Call) :
    EachStep (call size) (fun depth call => depth.NamesNoLevel size call → depth.Ignores size call)
        depth calls ↔
      EachStep (call size) (fun depth call => depth.NamesNoLevel size call → call.ChangesNothing)
        depth calls := by
  refine eachStep_iff (fun depth call (_ : True) => ?_)
    (fun _ _ _ _ _ _ _ => trivial) calls depth trivial
  refine imp_congr_right fun absent => ?_
  cases call with
  | addOrder price qty isBid => exact absent.elim
  | closeOrder price openQty isBid => exact iff_of_false (not_ignores_close absent openQty) id
  | changeQtyOrder price delta isBid => exact ignores_change_iff absent delta
  | replaceOrder oldPrice newPrice oldQty newQty isBid => exact absent.elim

/-- Two bids on two slots, and a change at a third price, which takes from the second one. -/
theorem absent_change_hits_last_slot :
    ¬ ∀ (size : Nat) (lastChanged lastPublished : ChangeId) (calls : List Call),
      EachStep (call size) (fun depth call => depth.NamesNoLevel size call → depth.Ignores size call)
        (create lastChanged lastPublished) calls := by
  intro claim
  have third := (claim 2 0 0
    [.addOrder 100 5 true, .addOrder 101 7 true, .changeQtyOrder 99 (-2) true]).2.2.1 (by decide)
  have counter := congrArg (Option.map fun result => result.1.lastChanged) third
  exact absurd counter (by decide)

end Depth

end ObLib
