/-
This file models OrderBookStore/include/Depth.hpp and DepthLevel.hpp, the depth that
shows the best levels of each side of a book.

The array of the source has a half for each side, and no call looks outside its half.
Here a half is a function from slot numbers to levels, of which the first `size` count;
the levels beyond them are in an ordered map, the best first. A pointer to a level is
the number of its slot or its key in the map.

The total of a level and the change counter are 32 bits wide and come round; the number of
the orders of a level is exact, as it leaves its width only with 2^31 orders at a price.

A call returns the depth after it with what it returns or the text of the exception it
throws. `none` stands for arithmetic on a pointer that does not point into the array.
-/

import OrderBookSketch.Message
import OrderBookSketch.Library.OrderedMap
import Mathlib.Algebra.Order.Ring.Int

namespace ObLib

open Containers

/-- An `int32_t` that counts. -/
abbrev ChangeId := Int32

/-- `INVALID_LEVEL_PRICE`, the price of an empty slot. -/
def invalidLevelPrice : Price := 0

structure DepthLevel where
  price : Price := invalidLevelPrice
  totalQty : Quantity := 0
  ordersCount : Int := 0
  isExcess : Bool := false
  lastChange : ChangeId := 0
deriving DecidableEq, Repr

namespace DepthLevel

/-- `operator=`: whether it is an excess level stays, and the stamp comes with a price only. -/
def assign (level rhs : DepthLevel) : DepthLevel :=
  { price := rhs.price
    totalQty := rhs.totalQty
    ordersCount := rhs.ordersCount
    isExcess := level.isExcess
    lastChange := if rhs.price ≠ invalidLevelPrice then rhs.lastChange else level.lastChange }

def init (level : DepthLevel) (price : Price) (isExcess : Bool) : DepthLevel :=
  { level with price := price, totalQty := 0, ordersCount := 0, isExcess := isExcess }

def addOrder (level : DepthLevel) (qty : Quantity) : DepthLevel :=
  { level with ordersCount := level.ordersCount + 1, totalQty := asInt32 (level.totalQty + qty) }

def increaseQty (level : DepthLevel) (qty : Quantity) : DepthLevel :=
  { level with totalQty := asInt32 (level.totalQty + qty) }

def decreaseQty (level : DepthLevel) (qty : Quantity) : DepthLevel :=
  { level with totalQty := asInt32 (level.totalQty - qty) }

def noOrders : String := "No orders are there in this depthLevel. Can not remove."

/-- The level without an order, and whether that was the last one. The source makes an exception
for a total below the quantity but does not throw it. -/
def closeOrder (level : DepthLevel) (qty : Quantity) : Except String (DepthLevel × Bool) :=
  if level.ordersCount = 0 then .error noOrders
  else if level.ordersCount = 1 then .ok ({ level with ordersCount := 0, totalQty := 0 }, true)
  else
    let level := { level with ordersCount := level.ordersCount - 1 }
    if qty ≤ level.totalQty then
      .ok ({ level with totalQty := asInt32 (level.totalQty - qty) }, false)
    else .ok (level, false)

/-- `last_change(ChangeId)`. -/
def stamp (level : DepthLevel) (change : ChangeId) : DepthLevel := { level with lastChange := change }

/-- What a slot becomes when it gets the level in front of it; an empty level brings no stamp. -/
def moveDown (slot level : DepthLevel) (change : ChangeId) : DepthLevel :=
  if level.price ≠ invalidLevelPrice then (slot.assign level).stamp change else slot.assign level

/-- What a slot becomes when it gets the level behind it. -/
def moveUp (slot level : DepthLevel) (change : ChangeId) : DepthLevel :=
  (slot.assign level).stamp change

def changedSince (level : DepthLevel) (lastPublishedChange : ChangeId) : Bool :=
  level.lastChange > lastPublishedChange

end DepthLevel

/-- A price is better than another on a side: higher for bids, lower for asks. -/
def better (isBid : Bool) (price other : Price) : Prop :=
  if isBid then other < price else price < other

instance (isBid : Bool) : DecidableRel (better isBid) := fun price other =>
  inferInstanceAs (Decidable (if isBid then other < price else price < other))

instance (isBid : Bool) : IsStrictTotalOrder Price (better isBid) := by
  cases isBid
  · exact inferInstanceAs (IsStrictTotalOrder Int (· < ·))
  · exact inferInstanceAs (IsStrictTotalOrder Int (· > ·))

/-- The slots of one side, and its excess levels. -/
structure DepthSide (isBid : Bool) where
  levels : Nat → DepthLevel
  excess : OrderedMap Price DepthLevel (better isBid)

/-- A `DepthLevel*`. -/
inductive LevelPtr where
  | slot (idx : Nat)
  | excess (price : Price)
deriving DecidableEq, Repr

/-- Where the search of `findLevel` stops: at the level of the price, at an empty slot, at a slot
with a worse price, or at the last slot, which it does not look at. -/
inductive Stop where
  | found (idx : Nat)
  | vacant (idx : Nat)
  | before (idx : Nat)
  | last
deriving DecidableEq, Repr

namespace DepthSide

variable {isBid : Bool}

def empty : DepthSide isBid := ⟨fun _ => {}, .empty⟩

/-! ### Pointers -/

def level (side : DepthSide isBid) : LevelPtr → DepthLevel
  | .slot idx => side.levels idx
  | .excess price => (side.excess.get price).getD {}

def modify (side : DepthSide isBid) (ptr : LevelPtr) (change : DepthLevel → DepthLevel) :
    DepthSide isBid :=
  match ptr with
  | .slot idx => { side with levels := Function.update side.levels idx (change (side.levels idx)) }
  | .excess price => { side with excess := side.excess.modify price change }

/-! ### Moving levels -/

/-- The loop of `insert_level_before`, which goes backwards: each slot behind `level` gets the
level in front of it. -/
def shiftDown (level : Nat) (change : ChangeId) :
    Nat → (Nat → DepthLevel) → Nat → DepthLevel
  | 0, levels => levels
  | turns + 1, levels =>
    let curr := level + turns
    shiftDown level change turns
      (Function.update levels (curr + 1) ((levels (curr + 1)).moveDown (levels curr) change))

/-- The loop of `erase_level`, which goes forwards: each slot from `level` on gets the level
behind it. -/
def shiftUp (level : Nat) (change : ChangeId) :
    Nat → Nat → (Nat → DepthLevel) → Nat → DepthLevel
  | 0, _, levels => levels
  | turns + 1, curr, levels =>
    let levels :=
      if (levels curr).price ≠ invalidLevelPrice ∨ curr = level then
        Function.update levels curr ((levels curr).moveUp (levels (curr + 1)) change)
      else levels
    shiftUp level change turns (curr + 1) levels

def insertLevelBefore (size : Nat) (side : DepthSide isBid) (lastChanged : ChangeId) (level : Nat)
    (price : Price) : DepthSide isBid × ChangeId :=
  let lastLevel := side.levels (size - 1)
  let excess :=
    if lastLevel.price ≠ invalidLevelPrice then
      side.excess.insert lastLevel.price ((({} : DepthLevel).init 0 true).assign lastLevel)
    else side.excess
  let lastChanged := lastChanged + 1
  let levels := shiftDown level lastChanged (size - 1 - level) side.levels
  (⟨Function.update levels level ((levels level).init price false), excess⟩, lastChanged)

/-- The refill of the last slot in `erase_level` from the first excess level, if there is one. -/
def refill (size : Nat) (side : DepthSide isBid) (change : ChangeId) : DepthSide isBid :=
  match side.excess.entries.head? with
  | some (price, level) =>
    ⟨Function.update side.levels (size - 1) ((side.levels (size - 1)).moveUp level change),
      side.excess.erase price⟩
  | none =>
    { side with
      levels := Function.update side.levels (size - 1)
        (((side.levels (size - 1)).init invalidLevelPrice false).stamp change) }

def eraseLevel (size : Nat) (side : DepthSide isBid) (lastChanged : ChangeId) (ptr : LevelPtr) :
    Option (DepthSide isBid × ChangeId) :=
  if (side.level ptr).isExcess then
    some ({ side with excess := side.excess.erase (side.level ptr).price }, lastChanged)
  else
    match ptr with
    | .slot level =>
      let lastChanged := lastChanged + 1
      let lastSideLevel := size - 1
      let side :=
        { side with
          levels := shiftUp level lastChanged (lastSideLevel - level) level side.levels }
      if level = lastSideLevel ∨ (side.levels lastSideLevel).price ≠ invalidLevelPrice then
        some (side.refill size lastChanged, lastChanged)
      else some (side, lastChanged)
    | .excess _ => none

/-! ### Finding levels -/

/-- The linear search of `findLevel`, for the given number of turns. -/
def search (isBid : Bool) (levels : Nat → DepthLevel) (price : Price) (shouldCreate : Bool) :
    Nat → Nat → Stop
  | 0, _ => .last
  | turns + 1, idx =>
    if (levels idx).price = price then .found idx
    else if shouldCreate ∧ (levels idx).price = invalidLevelPrice then .vacant idx
    else if shouldCreate ∧ better isBid price (levels idx).price then .before idx
    else search isBid levels price shouldCreate turns (idx + 1)

def findLevel (size : Nat) (side : DepthSide isBid) (lastChanged : ChangeId) (price : Price)
    (shouldCreate : Bool) : DepthSide isBid × ChangeId × LevelPtr :=
  match search isBid side.levels price shouldCreate (size - 1) 0 with
  | .found idx => (side, lastChanged, .slot idx)
  | .vacant idx => (side.modify (.slot idx) fun level => level.init price false, lastChanged, .slot idx)
  | .before idx =>
    let (side, lastChanged) := side.insertLevelBefore size lastChanged idx price
    (side, lastChanged, .slot idx)
  | .last =>
    if (side.excess.get price).isSome then (side, lastChanged, .excess price)
    else if shouldCreate then
      ({ side with excess := side.excess.insert price (({} : DepthLevel).init price true) },
        lastChanged, .excess price)
    else (side, lastChanged, .slot (size - 1))

/-! ### Orders -/

def addOrder (size : Nat) (side : DepthSide isBid) (lastChanged : ChangeId) (price : Price)
    (qty : Quantity) : DepthSide isBid × ChangeId :=
  let (side, lastChanged, ptr) := side.findLevel size lastChanged price true
  let side := side.modify ptr fun level => level.addOrder qty
  if (side.level ptr).isExcess then (side, lastChanged)
  else (side.modify ptr fun level => level.stamp (lastChanged + 1), lastChanged + 1)

def changeQtyOrder (size : Nat) (side : DepthSide isBid) (lastChanged : ChangeId) (price : Price)
    (delta : Quantity) : DepthSide isBid × ChangeId :=
  let (side, lastChanged, ptr) := side.findLevel size lastChanged price false
  if delta ≠ 0 then
    let side := side.modify ptr fun level =>
      if 0 < delta then level.increaseQty delta else level.decreaseQty (asInt32 |delta|)
    (side.modify ptr fun level => level.stamp (lastChanged + 1), lastChanged + 1)
  else (side, lastChanged)

def closeOrder (size : Nat) (side : DepthSide isBid) (lastChanged : ChangeId) (price : Price)
    (openQty : Quantity) : Option (DepthSide isBid × ChangeId × Except String Bool) :=
  let (side, lastChanged, ptr) := side.findLevel size lastChanged price false
  match (side.level ptr).closeOrder openQty with
  | .error text => some (side, lastChanged, .error text)
  | .ok (level, true) => do
    let (side, lastChanged) ← (side.modify ptr fun _ => level).eraseLevel size lastChanged ptr
    return (side, lastChanged, .ok true)
  | .ok (level, false) =>
    let side := side.modify ptr fun _ => level
    some (side.modify ptr fun level => level.stamp (lastChanged + 1), lastChanged + 1, .ok false)

def replaceOrder (size : Nat) (side : DepthSide isBid) (lastChanged : ChangeId)
    (oldPrice newPrice : Price) (oldQty newQty : Quantity) :
    Option (DepthSide isBid × ChangeId × Except String Bool) :=
  if oldPrice = newPrice then
    let delta := asInt32 (newQty - oldQty)
    let (side, lastChanged) := side.changeQtyOrder size lastChanged newPrice delta
    some (side, lastChanged, .ok false)
  else
    let (side, lastChanged) := side.addOrder size lastChanged newPrice newQty
    side.closeOrder size lastChanged oldPrice oldQty

end DepthSide

/-- `Depth<SIZE>`. -/
structure Depth where
  bids : DepthSide true
  asks : DepthSide false
  lastChanged : ChangeId
  lastPublished : ChangeId

namespace Depth

/-- A new depth. The source does not initialise the counters. -/
def create (lastChanged lastPublished : ChangeId) : Depth :=
  ⟨.empty, .empty, lastChanged, lastPublished⟩

def side (depth : Depth) : (isBid : Bool) → DepthSide isBid
  | true => depth.bids
  | false => depth.asks

def setSide (depth : Depth) : (isBid : Bool) → DepthSide isBid → ChangeId → Depth
  | true, bids, lastChanged => { depth with bids := bids, lastChanged := lastChanged }
  | false, asks, lastChanged => { depth with asks := asks, lastChanged := lastChanged }

def addOrder (size : Nat) (depth : Depth) (price : Price) (qty : Quantity) (isBid : Bool) : Depth :=
  let (side, lastChanged) := (depth.side isBid).addOrder size depth.lastChanged price qty
  depth.setSide isBid side lastChanged

def replaceOrder (size : Nat) (depth : Depth) (oldPrice newPrice : Price)
    (oldQty newQty : Quantity) (isBid : Bool) : Option (Depth × Except String Bool) := do
  let (side, lastChanged, result) ←
    (depth.side isBid).replaceOrder size depth.lastChanged oldPrice newPrice oldQty newQty
  return (depth.setSide isBid side lastChanged, result)

def changeQtyOrder (size : Nat) (depth : Depth) (price : Price) (delta : Quantity)
    (isBid : Bool) : Depth :=
  let (side, lastChanged) := (depth.side isBid).changeQtyOrder size depth.lastChanged price delta
  depth.setSide isBid side lastChanged

def closeOrder (size : Nat) (depth : Depth) (price : Price) (openQty : Quantity) (isBid : Bool) :
    Option (Depth × Except String Bool) := do
  let (side, lastChanged, result) ←
    (depth.side isBid).closeOrder size depth.lastChanged price openQty
  return (depth.setSide isBid side lastChanged, result)

def changed (depth : Depth) : Bool := depth.lastChanged > depth.lastPublished

def lastChange (depth : Depth) : ChangeId := depth.lastChanged

def lastPublishedChange (depth : Depth) : ChangeId := depth.lastPublished

def published (depth : Depth) : Depth := { depth with lastPublished := depth.lastChanged }

/-- A call that changes the levels. -/
inductive Call where
  | addOrder (price : Price) (qty : Quantity) (isBid : Bool)
  | closeOrder (price : Price) (openQty : Quantity) (isBid : Bool)
  | changeQtyOrder (price : Price) (delta : Quantity) (isBid : Bool)
  | replaceOrder (oldPrice newPrice : Price) (oldQty newQty : Quantity) (isBid : Bool)
deriving DecidableEq, Repr

/-- One call, with `false` for the calls that return nothing. -/
def call (size : Nat) (depth : Depth) : Call → Option (Depth × Except String Bool)
  | .addOrder price qty isBid => some (depth.addOrder size price qty isBid, .ok false)
  | .closeOrder price openQty isBid => depth.closeOrder size price openQty isBid
  | .changeQtyOrder price delta isBid =>
    some (depth.changeQtyOrder size price delta isBid, .ok false)
  | .replaceOrder oldPrice newPrice oldQty newQty isBid =>
    depth.replaceOrder size oldPrice newPrice oldQty newQty isBid

end Depth

end ObLib
