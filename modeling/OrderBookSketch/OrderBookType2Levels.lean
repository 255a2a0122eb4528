/-
This file says what the level operations of the order book do, price by price: which
level stands under each key after an order is entered, reduced, adjusted or cancelled,
and that the other keys and the other side are as before.

It also states what a level should be: the total and the number of the quantities that
rest at its price, and no level where none rests. Entering and removing an order keep
a level that is so; removing keeps it because a positive rest is not mistaken for a
spent level.
-/

import OrderBookSketch.OrderBookType2
import Mathlib.Algebra.Order.BigOperators.Group.List
import Mathlib.Tactic.Linarith
import Mathlib.Tactic.Ring

namespace ObLib

open Containers

/-! ### Changes to one level -/

/-- The level after an order is entered at a price. -/
def Level.entered (level : Level) (price : Price) (qty : Quantity) : Level :=
  { price := price, qty := level.qty + qty, orderCount := level.orderCount + 1 }

/-- The level after a quantity and an order are taken off. -/
def Level.reduced (level : Level) (qty : Quantity) : Level :=
  { level with qty := level.qty - qty, orderCount := level.orderCount - 1 }

/-- The level after its quantity changes. -/
def Level.adjusted (level : Level) (delta : Quantity) : Level :=
  { level with qty := level.qty + delta }

/-- A level is kept as long as it has a quantity. -/
def unspent (level : Option Level) : Option Level := level.filter fun level => 0 < level.qty

theorem unspent_some (level : Level) :
    unspent (some level) = if 0 < level.qty then some level else none := by
  simp [unspent, Option.filter_some]

@[simp] theorem unspent_none : unspent none = none := rfl

/-- The level that the quantities resting at a price should have. -/
def levelOf (price : Price) (quantities : List Quantity) : Option Level :=
  if quantities = [] then none
  else some { price := price, qty := quantities.sum, orderCount := quantities.length }

theorem levelOf_nil (price : Price) : levelOf price [] = none := rfl

theorem levelOf_cons (price : Price) (qty : Quantity) (quantities : List Quantity) :
    levelOf price (qty :: quantities) =
      some { price := price, qty := qty + quantities.sum, orderCount := quantities.length + 1 } := by
  simp [levelOf]

theorem levelOf_perm {price : Price} {quantities others : List Quantity}
    (perm : quantities.Perm others) : levelOf price quantities = levelOf price others := by
  unfold levelOf
  rw [perm.sum_eq, perm.length_eq]
  exact if_congr (by rw [← List.length_eq_zero_iff, perm.length_eq, List.length_eq_zero_iff]) rfl rfl

/-- The quantities beside an order at its price are positive together, or there are none. -/
def Settled (quantities : List Quantity) : Prop := quantities = [] ∨ 0 < quantities.sum

theorem settled_of_pos {quantities : List Quantity} (positive : ∀ qty ∈ quantities, 0 < qty) :
    Settled quantities := by
  by_cases none : quantities = []
  · exact .inl none
  · exact .inr (List.sum_pos _ positive none)

theorem entered_levelOf (price : Price) (qty : Quantity) (quantities : List Quantity) :
    some (((levelOf price quantities).getD {}).entered price qty) =
      levelOf price (qty :: quantities) := by
  cases quantities with
  | nil => simp [levelOf, Level.entered]
  | cons first rest =>
    rw [levelOf_cons, levelOf_cons, Option.getD_some, Level.entered]
    simp [add_comm]

theorem unspent_reduced_levelOf {price : Price} {qty : Quantity} {quantities : List Quantity}
    (settled : Settled quantities) :
    unspent ((levelOf price (qty :: quantities)).map (·.reduced qty)) =
      levelOf price quantities := by
  rw [levelOf_cons, Option.map_some, unspent_some, Level.reduced]
  rcases settled with rfl | positive
  · simp [levelOf]
  · have some : quantities ≠ [] := by
      rintro rfl
      exact lt_irrefl 0 positive
    simp [levelOf, some, positive]

theorem unspent_adjusted_levelOf {price : Price} {oldQty newQty : Quantity}
    {quantities : List Quantity} (positive : 0 < newQty + quantities.sum) :
    unspent ((levelOf price (oldQty :: quantities)).map (·.adjusted (newQty - oldQty))) =
      levelOf price (newQty :: quantities) := by
  have total : oldQty + quantities.sum + (newQty - oldQty) = newQty + quantities.sum := by ring
  rw [levelOf_cons, levelOf_cons, Option.map_some, unspent_some, Level.adjusted]
  simp only [total, if_pos positive]

namespace BookOver

/-! ### Keys -/

theorem prio_inj {isBuy : Bool} {price other : Price} :
    prio isBuy price = prio isBuy other ↔ price = other := by
  cases isBuy <;> simp [prio]

/-- Every key of a side is the priority of one price. -/
theorem exists_prio (isBuy : Bool) (it : Int) : ∃ price, prio isBuy price = it := by
  cases isBuy
  · exact ⟨it, rfl⟩
  · exact ⟨-it, neg_neg it⟩

/-- The two sides give no priority to both of two positive prices. -/
theorem prio_ne_prio_not {isBuy : Bool} {price other : Price} (positive : 0 < price)
    (otherPositive : 0 < other) : prio isBuy price ≠ prio (!isBuy) other := by
  cases isBuy <;> intro same <;> simp [prio] at same <;> linarith

/-! ### The map of one side -/

variable {levels : Levels} {it : Int}

theorem get_eraseSpent (levels : Levels) (it other : Int) :
    (eraseSpent levels it).get other =
      if other = it then unspent (levels.get it) else levels.get other := by
  unfold eraseSpent
  cases stored : levels.get it with
  | none =>
    split_ifs with same
    · rw [same, stored]
      rfl
    · rfl
  | some level =>
    rw [unspent_some]
    by_cases spent : level.qty ≤ 0
    · simp only [if_pos spent, if_neg (not_lt.mpr spent), OrderedMap.get_erase]
    · simp only [if_neg spent, if_pos (not_le.mp spent)]
      split_ifs with same
      · rw [same, stored]
      · rfl

theorem get_reduce (levels : Levels) (it : Int) (qty : Quantity) (other : Int) :
    (reduce levels it qty).get other =
      if other = it then unspent ((levels.get it).map (·.reduced qty)) else levels.get other := by
  rw [reduce, get_eraseSpent, OrderedMap.get_modify, OrderedMap.get_modify, if_pos rfl]
  split_ifs <;> rfl

theorem get_enter (levels : Levels) (it : Int) (price : Price) (qty : Quantity) (other : Int) :
    (enter levels it price qty).get other =
      if other = it then some (((levels.get it).getD {}).entered price qty)
      else levels.get other := by
  rw [enter, OrderedMap.get_modify, OrderedMap.get_insert, OrderedMap.get_insert, if_pos rfl]
  split_ifs <;> rfl

theorem get_adjust (levels : Levels) (it : Int) (delta : Quantity) (other : Int) :
    (adjust levels it delta).get other =
      if other = it then unspent (some (((levels.get it).getD {}).adjusted delta))
      else levels.get other := by
  rw [adjust, get_eraseSpent, OrderedMap.get_modify, OrderedMap.get_modify, OrderedMap.get_insert,
    OrderedMap.get_insert, if_pos rfl, if_pos rfl]
  split_ifs <;> rfl

/-- An operation on a level leaves the others as they are. -/
theorem get_reduce_of_ne {other : Int} (different : other ≠ it) (qty : Quantity) :
    (reduce levels it qty).get other = levels.get other := by
  rw [get_reduce, if_neg different]

theorem get_enter_of_ne {other : Int} (different : other ≠ it) (price : Price) (qty : Quantity) :
    (enter levels it price qty).get other = levels.get other := by
  rw [get_enter, if_neg different]

theorem get_adjust_of_ne {other : Int} (different : other ≠ it) (delta : Quantity) :
    (adjust levels it delta).get other = levels.get other := by
  rw [get_adjust, if_neg different]

theorem reduce_of_absent {levels : Levels} {it : Int} (absent : levels.get it = none)
    (qty : Quantity) : reduce levels it qty = levels := by
  refine OrderedMap.ext fun other => ?_
  rw [get_reduce, absent]
  split_ifs with same
  · rw [same, absent]
    rfl
  · rfl

/-- A level that a modify inserts only to reduce it is gone again. -/
theorem reduce_insert (levels : Levels) (it : Int) {qty : Quantity} (positive : 0 < qty) :
    reduce (levels.insert it {}) it qty = reduce levels it qty := by
  refine OrderedMap.ext fun other => ?_
  rw [get_reduce, get_reduce, OrderedMap.get_insert, OrderedMap.get_insert, if_pos rfl]
  split_ifs with same
  · cases levels.get it with
    | none => simp [unspent_some, Level.reduced, positive.le]
    | some level => rfl
  · rfl

/-- Whether an entry is first depends on the other keys only. -/
theorem isBegin_congr {levels others : Levels} {it : Int}
    (same : ∀ other ≠ it, (levels.get other).isSome = (others.get other).isSome) :
    isBegin levels it = isBegin others it := by
  have front (levels : Levels) :
      isBegin levels it = true ↔ ∀ other ≠ it, (levels.get other).isSome → ¬ other > it := by
    rw [isBegin, beq_iff_eq, OrderedMap.rank_eq_zero_iff]
    constructor
    · intro first other _ present
      obtain ⟨level, stored⟩ := Option.isSome_iff_exists.mp present
      exact first other level stored
    · intro first other level stored
      by_cases here : other = it
      · rw [here]
        exact lt_irrefl it
      · exact first other here (Option.isSome_iff_exists.mpr ⟨level, stored⟩)
  rw [Bool.eq_iff_iff, front, front]
  exact forall₂_congr fun other different => by rw [same other different]

theorem isBegin_reduce (levels : Levels) (it : Int) (qty : Quantity) :
    isBegin (reduce levels it qty) it = isBegin levels it :=
  isBegin_congr fun _ different => congrArg Option.isSome (get_reduce_of_ne different qty)

/-! ### The two sides -/

section Sides

variable {Index : Type} (book : BookOver Index)

@[simp] theorem side_setSide (isBuy other : Bool) (levels : Levels) :
    (book.setSide isBuy levels).side other = if other = isBuy then levels else book.side other := by
  cases isBuy <;> cases other <;> rfl

@[simp] theorem orders_setSide (isBuy : Bool) (levels : Levels) :
    (book.setSide isBuy levels).orders = book.orders := by
  cases isBuy <;> rfl

@[simp] theorem orders_addNewOrder (order : Order) :
    (book.addNewOrder order).1.orders = book.orders := orders_setSide ..

theorem side_addNewOrder (order : Order) (isBuy : Bool) :
    (book.addNewOrder order).1.side isBuy =
      if isBuy = order.isBuy then
        enter (book.side order.isBuy) (prio order.isBuy order.price) order.price order.qty
      else book.side isBuy :=
  side_setSide ..

@[simp] theorem orders_doTrade (isBuy : Bool) (price : Price) (qty : Quantity) :
    (book.doTrade isBuy price qty).1.orders = book.orders := by
  simp only [doTrade]
  split_ifs
  · rfl
  · exact orders_setSide ..

theorem side_doTrade (isBuy : Bool) (price : Price) (qty : Quantity) (other : Bool) :
    (book.doTrade isBuy price qty).1.side other =
      if other = isBuy then reduce (book.side isBuy) (prio isBuy price) qty
      else book.side other := by
  simp only [doTrade, Option.isNone_iff_eq_none]
  split_ifs with absent same same
  · rw [reduce_of_absent absent, same]
  · rfl
  · rw [side_setSide, if_pos same]
  · rw [side_setSide, if_neg same]

/-- Whether a trade reaches a level that is first on its side. -/
theorem doTrade_snd (isBuy : Bool) (price : Price) (qty : Quantity) :
    (book.doTrade isBuy price qty).2 =
      (((book.side isBuy).get (prio isBuy price)).isSome &&
        isBegin (book.side isBuy) (prio isBuy price)) := by
  simp only [doTrade]
  split_ifs with absent
  · simp [Option.isNone_iff_eq_none.mp absent]
  · rw [isBegin_reduce, Option.isSome_iff_ne_none.mpr (by simpa using absent), Bool.true_and]

@[simp] theorem orders_modifyOrder (newOrder oldOrder : Order) :
    (book.modifyOrder newOrder oldOrder).1.orders = book.orders := by
  simp only [modifyOrder]
  split_ifs
  · exact (orders_setSide ..).trans (orders_setSide ..)
  · exact orders_setSide ..
  · rfl

theorem side_modifyOrder_price {newOrder oldOrder : Order}
    (moves : newOrder.price ≠ oldOrder.price) (positive : 0 < oldOrder.qty) (isBuy : Bool) :
    (book.modifyOrder newOrder oldOrder).1.side isBuy =
      if isBuy = oldOrder.isBuy then
        enter (reduce (book.side oldOrder.isBuy) (prio oldOrder.isBuy oldOrder.price)
          oldOrder.qty) (prio newOrder.isBuy newOrder.price) newOrder.price newOrder.qty
      else book.side isBuy := by
  simp only [modifyOrder, if_pos moves, reduce_insert _ _ positive, side_setSide, if_pos]
  split_ifs <;> rfl

theorem side_modifyOrder_qty {newOrder oldOrder : Order}
    (stays : newOrder.price = oldOrder.price) (differs : newOrder.qty ≠ oldOrder.qty)
    (isBuy : Bool) :
    (book.modifyOrder newOrder oldOrder).1.side isBuy =
      if isBuy = oldOrder.isBuy then
        adjust (book.side oldOrder.isBuy) (prio oldOrder.isBuy oldOrder.price)
          (newOrder.qty - oldOrder.qty)
      else book.side isBuy := by
  simp only [modifyOrder, if_neg (not_not.mpr stays), if_pos differs, side_setSide]

theorem modifyOrder_same {newOrder oldOrder : Order} (stays : newOrder.price = oldOrder.price)
    (same : newOrder.qty = oldOrder.qty) : book.modifyOrder newOrder oldOrder = (book, false) := by
  simp only [modifyOrder, if_neg (not_not.mpr stays), if_neg (not_not.mpr same)]

end Sides

end BookOver

end ObLib
