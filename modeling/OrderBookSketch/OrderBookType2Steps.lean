/-
This file says what each message does to the sides and to the index of the order book.

Of a trade it says which legs reach a side. The sell leg looks the buy order up, so it
runs only when the index still has that order after the buy leg, and only when the buy
leg has not already reported a change at `begin()`.
-/

import OrderBookSketch.OrderBookType2Run
import OrderBookSketch.OrderBookType2Levels

namespace ObLib

open Containers

namespace BookOver

variable (book : SpecBook)

/-! ### Orders -/

@[simp] theorem orders_specAdd (order : Order) :
    (book.specAdd order).1.orders = Function.update book.orders order.orderId (some order) :=
  orders_addNewOrder ..

theorem side_specAdd (order : Order) (isBuy : Bool) :
    (book.specAdd order).1.side isBuy =
      if isBuy = order.isBuy then
        enter (book.side order.isBuy) (prio order.isBuy order.price) order.price order.qty
      else book.side isBuy :=
  side_addNewOrder ..

@[simp] theorem orders_specRemove (stored : Order) (orderId : OrderId) :
    (book.specRemove stored orderId).1.orders = Function.update book.orders orderId none :=
  orders_doTrade ..

theorem side_specRemove (stored : Order) (orderId : OrderId) (isBuy : Bool) :
    (book.specRemove stored orderId).1.side isBuy =
      if isBuy = stored.isBuy then
        reduce (book.side stored.isBuy) (prio stored.isBuy stored.price) stored.qty
      else book.side isBuy :=
  side_doTrade ..

/-- An order in the index after a message was there before or is the message. -/
theorem stored_specProcessOrder {order stored : Order} {orderId : OrderId}
    (found : (book.specProcessOrder order).1.orders orderId = some stored) :
    book.orders orderId = some stored ∨ stored = order ∧ orderId = order.orderId := by
  have added (found : (book.specAdd order).1.orders orderId = some stored) :
      book.orders orderId = some stored ∨ stored = order ∧ orderId = order.orderId := by
    rw [orders_specAdd, Function.update_apply] at found
    split_ifs at found with same
    · exact .inr ⟨(Option.some.inj found).symm, same⟩
    · exact .inl found
  unfold specProcessOrder at found
  split at found
  · unfold specProcessNew at found
    split at found
    · exact added found
    · exact .inl found
  · unfold specProcessModify at found
    split at found
    · exact added found
    · rw [orders_modifyOrder] at found
      exact .inl found
  · unfold specProcessCancel at found
    split at found
    · exact .inl found
    · rw [orders_specRemove, Function.update_apply] at found
      split_ifs at found
      exact .inl found
  · exact .inl found

/-! ### Trades -/

@[simp] theorem side_specFillOrder (orderId : OrderId) (qty : Quantity) (isBuy : Bool) :
    (book.specFillOrder orderId qty).1.side isBuy = book.side isBuy := by
  unfold specFillOrder
  split
  · rfl
  · split_ifs <;> rfl

theorem specFillOrder_snd (orderId : OrderId) (qty : Quantity) :
    (book.specFillOrder orderId qty).2 = (book.orders orderId).isSome := by
  unfold specFillOrder
  cases book.orders orderId with
  | none => rfl
  | some resting =>
    simp only [Option.isSome_some]
    split_ifs <;> rfl

theorem orders_specFillOrder (orderId : OrderId) (qty : Quantity) (other : OrderId) :
    (book.specFillOrder orderId qty).1.orders other =
      if other = orderId then (book.orders orderId).filter fun resting => qty < resting.qty
      else book.orders other := by
  unfold specFillOrder
  cases stored : book.orders orderId with
  | none =>
    split_ifs with same
    · rw [same, stored]
      rfl
    · rfl
  | some resting =>
    by_cases spent : resting.qty ≤ qty
    · simp only [if_pos spent, Function.update_apply, Option.filter_some, not_lt.mpr spent,
        decide_false, Bool.false_eq_true, if_false]
    · simp only [if_neg spent, Option.filter_some, not_le.mp spent, decide_true, if_true]
      split_ifs with same
      · rw [same, stored]
      · rfl

/-- The buy leg finds its order. -/
def BuyLegRuns (trade : Trade) : Prop :=
  trade.buyOrderId ≠ 0 ∧ (book.orders trade.buyOrderId).isSome

/-- The level of the trade price is the one at `buy_.begin()`. -/
def AtBegin (trade : Trade) : Prop :=
  ((book.side true).get (prio true trade.price)).isSome ∧
    isBegin (book.side true) (prio true trade.price)

/-- The sell leg finds the buy order and is not skipped. -/
def SellLegRuns (trade : Trade) : Prop :=
  trade.sellOrderId ≠ 0 ∧ ∃ resting, book.orders trade.buyOrderId = some resting ∧
    (trade.buyOrderId = 0 ∨ trade.qty < resting.qty ∧ ¬ book.AtBegin trade)

instance (trade : Trade) : Decidable (book.BuyLegRuns trade) := inferInstanceAs (Decidable (_ ∧ _))

instance (trade : Trade) : Decidable (book.AtBegin trade) := inferInstanceAs (Decidable (_ ∧ _))

instance (trade : Trade) : Decidable (book.SellLegRuns trade) :=
  match stored : book.orders trade.buyOrderId with
  | none => .isFalse fun runs => by simp [SellLegRuns, stored] at runs
  | some resting =>
    decidable_of_iff (trade.sellOrderId ≠ 0 ∧
      (trade.buyOrderId = 0 ∨ trade.qty < resting.qty ∧ ¬ book.AtBegin trade))
      (by simp [SellLegRuns, stored])

theorem side_specBuyLeg (trade : Trade) (isBuy : Bool) :
    (book.specBuyLeg trade).1.side isBuy =
      if isBuy = true ∧ book.BuyLegRuns trade then
        reduce (book.side true) (prio true trade.price) trade.qty
      else book.side isBuy := by
  unfold specBuyLeg BuyLegRuns
  rw [specFillOrder_snd]
  by_cases absent : trade.buyOrderId = 0
  · simp [absent]
  · by_cases live : (book.orders trade.buyOrderId).isSome
    · simp [absent, live, side_doTrade]
    · simp [absent, live]

theorem orders_specBuyLeg (trade : Trade) :
    (book.specBuyLeg trade).1.orders =
      if trade.buyOrderId = 0 then book.orders
      else (book.specFillOrder trade.buyOrderId trade.qty).1.orders := by
  unfold specBuyLeg
  split_ifs
  · rfl
  · exact orders_doTrade ..
  · rfl

theorem specBuyLeg_snd (trade : Trade) :
    (book.specBuyLeg trade).2 = decide (book.BuyLegRuns trade ∧ book.AtBegin trade) := by
  unfold specBuyLeg BuyLegRuns AtBegin
  rw [specFillOrder_snd]
  by_cases absent : trade.buyOrderId = 0
  · simp [absent]
  · by_cases live : (book.orders trade.buyOrderId).isSome
    · simp [absent, live, doTrade_snd]
    · simp [absent, live]

theorem side_specSellLeg (trade : Trade) (retVal : Bool) (isBuy : Bool) :
    (book.specSellLeg trade retVal).1.side isBuy =
      if isBuy = false ∧ trade.sellOrderId ≠ 0 ∧ (book.orders trade.buyOrderId).isSome ∧
          retVal = false then
        reduce (book.side false) (prio false trade.price) trade.qty
      else book.side isBuy := by
  unfold specSellLeg
  rw [specFillOrder_snd]
  by_cases absent : trade.sellOrderId = 0
  · simp [absent]
  · by_cases live : (book.orders trade.buyOrderId).isSome
    · cases retVal <;> simp [absent, live, side_doTrade]
    · simp [absent, live]

theorem orders_specSellLeg (trade : Trade) (retVal : Bool) :
    (book.specSellLeg trade retVal).1.orders =
      if trade.sellOrderId = 0 then book.orders
      else (book.specFillOrder trade.buyOrderId trade.qty).1.orders := by
  unfold specSellLeg
  split_ifs
  · rfl
  · rfl
  · exact orders_doTrade ..
  · rfl

/-- The buy order is found by the sell leg when the buy leg did not look for it or left it. -/
theorem sellLegRuns_iff (trade : Trade) :
    book.SellLegRuns trade ↔
      trade.sellOrderId ≠ 0 ∧ ((book.specBuyLeg trade).1.orders trade.buyOrderId).isSome ∧
        (book.specBuyLeg trade).2 = false := by
  unfold SellLegRuns
  rw [specBuyLeg_snd, orders_specBuyLeg, decide_eq_false_iff_not]
  unfold BuyLegRuns
  refine and_congr_right fun _ => ?_
  by_cases absent : trade.buyOrderId = 0
  · simp [absent, Option.isSome_iff_exists]
  · rw [if_neg absent, orders_specFillOrder, if_pos rfl]
    cases stored : book.orders trade.buyOrderId with
    | none => simp
    | some resting => by_cases part : trade.qty < resting.qty <;> simp [absent, part]

theorem side_specProcessTrade (trade : Trade) (isBuy : Bool) :
    (book.specProcessTrade trade).1.side isBuy =
      if (isBuy = true ∧ book.BuyLegRuns trade) ∨ (isBuy = false ∧ book.SellLegRuns trade) then
        reduce (book.side isBuy) (prio isBuy trade.price) trade.qty
      else book.side isBuy := by
  unfold specProcessTrade
  simp only [side_specSellLeg, side_specBuyLeg, sellLegRuns_iff]
  cases isBuy <;> simp

theorem orders_specProcessTrade (trade : Trade) :
    (book.specProcessTrade trade).1.orders =
      if trade.buyOrderId = 0 ∧ trade.sellOrderId = 0 then book.orders
      else (book.specFillOrder trade.buyOrderId trade.qty).1.orders := by
  show ((book.specBuyLeg trade).1.specSellLeg trade (book.specBuyLeg trade).2).1.orders = _
  rw [orders_specSellLeg]
  by_cases noSell : trade.sellOrderId = 0
  · rw [if_pos noSell, orders_specBuyLeg]
    simp only [noSell, and_true]
  · rw [if_neg noSell, if_neg fun neither => noSell neither.2]
    funext other
    rw [orders_specFillOrder, orders_specFillOrder, orders_specBuyLeg]
    by_cases noBuy : trade.buyOrderId = 0
    · simp only [if_pos noBuy]
    · -- filling an order a second time drops nothing more
      simp only [if_neg noBuy, orders_specFillOrder]
      split_ifs with same
      · simp [Option.filter_filter]
      · rfl

/-- An order in the index after a message was there before or is the message. -/
theorem stored_specProcess {message : Message} {stored : Order} {orderId : OrderId}
    (found : (book.specProcess message).1.orders orderId = some stored) :
    book.orders orderId = some stored ∨ message = .ofOrder stored ∧ orderId = stored.orderId := by
  cases message with
  | ofOrder order =>
    refine (stored_specProcessOrder book found).imp_right ?_
    rintro ⟨rfl, same⟩
    exact ⟨rfl, same⟩
  | ofTrade trade =>
    change (book.specProcessTrade trade).1.orders orderId = some stored at found
    rw [orders_specProcessTrade] at found
    split_ifs at found
    · exact .inl found
    · rw [orders_specFillOrder] at found
      split_ifs at found with same
      · exact .inl (same ▸ (Option.filter_eq_some_iff.mp found).1)
      · exact .inl found

end BookOver

end ObLib
