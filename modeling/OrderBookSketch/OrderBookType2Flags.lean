/-
This file proves exactly when the boolean of `processOrder` and `processTrade` tells that
the best price or its quantity changed.

The code compares the iterator to the level it touched with `begin()`, and the best level,
which `GetBestPrice` reads, is at the other end of the side. So the boolean is right where
the touched level is alone on its side or stands between two others, and wrong at either
end of a side, unless the levels happen to quote the same.
-/

import OrderBookSketch.OrderBookType2Quotes
import OrderBookSketch.Library.OrderedMapPosition

namespace ObLib

open Containers Runs

def Level.quoted (level : Level) : Price × Quantity := (level.price, level.qty)

namespace BookOver

/-! ### What a side quotes -/

/-- The price and quantity that `GetBestPrice` reports of a side. -/
def quote (levels : Levels) : Price × Quantity :=
  match levels.entries.getLast? with
  | some (_, level) => level.quoted
  | none => (0, 0)

/-- No other level stands behind the key: a level there is the best of its side. -/
def isLast (levels : Levels) (it : Int) : Bool := levels.entries.all fun entry => it ≤ entry.1

variable {levels next : Levels} {it : Int} {qty : Quantity}

theorem isLast_iff : isLast levels it ↔ ∀ other level, levels.get other = some level → ¬ it > other := by
  rw [isLast, List.all_eq_true]
  constructor
  · intro last other level held
    exact not_lt.mpr (of_decide_eq_true (last _ (OrderedMap.get_eq_some_iff.mp held)))
  · rintro last ⟨other, level⟩ member
    exact decide_eq_true (not_lt.mp (last other level (OrderedMap.get_eq_some_iff.mpr member)))

/-- What a side quotes whose last level is the given one, or whose others are left. -/
def shown (levels : Levels) (it : Int) : Option Level → Price × Quantity
  | some level => level.quoted
  | none => quote (levels.erase it)

theorem quote_of_isLast (last : isLast levels it)
    (same : ∀ other ≠ it, next.get other = levels.get other) :
    quote next = shown levels it (next.get it) := by
  cases held : next.get it with
  | none =>
    have erased : next = levels.erase it := by
      refine OrderedMap.ext fun other => ?_
      rw [OrderedMap.get_erase]
      split_ifs with here
      · rw [here, held]
      · exact same other here
    rw [erased]
    rfl
  | some level =>
    rw [quote, OrderedMap.getLast?_of_last same (isLast_iff.mp last) held]
    rfl

theorem quote_of_not_isLast (notLast : ¬ isLast levels it)
    (same : ∀ other ≠ it, next.get other = levels.get other) : quote next = quote levels := by
  rw [isLast_iff] at notLast
  push Not at notLast
  obtain ⟨back, level, held, behind⟩ := notLast
  rw [quote, OrderedMap.getLast?_congr same held behind, quote]

/-- What is done to one level changes the quote exactly when no level is behind it and it does not
show the same. -/
theorem quote_ne_iff (same : ∀ other ≠ it, next.get other = levels.get other) :
    quote next ≠ quote levels ↔
      isLast levels it ∧ shown levels it (next.get it) ≠ shown levels it (levels.get it) := by
  by_cases last : isLast levels it
  · rw [quote_of_isLast last same, quote_of_isLast last fun _ _ => rfl, and_iff_right last]
  · rw [quote_of_not_isLast last same]
    exact iff_of_false (not_not.mpr rfl) fun both => last both.1

/-- Where a key has no level, the others are all of them. -/
theorem shown_none (absent : levels.get it = none) : shown levels it none = quote levels := by
  have erased : levels.erase it = levels := by
    refine OrderedMap.ext fun other => ?_
    rw [OrderedMap.get_erase]
    split_ifs with here
    · rw [here, absent]
    · rfl
  rw [shown, erased]

/-- A level whose quantity changes is seen to, unless it is erased and the others show the same. -/
theorem shown_unspent_ne_iff {level changed : Level} (differs : changed.qty ≠ level.qty) :
    shown levels it (unspent (some changed)) ≠ shown levels it (some level) ↔
      (changed.qty ≤ 0 → quote (levels.erase it) ≠ level.quoted) := by
  rw [unspent_some]
  by_cases left : 0 < changed.qty
  · rw [if_pos left]
    exact iff_of_true (fun equal => differs (congrArg Prod.snd equal))
      fun spent => absurd left (not_lt.mpr spent)
  · rw [if_neg left]
    exact ⟨fun shows _ => shows, fun shows => shows (not_lt.mp left)⟩

/-! ### When an operation changes the quote -/

/-- An order is entered behind all other levels; where it opens a level, the side does not quote its
price and quantity already. -/
def EnterMovesBest (levels : Levels) (it : Int) (price : Price) (qty : Quantity) : Prop :=
  isLast levels it ∧ (levels.get it = none → quote levels ≠ (price, qty))

/-- The level is the best one; where it is emptied, the others do not quote the same. -/
def ReduceMovesBest (levels : Levels) (it : Int) (qty : Quantity) : Prop :=
  isLast levels it ∧ ∃ level ∈ levels.get it,
    level.qty ≤ qty → quote (levels.erase it) ≠ level.quoted

/-- The level is the best one, as for `ReduceMovesBest`; or a level without a price is opened behind
all others. -/
def AdjustMovesBest (levels : Levels) (it : Int) (delta : Quantity) : Prop :=
  isLast levels it ∧
    match levels.get it with
    | some level => level.qty + delta ≤ 0 → quote (levels.erase it) ≠ level.quoted
    | none => 0 < delta ∧ quote levels ≠ (0, delta)

/-- An order that moves is entered behind all levels that it leaves, and the side does not quote
what it makes of its new level already; or it is not, and taking it off its old level changes the
quote. -/
def MoveMovesBest (levels : Levels) (it : Int) (oldQty : Quantity) (addIt : Int) (price : Price)
    (qty : Quantity) : Prop :=
  if isLast (reduce levels it oldQty) addIt then
    quote levels ≠ (price, ((levels.get addIt).getD {}).qty + qty)
  else ReduceMovesBest levels it oldQty

theorem quote_enter_ne_iff {price : Price} (positive : 0 < qty) :
    quote (enter levels it price qty) ≠ quote levels ↔ EnterMovesBest levels it price qty := by
  rw [quote_ne_iff fun _ different => get_enter_of_ne different price qty, get_enter, if_pos rfl, EnterMovesBest]
  refine and_congr_right fun _ => ?_
  cases held : levels.get it with
  | none =>
    rw [shown_none held, ne_comm]
    show quote levels ≠ (price, 0 + qty) ↔ _
    rw [zero_add]
    exact ⟨fun differs _ => differs, fun differs => differs rfl⟩
  | some level =>
    refine iff_of_true (fun equal => ?_) nofun
    have grown : level.qty + qty = level.qty := congrArg Prod.snd equal
    exact positive.ne' (add_eq_left.mp grown)

theorem quote_reduce_ne_iff (positive : 0 < qty) :
    quote (reduce levels it qty) ≠ quote levels ↔ ReduceMovesBest levels it qty := by
  rw [quote_ne_iff fun _ different => get_reduce_of_ne different qty, get_reduce, if_pos rfl, ReduceMovesBest]
  refine and_congr_right fun _ => ?_
  cases held : levels.get it with
  | none => exact iff_of_false (not_not.mpr rfl) nofun
  | some level =>
    have differs : (level.reduced qty).qty ≠ level.qty := fun equal =>
      positive.ne' (sub_eq_self.mp equal)
    rw [Option.map_some, shown_unspent_ne_iff differs]
    simp only [Option.mem_some_iff, exists_eq_left', Level.reduced, sub_nonpos]

theorem quote_adjust_ne_iff {delta : Quantity} (changes : delta ≠ 0) :
    quote (adjust levels it delta) ≠ quote levels ↔ AdjustMovesBest levels it delta := by
  rw [quote_ne_iff fun _ different => get_adjust_of_ne different delta, get_adjust, if_pos rfl, AdjustMovesBest]
  refine and_congr_right fun _ => ?_
  cases held : levels.get it with
  | none =>
    have fresh : ((none : Option Level).getD {}).adjusted delta = ⟨0, delta, 0⟩ := by
      simp [Level.adjusted]
    rw [fresh, unspent_some]
    by_cases raised : 0 < delta
    · rw [if_pos raised, shown_none held, ne_comm]
      exact (and_iff_right raised).symm
    · rw [if_neg raised]
      exact iff_of_false (not_not.mpr rfl) fun both => raised both.1
  | some level =>
    have differs : (level.adjusted delta).qty ≠ level.qty := fun equal =>
      changes (add_eq_left.mp equal)
    exact shown_unspent_ne_iff differs

theorem quote_move_ne_iff {oldQty : Quantity} {addIt : Int} {price : Price}
    (different : addIt ≠ it) (oldPositive : 0 < oldQty) :
    quote (enter (reduce levels it oldQty) addIt price qty) ≠ quote levels ↔
      MoveMovesBest levels it oldQty addIt price qty := by
  have same (other : Int) (differs : other ≠ addIt) :
      (enter (reduce levels it oldQty) addIt price qty).get other =
        (reduce levels it oldQty).get other := get_enter_of_ne differs price qty
  unfold MoveMovesBest
  split_ifs with last
  · rw [quote_of_isLast last same, get_enter, if_pos rfl, get_reduce_of_ne different, ne_comm]
    rfl
  · rw [quote_of_not_isLast last same]
    exact quote_reduce_ne_iff oldPositive

/-! ### What the code compares with `begin()` -/

theorem isBegin_enter (levels : Levels) (it : Int) (price : Price) (qty : Quantity) :
    isBegin (enter levels it price qty) it = isBegin levels it :=
  isBegin_congr fun _ different => congrArg Option.isSome (get_enter_of_ne different price qty)

theorem isBegin_adjust (levels : Levels) (it : Int) (delta : Quantity) :
    isBegin (adjust levels it delta) it = isBegin levels it :=
  isBegin_congr fun _ different => congrArg Option.isSome (get_adjust_of_ne different delta)

/-- There is a level under the key, and it is the one at `begin()`. -/
def StandsFirst (levels : Levels) (it : Int) : Prop := (levels.get it).isSome ∧ isBegin levels it

section Returned

variable {Index : Type} (book : BookOver Index)

theorem addNewOrder_snd (order : Order) :
    (book.addNewOrder order).2 =
      isBegin (book.side order.isBuy) (prio order.isBuy order.price) :=
  isBegin_enter ..

theorem cancelOrder_snd (stored : Order) :
    (book.cancelOrder stored).2 = true ↔
      StandsFirst (book.side stored.isBuy) (prio stored.isBuy stored.price) := by
  rw [show book.cancelOrder stored = book.doTrade stored.isBuy stored.price stored.qty from rfl,
    doTrade_snd, Bool.and_eq_true]
  rfl

theorem modifyOrder_snd_price {newOrder oldOrder : Order} (moves : newOrder.price ≠ oldOrder.price)
    (positive : 0 < oldOrder.qty) :
    (book.modifyOrder newOrder oldOrder).2 =
      (isBegin (reduce (book.side oldOrder.isBuy) (prio oldOrder.isBuy oldOrder.price)
          oldOrder.qty) (prio newOrder.isBuy newOrder.price) ||
        isBegin (book.side oldOrder.isBuy) (prio oldOrder.isBuy oldOrder.price)) := by
  simp only [modifyOrder, if_pos moves, reduce_insert _ _ positive, side_setSide, if_pos,
    isBegin_enter, isBegin_reduce]

theorem modifyOrder_snd_qty {newOrder oldOrder : Order} (stays : newOrder.price = oldOrder.price)
    (differs : newOrder.qty ≠ oldOrder.qty) :
    (book.modifyOrder newOrder oldOrder).2 =
      isBegin (book.side oldOrder.isBuy) (prio oldOrder.isBuy oldOrder.price) := by
  simp only [modifyOrder, if_neg (not_not.mpr stays), if_pos differs, isBegin_adjust]

end Returned

/-! ### When the two ends agree -/

section Agreement

variable (book : SpecBook)

/-- A new order stands first on its side exactly when it changes the best level. -/
def EnterAgrees (order : Order) : Prop :=
  let levels := book.side order.isBuy
  let it := prio order.isBuy order.price
  isBegin levels it ↔ EnterMovesBest levels it order.price order.qty

/-- So does an order that leaves. -/
def CancelAgrees (stored : Order) : Prop :=
  let levels := book.side stored.isBuy
  let it := prio stored.isBuy stored.price
  StandsFirst levels it ↔ ReduceMovesBest levels it stored.qty

/-- So does the old or the new price of an order that moves, and the price of one whose quantity
changes. -/
def ModifyAgrees (newOrder stored : Order) : Prop :=
  let levels := book.side stored.isBuy
  let it := prio stored.isBuy stored.price
  let addIt := prio newOrder.isBuy newOrder.price
  if newOrder.price ≠ stored.price then
    (isBegin (reduce levels it stored.qty) addIt ∨ isBegin levels it) ↔
      MoveMovesBest levels it stored.qty addIt newOrder.price newOrder.qty
  else
    newOrder.qty ≠ stored.qty →
      (isBegin levels it ↔ AdjustMovesBest levels it (newOrder.qty - stored.qty))

/-- One of the legs of a trade finds its level first exactly when one of them changes the best
level. -/
def TradeAgrees (trade : Trade) : Prop :=
  (book.BuyLegRuns trade ∧ StandsFirst (book.side true) (prio true trade.price) ∨
      book.SellLegRuns trade ∧ StandsFirst (book.side false) (prio false trade.price)) ↔
    (book.BuyLegRuns trade ∧
        ReduceMovesBest (book.side true) (prio true trade.price) trade.qty ∨
      book.SellLegRuns trade ∧
        ReduceMovesBest (book.side false) (prio false trade.price) trade.qty)

/-- The level that a message touches is the first of its side exactly when touching it changes the
best one. -/
def Agrees : Message → Prop
  | .ofOrder order =>
    (book.orders order.orderId = none → order.type = 'N' ∨ order.type = 'M' →
      book.EnterAgrees order) ∧
    ∀ stored ∈ book.orders order.orderId,
      (order.type = 'M' → book.ModifyAgrees order stored) ∧
        (order.type = 'X' → book.CancelAgrees stored)
  | .ofTrade trade => book.TradeAgrees trade

end Agreement

/-- The best level of some side differs. -/
def BestMoves {Index Other : Type} (book : BookOver Index) (after : BookOver Other) : Prop :=
  ∃ isBuy, quote (after.side isBuy) ≠ quote (book.side isBuy)

/-- A boolean that is returned is true exactly when the best level of some side differs. -/
def Flags {Index Other : Type} (book : BookOver Index) (result : Except String Bool)
    (after : BookOver Other) : Prop :=
  ∀ flag, result = .ok flag → (flag = true ↔ BestMoves book after)

instance (levels : Levels) (it : Int) (price : Price) (qty : Quantity) :
    Decidable (EnterMovesBest levels it price qty) := inferInstanceAs (Decidable (_ ∧ _))

instance (levels : Levels) (it : Int) (qty : Quantity) :
    Decidable (ReduceMovesBest levels it qty) :=
  inferInstanceAs (Decidable (_ ∧ ∃ level ∈ levels.get it, _))

instance (levels : Levels) (it : Int) (delta : Quantity) :
    Decidable (AdjustMovesBest levels it delta) :=
  match held : levels.get it with
  | some level =>
    decidable_of_iff (isLast levels it ∧
      (level.qty + delta ≤ 0 → quote (levels.erase it) ≠ level.quoted))
      (by simp only [AdjustMovesBest, held])
  | none =>
    decidable_of_iff (isLast levels it ∧ 0 < delta ∧ quote levels ≠ (0, delta))
      (by simp only [AdjustMovesBest, held])

instance (levels : Levels) (it : Int) (oldQty : Quantity) (addIt : Int) (price : Price)
    (qty : Quantity) : Decidable (MoveMovesBest levels it oldQty addIt price qty) :=
  inferInstanceAs (Decidable (if isLast (reduce levels it oldQty) addIt then quote levels ≠ _
    else ReduceMovesBest levels it oldQty))

instance (levels : Levels) (it : Int) : Decidable (StandsFirst levels it) :=
  inferInstanceAs (Decidable (_ ∧ _))

instance (book : SpecBook) (order : Order) : Decidable (book.EnterAgrees order) :=
  inferInstanceAs (Decidable (_ ↔ _))

instance (book : SpecBook) (stored : Order) : Decidable (book.CancelAgrees stored) :=
  inferInstanceAs (Decidable (_ ↔ _))

instance (book : SpecBook) (newOrder stored : Order) :
    Decidable (book.ModifyAgrees newOrder stored) :=
  inferInstanceAs (Decidable (if newOrder.price ≠ stored.price then (_ ∨ _) ↔ _
    else newOrder.qty ≠ stored.qty → (_ ↔ _)))

instance (book : SpecBook) (trade : Trade) : Decidable (book.TradeAgrees trade) :=
  inferInstanceAs (Decidable (_ ↔ _))

instance (book : SpecBook) : ∀ message, Decidable (book.Agrees message)
  | .ofOrder order =>
    inferInstanceAs (Decidable ((_ → _ → _) ∧ ∀ stored ∈ book.orders order.orderId, _))
  | .ofTrade trade => inferInstanceAs (Decidable (book.TradeAgrees trade))

variable {book after : SpecBook}

theorem flags_ok_iff {flag : Bool} :
    Flags book (.ok flag) after ↔ (flag = true ↔ BestMoves book after) :=
  ⟨fun flags => flags flag rfl, fun same _ equal => Except.ok.inj equal ▸ same⟩

theorem not_bestMoves_self (book : SpecBook) : ¬ BestMoves book book := fun ⟨_, differs⟩ =>
  differs rfl

/-- Where one side is replaced, its quote decides. -/
theorem bestMoves_iff_of_side {isBuy : Bool} {levels : Levels}
    (sides : ∀ other, after.side other = if other = isBuy then levels else book.side other) :
    BestMoves book after ↔ quote levels ≠ quote (book.side isBuy) := by
  constructor
  · rintro ⟨other, differs⟩
    rw [sides] at differs
    split_ifs at differs with same
    · exact same ▸ differs
    · exact absurd rfl differs
  · intro differs
    exact ⟨isBuy, by rwa [sides, if_pos rfl]⟩

theorem flags_unchanged : Flags book (.ok false) book :=
  flags_ok_iff.mpr (iff_of_false Bool.false_ne_true (not_bestMoves_self book))

theorem flags_specAdd_iff {order : Order} (positive : 0 < order.qty) :
    Flags book (.ok (book.specAdd order).2) (book.specAdd order).1 ↔ book.EnterAgrees order := by
  rw [flags_ok_iff, bestMoves_iff_of_side (book.side_specAdd order), quote_enter_ne_iff positive,
    specAdd, addNewOrder_snd]
  rfl

theorem flags_specRemove_iff {stored : Order} (positive : 0 < stored.qty) (orderId : OrderId) :
    Flags book (.ok (book.specRemove stored orderId).2) (book.specRemove stored orderId).1 ↔
      book.CancelAgrees stored := by
  rw [flags_ok_iff, bestMoves_iff_of_side (book.side_specRemove stored orderId),
    quote_reduce_ne_iff positive, specRemove, cancelOrder_snd]
  rfl

/-- The two prices of an order that moves have different priorities. -/
theorem prio_ne_of_moves {newOrder stored : Order} (positive : 0 < newOrder.price)
    (storedPositive : 0 < stored.price) (moves : newOrder.price ≠ stored.price) :
    prio newOrder.isBuy newOrder.price ≠ prio stored.isBuy stored.price := by
  by_cases sameSide : stored.isBuy = newOrder.isBuy
  · rw [sameSide]
    exact fun equal => moves (prio_inj.mp equal)
  · rw [Bool.eq_not_of_ne sameSide]
    exact prio_ne_prio_not positive storedPositive

theorem flags_modifyOrder_iff {newOrder stored : Order} (positive : 0 < newOrder.price)
    (storedPositive : 0 < stored.price ∧ 0 < stored.qty) :
    Flags book (.ok (book.modifyOrder newOrder stored).2) (book.modifyOrder newOrder stored).1 ↔
      book.ModifyAgrees newOrder stored := by
  unfold ModifyAgrees
  by_cases moves : newOrder.price ≠ stored.price
  · rw [if_pos moves, flags_ok_iff,
      bestMoves_iff_of_side (book.side_modifyOrder_price moves storedPositive.2),
      quote_move_ne_iff (prio_ne_of_moves positive storedPositive.1 moves) storedPositive.2,
      modifyOrder_snd_price book moves storedPositive.2, Bool.or_eq_true]
  · rw [if_neg moves]
    have stays : newOrder.price = stored.price := not_not.mp moves
    by_cases differs : newOrder.qty ≠ stored.qty
    · rw [flags_ok_iff, bestMoves_iff_of_side (book.side_modifyOrder_qty stays differs),
        quote_adjust_ne_iff (sub_ne_zero.mpr differs), modifyOrder_snd_qty book stays differs]
      exact ⟨fun agrees _ => agrees, fun agrees => agrees differs⟩
    · rw [modifyOrder_same book stays (not_not.mp differs)]
      exact iff_of_true flags_unchanged fun changes => absurd changes differs

theorem flags_specProcessOrder_iff (stored : StoredPositive book) {order : Order}
    (positive : 0 < order.price ∧ 0 < order.qty) :
    Flags book (book.specProcessOrder order).2 (book.specProcessOrder order).1 ↔
      Agrees book (.ofOrder order) := by
  unfold specProcessOrder Agrees
  split
  next new =>
    unfold specProcessNew
    cases found : book.orders order.orderId with
    | none => simp [found, new, flags_specAdd_iff positive.2]
    | some old => simp [found, new, Flags]
  next modify =>
    unfold specProcessModify
    cases found : book.orders order.orderId with
    | none => simp [found, modify, flags_specAdd_iff positive.2]
    | some old => simp [found, modify, flags_modifyOrder_iff positive.1 (stored _ old found)]
  next cancel =>
    unfold specProcessCancel
    cases found : book.orders order.orderId with
    | none => simp [found, cancel, flags_unchanged]
    | some old => simp [found, cancel, flags_specRemove_iff (stored _ old found).2]
  next notNew notModify notCancel =>
    exact iff_of_true flags_unchanged ⟨fun _ type => (type.elim notNew notModify).elim,
      fun old _ => ⟨fun modify => absurd modify notModify, fun cancel => absurd cancel notCancel⟩⟩

/-! ### Trades -/

theorem specSellLeg_snd (trade : Trade) (retVal : Bool) :
    (book.specSellLeg trade retVal).2 = true ↔
      retVal = true ∨ (trade.sellOrderId ≠ 0 ∧ (book.orders trade.buyOrderId).isSome ∧
        retVal = false) ∧ StandsFirst (book.side false) (prio false trade.price) := by
  unfold specSellLeg StandsFirst
  rw [specFillOrder_snd]
  by_cases absent : trade.sellOrderId = 0
  · simp [absent]
  · by_cases live : (book.orders trade.buyOrderId).isSome
    · cases retVal <;> simp [absent, live, doTrade_snd]
    · simp [absent, live]

theorem specProcessTrade_snd (trade : Trade) :
    ∃ flag, (book.specProcessTrade trade).2 = .ok flag ∧
      (flag = true ↔
        book.BuyLegRuns trade ∧ StandsFirst (book.side true) (prio true trade.price) ∨
          book.SellLegRuns trade ∧ StandsFirst (book.side false) (prio false trade.price)) := by
  refine ⟨_, rfl, ?_⟩
  have sellSide : (book.specBuyLeg trade).1.side false = book.side false := by
    rw [side_specBuyLeg]
    exact if_neg fun both => Bool.false_ne_true both.1
  rw [specSellLeg_snd, ← sellLegRuns_iff, sellSide, specBuyLeg_snd, decide_eq_true_eq]
  rfl

theorem bestMoves_specProcessTrade_iff {trade : Trade} (positive : 0 < trade.qty) :
    BestMoves book (book.specProcessTrade trade).1 ↔
      book.BuyLegRuns trade ∧
          ReduceMovesBest (book.side true) (prio true trade.price) trade.qty ∨
        book.SellLegRuns trade ∧
          ReduceMovesBest (book.side false) (prio false trade.price) trade.qty := by
  have leg (isBuy : Bool) (runs : Prop) [Decidable runs] :
      quote (if runs then reduce (book.side isBuy) (prio isBuy trade.price) trade.qty
        else book.side isBuy) ≠ quote (book.side isBuy) ↔
        runs ∧ ReduceMovesBest (book.side isBuy) (prio isBuy trade.price) trade.qty := by
    split_ifs with here
    · rw [quote_reduce_ne_iff positive, and_iff_right here]
    · exact iff_of_false (not_not.mpr rfl) fun both => here both.1
  unfold BestMoves
  simp only [side_specProcessTrade, leg, Bool.exists_bool]
  simp [or_comm]

theorem flags_specProcessTrade_iff {trade : Trade} (positive : 0 < trade.qty) :
    Flags book (book.specProcessTrade trade).2 (book.specProcessTrade trade).1 ↔
      book.TradeAgrees trade := by
  obtain ⟨flag, returned, set⟩ := book.specProcessTrade_snd trade
  rw [returned, flags_ok_iff, set, bestMoves_specProcessTrade_iff positive]
  rfl

theorem flags_specProcess_iff (stored : StoredPositive book) {message : Message}
    (positive : Positive message) :
    Flags book (book.specProcess message).2 (book.specProcess message).1 ↔ Agrees book message := by
  cases message with
  | ofOrder order => exact flags_specProcessOrder_iff stored positive
  | ofTrade trade => exact flags_specProcessTrade_iff positive.2

/-! ### Every run -/

/-- The boolean that a call returns is true exactly when `GetBestPrice` reports another best level
of a side afterwards. -/
def FlagsBest (book : OrderBookType2) (_ : Message) (result : Except String Bool)
    (next : OrderBookType2) : Prop :=
  ∀ flag, result = .ok flag → (flag = true ↔ next.getBestPrice ≠ book.getBestPrice)

theorem getBestPrice_eq (book : OrderBookType2) :
    book.getBestPrice =
      ⟨(quote book.buy).2, (quote book.buy).1, (quote book.sell).1, (quote book.sell).2⟩ := by
  unfold getBestPrice quote
  cases book.buy.entries.getLast? <;> cases book.sell.entries.getLast? <;> rfl

theorem getBestPrice_ne_iff {book next : OrderBookType2} :
    next.getBestPrice ≠ book.getBestPrice ↔ BestMoves book.contents next.contents := by
  have same : next.getBestPrice = book.getBestPrice ↔
      quote next.sell = quote book.sell ∧ quote next.buy = quote book.buy := by
    rw [getBestPrice_eq, getBestPrice_eq, BestPrice.mk.injEq, Prod.ext_iff, Prod.ext_iff]
    tauto
  rw [Ne, same, BestMoves, Bool.exists_bool, not_and_or]
  rfl

/-- In every run of messages with positive prices and quantities, the boolean of a call is right
exactly when the ends agree for its message in the book that it finds; so every boolean of the run
is right exactly when they agree for every message. -/
theorem flags_best_iff {sizeHint : Nat} {book : OrderBookType2}
    (created : create sizeHint = some book) (messages : List Message)
    (fits : ∀ message ∈ messages, Proper message ∧ Positive message) :
    EachReturn process
        (fun book message result next =>
          FlagsBest book message result next ↔ Agrees book.contents message)
        book messages ∧
      (EachReturn process FlagsBest book messages ↔
        EachStep process (fun book message => Agrees book.contents message) book messages) := by
  have keeps (book : OrderBookType2) (message : Message)
      (invariant : Reachable book ∧ StoredPositive book.contents)
      (allowed : Proper message ∧ Positive message) :
      ∃ next result, book.process message = some (next, result) ∧
        (FlagsBest book message result next ↔ Agrees book.contents message) ∧
        Reachable next ∧ StoredPositive next.contents := by
    obtain ⟨reachable, stored⟩ := invariant
    obtain ⟨next, returns, contents, again⟩ := reachable.process_positive stored allowed
    refine ⟨next, _, returns, ?_, again⟩
    rw [← flags_specProcess_iff stored allowed.2, ← contents]
    unfold FlagsBest Flags
    simp only [getBestPrice_ne_iff]
  have each := eachReturn_of_keeps keeps messages book
    ⟨.create created, storedPositive_create created⟩ (eachStep_of_forall (fun _ => fits) book)
  exact ⟨each, eachReturn_iff_of_each each⟩

/-- One level on each side, where the two ends are the same. -/
theorem flags_best_example :
    ∃ book, create 4 = some book ∧
      EachReturn process FlagsBest book
        [.ofOrder { type := 'N', orderId := 1, orderType := 'B', price := 100, qty := 10 },
          .ofOrder { type := 'N', orderId := 2, orderType := 'S', price := 102, qty := 5 },
          .ofOrder { type := 'M', orderId := 2, orderType := 'S', price := 103, qty := 7 },
          .ofTrade { buyOrderId := 1, sellOrderId := 0, price := 100, qty := 4 },
          .ofOrder { type := 'X', orderId := 1, orderType := 'B', price := 100, qty := 10 }] := by
  have created : create 4 = some ⟨.empty, .empty, .empty 4 emptyOrderId⟩ := rfl
  refine ⟨_, created, (flags_best_iff created _ ?_).2.mpr (by decide)⟩
  simp [Proper, Positive, emptyOrderId]

/-- A better bid is not told to change the best price, and a worse one is. -/
theorem better_bid_not_flagged :
    ∃ book, create 4 = some book ∧
      ¬ EachReturn process FlagsBest book
        [.ofOrder { type := 'N', orderId := 1, orderType := 'B', price := 100, qty := 10 },
          .ofOrder { type := 'N', orderId := 2, orderType := 'B', price := 101, qty := 5 }] ∧
      ¬ EachReturn process FlagsBest book
        [.ofOrder { type := 'N', orderId := 1, orderType := 'B', price := 100, qty := 10 },
          .ofOrder { type := 'N', orderId := 2, orderType := 'B', price := 99, qty := 5 }] := by
  refine ⟨_, rfl, ?_, ?_⟩
  · rintro ⟨-, flags, -⟩
    have wrong := (flags false rfl).mpr (by decide)
    cases wrong
  · rintro ⟨-, flags, -⟩
    exact (flags true rfl).mp rfl (by decide)

end BookOver

end ObLib
