/-
This file lifts the order book off its hash map: on ids other than the reserved one
the code's book does what the same book does over a plain function from ids to
orders, and its probe loops stop.

The book over a function is the same record with the same operations on the sides.
Everything the later files say of the sides is proved on it and carried to the code
by the simulation at the end of this file.
-/

import OrderBookSketch.OrderBookType2
import OrderBookSketch.HashMapInvariant
import OrderBookSketch.Library.Run

namespace ObLib

open Containers Runs

namespace BookOver

/-- The book over a function from order ids to live orders. -/
abbrev SpecBook := BookOver (OrderId → Option Order)

/-! ### Messages on the book over a function -/

def specCreate : SpecBook :=
  { buy := OrderedMap.empty, sell := OrderedMap.empty, orders := fun _ => none }

/-- Enters an order in the index and on its side. -/
def specAdd (book : SpecBook) (order : Order) : SpecBook × Bool :=
  { book with orders := Function.update book.orders order.orderId (some order) }.addNewOrder order

def specProcessNew (book : SpecBook) (order : Order) : SpecBook × Except String Bool :=
  match book.orders order.orderId with
  | none => ((book.specAdd order).1, .ok (book.specAdd order).2)
  | some _ => (book, .error duplicateOrder)

def specProcessModify (book : SpecBook) (order : Order) : SpecBook × Except String Bool :=
  match book.orders order.orderId with
  | none => ((book.specAdd order).1, .ok (book.specAdd order).2)
  | some stored => ((book.modifyOrder order stored).1, .ok (book.modifyOrder order stored).2)

/-- Takes an order out of the index and off its side. -/
def specRemove (book : SpecBook) (stored : Order) (orderId : OrderId) : SpecBook × Bool :=
  { book with orders := Function.update book.orders orderId none }.cancelOrder stored

def specProcessCancel (book : SpecBook) (order : Order) : SpecBook × Except String Bool :=
  match book.orders order.orderId with
  | none => (book, .ok false)
  | some stored =>
    ((book.specRemove stored order.orderId).1, .ok (book.specRemove stored order.orderId).2)

def specProcessOrder (book : SpecBook) (order : Order) : SpecBook × Except String Bool :=
  match order.type with
  | 'N' => book.specProcessNew order
  | 'M' => book.specProcessModify order
  | 'X' => book.specProcessCancel order
  | _ => (book, .ok false)

/-- Drops an order the trade quantity exhausts; whether the index had the order. -/
def specFillOrder (book : SpecBook) (orderId : OrderId) (qty : Quantity) : SpecBook × Bool :=
  match book.orders orderId with
  | none => (book, false)
  | some resting =>
    if resting.qty ≤ qty then
      ({ book with orders := Function.update book.orders orderId none }, true)
    else (book, true)

/-- The buy leg of a trade. -/
def specBuyLeg (book : SpecBook) (trade : Trade) : SpecBook × Bool :=
  if trade.buyOrderId = 0 then (book, false)
  else if (book.specFillOrder trade.buyOrderId trade.qty).2 then
    (book.specFillOrder trade.buyOrderId trade.qty).1.doTrade true trade.price trade.qty
  else ((book.specFillOrder trade.buyOrderId trade.qty).1, false)

/-- The sell leg of a trade, which looks up the buy order. -/
def specSellLeg (book : SpecBook) (trade : Trade) (retVal : Bool) : SpecBook × Bool :=
  if trade.sellOrderId = 0 then (book, retVal)
  else if (book.specFillOrder trade.buyOrderId trade.qty).2 then
    if retVal then ((book.specFillOrder trade.buyOrderId trade.qty).1, true)
    else (book.specFillOrder trade.buyOrderId trade.qty).1.doTrade false trade.price trade.qty
  else ((book.specFillOrder trade.buyOrderId trade.qty).1, retVal)

def specProcessTrade (book : SpecBook) (trade : Trade) : SpecBook × Except String Bool :=
  let bought := book.specBuyLeg trade
  let sold := bought.1.specSellLeg trade bought.2
  (sold.1, .ok sold.2)

/-! ### The relation between the two books -/

/-- The code's book has the sides of the other, and its hash map the same live orders. -/
structure Indexes (book : OrderBookType2) (spec : SpecBook) : Prop where
  valid : book.orders.Valid hasher
  emptyKey : book.orders.emptyKey = emptyOrderId
  buy : book.buy = spec.buy
  sell : book.sell = spec.sell
  lookup : ∀ orderId, book.orders.lookup orderId = (spec.orders orderId).map some

variable {book : OrderBookType2} {spec : SpecBook}

theorem indexes_create {sizeHint : Nat} (created : create sizeHint = some book) :
    Indexes book specCreate := by
  unfold create at created
  cases made : HashMap.create (T := Option Order) sizeHint emptyOrderId with
  | none =>
    rw [made] at created
    cases created
  | some orders =>
    rw [made] at created
    cases created
    obtain ⟨valid, sameKey, lookup, -⟩ := HashMap.create_eq_some hasher made
    exact ⟨valid, sameKey, rfl, rfl, fun orderId => by rw [lookup]; rfl⟩

theorem Indexes.side_eq (indexes : Indexes book spec) (isBuy : Bool) :
    book.side isBuy = spec.side isBuy := by
  cases isBuy
  · exact indexes.sell
  · exact indexes.buy

theorem Indexes.setSide (indexes : Indexes book spec) (isBuy : Bool) (levels : Levels) :
    Indexes (book.setSide isBuy levels) (spec.setSide isBuy levels) := by
  cases isBuy
  · exact ⟨indexes.valid, indexes.emptyKey, indexes.buy, rfl, indexes.lookup⟩
  · exact ⟨indexes.valid, indexes.emptyKey, rfl, indexes.sell, indexes.lookup⟩

/-- Replacing both indices by ones that agree. -/
theorem Indexes.withOrders (indexes : Indexes book spec)
    {orders : HashMap OrderId (Option Order)} {index : OrderId → Option Order}
    (valid : orders.Valid hasher) (emptyKey : orders.emptyKey = book.orders.emptyKey)
    (lookup : ∀ orderId, orders.lookup orderId = (index orderId).map some) :
    Indexes { book with orders := orders } { spec with orders := index } :=
  ⟨valid, emptyKey.trans indexes.emptyKey, indexes.buy, indexes.sell, lookup⟩

/-! ### The operations on the sides are the same -/

theorem Indexes.doTrade (indexes : Indexes book spec) (isBuy : Bool) (price : Price)
    (qty : Quantity) :
    Indexes (book.doTrade isBuy price qty).1 (spec.doTrade isBuy price qty).1 ∧
      (book.doTrade isBuy price qty).2 = (spec.doTrade isBuy price qty).2 := by
  simp only [BookOver.doTrade, indexes.side_eq]
  split_ifs
  · exact ⟨indexes, rfl⟩
  · exact ⟨indexes.setSide .., rfl⟩

theorem Indexes.addNewOrder (indexes : Indexes book spec) (order : Order) :
    Indexes (book.addNewOrder order).1 (spec.addNewOrder order).1 ∧
      (book.addNewOrder order).2 = (spec.addNewOrder order).2 := by
  unfold BookOver.addNewOrder
  rw [indexes.side_eq]
  exact ⟨indexes.setSide .., rfl⟩

theorem Indexes.modifyOrder (indexes : Indexes book spec) (newOrder oldOrder : Order) :
    Indexes (book.modifyOrder newOrder oldOrder).1 (spec.modifyOrder newOrder oldOrder).1 ∧
      (book.modifyOrder newOrder oldOrder).2 = (spec.modifyOrder newOrder oldOrder).2 := by
  unfold BookOver.modifyOrder
  simp only [indexes.side_eq]
  have removed := indexes.setSide oldOrder.isBuy (reduce ((spec.side oldOrder.isBuy).insert
    (prio oldOrder.isBuy oldOrder.price) {}) (prio oldOrder.isBuy oldOrder.price) oldOrder.qty)
  split_ifs
  · rw [removed.side_eq]
    exact ⟨removed.setSide .., rfl⟩
  · exact ⟨indexes.setSide .., rfl⟩
  · exact ⟨indexes, rfl⟩

theorem Indexes.cancelOrder (indexes : Indexes book spec) (oldOrder : Order) :
    Indexes (book.cancelOrder oldOrder).1 (spec.cancelOrder oldOrder).1 ∧
      (book.cancelOrder oldOrder).2 = (spec.cancelOrder oldOrder).2 := by
  simp only [BookOver.cancelOrder, indexes.side_eq]
  split_ifs
  · exact ⟨indexes, rfl⟩
  · exact ⟨indexes.setSide .., rfl⟩

/-! ### The operations on the index -/

/-- Emplacing the id of no live order. -/
theorem Indexes.emplace_absent (indexes : Indexes book spec) {order : Order}
    (proper : order.orderId ≠ emptyOrderId) (absent : spec.orders order.orderId = none) :
    ∃ orders it, book.orders.emplace hasher order.orderId (some order) =
        some (orders, it, true) ∧ (orders.bucket it).2 = some order ∧
      Indexes { book with orders := orders }
        { spec with orders := Function.update spec.orders order.orderId (some order) } := by
  obtain ⟨⟨orders, it, inserted⟩, emplaced, ok⟩ :=
    HashMap.emplace_spec indexes.valid (some order) (indexes.emptyKey ▸ proper)
  have missing : book.orders.lookup order.orderId = none := by rw [indexes.lookup, absent]; rfl
  have fresh := ok.inserted
  have entry := ok.entry
  have lookup := ok.lookup
  simp only [missing] at fresh entry lookup
  rw [fresh] at emplaced
  refine ⟨orders, it, emplaced, by rw [entry]; rfl,
    indexes.withOrders ok.valid ok.emptyKey fun orderId => ?_⟩
  rw [lookup]
  by_cases same : orderId = order.orderId
  · rw [same, Function.update_self, Function.update_self]
    rfl
  · rw [Function.update_of_ne same, Function.update_of_ne same]
    exact indexes.lookup orderId

/-- Emplacing the id of a live order. -/
theorem Indexes.emplace_present (indexes : Indexes book spec) {order stored : Order}
    (proper : order.orderId ≠ emptyOrderId) (present : spec.orders order.orderId = some stored) :
    ∃ orders it, book.orders.emplace hasher order.orderId (some order) =
        some (orders, it, false) ∧ (orders.bucket it).2 = some stored ∧
      Indexes { book with orders := orders } spec := by
  obtain ⟨⟨orders, it, inserted⟩, emplaced, ok⟩ :=
    HashMap.emplace_spec indexes.valid (some order) (indexes.emptyKey ▸ proper)
  have found : book.orders.lookup order.orderId = some (some stored) := by
    rw [indexes.lookup, present]
    rfl
  have fresh := ok.inserted
  have entry := ok.entry
  have lookup := ok.lookup
  simp only [found] at fresh entry lookup
  rw [fresh] at emplaced
  refine ⟨orders, it, emplaced, by rw [entry]; rfl,
    indexes.withOrders ok.valid ok.emptyKey fun orderId => ?_⟩
  rw [lookup, Option.getD_some, ← found, Function.update_eq_self]
  exact indexes.lookup orderId

/-- Finding and erasing the id of a live order. -/
theorem Indexes.find_present (indexes : Indexes book spec) {orderId : OrderId} {stored : Order}
    (proper : orderId ≠ emptyOrderId) (present : spec.orders orderId = some stored) :
    ∃ it orders, book.orders.find hasher orderId = some it ∧ it ≠ book.orders.end ∧
      (book.orders.bucket it).2 = some stored ∧ book.orders.erase hasher it = some orders ∧
      Indexes { book with orders := orders }
        { spec with orders := Function.update spec.orders orderId none } := by
  have keyProper : orderId ≠ book.orders.emptyKey := indexes.emptyKey ▸ proper
  have found : book.orders.lookup orderId = some (some stored) := by
    rw [indexes.lookup, present]
    rfl
  obtain ⟨it, search, notEnd, bound, held⟩ := HashMap.find_of_present indexes.valid keyProper found
  obtain ⟨orders, erased, ok⟩ := HashMap.erase_spec indexes.valid bound held keyProper
  refine ⟨it, orders, search, notEnd, by rw [held], erased,
    indexes.withOrders ok.valid ok.emptyKey fun other => ?_⟩
  rw [ok.lookup]
  by_cases same : other = orderId
  · rw [same, Function.update_self, Function.update_self]
    rfl
  · rw [Function.update_of_ne same, Function.update_of_ne same]
    exact indexes.lookup other

theorem Indexes.find_absent (indexes : Indexes book spec) {orderId : OrderId}
    (proper : orderId ≠ emptyOrderId) (absent : spec.orders orderId = none) :
    book.orders.find hasher orderId = some book.orders.end :=
  HashMap.find_of_absent indexes.valid (indexes.emptyKey ▸ proper)
    (by rw [indexes.lookup, absent]; rfl)

theorem Indexes.fillOrder (indexes : Indexes book spec) {orderId : OrderId}
    (proper : orderId ≠ emptyOrderId) (qty : Quantity) :
    ∃ next, book.fillOrder orderId qty = some (next, (spec.specFillOrder orderId qty).2) ∧
      Indexes next (spec.specFillOrder orderId qty).1 := by
  unfold BookOver.fillOrder specFillOrder
  cases present : spec.orders orderId with
  | none =>
    refine ⟨book, ?_, indexes⟩
    simp [indexes.find_absent proper present]
  | some stored =>
    obtain ⟨it, orders, search, notEnd, held, erased, ok⟩ := indexes.find_present proper present
    by_cases spent : stored.qty ≤ qty
    · refine ⟨{ book with orders := orders }, ?_, ?_⟩
      · simp [search, notEnd, held, erased, spent]
      · simpa [spent] using ok
    · refine ⟨book, ?_, ?_⟩
      · simp [search, notEnd, held, spent]
      · simpa [spent] using indexes

/-! ### The simulation -/

theorem Indexes.processNew (indexes : Indexes book spec) {order : Order}
    (proper : order.orderId ≠ emptyOrderId) :
    ∃ next, book.processNew order = some (next, (spec.specProcessNew order).2) ∧
      Indexes next (spec.specProcessNew order).1 := by
  unfold BookOver.processNew specProcessNew
  cases present : spec.orders order.orderId with
  | none =>
    obtain ⟨orders, it, emplaced, -, ok⟩ := indexes.emplace_absent proper present
    obtain ⟨again, same⟩ := ok.addNewOrder order
    refine ⟨_, ?_, again⟩
    simp [emplaced, same, specAdd]
  | some stored =>
    obtain ⟨orders, it, emplaced, -, ok⟩ := indexes.emplace_present proper present
    refine ⟨_, ?_, ok⟩
    simp [emplaced]

theorem Indexes.processModify (indexes : Indexes book spec) {order : Order}
    (proper : order.orderId ≠ emptyOrderId) :
    ∃ next, book.processModify order = some (next, (spec.specProcessModify order).2) ∧
      Indexes next (spec.specProcessModify order).1 := by
  unfold BookOver.processModify specProcessModify
  cases present : spec.orders order.orderId with
  | none =>
    obtain ⟨orders, it, emplaced, held, ok⟩ := indexes.emplace_absent proper present
    obtain ⟨again, same⟩ := ok.addNewOrder order
    refine ⟨_, ?_, again⟩
    simp [emplaced, held, same, specAdd]
  | some stored =>
    obtain ⟨orders, it, emplaced, held, ok⟩ := indexes.emplace_present proper present
    obtain ⟨again, same⟩ := ok.modifyOrder order stored
    refine ⟨_, ?_, again⟩
    simp [emplaced, held, same]

theorem Indexes.processCancel (indexes : Indexes book spec) {order : Order}
    (proper : order.orderId ≠ emptyOrderId) :
    ∃ next, book.processCancel order = some (next, (spec.specProcessCancel order).2) ∧
      Indexes next (spec.specProcessCancel order).1 := by
  unfold BookOver.processCancel specProcessCancel
  cases present : spec.orders order.orderId with
  | none =>
    refine ⟨book, ?_, indexes⟩
    simp [indexes.find_absent proper present]
  | some stored =>
    obtain ⟨it, orders, search, notEnd, held, erased, ok⟩ := indexes.find_present proper present
    obtain ⟨again, same⟩ := ok.cancelOrder stored
    refine ⟨_, ?_, again⟩
    simp [search, notEnd, held, erased, same, specRemove]

/-- An order of another type does nothing. -/
theorem processOrder_other {order : Order} (notNew : ¬ order.type = 'N')
    (notModify : ¬ order.type = 'M') (notCancel : ¬ order.type = 'X') :
    book.processOrder order = some (book, .ok false) := by
  unfold BookOver.processOrder
  split <;> first | rfl | contradiction

theorem specProcessOrder_other {order : Order} (notNew : ¬ order.type = 'N')
    (notModify : ¬ order.type = 'M') (notCancel : ¬ order.type = 'X') :
    spec.specProcessOrder order = (spec, .ok false) := by
  unfold specProcessOrder
  split <;> first | rfl | contradiction

theorem Indexes.processOrder (indexes : Indexes book spec) {order : Order}
    (proper : order.orderId ≠ emptyOrderId) :
    ∃ next, book.processOrder order = some (next, (spec.specProcessOrder order).2) ∧
      Indexes next (spec.specProcessOrder order).1 := by
  unfold BookOver.processOrder
  split
  next new =>
    rw [specProcessOrder, new]
    exact indexes.processNew proper
  next modify =>
    rw [specProcessOrder, modify]
    exact indexes.processModify proper
  next cancel =>
    rw [specProcessOrder, cancel]
    exact indexes.processCancel proper
  next notNew notModify notCancel =>
    rw [specProcessOrder_other notNew notModify notCancel]
    exact ⟨book, rfl, indexes⟩

theorem Indexes.buyLeg (indexes : Indexes book spec) {trade : Trade}
    (proper : trade.buyOrderId ≠ emptyOrderId) :
    ∃ next, book.buyLeg trade = some (next, (spec.specBuyLeg trade).2) ∧
      Indexes next (spec.specBuyLeg trade).1 := by
  unfold BookOver.buyLeg specBuyLeg
  obtain ⟨filled, found, ok⟩ := indexes.fillOrder proper trade.qty
  obtain ⟨again, same⟩ := ok.doTrade true trade.price trade.qty
  split_ifs with absent live
  · exact ⟨book, rfl, indexes⟩
  · refine ⟨_, ?_, again⟩
    simp [found, live, ← same]
  · refine ⟨filled, ?_, ok⟩
    simp [found, live]

theorem Indexes.sellLeg (indexes : Indexes book spec) {trade : Trade}
    (proper : trade.buyOrderId ≠ emptyOrderId) (retVal : Bool) :
    ∃ next, book.sellLeg trade retVal = some (next, (spec.specSellLeg trade retVal).2) ∧
      Indexes next (spec.specSellLeg trade retVal).1 := by
  unfold BookOver.sellLeg specSellLeg
  obtain ⟨filled, found, ok⟩ := indexes.fillOrder proper trade.qty
  obtain ⟨again, same⟩ := ok.doTrade false trade.price trade.qty
  by_cases absent : trade.sellOrderId = 0
  · rw [if_pos absent, if_pos absent]
    exact ⟨book, rfl, indexes⟩
  rw [if_neg absent, if_neg absent]
  cases live : (spec.specFillOrder trade.buyOrderId trade.qty).2 with
  | false =>
    refine ⟨filled, ?_, ok⟩
    simp [found, live]
  | true =>
    cases retVal with
    | true =>
      refine ⟨filled, ?_, ok⟩
      simp [found, live]
    | false =>
      refine ⟨_, ?_, again⟩
      simp [found, live, ← same]

theorem Indexes.processTrade (indexes : Indexes book spec) {trade : Trade}
    (proper : trade.buyOrderId ≠ emptyOrderId) :
    ∃ next, book.processTrade trade = some (next, (spec.specProcessTrade trade).2) ∧
      Indexes next (spec.specProcessTrade trade).1 := by
  obtain ⟨bought, buys, ok⟩ := indexes.buyLeg proper
  obtain ⟨sold, sells, again⟩ := ok.sellLeg proper (spec.specBuyLeg trade).2
  refine ⟨sold, ?_, again⟩
  simp [BookOver.processTrade, specProcessTrade, buys, sells]

end BookOver

end ObLib
