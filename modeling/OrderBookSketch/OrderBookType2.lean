/-
This file models OrderBookStore/include/OrderBookType2.hpp, the order book that
keeps a running total for each price.

The two sides are flat maps from a priority to a level, ordered by `std::greater`;
the priority of a buy price is the price negated, so on both sides the best level is
the last entry. An index from order ids to orders stands beside them. A call returns
the book after it with the boolean of the code or with the text of the exception it
throws; `none` stands for a call that has no defined end: a probe loop that does not
stop, or a null order pointer that is read.

The totals of a level are `int64_t` in the code and exact integers here. So are the
difference of two quantities and the negated price, which leave an `int32_t` only where a
quantity is negative or the price is the least one.
-/

import OrderBookSketch.HashMap
import OrderBookSketch.Library.OrderedMap
import OrderBookSketch.Message
import Mathlib.Algebra.Order.Ring.Int

namespace ObLib

open Containers

/-- `OrderBookType2::Level`. -/
structure Level where
  price : Int := 0
  qty : Int := 0
  orderCount : Int := 0
deriving DecidableEq, Repr

/-- `Level::toString`. -/
def Level.text (level : Level) : String :=
  toString level.price ++ "|" ++ toString level.qty ++ "|" ++ toString level.orderCount

/-- What a book's `toString` writes for a side: its entries, each of them but a tenth followed
by a comma. -/
def listingText (count : Nat) : List Level → String
  | [] => ""
  | level :: levels =>
    level.text ++ (if count + 1 = 10 then "" else ", ") ++ listingText (count + 1) levels

/-- `flat_map<int64_t, Level, std::greater<int64_t>>`. -/
abbrev Levels := OrderedMap Int Level (· > ·)

/-- The two sides and an index of the orders. What is done to the sides does not depend on
what the index is. -/
structure BookOver (Index : Type) where
  buy : Levels
  sell : Levels
  orders : Index
deriving DecidableEq, Repr

/-- `OrderBookType2`: the index holds order pointers, `none` being the null pointer. -/
abbrev OrderBookType2 := BookOver (HashMap OrderId (Option Order))

/-- `BestPrice`. -/
structure BestPrice where
  bidqty : Int := 0
  bid : Int := 0
  ask : Int := 0
  askqty : Int := 0
deriving DecidableEq, Repr

namespace BookOver

/-! ### The index of orders -/

/-- `OrderBookType2::Hash`. -/
def hash (h : UInt64) : UInt64 :=
  let h := h ^^^ (h >>> 33)
  let h := h * 0xff51afd7ed558ccd
  let h := h ^^^ (h >>> 33)
  let h := h * 0xc4ceb9fe1a85ec53
  h ^^^ (h >>> 33)

/-- The hash of an order id, which is converted to `uint64_t`. -/
def hasher (orderId : OrderId) : Nat := (hash (UInt64.ofInt orderId)).toNat

/-- The empty key is `numeric_limits<uint64_t>::max()`, which is the order id -1. -/
def emptyOrderId : OrderId := -1

/-- `OrderBookType2(sh)`. -/
def create (sizeHint : Nat) : Option OrderBookType2 := do
  let orders ← HashMap.create sizeHint emptyOrderId
  return { buy := OrderedMap.empty, sell := OrderedMap.empty, orders := orders }

/-! ### Levels -/

/-- The priority of a price on a side. -/
def prio (isBuy : Bool) (price : Price) : Int := if isBuy then -price else price

section Sides

variable {Index : Type}

/-- `isBuy ? buy_ : sell_`. -/
def side (book : BookOver Index) (isBuy : Bool) : Levels :=
  if isBuy then book.buy else book.sell

def setSide (book : BookOver Index) (isBuy : Bool) (levels : Levels) : BookOver Index :=
  if isBuy then { book with buy := levels } else { book with sell := levels }

/-- `if (it->second.qty <= 0) side.erase(it)`. -/
def eraseSpent (levels : Levels) (it : Int) : Levels :=
  match levels.get it with
  | some level => if level.qty ≤ 0 then levels.erase it else levels
  | none => levels

/-- `it->second.qty -= qty; it->second.orderCount -= 1`, and the erasure of a spent level. -/
def reduce (levels : Levels) (it : Int) (qty : Quantity) : Levels :=
  eraseSpent (levels.modify it fun level =>
    { level with qty := level.qty - qty, orderCount := level.orderCount - 1 }) it

/-- `insert(std::make_pair(it, Level()))` and the addition of an order to the level. -/
def enter (levels : Levels) (it : Int) (price : Price) (qty : Quantity) : Levels :=
  (levels.insert it {}).modify it fun level =>
    { price := price, qty := level.qty + qty, orderCount := level.orderCount + 1 }

/-- `insert(std::make_pair(it, Level()))` and the addition of a change in quantity. -/
def adjust (levels : Levels) (it : Int) (delta : Quantity) : Levels :=
  eraseSpent ((levels.insert it {}).modify it fun level =>
    { level with qty := level.qty + delta }) it

/-- `it == side.begin()`, where an iterator to an erased entry is at the position it had. -/
def isBegin (levels : Levels) (it : Int) : Bool := levels.rank it == 0

def doTrade (book : BookOver Index) (isBuy : Bool) (price : Price) (qty : Quantity) :
    BookOver Index × Bool :=
  let levels := book.side isBuy
  let it := prio isBuy price
  if (levels.get it).isNone then (book, false)
  else
    let levels := reduce levels it qty
    (book.setSide isBuy levels, isBegin levels it)

def addNewOrder (book : BookOver Index) (order : Order) : BookOver Index × Bool :=
  let it := prio order.isBuy order.price
  let levels := enter (book.side order.isBuy) it order.price order.qty
  (book.setSide order.isBuy levels, isBegin levels it)

def modifyOrder (book : BookOver Index) (newOrder oldOrder : Order) : BookOver Index × Bool :=
  if newOrder.price ≠ oldOrder.price then
    let removeIt := prio oldOrder.isBuy oldOrder.price
    let levels := reduce ((book.side oldOrder.isBuy).insert removeIt {}) removeIt oldOrder.qty
    let viaErase := isBegin levels removeIt
    let book := book.setSide oldOrder.isBuy levels
    -- the new level is entered on the side of the old order, under the new order's priority
    let addIt := prio newOrder.isBuy newOrder.price
    let levels := enter (book.side oldOrder.isBuy) addIt newOrder.price newOrder.qty
    (book.setSide oldOrder.isBuy levels, isBegin levels addIt || viaErase)
  else if newOrder.qty ≠ oldOrder.qty then
    let it := prio oldOrder.isBuy oldOrder.price
    let levels := adjust (book.side oldOrder.isBuy) it (newOrder.qty - oldOrder.qty)
    (book.setSide oldOrder.isBuy levels, isBegin levels it)
  else (book, false)

def cancelOrder (book : BookOver Index) (oldOrder : Order) : BookOver Index × Bool :=
  let levels := book.side oldOrder.isBuy
  let it := prio oldOrder.isBuy oldOrder.price
  if (levels.get it).isNone then (book, false)
  else
    let levels := reduce levels it oldOrder.qty
    (book.setSide oldOrder.isBuy levels, isBegin levels it)

end Sides

/-! ### Messages -/

def duplicateOrder : String := " Duplicate OrderID comes in New Order."

/-- `case 'N'` of `processOrder`. -/
def processNew (book : OrderBookType2) (order : Order) :
    Option (OrderBookType2 × Except String Bool) := do
  let (orders, _, inserted) ← book.orders.emplace hasher order.orderId (some order)
  let book := { book with orders := orders }
  if inserted then
    let (book, bbo) := book.addNewOrder order
    return (book, .ok bbo)
  else return (book, .error duplicateOrder)

/-- `case 'M'` of `processOrder`. -/
def processModify (book : OrderBookType2) (order : Order) :
    Option (OrderBookType2 × Except String Bool) := do
  let (orders, it, inserted) ← book.orders.emplace hasher order.orderId (some order)
  let book := { book with orders := orders }
  let stored ← (orders.bucket it).2
  if inserted then
    let (book, bbo) := book.addNewOrder stored
    return (book, .ok bbo)
  else
    let (book, bbo) := book.modifyOrder order stored
    return (book, .ok bbo)

/-- `case 'X'` of `processOrder`. -/
def processCancel (book : OrderBookType2) (order : Order) :
    Option (OrderBookType2 × Except String Bool) := do
  let it ← book.orders.find hasher order.orderId
  if it = book.orders.end then return (book, .ok false)
  else
    let o ← (book.orders.bucket it).2
    let orders ← book.orders.erase hasher it
    let (book, bbo) := { book with orders := orders }.cancelOrder o
    return (book, .ok bbo)

def processOrder (book : OrderBookType2) (order : Order) :
    Option (OrderBookType2 × Except String Bool) :=
  match order.type with
  | 'N' => book.processNew order
  | 'M' => book.processModify order
  | 'X' => book.processCancel order
  | _ => some (book, .ok false)

/-- `_orders.find(id)`, and the erasure of an order the trade quantity exhausts; whether the
index had the order. -/
def fillOrder (book : OrderBookType2) (orderId : OrderId) (qty : Quantity) :
    Option (OrderBookType2 × Bool) := do
  let it ← book.orders.find hasher orderId
  if it = book.orders.end then return (book, false)
  else
    let resting ← (book.orders.bucket it).2
    if resting.qty ≤ qty then
      let orders ← book.orders.erase hasher it
      return ({ book with orders := orders }, true)
    else return (book, true)

/-- `if(buyOrderId != 0)` of `processTrade`: the book and `retVal` behind it. -/
def buyLeg (book : OrderBookType2) (trade : Trade) : Option (OrderBookType2 × Bool) :=
  if trade.buyOrderId = 0 then some (book, false)
  else do
    let (book, found) ← book.fillOrder trade.buyOrderId trade.qty
    if found then return book.doTrade true trade.price trade.qty
    else return (book, false)

/-- `if(sellOrderId != 0)` of `processTrade`. The source looks the buy order up here as well,
and its `retVal || doTrade(...)` skips the call when `retVal` is already true. -/
def sellLeg (book : OrderBookType2) (trade : Trade) (retVal : Bool) :
    Option (OrderBookType2 × Bool) :=
  if trade.sellOrderId = 0 then some (book, retVal)
  else do
    let (book, found) ← book.fillOrder trade.buyOrderId trade.qty
    if found then
      if retVal then return (book, true)
      else return book.doTrade false trade.price trade.qty
    else return (book, retVal || false)

def processTrade (book : OrderBookType2) (trade : Trade) :
    Option (OrderBookType2 × Except String Bool) := do
  let (book, retVal) ← book.buyLeg trade
  let (book, retVal) ← book.sellLeg trade retVal
  return (book, .ok retVal)

/-! ### Reading a book -/

/-- The entries that `toString` writes for a side: it goes through the levels backwards and
stops at the tenth. -/
def listing (levels : Levels) : List Level := (levels.entries.reverse.map Prod.snd).take 10

/-- The text that `toString` adds to its argument. -/
def toString (book : OrderBookType2) : String :=
  (if 0 < book.buy.size then "\n Buy: " else "") ++ listingText 0 (listing book.buy) ++
    (if 0 < book.sell.size then "\n Sell: " else "") ++ listingText 0 (listing book.sell)

/-- `GetBestPrice`, which reads the last entry of each side. -/
def getBestPrice (book : OrderBookType2) : BestPrice :=
  let best : BestPrice := {}
  let best := match book.buy.entries.getLast? with
    | some (_, level) => { best with bidqty := level.qty, bid := level.price }
    | none => best
  match book.sell.entries.getLast? with
  | some (_, level) => { best with askqty := level.qty, ask := level.price }
  | none => best

end BookOver

end ObLib
