/-
This file models OrderBookStore/include/OrderBook.hpp and OrderStateKeeper.hpp, the
order book that keeps the state of every order and tells a depth about it.

The book is the same over any depth that answers the calls of `Depth`; the code's own
is `Depth<10>`. The maps from order ids are the keepers, each under the id of its
order. A call that throws returns the book as it is at the throw, with the text of the
exception. `none` stands for a call whose behaviour is undefined: `cancel` of a sell
order erases an iterator of the sell map from the buy map.
-/

import OrderBookSketch.Depth
import OrderBookSketch.Message
import OrderBookSketch.Library.Ledger

namespace ObLib

open Ledgers

/-- An order with its open quantity and its current price. -/
structure OrderStateKeeper where
  order : Order
  openQty : Quantity
  price : Price
deriving DecidableEq, Repr

namespace OrderStateKeeper

def create (order : Order) : OrderStateKeeper := ⟨order, order.qty, order.price⟩

def orderId (keeper : OrderStateKeeper) : OrderId := keeper.order.orderId

def setPrice (keeper : OrderStateKeeper) (price : Price) : OrderStateKeeper :=
  { keeper with price := price }

def deductedTooMuch : String := "Replaced deducted Qty is greater than the Order's open Qty."

def changeQty (keeper : OrderStateKeeper) (delta : Quantity) : Except String OrderStateKeeper :=
  if delta < 0 ∧ keeper.openQty < asInt32 |delta| then .error deductedTooMuch
  else .ok { keeper with openQty := asInt32 (keeper.openQty + delta) }

/-- The source makes an exception for a quantity above the open one but does not throw it. -/
def fill (keeper : OrderStateKeeper) (qty : Quantity) : OrderStateKeeper :=
  { keeper with openQty := asInt32 (keeper.openQty - qty) }

end OrderStateKeeper

/-- An order book over a depth. -/
structure OrderBook (DepthState : Type) where
  bids : IdMap OrderStateKeeper.orderId := .empty
  asks : IdMap OrderStateKeeper.orderId := .empty
  transactionId : Int := 0
  depth : DepthState

namespace OrderBook

variable {DepthState : Type}
  (call : DepthState → Depth.Call → Option (DepthState × Except String Bool))

/-- The rest of a call after one to the depth, unless that throws. -/
def onDepth (book : OrderBook DepthState) (request : Depth.Call)
    (rest : OrderBook DepthState → Option (OrderBook DepthState × Except String Unit)) :
    Option (OrderBook DepthState × Except String Unit) := do
  let (depth, result) ← call book.depth request
  let book := { book with depth := depth }
  match result with
  | .error text => return (book, .error text)
  | .ok _ => rest book

def noQty : String := "New Order can not have 0 Qty."

def addNew (book : OrderBook DepthState) (order : Order) :
    Option (OrderBook DepthState × Except String Unit) :=
  let book := { book with transactionId := book.transactionId + 1 }
  if order.qty = 0 then some (book, .error noQty)
  else
    let osk := OrderStateKeeper.create order
    let book :=
      if order.isBuy then { book with bids := book.bids.insert osk }
      else { book with asks := book.asks.insert osk }
    book.onDepth call (.addOrder order.price order.qty order.isBuy) fun book => some (book, .ok ())

def cancel (book : OrderBook DepthState) (order : Order) :
    Option (OrderBook DepthState × Except String Unit) :=
  let book := { book with transactionId := book.transactionId + 1 }
  if order.isBuy then
    match book.bids.find order.orderId with
    | some it =>
      let origOrder := it.order
      book.onDepth call (.closeOrder origOrder.price origOrder.qty origOrder.isBuy) fun book =>
        some ({ book with bids := book.bids.erase it.orderId }, .ok ())
    | none => some (book, .ok ())
  else
    match book.asks.find order.orderId with
    | some it =>
      let origOrder := it.order
      book.onDepth call (.closeOrder origOrder.price origOrder.qty origOrder.isBuy) fun _ => none
    | none => some (book, .ok ())

/-- What `replace` does to the kept order, after the depth. -/
def keep (it : OrderStateKeeper) (order : Order)
    (write : OrderStateKeeper → OrderBook DepthState) (unchanged : OrderBook DepthState) :
    OrderBook DepthState × Except String Unit :=
  let delta := asInt32 (it.order.qty - order.qty)
  let noChangeInPrice := order.price = it.order.price
  match it.changeQty delta with
  | .error text => (unchanged, .error text)
  | .ok it => (write (if ¬ noChangeInPrice then it.setPrice order.price else it), .ok ())

def replace (book : OrderBook DepthState) (order : Order) :
    Option (OrderBook DepthState × Except String Unit) :=
  let book := { book with transactionId := book.transactionId + 1 }
  if order.isBuy then
    match book.bids.find order.orderId with
    | some it =>
      book.onDepth call
        (.replaceOrder it.price order.price it.openQty order.qty order.isBuy) fun book =>
          some (keep it order (fun it => { book with bids := book.bids.write it }) book)
    | none => book.addNew call order
  else
    match book.asks.find order.orderId with
    | some it =>
      let delta := asInt32 (it.order.qty - order.qty)
      let noChangeInPrice := order.price = it.order.price
      let request :=
        if noChangeInPrice then .changeQtyOrder order.price delta order.isBuy
        else .replaceOrder it.price order.price it.openQty order.qty order.isBuy
      book.onDepth call request fun book =>
        some (keep it order (fun it => { book with asks := book.asks.write it }) book)
    | none => book.addNew call order

/-- A request of the feed. -/
inductive Request where
  | addNew (order : Order)
  | replace (order : Order)
  | cancel (order : Order)
deriving DecidableEq, Repr

def process (book : OrderBook DepthState) :
    Request → Option (OrderBook DepthState × Except String Unit)
  | .addNew order => book.addNew call order
  | .replace order => book.replace call order
  | .cancel order => book.cancel call order

def side (book : OrderBook DepthState) (isBuy : Bool) : IdMap OrderStateKeeper.orderId :=
  if isBuy then book.bids else book.asks

end OrderBook

end ObLib
