/-
This file models OrderBookStore/src/OrderBookImproved.cpp, the order book that keeps
every order.

Each side is a multimap from prices to orders and a hash map from order ids to
iterators into it. The code handles the two sides by the same statements, once for
each; here they are one definition for a side. An iterator is the handle of its node;
`none` stands for a call that uses an iterator to an erased node. A call that throws
returns the book as it is at the throw, with the text of the exception.

The messages of a run are different objects, so an order that is changed in place is
changed in its node only. Quantities are `int32_t`, and those of orders and trades are not
negative, so that the difference of two is one as well; for others the code's subtraction
may have no result, and the exact difference stands here.
-/

import OrderBookSketch.Library.MultiMap
import OrderBookSketch.OrderBookType2

namespace ObLib

open Containers

/-- A multimap of orders by price, and the iterator of each order id. -/
structure OneSide (before : Price → Price → Prop) where
  map : MultiMap Price Order before
  hash : OrderId → Option Nat

namespace OneSide

variable {before : Price → Price → Prop}

def empty : OneSide before := ⟨.empty, fun _ => none⟩

/-! ### Orders -/

section Orders

variable [DecidableRel before] [IsStrictTotalOrder Price before]

/-- `case 'N'`: the order is in the multimap when the id is found to be there already. -/
def processNew (side : OneSide before) (order : Order) :
    Option (OneSide before × Except String Unit) :=
  let (map, it) := side.map.emplace order.price order
  match side.hash order.orderId with
  | none => some (⟨map, Function.update side.hash order.orderId (some it)⟩, .ok ())
  | some _ => some (⟨map, side.hash⟩, .error "Duplicate OrderId came in New Order.")

/-- `case 'M'`. -/
def processModify (side : OneSide before) (order : Order) :
    Option (OneSide before × Except String Unit) :=
  match side.hash order.orderId with
  | some it => do
    let orderFromMap ← side.map.find it
    if orderFromMap.price ≠ order.price then
      let map ← side.map.erase it
      let (map, it) := map.emplace order.price order
      return (⟨map, Function.update side.hash order.orderId (some it)⟩, .ok ())
    else
      let map := side.map.write it { orderFromMap with qty := order.qty }
      return (⟨map, side.hash⟩, .ok ())
  | none => side.processNew { order with type := 'N' }

end Orders

/-- `case 'X'`. -/
def processCancel (side : OneSide before) (order : Order) :
    Option (OneSide before × Except String Unit) :=
  match side.hash order.orderId with
  | some it => do
    let map ← side.map.erase it
    return (⟨map, Function.update side.hash order.orderId none⟩, .ok ())
  | none => some (side, .ok ())

/-- One leg of `processTrade`. -/
def processTrade (side : OneSide before) (orderId : OrderId) (qty : Quantity) :
    Option (OneSide before × Except String Unit) :=
  if orderId ≠ 0 then
    match side.hash orderId with
    | some it => do
      let orderFromMap ← side.map.find it
      let delta := orderFromMap.qty - qty
      if 0 < delta then
        return (⟨side.map.write it { orderFromMap with qty := delta }, side.hash⟩, .ok ())
      else if delta < 0 then
        return (side, .error (" OrderBookImproved::processTrade() - Trade comes for Quantity " ++
          "lesser than the Order qty."))
      else
        let map ← side.map.erase it
        return (⟨map, Function.update side.hash orderId none⟩, .ok ())
    | none => some (side, .ok ())
  else some (side, .ok ())

/-! ### Reading a side -/

section Listing

variable [DecidableRel before]

/-- The total and the number of the orders in an equal range. -/
def aggregate (nodes : List (Node Price Order)) : Quantity × Int :=
  nodes.foldl
    (fun (aggQuantity, orderCount) node => (asInt32 (aggQuantity + node.value.qty), orderCount + 1))
    (0, 0)

/-- The loop of `toString` from a node on, for the given number of turns. -/
def listingFrom (side : OneSide before) : Nat → List (Node Price Order) → List Level
  | 0, _ => []
  | _ + 1, [] => []
  | turns + 1, node :: _ =>
    let (aggQuantity, orderCount) := aggregate (side.map.equalRange node.key)
    { price := node.key, qty := aggQuantity, orderCount := orderCount } ::
      listingFrom side turns (side.map.upperBound node.key)

/-- The entries that `toString` writes for a side, at most ten. -/
def listing (side : OneSide before) : List Level := side.listingFrom 10 side.map.nodes

end Listing

end OneSide

/-- `OrderBookImproved`. -/
structure OrderBookImproved where
  bids : OneSide (· > ·)
  asks : OneSide (· < ·)

namespace OrderBookImproved

def empty : OrderBookImproved := ⟨.empty, .empty⟩

def onBids (book : OrderBookImproved)
    (result : Option (OneSide (· > ·) × Except String Unit)) :
    Option (OrderBookImproved × Except String Unit) :=
  result.map fun (bids, result) => ({ book with bids := bids }, result)

def onAsks (book : OrderBookImproved)
    (result : Option (OneSide (· < ·) × Except String Unit)) :
    Option (OrderBookImproved × Except String Unit) :=
  result.map fun (asks, result) => ({ book with asks := asks }, result)

def processOrder (book : OrderBookImproved) (order : Order) :
    Option (OrderBookImproved × Except String Unit) :=
  match order.type with
  | 'N' =>
    if order.isBuy then book.onBids (book.bids.processNew order)
    else book.onAsks (book.asks.processNew order)
  | 'M' =>
    if order.isBuy then book.onBids (book.bids.processModify order)
    else book.onAsks (book.asks.processModify order)
  | 'X' =>
    if order.isBuy then book.onBids (book.bids.processCancel order)
    else book.onAsks (book.asks.processCancel order)
  | _ => some (book, .ok ())

/-- The sell leg is reached when the buy leg does not throw. -/
def processTrade (book : OrderBookImproved) (trade : Trade) :
    Option (OrderBookImproved × Except String Unit) := do
  let (book, result) ← book.onBids (book.bids.processTrade trade.buyOrderId trade.qty)
  match result with
  | .error text => return (book, .error text)
  | .ok () => book.onAsks (book.asks.processTrade trade.sellOrderId trade.qty)

/-- The text that `toString` adds to its argument. -/
def toString (book : OrderBookImproved) : String :=
  (if 0 < book.bids.map.nodes.length then "\n Bids: " else "") ++
    listingText 0 book.bids.listing ++
    (if 0 < book.asks.map.nodes.length then "\n Sell: " else "") ++
    listingText 0 book.asks.listing

end OrderBookImproved

end ObLib
