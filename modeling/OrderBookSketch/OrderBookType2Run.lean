/-
This file is the order book over runs of messages: the books that sequences of orders
and trades lead to, and what such a book holds, read off its hash map.

A message that makes the code throw leaves the book behind the exception and the run
goes on, as it does for a caller that swallows it.
-/

import OrderBookSketch.OrderBookType2Index

namespace ObLib

open Containers Runs

namespace BookOver

/-- The message names no order by the reserved id. -/
def Proper : Message → Prop
  | .ofOrder order => order.orderId ≠ emptyOrderId
  | .ofTrade trade => trade.buyOrderId ≠ emptyOrderId ∧ trade.sellOrderId ≠ emptyOrderId

/-- `processOrder` or `processTrade`. -/
def process (book : OrderBookType2) : Message → Option (OrderBookType2 × Except String Bool)
  | .ofOrder order => book.processOrder order
  | .ofTrade trade => book.processTrade trade

def specProcess (book : SpecBook) : Message → SpecBook × Except String Bool
  | .ofOrder order => book.specProcessOrder order
  | .ofTrade trade => book.specProcessTrade trade

/-- The sides of a book and the orders its index holds. -/
def contents (book : OrderBookType2) : SpecBook :=
  { buy := book.buy, sell := book.sell, orders := fun orderId => (book.orders.lookup orderId).join }

variable {book : OrderBookType2} {spec : SpecBook}

theorem process_simulates :
    Simulates process specProcess Indexes fun _ message => Proper message := by
  intro book spec message indexes proper
  cases message with
  | ofOrder order => exact indexes.processOrder proper
  | ofTrade trade => exact indexes.processTrade proper.1

theorem Indexes.contents_eq (indexes : Indexes book spec) : book.contents = spec := by
  have orders : (fun orderId => (book.orders.lookup orderId).join) = spec.orders := by
    funext orderId
    rw [indexes.lookup]
    cases spec.orders orderId <;> rfl
  rw [contents, indexes.buy, indexes.sell, orders]

theorem exists_create {sizeHint : Nat} (small : sizeHint ≤ 2 ^ 63) :
    ∃ book, create sizeHint = some book := by
  obtain ⟨exponent, created⟩ := HashMap.create_spec (T := Option Order) small emptyOrderId
  exact ⟨_, by rw [create, created]; rfl⟩

/-- The books that messages without the reserved id lead to. -/
inductive Reachable : OrderBookType2 → Prop where
  | create {sizeHint : Nat} {book : OrderBookType2} (created : create sizeHint = some book) :
      Reachable book
  | process {book next : OrderBookType2} {message : Message} {result : Except String Bool}
      (reachable : Reachable book) (proper : Proper message)
      (returns : book.process message = some (next, result)) : Reachable next

/-- The probe loops of a reachable book stop, and its index holds what its messages put there. -/
theorem Reachable.indexes (reachable : Reachable book) : Indexes book book.contents := by
  induction reachable with
  | create created =>
    have start := indexes_create created
    rw [start.contents_eq]
    exact start
  | process reachable proper returns inductionHypothesis =>
    obtain ⟨next, returned, again⟩ := process_simulates _ _ _ inductionHypothesis proper
    obtain ⟨rfl, -⟩ := returns_unique returned returns
    rw [again.contents_eq]
    exact again

/-- A reachable book answers every message, and holds afterwards what the message makes of
what it held. -/
theorem Reachable.process_returns (reachable : Reachable book) {message : Message}
    (proper : Proper message) :
    ∃ next, book.process message = some (next, (book.contents.specProcess message).2) ∧
      Reachable next ∧ next.contents = (book.contents.specProcess message).1 := by
  obtain ⟨next, returns, again⟩ := process_simulates _ _ _ reachable.indexes proper
  exact ⟨next, returns, .process reachable proper returns, again.contents_eq⟩

end BookOver

end ObLib
