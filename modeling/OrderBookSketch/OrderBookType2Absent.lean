/-
This file proves when an order book ignores a message that names no live order: a
cancel, or a trade of two orders, that its index does not hold.

The index reserves one id, and a search for that id stops at the first empty bucket as
if it were the entry. The code then reads an order pointer out of a bucket that holds no
order: null, or the pointer that an erasure left there.
-/

import OrderBookSketch.OrderBookType2Run

namespace ObLib

open Containers Runs

namespace BookOver

/-! ### The order pointers a call reads -/

/-- The bucket that `it->second` reads after `_orders.find(id)`, unless `it` is the end. -/
def readAt (book : OrderBookType2) (orderId : OrderId) : List (OrderId × Option Order) :=
  match book.orders.find hasher orderId with
  | some it => if it = book.orders.end then [] else [book.orders.bucket it]
  | none => []

/-- The buckets whose order pointer a cancel or a trade reads. The sell leg of a trade looks the
buy order up as well. -/
def ordersRead (book : OrderBookType2) : Message → List (OrderId × Option Order)
  | .ofOrder order => if order.type = 'X' then book.readAt order.orderId else []
  | .ofTrade trade =>
    (if trade.buyOrderId = 0 then [] else book.readAt trade.buyOrderId) ++
      (if trade.sellOrderId = 0 then []
      else
        match book.buyLeg trade with
        | some (bought, _) => bought.readAt trade.buyOrderId
        | none => [])

/-! ### Messages without a live order -/

/-- A cancel, or a trade, of orders that are not live. -/
def NoneLive (book : OrderBookType2) : Message → Prop
  | .ofOrder order => order.type = 'X' ∧ book.contents.orders order.orderId = none
  | .ofTrade trade =>
    book.contents.orders trade.buyOrderId = none ∧ book.contents.orders trade.sellOrderId = none

/-- The call returns false, leaves the sides and the index as they are, and reads no order pointer
out of a bucket that holds no order. -/
def Ignores (book : OrderBookType2) (message : Message) : Prop :=
  book.process message = some (book, .ok false) ∧
    ∀ entry ∈ book.ordersRead message, entry.1 ≠ emptyOrderId

/-- The call looks up or enters the reserved id. -/
def UsesReserved : Message → Prop
  | .ofOrder order =>
    (order.type = 'N' ∨ order.type = 'M' ∨ order.type = 'X') ∧ order.orderId = emptyOrderId
  | .ofTrade trade => trade.buyOrderId = emptyOrderId

instance : DecidablePred UsesReserved
  | .ofOrder order => inferInstanceAs (Decidable ((order.type = 'N' ∨ _) ∧ _))
  | .ofTrade trade => inferInstanceAs (Decidable (trade.buyOrderId = _))

variable {book : OrderBookType2} {spec : SpecBook} {orderId : OrderId}

/-- An id that is not live is not found. -/
theorem Indexes.readAt_absent (indexes : Indexes book spec) (proper : orderId ≠ emptyOrderId)
    (absent : spec.orders orderId = none) : book.readAt orderId = [] := by
  rw [readAt, indexes.find_absent proper absent]
  exact if_pos rfl

/-- The reserved id is found in a bucket that holds no order. -/
theorem Indexes.readAt_reserved (indexes : Indexes book spec) :
    ∃ entry ∈ book.readAt emptyOrderId, entry.1 = emptyOrderId := by
  obtain ⟨it, search, bound, held⟩ := HashMap.find_emptyKey indexes.valid
  rw [indexes.emptyKey] at search held
  refine ⟨book.orders.bucket it, ?_, held⟩
  have entry : book.readAt emptyOrderId = [book.orders.bucket it] := by
    rw [readAt, search]
    exact if_neg (Nat.ne_of_lt bound)
  rw [entry]
  exact List.mem_singleton_self _

/-- A leg of a trade that names an order that is not live changes nothing. -/
theorem Indexes.fillOrder_absent (indexes : Indexes book spec) (proper : orderId ≠ emptyOrderId)
    (absent : spec.orders orderId = none) (qty : Quantity) :
    book.fillOrder orderId qty = some (book, false) := by
  rw [BookOver.fillOrder, indexes.find_absent proper absent]
  exact if_pos rfl

theorem Indexes.buyLeg_absent (indexes : Indexes book spec) {trade : Trade}
    (proper : trade.buyOrderId ≠ emptyOrderId) (absent : spec.orders trade.buyOrderId = none) :
    book.buyLeg trade = some (book, false) := by
  rw [BookOver.buyLeg, indexes.fillOrder_absent proper absent]
  exact ite_self _

theorem Indexes.sellLeg_absent (indexes : Indexes book spec) {trade : Trade}
    (proper : trade.buyOrderId ≠ emptyOrderId) (absent : spec.orders trade.buyOrderId = none) :
    book.sellLeg trade false = some (book, false) := by
  rw [BookOver.sellLeg, indexes.fillOrder_absent proper absent]
  exact ite_self _

theorem Indexes.ignores_cancel_iff (indexes : Indexes book spec) {order : Order}
    (cancel : order.type = 'X') (absent : spec.orders order.orderId = none) :
    Ignores book (.ofOrder order) ↔ ¬ UsesReserved (.ofOrder order) := by
  have read : book.ordersRead (.ofOrder order) = book.readAt order.orderId := if_pos cancel
  have uses : UsesReserved (.ofOrder order) ↔ order.orderId = emptyOrderId :=
    and_iff_right (.inr (.inr cancel))
  rw [uses]
  constructor
  · rintro ⟨-, fine⟩ reserved
    obtain ⟨entry, member, held⟩ := indexes.readAt_reserved
    exact fine entry (read ▸ reserved ▸ member) held
  · intro proper
    refine ⟨?_, ?_⟩
    · show book.processOrder order = _
      unfold BookOver.processOrder BookOver.processCancel
      rw [cancel, indexes.find_absent proper absent]
      exact if_pos rfl
    · rw [read, indexes.readAt_absent proper absent]
      exact nofun

theorem Indexes.ignores_trade_iff (indexes : Indexes book spec) {trade : Trade}
    (absent : spec.orders trade.buyOrderId = none) :
    Ignores book (.ofTrade trade) ↔ ¬ UsesReserved (.ofTrade trade) := by
  constructor
  · rintro ⟨-, fine⟩ reserved
    change trade.buyOrderId = emptyOrderId at reserved
    obtain ⟨entry, member, held⟩ := indexes.readAt_reserved
    have named : trade.buyOrderId ≠ 0 := by
      rw [reserved]
      decide
    refine fine entry (List.mem_append_left _ ?_) held
    rw [if_neg named, reserved]
    exact member
  · intro proper
    refine ⟨?_, fun entry member => ?_⟩
    · show book.processTrade trade = _
      rw [BookOver.processTrade, indexes.buyLeg_absent proper absent]
      show (book.sellLeg trade false).bind (fun result => some (result.1, Except.ok result.2)) = _
      rw [indexes.sellLeg_absent proper absent]
      rfl
    · have nothing : book.ordersRead (.ofTrade trade) = [] := by
        simp only [ordersRead, indexes.buyLeg_absent proper absent,
          indexes.readAt_absent proper absent, ite_self, List.append_nil]
      rw [nothing] at member
      cases member

theorem Indexes.ignores_iff (indexes : Indexes book spec) {message : Message}
    (noneLive : NoneLive book message) : Ignores book message ↔ ¬ UsesReserved message := by
  rw [← indexes.contents_eq] at indexes
  cases message with
  | ofOrder order => exact indexes.ignores_cancel_iff noneLive.1 noneLive.2
  | ofTrade trade => exact indexes.ignores_trade_iff noneLive.1

/-! ### Every run -/

/-- The index of a book and its function of live orders agree after a message that does not use
the reserved id. -/
theorem process_simulates_unreserved :
    Simulates process specProcess Indexes fun _ message => ¬ UsesReserved message := by
  intro book spec message indexes unused
  cases message with
  | ofTrade trade => exact indexes.processTrade unused
  | ofOrder order =>
    by_cases proper : order.orderId = emptyOrderId
    · -- an order of another type is not looked up
      have other : ¬ (order.type = 'N' ∨ order.type = 'M' ∨ order.type = 'X') := fun type =>
        unused ⟨type, proper⟩
      obtain ⟨notNew, notModify, notCancel⟩ := not_or.mp other |>.imp_right not_or.mp
      refine ⟨book, ?_, ?_⟩
      · show book.processOrder order = some (book, (spec.specProcessOrder order).2)
        rw [processOrder_other notNew notModify notCancel,
          specProcessOrder_other notNew notModify notCancel]
      · show Indexes book (spec.specProcessOrder order).1
        rw [specProcessOrder_other notNew notModify notCancel]
        exact indexes
    · exact indexes.processOrder proper

/-- In the book that messages without the reserved id lead to, a message that names no live order is
ignored exactly when it does not look the reserved id up. -/
theorem none_live_ignored_iff {sizeHint : Nat} (created : create sizeHint = some book)
    (messages : List Message) (unused : ∀ message ∈ messages, ¬ UsesReserved message) :
    ∃ last results, run process book messages = some (last, results) ∧
      ∀ message, NoneLive last message → (Ignores last message ↔ ¬ UsesReserved message) := by
  obtain ⟨last, runs, indexes⟩ := run_simulates process_simulates_unreserved messages book
    specCreate (indexes_create created) (along_of_forall unused specCreate)
  exact ⟨last, _, runs, fun message noneLive => indexes.ignores_iff noneLive⟩

/-- An order to buy 5 at 10. -/
def buyOrder (type : Char) (orderId : OrderId) : Message :=
  .ofOrder { type := type, orderId := orderId, orderType := 'B', price := 10, qty := 5 }

/-- The cancel of an order that came and went is ignored. -/
theorem none_live_ignored_after_cancel :
    ∃ book last results, create 2 = some book ∧
      run process book [buyOrder 'N' 2, buyOrder 'X' 2, buyOrder 'N' 3] = some (last, results) ∧
        Ignores last (buyOrder 'X' 2) := by
  have created : create 2 = some ⟨.empty, .empty, .empty 2 emptyOrderId⟩ := rfl
  obtain ⟨last, results, runs, ignored⟩ := none_live_ignored_iff created
    [buyOrder 'N' 2, buyOrder 'X' 2, buyOrder 'N' 3] (by decide)
  refine ⟨_, last, results, created, runs, (ignored _ ?_).mpr (by decide)⟩
  cases runs
  exact ⟨rfl, rfl⟩

/-- The reserved id: on a fresh book its cancel reads a null pointer; after an order was erased its
cancel reads the pointer that is left of it, and takes its quantity from the level of another order. -/
theorem reserved_not_ignored :
    (∃ book, create 2 = some book ∧ NoneLive book (buyOrder 'X' (-1)) ∧
      book.process (buyOrder 'X' (-1)) = none) ∧
    ∃ book last results next, create 2 = some book ∧
      run process book [buyOrder 'N' 2, buyOrder 'X' 2, buyOrder 'N' 3] = some (last, results) ∧
      NoneLive last (buyOrder 'X' (-1)) ∧ ¬ Ignores last (buyOrder 'X' (-1)) ∧
      last.process (buyOrder 'X' (-1)) = some (next, .ok true) ∧
      last.buy.size = 1 ∧ next.buy.size = 0 := by
  refine ⟨⟨_, rfl, ⟨rfl, rfl⟩, rfl⟩, _, _, _, _, rfl, rfl, ⟨rfl, rfl⟩, ?_, rfl, rfl, rfl⟩
  rintro ⟨returns, -⟩
  cases returns

end BookOver

end ObLib
