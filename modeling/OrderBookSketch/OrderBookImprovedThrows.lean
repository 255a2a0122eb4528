/-
This file proves when a call that throws leaves the order book that keeps every order as
it was.

`case 'N'` puts the order into the multimap before it looks for its id in the hash map,
so a duplicate is left there without an iterator to it. A trade handles its buy leg
before its sell leg can throw.
-/

import OrderBookSketch.OrderBookImprovedReference

namespace ObLib

open Containers Runs Ledgers

namespace OneSide

variable {before : Price → Price → Prop}

/-- The order of an id. -/
def resting (side : OneSide before) (orderId : OrderId) : Option Order :=
  (side.hash orderId).bind side.map.find

/-- A leg of a trade throws: it names an order with a smaller quantity. -/
def Refuses (side : OneSide before) (orderId : OrderId) (qty : Quantity) : Prop :=
  orderId ≠ 0 ∧ ∃ order ∈ side.resting orderId, order.qty < qty

/-- A leg of a trade that does not throw changes nothing: it names no order, or takes nothing of
one. -/
def Untouched (side : OneSide before) (orderId : OrderId) (qty : Quantity) : Prop :=
  orderId = 0 ∨ side.hash orderId = none ∨ qty = 0 ∧ ∃ order ∈ side.resting orderId, 0 < order.qty

variable {side : OneSide before}

/-! ### A leg of a trade -/

/-- The order of a known id, where its iterator points. -/
theorem resting_eq {node : Node Price Order} (member : node ∈ side.map.nodes)
    (found : side.hash node.value.orderId = some node.handle) :
    side.resting node.value.orderId = some node.value := by
  rw [resting, found]
  exact MultiMap.find_eq_some member

theorem refuses_iff {node : Node Price Order} (member : node ∈ side.map.nodes)
    (found : side.hash node.value.orderId = some node.handle) (named : node.value.orderId ≠ 0)
    (qty : Quantity) : side.Refuses node.value.orderId qty ↔ node.value.qty < qty := by
  rw [Refuses, and_iff_right named, resting_eq member found]
  exact ⟨fun ⟨_, same, less⟩ => Option.some.inj same ▸ less, fun less => ⟨_, rfl, less⟩⟩

theorem untouched_iff {node : Node Price Order} (member : node ∈ side.map.nodes)
    (found : side.hash node.value.orderId = some node.handle) (named : node.value.orderId ≠ 0)
    (qty : Quantity) :
    side.Untouched node.value.orderId qty ↔ qty = 0 ∧ 0 < node.value.qty := by
  rw [Untouched, found, resting_eq member found, or_iff_right named, or_iff_right nofun]
  refine and_congr_right fun _ => ?_
  exact ⟨fun ⟨_, same, more⟩ => Option.some.inj same ▸ more, fun more => ⟨_, rfl, more⟩⟩

/-- Taking a quantity off an order in its node changes nothing when the quantity is 0. -/
theorem written_eq_iff {node : Node Price Order} (member : node ∈ side.map.nodes)
    (qty : Quantity) :
    (⟨side.map.write node.handle { node.value with qty := node.value.qty - qty }, side.hash⟩ :
      OneSide before) = side ↔ qty = 0 := by
  constructor
  · intro same
    have written : MultiMap.find _ node.handle = some _ :=
      MultiMap.find_write member { node.value with qty := node.value.qty - qty }
    have kept := (congrArg (fun side => side.map.find node.handle) same).symm.trans written
    have equal := congrArg Order.qty
      (Option.some.inj ((MultiMap.find_eq_some member).symm.trans kept))
    exact sub_eq_self.mp equal.symm
  · intro zero
    have value : { node.value with qty := node.value.qty - qty } = node.value := by
      rw [zero, Int.sub_zero]
    rw [value, MultiMap.write_self member]

/-- Dropping the id of an order that is there changes the side. -/
theorem dropped_ne {orderId : OrderId} {it : Nat} (found : side.hash orderId = some it)
    (map : MultiMap Price Order before) :
    (⟨map, Function.update side.hash orderId none⟩ : OneSide before) ≠ side := by
  intro same
  have gone : Function.update side.hash orderId none orderId = side.hash orderId :=
    congrFun (congrArg OneSide.hash same) orderId
  rw [Function.update_self, found] at gone
  cases gone

/-- A leg throws and changes nothing, or does not throw and changes nothing exactly when it is
untouched. -/
theorem processTrade_kept (points : Points side.map.nodes side.hash) (orderId : OrderId)
    (qty : Quantity) :
    (side.Refuses orderId qty ∧ ∃ text, side.processTrade orderId qty = some (side, .error text)) ∨
      (¬ side.Refuses orderId qty ∧ ∃ next, side.processTrade orderId qty = some (next, .ok ()) ∧
        (next = side ↔ side.Untouched orderId qty)) := by
  rcases processTrade_cases points orderId qty with
    ⟨ignored, returns⟩ | ⟨node, member, rfl, named, found, next, result, returns, fills⟩
  · refine .inr ⟨fun ⟨named, order, here, _⟩ => ?_, side, returns,
      iff_of_true rfl (ignored.imp_right .inl)⟩
    rw [resting, ignored.resolve_left named] at here
    cases here
  · rw [refuses_iff member found named, untouched_iff member found named]
    cases fills with
    | part less =>
      exact .inr ⟨Int.not_lt.mpr (Int.le_of_lt less), _, returns,
        (written_eq_iff member qty).trans ⟨fun zero => ⟨zero, zero ▸ less⟩, And.left⟩⟩
    | exceeds more text => exact .inl ⟨more, text, returns⟩
    | whole same erased fresh perm =>
      refine .inr ⟨fun less => Int.lt_irrefl _ (same ▸ less), _, returns,
        iff_of_false (dropped_ne found erased) fun ⟨zero, positive⟩ => ?_⟩
      rw [same, zero] at positive
      exact Int.lt_irrefl 0 positive

/-! ### Orders -/

/-- A call on a side returns, and leaves the side as it was when it throws exactly under the
condition. -/
def KeptWhen (side : OneSide before) (call : Option (OneSide before × Except String Unit))
    (condition : Prop) : Prop :=
  ∃ next result, call = some (next, result) ∧
    ((∀ text, result = .error text → next = side) ↔ condition)

theorem keptWhen_ok {call : Option (OneSide before × Except String Unit)}
    {next : OneSide before} (returns : call = some (next, .ok ())) {condition : Prop}
    (holds : condition) : KeptWhen side call condition :=
  ⟨next, .ok (), returns, iff_of_true nofun holds⟩

theorem processCancel_kept (points : Points side.map.nodes side.hash) (order : Order) :
    KeptWhen side (side.processCancel order) True := by
  rcases processCancel_cases points order with ⟨-, returns⟩ | ⟨node, -, -, erased, -, -, returns⟩
  · exact keptWhen_ok returns trivial
  · exact keptWhen_ok returns trivial

variable [DecidableRel before] [IsStrictTotalOrder Price before]

/-- A new order with an id that is there is in the multimap when the call throws. -/
theorem processNew_kept (side : OneSide before) (order : Order) :
    KeptWhen side (side.processNew order) (side.hash order.orderId = none) := by
  unfold processNew
  cases found : side.hash order.orderId with
  | none => exact keptWhen_ok rfl rfl
  | some it =>
    refine ⟨_, _, rfl, iff_of_false (fun kept => ?_) nofun⟩
    have same := congrArg (fun side => side.map.nodes.length) (kept _ rfl)
    have length := (MultiMap.emplace_perm side.map order.price order).length_eq
    rw [List.length_cons] at length
    exact absurd (length.symm.trans same) (Nat.succ_ne_self _)

theorem processModify_kept (points : Points side.map.nodes side.hash) (order : Order) :
    KeptWhen side (side.processModify order) True := by
  rcases processModify_cases points order with
    ⟨absent, asNew⟩ | ⟨node, -, -, ⟨-, erased, -, -, returns⟩ | ⟨-, returns⟩⟩
  · obtain ⟨next, result, returns, kept⟩ := processNew_kept side { order with type := 'N' }
    exact ⟨next, result, asNew.trans returns, iff_of_true (kept.mpr absent) trivial⟩
  · exact keptWhen_ok returns trivial
  · exact keptWhen_ok returns trivial

end OneSide

/-! ### The book -/

namespace OrderBookImproved

open OneSide

/-- A call that throws leaves the book as it was. -/
def KeptOnThrow (book : OrderBookImproved) (_ : Message) (result : Except String Unit)
    (next : OrderBookImproved) : Prop :=
  ∀ text, result = .error text → next = book

/-- A new order has an id that its side does not know; and where the sell leg of a trade throws, its
buy leg throws too, or changes nothing. -/
def Clean (book : OrderBookImproved) : Message → Prop
  | .ofOrder order =>
    order.type = 'N' →
      if order.isBuy then book.bids.hash order.orderId = none
      else book.asks.hash order.orderId = none
  | .ofTrade trade =>
    book.asks.Refuses trade.sellOrderId trade.qty →
      book.bids.Refuses trade.buyOrderId trade.qty ∨ book.bids.Untouched trade.buyOrderId trade.qty

variable {book : OrderBookImproved}

theorem keptOnThrow_ok {message : Message} {next : OrderBookImproved} :
    KeptOnThrow book message (.ok ()) next := nofun

theorem keptOnThrow_error_iff {message : Message} {text : String} {next : OrderBookImproved} :
    KeptOnThrow book message (.error text) next ↔ next = book :=
  ⟨fun kept => kept text rfl, fun same _ _ => same⟩

theorem onBids_kept {call : Option (OneSide (· > ·) × Except String Unit)} {condition : Prop}
    (kept : KeptWhen book.bids call condition) (message : Message) :
    ∃ next result, book.onBids call = some (next, result) ∧
      (KeptOnThrow book message result next ↔ condition) := by
  obtain ⟨bids, result, rfl, same⟩ := kept
  refine ⟨{ book with bids := bids }, result, rfl, Iff.trans ⟨fun kept text throws => ?_,
    fun kept text throws => ?_⟩ same⟩
  · exact congrArg OrderBookImproved.bids (kept text throws)
  · rw [kept text throws]

theorem onAsks_kept {call : Option (OneSide (· < ·) × Except String Unit)} {condition : Prop}
    (kept : KeptWhen book.asks call condition) (message : Message) :
    ∃ next result, book.onAsks call = some (next, result) ∧
      (KeptOnThrow book message result next ↔ condition) := by
  obtain ⟨asks, result, rfl, same⟩ := kept
  refine ⟨{ book with asks := asks }, result, rfl, Iff.trans ⟨fun kept text throws => ?_,
    fun kept text throws => ?_⟩ same⟩
  · exact congrArg OrderBookImproved.asks (kept text throws)
  · rw [kept text throws]

theorem processOrder_kept_iff (noneStale : NoneStale book) (order : Order) :
    ∃ next result, book.processOrder order = some (next, result) ∧
      (KeptOnThrow book (.ofOrder order) result next ↔ Clean book (.ofOrder order)) := by
  unfold processOrder
  split
  next new =>
    simp only [Clean, new, true_implies]
    split_ifs
    · exact onBids_kept (processNew_kept book.bids order) _
    · exact onAsks_kept (processNew_kept book.asks order) _
  next modify =>
    have clean : Clean book (.ofOrder order) ↔ True :=
      iff_true_intro fun new => absurd (modify.symm.trans new) (by decide)
    simp only [clean]
    split_ifs
    · exact onBids_kept (processModify_kept noneStale.1 order) _
    · exact onAsks_kept (processModify_kept noneStale.2 order) _
  next cancel =>
    have clean : Clean book (.ofOrder order) ↔ True :=
      iff_true_intro fun new => absurd (cancel.symm.trans new) (by decide)
    simp only [clean]
    split_ifs
    · exact onBids_kept (processCancel_kept noneStale.1 order) _
    · exact onAsks_kept (processCancel_kept noneStale.2 order) _
  next notNew _ _ =>
    exact ⟨book, .ok (), rfl, iff_of_true keptOnThrow_ok fun new => absurd new notNew⟩

/-- A throw of the sell leg comes after the buy leg. -/
theorem processTrade_kept_iff (noneStale : NoneStale book) (trade : Trade) :
    ∃ next result, book.processTrade trade = some (next, result) ∧
      (KeptOnThrow book (.ofTrade trade) result next ↔ Clean book (.ofTrade trade)) := by
  unfold processTrade
  rcases processTrade_kept noneStale.1 trade.buyOrderId trade.qty with
    ⟨refuses, text, throws⟩ | ⟨buys, bids, returns, same⟩
  · rw [throws]
    exact ⟨book, .error text, rfl, iff_of_true (fun _ _ => rfl) fun _ => .inl refuses⟩
  rw [returns]
  rcases processTrade_kept noneStale.2 trade.sellOrderId trade.qty with
    ⟨refuses, text, throws⟩ | ⟨sells, asks, sold, -⟩
  · refine ⟨{ book with bids := bids }, .error text, ?_, keptOnThrow_error_iff.trans ?_⟩
    · show onAsks _ (book.asks.processTrade trade.sellOrderId trade.qty) = _
      rw [throws]
      rfl
    · have kept : { book with bids := bids } = book ↔ bids = book.bids :=
        ⟨fun kept => congrArg OrderBookImproved.bids kept, fun kept => kept ▸ rfl⟩
      rw [kept, same]
      exact ⟨fun untouched _ => .inr untouched,
        fun clean => (clean refuses).resolve_left buys⟩
  · refine ⟨{ book with bids := bids, asks := asks }, .ok (), ?_,
      iff_of_true keptOnThrow_ok fun refuses => absurd refuses sells⟩
    show onAsks _ (book.asks.processTrade trade.sellOrderId trade.qty) = _
    rw [sold]
    rfl

theorem process_kept_iff (noneStale : NoneStale book) (message : Message) :
    ∃ next result, book.process message = some (next, result) ∧
      (KeptOnThrow book message result next ↔ Clean book message) := by
  cases message with
  | ofOrder order => exact processOrder_kept_iff noneStale order
  | ofTrade trade => exact processTrade_kept_iff noneStale trade

theorem noneStale_empty : NoneStale empty :=
  ⟨nofun, nofun⟩

/-- In every run on a fresh book, whatever was thrown before, a call leaves the book as it was when it
throws exactly when its message is clean for the book that it finds; so every call of a run does
exactly when every message is clean. The differences of quantities are exact, as they are in the
code for quantities that are not negative. -/
theorem kept_on_throw_iff (messages : List Message) :
    EachReturn process
        (fun book message result next => KeptOnThrow book message result next ↔ Clean book message)
        empty messages ∧
      (EachReturn process KeptOnThrow empty messages ↔ EachStep process Clean empty messages) := by
  have keeps (book : OrderBookImproved) (message : Message) (noneStale : NoneStale book)
      (_ : True) : ∃ next result, book.process message = some (next, result) ∧
        (KeptOnThrow book message result next ↔ Clean book message) ∧ NoneStale next := by
    obtain ⟨next, result, returns, kept⟩ := process_kept_iff noneStale message
    obtain ⟨after, resultAfter, returned, again, -⟩ := answers_process noneStale message
    obtain ⟨rfl, -⟩ := returns_unique returned returns
    exact ⟨after, result, returns, kept, again⟩
  have each := eachReturn_of_keeps keeps messages empty noneStale_empty
    (eachStep_of_forall (fun _ _ _ => trivial) empty)
  exact ⟨each, eachReturn_iff_of_each each⟩

/-- A second order with the id of the first is in the multimap after the throw; and a trade has
taken the order of its buy leg away when its sell leg throws. -/
theorem not_kept_on_throw :
    ¬ EachReturn process KeptOnThrow empty
        [.ofOrder { type := 'N', orderId := 1, orderType := 'B', price := 10, qty := 5 },
          .ofOrder { type := 'N', orderId := 1, orderType := 'B', price := 10, qty := 5 }] ∧
      ¬ EachReturn process KeptOnThrow empty
        [.ofOrder { type := 'N', orderId := 1, orderType := 'B', price := 10, qty := 5 },
          .ofOrder { type := 'N', orderId := 2, orderType := 'S', price := 10, qty := 3 },
          .ofTrade { buyOrderId := 1, sellOrderId := 2, price := 10, qty := 5 }] := by
  constructor
  · rintro ⟨-, kept, -⟩
    have length := congrArg (fun book => book.bids.map.nodes.length) (kept _ rfl)
    revert length
    decide
  · rintro ⟨-, -, kept, -⟩
    have length := congrArg (fun book => book.bids.map.nodes.length) (kept _ rfl)
    revert length
    decide

end OrderBookImproved

end ObLib
