/-
This file proves that the order book that keeps every order follows the live orders over
every run of consistent messages, and prints their listing.

The other order book follows the live orders only as long as what its index remembers of
an order is what the order rests at. This one changes its orders in place, so nothing of
the kind is asked here: modified orders are modified again and cancelled, and trades fill
orders of either side in part. A message is consistent when it names no live order as new,
gives a live order on its own side, and trades no more of it than there is.
-/

import OrderBookSketch.BookListings
import OrderBookSketch.MarketFeedReference

namespace ObLib

open Containers Runs Ledgers OneSide BookOver

/-! ### Consistent messages -/

/-- The order is new or on the side of the live order of its id, with a positive quantity unless
it cancels. A trade takes a positive quantity off the orders it names, and no more than rests. -/
def Consistent (live : List Resting) : Message → Prop
  | .ofOrder order =>
    (order.type = 'N' → 0 < order.qty ∧ recordOf Resting.orderId live order.orderId = none) ∧
      (order.type = 'M' → 0 < order.qty) ∧
      (order.type = 'M' ∨ order.type = 'X' →
        ∀ resting ∈ recordOf Resting.orderId live order.orderId, resting.isBuy = order.isBuy)
  | .ofTrade trade =>
    (∀ resting ∈ named live true trade.buyOrderId, 0 < trade.qty ∧ trade.qty ≤ resting.qty) ∧
      ∀ resting ∈ named live false trade.sellOrderId, 0 < trade.qty ∧ trade.qty ≤ resting.qty

/-- The totals are numbers of an `int`. -/
def TotalsFit (live : List Resting) : Prop :=
  ∀ isBuy, ∀ level ∈ ladder live isBuy, level.qty < 2 ^ 31

instance (live : List Resting) : (message : Message) → Decidable (Consistent live message)
  | .ofOrder order => inferInstanceAs (Decidable (_ ∧ _ ∧ (_ →
      ∀ resting ∈ recordOf Resting.orderId live order.orderId, _)))
  | .ofTrade trade => inferInstanceAs (Decidable
      ((∀ resting ∈ named live true trade.buyOrderId, _) ∧
        ∀ resting ∈ named live false trade.sellOrderId, _))

instance (live : List Resting) : Decidable (TotalsFit live) :=
  inferInstanceAs (Decidable (∀ isBuy, ∀ level ∈ ladder live isBuy, _))

/-- What should be printed of live orders by the book that keeps every order. -/
def refListingImproved (live : List Resting) : String :=
  (if ladder live true = [] then "" else "\n Bids: ") ++
    listingText 0 ((ladder live true).take 10) ++
    (if ladder live false = [] then "" else "\n Sell: ") ++
    listingText 0 ((ladder live false).take 10)

/-! ### The same orders -/

/-- What the two references have of an order. -/
def Arrived.holding (arrived : Arrived) : OrderId × Price × Quantity :=
  (arrived.orderId, arrived.price, arrived.qty)

def Resting.holding (resting : Resting) : OrderId × Price × Quantity :=
  (resting.orderId, resting.price, resting.qty)

/-- The arrivals of a side are the live orders there. -/
def SameOrders (arrivals : List Arrived) (isBuy : Bool) (live : List Resting) : Prop :=
  (arrivals.map Arrived.holding).Perm
    ((live.filter fun resting => resting.isBuy = isBuy).map Resting.holding)

section Same

variable {arrivals : List Arrived} {isBuy : Bool} {live : List Resting} {orderId : OrderId}

theorem SameOrders.without (same : SameOrders arrivals isBuy live) (orderId : OrderId) :
    SameOrders (without Arrived.orderId arrivals orderId) isBuy (Beside live orderId) := by
  have left := same.filter fun holding => holding.1 ≠ orderId
  rw [List.filter_map, List.filter_map, List.filter_filter] at left
  refine left.trans (List.Perm.of_eq (congrArg (List.map _) ?_))
  rw [Beside, Ledgers.without, List.filter_filter]
  exact List.filter_congr fun resting _ => Bool.and_comm _ _

theorem SameOrders.cons (same : SameOrders arrivals isBuy live) {arrived : Arrived}
    {resting : Resting} (side : resting.isBuy = isBuy) (alike : arrived.holding = resting.holding) :
    SameOrders (arrived :: arrivals) isBuy (resting :: live) := by
  unfold SameOrders
  rw [List.filter_cons_of_pos (by exact decide_eq_true side), List.map_cons, List.map_cons, alike]
  exact List.Perm.cons _ same

theorem SameOrders.cons_other (same : SameOrders arrivals isBuy live) {resting : Resting}
    (other : resting.isBuy ≠ isBuy) : SameOrders arrivals isBuy (resting :: live) := by
  unfold SameOrders
  rwa [List.filter_cons_of_neg (by exact fun side => other (of_decide_eq_true side))]

/-- An id names the same order among the arrivals of a side and among the live orders there. -/
theorem SameOrders.recordOf (same : SameOrders arrivals isBuy live)
    (distinctArrivals : Distinct Arrived.orderId arrivals)
    (distinct : Distinct Resting.orderId live) (orderId : OrderId) :
    (recordOf Arrived.orderId arrivals orderId).map Arrived.holding =
      ((recordOf Resting.orderId live orderId).filter fun resting => resting.isBuy = isBuy).map
        Resting.holding := by
  have arrivedId (arrived : Arrived) : arrived.holding.1 = Arrived.orderId arrived := rfl
  have restingId (resting : Resting) : resting.holding.1 = Resting.orderId resting := rfl
  rw [← recordOf_filter distinct, ← recordOf_map arrivedId, ← recordOf_map restingId]
  refine recordOf_perm ?_ same orderId
  unfold Distinct
  rw [List.map_map]
  exact distinctArrivals

/-- A named order has the quantity of the live order of its id. -/
theorem SameOrders.exists_named (same : SameOrders arrivals isBuy live)
    (distinctArrivals : Distinct Arrived.orderId arrivals)
    (distinct : Distinct Resting.orderId live) (nonzero : orderId ≠ 0) {arrived : Arrived}
    (record : Ledgers.recordOf Arrived.orderId arrivals orderId = some arrived) :
    ∃ resting, named live isBuy orderId = some resting ∧ arrived.holding = resting.holding := by
  have alike := same.recordOf distinctArrivals distinct orderId
  rw [record, Option.map_some, eq_comm, Option.map_eq_some_iff] at alike
  obtain ⟨resting, found, sameHolding⟩ := alike
  exact ⟨resting, (if_neg nonzero).trans found, sameHolding.symm⟩

theorem SameOrders.named_eq_none (same : SameOrders arrivals isBuy live)
    (distinctArrivals : Distinct Arrived.orderId arrivals)
    (distinct : Distinct Resting.orderId live)
    (record : Ledgers.recordOf Arrived.orderId arrivals orderId = none) :
    named live isBuy orderId = none := by
  have alike := same.recordOf distinctArrivals distinct orderId
  rw [record, Option.map_none, eq_comm, Option.map_eq_none_iff] at alike
  unfold named
  rw [alike]
  exact ite_self _

end Same

/-! ### What a side keeps -/

namespace OneSide

variable {before : Price → Price → Prop} {side next : OneSide before} {isBuy : Bool}
  {live : List Resting} {order : Order} {orderId : OrderId} {qty : Quantity}

theorem Keeps.add_other (keeps : Keeps side isBuy live) {resting : Resting}
    (other : resting.isBuy ≠ isBuy) : Keeps side isBuy (resting :: live) := by
  obtain ⟨ref, refines, same⟩ := keeps
  exact ⟨ref, refines, SameOrders.cons_other same other⟩

/-- A fill of an order of the other side does not show. -/
theorem Keeps.fill_other (keeps : Keeps side isBuy live) (distinct : Distinct Resting.orderId live)
    {other : Bool} (different : other ≠ isBuy) (orderId : OrderId) (qty : Quantity) :
    Keeps side isBuy (fillNamed live other orderId qty) := by
  unfold fillNamed
  cases found : named live other orderId with
  | none => exact keeps
  | some resting =>
    obtain ⟨-, record, onSide⟩ := named_some found
    have beside : Keeps side isBuy (Beside live orderId) := by
      refine keeps.without_other distinct fun named same => ?_
      rw [← Option.some.inj (record.symm.trans same), onSide]
      exact different
    have elsewhere : resting.isBuy ≠ isBuy := onSide ▸ different
    dsimp only
    split_ifs
    · exact beside
    · exact beside.add_other elsewhere

/-- A modify puts one order in the place of what there is of its id. -/
theorem modify_live (ref : Arrivals) (order : Order) : ∃ arrived,
    (ref.modify order).live = arrived :: without Arrived.orderId ref.live order.orderId ∧
      arrived.holding = (order.orderId, order.price, order.qty) := by
  unfold Arrivals.modify
  cases record : recordOf Arrived.orderId ref.live order.orderId with
  | none =>
    refine ⟨⟨order.orderId, order.price, order.qty, ref.clock⟩, ?_, rfl⟩
    rw [without_of_absent record]
    rfl
  | some arrived =>
    dsimp only
    split_ifs with moves
    · exact ⟨⟨order.orderId, order.price, order.qty, ref.clock⟩, rfl, rfl⟩
    · refine ⟨{ arrived with qty := order.qty }, rfl, ?_⟩
      rw [Arrived.holding, (recordOf_some record).2, not_not.mp moves]

theorem refProcess_modify (kind : order.type = 'M')
    (sameSide : ∀ resting ∈ recordOf Resting.orderId live order.orderId,
      resting.isBuy = order.isBuy) : ∃ resting,
    refProcess live order = resting :: Beside live order.orderId ∧
      resting.holding = (order.orderId, order.price, order.qty) ∧
      resting.isBuy = order.isBuy := by
  simp only [refProcess, kind]
  cases record : recordOf Resting.orderId live order.orderId with
  | none =>
    refine ⟨Resting.of order, ?_, rfl, rfl⟩
    rw [Beside, without_of_absent record]
  | some resting =>
    refine ⟨_, rfl, ?_, sameSide resting record⟩
    exact congrArg (·, order.price, order.qty) (recordOf_some record).2

/-- Nor does an order of the other side, when it is that of the live order of its id. -/
theorem Keeps.order_other (keeps : Keeps side isBuy live) (distinct : Distinct Resting.orderId live)
    (other : order.isBuy ≠ isBuy)
    (sameSide : order.type = 'M' ∨ order.type = 'X' →
      ∀ resting ∈ recordOf Resting.orderId live order.orderId, resting.isBuy = order.isBuy) :
    Keeps side isBuy (refProcess live order) := by
  have beside (changes : order.type = 'M' ∨ order.type = 'X') :
      Keeps side isBuy (Beside live order.orderId) :=
    keeps.without_other distinct fun resting found => (sameSide changes resting found) ▸ other
  by_cases isModify : order.type = 'M'
  · obtain ⟨resting, rests, -, onSide⟩ := refProcess_modify isModify (sameSide (.inl isModify))
    rw [rests]
    exact (beside (.inl isModify)).add_other (onSide ▸ other)
  · unfold refProcess
    split
    next => exact keeps.add_other other
    next => contradiction
    next isCancel => exact beside (.inr isCancel)
    next => exact keeps

/-- A leg of a trade fills the same order in both references. -/
theorem sameOrders_trade {ref : Arrivals} (same : SameOrders ref.live isBuy live)
    (distinctArrivals : Distinct Arrived.orderId ref.live)
    (distinct : Distinct Resting.orderId live) :
    SameOrders (ref.trade orderId qty).live isBuy (fillNamed live isBuy orderId qty) := by
  unfold Arrivals.trade fillNamed
  by_cases zero : orderId = 0
  · rw [if_pos zero, named, if_pos zero]
    exact same
  rw [if_neg zero]
  cases record : recordOf Arrived.orderId ref.live orderId with
  | none =>
    rw [same.named_eq_none distinctArrivals distinct record]
    exact same
  | some arrived =>
    obtain ⟨resting, found, alike⟩ := same.exists_named distinctArrivals distinct zero record
    obtain ⟨sameId, samePrice, sameQty⟩ : arrived.orderId = resting.orderId ∧
        arrived.price = resting.price ∧ arrived.qty = resting.qty := by
      simpa [Arrived.holding, Resting.holding] using alike
    simp only [found, sameQty, Int.sub_eq_zero]
    split_ifs
    · exact same.without orderId
    · refine (same.without orderId).cons (named_some found).2.2 ?_
      rw [Arrived.holding, Resting.holding, sameId, samePrice]
      rfl

variable [DecidableRel before] [IsStrictTotalOrder Price before]

/-- Where a leg of a trade takes no more than rests, it does not throw. -/
theorem Keeps.processTrade (keeps : Keeps side isBuy live)
    (distinct : Distinct Resting.orderId live)
    (covers : ∀ resting ∈ named live isBuy orderId, qty ≤ resting.qty) :
    ∃ next, side.processTrade orderId qty = some (next, .ok ()) ∧
      Keeps next isBuy (fillNamed live isBuy orderId qty) := by
  have points := keeps.points
  obtain ⟨ref, refines, same⟩ := keeps
  obtain ⟨next, result, returns, -, trades⟩ := answers_processTrade points orderId qty
  have fine : result = .ok () := by
    rcases processTrade_cases points orderId qty with
      ⟨-, ignores⟩ | ⟨node, member, rfl, nonzero, -, next, result, fillsIt, fills⟩
    · exact (returns_unique returns ignores).2
    · obtain ⟨-, rfl⟩ := returns_unique returns fillsIt
      cases fills with
      | part | whole => rfl
      | exceeds more =>
        obtain ⟨resting, found, alike⟩ := SameOrders.exists_named same refines.distinct distinct
          nonzero (refines.record member)
        have sameQty : node.value.qty = resting.qty := congrArg (fun holding => holding.2.2) alike
        exact absurd (covers resting found) (not_le_of_gt (sameQty ▸ more))
  refine ⟨next, fine ▸ returns, ref.trade orderId qty, trades ref refines fine, ?_⟩
  exact sameOrders_trade same refines.distinct distinct

/-- A modify does not throw. -/
theorem Keeps.processModify (keeps : Keeps side isBuy live) (onSide : order.isBuy = isBuy)
    (kind : order.type = 'M')
    (sameSide : ∀ resting ∈ recordOf Resting.orderId live order.orderId,
      resting.isBuy = order.isBuy) :
    ∃ next, side.processModify order = some (next, .ok ()) ∧
      Keeps next isBuy (refProcess live order) := by
  have points := keeps.points
  obtain ⟨ref, refines, same⟩ := keeps
  obtain ⟨next, result, returns, -, modifies⟩ := answers_processModify points order
  have fine : result = .ok () := by
    rcases processModify_cases points order with
      ⟨absent, asNew⟩ | ⟨node, -, -, ⟨-, erased, -, -, moves⟩ | ⟨-, stays⟩⟩
    · rw [OneSide.processNew, absent] at asNew
      exact (returns_unique returns asNew).2
    · exact (returns_unique returns moves).2
    · exact (returns_unique returns stays).2
  refine ⟨next, fine ▸ returns, ref.modify order, modifies ref refines fine, ?_⟩
  obtain ⟨arrived, arrivals, arrivedHolding⟩ := modify_live ref order
  obtain ⟨resting, rests, restingHolding, restingSide⟩ := refProcess_modify kind sameSide
  rw [arrivals, rests]
  exact (SameOrders.without same order.orderId).cons (restingSide.trans onSide)
    (arrivedHolding.trans restingHolding.symm)

end OneSide

/-! ### The whole book -/

namespace OrderBookImproved

/-- The book keeps the live orders, whose ids differ and whose quantities are positive. -/
structure KeepsLive (book : OrderBookImproved) (live : List Resting) : Prop where
  distinct : Distinct Resting.orderId live
  positive : ∀ resting ∈ live, 0 < resting.qty
  bids : book.bids.Keeps true live
  asks : book.asks.Keeps false live

theorem keepsLive_empty : KeepsLive empty [] where
  distinct := List.nodup_nil
  positive := fun _ member => absurd member List.not_mem_nil
  bids := keeps_empty true
  asks := keeps_empty false

variable {book : OrderBookImproved} {live : List Resting} {order : Order} {trade : Trade}

theorem positive_fillNamed (positive : ∀ resting ∈ live, 0 < resting.qty) {isBuy : Bool}
    {orderId : OrderId} {qty : Quantity}
    (covers : ∀ resting ∈ named live isBuy orderId, qty ≤ resting.qty) :
    ∀ resting ∈ fillNamed live isBuy orderId qty, 0 < resting.qty := by
  unfold fillNamed
  cases found : named live isBuy orderId with
  | none => exact positive
  | some named =>
    have beside : ∀ resting ∈ Beside live orderId, 0 < resting.qty := fun resting member =>
      positive resting (List.mem_filter.mp member).1
    dsimp only
    split_ifs with whole
    · exact beside
    · refine List.forall_mem_cons.mpr ⟨?_, beside⟩
      exact Int.sub_pos_of_lt (lt_of_le_of_ne (covers named found) (Ne.symm whole))

/-- The live orders still differ and are positive after a consistent message. -/
theorem lawful_refMessage (distinct : Distinct Resting.orderId live)
    (positive : ∀ resting ∈ live, 0 < resting.qty) {message : Message}
    (consistent : Consistent live message) :
    Distinct Resting.orderId (refMessage live message) ∧
      ∀ resting ∈ refMessage live message, 0 < resting.qty := by
  cases message with
  | ofOrder order =>
    obtain ⟨new, modify, sameSide⟩ := consistent
    show Distinct Resting.orderId (refProcess live order) ∧
      ∀ resting ∈ refProcess live order, 0 < resting.qty
    have beside : ∀ resting ∈ Beside live order.orderId, 0 < resting.qty := fun resting member =>
      positive resting (List.mem_filter.mp member).1
    by_cases isModify : order.type = 'M'
    · obtain ⟨resting, rests, holding, -⟩ := refProcess_modify isModify (sameSide (.inl isModify))
      have sameId : resting.orderId = order.orderId := congrArg Prod.fst holding
      have sameQty : resting.qty = order.qty := congrArg (fun held => held.2.2) holding
      rw [rests]
      refine ⟨distinct_cons (distinct_without distinct _) ?_,
        List.forall_mem_cons.mpr ⟨sameQty ▸ modify isModify, beside⟩⟩
      rw [recordOf_without, if_pos sameId]
    · unfold refProcess
      split
      next isNew => exact ⟨distinct_cons distinct (new isNew).2,
        List.forall_mem_cons.mpr ⟨(new isNew).1, positive⟩⟩
      next isModify => contradiction
      next => exact ⟨distinct_without distinct _, beside⟩
      next => exact ⟨distinct, positive⟩
  | ofTrade trade =>
    obtain ⟨buys, sells⟩ := consistent
    refine ⟨distinct_fillNamed (distinct_fillNamed distinct), positive_fillNamed
      (positive_fillNamed positive fun resting found => (buys resting found).2) ?_⟩
    rw [named_fillNamed (by decide)]
    exact fun resting found => (sells resting found).2

theorem onBids_keeps {after : List Resting} {call : Option (OneSide (· > ·) × Except String Unit)}
    (bids : ∃ next, call = some (next, .ok ()) ∧ Keeps next true after)
    (asks : book.asks.Keeps false after) :
    ∃ next, book.onBids call = some (next, .ok ()) ∧ next.bids.Keeps true after ∧
      next.asks.Keeps false after := by
  obtain ⟨next, returns, keeps⟩ := bids
  exact ⟨{ book with bids := next }, by rw [onBids, returns]; rfl, keeps, asks⟩

theorem onAsks_keeps {after : List Resting} {call : Option (OneSide (· < ·) × Except String Unit)}
    (asks : ∃ next, call = some (next, .ok ()) ∧ Keeps next false after)
    (bids : book.bids.Keeps true after) :
    ∃ next, book.onAsks call = some (next, .ok ()) ∧ next.bids.Keeps true after ∧
      next.asks.Keeps false after := by
  obtain ⟨next, returns, keeps⟩ := asks
  exact ⟨{ book with asks := next }, by rw [onAsks, returns]; rfl, bids, keeps⟩

/-- A consistent order is taken without a throw. -/
theorem KeepsLive.processOrder (keeps : KeepsLive book live)
    (consistent : Consistent live (.ofOrder order)) :
    ∃ next, book.processOrder order = some (next, .ok ()) ∧
      next.bids.Keeps true (refProcess live order) ∧
      next.asks.Keeps false (refProcess live order) := by
  have asks (buy : order.isBuy = true) : book.asks.Keeps false (refProcess live order) :=
    keeps.asks.order_other keeps.distinct (by rw [buy]; decide) consistent.2.2
  have bids (sell : ¬ order.isBuy = true) : book.bids.Keeps true (refProcess live order) :=
    keeps.bids.order_other keeps.distinct sell consistent.2.2
  have isSell (sell : ¬ order.isBuy = true) : order.isBuy = false := Bool.not_eq_true _ ▸ sell
  obtain ⟨new, -, sameSide⟩ := consistent
  unfold OrderBookImproved.processOrder
  split
  next isNew =>
    have step : refProcess live order = Resting.of order :: live := by
      simp only [refProcess, isNew]
    rw [step] at asks bids ⊢
    split_ifs with buy
    · exact onBids_keeps (keeps.bids.processNew buy (new isNew).2) (asks buy)
    · exact onAsks_keeps (keeps.asks.processNew (isSell buy) (new isNew).2) (bids buy)
  next isModify =>
    have same := sameSide (.inl isModify)
    split_ifs with buy
    · exact onBids_keeps (keeps.bids.processModify buy isModify same) (asks buy)
    · exact onAsks_keeps (keeps.asks.processModify (isSell buy) isModify same) (bids buy)
  next isCancel =>
    have step : refProcess live order = Beside live order.orderId := by
      simp only [refProcess, isCancel]
    rw [step] at asks bids ⊢
    split_ifs with buy
    · exact onBids_keeps (keeps.bids.processCancel order) (asks buy)
    · exact onAsks_keeps (keeps.asks.processCancel order) (bids buy)
  next notNew notModify notCancel =>
    have step : refProcess live order = live := by
      unfold refProcess
      split <;> first | contradiction | rfl
    rw [step]
    exact ⟨book, rfl, keeps.bids, keeps.asks⟩

/-- So is a consistent trade. -/
theorem KeepsLive.processTrade (keeps : KeepsLive book live)
    (consistent : Consistent live (.ofTrade trade)) :
    ∃ next, book.processTrade trade = some (next, .ok ()) ∧
      next.bids.Keeps true (refTrade live trade) ∧
      next.asks.Keeps false (refTrade live trade) := by
  obtain ⟨buys, sells⟩ := consistent
  have distinct : Distinct Resting.orderId (fillNamed live true trade.buyOrderId trade.qty) :=
    distinct_fillNamed keeps.distinct
  obtain ⟨bought, returns, bids, asks⟩ := onBids_keeps
    (keeps.bids.processTrade keeps.distinct fun resting found => (buys resting found).2)
    (keeps.asks.fill_other keeps.distinct (by decide) trade.buyOrderId trade.qty)
  rw [OrderBookImproved.processTrade, returns]
  refine onAsks_keeps (asks.processTrade distinct ?_)
    (bids.fill_other distinct (by decide) trade.sellOrderId trade.qty)
  rw [named_fillNamed (by decide)]
  exact fun resting found => (sells resting found).2

theorem KeepsLive.process (keeps : KeepsLive book live) {message : Message}
    (consistent : Consistent live message) :
    ∃ next, book.process message = some (next, .ok ()) ∧
      KeepsLive next (refMessage live message) := by
  obtain ⟨distinct, positive⟩ := lawful_refMessage keeps.distinct keeps.positive consistent
  have taken : ∃ next, book.process message = some (next, .ok ()) ∧
      next.bids.Keeps true (refMessage live message) ∧
      next.asks.Keeps false (refMessage live message) := by
    cases message with
    | ofOrder order => exact keeps.processOrder consistent
    | ofTrade trade => exact keeps.processTrade consistent
  obtain ⟨next, returns, bids, asks⟩ := taken
  exact ⟨next, returns, distinct, positive, bids, asks⟩

/-! ### What is printed -/

/-- The entries of a side are the first ten levels of the live orders there. -/
theorem listing_of_keeps {before : Price → Price → Prop} [DecidableRel before]
    [IsStrictTotalOrder Price before] {side : OneSide before} {isBuy : Bool}
    (keeps : side.Keeps isBuy live) (positive : ∀ resting ∈ live, 0 < resting.qty)
    (order : ∀ price other, prio isBuy price < prio isBuy other → before price other)
    (fits : ∀ level ∈ ladder live isBuy, level.qty < 2 ^ 31) :
    side.listing = (ladder live isBuy).take 10 := by
  have ladders := lists_ladder live isBuy
  have lists : Lists before (quantitiesAt live isBuy) (ladder live isBuy) :=
    ⟨ladders.sorted.imp fun better => order _ _ better, ladders.mem_iff⟩
  refine (lists.of_perm keeps.quantities).listing_eq (keeps.fitsInt32 positive fun price => ?_)
  by_cases none : quantitiesAt live isBuy price = []
  · rw [none]
    decide
  · exact fits ⟨price, (quantitiesAt live isBuy price).sum, (quantitiesAt live isBuy price).length⟩
      ((lists.mem_iff _).mpr (if_neg none))

/-- A side has nodes exactly when there are live orders there. -/
theorem header_of_keeps {before : Price → Price → Prop} {side : OneSide before} {isBuy : Bool}
    (keeps : side.Keeps isBuy live) (header : String) :
    (if 0 < side.map.nodes.length then header else "") =
      if ladder live isBuy = [] then "" else header := by
  obtain ⟨ref, refines, same⟩ := keeps
  have count : side.map.nodes.length = (live.filter (·.isBuy = isBuy)).length := by
    rw [← List.length_map arrivedOf, refines.records.length_eq, ← List.length_map, same.length_eq,
      List.length_map]
  have none : ladder live isBuy = [] ↔ live.filter (·.isBuy = isBuy) = [] := by
    unfold ladder
    rw [List.map_eq_nil_iff, ← List.length_eq_zero_iff, List.length_insertionSort,
      List.length_eq_zero_iff, List.dedup_eq_nil, List.map_eq_nil_iff]
  rw [count]
  by_cases empty : live.filter (·.isBuy = isBuy) = []
  · rw [if_pos (none.mpr empty), empty]
    rfl
  · rw [if_neg (none.not.mpr empty), if_pos (List.length_pos_iff.mpr empty)]

theorem KeepsLive.toString_eq (keeps : KeepsLive book live) (fits : TotalsFit live) :
    book.toString = refListingImproved live := by
  unfold OrderBookImproved.toString refListingImproved
  rw [header_of_keeps keeps.bids, header_of_keeps keeps.asks,
    listing_of_keeps keeps.bids keeps.positive (fun _ _ better => neg_lt_neg_iff.mp better)
      (fits true),
    listing_of_keeps keeps.asks keeps.positive (fun _ _ better => better) (fits false)]

end OrderBookImproved

end ObLib
