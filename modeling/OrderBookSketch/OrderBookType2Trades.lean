/-
This file compares the trades of the order book with a reference that takes the traded
quantity off each live order the trade names, and proves exactly when they agree.

The reference keeps of each live order what it has left and the message that brought it
in, which is what the index keeps. The two agree when a trade takes all that is left of a
buy order, no less than that order came in with, at the price it rests at, and names no
live sell order. A partial fill takes an order off the count of its level, the level is
looked for at the price of the trade, an order is dropped by the quantity it came in with,
and the sell leg looks the buy order up: it never drops the sell order from the index.
-/

import OrderBookSketch.OrderBookType2Reference

namespace ObLib

open Containers Runs Ledgers

namespace BookOver

/-! ### The reference -/

/-- The live order that one leg of a trade names: an id other than 0, an order of its side. -/
def named (live : List Resting) (isBuy : Bool) (orderId : OrderId) : Option Resting :=
  if orderId = 0 then none
  else (recordOf Resting.orderId live orderId).filter fun resting => resting.isBuy = isBuy

/-- The traded quantity comes off the order a leg names, which is dropped when none is left. -/
def fillNamed (live : List Resting) (isBuy : Bool) (orderId : OrderId) (qty : Quantity) :
    List Resting :=
  match named live isBuy orderId with
  | none => live
  | some resting =>
    if resting.qty = qty then Beside live orderId
    else { resting with qty := resting.qty - qty } :: Beside live orderId

def refTrade (live : List Resting) (trade : Trade) : List Resting :=
  fillNamed (fillNamed live true trade.buyOrderId trade.qty) false trade.sellOrderId trade.qty

/-- A trade of a positive quantity that names a live buy order or a live sell order, or both,
each with at least the quantity left. -/
def FeedTrade (live : List Resting) (trade : Trade) : Prop :=
  trade.buyOrderId ≠ emptyOrderId ∧ trade.sellOrderId ≠ emptyOrderId ∧ 0 < trade.qty ∧
    (∀ resting ∈ named live true trade.buyOrderId, trade.qty ≤ resting.qty) ∧
    (∀ resting ∈ named live false trade.sellOrderId, trade.qty ≤ resting.qty) ∧
    ((named live true trade.buyOrderId).isSome ∨ (named live false trade.sellOrderId).isSome)

/-- The levels and the index are those of the live orders. -/
def Tracks (book : SpecBook) (live : List Resting) : Prop :=
  Follows book.side live ∧ IndexHolds book live

/-- The trade fills a buy order whole, with no less than it came in with, at the price it rests
at, beside orders whose quantities are positive together, and names no live sell order. -/
def FillsWholeBuy (live : List Resting) (trade : Trade) : Prop :=
  (∃ resting ∈ named live true trade.buyOrderId, resting.price = trade.price ∧
      resting.qty = trade.qty ∧ resting.entered.qty ≤ trade.qty ∧
      Settled (quantitiesAt (Beside live trade.buyOrderId) true trade.price)) ∧
    named live false trade.sellOrderId = none

instance (live : List Resting) (trade : Trade) : Decidable (FeedTrade live trade) :=
  inferInstanceAs (Decidable (_ ∧ _ ∧ _ ∧ (∀ resting ∈ named live true trade.buyOrderId, _) ∧
    (∀ resting ∈ named live false trade.sellOrderId, _) ∧ _))

instance (quantities : List Quantity) : Decidable (Settled quantities) :=
  inferInstanceAs (Decidable (_ ∨ _))

instance (live : List Resting) (trade : Trade) : Decidable (FillsWholeBuy live trade) :=
  inferInstanceAs (Decidable ((∃ resting ∈ named live true trade.buyOrderId, _) ∧ _))

variable {book next : SpecBook} {live : List Resting} {resting : Resting} {trade : Trade}
  {isBuy : Bool} {orderId : OrderId} {qty : Quantity}

theorem named_some (found : named live isBuy orderId = some resting) :
    orderId ≠ 0 ∧ recordOf Resting.orderId live orderId = some resting ∧
      resting.isBuy = isBuy := by
  unfold named at found
  split_ifs at found with zero
  obtain ⟨record, side⟩ := Option.filter_eq_some_iff.mp found
  exact ⟨zero, record, by simpa using side⟩

/-- What a fill leaves of each order. -/
theorem recordOf_fillNamed (found : named live isBuy orderId = some resting) (qty : Quantity)
    (other : OrderId) :
    recordOf Resting.orderId (fillNamed live isBuy orderId qty) other =
      if other = orderId then
        if resting.qty = qty then none else some { resting with qty := resting.qty - qty }
      else recordOf Resting.orderId live other := by
  have sameId : resting.orderId = orderId := (recordOf_some (named_some found).2.1).2
  simp only [fillNamed, found]
  split_ifs with whole same same
  · rw [recordOf_without, if_pos same]
  · rw [recordOf_without, if_neg same]
  · rw [recordOf_cons]
    exact if_pos (same.trans sameId.symm)
  · rw [recordOf_cons, recordOf_without, if_neg same]
    exact if_neg fun here => same (here.trans sameId)

theorem distinct_fillNamed (distinct : Distinct Resting.orderId live) :
    Distinct Resting.orderId (fillNamed live isBuy orderId qty) := by
  cases found : named live isBuy orderId with
  | none =>
    simp only [fillNamed, found]
    exact distinct
  | some resting =>
    have sameId : resting.orderId = orderId := (recordOf_some (named_some found).2.1).2
    simp only [fillNamed, found]
    split_ifs
    · exact distinct_without distinct orderId
    · refine distinct_cons (distinct_without distinct orderId) ?_
      rw [recordOf_without]
      exact if_pos sameId

/-- A fill on one side leaves what the legs of the other side name. -/
theorem named_fillNamed {side : Bool} (different : isBuy ≠ side) (live : List Resting)
    (orderId other : OrderId) (qty : Quantity) :
    named (fillNamed live isBuy orderId qty) side other = named live side other := by
  cases found : named live isBuy orderId with
  | none => simp only [fillNamed, found]
  | some resting =>
    obtain ⟨-, record, rfl⟩ := named_some found
    unfold named
    rw [recordOf_fillNamed found]
    by_cases same : other = orderId
    · rw [if_pos same, same, record]
      split_ifs <;> simp [different, Option.filter_some, show Resting.isBuy
        { resting with qty := resting.qty - qty } = resting.isBuy from rfl]
    · rw [if_neg same]

/-- A fill changes one level: the order's quantity, or the order, is gone from it. -/
theorem levelOf_fillNamed (distinct : Distinct Resting.orderId live)
    (found : named live isBuy orderId = some resting) (qty : Quantity) (side : Bool)
    (price : Price) :
    levelOf price (quantitiesAt (fillNamed live isBuy orderId qty) side price) =
      if side = isBuy ∧ price = resting.price then
        if resting.qty = qty then levelOf price (quantitiesAt (Beside live orderId) side price)
        else levelOf price
          ((resting.qty - qty) :: quantitiesAt (Beside live orderId) side price)
      else levelOf price (quantitiesAt live side price) := by
  obtain ⟨-, record, rfl⟩ := named_some found
  rw [levelOf_beside distinct record]
  simp only [fillNamed, found]
  by_cases whole : resting.qty = qty
  · simp only [if_pos whole, quantitiesAt_cons]
    split_ifs <;> rfl
  · simp only [if_neg whole, quantitiesAt_cons, show Resting.isBuy
      { resting with qty := resting.qty - qty } = resting.isBuy from rfl]
    split_ifs <;> rfl

/-! ### One trade -/

/-- The level of a price after a trade is as before, or the leg of its side has taken the
quantity and an order off. -/
theorem get_specProcessTrade (book : SpecBook) (trade : Trade) (isBuy : Bool) (price : Price) :
    ((book.specProcessTrade trade).1.side isBuy).get (prio isBuy price) =
        (book.side isBuy).get (prio isBuy price) ∨
      price = trade.price ∧ (isBuy = false → book.SellLegRuns trade) ∧
        ((book.specProcessTrade trade).1.side isBuy).get (prio isBuy price) =
          unspent (((book.side isBuy).get (prio isBuy price)).map (·.reduced trade.qty)) := by
  rw [side_specProcessTrade]
  split_ifs with runs
  · rw [get_reduce]
    by_cases same : price = trade.price
    · subst same
      refine .inr ⟨rfl, fun sell => ?_, if_pos rfl⟩
      rcases runs with ⟨buy, -⟩ | ⟨-, runs⟩
      · rw [sell] at buy
        cases buy
      · exact runs
    · exact .inl (if_neg (prio_inj.not.mpr same))
  · exact .inl rfl

/-- A level that stays as it was does not follow a fill. -/
theorem levelOf_ne_filled {price : Price} {rest : Quantity} {others : List Quantity}
    (positive : 0 < qty) :
    levelOf price (rest :: others) ≠
      if rest = qty then levelOf price others else levelOf price ((rest - qty) :: others) := by
  split_ifs
  · exact levelOf_cons_ne _ _ _
  · intro same
    have total := (levelOf_inj same).2
    simp only [List.sum_cons] at total
    linarith

/-- A level that loses the quantity and an order follows no partial fill. -/
theorem unspent_reduced_eq_filled_iff {price : Price} {rest : Quantity}
    {others : List Quantity} :
    unspent ((levelOf price (rest :: others)).map (·.reduced qty)) =
        (if rest = qty then levelOf price others else levelOf price ((rest - qty) :: others)) ↔
      rest = qty ∧ Settled others := by
  by_cases whole : rest = qty
  · rw [if_pos whole, unspent_reduced_iff]
    simp [whole]
  · simp only [whole, if_false, false_and, iff_false]
    rw [levelOf_cons, levelOf_cons, Option.map_some, unspent_some]
    split_ifs
    · intro same
      have count := congrArg Level.orderCount (Option.some.inj same)
      simp [Level.reduced] at count
    · simp

/-- The index after a trade has lost at most the buy order the trade names. -/
theorem orders_specProcessTrade_of_ne (book : SpecBook) {trade : Trade} {orderId : OrderId}
    (other : orderId ≠ trade.buyOrderId) :
    (book.specProcessTrade trade).1.orders orderId = book.orders orderId := by
  rw [orders_specProcessTrade]
  split_ifs
  · rfl
  · rw [orders_specFillOrder, if_neg other]

theorem levelOf_fillNamed_of_ne {side : Bool} (different : side ≠ isBuy)
    (distinct : Distinct Resting.orderId live) (orderId : OrderId) (qty : Quantity)
    (price : Price) :
    levelOf price (quantitiesAt (fillNamed live isBuy orderId qty) side price) =
      levelOf price (quantitiesAt live side price) := by
  cases found : named live isBuy orderId with
  | none => simp only [fillNamed, found]
  | some resting => rw [levelOf_fillNamed distinct found, if_neg fun here => different here.1]

/-- The level a named order rests at counts it. -/
theorem levelOf_named (distinct : Distinct Resting.orderId live)
    (found : named live isBuy orderId = some resting) :
    levelOf resting.price (quantitiesAt live isBuy resting.price) =
      levelOf resting.price
        (resting.qty :: quantitiesAt (Beside live orderId) isBuy resting.price) := by
  obtain ⟨-, record, rfl⟩ := named_some found
  rw [levelOf_beside distinct record, quantitiesAt_cons, if_pos ⟨rfl, rfl⟩]

/-- A buy order of which the index keeps more than the trade takes is still there behind it. -/
theorem orders_specProcessTrade_of_lt (book : SpecBook) {trade : Trade} {stored : Order}
    (found : book.orders trade.buyOrderId = some stored) (less : trade.qty < stored.qty) :
    (book.specProcessTrade trade).1.orders trade.buyOrderId = some stored := by
  rw [orders_specProcessTrade]
  split_ifs
  · exact found
  · rw [orders_specFillOrder, if_pos rfl, found]
    simp [less]

/-- A sell order that a trade names is not tracked. -/
theorem named_sell_eq_none (distinct : Distinct Resting.orderId live)
    (before : Tracks book live) (feed : FeedTrade live trade)
    (tracks : Tracks (book.specProcessTrade trade).1 (refTrade live trade)) :
    named live false trade.sellOrderId = none := by
  by_contra present
  obtain ⟨resting, found⟩ := Option.ne_none_iff_exists'.mp present
  obtain ⟨nonzero, record, -⟩ := named_some found
  have bought : named (fillNamed live true trade.buyOrderId trade.qty) false trade.sellOrderId =
      some resting := by
    rw [← found]
    exact named_fillNamed Bool.true_eq_false_eq_False ..
  have distinctBought : Distinct Resting.orderId
      (fillNamed live true trade.buyOrderId trade.qty) := distinct_fillNamed distinct
  have level := before.1 false resting.price
  rw [← levelOf_fillNamed_of_ne Bool.false_ne_true distinct trade.buyOrderId trade.qty,
    levelOf_named distinctBought bought] at level
  have after := tracks.1 false resting.price
  rw [refTrade, levelOf_fillNamed distinctBought bought, if_pos ⟨rfl, rfl⟩] at after
  rcases get_specProcessTrade book trade false resting.price with same | ⟨-, runs, reduced⟩
  · rw [same, level] at after
    exact levelOf_ne_filled feed.2.2.1 after
  · rw [reduced, level, unspent_reduced_eq_filled_iff] at after
    -- the reference drops the sell order, the index at most the buy order
    have dropped := tracks.2 trade.sellOrderId
    rw [refTrade, recordOf_fillNamed bought, if_pos rfl, if_pos after.1, Option.map_none] at dropped
    by_cases same : trade.sellOrderId = trade.buyOrderId
    · -- the sell leg runs only where the buy leg has left the order in the index
      obtain ⟨-, stored, here, left⟩ := runs rfl
      have more := (left.resolve_left (same ▸ nonzero)).1
      rw [same, orders_specProcessTrade_of_lt book here more] at dropped
      cases dropped
    · rw [orders_specProcessTrade_of_ne book same, before.2, record] at dropped
      cases dropped

theorem refTrade_of_sell_eq_none (noSell : named live false trade.sellOrderId = none) :
    refTrade live trade = fillNamed live true trade.buyOrderId trade.qty := by
  have sold : named (fillNamed live true trade.buyOrderId trade.qty) false trade.sellOrderId =
      none := (named_fillNamed Bool.true_eq_false_eq_False ..).trans noSell
  rw [refTrade, fillNamed, sold]

theorem refTrade_of_fillsWholeBuy (fills : FillsWholeBuy live trade) :
    refTrade live trade = Beside live trade.buyOrderId := by
  obtain ⟨⟨resting, found, -, qty, -, -⟩, noSell⟩ := fills
  rw [refTrade_of_sell_eq_none noSell, fillNamed, Option.mem_def.mp found]
  exact if_pos qty

/-- The index keeps of a buy order that a trade names the message that brought it in. -/
theorem orders_of_named (before : Tracks book live)
    (found : named live isBuy orderId = some resting) :
    book.orders orderId = some resting.entered := by
  rw [before.2, (named_some found).2.1]
  rfl

/-- A trade that is tracked fills a buy order whole: the level loses an order only with the order,
and the index drops only what came in with no more. -/
theorem fillsWholeBuy_of_tracks (distinct : Distinct Resting.orderId live)
    (before : Tracks book live) (feed : FeedTrade live trade)
    (tracks : Tracks (book.specProcessTrade trade).1 (refTrade live trade)) :
    FillsWholeBuy live trade := by
  have noSell := named_sell_eq_none distinct before feed tracks
  have someBuy : (named live true trade.buyOrderId).isSome :=
    feed.2.2.2.2.2.resolve_right (by simp [noSell])
  obtain ⟨resting, found⟩ := Option.isSome_iff_exists.mp someBuy
  have level := before.1 true resting.price
  rw [levelOf_named distinct found] at level
  have after := tracks.1 true resting.price
  rw [refTrade_of_sell_eq_none noSell, levelOf_fillNamed distinct found,
    if_pos ⟨rfl, rfl⟩] at after
  rcases get_specProcessTrade book trade true resting.price with same | ⟨price, -, reduced⟩
  · rw [same, level] at after
    exact absurd after (levelOf_ne_filled feed.2.2.1)
  · rw [reduced, level, unspent_reduced_eq_filled_iff] at after
    have dropped := tracks.2 trade.buyOrderId
    rw [refTrade_of_sell_eq_none noSell, recordOf_fillNamed found, if_pos rfl, if_pos after.1,
      Option.map_none] at dropped
    have spent : resting.entered.qty ≤ trade.qty := by
      by_contra more
      rw [orders_specProcessTrade_of_lt book (orders_of_named before found)
        (not_le.mp more)] at dropped
      cases dropped
    exact ⟨⟨resting, found, price, after.1, spent, price ▸ after.2⟩, noSell⟩

/-- A trade that fills a buy order whole runs its buy leg, which drops the order, and so not its
sell leg. -/
theorem tracks_of_fillsWholeBuy (distinct : Distinct Resting.orderId live)
    (before : Tracks book live) (fills : FillsWholeBuy live trade) :
    Tracks (book.specProcessTrade trade).1 (refTrade live trade) := by
  rw [refTrade_of_fillsWholeBuy fills]
  obtain ⟨⟨resting, found, price, qty, spent, settled⟩, -⟩ := fills
  obtain ⟨nonzero, record, side⟩ := named_some found
  have stored := orders_of_named before found
  have buys : book.BuyLegRuns trade := ⟨nonzero, by rw [stored]; rfl⟩
  have skips : ¬ book.SellLegRuns trade := by
    rintro ⟨-, other, same, left⟩
    obtain rfl := Option.some.inj (stored.symm.trans same)
    exact absurd (left.resolve_left nonzero).1 (not_lt.mpr spent)
  constructor
  · refine (follows_reduce_iff (before.1.split distinct record)
      fun isBuy => ?_).mpr ⟨price, .inl ⟨qty, ?_⟩⟩
    · rw [side_specProcessTrade, side]
      cases isBuy <;> simp [buys, skips]
    · rw [side, price]
      exact settled
  · intro orderId
    rw [orders_specProcessTrade, if_neg fun neither => nonzero neither.1, orders_specFillOrder,
      recordOf_without, stored]
    split_ifs with same
    · rw [Option.filter_some, if_neg (by simpa using spent)]
      rfl
    · exact before.2 orderId

/-- A trade is tracked exactly when it fills a buy order whole at the price it rests at. -/
theorem tracks_specProcessTrade_iff (distinct : Distinct Resting.orderId live)
    (before : Tracks book live) (feed : FeedTrade live trade) :
    Tracks (book.specProcessTrade trade).1 (refTrade live trade) ↔ FillsWholeBuy live trade :=
  ⟨fillsWholeBuy_of_tracks distinct before feed, tracks_of_fillsWholeBuy distinct before⟩

/-! ### Every run -/

/-- Over a run of trades, from a reachable book that agrees with its live orders, every state
reached agrees with the reference exactly when each trade fills a buy order whole. -/
theorem tracks_throughout_iff {book : OrderBookType2} (reachable : Reachable book)
    {live : List Resting} (distinct : Distinct Resting.orderId live)
    (agree : Tracks book.contents live) (trades : List Trade)
    (feed : EachStep (beside processTrade refTrade) (fun state trade => FeedTrade state.2 trade)
      (book, live) trades) :
    Throughout (beside processTrade refTrade) (fun state => Tracks state.1.contents state.2)
        (book, live) trades ↔
      EachStep (beside processTrade refTrade) (fun state trade => FillsWholeBuy state.2 trade)
        (book, live) trades := by
  have decides (state : OrderBookType2 × List Resting) (trade : Trade)
      (invariant : Reachable state.1 ∧ Distinct Resting.orderId state.2)
      (tracks : Tracks state.1.contents state.2) (feed : FeedTrade state.2 trade) :
      ∃ next result, beside processTrade refTrade state trade = some (next, result) ∧
        (Tracks next.1.contents next.2 ↔ FillsWholeBuy state.2 trade) ∧
        (FillsWholeBuy state.2 trade → Reachable next.1 ∧ Distinct Resting.orderId next.2) := by
    obtain ⟨reachable, distinct⟩ := invariant
    obtain ⟨next, returns, nextReachable, contents⟩ :=
      reachable.process_returns (show Proper (.ofTrade trade) from ⟨feed.1, feed.2.1⟩)
    have returned : state.1.processTrade trade = some (next, _) := returns
    have decided := tracks_specProcessTrade_iff distinct tracks feed
    rw [show (specProcessTrade state.1.contents trade).1 = next.contents from contents.symm] at decided
    exact ⟨(next, refTrade state.2 trade), _, by rw [beside, returned]; rfl, decided,
      fun _ => ⟨nextReachable, distinct_fillNamed (distinct_fillNamed distinct)⟩⟩
  exact throughout_iff decides trades (book, live) ⟨reachable, distinct⟩ agree feed

/-- A run of orders leads to a book to which this applies where the levels have followed it. -/
theorem agree_of_run {sizeHint : Nat} {book last : OrderBookType2} {live : List Resting}
    (created : create sizeHint = some book) {orders : List Order}
    (feed : EachStep (beside processOrder refProcess) (fun state order => FeedOrder state.2 order)
      (book, []) orders) {results : List (Except String Bool)}
    (returns : run (beside processOrder refProcess) (book, []) orders =
      some ((last, live), results))
    (follows : Follows last.side live) :
    Reachable last ∧ Distinct Resting.orderId live ∧ Tracks last.contents live := by
  obtain ⟨reachable, mirrors⟩ := (mirrors_throughout created feed).last returns
  exact ⟨reachable, mirrors.distinct, follows, mirrors.entered⟩

/-! ### A book with two bids -/

/-- A bid of 10 at 100 that is raised to 12, and a bid of 5. -/
def firstBid : Order := { type := 'N', orderId := 1, orderType := 'B', price := 100, qty := 10 }

def raisedBid : Order := { type := 'M', orderId := 1, orderType := 'B', price := 100, qty := 12 }

def secondBid : Order := { type := 'N', orderId := 2, orderType := 'B', price := 100, qty := 5 }

def twoBids : OrderBookType2 where
  buy := ⟨[(-100, ⟨100, 17, 2⟩)], List.pairwise_singleton ..⟩
  sell := .empty
  orders := ⟨-1, [(1, some firstBid), (-1, none), (-1, none), (2, some secondBid)], 2⟩

def liveBids : List Resting := [Resting.of secondBid, { Resting.of firstBid with qty := 12 }]

theorem follows_twoBids : Follows twoBids.side liveBids := by
  have start : Follows (fun _ => OrderedMap.empty) [] := fun _ _ => rfl
  have raised : Follows (fun isBuy => if isBuy = true then enter .empty (-100) 100 12 else .empty)
      [{ Resting.of firstBid with qty := 12 }] := start.enter _ fun _ => rfl
  exact raised.enter (Resting.of secondBid) fun isBuy => by cases isBuy <;> rfl

theorem agree_twoBids :
    Reachable twoBids ∧ Distinct Resting.orderId liveBids ∧ Tracks twoBids.contents liveBids := by
  have feed : EachStep (beside processOrder refProcess)
      (fun state order => FeedOrder state.2 order) (⟨.empty, .empty, .empty 4 emptyOrderId⟩, [])
      [firstBid, raisedBid, secondBid] := by decide
  exact agree_of_run (show create 4 = some _ from rfl) feed rfl follows_twoBids

/-- The raised bid and the other one are filled whole, the second by a trade that names an
unknown seller. -/
theorem tracks_throughout_twoBids :
    Throughout (beside processTrade refTrade) (fun state => Tracks state.1.contents state.2)
      (twoBids, liveBids)
      [{ buyOrderId := 1, sellOrderId := 0, price := 100, qty := 12 },
        { buyOrderId := 2, sellOrderId := 7, price := 100, qty := 5 }] :=
  (tracks_throughout_iff agree_twoBids.1 agree_twoBids.2.1 agree_twoBids.2.2 _
    (by decide)).mpr (by decide)

/-- A trade of 3 against the first bid takes an order off the level though the bid stays. -/
theorem partial_fill_takes_order_off_level :
    Reachable twoBids ∧ Distinct Resting.orderId liveBids ∧ Tracks twoBids.contents liveBids ∧
      EachStep (beside processTrade refTrade) (fun state trade => FeedTrade state.2 trade)
        (twoBids, liveBids) [{ buyOrderId := 1, sellOrderId := 0, price := 100, qty := 3 }] ∧
      ¬ Throughout (beside processTrade refTrade) (fun state => Tracks state.1.contents state.2)
        (twoBids, liveBids) [{ buyOrderId := 1, sellOrderId := 0, price := 100, qty := 3 }] := by
  refine ⟨agree_twoBids.1, agree_twoBids.2.1, agree_twoBids.2.2, by decide, ?_⟩
  rintro ⟨-, follows, -⟩
  have level : some (⟨100, 14, 1⟩ : Level) = some ⟨100, 14, 2⟩ := follows true 100
  exact absurd level (by decide)

end BookOver

end ObLib
