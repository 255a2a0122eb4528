/-
This file proves that the two order books write the same listings: fed the same new
orders and cancels, the book that keeps running totals and the book that keeps every
order show the same entries on each side, at most ten, the best price first.

Both listings are the prices at which orders rest, in the order of the side, each with
the total and the number of the quantities there. The first book reads that list off
its levels backwards; the second jumps from price to price and adds the orders up.
-/

import OrderBookSketch.OrderBookType2Reference
import OrderBookSketch.OrderBookImprovedListing
import OrderBookSketch.OrderBookImprovedReference

namespace ObLib

open Containers Runs Ledgers OneSide

/-! ### The orders a side keeps -/

namespace OneSide

variable {before : Price → Price → Prop} {side : OneSide before} {isBuy : Bool}
  {live : List Resting} {order : Order}

/-- The side keeps the live orders of one side of the reference. -/
def Keeps (side : OneSide before) (isBuy : Bool) (live : List Resting) : Prop :=
  ∃ ref, Refines side ref ∧
    (ref.live.map fun arrived => (arrived.orderId, arrived.price, arrived.qty)).Perm
      ((live.filter fun resting => resting.isBuy = isBuy).map fun resting =>
        (resting.orderId, resting.price, resting.qty))

theorem keeps_empty (isBuy : Bool) : Keeps (empty : OneSide before) isBuy [] :=
  ⟨⟨[], 0⟩, refines_empty, .nil⟩

/-- The quantities at a price are those of the reference. -/
theorem Keeps.quantities (keeps : Keeps side isBuy live) (price : Price) :
    (side.quantitiesOf price).Perm (quantitiesAt live isBuy price) := by
  obtain ⟨ref, refines, perm⟩ := keeps
  have nodes : (side.quantitiesOf price).Perm (amountsAt Arrived.price Arrived.qty ref.live price) := by
    rw [quantitiesOf]
    refine (List.Perm.of_eq ?_).trans (amountsAt_perm refines.records price)
    rw [amountsAt_map]
    rfl
  have records : (amountsAt Arrived.price Arrived.qty ref.live price).Perm
      (amountsAt Resting.price Resting.qty
        (live.filter fun resting => resting.isBuy = isBuy) price) := by
    have carried : (amountsAt (fun holding : OrderId × Price × Quantity => holding.2.1)
        (fun holding => holding.2.2) _ price).Perm (amountsAt _ _ _ price) :=
      amountsAt_perm perm price
    rw [amountsAt_map, amountsAt_map] at carried
    exact carried
  refine nodes.trans (records.trans (List.Perm.of_eq ?_))
  rw [amountsAt, List.filter_filter, quantitiesAt, amountsAt]
  refine congrArg (List.map Resting.qty) (List.filter_congr fun resting _ => ?_)
  rw [Resting.place, ← Bool.decide_and]
  exact decide_eq_decide.mpr (by rw [Prod.mk.injEq, and_comm])

/-- Positive quantities add up to a number of an `int` when it is small enough. -/
theorem Keeps.fitsInt32 (keeps : Keeps side isBuy live) (positive : ∀ resting ∈ live, 0 < resting.qty)
    (fits : ∀ price, (quantitiesAt live isBuy price).sum < 2 ^ 31) (price : Price) :
    FitsInt32 (side.quantitiesOf price).sum := by
  rw [(keeps.quantities price).sum_eq]
  have nonneg : 0 ≤ (quantitiesAt live isBuy price).sum :=
    List.sum_nonneg fun qty member =>
      (BookOver.positive_quantitiesAt positive isBuy price qty member).le
  exact ⟨le_trans (by decide) nonneg, fits price⟩

/-- An id that is not live is not known to the side. -/
theorem Keeps.hash_eq_none (keeps : Keeps side isBuy live) {orderId : OrderId}
    (fresh : recordOf Resting.orderId live orderId = none) : side.hash orderId = none := by
  obtain ⟨ref, refines, perm⟩ := keeps
  rw [refines.hash, Option.map_eq_none_iff, recordOf_eq_none_iff]
  intro arrived member same
  obtain ⟨resting, inSide, carried⟩ := List.mem_map.mp (perm.mem_iff.mp (List.mem_map_of_mem member))
  exact recordOf_eq_none_iff.mp fresh resting (List.mem_filter.mp inSide).1
    ((Prod.mk.inj carried).1.trans same)

/-- An order of the other side does not show. -/
theorem Keeps.cons_other (keeps : Keeps side isBuy live) (other : order.isBuy ≠ isBuy) :
    Keeps side isBuy (Resting.of order :: live) := by
  obtain ⟨ref, refines, perm⟩ := keeps
  refine ⟨ref, refines, ?_⟩
  rwa [List.filter_cons_of_neg (by exact fun same => other (of_decide_eq_true same))]

theorem Keeps.without_other (keeps : Keeps side isBuy live) (distinct : Distinct Resting.orderId live)
    {orderId : OrderId}
    (other : ∀ resting ∈ recordOf Resting.orderId live orderId, resting.isBuy ≠ isBuy) :
    Keeps side isBuy (without Resting.orderId live orderId) := by
  obtain ⟨ref, refines, perm⟩ := keeps
  refine ⟨ref, refines, perm.trans (List.Perm.of_eq (congrArg (List.map _) ?_))⟩
  rw [without, List.filter_filter]
  refine List.filter_congr fun resting member => ?_
  by_cases onSide : resting.isBuy = isBuy
  · have stays : resting.orderId ≠ orderId := fun same =>
      other resting ((recordOf_eq_some_iff distinct).mpr ⟨member, same⟩) onSide
    simp [stays]
  · simp [onSide]

variable [DecidableRel before] [IsStrictTotalOrder Price before]

theorem Keeps.points (keeps : Keeps side isBuy live) : Points side.map.nodes side.hash := by
  obtain ⟨ref, refines, -⟩ := keeps
  intro orderId it found
  obtain ⟨node, member, handle, sameId, -⟩ := refines.exact.entry orderId it found
  exact ⟨node, member, handle, sameId⟩

theorem Keeps.processNew (keeps : Keeps side isBuy live) (onSide : order.isBuy = isBuy)
    (fresh : recordOf Resting.orderId live order.orderId = none) :
    ∃ next, side.processNew order = some (next, .ok ()) ∧
      Keeps next isBuy (Resting.of order :: live) := by
  obtain ⟨next, result, returns, -, inserts⟩ := answers_processNew keeps.points order
  have fine : result = .ok () := by
    simp only [OneSide.processNew, keeps.hash_eq_none fresh, Option.some.injEq,
      Prod.mk.injEq] at returns
    exact returns.2.symm
  obtain ⟨ref, refines, perm⟩ := keeps
  refine ⟨next, fine ▸ returns, ref.insert order, inserts ref refines fine, ?_⟩
  rw [List.filter_cons_of_pos (by exact decide_eq_true onSide)]
  exact perm.cons _

theorem Keeps.processCancel (keeps : Keeps side isBuy live) (order : Order) :
    ∃ next, side.processCancel order = some (next, .ok ()) ∧
      Keeps next isBuy (without Resting.orderId live order.orderId) := by
  obtain ⟨next, result, returns, -, cancels⟩ := answers_processCancel keeps.points order
  have fine : result = .ok () := by
    unfold OneSide.processCancel at returns
    cases found : side.hash order.orderId with
    | none =>
      simp only [found, Option.some.injEq, Prod.mk.injEq] at returns
      exact returns.2.symm
    | some it =>
      simp only [found, Option.bind_eq_bind, Option.bind_eq_some_iff, Option.pure_def,
        Option.some.injEq, Prod.mk.injEq] at returns
      obtain ⟨map, -, -, text⟩ := returns
      exact text.symm
  obtain ⟨ref, refines, perm⟩ := keeps
  refine ⟨next, fine ▸ returns, ref.cancel order.orderId, cancels ref refines fine, ?_⟩
  have left := perm.filter fun holding => holding.1 ≠ order.orderId
  rw [List.filter_map, List.filter_map, List.filter_filter] at left
  refine left.trans (List.Perm.of_eq (congrArg (List.map _) ?_))
  rw [without, List.filter_filter]
  exact List.filter_congr fun resting _ => Bool.and_comm _ _

end OneSide

/-! ### The listing of a side that keeps totals -/

namespace BookOver

variable {levels : Bool → Levels} {live : List Resting} {isBuy : Bool}

/-- Every level stands under the priority of its price. -/
theorem Follows.key_eq (follows : Follows levels live) {entry : Int × Level}
    (member : entry ∈ (levels isBuy).entries) : entry.1 = prio isBuy entry.2.price := by
  obtain ⟨price, key⟩ := exists_prio isBuy entry.1
  have stored := OrderedMap.get_eq_some_iff.mpr member
  rw [← key, follows] at stored
  unfold levelOf at stored
  split_ifs at stored
  rw [← Option.some.inj stored, key]

/-- The levels of a side backwards are the listing of the live orders there. -/
theorem Follows.lists (follows : Follows levels live) {before : Price → Price → Prop}
    (order : ∀ price other, prio isBuy price < prio isBuy other → before price other) :
    Lists before (quantitiesAt live isBuy) ((levels isBuy).entries.reverse.map Prod.snd) where
  sorted := by
    rw [List.pairwise_map, List.pairwise_reverse]
    refine (levels isBuy).sorted.imp_of_mem fun {first second} inFirst inSecond later => ?_
    rw [follows.key_eq inFirst, follows.key_eq inSecond] at later
    exact order _ _ later
  mem_iff := by
    intro level
    rw [← follows, OrderedMap.get_eq_some_iff, List.mem_map]
    constructor
    · rintro ⟨entry, member, rfl⟩
      rw [List.mem_reverse] at member
      rwa [← follows.key_eq member]
    · intro member
      exact ⟨_, List.mem_reverse.mpr member, rfl⟩

end BookOver

/-! ### Both books -/

/-- Both books take the same order. -/
def feedBoth : OrderBookType2 × OrderBookImproved → Order →
    Option ((OrderBookType2 × OrderBookImproved) × Unit)
  | (totals, orders), order => do
    let (totals, _) ← totals.processOrder order
    let (orders, _) ← orders.processOrder order
    return ((totals, orders), ())

/-- A new order or a cancel; a cancel of a live order names its side. -/
def NewOrCancel (live : List Resting) (order : Order) : Prop :=
  BookOver.FeedOrder live order ∧ order.type ≠ 'M' ∧
    (order.type = 'X' → ∀ resting ∈ recordOf Resting.orderId live order.orderId,
      order.isBuy = resting.isBuy)

instance (live : List Resting) (order : Order) : Decidable (NewOrCancel live order) :=
  inferInstanceAs (Decidable (_ ∧ _))

/-- The reference book as a step. -/
def refStep (live : List Resting) (order : Order) : List Resting × Unit :=
  (refProcess live order, ())

/-- Both books hold the live orders, which rest as they came in. -/
structure Together (books : OrderBookType2 × OrderBookImproved) (live : List Resting) : Prop where
  reachable : BookOver.Reachable books.1
  mirrors : BookOver.Mirrors books.1.contents live
  follows : BookOver.Follows books.1.side live
  entered : ∀ resting ∈ live, resting.price = resting.entered.price ∧
    resting.qty = resting.entered.qty
  bids : books.2.bids.Keeps true live
  asks : books.2.asks.Keeps false live

variable {live : List Resting} {order : Order}

theorem refProcess_entered (feed : NewOrCancel live order)
    (entered : ∀ resting ∈ live, resting.price = resting.entered.price ∧
      resting.qty = resting.entered.qty) :
    ∀ resting ∈ refProcess live order, resting.price = resting.entered.price ∧
      resting.qty = resting.entered.qty := by
  obtain ⟨⟨-, -, kind, -⟩, notModify, -⟩ := feed
  intro resting member
  unfold refProcess at member
  rcases kind with new | modify | cancel
  · simp only [new, List.mem_cons] at member
    rcases member with rfl | older
    · exact ⟨rfl, rfl⟩
    · exact entered resting older
  · exact absurd modify notModify
  · simp only [cancel] at member
    exact entered resting (List.mem_filter.mp member).1

/-- The book that keeps every order takes a new order or a cancel without a throw. -/
theorem OrderBookImproved.keeps_processOrder {book : OrderBookImproved}
    (bids : book.bids.Keeps true live) (asks : book.asks.Keeps false live)
    (distinct : Distinct Resting.orderId live) (feed : NewOrCancel live order) :
    ∃ next, book.processOrder order = some (next, .ok ()) ∧
      next.bids.Keeps true (refProcess live order) ∧
      next.asks.Keeps false (refProcess live order) := by
  obtain ⟨⟨-, -, kind, fresh, -⟩, notModify, sameSide⟩ := feed
  unfold OrderBookImproved.processOrder refProcess
  rcases kind with new | modify | cancel
  · simp only [new]
    cases isBuy : order.isBuy with
    | true =>
      obtain ⟨next, returns, keeps⟩ := bids.processNew isBuy (fresh new)
      refine ⟨{ book with bids := next }, ?_, keeps, asks.cons_other (by rw [isBuy]; decide)⟩
      rw [if_pos rfl, onBids, returns]
      rfl
    | false =>
      obtain ⟨next, returns, keeps⟩ := asks.processNew isBuy (fresh new)
      refine ⟨{ book with asks := next }, ?_, bids.cons_other (by rw [isBuy]; decide), keeps⟩
      rw [if_neg (by decide), onAsks, returns]
      rfl
  · exact absurd modify notModify
  · simp only [cancel]
    have opposite (isBuy : Bool) (other : order.isBuy ≠ isBuy) :
        ∀ resting ∈ recordOf Resting.orderId live order.orderId, resting.isBuy ≠ isBuy :=
      fun resting found same => other ((sameSide cancel resting found).trans same)
    cases isBuy : order.isBuy with
    | true =>
      obtain ⟨next, returns, keeps⟩ := bids.processCancel order
      refine ⟨{ book with bids := next }, ?_, keeps,
        asks.without_other distinct (opposite false (by rw [isBuy]; decide))⟩
      rw [if_pos rfl, onBids, returns]
      rfl
    | false =>
      obtain ⟨next, returns, keeps⟩ := asks.processCancel order
      refine ⟨{ book with asks := next }, ?_,
        bids.without_other distinct (opposite true (by rw [isBuy]; decide)), keeps⟩
      rw [if_neg (by decide), onAsks, returns]
      rfl

theorem feedBoth_simulates : Simulates feedBoth refStep Together NewOrCancel := by
  rintro ⟨totals, orders⟩ live order together feed
  obtain ⟨nextTotals, returns, reachable, contents⟩ :=
    together.reachable.process_returns (show BookOver.Proper (.ofOrder order) from feed.1.1)
  obtain ⟨nextOrders, answers, bids, asks⟩ := OrderBookImproved.keeps_processOrder
    together.bids together.asks together.mirrors.distinct feed
  have returned : totals.processOrder order = some (nextTotals, _) := returns
  have right : BookOver.TakesOffRight live order := by
    intro _ resting found
    obtain ⟨samePrice, sameQty⟩ := together.entered resting (recordOf_some found).1
    exact ⟨samePrice, .inl sameQty⟩
  have follows :=
    (BookOver.follows_specProcessOrder_iff together.mirrors together.follows feed.1).mpr right
  have mirrors := together.mirrors.specProcessOrder feed.1
  refine ⟨(nextTotals, nextOrders), ?_, ?_⟩
  · rw [feedBoth, returned]
    simp only [Option.bind_eq_bind, Option.bind_some, answers]
    rfl
  · exact {
      reachable := reachable
      mirrors := by rw [contents]; exact mirrors
      follows := by
        show BookOver.Follows nextTotals.contents.side _
        rw [contents]
        exact follows
      entered := refProcess_entered feed together.entered
      bids := bids
      asks := asks }

/-- Fed the same new orders and cancels, the two books write the same entries on each side: the
first ten of the prices with live orders, the best price first, each with the total and the
number of the orders there. -/
theorem listings_agree {sizeHint : Nat} {book : OrderBookType2}
    (created : BookOver.create sizeHint = some book) (orders : List Order)
    (feed : Along refStep NewOrCancel [] orders)
    (fits : ∀ isBuy price,
      (quantitiesAt (specRun refStep [] orders).1 isBuy price).sum < 2 ^ 31) :
    ∃ totals improved outputs,
      run feedBoth (book, OrderBookImproved.empty) orders = some ((totals, improved), outputs) ∧
      BookOver.listing totals.buy = improved.bids.listing ∧
      BookOver.listing totals.sell = improved.asks.listing ∧
      ∃ bids asks, Lists (· > ·) (quantitiesAt (specRun refStep [] orders).1 true) bids ∧
        Lists (· < ·) (quantitiesAt (specRun refStep [] orders).1 false) asks ∧
        BookOver.listing totals.buy = bids.take 10 ∧
        BookOver.listing totals.sell = asks.take 10 := by
  have start : Together (book, OrderBookImproved.empty) [] := {
    reachable := .create created
    mirrors := by
      rw [(BookOver.indexes_create created).contents_eq]
      exact BookOver.mirrors_nil
    follows := by
      intro isBuy price
      rw [(BookOver.indexes_create created).side_eq]
      cases isBuy <;> rfl
    entered := fun resting member => by cases member
    bids := keeps_empty true
    asks := keeps_empty false }
  obtain ⟨⟨totals, improved⟩, returns, together⟩ :=
    run_simulates feedBoth_simulates orders _ [] start feed
  have positive (resting : Resting) (member : resting ∈ (specRun refStep [] orders).1) :=
    (together.mirrors.positive resting member).1
  have buy : Lists (· > ·) (quantitiesAt (specRun refStep [] orders).1 true) _ :=
    together.follows.lists fun price other later => neg_lt_neg_iff.mp later
  have sell : Lists (· < ·) (quantitiesAt (specRun refStep [] orders).1 false) _ :=
    together.follows.lists fun price other later => later
  have bids := (buy.of_perm together.bids.quantities).listing_eq
    (together.bids.fitsInt32 positive (fits true))
  have asks := (sell.of_perm together.asks.quantities).listing_eq
    (together.asks.fitsInt32 positive (fits false))
  exact ⟨totals, improved, _, returns, bids.symm, asks.symm, _, _, buy, sell, rfl, rfl⟩

/-- Two bids at one price, one of them cancelled again, a better bid, an ask, and a cancel of an
unknown id. -/
theorem listings_agree_example :
    ∃ book, BookOver.create 1 = some book ∧ ∃ totals improved outputs,
      run feedBoth (book, OrderBookImproved.empty)
        [{ type := 'N', orderId := 1, orderType := 'B', price := 100, qty := 10 },
          { type := 'N', orderId := 2, orderType := 'B', price := 100, qty := 5 },
          { type := 'N', orderId := 3, orderType := 'B', price := 101, qty := 3 },
          { type := 'N', orderId := 4, orderType := 'S', price := 102, qty := 7 },
          { type := 'X', orderId := 2, orderType := 'B', price := 100, qty := 5 },
          { type := 'X', orderId := 9, orderType := 'S', price := 102, qty := 1 }] =
        some ((totals, improved), outputs) ∧
      BookOver.listing totals.buy = improved.bids.listing ∧
      BookOver.listing totals.sell = improved.asks.listing := by
  have created : BookOver.create 1 = some ⟨.empty, .empty, .empty 1 BookOver.emptyOrderId⟩ := rfl
  obtain ⟨totals, improved, outputs, returns, bids, asks, -⟩ := listings_agree created
    [{ type := 'N', orderId := 1, orderType := 'B', price := 100, qty := 10 },
      { type := 'N', orderId := 2, orderType := 'B', price := 100, qty := 5 },
      { type := 'N', orderId := 3, orderType := 'B', price := 101, qty := 3 },
      { type := 'N', orderId := 4, orderType := 'S', price := 102, qty := 7 },
      { type := 'X', orderId := 2, orderType := 'B', price := 100, qty := 5 },
      { type := 'X', orderId := 9, orderType := 'S', price := 102, qty := 1 }]
    (show Along refStep NewOrCancel [] _ by
      refine ⟨?_, ?_, ?_, ?_, ?_, ?_, trivial⟩ <;> decide)
    (by
      intro isBuy price
      show (quantitiesAt
        [Resting.of { type := 'N', orderId := 4, orderType := 'S', price := 102, qty := 7 },
          Resting.of { type := 'N', orderId := 3, orderType := 'B', price := 101, qty := 3 },
          Resting.of { type := 'N', orderId := 1, orderType := 'B', price := 100, qty := 10 }]
        isBuy price).sum < 2 ^ 31
      simp only [BookOver.quantitiesAt_cons, show quantitiesAt [] isBuy price = [] from rfl]
      split_ifs <;> simp [Resting.of])
  exact ⟨_, created, totals, improved, outputs, returns, bids, asks⟩

end ObLib
