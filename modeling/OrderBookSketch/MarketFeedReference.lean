/-
This file compares what a subscriber logs of a publisher's messages with a reference: for
each security the live orders of its messages, listed as the best ten prices of each side.

A message takes off the book what the index has for its order, so the two agree as long as
that is what rests there. For modifies and cancels this is the condition of the order book
by itself. A trade has to fill a buy order that rests as it came in, and to name no live
sell order, or else to name no live order at all.
-/

import OrderBookSketch.MarketFeed
import Mathlib.Data.List.Sort

namespace ObLib

open Containers Runs Ledgers

/-! ### The reference -/

/-- The levels of the live orders of a side, the best price first. -/
def ladder (live : List Resting) (isBuy : Bool) : List Level :=
  (((live.filter (·.isBuy = isBuy)).map Resting.price).dedup.insertionSort
      fun price other => BookOver.prio isBuy price ≤ BookOver.prio isBuy other).map fun price =>
    { price := price
      qty := (quantitiesAt live isBuy price).sum
      orderCount := (quantitiesAt live isBuy price).length }

/-- What should be printed of live orders. -/
def refListing (live : List Resting) : String :=
  (if ladder live true = [] then "" else "\n Buy: ") ++
    listingText 0 ((ladder live true).take 10) ++
    (if ladder live false = [] then "" else "\n Sell: ") ++
    listingText 0 ((ladder live false).take 10)

def refMessage (live : List Resting) : Message → List Resting
  | .ofOrder order => refProcess live order
  | .ofTrade trade => BookOver.refTrade live trade

namespace MarketFeed

/-- The reference of a security by itself. -/
def refAlone : Option (List Resting) → SimpleMsg → Option (List Resting) × String
  | some live, msg =>
    (some (refMessage live msg.message), refListing (refMessage live msg.message))
  | none, _ => (none, "")

/-- No live orders yet of each of the tokens. -/
def references (tokens : List TokenId) (token : TokenId) : Option (List Resting) :=
  if token ∈ tokens then some [] else none

end MarketFeed

namespace BookOver

/-- The trade fills a buy order that rests as it came in, or names none; and it names no live sell
order. -/
def FillsRight (live : List Resting) (trade : Trade) : Prop :=
  named live false trade.sellOrderId = none ∧
    (recordOf Resting.orderId live trade.buyOrderId = none ∨
      ∃ resting ∈ named live true trade.buyOrderId, resting.price = trade.price ∧
        resting.qty = trade.qty ∧ resting.entered.qty = trade.qty)

/-- What the code takes off the levels for a message is what rests there. -/
def RightFor (live : List Resting) : Message → Prop
  | .ofOrder order => order.type ∈ ['N', 'M', 'X'] → FeedOrder live order ∧ TakesOffRight live order
  | .ofTrade trade => FillsRight live trade

instance (live : List Resting) (trade : Trade) : Decidable (FillsRight live trade) :=
  inferInstanceAs (Decidable (_ ∧ (_ ∨ ∃ resting ∈ named live true trade.buyOrderId, _)))

instance (live : List Resting) : (message : Message) → Decidable (RightFor live message)
  | .ofOrder order => inferInstanceAs (Decidable (order.type ∈ _ → _))
  | .ofTrade trade => inferInstanceAs (Decidable (FillsRight live trade))

/-! ### Listings -/

section Listings

variable {live : List Resting} {isBuy : Bool}

theorem mem_ladder_prices {price : Price} :
    price ∈ (live.filter (·.isBuy = isBuy)).map Resting.price ↔
      quantitiesAt live isBuy price ≠ [] := by
  rw [quantitiesAt, amountsAt_ne_nil_iff]
  simp only [List.mem_map, List.mem_filter, decide_eq_true_eq, Resting.place, Prod.mk.injEq,
    and_assoc]

/-- The ladder has every level, the best price first. -/
theorem lists_ladder (live : List Resting) (isBuy : Bool) :
    Lists (fun price other => prio isBuy price < prio isBuy other) (quantitiesAt live isBuy)
      (ladder live isBuy) where
  sorted := by
    unfold ladder
    rw [List.pairwise_map]
    have total : Std.Total fun price other : Price => prio isBuy price ≤ prio isBuy other :=
      ⟨fun price other => Int.le_total _ _⟩
    have transitive : IsTrans Price fun price other => prio isBuy price ≤ prio isBuy other :=
      ⟨fun _ _ _ => Int.le_trans⟩
    have sorted := List.pairwise_insertionSort
      (fun price other : Price => prio isBuy price ≤ prio isBuy other)
      ((live.filter (·.isBuy = isBuy)).map Resting.price).dedup
    have distinct := (List.perm_insertionSort
      (fun price other : Price => prio isBuy price ≤ prio isBuy other)
      ((live.filter (·.isBuy = isBuy)).map Resting.price).dedup).nodup_iff.mpr (List.nodup_dedup _)
    exact (sorted.and distinct).imp fun ⟨notWorse, different⟩ =>
      lt_of_le_of_ne notWorse (prio_inj.not.mpr different)
  mem_iff := by
    intro level
    unfold ladder levelOf
    simp only [List.mem_map, List.mem_insertionSort, List.mem_dedup]
    constructor
    · rintro ⟨price, member, rfl⟩
      exact if_neg (mem_ladder_prices.mp (List.mem_map.mpr member))
    · intro here
      split_ifs at here with none
      exact ⟨level.price, List.mem_map.mp (mem_ladder_prices.mpr none), Option.some.inj here⟩

/-- There is one listing of the levels. -/
theorem lists_unique {quantities : Price → List Quantity} {levels others : List Level}
    (lists : Lists (fun price other => prio isBuy price < prio isBuy other) quantities levels)
    (listsOther :
      Lists (fun price other => prio isBuy price < prio isBuy other) quantities others) :
    levels = others := by
  have asymmetric : Std.Antisymm fun level other : Level =>
      prio isBuy level.price < prio isBuy other.price :=
    ⟨fun _ _ before after => absurd before (Int.lt_asymm after)⟩
  have irreflexive : Std.Irrefl fun level other : Level =>
      prio isBuy level.price < prio isBuy other.price := ⟨fun _ => Int.lt_irrefl _⟩
  exact lists.sorted.eq_of_mem_iff listsOther.sorted fun level =>
    (lists.mem_iff level).trans (listsOther.mem_iff level).symm

/-- A book whose levels follow the live orders prints them. -/
theorem toString_of_follows {book : OrderBookType2} (follows : Follows book.side live) :
    book.toString = refListing live := by
  have levels (isBuy : Bool) :
      (book.side isBuy).entries.reverse.map Prod.snd = ladder live isBuy :=
    lists_unique (follows.lists fun _ _ less => less) (lists_ladder live isBuy)
  have some (isBuy : Bool) (text : String) : (if 0 < (book.side isBuy).size then text else "") =
      if ladder live isBuy = [] then "" else text := by
    rw [← levels, OrderedMap.size]
    cases (book.side isBuy).entries with
    | nil => rfl
    | cons => simp
  show (if 0 < (book.side true).size then _ else _) ++
      listingText 0 (((book.side true).entries.reverse.map Prod.snd).take 10) ++
      (if 0 < (book.side false).size then _ else _) ++
      listingText 0 (((book.side false).entries.reverse.map Prod.snd).take 10) = _
  rw [some, some, levels, levels]
  rfl

end Listings

/-! ### One message -/

section Message

variable {book : SpecBook} {live : List Resting} {trade : Trade}

/-- A trade that names no live order does nothing, in the book or in the reference. -/
theorem specProcessTrade_of_unknown (mirrors : Mirrors book live)
    (noSell : named live false trade.sellOrderId = none)
    (noBuy : recordOf Resting.orderId live trade.buyOrderId = none) :
    (∀ isBuy, (book.specProcessTrade trade).1.side isBuy = book.side isBuy) ∧
      (book.specProcessTrade trade).1.orders = book.orders ∧ refTrade live trade = live := by
  have absent : book.orders trade.buyOrderId = none := by rw [mirrors.entered, noBuy]; rfl
  have skipsBuy : ¬ book.BuyLegRuns trade := fun ⟨_, found⟩ => by
    rw [absent] at found
    cases found
  have skipsSell : ¬ book.SellLegRuns trade := fun ⟨_, resting, found, _⟩ => by
    rw [absent] at found
    cases found
  have noNamed : named live true trade.buyOrderId = none := by
    unfold named
    rw [noBuy]
    split_ifs <;> rfl
  refine ⟨fun isBuy => ?_, ?_, ?_⟩
  · rw [side_specProcessTrade, if_neg]
    rintro (⟨-, runs⟩ | ⟨-, runs⟩)
    · exact skipsBuy runs
    · exact skipsSell runs
  · rw [orders_specProcessTrade]
    split_ifs
    · rfl
    · funext orderId
      rw [orders_specFillOrder]
      split_ifs with same
      · rw [same, absent]
        rfl
      · rfl
  · rw [refTrade_of_sell_eq_none noSell, fillNamed, noNamed]

/-- A trade that fills a buy order as it came in takes it out of the index and off its level. -/
theorem specProcessTrade_of_fill (mirrors : Mirrors book live) (follows : Follows book.side live)
    (noSell : named live false trade.sellOrderId = none) {resting : Resting}
    (found : named live true trade.buyOrderId = some resting) (price : resting.price = trade.price)
    (qty : resting.qty = trade.qty) (entered : resting.entered.qty = trade.qty) :
    Follows (book.specProcessTrade trade).1.side (Beside live trade.buyOrderId) ∧
      (book.specProcessTrade trade).1.orders =
        Function.update book.orders trade.buyOrderId none ∧
      refTrade live trade = Beside live trade.buyOrderId := by
  obtain ⟨nonzero, record, side⟩ := named_some found
  have stored : book.orders trade.buyOrderId = some resting.entered := by
    rw [mirrors.entered, record]
    rfl
  have buys : book.BuyLegRuns trade := ⟨nonzero, by rw [stored]; rfl⟩
  have skips : ¬ book.SellLegRuns trade := by
    rintro ⟨-, other, same, left⟩
    obtain rfl := Option.some.inj (stored.symm.trans same)
    exact absurd (left.resolve_left nonzero).1 (lt_irrefl _ <| entered ▸ ·)
  refine ⟨(follows_reduce_iff (follows.split mirrors.distinct record) fun isBuy => ?_).mpr
    ⟨price, .inl ⟨qty, settled_of_pos (positive_quantitiesAt ?_ _ _)⟩⟩, ?_, ?_⟩
  · rw [side_specProcessTrade, side]
    cases isBuy <;> simp [buys, skips]
  · exact fun other member => (mirrors.positive other (List.mem_filter.mp member).1).1
  · rw [orders_specProcessTrade, if_neg fun neither => nonzero neither.1]
    funext orderId
    rw [orders_specFillOrder, Function.update_apply, stored]
    split_ifs with same
    · simp [entered]
    · rfl
  · rw [refTrade_of_sell_eq_none noSell, fillNamed, found]
    exact if_pos qty

/-- After a trade that takes off what rests, the book still has what the reference has. -/
theorem right_specProcessTrade (mirrors : Mirrors book live) (follows : Follows book.side live)
    (right : FillsRight live trade) :
    Mirrors (book.specProcessTrade trade).1 (refTrade live trade) ∧
      Follows (book.specProcessTrade trade).1.side (refTrade live trade) := by
  obtain ⟨noSell, noBuy | ⟨resting, found, price, qty, entered⟩⟩ := right
  · obtain ⟨sides, orders, same⟩ := specProcessTrade_of_unknown mirrors noSell noBuy
    rw [same]
    refine ⟨⟨mirrors.distinct, fun orderId => ?_, mirrors.positive⟩, fun isBuy price => ?_⟩
    · rw [orders]
      exact mirrors.entered orderId
    · rw [sides]
      exact follows isBuy price
  · obtain ⟨again, orders, same⟩ :=
      specProcessTrade_of_fill mirrors follows noSell found price qty entered
    rw [same]
    exact ⟨mirrors.remove trade.buyOrderId orders, again⟩

/-- So it has after an order. -/
theorem right_specProcessOrder {order : Order} (mirrors : Mirrors book live)
    (follows : Follows book.side live) (right : RightFor live (.ofOrder order)) :
    Mirrors (book.specProcessOrder order).1 (refProcess live order) ∧
      Follows (book.specProcessOrder order).1.side (refProcess live order) := by
  by_cases kind : order.type ∈ ['N', 'M', 'X']
  · obtain ⟨feed, takesOff⟩ := right kind
    exact ⟨mirrors.specProcessOrder feed,
      (follows_specProcessOrder_iff mirrors follows feed).mpr takesOff⟩
  · -- a message of another type, a spread's, is passed over
    simp only [List.mem_cons, List.not_mem_nil, or_false, not_or] at kind
    obtain ⟨notNew, notModify, notCancel⟩ := kind
    have passes : book.specProcessOrder order = (book, .ok false) := by
      unfold specProcessOrder
      split <;> first | contradiction | rfl
    have keeps : refProcess live order = live := by
      unfold refProcess
      split <;> first | contradiction | rfl
    rw [passes, keeps]
    exact ⟨mirrors, follows⟩

end Message

/-- A book that has what the reference has. -/
structure AgreesWith (book : OrderBookType2) (live : List Resting) : Prop where
  reachable : Reachable book
  mirrors : Mirrors book.contents live
  follows : Follows book.side live

theorem AgreesWith.process {book : OrderBookType2} {live : List Resting} {message : Message}
    (agrees : AgreesWith book live) (proper : Proper message) (right : RightFor live message) :
    ∃ next result, book.process message = some (next, result) ∧
      AgreesWith next (refMessage live message) := by
  obtain ⟨next, returns, reachable, contents⟩ := agrees.reachable.process_returns proper
  have both : Mirrors next.contents (refMessage live message) ∧
      Follows next.contents.side (refMessage live message) := by
    rw [contents]
    cases message with
    | ofOrder order => exact right_specProcessOrder agrees.mirrors agrees.follows right
    | ofTrade trade => exact right_specProcessTrade agrees.mirrors agrees.follows right
  exact ⟨next, _, returns, reachable, both.1, both.2⟩

end BookOver

/-! ### The far end -/

namespace MarketFeed

open OrderBookManagerType2 (emptyToken maxSecurities)

/-- A security with a book has a reference that the book agrees with. -/
def BookAgrees : Option OrderBookType2 → Option (List Resting) → Prop
  | some book, some live => BookOver.AgreesWith book live
  | none, none => True
  | _, _ => False

/-- What is taken off for the message, if its security has a book, is what rests there. -/
def RightAlone (live : Option (List Resting)) (msg : SimpleMsg) : Prop :=
  ∀ orders ∈ live, BookOver.RightFor orders msg.message

instance (live : Option (List Resting)) (msg : SimpleMsg) : Decidable (RightAlone live msg) :=
  inferInstanceAs (Decidable (∀ orders ∈ live, _))

/-- The message has a condition of its own as well. -/
def FitsAlone (live : Option (List Resting)) (msg : SimpleMsg) : Prop :=
  BookOver.Proper msg.message ∧ RightAlone live msg

theorem alone_simulates : Simulates alone refAlone BookAgrees FitsAlone := by
  intro book live msg agrees fits
  cases book with
  | none =>
    cases live with
    | none => exact ⟨none, rfl, trivial⟩
    | some live => exact agrees.elim
  | some book =>
    cases live with
    | none => exact agrees.elim
    | some live =>
      obtain ⟨next, result, returns, again⟩ :=
        BookOver.AgreesWith.process agrees fits.1 (fits.2 live rfl)
      refine ⟨some next, ?_, again⟩
      rw [alone, returns, Option.map_some, BookOver.toString_of_follows again.follows]
      rfl

/-- Without a book there is nothing to take off. -/
theorem along_none {msgs : List SimpleMsg} (proper : ∀ msg ∈ msgs, BookOver.Proper msg.message) :
    Along refAlone FitsAlone none msgs := by
  induction msgs with
  | nil => trivial
  | cons msg msgs inductionHypothesis =>
    obtain ⟨here, later⟩ := List.forall_mem_cons.mp proper
    exact ⟨⟨here, nofun⟩, inductionHypothesis later⟩

end MarketFeed

end ObLib
