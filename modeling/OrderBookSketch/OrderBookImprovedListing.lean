/-
This file proves that `toString` of the book that keeps every order shows each side as
it is: one entry for each price, the best price first and at most ten of them, with the
total and the number of all orders there.

The loop jumps from price to price by `upper_bound`, and an inner loop walks the equal
range. The prices that are left when a price has been shown are those of the nodes
behind its upper bound, so the ranges follow each other without a gap.
-/

import OrderBookSketch.OrderBookImproved
import OrderBookSketch.OrderBookType2Levels
import Mathlib.Algebra.BigOperators.Ring.Finset
import Mathlib.Data.List.Dedup

namespace ObLib

open Containers Ledgers

/-! ### The listing of a side that keeps every order -/

namespace OneSide

variable {before : Price → Price → Prop} {side : OneSide before}

/-- The sum of an equal range is right modulo the range of an `int`. -/
theorem foldl_aggregate (nodes : List (Node Price Order)) (start count : Int) :
    nodes.foldl (fun (aggQuantity, orderCount) node =>
        (asInt32 (aggQuantity + node.value.qty), orderCount + 1)) (asInt32 start, count) =
      (asInt32 (start + (nodes.map fun node => node.value.qty).sum), count + nodes.length) := by
  induction nodes generalizing start count with
  | nil => simp
  | cons node nodes inductionHypothesis =>
    have wraps : asInt32 (asInt32 start + node.value.qty) = asInt32 (start + node.value.qty) :=
      Int.bmod_add_bmod
    rw [List.foldl_cons, List.map_cons, List.sum_cons, List.length_cons]
    show nodes.foldl _ (asInt32 (asInt32 start + node.value.qty), count + 1) = _
    rw [wraps, inductionHypothesis, Prod.mk.injEq]
    exact ⟨by rw [add_assoc], by push_cast; ring⟩

theorem aggregate_eq {nodes : List (Node Price Order)}
    (fits : FitsInt32 (nodes.map fun node => node.value.qty).sum) :
    aggregate nodes = ((nodes.map fun node => node.value.qty).sum, (nodes.length : Int)) := by
  have sums := foldl_aggregate nodes 0 0
  rw [zero_add, zero_add, asInt32_of_fits fits] at sums
  exact sums

/-- The quantities of the nodes at a price. -/
def quantitiesOf (side : OneSide before) (price : Price) : List Quantity :=
  amountsAt Node.key (fun node => node.value.qty) side.map.nodes price

end OneSide

open OneSide

section Listed

variable {before : Price → Price → Prop} {side : OneSide before}

/-- A listing: the prices at which quantities rest, in the order of the side, each with their
total and number. -/
structure Lists (before : Price → Price → Prop) (quantities : Price → List Quantity)
    (levels : List Level) : Prop where
  sorted : levels.Pairwise fun first second => before first.price second.price
  mem_iff : ∀ level, level ∈ levels ↔ levelOf level.price (quantities level.price) = some level

/-- The order of the quantities at a price does not show. -/
theorem Lists.of_perm {quantities others : Price → List Quantity} {levels : List Level}
    (lists : Lists before quantities levels)
    (perm : ∀ price, (others price).Perm (quantities price)) : Lists before others levels where
  sorted := lists.sorted
  mem_iff := fun level => by rw [lists.mem_iff, levelOf_perm (perm level.price)]

/-- Every node has its price on the listing. -/
theorem Lists.exists_level {levels : List Level} (lists : Lists before side.quantitiesOf levels)
    {node : Node Price Order} (member : node ∈ side.map.nodes) :
    ∃ level ∈ levels, level.price = node.key := by
  have some : side.quantitiesOf node.key ≠ [] := amountsAt_ne_nil_iff.mpr ⟨node, member, rfl⟩
  refine ⟨⟨node.key, (side.quantitiesOf node.key).sum, (side.quantitiesOf node.key).length⟩,
    (lists.mem_iff _).mpr ?_, rfl⟩
  simp [levelOf, some]

/-- Every level of the listing has a node at its price. -/
theorem Lists.exists_node {levels : List Level} (lists : Lists before side.quantitiesOf levels) {level : Level}
    (member : level ∈ levels) : ∃ node ∈ side.map.nodes, node.key = level.price := by
  have some : side.quantitiesOf level.price ≠ [] := by
    intro none
    have empty := (lists.mem_iff level).mp member
    rw [none] at empty
    cases empty
  exact amountsAt_ne_nil_iff.mp some

variable [IsStrictTotalOrder Price before]

/-- The nodes behind the prices shown so far start with the next price on the listing. -/
theorem Lists.exists_head {levels shown left : List Level} {level : Level}
    (lists : Lists before side.quantitiesOf levels) (split : levels = shown ++ level :: left) :
    ∃ node rest, (side.map.nodes.filter fun node => node.key ∈ (level :: left).map Level.price) =
      node :: rest ∧ node.key = level.price := by
  have sorted := lists.sorted
  rw [split, List.pairwise_append, List.pairwise_cons] at sorted
  obtain ⟨-, ⟨later, -⟩, -⟩ := sorted
  obtain ⟨first, inMap, sameKey⟩ := lists.exists_node (show level ∈ levels by simp [split])
  have inRange : first ∈
      side.map.nodes.filter fun node => node.key ∈ (level :: left).map Level.price :=
    List.mem_filter.mpr ⟨inMap, by simp [sameKey]⟩
  have inOrder := side.map.sorted.filter fun node => node.key ∈ (level :: left).map Level.price
  cases range : side.map.nodes.filter fun node => node.key ∈ (level :: left).map Level.price with
  | nil =>
    rw [range] at inRange
    cases inRange
  | cons node rest =>
    refine ⟨node, rest, rfl, ?_⟩
    have known := (List.mem_filter.mp (range ▸ List.mem_cons_self : node ∈ side.map.nodes.filter _)).2
    rw [decide_eq_true_eq, List.map_cons, List.mem_cons] at known
    rcases known with here | beyond
    · exact here
    · -- the first node at the price of the level is not behind one at a later price
      obtain ⟨other, inLeft, otherKey⟩ := List.mem_map.mp beyond
      have after : before level.price node.key := otherKey ▸ later other inLeft
      rw [range] at inRange inOrder
      rcases List.mem_cons.mp inRange with rfl | behind
      · exact sameKey
      · rcases (List.pairwise_cons.mp inOrder).1 first behind with earlier | ⟨same, -⟩
        · rw [sameKey] at earlier
          exact absurd earlier (asymm_of before after)
        · exact same.trans sameKey

variable [DecidableRel before]

/-- The entry that is written for a price on the listing. -/
theorem Lists.aggregate_equalRange {levels : List Level} (lists : Lists before side.quantitiesOf levels)
    {level : Level} (fits : FitsInt32 (side.quantitiesOf level.price).sum) (member : level ∈ levels) :
    aggregate (side.map.equalRange level.price) = (level.qty, level.orderCount) := by
  have entry := (lists.mem_iff level).mp member
  unfold levelOf at entry
  split_ifs at entry
  have same := Option.some.inj entry
  rw [MultiMap.equalRange_eq, aggregate_eq fits, ← same]
  show _ = ((side.quantitiesOf level.price).sum, ((side.quantitiesOf level.price).length : Int))
  simp [quantitiesOf, amountsAt]

/-- The upper bound of a price on the listing is where the rest of the listing starts. -/
theorem Lists.upperBound_eq {levels shown left : List Level} {level : Level}
    (lists : Lists before side.quantitiesOf levels) (split : levels = shown ++ level :: left) :
    side.map.upperBound level.price =
      side.map.nodes.filter fun node => node.key ∈ left.map Level.price := by
  have sorted := lists.sorted
  rw [split, List.pairwise_append, List.pairwise_cons] at sorted
  obtain ⟨-, ⟨later, -⟩, earlier⟩ := sorted
  rw [MultiMap.upperBound_eq]
  refine List.filter_congr fun node member => ?_
  obtain ⟨other, known, sameKey⟩ := lists.exists_level member
  have beyond : before level.price node.key ↔ node.key ∈ left.map Level.price := by
    constructor
    · intro after
      rw [split, List.mem_append, List.mem_cons] at known
      rcases known with inShown | rfl | inLeft
      · rw [← sameKey] at after
        exact absurd (earlier other inShown level List.mem_cons_self) (asymm_of before after)
      · exact absurd (sameKey ▸ after) (irrefl_of before _)
      · exact sameKey ▸ List.mem_map_of_mem inLeft
    · intro inLeft
      obtain ⟨next, member, same⟩ := List.mem_map.mp inLeft
      exact same ▸ later next member
  simp [beyond]

/-- Jumping from price to price shows the listing, as far as the turns go. -/
theorem Lists.listingFrom_eq {levels : List Level} (lists : Lists before side.quantitiesOf levels)
    (fits : ∀ price, FitsInt32 (side.quantitiesOf price).sum) (turns : Nat)
    (shown left : List Level) (split : levels = shown ++ left) :
    side.listingFrom turns
        (side.map.nodes.filter fun node => node.key ∈ left.map Level.price) = left.take turns := by
  induction left generalizing turns shown with
  | nil => cases turns <;> simp [listingFrom]
  | cons level left inductionHypothesis =>
    cases turns with
    | zero => simp [listingFrom]
    | succ turns =>
      obtain ⟨node, rest, range, sameKey⟩ := lists.exists_head split
      rw [range]
      simp only [listingFrom, sameKey]
      rw [lists.aggregate_equalRange (fits level.price) (by simp [split]),
        lists.upperBound_eq split, inductionHypothesis turns (shown ++ [level]) (by simp [split])]
      rfl

/-- A book that keeps every order writes the first ten levels of its listing. -/
theorem Lists.listing_eq {levels : List Level} (lists : Lists before side.quantitiesOf levels)
    (fits : ∀ price, FitsInt32 (side.quantitiesOf price).sum) : side.listing = levels.take 10 := by
  have all : (side.map.nodes.filter fun node => node.key ∈ levels.map Level.price) =
      side.map.nodes := by
    refine List.filter_eq_self.mpr fun node member => ?_
    obtain ⟨level, known, sameKey⟩ := lists.exists_level member
    exact decide_eq_true (sameKey ▸ List.mem_map_of_mem known)
  rw [listing, ← lists.listingFrom_eq fits 10 [] levels rfl, all]

end Listed

/-! ### The prices of a side -/

namespace OneSide

variable {before : Price → Price → Prop} {side : OneSide before}

/-- The prices of the nodes, each once. -/
def prices (side : OneSide before) : List Price := (side.map.nodes.map Node.key).dedup

/-- The level of every price. -/
def levels (side : OneSide before) : List Level :=
  side.prices.map fun price =>
    { price
      qty := (side.quantitiesOf price).sum
      orderCount := (side.quantitiesOf price).length }

theorem mem_prices {price : Price} :
    price ∈ side.prices ↔ ∃ node ∈ side.map.nodes, node.key = price := by
  rw [prices, List.mem_dedup, List.mem_map]

theorem prices_sorted (side : OneSide before) : side.prices.Pairwise before := by
  have weakly : (side.map.nodes.map Node.key).Pairwise fun first second =>
      before first second ∨ first = second :=
    List.pairwise_map.mpr (side.map.sorted.imp fun inFront => inFront.imp_right And.left)
  have strictly := (weakly.sublist (List.dedup_sublist _)).and (List.nodup_dedup _)
  exact strictly.imp fun both => both.1.resolve_right both.2

theorem lists_levels (side : OneSide before) : Lists before side.quantitiesOf side.levels where
  sorted := List.pairwise_map.mpr side.prices_sorted
  mem_iff := by
    intro level
    rw [levels, List.mem_map]
    constructor
    · rintro ⟨price, known, rfl⟩
      have some : side.quantitiesOf price ≠ [] := amountsAt_ne_nil_iff.mpr (mem_prices.mp known)
      exact if_neg some
    · intro entry
      unfold levelOf at entry
      split_ifs at entry with none
      exact ⟨level.price, mem_prices.mpr (amountsAt_ne_nil_iff.mp none), Option.some.inj entry⟩

variable [IsStrictTotalOrder Price before]

variable [DecidableRel before]

/-- The equal ranges of all levels are the nodes of the side, each once. -/
theorem levels_flatMap (side : OneSide before) :
    side.levels.flatMap (fun level => side.map.equalRange level.price) = side.map.nodes := by
  rw [levels, List.flatMap_map]
  show side.prices.flatMap side.map.equalRange = _
  rw [MultiMap.flatMap_equalRange side.map side.prices_sorted]
  exact List.filter_eq_self.mpr fun node member => decide_eq_true (mem_prices.mpr ⟨node, member, rfl⟩)

/-- The numbers of orders at all levels add up to the number of orders. -/
theorem sum_orderCount (side : OneSide before) :
    (side.levels.map Level.orderCount).sum = side.map.nodes.length := by
  have lengths := congrArg List.length side.levels_flatMap
  rw [List.length_flatMap] at lengths
  rw [← lengths, Nat.cast_list_sum, List.map_map]
  refine congrArg List.sum (List.map_congr_left fun level member => ?_)
  obtain ⟨price, known, rfl⟩ := List.mem_map.mp member
  simp [quantitiesOf, amountsAt, MultiMap.equalRange_eq]

end OneSide

/-! ### What `toString` writes -/

section Shows

variable {before : Price → Price → Prop}

/-- The levels of a side: one for each price, the best price first, each with the total and the
number of the orders there. -/
structure LevelsOf (side : OneSide before) (levels : List Level) : Prop where
  bestFirst : levels.Pairwise fun first second => before first.price second.price
  prices : ∀ price, price ∈ levels.map Level.price ↔ price ∈ side.map.nodes.map Node.key
  totals : ∀ level ∈ levels, level.qty = (side.quantitiesOf level.price).sum ∧
    level.orderCount = (side.quantitiesOf level.price).length

theorem levelsOf_levels (side : OneSide before) : LevelsOf side side.levels where
  bestFirst := side.lists_levels.sorted
  prices := fun price => by
    have sameKey : Level.price ∘ (fun price => (⟨price, (side.quantitiesOf price).sum,
        (side.quantitiesOf price).length⟩ : Level)) = id := rfl
    rw [levels, List.map_map, sameKey, List.map_id, OneSide.prices, List.mem_dedup]
  totals := fun level member => by
    obtain ⟨price, known, rfl⟩ := List.mem_map.mp member
    exact ⟨rfl, rfl⟩

/-- The entries are the best ten of the levels of a side; if there are no more than ten, the
orders at their prices are all orders of the side, each once. -/
def Shows (side : OneSide before) (entries : List Level) : Prop :=
  ∃ levels, LevelsOf side levels ∧ entries = levels.take 10 ∧
    (levels.length ≤ 10 →
      (entries.flatMap fun level => side.map.nodes.filter fun node => node.key = level.price) =
          side.map.nodes ∧
        (entries.map Level.orderCount).sum = side.map.nodes.length)

variable [IsStrictTotalOrder Price before] [DecidableRel before]

theorem shows_listing {side : OneSide before}
    (fits : ∀ price, FitsInt32 (side.quantitiesOf price).sum) : Shows side side.listing := by
  refine ⟨side.levels, levelsOf_levels side, side.lists_levels.listing_eq fits, fun few => ?_⟩
  rw [side.lists_levels.listing_eq fits, List.take_of_length_le few]
  refine ⟨?_, side.sum_orderCount⟩
  simp only [← MultiMap.equalRange_eq]
  exact side.levels_flatMap

end Shows

namespace OrderBookImproved

/-- `toString` writes for each side the best ten of its levels: one entry for each price, the
best price first, each with the total and the number of all orders there. -/
theorem toString_shows (book : OrderBookImproved)
    (bidsFit : ∀ price, FitsInt32 (book.bids.quantitiesOf price).sum)
    (asksFit : ∀ price, FitsInt32 (book.asks.quantitiesOf price).sum) :
    ∃ bids asks, Shows book.bids bids ∧ Shows book.asks asks ∧
      book.toString =
        (if 0 < book.bids.map.nodes.length then "\n Bids: " else "") ++ listingText 0 bids ++
          (if 0 < book.asks.map.nodes.length then "\n Sell: " else "") ++ listingText 0 asks :=
  ⟨book.bids.listing, book.asks.listing, shows_listing bidsFit, shows_listing asksFit, rfl⟩

/-- Two bids at one price, a better bid and an ask. -/
theorem toString_shows_example :
    ∃ book,
      [({ type := 'N', orderId := 1, orderType := 'B', price := 100, qty := 10 } : Order),
        { type := 'N', orderId := 2, orderType := 'B', price := 100, qty := 5 },
        { type := 'N', orderId := 3, orderType := 'B', price := 101, qty := 3 },
        { type := 'N', orderId := 4, orderType := 'S', price := 102, qty := 7 }].foldlM
          (fun book order => (processOrder book order).map Prod.fst) empty = some book ∧
      book.toString = "\n Bids: 101|3|1, 100|15|2, \n Sell: 102|7|1, " ∧
      ∃ bids asks, Shows book.bids bids ∧ Shows book.asks asks ∧
        book.toString =
          (if 0 < book.bids.map.nodes.length then "\n Bids: " else "") ++ listingText 0 bids ++
            (if 0 < book.asks.map.nodes.length then "\n Sell: " else "") ++ listingText 0 asks := by
  refine ⟨_, rfl, by decide, toString_shows _ (fun price => ?_) (fun price => ?_)⟩
  · show FitsInt32 (amountsAt Node.key (fun node : Node Price Order => node.value.qty)
      [⟨2, 101, { type := 'N', orderId := 3, orderType := 'B', price := 101, qty := 3 }⟩,
        ⟨0, 100, { type := 'N', orderId := 1, orderType := 'B', price := 100, qty := 10 }⟩,
        ⟨1, 100, { type := 'N', orderId := 2, orderType := 'B', price := 100, qty := 5 }⟩] price).sum
    simp only [amountsAt, List.filter_cons, List.filter_nil]
    split_ifs <;> exact ⟨by decide, by decide⟩
  · show FitsInt32 (amountsAt Node.key (fun node : Node Price Order => node.value.qty)
      [⟨0, 102, { type := 'N', orderId := 4, orderType := 'S', price := 102, qty := 7 }⟩] price).sum
    simp only [amountsAt, List.filter_cons, List.filter_nil]
    split_ifs <;> exact ⟨by decide, by decide⟩

end OrderBookImproved

end ObLib
