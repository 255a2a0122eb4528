/-
This file compares the levels of the order book with a reference book of its live
orders over every run of orders, and proves exactly when they agree.

The index of the code keeps the message that brought an order in; a modify changes the
levels but not that message. So the code takes the entered quantity off the entered
price when the order is next modified or cancelled, and the levels follow the reference
as long as this is also what the order rests at, with one exception: an order alone at
its price with less than its entered quantity still empties the level.
-/

import OrderBookSketch.OrderBookType2Steps
import OrderBookSketch.Library.Ledger

namespace ObLib

open Containers Runs Ledgers

/-! ### The reference book -/

/-- A live order: the message that brought it in, and what it rests at now. -/
structure Resting where
  entered : Order
  price : Price
  qty : Quantity
deriving DecidableEq, Repr

namespace Resting

def of (order : Order) : Resting := ⟨order, order.price, order.qty⟩

def orderId (resting : Resting) : OrderId := resting.entered.orderId

def isBuy (resting : Resting) : Bool := resting.entered.isBuy

/-- The side and the price an order rests at. -/
def place (resting : Resting) : Bool × Price := (resting.isBuy, resting.price)

end Resting

/-- `N` inserts, `M` replaces price and quantity or inserts an unknown id, `X` deletes. -/
def refProcess (live : List Resting) (order : Order) : List Resting :=
  match order.type with
  | 'N' => Resting.of order :: live
  | 'M' =>
    match recordOf Resting.orderId live order.orderId with
    | some resting =>
      { resting with price := order.price, qty := order.qty } ::
        without Resting.orderId live order.orderId
    | none => Resting.of order :: live
  | 'X' => without Resting.orderId live order.orderId
  | _ => live

/-- The quantities resting at a price. -/
def quantitiesAt (live : List Resting) (isBuy : Bool) (price : Price) : List Quantity :=
  amountsAt Resting.place Resting.qty live (isBuy, price)

namespace BookOver

/-- Each side has a level for a price exactly when an order rests there, with the total and the
number of the quantities. -/
def Follows (levels : Bool → Levels) (live : List Resting) : Prop :=
  ∀ isBuy price, (levels isBuy).get (prio isBuy price) =
    levelOf price (quantitiesAt live isBuy price)

/-- A message of the feed: a positive quantity, an id other than the reserved one, no second
`N` of a live order, and no change of side. -/
def FeedOrder (live : List Resting) (order : Order) : Prop :=
  order.orderId ≠ emptyOrderId ∧ 0 < order.qty ∧
    (order.type = 'N' ∨ order.type = 'M' ∨ order.type = 'X') ∧
    (order.type = 'N' → recordOf Resting.orderId live order.orderId = none) ∧
    (order.type = 'M' → ∀ resting ∈ recordOf Resting.orderId live order.orderId,
      order.isBuy = resting.isBuy)

/-- What the code takes off the levels for a live order is what the order rests at, or it rests
alone at its entered price with less than its entered quantity and leaves that price. -/
def TakesOffRight (live : List Resting) (order : Order) : Prop :=
  order.type ≠ 'N' → ∀ resting ∈ recordOf Resting.orderId live order.orderId,
    resting.price = resting.entered.price ∧
      (resting.qty = resting.entered.qty ∨
        resting.qty < resting.entered.qty ∧
          quantitiesAt (without Resting.orderId live order.orderId) resting.isBuy resting.price =
            [] ∧
          (order.type = 'M' → order.price ≠ resting.price))

instance (live : List Resting) (order : Order) : Decidable (FeedOrder live order) :=
  inferInstanceAs (Decidable (_ ∧ _))

instance (live : List Resting) (order : Order) : Decidable (TakesOffRight live order) :=
  inferInstanceAs (Decidable (order.type ≠ 'N' →
    ∀ resting ∈ recordOf Resting.orderId live order.orderId, _ ∧ _))

/-! ### Levels and quantities -/

/-- A level tells how many quantities rest at its price, and their total. -/
theorem levelOf_inj {price : Price} {quantities others : List Quantity}
    (same : levelOf price quantities = levelOf price others) :
    quantities.length = others.length ∧ quantities.sum = others.sum := by
  cases quantities with
  | nil =>
    cases others with
    | nil => exact ⟨rfl, rfl⟩
    | cons => simp [levelOf] at same
  | cons =>
    cases others with
    | nil => simp [levelOf] at same
    | cons =>
      simp only [levelOf, List.cons_ne_nil, if_false, Option.some.injEq, Level.mk.injEq,
        true_and] at same
      exact ⟨Int.ofNat.inj same.2, same.1⟩

theorem levelOf_cons_ne (price : Price) (qty : Quantity) (quantities : List Quantity) :
    levelOf price (qty :: quantities) ≠ levelOf price quantities := fun same =>
  absurd (levelOf_inj same).1 (by simp)

/-- Taking a quantity off the level of an order and others leaves the level of the others when
it is the order's quantity, or more and there are no others. -/
theorem unspent_reduced_iff {price : Price} {qty taken : Quantity} {others : List Quantity} :
    unspent ((levelOf price (qty :: others)).map (·.reduced taken)) = levelOf price others ↔
      qty = taken ∧ Settled others ∨ qty < taken ∧ others = [] := by
  constructor
  · intro same
    rw [levelOf_cons, Option.map_some, unspent_some] at same
    split_ifs at same with left
    · have some : others ≠ [] := by
        rintro rfl
        cases same
      have total : qty + others.sum - taken = others.sum := by
        simp only [levelOf, some, if_false, Option.some.injEq, Level.reduced, Level.mk.injEq] at same
        exact same.2.1
      have whole : qty = taken := by linarith
      refine .inl ⟨whole, .inr ?_⟩
      rwa [Level.reduced, total] at left
    · have none : others = [] := by
        by_contra some
        simp [levelOf, some] at same
      have spent : qty ≤ taken := by
        rw [none] at left
        simpa [Level.reduced] using left
      exact spent.eq_or_lt.imp (fun whole => ⟨whole, .inl none⟩) fun less => ⟨less, none⟩
  · rintro (⟨rfl, settled⟩ | ⟨more, rfl⟩)
    · exact unspent_reduced_levelOf settled
    · have spent : ¬ taken < qty := not_lt.mpr more.le
      simp [levelOf_cons, unspent_some, Level.reduced, levelOf_nil, spent]

/-! ### The index -/

/-- The index holds the messages that brought the live orders in. -/
def IndexHolds (book : SpecBook) (live : List Resting) : Prop :=
  ∀ orderId, book.orders orderId = (recordOf Resting.orderId live orderId).map Resting.entered

/-- So it does, whatever modifies have made of them. -/
structure Mirrors (book : SpecBook) (live : List Resting) : Prop where
  distinct : Distinct Resting.orderId live
  entered : IndexHolds book live
  positive : ∀ resting ∈ live, 0 < resting.qty ∧ 0 < resting.entered.qty

variable {book next : SpecBook} {live : List Resting} {order : Order} {resting : Resting}

theorem mirrors_nil : Mirrors specCreate [] := ⟨List.nodup_nil, fun _ => rfl, by simp⟩

theorem Mirrors.add (mirrors : Mirrors book live) (positive : 0 < order.qty)
    (fresh : recordOf Resting.orderId live order.orderId = none)
    (orders : next.orders = Function.update book.orders order.orderId (some order)) :
    Mirrors next (Resting.of order :: live) where
  distinct := distinct_cons mirrors.distinct fresh
  entered := by
    intro orderId
    rw [orders, recordOf_cons, Function.update_apply, mirrors.entered]
    show _ = Option.map _ (if orderId = order.orderId then _ else _)
    split_ifs <;> rfl
  positive := by
    intro resting member
    rcases List.mem_cons.mp member with rfl | older
    · exact ⟨positive, positive⟩
    · exact mirrors.positive resting older

theorem Mirrors.remove (mirrors : Mirrors book live) (orderId : OrderId)
    (orders : next.orders = Function.update book.orders orderId none) :
    Mirrors next (without Resting.orderId live orderId) where
  distinct := distinct_without mirrors.distinct orderId
  entered := by
    intro other
    rw [orders, recordOf_without, Function.update_apply, mirrors.entered]
    split_ifs <;> rfl
  positive := fun resting member => mirrors.positive resting (List.mem_filter.mp member).1

theorem Mirrors.replace (mirrors : Mirrors book live) {orderId : OrderId}
    (found : recordOf Resting.orderId live orderId = some resting) (price : Price) {qty : Quantity}
    (positive : 0 < qty) (orders : next.orders = book.orders) :
    Mirrors next ({ resting with price := price, qty := qty } ::
      without Resting.orderId live orderId) where
  distinct := by
    refine distinct_cons (distinct_without mirrors.distinct orderId) ?_
    rw [recordOf_without]
    exact if_pos (recordOf_some found).2
  entered := by
    intro other
    rw [orders, recordOf_cons, recordOf_without, mirrors.entered]
    show _ = Option.map _ (if other = resting.orderId then _ else _)
    rw [(recordOf_some found).2]
    split_ifs with same
    · rw [same, found]
      rfl
    · rfl
  positive := by
    intro other member
    rcases List.mem_cons.mp member with rfl | older
    · exact ⟨positive, (mirrors.positive resting (recordOf_some found).1).2⟩
    · exact mirrors.positive other (List.mem_filter.mp older).1

/-- The index keeps holding the messages that brought the live orders in, whether or not the
levels follow. -/
theorem Mirrors.specProcessOrder (mirrors : Mirrors book live) (feed : FeedOrder live order) :
    Mirrors (book.specProcessOrder order).1 (refProcess live order) := by
  obtain ⟨-, positive, kind, fresh, -⟩ := feed
  unfold BookOver.specProcessOrder refProcess
  rcases kind with new | modify | cancel
  · simp only [new]
    have absent : book.orders order.orderId = none := by rw [mirrors.entered, fresh new]; rfl
    simp only [specProcessNew, absent]
    exact mirrors.add positive (fresh new) (orders_specAdd ..)
  · simp only [modify]
    cases found : recordOf Resting.orderId live order.orderId with
    | none =>
      have absent : book.orders order.orderId = none := by rw [mirrors.entered, found]; rfl
      simp only [specProcessModify, absent]
      exact mirrors.add positive found (orders_specAdd ..)
    | some resting =>
      have present : book.orders order.orderId = some resting.entered := by
        rw [mirrors.entered, found]
        rfl
      simp only [specProcessModify, present]
      exact mirrors.replace found order.price positive (orders_modifyOrder ..)
  · simp only [cancel]
    cases present : book.orders order.orderId with
    | none =>
      simp only [specProcessCancel, present]
      refine mirrors.remove order.orderId ?_
      rw [← present, Function.update_eq_self]
    | some stored =>
      simp only [specProcessCancel, present]
      exact mirrors.remove order.orderId (orders_specRemove ..)

/-! ### The levels -/

theorem quantitiesAt_cons (resting : Resting) (live : List Resting) (isBuy : Bool)
    (price : Price) :
    quantitiesAt (resting :: live) isBuy price =
      if isBuy = resting.isBuy ∧ price = resting.price then
        resting.qty :: quantitiesAt live isBuy price
      else quantitiesAt live isBuy price := by
  unfold quantitiesAt
  rw [amountsAt_cons]
  refine if_congr ?_ rfl rfl
  rw [Resting.place, Prod.mk.injEq, eq_comm, eq_comm (a := resting.price)]

theorem positive_quantitiesAt (positive : ∀ resting ∈ live, 0 < resting.qty) (isBuy : Bool)
    (price : Price) : ∀ qty ∈ quantitiesAt live isBuy price, 0 < qty := by
  intro qty member
  obtain ⟨resting, inLive, -, rfl⟩ := mem_amountsAt.mp member
  exact positive resting inLive

variable {levels nextLevels : Bool → Levels}

/-- Entering an order keeps the levels and the reference together. -/
theorem Follows.enter (follows : Follows levels live) (resting : Resting)
    (sides : ∀ isBuy, nextLevels isBuy =
      if isBuy = resting.isBuy then
        BookOver.enter (levels resting.isBuy) (prio resting.isBuy resting.price) resting.price
          resting.qty
      else levels isBuy) :
    Follows nextLevels (resting :: live) := by
  intro isBuy price
  rw [sides, quantitiesAt_cons]
  by_cases same : isBuy = resting.isBuy
  · subst same
    simp only [if_pos, get_enter, prio_inj, true_and]
    split_ifs with here
    · rw [here, follows, entered_levelOf]
    · exact follows ..
  · rw [if_neg same, if_neg fun both => same both.1]
    exact follows ..

section Found

variable {orderId : OrderId}

/-- The orders beside a live order. -/
abbrev Beside (live : List Resting) (orderId : OrderId) : List Resting :=
  without Resting.orderId live orderId

theorem levelOf_beside (distinct : Distinct Resting.orderId live)
    (found : recordOf Resting.orderId live orderId = some resting) (isBuy : Bool)
    (price : Price) :
    levelOf price (quantitiesAt live isBuy price) =
      levelOf price (quantitiesAt (resting :: Beside live orderId) isBuy price) :=
  levelOf_perm (amountsAt_perm (perm_cons_without distinct found) _)

/-- The level of every price, in terms of a live order and the orders beside it. -/
theorem Follows.split (follows : Follows levels live)
    (distinct : Distinct Resting.orderId live)
    (found : recordOf Resting.orderId live orderId = some resting) :
    Follows levels (resting :: Beside live orderId) := by
  intro isBuy price
  rw [follows, levelOf_beside distinct found]

theorem Follows.here (follows : Follows levels (resting :: live)) :
    (levels resting.isBuy).get (prio resting.isBuy resting.price) =
      levelOf resting.price (resting.qty :: quantitiesAt live resting.isBuy resting.price) := by
  rw [follows, quantitiesAt_cons, if_pos ⟨rfl, rfl⟩]

theorem Follows.elsewhere (follows : Follows levels (resting :: live)) {isBuy : Bool}
    {price : Price} (elsewhere : ¬ (isBuy = resting.isBuy ∧ price = resting.price)) :
    (levels isBuy).get (prio isBuy price) = levelOf price (quantitiesAt live isBuy price) := by
  rw [follows, quantitiesAt_cons, if_neg elsewhere]

/-- Where the code takes a quantity off a price of the side of a live order. -/
theorem follows_reduce_iff (follows : Follows levels (resting :: live)) {price : Price}
    {taken : Quantity}
    (sides : ∀ isBuy, nextLevels isBuy =
      if isBuy = resting.isBuy then reduce (levels resting.isBuy) (prio resting.isBuy price) taken
      else levels isBuy) :
    Follows nextLevels live ↔
      resting.price = price ∧
        (resting.qty = taken ∧ Settled (quantitiesAt live resting.isBuy resting.price) ∨
          resting.qty < taken ∧ quantitiesAt live resting.isBuy resting.price = []) := by
  constructor
  · intro again
    have level := again resting.isBuy resting.price
    rw [sides, if_pos rfl, get_reduce] at level
    by_cases same : resting.price = price
    · rw [← same, if_pos rfl, follows.here, unspent_reduced_iff] at level
      exact ⟨same, level⟩
    · rw [if_neg (prio_inj.not.mpr same), follows.here] at level
      exact absurd level (levelOf_cons_ne _ _ _)
  · rintro ⟨rfl, right⟩ isBuy price
    rw [sides]
    by_cases same : isBuy = resting.isBuy
    · subst same
      simp only [if_pos, get_reduce, prio_inj]
      split_ifs with here
      · rw [here, follows.here, unspent_reduced_iff]
        exact right
      · exact follows.elsewhere fun both => here both.2
    · rw [if_neg same]
      exact follows.elsewhere fun both => same both.1

/-- Where the code also enters a quantity at another price. -/
theorem follows_move_iff (follows : Follows levels (resting :: live)) {price newPrice : Price}
    {taken newQty : Quantity} (moves : newPrice ≠ price)
    (sides : ∀ isBuy, nextLevels isBuy =
      if isBuy = resting.isBuy then
        enter (reduce (levels resting.isBuy) (prio resting.isBuy price) taken)
          (prio resting.isBuy newPrice) newPrice newQty
      else levels isBuy) :
    Follows nextLevels ({ resting with price := newPrice, qty := newQty } :: live) ↔
      resting.price = price ∧
        (resting.qty = taken ∧ Settled (quantitiesAt live resting.isBuy resting.price) ∨
          resting.qty < taken ∧ quantitiesAt live resting.isBuy resting.price = []) := by
  constructor
  · intro again
    have level := again resting.isBuy resting.price
    rw [sides, if_pos rfl, quantitiesAt_cons, get_enter] at level
    simp only [prio_inj, show Resting.isBuy { resting with price := newPrice, qty := newQty } =
      resting.isBuy from rfl, true_and] at level
    by_cases same : resting.price = price
    · have stays : resting.price ≠ newPrice := fun back => moves (back.symm.trans same)
      rw [if_neg stays, if_neg stays, get_reduce, ← same, if_pos rfl, follows.here,
        unspent_reduced_iff] at level
      exact ⟨same, level⟩
    · -- the level the order leaves still counts it
      by_cases back : resting.price = newPrice
      · rw [if_pos back, if_pos back, ← back, get_reduce, if_neg (prio_inj.not.mpr same),
          follows.here, entered_levelOf] at level
        exact absurd (levelOf_inj level).1 (by simp)
      · rw [if_neg back, if_neg back, get_reduce, if_neg (prio_inj.not.mpr same),
          follows.here] at level
        exact absurd level (levelOf_cons_ne _ _ _)
  · intro right
    have reduced : Follows (fun isBuy => if isBuy = resting.isBuy then
        reduce (levels resting.isBuy) (prio resting.isBuy price) taken else levels isBuy) live :=
      (follows_reduce_iff follows fun _ => rfl).mpr right
    refine reduced.enter _ fun isBuy => ?_
    rw [sides]
    show _ = if isBuy = resting.isBuy then _ else _
    split_ifs <;> simp_all [Resting.isBuy]

/-- Where the code changes the quantity of a level. -/
theorem follows_adjust_iff (follows : Follows levels (resting :: live))
    (positive : ∀ resting ∈ live, 0 < resting.qty) {price : Price} {taken newQty : Quantity}
    (newPositive : 0 < newQty)
    (sides : ∀ isBuy, nextLevels isBuy =
      if isBuy = resting.isBuy then
        adjust (levels resting.isBuy) (prio resting.isBuy price) (newQty - taken)
      else levels isBuy) :
    Follows nextLevels ({ resting with price := price, qty := newQty } :: live) ↔
      resting.price = price ∧ resting.qty = taken := by
  have others := positive_quantitiesAt positive resting.isBuy resting.price
  constructor
  · intro again
    have level := again resting.isBuy resting.price
    rw [sides, if_pos rfl, quantitiesAt_cons, get_adjust, follows.here] at level
    simp only [prio_inj, show Resting.isBuy { resting with price := price, qty := newQty } =
      resting.isBuy from rfl, true_and] at level
    by_cases same : resting.price = price
    · rw [if_pos same, if_pos same, ← same, follows.here, levelOf_cons, levelOf_cons,
        Option.getD_some, unspent_some] at level
      split_ifs at level with left
      have total := congrArg Level.qty (Option.some.inj level)
      simp only [Level.adjusted] at total
      exact ⟨same, by linarith⟩
    · rw [if_neg same, if_neg same] at level
      exact absurd level (levelOf_cons_ne _ _ _)
  · rintro ⟨rfl, rfl⟩ isBuy price
    have total : 0 < newQty + (quantitiesAt live resting.isBuy resting.price).sum :=
      add_pos_of_pos_of_nonneg newPositive (List.sum_nonneg fun qty member =>
        (others qty member).le)
    rw [sides, quantitiesAt_cons]
    show _ = levelOf _ (if isBuy = resting.isBuy ∧ price = resting.price then _ else _)
    by_cases same : isBuy = resting.isBuy
    · subst same
      simp only [if_pos, get_adjust, prio_inj, true_and, follows.here]
      split_ifs with here
      · rw [here, ← unspent_adjusted_levelOf total, levelOf_cons]
        rfl
      · exact follows.elsewhere fun both => here both.2
    · have elsewhere : ¬ (isBuy = resting.isBuy ∧ price = resting.price) := fun both => same both.1
      rw [if_neg same, if_neg elsewhere]
      exact follows.elsewhere elsewhere

end Found

/-! ### One message -/

/-- Changing the quantity of a level by 0 changes nothing. -/
theorem adjust_zero {levels : Levels} {it : Int} (positive : ∀ level ∈ levels.get it, 0 < level.qty) :
    adjust levels it 0 = levels := by
  refine OrderedMap.ext fun other => ?_
  rw [get_adjust]
  split_ifs with same
  · rw [same, unspent_some]
    cases stored : levels.get it with
    | none => simp [Level.adjusted]
    | some level => simp [Level.adjusted, positive level stored]
  · rfl

theorem Follows.positive (follows : Follows levels live)
    (positive : ∀ resting ∈ live, 0 < resting.qty) (isBuy : Bool) (price : Price) :
    ∀ level ∈ (levels isBuy).get (prio isBuy price), 0 < level.qty := by
  intro level stored
  rw [follows, Option.mem_def] at stored
  unfold levelOf at stored
  split_ifs at stored with some
  obtain rfl := Option.some.inj stored
  exact List.sum_pos _ (positive_quantitiesAt positive isBuy price) some

/-- A modify of a live order keeps the levels with the reference when the code takes off what
the order rests at. -/
theorem follows_modifyOrder_iff (mirrors : Mirrors book live) (follows : Follows book.side live)
    (feed : FeedOrder live order) (modify : order.type = 'M')
    (found : recordOf Resting.orderId live order.orderId = some resting) :
    Follows (book.modifyOrder order resting.entered).1.side
        ({ resting with price := order.price, qty := order.qty } :: Beside live order.orderId) ↔
      TakesOffRight live order := by
  obtain ⟨-, positive, -, -, keepsSide⟩ := feed
  have sameSide : order.isBuy = resting.entered.isBuy := keepsSide modify resting found
  have enteredPositive := (mirrors.positive resting (recordOf_some found).1).2
  have livePositive (resting : Resting) (member : resting ∈ live) :=
    (mirrors.positive resting member).1
  have besidePositive : ∀ other ∈ Beside live order.orderId, 0 < other.qty :=
    fun other member => livePositive other (List.mem_filter.mp member).1
  have split := follows.split mirrors.distinct found
  have notNew : ¬ 'M' = 'N' := by decide
  simp only [TakesOffRight, found, Option.mem_some_iff, forall_eq', modify, notNew, ne_eq,
    not_false_eq_true, forall_const]
  by_cases moves : order.price = resting.entered.price
  · -- the price stays the entered one
    have adjusts : ∀ isBuy, (book.modifyOrder order resting.entered).1.side isBuy =
        if isBuy = resting.isBuy then
          adjust (book.side resting.isBuy) (prio resting.isBuy order.price)
            (order.qty - resting.entered.qty)
        else book.side isBuy := by
      intro isBuy
      rw [moves]
      by_cases differs : order.qty = resting.entered.qty
      · rw [modifyOrder_same book moves differs, differs, sub_self,
          adjust_zero (follows.positive livePositive _ _)]
        split_ifs with same
        · rw [same]
        · rfl
      · exact side_modifyOrder_qty book moves differs isBuy
    rw [follows_adjust_iff split besidePositive positive adjusts, moves]
    constructor
    · rintro ⟨here, whole⟩
      exact ⟨here, .inl whole⟩
    · rintro ⟨here, whole | ⟨-, -, leaves⟩⟩
      · exact ⟨here, whole⟩
      · exact absurd here.symm leaves
  · have sides := side_modifyOrder_price book moves enteredPositive
    rw [sameSide] at sides
    have settled := settled_of_pos
      (positive_quantitiesAt besidePositive resting.isBuy resting.price)
    rw [follows_move_iff split moves sides]
    constructor
    · rintro ⟨here, right⟩
      exact ⟨here, right.imp (fun whole => whole.1) fun ⟨less, alone⟩ =>
        ⟨less, alone, fun back => moves (back.trans here)⟩⟩
    · rintro ⟨here, right⟩
      exact ⟨here, right.imp (fun whole => ⟨whole, settled⟩) fun ⟨less, alone, _⟩ => ⟨less, alone⟩⟩

theorem follows_specProcessOrder_iff (mirrors : Mirrors book live)
    (follows : Follows book.side live) (feed : FeedOrder live order) :
    Follows (book.specProcessOrder order).1.side (refProcess live order) ↔
      TakesOffRight live order := by
  have adds : Follows (book.specAdd order).1.side (Resting.of order :: live) :=
    follows.enter (Resting.of order) (side_specAdd book order)
  unfold BookOver.specProcessOrder refProcess
  rcases feed.2.2.1 with new | modify | cancel
  · have absent : book.orders order.orderId = none := by
      rw [mirrors.entered, feed.2.2.2.1 new]
      rfl
    simp only [new, specProcessNew, absent]
    exact ⟨fun _ notNew => absurd new notNew, fun _ => adds⟩
  · cases found : recordOf Resting.orderId live order.orderId with
    | none =>
      have absent : book.orders order.orderId = none := by
        rw [mirrors.entered, found]
        rfl
      simp only [modify, specProcessModify, absent]
      refine ⟨fun _ _ resting member => ?_, fun _ => adds⟩
      rw [found] at member
      cases member
    | some resting =>
      have present : book.orders order.orderId = some resting.entered := by
        rw [mirrors.entered, found]
        rfl
      simp only [modify, specProcessModify, present]
      exact follows_modifyOrder_iff mirrors follows feed modify found
  · have notNew : order.type ≠ 'N' := by
      rw [cancel]
      decide
    have notModify : order.type ≠ 'M' := by
      rw [cancel]
      decide
    cases found : recordOf Resting.orderId live order.orderId with
    | none =>
      have absent : book.orders order.orderId = none := by
        rw [mirrors.entered, found]
        rfl
      simp only [cancel, specProcessCancel, absent, without_of_absent found]
      refine ⟨fun _ _ resting member => ?_, fun _ => follows⟩
      rw [found] at member
      cases member
    | some resting =>
      have present : book.orders order.orderId = some resting.entered := by
        rw [mirrors.entered, found]
        rfl
      simp only [cancel, specProcessCancel, present]
      have besidePositive : ∀ other ∈ Beside live order.orderId, 0 < other.qty :=
        fun other member => (mirrors.positive other (List.mem_filter.mp member).1).1
      have settled := settled_of_pos
        (positive_quantitiesAt besidePositive resting.isBuy resting.price)
      rw [follows_reduce_iff (follows.split mirrors.distinct found)
        (side_specRemove book resting.entered order.orderId)]
      simp [TakesOffRight, found, notNew, notModify, settled]

/-! ### Every run -/

/-- An order of the feed is processed, and the index keeps holding what came in. -/
theorem Mirrors.processOrder_returns {book : OrderBookType2} (reachable : Reachable book)
    (mirrors : Mirrors book.contents live) (feed : FeedOrder live order) :
    ∃ next result, beside processOrder refProcess (book, live) order =
        some ((next, refProcess live order), result) ∧
      next.contents = (book.contents.specProcessOrder order).1 ∧
      Reachable next ∧ Mirrors next.contents (refProcess live order) := by
  obtain ⟨next, returns, nextReachable, contents⟩ :=
    reachable.process_returns (show Proper (.ofOrder order) from feed.1)
  have returned : book.processOrder order = some (next, _) := returns
  have kept : Mirrors next.contents (refProcess live order) := by
    rw [contents]
    exact mirrors.specProcessOrder feed
  exact ⟨next, _, by rw [beside, returned]; rfl, contents, nextReachable, kept⟩

theorem mirrors_create {sizeHint : Nat} {book : OrderBookType2}
    (created : create sizeHint = some book) : Mirrors book.contents [] := by
  rw [(indexes_create created).contents_eq]
  exact mirrors_nil

/-- The index holds what came in throughout a run of orders, whether or not the levels follow. -/
theorem mirrors_throughout {sizeHint : Nat} {book : OrderBookType2}
    (created : create sizeHint = some book) {orders : List Order}
    (feed : EachStep (beside processOrder refProcess) (fun state order => FeedOrder state.2 order)
      (book, []) orders) :
    Throughout (beside processOrder refProcess)
      (fun state => Reachable state.1 ∧ Mirrors state.1.contents state.2) (book, []) orders := by
  refine throughout_of_keeps (fun _ both => both) (fun state order both feed => ?_) orders
    (book, []) ⟨.create created, mirrors_create created⟩ feed
  obtain ⟨next, result, returns, -, kept⟩ := both.2.processOrder_returns both.1 feed
  exact ⟨_, result, returns, kept⟩

/-- Over a run of orders, the levels follow the reference in every state reached exactly when
each modify and cancel takes off what its order rests at. -/
theorem follows_throughout_iff {sizeHint : Nat} {book : OrderBookType2}
    (created : create sizeHint = some book) (orders : List Order)
    (feed : EachStep (beside processOrder refProcess) (fun state order => FeedOrder state.2 order)
      (book, []) orders) :
    Throughout (beside processOrder refProcess) (fun state => Follows state.1.side state.2)
        (book, []) orders ↔
      EachStep (beside processOrder refProcess) (fun state order => TakesOffRight state.2 order)
        (book, []) orders := by
  have decides (state : OrderBookType2 × List Resting) (order : Order)
      (invariant : Reachable state.1 ∧ Mirrors state.1.contents state.2)
      (follows : Follows state.1.side state.2) (feed : FeedOrder state.2 order) :
      ∃ next result, beside processOrder refProcess state order = some (next, result) ∧
        (Follows next.1.side next.2 ↔ TakesOffRight state.2 order) ∧
        (TakesOffRight state.2 order → Reachable next.1 ∧ Mirrors next.1.contents next.2) := by
    obtain ⟨reachable, mirrors⟩ := invariant
    obtain ⟨next, result, returns, contents, kept⟩ := mirrors.processOrder_returns reachable feed
    have step := follows_specProcessOrder_iff mirrors follows feed
    rw [show (specProcessOrder state.1.contents order).1 = next.contents from contents.symm] at step
    exact ⟨(next, refProcess state.2 order), result, returns, step, fun _ => kept⟩
  refine throughout_iff decides orders (book, []) ⟨.create created, mirrors_create created⟩ ?_ feed
  intro isBuy price
  rw [(indexes_create created).side_eq]
  cases isBuy <;> rfl

/-- Orders that are modified once, to another price and to another quantity, and one that is
cancelled as it came in; the order whose quantity fell is cancelled while alone at its price. -/
theorem follows_throughout_example :
    ∃ book, create 1 = some book ∧
      Throughout (beside processOrder refProcess) (fun state => Follows state.1.side state.2)
        (book, [])
        [{ type := 'N', orderId := 1, orderType := 'B', price := 100, qty := 10 },
          { type := 'M', orderId := 2, orderType := 'B', price := 100, qty := 5 },
          { type := 'N', orderId := 3, orderType := 'S', price := 102, qty := 7 },
          { type := 'M', orderId := 1, orderType := 'B', price := 99, qty := 4 },
          { type := 'M', orderId := 3, orderType := 'S', price := 102, qty := 6 },
          { type := 'X', orderId := 2, orderType := 'B', price := 100, qty := 5 },
          { type := 'X', orderId := 3, orderType := 'S', price := 102, qty := 6 }] := by
  have created : create 1 = some ⟨.empty, .empty, .empty 1 emptyOrderId⟩ := rfl
  exact ⟨_, created, (follows_throughout_iff created _ (by decide)).mpr (by decide)⟩

/-- An order moved from 100 to 101 and cancelled there: the cancel looks for it at 100, and the
level of 101 stays. -/
theorem cancel_after_modify_leaves_level :
    ∃ book, create 1 = some book ∧
      EachStep (beside processOrder refProcess) (fun state order => FeedOrder state.2 order)
        (book, [])
        [{ type := 'N', orderId := 1, orderType := 'B', price := 100, qty := 10 },
          { type := 'M', orderId := 1, orderType := 'B', price := 101, qty := 10 },
          { type := 'X', orderId := 1, orderType := 'B', price := 101, qty := 10 }] ∧
      ¬ Throughout (beside processOrder refProcess) (fun state => Follows state.1.side state.2)
        (book, [])
        [{ type := 'N', orderId := 1, orderType := 'B', price := 100, qty := 10 },
          { type := 'M', orderId := 1, orderType := 'B', price := 101, qty := 10 },
          { type := 'X', orderId := 1, orderType := 'B', price := 101, qty := 10 }] := by
  refine ⟨⟨.empty, .empty, .empty 1 emptyOrderId⟩, rfl, by decide, ?_⟩
  rintro ⟨-, -, -, follows⟩
  have level : some (⟨101, 10, 1⟩ : Level) = none := follows true 101
  cases level

end BookOver

end ObLib
