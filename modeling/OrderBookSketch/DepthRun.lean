/-
This file states what a depth should show for a set of live orders and when it does.

Adding, closing, changing and replacing orders that are live keeps both sides windows on
the ladders of the live orders, as long as no order is entered at a price with exactly
`SIZE - 1` better prices. Such an order belongs in the last slot, which the search for
its level does not look at. A replacement of the only order in that slot by one at a
better price is the exception, since closing the old order fetches the new one. The open
quantities at a price have to fit the `int32_t` that a level has for their total.
-/

import OrderBookSketch.DepthLadder
import Mathlib.Data.List.Dedup

namespace ObLib

open Containers Runs

/-! ### Live orders -/

structure OpenOrder where
  isBid : Bool
  price : Price
  qty : Quantity
deriving DecidableEq, Repr

/-- What happens to the live orders. -/
inductive OpenOrder.Event where
  | add (order : OpenOrder)
  | close (order : OpenOrder)
  | change (order : OpenOrder) (newQty : Quantity)
  | replace (order : OpenOrder) (newPrice : Price) (newQty : Quantity)
deriving DecidableEq, Repr

namespace OpenOrder

/-- The call that tells a depth about the event. -/
def Event.call : Event → Depth.Call
  | .add order => .addOrder order.price order.qty order.isBid
  | .close order => .closeOrder order.price order.qty order.isBid
  | .change order newQty => .changeQtyOrder order.price (newQty - order.qty) order.isBid
  | .replace order newPrice newQty =>
    .replaceOrder order.price newPrice order.qty newQty order.isBid

/-- The live orders after an event. -/
def after (live : List OpenOrder) : Event → List OpenOrder
  | .add order => order :: live
  | .close order => live.erase order
  | .change order newQty => { order with qty := newQty } :: live.erase order
  | .replace order newPrice newQty =>
    { order with price := newPrice, qty := newQty } :: live.erase order

/-- The event is about an order that is live, and its prices and quantities are positive. -/
def Consistent (live : List OpenOrder) : Event → Prop
  | .add order => 0 < order.price ∧ 0 < order.qty
  | .close order => order ∈ live
  | .change order newQty => order ∈ live ∧ 0 < newQty
  | .replace order newPrice newQty => order ∈ live ∧ 0 < newPrice ∧ 0 < newQty

/-- The open quantities on a side at a price. -/
def amounts (live : List OpenOrder) (isBid : Bool) (price : Price) : List Quantity :=
  (live.filter fun order => order.isBid = isBid ∧ order.price = price).map qty

/-- The prices of a side at which orders are live. -/
def prices (live : List OpenOrder) (isBid : Bool) : List Price :=
  ((live.filter fun order => order.isBid = isBid).map price).dedup

/-- How many prices with live orders are better than a price. -/
def betterPrices (live : List OpenOrder) (isBid : Bool) (price : Price) : Nat :=
  (prices live isBid).countP fun other => better isBid other price

/-- The event enters no order where the search for its level ends. A replacement may, where it
takes the only order out of the last slot. -/
def Clear (size : Nat) (live : List OpenOrder) : Event → Prop
  | .add order => betterPrices live order.isBid order.price ≠ size - 1
  | .close _ => True
  | .change _ _ => True
  | .replace order newPrice _ =>
    newPrice = order.price ∨ betterPrices live order.isBid newPrice ≠ size - 1 ∨
      betterPrices live order.isBid order.price = size - 1 ∧
        (amounts live order.isBid order.price).length = 1

/-- The open quantities where the event enters or changes an order add up to an `int32_t`. -/
def Fits (live : List OpenOrder) (event : Event) : Prop :=
  match event with
  | .add order => FitsInt32 (amounts (after live event) order.isBid order.price).sum
  | .close _ => True
  | .change order _ => FitsInt32 (amounts (after live event) order.isBid order.price).sum
  | .replace order newPrice _ => FitsInt32 (amounts (after live event) order.isBid newPrice).sum

instance (live : List OpenOrder) (event : Event) : Decidable (Consistent live event) := by
  cases event <;> unfold Consistent <;> infer_instance

instance (size : Nat) (live : List OpenOrder) (event : Event) :
    Decidable (Clear size live event) := by
  cases event <;> unfold Clear <;> infer_instance

instance (live : List OpenOrder) (event : Event) : Decidable (Fits live event) := by
  cases event <;> unfold Fits <;> infer_instance

/-! ### Amounts -/

variable {live : List OpenOrder} {order : OpenOrder} {isBid : Bool} {price : Price}

theorem amounts_cons (order : OpenOrder) (live : List OpenOrder) (isBid : Bool) (price : Price) :
    amounts (order :: live) isBid price =
      if order.isBid = isBid ∧ order.price = price then order.qty :: amounts live isBid price
      else amounts live isBid price := by
  simp only [amounts, List.filter_cons, decide_eq_true_eq]
  split_ifs <;> rfl

theorem amounts_erase (member : order ∈ live) (isBid : Bool) (price : Price) :
    (amounts live isBid price).Perm (amounts (order :: live.erase order) isBid price) :=
  ((List.perm_cons_erase member).filter _).map _

theorem amounts_erase_other (member : order ∈ live)
    (other : ¬ (order.isBid = isBid ∧ order.price = price)) :
    levelOf price (amounts (live.erase order) isBid price) =
      levelOf price (amounts live isBid price) := by
  rw [levelOf_perm (amounts_erase member isBid price), amounts_cons, if_neg other]

/-- Every live order has a positive price and quantity. -/
def Positive (live : List OpenOrder) : Prop := ∀ order ∈ live, 0 < order.price ∧ 0 < order.qty

theorem Positive.after (positive : Positive live) {event : Event}
    (consistent : Consistent live event) : Positive (after live event) := by
  have erased (order other : OpenOrder) (member : other ∈ live.erase order) :=
    positive other (List.mem_of_mem_erase member)
  cases event with
  | add order => exact List.forall_mem_cons.mpr ⟨consistent, positive⟩
  | close order => exact erased order
  | change order newQty =>
    exact List.forall_mem_cons.mpr
      ⟨⟨(positive order consistent.1).1, consistent.2⟩, erased order⟩
  | replace order newPrice newQty =>
    exact List.forall_mem_cons.mpr ⟨consistent.2, erased order⟩

theorem Consistent.priced {event : Event} (consistent : Consistent live event) :
    event.call.Priced := by
  cases event with
  | add order => exact consistent.1.ne'
  | close order => trivial
  | change order newQty => trivial
  | replace order newPrice newQty => exact consistent.2.1.ne'

theorem Positive.amounts (positive : Positive live) {qty : Quantity}
    (member : qty ∈ amounts live isBid price) : 0 < qty := by
  obtain ⟨order, inLive, rfl⟩ := List.mem_map.mp member
  exact (positive order (List.mem_of_mem_filter inLive)).2

/-! ### Totals of live orders -/

/-- The open quantities of every side and price add up to an `int32_t`. -/
def Fitting (live : List OpenOrder) : Prop :=
  ∀ isBid price, FitsInt32 (amounts live isBid price).sum

theorem fitting_nil : Fitting [] := fun _ _ => (by decide : FitsInt32 0)

theorem Positive.sum_nonneg (positive : Positive live) (isBid : Bool) (price : Price) :
    0 ≤ (OpenOrder.amounts live isBid price).sum :=
  List.sum_nonneg fun _ member => (positive.amounts member).le

theorem Positive.erase (positive : Positive live) (order : OpenOrder) :
    Positive (live.erase order) :=
  fun other member => positive other (List.mem_of_mem_erase member)

/-- A live order has a part of the total at its price, and the others have the rest. -/
theorem sum_amounts_of_mem (member : order ∈ live) :
    (amounts live order.isBid order.price).sum =
      order.qty + (amounts (live.erase order) order.isBid order.price).sum := by
  rw [(amounts_erase member _ _).sum_eq, amounts_cons, if_pos ⟨rfl, rfl⟩, List.sum_cons]

/-- The totals fit without an order as well. -/
theorem Fitting.erase (fitting : Fitting live) (positive : Positive live) (member : order ∈ live) :
    Fitting (live.erase order) := by
  intro isBid price
  have total := fitting isBid price
  have rest := (positive.erase order).sum_nonneg isBid price
  rw [(amounts_erase member isBid price).sum_eq, amounts_cons] at total
  split_ifs at total with here
  · rw [List.sum_cons] at total
    exact total.of_le rest (le_add_of_nonneg_left (positive order member).2.le)
  · exact total

/-- The totals fit with an order where they fit at its price. -/
theorem Fitting.cons (fitting : Fitting live)
    (here : FitsInt32 (amounts (order :: live) order.isBid order.price).sum) :
    Fitting (order :: live) := by
  intro isBid price
  by_cases same : order.isBid = isBid ∧ order.price = price
  · obtain ⟨rfl, rfl⟩ := same
    exact here
  · rw [amounts_cons, if_neg same]
    exact fitting isBid price

/-- The change of a live order's quantity is one of an `int32_t`. -/
theorem Fitting.sub_fits (fitting : Fitting live) (positive : Positive live) (member : order ∈ live)
    {newQty : Quantity} (newPositive : 0 < newQty)
    (fits : FitsInt32
      (amounts ({ order with qty := newQty } :: live.erase order) order.isBid order.price).sum) :
    FitsInt32 (newQty - order.qty) := by
  have total := fitting order.isBid order.price
  have rest := (positive.erase order).sum_nonneg order.isBid order.price
  have part := (positive order member).2
  rw [sum_amounts_of_mem member] at total
  rw [amounts_cons, if_pos ⟨rfl, rfl⟩, List.sum_cons] at fits
  have old : PositiveInt32 order.qty := ⟨part, (le_add_of_nonneg_right rest).trans_lt total.2⟩
  have new : PositiveInt32 newQty := ⟨newPositive, (le_add_of_nonneg_right rest).trans_lt fits.2⟩
  exact new.fits_sub old

theorem Fitting.after (fitting : Fitting live) (positive : Positive live) {event : Event}
    (consistent : Consistent live event) (fits : Fits live event) : Fitting (after live event) := by
  cases event with
  | add order => exact fitting.cons fits
  | close order => exact fitting.erase positive consistent
  | change order newQty => exact (fitting.erase positive consistent.1).cons fits
  | replace order newPrice newQty => exact (fitting.erase positive consistent.1).cons fits

/-! ### Ladders of live orders -/

/-- The ladder has a level for each price at which orders are live, with their total and number. -/
def Rests (live : List OpenOrder) (isBid : Bool) (ladder : Ladder isBid) : Prop :=
  ∀ price, ladder.get price = levelOf price (amounts live isBid price)

variable {ladder : Ladder isBid}

theorem Rests.congr (rests : Rests live isBid ladder) {now : List OpenOrder}
    (same : ∀ price, levelOf price (amounts now isBid price) =
      levelOf price (amounts live isBid price)) : Rests now isBid ladder :=
  fun price => (rests price).trans (same price).symm

/-- The rank of a price on the ladder is the number of better prices. -/
theorem Rests.rank (rests : Rests live isBid ladder) (price : Price) :
    ladder.rank price = betterPrices live isBid price := by
  have keys : (ladder.entries.map Prod.fst).Perm (prices live isBid) := by
    refine (List.perm_ext_iff_of_nodup ladder.nodup_keys (List.nodup_dedup _)).mpr fun key => ?_
    have present : key ∈ ladder.entries.map Prod.fst ↔ ladder.get key ≠ none :=
      not_iff_not.mp (OrderedMap.get_eq_none_iff.symm.trans not_not.symm)
    rw [present, rests key]
    unfold levelOf amounts
    rw [List.mem_dedup]
    simp only [ne_eq, ite_eq_left_iff, reduceCtorEq, imp_false, not_not, List.map_eq_nil_iff,
      List.filter_eq_nil_iff, decide_eq_true_eq, List.mem_map, List.mem_filter]
    constructor
    · intro some
      obtain ⟨order, member, here⟩ : ∃ order ∈ live, order.isBid = isBid ∧ order.price = key := by
        by_contra none
        exact some fun order member here => none ⟨order, member, here⟩
      exact ⟨order, ⟨member, here.1⟩, here.2⟩
    · rintro ⟨order, ⟨member, onSide⟩, here⟩ none
      exact none order member ⟨onSide, here⟩
  rw [betterPrices, ← keys.countP_eq, List.countP_map]
  rfl

theorem rests_nil (isBid : Bool) : Rests [] isBid .empty := fun _ => rfl

theorem Rests.add (rests : Rests live isBid ladder) (price : Price) (qty : Quantity) :
    Rests (⟨isBid, price, qty⟩ :: live) isBid (DepthSide.enter ladder price qty) := by
  intro other
  rw [DepthSide.enter, OrderedMap.get_modify, OrderedMap.get_insert, OrderedMap.get_insert,
    amounts_cons]
  by_cases here : other = price
  · rw [if_pos here, if_pos rfl, here, if_pos ⟨rfl, rfl⟩, ← entered_levelOf, rests price]
    cases levelOf price (amounts live isBid price) <;> rfl
  · rw [if_neg here, if_neg here, if_neg fun same => here same.2.symm]
    exact rests other

/-- The level that a price has or starts with has the total of the live orders there. -/
theorem Rests.qty_insert (rests : Rests live isBid ladder) {level : Level}
    (held : (ladder.insert price (DepthSide.opened price)).get price = some level) :
    level.qty = (amounts live isBid price).sum := by
  rw [OrderedMap.get_insert, if_pos rfl, rests price] at held
  obtain rfl := Option.some.inj held
  unfold levelOf
  split_ifs with none
  · rw [none]
    rfl
  · rfl

/-- The ladder at the price of a live order, and what is left of the amounts there without it. -/
theorem Rests.held (rests : Rests live isBid ladder) {qty : Quantity}
    (member : (⟨isBid, price, qty⟩ : OpenOrder) ∈ live) :
    ladder.get price =
      levelOf price (qty :: amounts (live.erase ⟨isBid, price, qty⟩) isBid price) := by
  rw [rests price, levelOf_perm (amounts_erase member isBid price), amounts_cons, if_pos ⟨rfl, rfl⟩]

theorem Rests.close_last (rests : Rests live isBid ladder) {qty : Quantity}
    (member : (⟨isBid, price, qty⟩ : OpenOrder) ∈ live)
    (last : amounts (live.erase ⟨isBid, price, qty⟩) isBid price = []) :
    Rests (live.erase ⟨isBid, price, qty⟩) isBid (ladder.erase price) := by
  intro other
  rw [OrderedMap.get_erase]
  split_ifs with here
  · rw [here, last]
    rfl
  · rw [amounts_erase_other member fun same => here same.2.symm]
    exact rests other

/-- Rewriting the level of a price to what the live orders there add up to. -/
theorem Rests.modify (rests : Rests live isBid ladder) {now : List OpenOrder} {level : Level}
    (held : ladder.get price = some level) {rewrite : Level → Level}
    (here : some (rewrite level) = levelOf price (amounts now isBid price))
    (others : ∀ other ≠ price, levelOf other (amounts now isBid other) =
      levelOf other (amounts live isBid other)) :
    Rests now isBid (ladder.modify price rewrite) := by
  intro other
  rw [OrderedMap.get_modify]
  split_ifs with same
  · rw [same, held, ← here]
    rfl
  · rw [others other same]
    exact rests other

end OpenOrder

/-! ### One side -/

namespace DepthSide

open OpenOrder

variable {isBid : Bool} {size : Nat} {side : DepthSide isBid} {live : List OpenOrder}
  {price newPrice : Price} {qty newQty : Quantity}

/-- The slots list the best prices at which orders are live, each with the total quantity and the
number of orders there, and the excess map has the other prices. -/
def Shows (size : Nat) (side : DepthSide isBid) (live : List OpenOrder) : Prop :=
  ∃ ladder : Ladder isBid, Rests live isBid ladder ∧ Windowed size side ladder

theorem Shows.congr (shows : Shows size side live) {now : List OpenOrder}
    (same : ∀ price, levelOf price (amounts now isBid price) =
      levelOf price (amounts live isBid price)) : Shows size side now := by
  obtain ⟨ladder, rests, windowed⟩ := shows
  exact ⟨ladder, rests.congr same, windowed⟩

theorem shows_addOrder (shows : Shows size side live) (proper : 0 < price)
    (clear : betterPrices live isBid price ≠ size - 1)
    (fits : FitsInt32 (amounts (⟨isBid, price, qty⟩ :: live) isBid price).sum)
    (lastChanged : ChangeId) :
    Shows size (side.addOrder size lastChanged price qty).1 (⟨isBid, price, qty⟩ :: live) := by
  obtain ⟨ladder, rests, windowed⟩ := shows
  refine ⟨_, rests.add price qty,
    windowed.addOrder proper.ne' (by rwa [rests.rank]) lastChanged fun level held => ?_⟩
  rw [amounts_cons, if_pos ⟨rfl, rfl⟩, List.sum_cons] at fits
  rw [rests.qty_insert held, add_comm]
  exact fits

theorem shows_changeQtyOrder (shows : Shows size side live) (positive : 0 < size)
    (member : ⟨isBid, price, qty⟩ ∈ live)
    (fits : FitsInt32
      (amounts (⟨isBid, price, newQty⟩ :: live.erase ⟨isBid, price, qty⟩) isBid price).sum)
    (lastChanged : ChangeId) :
    Shows size (side.changeQtyOrder size lastChanged price (newQty - qty)).1
      (⟨isBid, price, newQty⟩ :: live.erase ⟨isBid, price, qty⟩) := by
  obtain ⟨ladder, rests, windowed⟩ := shows
  have held := rests.held member
  rw [levelOf_cons] at held
  rw [amounts_cons, if_pos ⟨rfl, rfl⟩, List.sum_cons] at fits
  refine ⟨_, rests.modify held ?_ fun other different => ?_,
    windowed.changeQtyOrder positive held lastChanged ?_⟩
  · rw [amounts_cons, if_pos ⟨rfl, rfl⟩, levelOf_cons, Level.adjusted]
    simp only [Option.some.injEq, Level.mk.injEq, and_true, true_and]
    ring
  · rw [amounts_cons, if_neg fun same => different same.2.symm,
      amounts_erase_other member fun same => different same.2.symm]
  · rwa [show qty + (amounts (live.erase ⟨isBid, price, qty⟩) isBid price).sum + (newQty - qty) =
      newQty + (amounts (live.erase ⟨isBid, price, qty⟩) isBid price).sum by ring]

theorem shows_closeOrder (shows : Shows size side live) (orderly : Orderly size side)
    (positive : 0 < size) (allPositive : Positive live) (member : ⟨isBid, price, qty⟩ ∈ live)
    (fits : FitsInt32 (amounts live isBid price).sum) (lastChanged : ChangeId) :
    ∃ next nextChanged emptied, side.closeOrder size lastChanged price qty =
        some (next, nextChanged, .ok emptied) ∧
      Shows size next (live.erase ⟨isBid, price, qty⟩) := by
  obtain ⟨ladder, rests, windowed⟩ := shows
  have held := rests.held member
  rw [levelOf_cons] at held
  cases left : amounts (live.erase ⟨isBid, price, qty⟩) isBid price with
  | nil =>
    rw [left] at held
    obtain ⟨next, nextChanged, closes, nextWindowed⟩ :=
      windowed.closeOrder_last orderly positive held rfl qty lastChanged
    exact ⟨next, nextChanged, true, closes, _, rests.close_last member left, nextWindowed⟩
  | cons first rest =>
    have nonneg := (allPositive.erase ⟨isBid, price, qty⟩).sum_nonneg isBid price
    have total := sum_amounts_of_mem member
    have part : 0 < qty := (allPositive _ member).2
    simp only [left] at held nonneg total
    have restFits : FitsInt32 (qty + (first :: rest).sum - qty) := by
      rw [add_sub_cancel_left]
      exact fits.of_le nonneg (by linarith)
    have several : (((first :: rest).length : Int) + 1 ≠ 0) ∧ (((first :: rest).length : Int) + 1 ≠ 1) := by
      rw [List.length_cons]
      omega
    obtain ⟨next, closes, nextWindowed⟩ :=
      windowed.closeOrder_more positive held several
        (show qty ≤ qty + (first :: rest).sum by linarith) restFits lastChanged
    refine ⟨next, _, false, closes, _, rests.modify held ?_ fun other different => ?_, nextWindowed⟩
    · rw [left, levelOf_cons, Level.reduced]
      rw [Option.some.injEq, Level.mk.injEq, List.sum_cons, List.length_cons, Nat.cast_succ]
      exact ⟨rfl, by ring, by ring⟩
    · exact amounts_erase_other member fun same => different same.2.symm

/-- A replacement at another price adds the new order and then closes the old one. -/
theorem shows_replaceOrder (shows : Shows size side live) (orderly : Orderly size side)
    (positive : 0 < size) (allPositive : Positive live) (member : ⟨isBid, price, qty⟩ ∈ live)
    (proper : 0 < newPrice) (newPositive : 0 < newQty) (different : newPrice ≠ price)
    (clear : betterPrices live isBid newPrice ≠ size - 1 ∨
      betterPrices live isBid price = size - 1 ∧ (amounts live isBid price).length = 1)
    (fitting : Fitting live)
    (fits : FitsInt32
      (amounts (⟨isBid, newPrice, newQty⟩ :: live.erase ⟨isBid, price, qty⟩) isBid newPrice).sum)
    (lastChanged : ChangeId) :
    ∃ next nextChanged emptied,
      side.replaceOrder size lastChanged price newPrice qty newQty =
        some (next, nextChanged, .ok emptied) ∧
      Shows size next (⟨isBid, newPrice, newQty⟩ :: live.erase ⟨isBid, price, qty⟩) := by
  have erased : (⟨isBid, newPrice, newQty⟩ :: live).erase ⟨isBid, price, qty⟩ =
      ⟨isBid, newPrice, newQty⟩ :: live.erase ⟨isBid, price, qty⟩ := by
    rw [List.erase_cons_tail]
    simp [different]
  unfold replaceOrder
  rw [if_neg different.symm]
  by_cases away : betterPrices live isBid newPrice ≠ size - 1
  · have addedFits :
        FitsInt32 (amounts (⟨isBid, newPrice, newQty⟩ :: live) isBid newPrice).sum := by
      rw [amounts_cons, if_pos ⟨rfl, rfl⟩] at fits ⊢
      rwa [List.sum_cons, (amounts_erase member isBid newPrice).sum_eq, amounts_cons,
        if_neg fun same => different same.2.symm, ← List.sum_cons]
    have added : Shows size (side.addOrder size lastChanged newPrice newQty).1
        (⟨isBid, newPrice, newQty⟩ :: live) :=
      shows_addOrder shows proper away addedFits lastChanged
    obtain ⟨next, nextChanged, emptied, closes, after⟩ :=
      shows_closeOrder added
        (sound_addOrder orderly positive lastChanged proper.ne' newQty).1 positive
        (List.forall_mem_cons.mpr ⟨⟨proper, newPositive⟩, allPositive⟩)
        (List.mem_cons_of_mem _ member) ((fitting.cons addedFits) isBid price)
        (side.addOrder size lastChanged newPrice newQty).2
    exact ⟨next, nextChanged, emptied, closes, erased ▸ after⟩
  · obtain ⟨last, single⟩ := clear.resolve_left away
    obtain ⟨ladder, rests, windowed⟩ := shows
    have left : amounts (live.erase ⟨isBid, price, qty⟩) isBid price = [] := by
      rw [(amounts_erase member isBid price).length_eq, amounts_cons, if_pos ⟨rfl, rfl⟩] at single
      exact List.length_eq_zero_iff.mp (Nat.succ.inj single)
    have held := rests.held member
    rw [levelOf_cons, left] at held
    have newLast : ladder.rank newPrice = size - 1 := (rests.rank newPrice).trans (not_not.mp away)
    have others := (allPositive.erase ⟨isBid, price, qty⟩).sum_nonneg isBid newPrice
    have newFits : FitsInt32 newQty := by
      rw [amounts_cons, if_pos ⟨rfl, rfl⟩, List.sum_cons] at fits
      exact fits.of_le newPositive.le (le_add_of_nonneg_right others)
    rw [windowed.addOrder_last positive proper.ne' newLast lastChanged newQty]
    obtain ⟨next, nextChanged, closes, nextWindowed⟩ :=
      windowed.closeOrder_misplaced orderly positive proper.ne' held rfl
        ((rests.rank price).trans last) newLast different newFits qty lastChanged
    exact ⟨next, nextChanged, true, closes, _, (rests.close_last member left).add newPrice newQty,
      nextWindowed⟩

end DepthSide

/-! ### Runs -/

namespace Depth

open DepthSide OpenOrder

variable {size : Nat} {depth : Depth} {live : List OpenOrder}

/-- Both sides show the live orders. -/
def Shows (size : Nat) (depth : Depth) (live : List OpenOrder) : Prop :=
  ∀ isBid, DepthSide.Shows size (depth.side isBid) live

/-- A depth that is told what happens to the live orders, beside these orders. -/
def follow (size : Nat) : Depth × List OpenOrder → OpenOrder.Event →
    Option ((Depth × List OpenOrder) × Except String Bool) :=
  beside (fun depth event => depth.call size event.call) OpenOrder.after

/-- An order of one side is not among the amounts of the other. -/
theorem shows_setSide (shows : Shows size depth live) {isBid : Bool} {side : DepthSide isBid}
    {now : List OpenOrder} (here : DepthSide.Shows size side now)
    (others : ∀ other ≠ isBid, ∀ price, levelOf price (amounts now other price) =
      levelOf price (amounts live other price)) (lastChanged : ChangeId) :
    Shows size (depth.setSide isBid side lastChanged) now := by
  intro other
  by_cases same : other = isBid
  · subst same
    cases other <;> exact here
  · have kept : (depth.setSide isBid side lastChanged).side other = depth.side other := by
      cases isBid <;> cases other <;> first | rfl | exact absurd rfl same
    rw [kept]
    exact (shows other).congr (others other same)

theorem call_shows (positive : 0 < size) (inOrder : InOrder size depth)
    (allPositive : Positive live) (fitting : Fitting live) (shows : Shows size depth live)
    {event : OpenOrder.Event} (consistent : Consistent live event) (clear : Clear size live event)
    (fits : Fits live event) :
    ∃ next result, depth.call size event.call = some (next, result) ∧
      Shows size next (OpenOrder.after live event) := by
  cases event with
  | add order =>
    obtain ⟨isBid, price, qty⟩ := order
    refine ⟨_, _, rfl, shows_setSide shows
      (shows_addOrder (shows isBid) consistent.1 clear fits depth.lastChanged)
      (fun other different price => ?_) _⟩
    rw [amounts_cons, if_neg fun same => different same.1.symm]
  | close order =>
    obtain ⟨isBid, price, qty⟩ := order
    obtain ⟨next, nextChanged, emptied, closes, after⟩ :=
      shows_closeOrder (shows isBid) (inOrder isBid) positive allPositive consistent
        (fitting isBid price) depth.lastChanged
    refine ⟨_, .ok emptied, by rw [Event.call, call, closeOrder, closes]; rfl,
      shows_setSide shows after (fun other different price => ?_) _⟩
    exact amounts_erase_other consistent fun same => different same.1.symm
  | change order newQty =>
    obtain ⟨isBid, price, qty⟩ := order
    refine ⟨_, _, rfl, shows_setSide shows
      (shows_changeQtyOrder (shows isBid) positive consistent.1 fits depth.lastChanged)
      (fun other different price => ?_) _⟩
    rw [amounts_cons, if_neg fun same => different same.1.symm,
      amounts_erase_other consistent.1 fun same => different same.1.symm]
  | replace order newPrice newQty =>
    obtain ⟨isBid, price, qty⟩ := order
    obtain ⟨member, proper, newPositive⟩ := consistent
    have others (other : Bool) (different : other ≠ isBid) (at_ : Price) :
        levelOf at_ (amounts (⟨isBid, newPrice, newQty⟩ :: live.erase ⟨isBid, price, qty⟩) other at_) =
          levelOf at_ (amounts live other at_) := by
      rw [amounts_cons, if_neg fun same => different same.1.symm,
        amounts_erase_other member fun same => different same.1.symm]
    by_cases different : newPrice ≠ price
    · obtain ⟨next, nextChanged, emptied, replaces, after⟩ :=
        shows_replaceOrder (shows isBid) (inOrder isBid) positive allPositive member proper
          newPositive different (clear.resolve_left different) fitting fits depth.lastChanged
      exact ⟨_, .ok emptied, by rw [Event.call, call, replaceOrder, replaces]; rfl,
        shows_setSide shows after others _⟩
    · have same := not_not.mp different
      subst same
      have changes : depth.call size (Event.call (.replace ⟨isBid, newPrice, qty⟩ newPrice newQty)) =
          some (depth.changeQtyOrder size newPrice (newQty - qty) isBid, .ok false) := by
        rw [Event.call, call, replaceOrder, DepthSide.replaceOrder, if_pos rfl,
          asInt32_of_fits (fitting.sub_fits allPositive member newPositive fits)]
        rfl
      exact ⟨_, _, changes, shows_setSide shows
        (shows_changeQtyOrder (shows isBid) positive member fits depth.lastChanged) others _⟩

/-- The depth is in order and shows the live orders. -/
structure Following (size : Nat) (state : Depth × List OpenOrder) : Prop where
  inOrder : InOrder size state.1
  positive : Positive state.2
  fitting : Fitting state.2
  shows : Shows size state.1 state.2

theorem following_create (size : Nat) (lastChanged lastPublished : ChangeId) :
    Following size (create lastChanged lastPublished, []) where
  inOrder := fun isBid => by cases isBid <;> exact orderly_empty size
  positive := fun order member => by cases member
  fitting := fitting_nil
  shows := fun isBid => by cases isBid <;> exact ⟨_, rests_nil _, windowed_empty size⟩

theorem Following.follow (positive : 0 < size) {state : Depth × List OpenOrder}
    (following : Following size state) {event : OpenOrder.Event}
    (consistent : Consistent state.2 event) (clear : Clear size state.2 event)
    (fits : Fits state.2 event) :
    ∃ next result, follow size state event = some (next, result) ∧ Following size next := by
  obtain ⟨depth, live⟩ := state
  obtain ⟨next, result, returns, shows⟩ :=
    call_shows positive following.inOrder following.positive following.fitting following.shows
      consistent clear fits
  obtain ⟨again, _, returned, inOrder, -⟩ :=
    call_since positive depth event.call following.inOrder consistent.priced
  obtain ⟨rfl, -⟩ := returns_unique returns returned
  exact ⟨(next, OpenOrder.after live event), result, by rw [Depth.follow, beside, returns]; rfl,
    inOrder, following.positive.after consistent,
    following.fitting.after following.positive consistent fits, shows⟩

/-- A depth that is told what happens to live orders shows them throughout, when no order is
entered where the search for its level ends and the quantities at a price fit their total. -/
theorem shows_throughout (positive : 0 < size) (lastChanged lastPublished : ChangeId)
    (events : List OpenOrder.Event)
    (consistent : EachStep (follow size) (fun state event => Consistent state.2 event)
      (create lastChanged lastPublished, []) events)
    (clear : EachStep (follow size) (fun state event => Clear size state.2 event)
      (create lastChanged lastPublished, []) events)
    (fits : EachStep (follow size) (fun state event => Fits state.2 event)
      (create lastChanged lastPublished, []) events) :
    Throughout (follow size) (fun state => Shows size state.1 state.2)
      (create lastChanged lastPublished, []) events := by
  refine throughout_of_keeps (fun _ following => Following.shows following)
    (fun state event following each => following.follow positive each.1.1 each.1.2 each.2) events _
    ?_ ((consistent.and clear).and fits)
  exact following_create size lastChanged lastPublished

/-- Three bids on two slots, the last slot's only order replaced by one at a better price, an ask
that changes, and a close that brings the excess level into the last slot. -/
theorem shows_throughout_example :
    Throughout (follow 2) (fun state => Shows 2 state.1 state.2) (create 0 0, [])
      [.add ⟨true, 90, 5⟩, .add ⟨true, 101, 7⟩, .add ⟨true, 80, 2⟩, .replace ⟨true, 90, 5⟩ 95 3,
        .add ⟨false, 105, 1⟩, .change ⟨false, 105, 1⟩ 4, .close ⟨true, 101, 7⟩,
        .close ⟨true, 95, 3⟩] := by
  refine shows_throughout (by decide) 0 0 _ ?_ ?_ ?_ <;> decide

/-- A second price behind the first of two slots is not in the second slot. -/
theorem second_bid_is_not_shown :
    ¬ ∀ size, 0 < size → ∀ (lastChanged lastPublished : ChangeId) (events : List OpenOrder.Event),
      EachStep (follow size) (fun state event => Consistent state.2 event)
        (create lastChanged lastPublished, []) events →
      Throughout (follow size) (fun state => Shows size state.1 state.2)
        (create lastChanged lastPublished, []) events := by
  intro claim
  have throughout := claim 2 (by decide) 0 0 [.add ⟨true, 100, 5⟩, .add ⟨true, 99, 2⟩] (by decide)
  obtain ⟨ladder, rests, windowed⟩ := throughout.2.2 true
  have rank : ladder.rank 99 = 1 := (rests.rank 99).trans (by decide)
  have shown := (windowed.content_place (rests 99)).2
  rw [placeOf_slot (by rw [rank]; decide), rank] at shown
  cases shown

end Depth

end ObLib
