/-
This file proves when an order book keeps its orders as the feed last said and tells its
depth amounts that add up to their open quantities.

The depth here is one whose bookkeeping is correct: for each side and price it has the
total of the amounts it was told. The quantity of a replacement is taken off the open
quantity with the wrong sign, a price that an order returns to is not set, a cancel
takes the original amount off the depth, and a cancel of a sell order has no defined
behaviour. A run that does none of these keeps every order and every total, and a run
that does one of them does not.
-/

import OrderBookSketch.OrderBook
import OrderBookSketch.Library.Run
import Mathlib.Algebra.BigOperators.Group.List.Basic
import Mathlib.Tactic.Linarith
import Mathlib.Tactic.Ring

namespace ObLib

open Ledgers Runs

/-! ### A depth of totals -/

/-- The total quantity of each side at each price. -/
abbrev Totals := Bool → Price → Quantity

namespace Totals

def add (totals : Totals) (isBid : Bool) (price : Price) (qty : Quantity) : Totals :=
  fun side other => totals side other + if side = isBid ∧ other = price then qty else 0

/-- The totals after a call has told its amounts. -/
def after (totals : Totals) : Depth.Call → Totals
  | .addOrder price qty isBid => totals.add isBid price qty
  | .closeOrder price openQty isBid => totals.add isBid price (-openQty)
  | .changeQtyOrder price delta isBid => totals.add isBid price delta
  | .replaceOrder oldPrice newPrice oldQty newQty isBid =>
    if oldPrice = newPrice then totals.add isBid newPrice (newQty - oldQty)
    else (totals.add isBid newPrice newQty).add isBid oldPrice (-oldQty)

def call (totals : Totals) (request : Depth.Call) : Option (Totals × Except String Bool) :=
  some (totals.after request, .ok false)

end Totals

namespace OrderBook

/-! ### Both sides -/

/-- One side has these keepers now, the other has those it had, and the depth has these totals. -/
structure Effect (book next : OrderBook Totals) (isBuy : Bool)
    (map : IdMap OrderStateKeeper.orderId) (totals : Totals) : Prop where
  here : next.side isBuy = map
  other : next.side (!isBuy) = book.side (!isBuy)
  depth : next.depth = totals

variable {book next : OrderBook Totals} {isBuy : Bool} {order : Order} {it : OrderStateKeeper}

theorem addNew_effect (book : OrderBook Totals) (some : order.qty ≠ 0) :
    ∃ next, book.addNew Totals.call order = .some (next, .ok ()) ∧
      Effect book next order.isBuy ((book.side order.isBuy).insert (.create order))
        (book.depth.after (.addOrder order.price order.qty order.isBuy)) := by
  unfold addNew
  rw [if_neg some]
  cases order.isBuy <;> exact ⟨_, rfl, rfl, rfl, rfl⟩

theorem cancel_absent (absent : (book.side order.isBuy).find order.orderId = none) :
    book.cancel Totals.call order =
      some ({ book with transactionId := book.transactionId + 1 }, .ok ()) := by
  unfold cancel
  cases buys : order.isBuy with
  | false =>
    rw [buys] at absent
    rw [if_neg Bool.false_ne_true, show book.asks.find order.orderId = none from absent]
  | true =>
    rw [buys] at absent
    rw [if_pos rfl, show book.bids.find order.orderId = none from absent]

theorem cancel_found_buy (buys : order.isBuy = true)
    (found : (book.side order.isBuy).find order.orderId = some it) :
    ∃ next, book.cancel Totals.call order = some (next, .ok ()) ∧
      Effect book next true ((book.side true).erase it.orderId)
        (book.depth.after (.closeOrder it.order.price it.order.qty it.order.isBuy)) := by
  rw [buys] at found
  unfold cancel
  rw [if_pos buys, show book.bids.find order.orderId = some it from found]
  exact ⟨_, rfl, rfl, rfl, rfl⟩

theorem cancel_found_sell (sells : order.isBuy = false)
    (found : (book.side order.isBuy).find order.orderId = some it) :
    book.cancel Totals.call order = none := by
  rw [sells] at found
  unfold cancel
  rw [if_neg (by rw [sells]; decide), show book.asks.find order.orderId = some it from found]
  rfl

/-- What `replace` takes for the change in the quantity of a kept order. -/
def deltaOf (it : OrderStateKeeper) (order : Order) : Quantity :=
  asInt32 (it.order.qty - order.qty)

/-- What `replace` of a kept order tells the depth. -/
def replaceCall (it : OrderStateKeeper) (order : Order) : Depth.Call :=
  if order.isBuy = false ∧ order.price = it.order.price then
    .changeQtyOrder order.price (deltaOf it order) order.isBuy
  else .replaceOrder it.price order.price it.openQty order.qty order.isBuy

/-- The kept order after a replacement that does not throw. -/
def replaced (it : OrderStateKeeper) (order : Order) : OrderStateKeeper :=
  { it with
    openQty := asInt32 (it.openQty + deltaOf it order)
    price := if order.price = it.order.price then it.price else order.price }

/-- The open quantity does not cover what the replacement takes off it. -/
def Overdrawn (it : OrderStateKeeper) (order : Order) : Prop :=
  deltaOf it order < 0 ∧ it.openQty < asInt32 |deltaOf it order|

instance (it : OrderStateKeeper) (order : Order) : Decidable (Overdrawn it order) :=
  inferInstanceAs (Decidable (_ ∧ _))

theorem replace_absent (absent : (book.side order.isBuy).find order.orderId = none) :
    book.replace Totals.call order =
      addNew Totals.call { book with transactionId := book.transactionId + 1 } order := by
  unfold replace
  cases buys : order.isBuy with
  | false =>
    rw [buys] at absent
    rw [if_neg Bool.false_ne_true, show book.asks.find order.orderId = none from absent]
  | true =>
    rw [buys] at absent
    rw [if_pos rfl, show book.bids.find order.orderId = none from absent]

theorem keep_overdrawn (overdrawn : Overdrawn it order)
    (write : OrderStateKeeper → OrderBook Totals) (unchanged : OrderBook Totals) :
    keep it order write unchanged = (unchanged, .error OrderStateKeeper.deductedTooMuch) := by
  have throws : it.changeQty (asInt32 (it.order.qty - order.qty)) =
      .error OrderStateKeeper.deductedTooMuch := if_pos overdrawn
  unfold keep
  simp only [throws]

theorem keep_covered (covered : ¬ Overdrawn it order)
    (write : OrderStateKeeper → OrderBook Totals) (unchanged : OrderBook Totals) :
    keep it order write unchanged = (write (replaced it order), .ok ()) := by
  have changes : it.changeQty (asInt32 (it.order.qty - order.qty)) =
      .ok { it with openQty := asInt32 (it.openQty + deltaOf it order) } := if_neg covered
  unfold keep replaced OrderStateKeeper.setPrice
  simp only [changes]
  by_cases stays : order.price = it.order.price
  · simp only [stays, not_true, if_false, if_true]
  · simp only [stays, not_false_eq_true, if_false, if_true]

theorem replace_found (found : (book.side order.isBuy).find order.orderId = some it) :
    ∃ next result, book.replace Totals.call order = some (next, result) ∧
      Effect book next order.isBuy
        (if Overdrawn it order then book.side order.isBuy
        else (book.side order.isBuy).write (replaced it order))
        (book.depth.after (replaceCall it order)) := by
  unfold replace
  cases buys : order.isBuy with
  | false =>
    rw [buys] at found
    have request : replaceCall it order =
        if order.price = it.order.price then
          .changeQtyOrder order.price (asInt32 (it.order.qty - order.qty)) order.isBuy
        else .replaceOrder it.price order.price it.openQty order.qty order.isBuy := by
      simp only [replaceCall, deltaOf, buys, true_and]
    rw [if_neg Bool.false_ne_true, show book.asks.find order.orderId = some it from found, request,
      buys]
    by_cases overdrawn : Overdrawn it order
    · rw [if_pos overdrawn]
      exact ⟨_, _, congrArg some (keep_overdrawn overdrawn ..), rfl, rfl, rfl⟩
    · rw [if_neg overdrawn]
      exact ⟨_, _, congrArg some (keep_covered overdrawn ..), rfl, rfl, rfl⟩
  | true =>
    rw [buys] at found
    have request : replaceCall it order =
        .replaceOrder it.price order.price it.openQty order.qty order.isBuy := by
      rw [replaceCall, if_neg (by simp [buys])]
    rw [if_pos rfl, show book.bids.find order.orderId = some it from found, request, buys]
    by_cases overdrawn : Overdrawn it order
    · rw [if_pos overdrawn]
      exact ⟨_, _, congrArg some (keep_overdrawn overdrawn ..), rfl, rfl, rfl⟩
    · rw [if_neg overdrawn]
      exact ⟨_, _, congrArg some (keep_covered overdrawn ..), rfl, rfl, rfl⟩

/-! ### Totals -/

/-- The sum of the open quantities of the kept orders at a price. -/
def openAt (map : IdMap OrderStateKeeper.orderId) (price : Price) : Quantity :=
  (amountsAt OrderStateKeeper.price OrderStateKeeper.openQty map.records price).sum

theorem openAt_insert {map : IdMap OrderStateKeeper.orderId} (absent : map.find it.orderId = none)
    (price : Price) :
    openAt (map.insert it) price = (if it.price = price then it.openQty else 0) + openAt map price := by
  unfold openAt
  rw [IdMap.records_insert absent]
  exact sum_amountsAt_cons ..

theorem openAt_erase {map : IdMap OrderStateKeeper.orderId} {id : OrderId}
    (found : map.find id = some it) (price : Price) :
    openAt map price =
      (if it.price = price then it.openQty else 0) + openAt (map.erase id) price := by
  unfold openAt
  rw [(amountsAt_perm (IdMap.perm_erase found) price).sum_eq]
  exact sum_amountsAt_cons ..

theorem openAt_write (map : IdMap OrderStateKeeper.orderId) (it : OrderStateKeeper) (price : Price) :
    openAt (map.write it) price =
      (if it.price = price then it.openQty else 0) + openAt (map.erase it.orderId) price := by
  unfold openAt
  rw [IdMap.records_write]
  exact sum_amountsAt_cons ..

/-- For every side and price the depth has the sum of the open quantities kept there. -/
def Balanced (book : OrderBook Totals) : Prop :=
  ∀ isBuy price, book.depth isBuy price = openAt (book.side isBuy) price

/-- The side that a call to the depth is about. -/
def sideOf : Depth.Call → Bool
  | .addOrder _ _ isBid => isBid
  | .closeOrder _ _ isBid => isBid
  | .changeQtyOrder _ _ isBid => isBid
  | .replaceOrder _ _ _ _ isBid => isBid

theorem add_other (totals : Totals) {isBid other : Bool} (different : other ≠ isBid)
    (at_ price : Price) (qty : Quantity) : totals.add isBid at_ qty other price = totals other price := by
  rw [Totals.add, if_neg fun same => different same.1, add_zero]

theorem add_same (totals : Totals) (isBid : Bool) (at_ : Price) (qty : Quantity) (price : Price) :
    totals.add isBid at_ qty isBid price = totals isBid price + if at_ = price then qty else 0 := by
  unfold Totals.add
  by_cases here : at_ = price
  · rw [if_pos ⟨rfl, here.symm⟩, if_pos here]
  · rw [if_neg fun same => here same.2.symm, if_neg here]

/-- A replacement tells the old quantity off the old price and the new one on the new price. -/
theorem after_replaceOrder (totals : Totals) (oldPrice newPrice : Price)
    (oldQty newQty : Quantity) (isBid : Bool) (price : Price) :
    totals.after (.replaceOrder oldPrice newPrice oldQty newQty isBid) isBid price =
      totals isBid price - (if oldPrice = price then oldQty else 0) +
        if newPrice = price then newQty else 0 := by
  simp only [Totals.after]
  by_cases same : oldPrice = newPrice
  · rw [if_pos same, add_same, same]
    split_ifs <;> ring
  · rw [if_neg same, add_same, add_same]
    split_ifs <;> ring

theorem after_other (totals : Totals) (request : Depth.Call) {other : Bool}
    (different : other ≠ sideOf request) (price : Price) :
    totals.after request other price = totals other price := by
  cases request with
  | addOrder => exact add_other totals different ..
  | closeOrder => exact add_other totals different ..
  | changeQtyOrder => exact add_other totals different ..
  | replaceOrder oldPrice newPrice oldQty newQty isBid =>
    simp only [Totals.after]
    split_ifs
    · exact add_other totals different ..
    · exact (add_other _ different ..).trans (add_other _ different ..)

/-- Where a step changes one side, the other keeps its balance. -/
theorem Effect.balanced_iff {map : IdMap OrderStateKeeper.orderId} {request : Depth.Call}
    (effect : Effect book next isBuy map (book.depth.after request))
    (sameSide : sideOf request = isBuy) (balanced : Balanced book) :
    Balanced next ↔ ∀ price, book.depth.after request isBuy price = openAt map price := by
  constructor
  · intro after price
    rw [← effect.depth, ← effect.here]
    exact after isBuy price
  · intro here side price
    by_cases same : side = isBuy
    · rw [same, effect.depth, effect.here]
      exact here price
    · have other : side = !isBuy := Bool.eq_not.mpr same
      rw [effect.depth, after_other _ _ (by rwa [sameSide]), other, effect.other]
      exact balanced _ price

/-! ### Runs -/

/-- A book beside the last request that it processed. -/
def follow : OrderBook Totals × Option Request → Request →
    Option ((OrderBook Totals × Option Request) × Except String Unit) :=
  beside (process Totals.call) fun _ request => some request

/-- A new order is of no kept id, every order keeps its side, and prices and quantities are
positive, these of an `int32_t`. -/
def Consistent (book : OrderBook Totals) : Request → Prop
  | .addNew order => 0 < order.price ∧ PositiveInt32 order.qty ∧
      ∀ isBuy, (book.side isBuy).find order.orderId = none
  | .replace order => 0 < order.price ∧ PositiveInt32 order.qty ∧
      (book.side (!order.isBuy)).find order.orderId = none
  | .cancel order => (book.side (!order.isBuy)).find order.orderId = none

/-- What the last request said is so: a cancelled order is gone from its side, so that a second
cancel changes nothing but the number of transactions, and a replaced order has the new quantity
and price. -/
def Reflects (book : OrderBook Totals) : Option Request → Prop
  | some (.replace order) => ∃ it, (book.side order.isBuy).find order.orderId = some it ∧
      it.openQty = order.qty ∧ it.price = order.price
  | some (.cancel order) => (book.side order.isBuy).find order.orderId = none ∧
      book.process Totals.call (.cancel order) =
        some ({ book with transactionId := book.transactionId + 1 }, .ok ())
  | _ => True

/-- The book is as the feed said, and so are the totals of its depth. -/
def AsSaid (state : OrderBook Totals × Option Request) : Prop :=
  Balanced state.1 ∧ Reflects state.1 state.2

/-- The request replaces a kept order by one of half its open and its original quantity together,
which is its quantity when that was never replaced, and returns to the original price only from
there; or it cancels a kept buy order that is at its original price and quantity. -/
def Clear (book : OrderBook Totals) : Request → Prop
  | .addNew _ => True
  | .replace order => ∀ it ∈ (book.side order.isBuy).find order.orderId,
      it.openQty + it.order.qty = 2 * order.qty ∧
        (order.price = it.order.price → it.price = order.price)
  | .cancel order => ∀ it ∈ (book.side order.isBuy).find order.orderId,
      order.isBuy ∧ it.price = it.order.price ∧ it.openQty = it.order.qty

instance (book : OrderBook Totals) (request : Request) : Decidable (Consistent book request) := by
  cases request <;> unfold Consistent <;> infer_instance

instance (book : OrderBook Totals) (request : Request) : Decidable (Clear book request) := by
  cases request <;> unfold Clear <;> infer_instance

/-- A kept order of a side, which was entered with a quantity and has one open. -/
structure Kept (isBuy : Bool) (it : OrderStateKeeper) : Prop where
  side : it.order.isBuy = isBuy
  original : PositiveInt32 it.order.qty
  openQty : PositiveInt32 it.openQty

/-- The kept orders are on their sides, and have quantities. -/
def Entered (book : OrderBook Totals) : Prop :=
  ∀ isBuy, ∀ it ∈ (book.side isBuy).records, Kept isBuy it

theorem Effect.entered {map : IdMap OrderStateKeeper.orderId} {totals : Totals}
    (effect : Effect book next isBuy map totals) (entered : Entered book)
    (here : ∀ it ∈ map.records, Kept isBuy it) : Entered next := by
  intro side it member
  by_cases same : side = isBuy
  · rw [same, effect.here] at member
    rw [same]
    exact here it member
  · rw [Bool.eq_not.mpr same, effect.other] at member
    rw [Bool.eq_not.mpr same]
    exact entered _ it member

/-! ### Steps -/

theorem entered_insert {totals : Totals}
    (effect : Effect book next order.isBuy ((book.side order.isBuy).insert (.create order)) totals)
    (entered : Entered book) (positive : PositiveInt32 order.qty)
    (absent : (book.side order.isBuy).find order.orderId = none) : Entered next := by
  refine effect.entered entered fun it member => ?_
  rw [IdMap.records_insert absent] at member
  rcases List.mem_cons.mp member with rfl | member
  · exact ⟨rfl, positive, positive⟩
  · exact entered _ it member

theorem addNew_balanced (balanced : Balanced book) (positive : 0 < order.qty)
    (absent : (book.side order.isBuy).find order.orderId = none) :
    ∃ next, book.addNew Totals.call order = some (next, .ok ()) ∧ Balanced next ∧
      (next.side order.isBuy).find order.orderId = some (.create order) := by
  obtain ⟨next, returns, effect⟩ := addNew_effect book positive.ne'
  refine ⟨next, returns, ?_, ?_⟩
  · rw [effect.balanced_iff rfl balanced]
    intro price
    rw [openAt_insert absent, ← balanced order.isBuy price]
    simp only [Totals.after, Totals.add, OrderStateKeeper.create, true_and, eq_comm]
    exact add_comm _ _
  · rw [effect.here, IdMap.find_insert absent]
    exact if_pos rfl

/-- Between positive quantities the change is exact. -/
theorem Kept.deltaOf_eq (kept : Kept isBuy it) (positive : PositiveInt32 order.qty) :
    deltaOf it order = it.order.qty - order.qty :=
  asInt32_of_fits (kept.original.fits_sub positive)

/-- And so is the size of what is taken off. -/
theorem Kept.overdrawn_iff (kept : Kept isBuy it) (positive : PositiveInt32 order.qty) :
    Overdrawn it order ↔ it.order.qty < order.qty ∧ it.openQty + it.order.qty < order.qty := by
  have size : |it.order.qty - order.qty| = |order.qty - it.order.qty| := abs_sub_comm ..
  unfold Overdrawn
  rw [kept.deltaOf_eq positive, size, sub_neg]
  refine and_congr_right fun raised => ?_
  rw [abs_of_pos (sub_pos.mpr raised), asInt32_of_fits (positive.fits_sub kept.original),
    lt_sub_iff_add_lt]

/-- A replacement by a kept order's own quantity is covered and leaves that quantity open. -/
theorem Kept.replaced_own (kept : Kept isBuy it) (positive : PositiveInt32 order.qty)
    (halved : it.openQty + it.order.qty = 2 * order.qty) :
    ¬ Overdrawn it order ∧ asInt32 (it.openQty + deltaOf it order) = order.qty := by
  constructor
  · rw [kept.overdrawn_iff positive]
    rintro ⟨-, short⟩
    linarith [positive.1]
  · have own : it.openQty + (it.order.qty - order.qty) = order.qty := by linarith
    rw [kept.deltaOf_eq positive, own, asInt32_of_fits positive.fits]

/-- The depth is told what a replacement does to the kept order exactly when the kept order is
what the replacement says. -/
theorem replaceCall_amounts (totals : Totals) (kept : Kept isBuy it)
    (positive : PositiveInt32 order.qty) (halved : it.openQty + it.order.qty = 2 * order.qty)
    (returns : order.price = it.order.price → it.price = order.price) (price : Price) :
    totals.after (replaceCall it order) order.isBuy price =
      totals order.isBuy price - (if it.price = price then it.openQty else 0) +
        if order.price = price then order.qty else 0 := by
  by_cases stays : order.isBuy = false ∧ order.price = it.order.price
  · rw [replaceCall, if_pos stays, returns stays.2, kept.deltaOf_eq positive]
    show totals.add _ _ _ _ _ = _
    rw [add_same]
    split_ifs
    · linarith
    · ring
  · rw [replaceCall, if_neg stays]
    exact after_replaceOrder ..

/-- A replacement of a kept order by its own quantity leaves the book as it says. -/
theorem replace_asSaid (entered : Entered book) (balanced : Balanced book)
    (positive : PositiveInt32 order.qty)
    (found : (book.side order.isBuy).find order.orderId = some it)
    (halved : it.openQty + it.order.qty = 2 * order.qty)
    (returnsOnly : order.price = it.order.price → it.price = order.price) :
    ∃ next result, book.replace Totals.call order = some (next, result) ∧
      AsSaid (next, some (.replace order)) := by
  obtain ⟨member, id⟩ := recordOf_some found
  have kept := entered _ it member
  obtain ⟨covered, qty⟩ := kept.replaced_own positive halved
  obtain ⟨next, result, returns, effect⟩ := replace_found found
  rw [if_neg covered] at effect
  have same : replaced it order = { it with openQty := order.qty, price := order.price } := by
    unfold replaced
    split_ifs with stays
    · rw [qty, returnsOnly stays]
    · rw [qty]
  refine ⟨next, result, returns, ?_, replaced it order, ?_, ?_, ?_⟩
  · rw [effect.balanced_iff (by unfold replaceCall; split_ifs <;> rfl) balanced]
    intro price
    have before := openAt_erase found price
    rw [replaceCall_amounts _ kept positive halved returnsOnly, openAt_write, balanced, before, same]
    show _ = _ + openAt ((book.side order.isBuy).erase it.orderId) price
    rw [id]
    ring
  · rw [effect.here, IdMap.find_write]
    exact if_pos id.symm
  · rw [same]
  · rw [same]

/-- A cancel of a kept buy order at its original price and quantity leaves the book as it says. -/
theorem cancel_asSaid (entered : Entered book) (balanced : Balanced book)
    (found : (book.side order.isBuy).find order.orderId = some it) (buys : order.isBuy)
    (price : it.price = it.order.price) (qty : it.openQty = it.order.qty) :
    ∃ next result, book.cancel Totals.call order = some (next, result) ∧
      AsSaid (next, some (.cancel order)) := by
  obtain ⟨member, id⟩ := recordOf_some found
  obtain ⟨next, returns, effect⟩ := cancel_found_buy buys found
  have gone : (next.side order.isBuy).find order.orderId = none := by
    rw [buys, effect.here, IdMap.find_erase, if_pos id.symm]
  refine ⟨next, _, returns, ?_, gone, cancel_absent gone⟩
  rw [buys] at found member
  rw [(entered _ it member).side] at effect
  rw [effect.balanced_iff rfl balanced]
  intro other
  show book.depth.add _ _ _ _ _ = _
  rw [add_same, balanced, openAt_erase found other, price, qty, id]
  split_ifs <;> ring

/-- A step that meets the condition leaves the book as the feed said. -/
theorem process_asSaid (request : Request) (entered : Entered book) (balanced : Balanced book)
    (consistent : Consistent book request) (clear : Clear book request) :
    ∃ next result, book.process Totals.call request = some (next, result) ∧
      AsSaid (next, some request) := by
  cases request with
  | addNew order =>
    obtain ⟨next, returns, after, -⟩ :=
      addNew_balanced balanced consistent.2.1.1 (consistent.2.2 order.isBuy)
    exact ⟨next, _, returns, after, trivial⟩
  | replace order =>
    cases found : (book.side order.isBuy).find order.orderId with
    | none =>
      have counted : Balanced { book with transactionId := book.transactionId + 1 } := balanced
      obtain ⟨next, returns, after, kept⟩ := addNew_balanced counted consistent.2.1.1 found
      exact ⟨next, _, (replace_absent found).trans returns, after, _, kept, rfl, rfl⟩
    | some it =>
      obtain ⟨halved, returnsOnly⟩ := clear it found
      exact replace_asSaid entered balanced consistent.2.1 found halved returnsOnly
  | cancel order =>
    cases found : (book.side order.isBuy).find order.orderId with
    | none => exact ⟨_, _, cancel_absent found, balanced, found, cancel_absent found⟩
    | some it =>
      obtain ⟨buys, price, qty⟩ := clear it found
      exact cancel_asSaid entered balanced found buys price qty

/-- A replacement that the kept order reflects afterwards was by its own quantity. -/
theorem clear_of_replaced {result : Except String Unit} (entered : Entered book)
    (positive : PositiveInt32 order.qty)
    (found : (book.side order.isBuy).find order.orderId = some it)
    (returns : book.replace Totals.call order = some (next, result))
    (reflects : Reflects next (some (.replace order))) :
    it.openQty + it.order.qty = 2 * order.qty ∧
      (order.price = it.order.price → it.price = order.price) := by
  obtain ⟨member, id⟩ := recordOf_some found
  have kept := entered _ it member
  obtain ⟨next, result, returned, effect⟩ := replace_found found
  obtain ⟨rfl, -⟩ := returns_unique returned returns
  obtain ⟨now, here, qty, price⟩ := reflects
  rw [effect.here] at here
  split_ifs at here with overdrawn
  · -- the kept order is unchanged, and its quantity is short of the new one
    rw [found] at here
    obtain rfl := Option.some.inj here
    obtain ⟨-, short⟩ := (kept.overdrawn_iff positive).mp overdrawn
    linarith [kept.original.1]
  · rw [IdMap.find_write, if_pos (show order.orderId = (replaced it order).orderId from id.symm)]
      at here
    obtain rfl := Option.some.inj here
    unfold replaced at qty price
    rw [kept.deltaOf_eq positive] at qty
    have exactly := kept.openQty.add_eq (kept.original.fits_sub positive) qty positive.1
    refine ⟨by linarith, fun stays => ?_⟩
    rwa [if_pos stays] at price

/-- A cancel of a kept order that leaves the totals right was of a buy order at its original price
and quantity. -/
theorem clear_of_cancelled {result : Except String Unit} (entered : Entered book)
    (balanced : Balanced book) (found : (book.side order.isBuy).find order.orderId = some it)
    (returns : book.cancel Totals.call order = some (next, result)) (after : Balanced next) :
    order.isBuy ∧ it.price = it.order.price ∧ it.openQty = it.order.qty := by
  obtain ⟨member, id⟩ := recordOf_some found
  cases buys : order.isBuy with
  | false =>
    rw [cancel_found_sell buys found] at returns
    cases returns
  | true =>
    obtain ⟨next, returned, effect⟩ := cancel_found_buy buys found
    obtain ⟨rfl, -⟩ := returns_unique returned returns
    rw [buys] at found member
    rw [(entered _ it member).side] at effect
    -- at every price, the order's original amount is taken off for its current one
    have told (other : Price) : (if it.price = other then it.openQty else 0) =
        if it.order.price = other then it.order.qty else 0 := by
      have here := (effect.balanced_iff rfl balanced).mp after other
      rw [show book.depth.after (.closeOrder _ _ true) = book.depth.add true _ _ from rfl,
        add_same, balanced, openAt_erase found other] at here
      rw [id] at here
      split_ifs at here ⊢ <;> linarith
    have positive := (entered _ it member).original.1
    have atOrigin := told it.order.price
    rw [if_pos rfl] at atOrigin
    split_ifs at atOrigin with price
    · exact ⟨rfl, price, atOrigin⟩
    · linarith

/-- A step that leaves the book as the feed said meets the condition. -/
theorem clear_of_asSaid (request : Request) {result : Except String Unit}
    (entered : Entered book) (balanced : Balanced book) (consistent : Consistent book request)
    (returns : book.process Totals.call request = some (next, result))
    (asSaid : AsSaid (next, some request)) : Clear book request := by
  cases request with
  | addNew order => trivial
  | replace order =>
    exact fun it found => clear_of_replaced entered consistent.2.1 found returns asSaid.2
  | cancel order => exact fun it found => clear_of_cancelled entered balanced found returns asSaid.1

theorem process_entered (request : Request) {result : Except String Unit}
    (entered : Entered book) (consistent : Consistent book request) (clear : Clear book request)
    (returns : book.process Totals.call request = some (next, result)) : Entered next := by
  have counted : Entered { book with transactionId := book.transactionId + 1 } := entered
  cases request with
  | addNew order =>
    obtain ⟨added, returned, effect⟩ := addNew_effect book consistent.2.1.1.ne'
    obtain ⟨rfl, -⟩ := returns_unique returned returns
    exact entered_insert effect entered consistent.2.1 (consistent.2.2 order.isBuy)
  | replace order =>
    cases found : (book.side order.isBuy).find order.orderId with
    | none =>
      obtain ⟨added, returned, effect⟩ := addNew_effect
        { book with transactionId := book.transactionId + 1 } consistent.2.1.1.ne'
      obtain ⟨rfl, -⟩ := returns_unique ((replace_absent found).trans returned) returns
      exact entered_insert effect counted consistent.2.1 found
    | some it =>
      have kept := entered _ it (recordOf_some found).1
      obtain ⟨covered, qty⟩ := kept.replaced_own consistent.2.1 (clear it found).1
      obtain ⟨after, other, returned, effect⟩ := replace_found found
      obtain ⟨rfl, -⟩ := returns_unique returned returns
      rw [if_neg covered] at effect
      refine effect.entered entered fun now inMap => ?_
      rw [IdMap.records_write] at inMap
      rcases List.mem_cons.mp inMap with rfl | inMap
      · refine ⟨kept.side, kept.original, ?_⟩
        rw [replaced, qty]
        exact consistent.2.1
      · exact entered _ now (List.mem_of_mem_filter inMap)
  | cancel order =>
    cases found : (book.side order.isBuy).find order.orderId with
    | none =>
      obtain ⟨rfl, -⟩ := returns_unique (cancel_absent found) returns
      exact counted
    | some it =>
      cases buys : order.isBuy with
      | false =>
        rw [show book.process Totals.call (.cancel order) = none from cancel_found_sell buys found]
          at returns
        cases returns
      | true =>
        obtain ⟨after, returned, effect⟩ := cancel_found_buy buys found
        obtain ⟨rfl, -⟩ := returns_unique returned returns
        exact effect.entered entered fun kept inMap => entered _ kept (List.mem_of_mem_filter inMap)

theorem follow_some {state after : OrderBook Totals × Option Request} {request : Request}
    {result : Except String Unit} (returns : follow state request = some (after, result)) :
    state.1.process Totals.call request = some (after.1, result) ∧ after.2 = some request := by
  obtain ⟨⟨next, output⟩, processes, same⟩ := Option.map_eq_some_iff.mp returns
  obtain ⟨rfl, rfl⟩ := Prod.mk.inj same
  exact ⟨processes, rfl⟩

/-- Over every run of consistent requests, the book is throughout as the feed said, with the depth
told the right amounts, exactly when no step replaces or cancels an order otherwise than the code
gets right. -/
theorem asSaid_throughout_iff (requests : List Request)
    (consistent : EachStep follow (fun state request => Consistent state.1 request)
      ({ depth := fun _ _ => 0 }, none) requests) :
    Throughout follow AsSaid ({ depth := fun _ _ => 0 }, none) requests ↔
      EachStep follow (fun state request => Clear state.1 request)
        ({ depth := fun _ _ => 0 }, none) requests := by
  refine throughout_iff_of_steps
    (fun state request (entered : Entered state.1) asSaid fits clear => ?_)
    (fun state request next result entered asSaid fits returns after => ?_)
    (fun state request next result entered _ fits clear returns => ?_)
    requests _ ?_ ?_ consistent
  · obtain ⟨next, result, returns, after⟩ :=
      process_asSaid request entered asSaid.1 fits clear
    exact ⟨_, result, by rw [follow, beside, returns]; rfl, after⟩
  · obtain ⟨processes, last⟩ := follow_some returns
    refine clear_of_asSaid request entered asSaid.1 fits processes ?_
    rw [← last]
    exact after
  · exact process_entered request entered fits clear (follow_some returns).1
  · intro isBuy it member
    cases isBuy <;> cases member
  · exact ⟨fun isBuy price => by cases isBuy <;> rfl, trivial⟩

/-- A buy order that is moved to another price, a second order at its old price, a cancel of
that and a cancel of an unknown sell order. -/
theorem asSaid_throughout_example :
    Throughout follow AsSaid ({ depth := fun _ _ => 0 }, none)
      [.addNew { type := 'N', orderId := 1, orderType := 'B', price := 100, qty := 10 },
        .replace { type := 'M', orderId := 1, orderType := 'B', price := 101, qty := 10 },
        .addNew { type := 'N', orderId := 2, orderType := 'B', price := 100, qty := 4 },
        .cancel { type := 'X', orderId := 2, orderType := 'B', price := 100, qty := 4 },
        .cancel { type := 'X', orderId := 3, orderType := 'S', price := 105, qty := 1 }] :=
  (asSaid_throughout_iff _ (by decide)).mpr (by decide)

/-- A replacement by a smaller quantity leaves the kept order with a larger one. -/
theorem smaller_quantity_is_kept_larger :
    ¬ ∀ requests : List Request,
      EachStep follow (fun state request => Consistent state.1 request)
        ({ depth := fun _ _ => 0 }, none) requests →
      Throughout follow AsSaid ({ depth := fun _ _ => 0 }, none) requests := by
  intro claim
  obtain ⟨-, -, -, it, found, qty, -⟩ := claim
    [.addNew { type := 'N', orderId := 1, orderType := 'B', price := 100, qty := 10 },
      .replace { type := 'M', orderId := 1, orderType := 'B', price := 100, qty := 7 }] (by decide)
  obtain rfl := Option.some.inj found
  exact absurd qty (by decide)

end OrderBook

end ObLib
