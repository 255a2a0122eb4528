/-
This file puts the order book of OrderBookStore/include/OrderBook.hpp over its own depth.

The book told to be as the feed says is one over a depth of totals, and the depth that
shows its live orders is one that is told about these. Here the two meet. A book over any
depth does with its keepers what it does over a depth of totals, as long as the depth
takes the one call that a request makes. Where no request is one that the book gets wrong,
that call is the event of the order the request is about, so that the slots of the depth
show the best prices of the kept orders, with their totals and numbers, as long as the
total of each price is one of an `int32_t`.
-/

import OrderBookSketch.OrderBookTotals
import OrderBookSketch.DepthRun

namespace ObLib

open Ledgers Runs

namespace OrderBook

variable {DepthState Other : Type}

/-! ### The call that a request makes -/

/-- The same keepers over another depth. -/
def withDepth (book : OrderBook DepthState) (depth : Other) : OrderBook Other :=
  { bids := book.bids, asks := book.asks, transactionId := book.transactionId, depth := depth }

/-- What entering an order tells the depth. -/
def tellsNew (order : Order) : Option Depth.Call :=
  if order.qty = 0 then none else some (.addOrder order.price order.qty order.isBuy)

/-- What a request tells the depth. -/
def tells (book : OrderBook DepthState) : Request → Option Depth.Call
  | .addNew order => tellsNew order
  | .replace order =>
    match (book.side order.isBuy).find order.orderId with
    | some it => some (replaceCall it order)
    | none => tellsNew order
  | .cancel order =>
    match (book.side order.isBuy).find order.orderId with
    | some it => some (.closeOrder it.order.price it.order.qty it.order.isBuy)
    | none => none

variable {book : OrderBook DepthState} {order : Order} {it : OrderStateKeeper}

theorem tells_replace_found (found : (book.side order.isBuy).find order.orderId = some it) :
    book.tells (.replace order) = some (replaceCall it order) := by
  simp only [tells, found]

theorem tells_replace_absent (absent : (book.side order.isBuy).find order.orderId = none) :
    book.tells (.replace order) = tellsNew order := by
  simp only [tells, absent]

theorem tells_cancel_found (found : (book.side order.isBuy).find order.orderId = some it) :
    book.tells (.cancel order) =
      some (.closeOrder it.order.price it.order.qty it.order.isBuy) := by
  simp only [tells, found]

theorem tells_cancel_absent (absent : (book.side order.isBuy).find order.orderId = none) :
    book.tells (.cancel order) = none := by
  simp only [tells, absent]

/-! ### A book over a depth that takes the call -/

section Took

variable {call : DepthState → Depth.Call → Option (DepthState × Except String Bool)}
  {depth : DepthState} {totals : Totals}

/-- The depth took what it was told, if anything, and is this one afterwards. -/
def Took (call : DepthState → Depth.Call → Option (DepthState × Except String Bool))
    (before : DepthState) (told : Option Depth.Call) (depth : DepthState) : Prop :=
  match told with
  | some request => ∃ emptied, call before request = some (depth, .ok emptied)
  | none => depth = before

/-- What a call returns over totals, over another depth. -/
def onto (depth : DepthState) (returned : Option (OrderBook Totals × Except String Unit)) :
    Option (OrderBook DepthState × Except String Unit) :=
  returned.map fun result => (result.1.withDepth depth, result.2)

theorem onDepth_took {before : DepthState} {request : Depth.Call}
    (took : Took call before (some request) depth) (bids asks : IdMap OrderStateKeeper.orderId)
    (transactionId : Int)
    (rest : OrderBook DepthState → Option (OrderBook DepthState × Except String Unit)) :
    onDepth call ⟨bids, asks, transactionId, before⟩ request rest =
      rest ⟨bids, asks, transactionId, depth⟩ := by
  obtain ⟨emptied, answers⟩ := took
  unfold onDepth
  rw [answers]
  rfl

theorem addNew_took (took : Took call book.depth (tellsNew order) depth) :
    book.addNew call order = onto depth ((book.withDepth totals).addNew Totals.call order) := by
  unfold tellsNew at took
  unfold addNew
  by_cases none : order.qty = 0
  · rw [if_pos none] at took ⊢
    rw [if_pos none, show depth = book.depth from took]
    rfl
  · rw [if_neg none] at took ⊢
    rw [if_neg none]
    cases buys : order.isBuy <;> rw [buys] at took <;> exact onDepth_took took _ _ _ _

theorem cancel_took (took : Took call book.depth (book.tells (.cancel order)) depth) :
    book.cancel call order = onto depth ((book.withDepth totals).cancel Totals.call order) := by
  unfold cancel
  cases found : (book.side order.isBuy).find order.orderId with
  | none =>
    rw [tells_cancel_absent found] at took
    rw [show depth = book.depth from took]
    cases buys : order.isBuy <;> rw [buys] at found
    · rw [if_neg Bool.false_ne_true, if_neg Bool.false_ne_true,
        show book.asks.find order.orderId = none from found,
        show (book.withDepth totals).asks.find order.orderId = none from found]
      rfl
    · rw [if_pos rfl, if_pos rfl, show book.bids.find order.orderId = none from found,
        show (book.withDepth totals).bids.find order.orderId = none from found]
      rfl
  | some it =>
    rw [tells_cancel_found found] at took
    cases buys : order.isBuy <;> rw [buys] at found
    · rw [if_neg Bool.false_ne_true, if_neg Bool.false_ne_true,
        show book.asks.find order.orderId = some it from found,
        show (book.withDepth totals).asks.find order.orderId = some it from found]
      exact onDepth_took took _ _ _ _
    · rw [if_pos rfl, if_pos rfl, show book.bids.find order.orderId = some it from found,
        show (book.withDepth totals).bids.find order.orderId = some it from found]
      exact onDepth_took took _ _ _ _

theorem keep_withDepth (it : OrderStateKeeper) (order : Order)
    (write : OrderStateKeeper → OrderBook Totals) (unchanged : OrderBook Totals)
    (depth : DepthState) :
    some (keep it order (fun it => (write it).withDepth depth) (unchanged.withDepth depth)) =
      onto depth (some (keep it order write unchanged)) := by
  unfold keep
  cases changes : it.changeQty (asInt32 (it.order.qty - order.qty)) <;> simp only [changes] <;> rfl

theorem replace_took (took : Took call book.depth (book.tells (.replace order)) depth) :
    book.replace call order = onto depth ((book.withDepth totals).replace Totals.call order) := by
  unfold replace
  cases found : (book.side order.isBuy).find order.orderId with
  | none =>
    rw [tells_replace_absent found] at took
    cases buys : order.isBuy <;> rw [buys] at found
    · rw [if_neg Bool.false_ne_true, if_neg Bool.false_ne_true,
        show book.asks.find order.orderId = none from found,
        show (book.withDepth totals).asks.find order.orderId = none from found]
      exact addNew_took took
    · rw [if_pos rfl, if_pos rfl, show book.bids.find order.orderId = none from found,
        show (book.withDepth totals).bids.find order.orderId = none from found]
      exact addNew_took took
  | some it =>
    rw [tells_replace_found found, replaceCall] at took
    cases buys : order.isBuy <;> rw [buys] at found took
    · simp only [true_and] at took
      rw [if_neg Bool.false_ne_true, if_neg Bool.false_ne_true,
        show book.asks.find order.orderId = some it from found,
        show (book.withDepth totals).asks.find order.orderId = some it from found]
      exact (onDepth_took took _ _ _ _).trans (keep_withDepth it order
        (fun it => ⟨book.bids, book.asks.write it, book.transactionId + 1, totals.after _⟩)
        ⟨book.bids, book.asks, book.transactionId + 1, totals.after _⟩ depth)
    · rw [if_neg fun sells => Bool.noConfusion sells.1] at took
      rw [if_pos rfl, if_pos rfl, show book.bids.find order.orderId = some it from found,
        show (book.withDepth totals).bids.find order.orderId = some it from found]
      let after := totals.after (.replaceOrder it.price order.price it.openQty order.qty true)
      exact (onDepth_took took _ _ _ _).trans (keep_withDepth it order
        (fun kept => ⟨book.bids.write kept, book.asks, book.transactionId + 1, after⟩)
        ⟨book.bids, book.asks, book.transactionId + 1, after⟩ depth)

/-- A book whose depth takes the call does with its keepers what it does over totals. -/
theorem process_took {request : Request} (took : Took call book.depth (book.tells request) depth) :
    book.process call request =
      onto depth ((book.withDepth totals).process Totals.call request) := by
  cases request with
  | addNew order => exact addNew_took took
  | replace order => exact replace_took took
  | cancel order => exact cancel_took took

end Took

/-! ### Kept orders as live orders -/

/-- The order as the depth should know it. -/
def openOrder (it : OrderStateKeeper) : OpenOrder := ⟨it.order.isBuy, it.price, it.openQty⟩

/-- The kept orders of both sides. -/
def live (book : OrderBook DepthState) : List OpenOrder :=
  (book.bids.records ++ book.asks.records).map openOrder

/-- The same book over the totals of its kept orders. -/
def keepers (book : OrderBook DepthState) : OrderBook Totals :=
  book.withDepth fun isBuy price => openAt (book.side isBuy) price

def entering (order : Order) : OpenOrder.Event := .add ⟨order.isBuy, order.price, order.qty⟩

/-- What a request does to the kept orders. -/
def event (book : OrderBook DepthState) : Request → Option OpenOrder.Event
  | .addNew order => some (entering order)
  | .replace order =>
    match (book.side order.isBuy).find order.orderId with
    | some it =>
      if order.isBuy = false ∧ order.price = it.order.price then
        some (.change (openOrder it) order.qty)
      else some (.replace (openOrder it) order.price order.qty)
    | none => some (entering order)
  | .cancel order =>
    ((book.side order.isBuy).find order.orderId).map fun it => .close (openOrder it)

theorem live_perm (book : OrderBook DepthState) (isBuy : Bool) :
    book.live.Perm (((book.side isBuy).records ++ (book.side (!isBuy)).records).map openOrder) := by
  cases isBuy with
  | false => exact List.perm_append_comm.map openOrder
  | true => exact .refl _

/-- A kept order is live. -/
theorem openOrder_mem {isBuy : Bool} (member : it ∈ (book.side isBuy).records) :
    openOrder it ∈ book.live :=
  (live_perm book isBuy).mem_iff.mpr
    (List.mem_map_of_mem (List.mem_append_left _ member))

theorem Effect.live_perm {before next : OrderBook Totals} {isBuy : Bool}
    {map : IdMap OrderStateKeeper.orderId} {totals : Totals}
    (effect : Effect before next isBuy map totals) :
    next.live.Perm ((map.records ++ (before.side (!isBuy)).records).map openOrder) := by
  rw [← effect.here, ← effect.other]
  exact OrderBook.live_perm next isBuy

section Effects

variable {before next : OrderBook Totals} {isBuy : Bool} {totals : Totals}

theorem live_insert (absent : (before.side isBuy).find it.orderId = none)
    (effect : Effect before next isBuy ((before.side isBuy).insert it) totals) :
    next.live.Perm (openOrder it :: before.live) := by
  refine effect.live_perm.trans ?_
  rw [IdMap.records_insert absent]
  exact (live_perm before isBuy).symm.cons (openOrder it)

theorem live_split {id : OrderId} (found : (before.side isBuy).find id = some it) :
    before.live.Perm (openOrder it :: (((before.side isBuy).erase id).records ++
      (before.side (!isBuy)).records).map openOrder) :=
  (live_perm before isBuy).trans (((IdMap.perm_erase found).append_right _).map openOrder)

theorem live_erase {id : OrderId} (found : (before.side isBuy).find id = some it)
    (effect : Effect before next isBuy ((before.side isBuy).erase id) totals) :
    next.live.Perm (before.live.erase (openOrder it)) := by
  refine effect.live_perm.trans ?_
  have left := (live_split found).erase (openOrder it)
  rw [List.erase_cons_head] at left
  exact left.symm

theorem live_write {kept : OrderStateKeeper}
    (found : (before.side isBuy).find kept.orderId = some it)
    (effect : Effect before next isBuy ((before.side isBuy).write kept) totals) :
    next.live.Perm (openOrder kept :: before.live.erase (openOrder it)) := by
  refine effect.live_perm.trans ?_
  rw [IdMap.records_write]
  have left := (live_split found).erase (openOrder it)
  rw [List.erase_cons_head] at left
  exact left.symm.cons (openOrder kept)

end Effects

/-! ### One request -/

section Steps

variable {book next : OrderBook Totals} {request : Request} {result : Except String Unit}

/-- The live orders after a request that the book gets right. -/
def liveAfter (book : OrderBook DepthState) (request : Request) : List OpenOrder :=
  (book.event request).elim book.live (OpenOrder.after book.live)

/-- A replacement by its own quantity makes the kept order what it says. -/
theorem openOrder_replaced {isBuy : Bool} (kept : Kept isBuy it)
    (positive : PositiveInt32 order.qty)
    (halved : it.openQty + it.order.qty = 2 * order.qty)
    (returnsOnly : order.price = it.order.price → it.price = order.price) :
    openOrder (replaced it order) = ⟨it.order.isBuy, order.price, order.qty⟩ := by
  unfold replaced openOrder
  rw [(kept.replaced_own positive halved).2]
  split_ifs with stays
  · rw [returnsOnly stays]
  · rfl

theorem replace_covered (found : (book.side order.isBuy).find order.orderId = some it)
    (covered : ¬ Overdrawn it order)
    (returns : book.replace Totals.call order = some (next, result)) : result = .ok () := by
  unfold replace at returns
  cases buys : order.isBuy <;> rw [buys] at found returns
  · rw [if_neg Bool.false_ne_true, show book.asks.find order.orderId = some it from found]
      at returns
    have kept := Option.some.inj returns
    rw [keep_covered covered] at kept
    exact (Prod.mk.inj kept).2.symm
  · rw [if_pos rfl, show book.bids.find order.orderId = some it from found] at returns
    have kept := Option.some.inj returns
    rw [keep_covered covered] at kept
    exact (Prod.mk.inj kept).2.symm

theorem live_addNew (positive : 0 < order.qty)
    (absent : (book.side order.isBuy).find order.orderId = none)
    (returns : book.addNew Totals.call order = some (next, result)) :
    result = .ok () ∧ next.live.Perm (OpenOrder.after book.live (entering order)) := by
  obtain ⟨added, returned, effect⟩ := addNew_effect book positive.ne'
  obtain ⟨rfl, rfl⟩ := returns_unique returned returns
  exact ⟨rfl, live_insert absent effect⟩

theorem live_replace (entered : Entered book) (positive : PositiveInt32 order.qty)
    (found : (book.side order.isBuy).find order.orderId = some it)
    (halved : it.openQty + it.order.qty = 2 * order.qty)
    (returnsOnly : order.price = it.order.price → it.price = order.price)
    (returns : book.replace Totals.call order = some (next, result)) :
    result = .ok () ∧ next.live.Perm (book.liveAfter (.replace order)) := by
  obtain ⟨member, id⟩ := recordOf_some found
  have kept := entered _ it member
  have covered := (kept.replaced_own positive halved).1
  obtain ⟨after, other, returned, effect⟩ := replace_found found
  obtain ⟨rfl, -⟩ := returns_unique returned returns
  rw [if_neg covered] at effect
  refine ⟨replace_covered found covered returns, ?_⟩
  have foundIt : (book.side order.isBuy).find (replaced it order).orderId = some it := by
    rw [show (replaced it order).orderId = order.orderId from id]
    exact found
  have written := live_write foundIt effect
  rw [openOrder_replaced kept positive halved returnsOnly] at written
  simp only [liveAfter, event, found]
  split_ifs with stays
  · show List.Perm _ (⟨it.order.isBuy, it.price, order.qty⟩ :: book.live.erase (openOrder it))
    rw [returnsOnly stays.2]
    exact written
  · exact written

/-- A request that the book gets right does to the kept orders what its event says. -/
theorem live_process (entered : Entered book) (consistent : Consistent book request)
    (clear : Clear book request)
    (returns : book.process Totals.call request = some (next, result)) :
    result = .ok () ∧ next.live.Perm (book.liveAfter request) := by
  cases request with
  | addNew order => exact live_addNew consistent.2.1.1 (consistent.2.2 order.isBuy) returns
  | replace order =>
    cases found : (book.side order.isBuy).find order.orderId with
    | none =>
      have same : book.liveAfter (.replace order) = OpenOrder.after book.live (entering order) := by
        simp only [liveAfter, event, found, Option.elim_some]
      rw [same]
      let counted : OrderBook Totals := { book with transactionId := book.transactionId + 1 }
      have absent : (counted.side order.isBuy).find order.orderId = none := found
      have adds : counted.addNew Totals.call order = some (next, result) :=
        (replace_absent found).symm.trans returns
      have added : result = .ok () ∧
          next.live.Perm (OpenOrder.after counted.live (entering order)) :=
        live_addNew consistent.2.1.1 absent adds
      exact added
    | some it =>
      obtain ⟨halved, returnsOnly⟩ := clear it found
      exact live_replace entered consistent.2.1 found halved returnsOnly returns
  | cancel order =>
    cases found : (book.side order.isBuy).find order.orderId with
    | none =>
      obtain ⟨rfl, rfl⟩ := returns_unique (cancel_absent found) returns
      refine ⟨rfl, ?_⟩
      simp only [liveAfter, event, found]
      exact .refl _
    | some it =>
      obtain ⟨buys, -⟩ := clear it found
      obtain ⟨after, returned, effect⟩ := cancel_found_buy buys found
      obtain ⟨rfl, rfl⟩ := returns_unique returned returns
      refine ⟨rfl, ?_⟩
      simp only [liveAfter, event, found]
      rw [show it.orderId = order.orderId from (recordOf_some found).2] at effect
      rw [buys] at found
      exact live_erase found effect

/-- What the book tells its depth of a request that it gets right is the event of that request. -/
theorem tells_eq (entered : Entered book) (consistent : Consistent book request)
    (clear : Clear book request) :
    book.tells request = (book.event request).map OpenOrder.Event.call := by
  have enters (order : Order) (positive : 0 < order.qty) :
      tellsNew order = some (entering order).call := if_neg positive.ne'
  cases request with
  | addNew order => exact enters order consistent.2.1.1
  | replace order =>
    cases found : (book.side order.isBuy).find order.orderId with
    | none =>
      rw [tells_replace_absent found, enters order consistent.2.1.1]
      simp only [event, found, Option.map_some]
    | some it =>
      obtain ⟨halved, returnsOnly⟩ := clear it found
      have kept := entered _ it (recordOf_some found).1
      have side : it.order.isBuy = order.isBuy := kept.side
      rw [tells_replace_found found]
      simp only [event, found, replaceCall]
      split_ifs with stays
      · have delta : it.order.qty - order.qty = order.qty - it.openQty := by linarith
        rw [kept.deltaOf_eq consistent.2.1, delta, ← returnsOnly stays.2, ← side]
        rfl
      · rw [← side]
        rfl
  | cancel order =>
    cases found : (book.side order.isBuy).find order.orderId with
    | none =>
      rw [tells_cancel_absent found]
      simp only [event, found, Option.map_none]
    | some it =>
      obtain ⟨-, price, qty⟩ := clear it found
      rw [tells_cancel_found found, ← price, ← qty]
      simp only [event, found, Option.map_some]
      rfl

/-- The event of a consistent request is about a kept order. -/
theorem event_consistent (consistent : Consistent book request) :
    ∀ event ∈ book.event request, OpenOrder.Consistent book.live event := by
  intro event isEvent
  cases request with
  | addNew order =>
    obtain rfl := Option.some.inj isEvent
    exact ⟨consistent.1, consistent.2.1.1⟩
  | replace order =>
    unfold OrderBook.event at isEvent
    cases found : (book.side order.isBuy).find order.orderId with
    | none =>
      simp only [found] at isEvent
      obtain rfl := Option.some.inj isEvent
      exact ⟨consistent.1, consistent.2.1.1⟩
    | some it =>
      have member := openOrder_mem (recordOf_some found).1
      simp only [found] at isEvent
      split_ifs at isEvent <;> obtain rfl := Option.some.inj isEvent
      · exact ⟨member, consistent.2.1.1⟩
      · exact ⟨member, consistent.1, consistent.2.1.1⟩
  | cancel order =>
    obtain ⟨it, found, rfl⟩ := Option.map_eq_some_iff.mp isEvent
    exact openOrder_mem (recordOf_some found).1

end Steps

end OrderBook

/-! ### A depth in step with kept orders -/

namespace Depth

open DepthSide OpenOrder

variable {size : Nat} {depth : Depth} {live : List OpenOrder}

theorem Following.perm (following : Following size (depth, live)) {now : List OpenOrder}
    (perm : now.Perm live) : Following size (depth, now) where
  inOrder := following.inOrder
  positive := fun order member => following.positive order (perm.mem_iff.mp member)
  fitting := fun isBid price => by
    rw [show (amounts now isBid price).sum = (amounts live isBid price).sum from
      ((perm.filter _).map _).sum_eq]
    exact following.fitting isBid price
  shows := fun isBid => (following.shows isBid).congr fun _ =>
    levelOf_perm ((perm.filter _).map _)

/-- No event of a live order makes the depth throw. -/
theorem Following.accepts (following : Following size (depth, live)) (positive : 0 < size)
    {event : OpenOrder.Event} (consistent : Consistent live event) (clear : Clear size live event)
    (fits : Fits live event) :
    ∃ next emptied, depth.call size event.call = some (next, .ok emptied) := by
  obtain ⟨inOrder, allPositive, fitting, shows⟩ := following
  cases event with
  | add order => exact ⟨_, _, rfl⟩
  | close order =>
    obtain ⟨isBid, price, qty⟩ := order
    obtain ⟨next, nextChanged, emptied, closes, -⟩ := shows_closeOrder (shows isBid)
      (inOrder isBid) positive allPositive consistent (fitting isBid price) depth.lastChanged
    exact ⟨_, emptied, by rw [Event.call, call, closeOrder, closes]; rfl⟩
  | change order newQty => exact ⟨_, _, rfl⟩
  | replace order newPrice newQty =>
    obtain ⟨isBid, price, qty⟩ := order
    obtain ⟨member, proper, newPositive⟩ := consistent
    by_cases same : newPrice = price
    · subst same
      refine ⟨depth.changeQtyOrder size newPrice (asInt32 (newQty - qty)) isBid, false, ?_⟩
      rw [Event.call, call, replaceOrder, DepthSide.replaceOrder, if_pos rfl]
      rfl
    · obtain ⟨next, nextChanged, emptied, replaces, -⟩ := shows_replaceOrder (shows isBid)
        (inOrder isBid) positive allPositive member proper newPositive same
        (clear.resolve_left same) fitting fits depth.lastChanged
      exact ⟨_, emptied, by rw [Event.call, call, replaceOrder, replaces]; rfl⟩

end Depth

namespace OrderBook

variable {size : Nat} {book : OrderBook Depth} {request : Request}

/-- The kept orders are on their sides, and the depth follows them. -/
structure InStep (size : Nat) (book : OrderBook Depth) : Prop where
  entered : Entered book.keepers
  following : Depth.Following size (book.depth, book.live)

/-- The request is consistent, is one that the book gets right, enters no order where the depth's
search for its level ends, and leaves quantities that fit the total of their level. -/
structure Proper (size : Nat) (book : OrderBook Depth) (request : Request) : Prop where
  consistent : Consistent book.keepers request
  clear : Clear book.keepers request
  spaced : ∀ event ∈ book.event request, OpenOrder.Clear size book.live event
  fits : ∀ event ∈ book.event request, OpenOrder.Fits book.live event

instance (size : Nat) (book : OrderBook Depth) (request : Request) :
    Decidable (Proper size book request) :=
  decidable_of_iff (Consistent book.keepers request ∧ Clear book.keepers request ∧
    (∀ event ∈ book.event request, OpenOrder.Clear size book.live event) ∧
    ∀ event ∈ book.event request, OpenOrder.Fits book.live event)
    ⟨fun ⟨consistent, clear, spaced, fits⟩ => ⟨consistent, clear, spaced, fits⟩,
      fun ⟨consistent, clear, spaced, fits⟩ => ⟨consistent, clear, spaced, fits⟩⟩

/-- The request does not throw, the kept order is as it says, and the depth shows what is kept. -/
def Served (size : Nat) (_ : OrderBook Depth) (request : Request) (result : Except String Unit)
    (next : OrderBook Depth) : Prop :=
  result = .ok () ∧ Reflects next.keepers (some request) ∧ Depth.Shows size next.depth next.live

/-- The depth takes what it is told of a proper request, and follows the orders kept then. -/
theorem InStep.took (inStep : InStep size book) (positive : 0 < size)
    (proper : Proper size book request) :
    ∃ depth, Took (Depth.call size) book.depth (book.tells request) depth ∧
      Depth.Following size (depth, book.liveAfter request) := by
  have tells : book.tells request = (book.event request).map OpenOrder.Event.call :=
    tells_eq inStep.entered proper.consistent proper.clear
  have consistent : ∀ event ∈ book.event request, OpenOrder.Consistent book.live event :=
    event_consistent proper.consistent
  have spaced := proper.spaced
  rw [tells, liveAfter]
  cases isEvent : book.event request with
  | none => exact ⟨book.depth, rfl, inStep.following⟩
  | some event =>
    have about := consistent event isEvent
    have clear := spaced event isEvent
    have fits := proper.fits event isEvent
    obtain ⟨next, emptied, accepts⟩ := inStep.following.accepts positive about clear fits
    obtain ⟨state, result, follows, again⟩ := inStep.following.follow positive about clear fits
    obtain ⟨⟨after, output⟩, calls, same⟩ := Option.map_eq_some_iff.mp follows
    obtain ⟨rfl, -⟩ := Prod.mk.inj same
    obtain ⟨rfl, -⟩ := returns_unique calls accepts
    exact ⟨after, ⟨emptied, accepts⟩, again⟩

theorem keepers_withDepth {next : OrderBook Totals} (balanced : Balanced next) (depth : Depth) :
    (next.withDepth depth).keepers = next := by
  have totals : (fun isBuy price => openAt (next.side isBuy) price) = next.depth :=
    funext₂ fun isBuy price => (balanced isBuy price).symm
  show next.withDepth (fun isBuy price => openAt (next.side isBuy) price) = next
  rw [totals]
  rfl

/-- A proper request is served. -/
theorem InStep.process (inStep : InStep size book) (positive : 0 < size)
    (proper : Proper size book request) :
    ∃ next result, book.process (Depth.call size) request = some (next, result) ∧
      Served size book request result next ∧ InStep size next := by
  obtain ⟨after, result, returns, balanced, reflects⟩ := process_asSaid request inStep.entered
    (fun _ _ => rfl) proper.consistent proper.clear
  obtain ⟨rfl, kept⟩ := live_process inStep.entered proper.consistent proper.clear returns
  obtain ⟨depth, took, following⟩ := inStep.took positive proper
  have same := keepers_withDepth balanced depth
  have inStepNext : InStep size (after.withDepth depth) := by
    refine ⟨?_, following.perm kept⟩
    rw [same]
    exact process_entered request inStep.entered proper.consistent proper.clear returns
  refine ⟨after.withDepth depth, .ok (), ?_, ⟨rfl, ?_, inStepNext.following.shows⟩, inStepNext⟩
  · rw [process_took took, show (book.withDepth _).process Totals.call request = _ from returns]
    rfl
  · rw [same]
    exact reflects

theorem inStep_create (size : Nat) (lastChanged lastPublished : ChangeId) :
    InStep size { depth := .create lastChanged lastPublished } where
  entered := fun isBuy it member => by cases isBuy <;> cases member
  following := Depth.following_create size lastChanged lastPublished

/-- A book over a depth of any size serves every run of proper requests: after each, the slots show
the best prices of the kept orders with their totals and numbers, and the excess map has the
others. -/
theorem depth_shows_kept (positive : 0 < size) (lastChanged lastPublished : ChangeId)
    (requests : List Request)
    (proper : EachStep (process (Depth.call size)) (Proper size)
      { depth := .create lastChanged lastPublished } requests) :
    EachReturn (process (Depth.call size)) (Served size)
      { depth := .create lastChanged lastPublished } requests :=
  eachReturn_of_keeps
    (fun book _ (inStep : InStep size book) proper => inStep.process positive proper)
    requests _ (inStep_create size lastChanged lastPublished) proper

/-- Three bids over two slots, of which the second best is cancelled, the best moved to a better
price and the third, in the excess map until then, entered again after its own cancel; an ask that
is replaced by itself, and a cancel of an unknown one. -/
theorem depth_shows_kept_example :
    EachReturn (process (Depth.call 2)) (Served 2) { depth := .create 0 0 }
      [.addNew { type := 'N', orderId := 1, orderType := 'B', price := 90, qty := 10 },
        .addNew { type := 'N', orderId := 2, orderType := 'B', price := 100, qty := 4 },
        .addNew { type := 'N', orderId := 3, orderType := 'B', price := 80, qty := 7 },
        .cancel { type := 'X', orderId := 1, orderType := 'B', price := 90, qty := 10 },
        .replace { type := 'M', orderId := 2, orderType := 'B', price := 101, qty := 4 },
        .addNew { type := 'N', orderId := 4, orderType := 'S', price := 105, qty := 1 },
        .replace { type := 'M', orderId := 4, orderType := 'S', price := 105, qty := 1 },
        .cancel { type := 'X', orderId := 3, orderType := 'B', price := 80, qty := 7 },
        .replace { type := 'M', orderId := 3, orderType := 'B', price := 102, qty := 6 },
        .cancel { type := 'X', orderId := 9, orderType := 'S', price := 105, qty := 1 }] :=
  depth_shows_kept (by decide) 0 0 _ (by decide)

end OrderBook

end ObLib
