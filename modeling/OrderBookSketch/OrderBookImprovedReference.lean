/-
This file proves that the order book that keeps every order is the reference book of
arrivals: over every run in which no call throws, each side of it is the live orders in
the order of price and arrival, and its hash map is the index of them. No run, whatever
throws in it, uses an iterator to an erased node.

The node counter of a side is its arrival clock, so the handle of a node is the rank of
its order.
-/

import OrderBookSketch.OrderBookImproved
import OrderBookSketch.Library.Run

namespace ObLib

open Containers Runs Ledgers

/-! ### The reference book -/

/-- A live order: its price, what remains of its quantity, and the rank at which it arrived
at its price. -/
structure Arrived where
  orderId : OrderId
  price : Price
  qty : Quantity
  rank : Nat
deriving DecidableEq, Repr

/-- An order is served no later than another: its price is before the other's, or it is the
same and the order arrived there no later. -/
def Arrived.NotBehind (before : Price → Price → Prop) (first second : Arrived) : Prop :=
  before first.price second.price ∨ first.price = second.price ∧ first.rank ≤ second.rank

instance (before : Price → Price → Prop) [DecidableRel before] (first second : Arrived) :
    Decidable (first.NotBehind before second) :=
  inferInstanceAs (Decidable (_ ∨ _))

/-- The live orders of one side, and the rank of the next arrival. -/
structure Arrivals where
  live : List Arrived
  clock : Nat
deriving DecidableEq, Repr

namespace Arrivals

/-- `N` inserts at a new rank. -/
def insert (side : Arrivals) (order : Order) : Arrivals where
  live := ⟨order.orderId, order.price, order.qty, side.clock⟩ :: side.live
  clock := side.clock + 1

/-- `M` inserts an unknown id, moves an order to a new rank at a new price, and otherwise sets
the quantity. -/
def modify (side : Arrivals) (order : Order) : Arrivals :=
  match recordOf Arrived.orderId side.live order.orderId with
  | none => side.insert order
  | some arrived =>
    if arrived.price ≠ order.price then
      ⟨⟨order.orderId, order.price, order.qty, side.clock⟩ ::
        without Arrived.orderId side.live order.orderId, side.clock + 1⟩
    else
      ⟨{ arrived with qty := order.qty } :: without Arrived.orderId side.live order.orderId,
        side.clock⟩

/-- `X` deletes. -/
def cancel (side : Arrivals) (orderId : OrderId) : Arrivals :=
  ⟨without Arrived.orderId side.live orderId, side.clock⟩

/-- A trade subtracts its quantity from a named known order and deletes it at 0; the id 0 names
no order. -/
def trade (side : Arrivals) (orderId : OrderId) (qty : Quantity) : Arrivals :=
  if orderId = 0 then side
  else
    match recordOf Arrived.orderId side.live orderId with
    | none => side
    | some arrived =>
      if arrived.qty - qty = 0 then side.cancel orderId
      else
        ⟨{ arrived with qty := arrived.qty - qty } :: without Arrived.orderId side.live orderId,
          side.clock⟩

/-- The live orders by price and rank. -/
def byPrice (side : Arrivals) (before : Price → Price → Prop) [DecidableRel before] :
    List Arrived :=
  side.live.mergeSort fun first second => first.NotBehind before second

end Arrivals

/-- The two sides of the reference book. -/
structure ReferenceBook where
  bids : Arrivals := ⟨[], 0⟩
  asks : Arrivals := ⟨[], 0⟩
deriving DecidableEq, Repr

def Arrivals.process (side : Arrivals) (order : Order) : Arrivals :=
  match order.type with
  | 'N' => side.insert order
  | 'M' => side.modify order
  | 'X' => side.cancel order.orderId
  | _ => side

def ReferenceBook.process (book : ReferenceBook) : Message → ReferenceBook
  | .ofOrder order =>
    if order.isBuy then { book with bids := book.bids.process order }
    else { book with asks := book.asks.process order }
  | .ofTrade trade =>
    ⟨book.bids.trade trade.buyOrderId trade.qty, book.asks.trade trade.sellOrderId trade.qty⟩

/-! ### Iterators that are never stale -/

namespace OneSide

variable {before : Price → Price → Prop}

/-- Every entry of the hash map is the iterator to a node with an order of its id. -/
def Points (nodes : List (Node Price Order)) (hash : OrderId → Option Nat) : Prop :=
  ∀ orderId it, hash orderId = some it →
    ∃ node ∈ nodes, node.handle = it ∧ node.value.orderId = orderId

variable {nodes others : List (Node Price Order)} {hash : OrderId → Option Nat}
  {node : Node Price Order}

theorem Points.remove (points : Points nodes hash) (perm : nodes.Perm (node :: others)) :
    Points others (Function.update hash node.value.orderId none) := by
  intro orderId it found
  rw [Function.update_apply] at found
  split_ifs at found with same
  obtain ⟨other, member, handle, sameId⟩ := points orderId it found
  rcases List.mem_cons.mp (perm.mem_iff.mp member) with rfl | left
  · exact absurd sameId.symm same
  · exact ⟨other, left, handle, sameId⟩

theorem Points.add (node : Node Price Order) (points : Points others (Function.update hash node.value.orderId none))
    (perm : nodes.Perm (node :: others)) :
    Points nodes (Function.update hash node.value.orderId (some node.handle)) := by
  intro orderId it found
  by_cases same : orderId = node.value.orderId
  · rw [same, Function.update_self] at found
    exact ⟨node, perm.mem_iff.mpr List.mem_cons_self, Option.some.inj found, same.symm⟩
  · rw [Function.update_of_ne same] at found
    obtain ⟨other, member, here⟩ := points orderId it (by rwa [Function.update_of_ne same])
    exact ⟨other, perm.mem_iff.mpr (List.mem_cons_of_mem _ member), here⟩

/-- Nodes that are added without an entry do no harm. -/
theorem Points.mono (points : Points others hash) (perm : nodes.Perm (node :: others)) :
    Points nodes hash := by
  intro orderId it found
  obtain ⟨other, member, here⟩ := points orderId it found
  exact ⟨other, perm.mem_iff.mpr (List.mem_cons_of_mem _ member), here⟩

/-- The quantity of an order can be changed in its node. -/
theorem Points.write (points : Points nodes hash) (perm : nodes.Perm (node :: others))
    (qty : Quantity) {next : List (Node Price Order)}
    (nextPerm : next.Perm ({ node with value := { node.value with qty := qty } } :: others)) :
    Points next hash := by
  intro orderId it found
  obtain ⟨other, member, handle, here⟩ := points orderId it found
  rcases List.mem_cons.mp (perm.mem_iff.mp member) with rfl | left
  · exact ⟨_, nextPerm.mem_iff.mpr List.mem_cons_self, handle, here⟩
  · exact ⟨other, nextPerm.mem_iff.mpr (List.mem_cons_of_mem _ left), handle, here⟩

/-! ### The relation to the reference -/

/-- The record of a node. -/
def arrivedOf (node : Node Price Order) : Arrived :=
  ⟨node.value.orderId, node.key, node.value.qty, node.handle⟩

/-- The nodes are the live orders, and the hash map is their index. -/
structure Refines (side : OneSide before) (ref : Arrivals) : Prop where
  records : (side.map.nodes.map arrivedOf).Perm ref.live
  clock : side.map.fresh = ref.clock
  distinct : Distinct Arrived.orderId ref.live
  hash : ∀ orderId, side.hash orderId =
    (recordOf Arrived.orderId ref.live orderId).map Arrived.rank
  keys : ∀ node ∈ side.map.nodes, node.key = node.value.price

variable {side next : OneSide before} {ref : Arrivals}

theorem refines_empty : Refines (empty : OneSide before) ⟨[], 0⟩ where
  records := .nil
  clock := rfl
  distinct := List.nodup_nil
  hash := fun _ => rfl
  keys := fun node member => by cases member

/-- The record of the order of a node. -/
theorem Refines.record (refines : Refines side ref) (member : node ∈ side.map.nodes) :
    recordOf Arrived.orderId ref.live node.value.orderId = some (arrivedOf node) :=
  (recordOf_eq_some_iff refines.distinct).mpr
    ⟨refines.records.mem_iff.mp (List.mem_map_of_mem member), rfl⟩

/-- The records of the other nodes. -/
theorem Refines.perm_others (refines : Refines side ref)
    (perm : side.map.nodes.Perm (node :: others)) :
    (others.map arrivedOf).Perm (without Arrived.orderId ref.live node.value.orderId) := by
  have member : node ∈ side.map.nodes := perm.mem_iff.mpr List.mem_cons_self
  have whole := (perm.map arrivedOf).symm.trans (refines.records.trans
    (perm_cons_without refines.distinct (refines.record member)))
  exact whole.cons_inv

theorem Refines.keys_of_perm (refines : Refines side ref)
    (perm : side.map.nodes.Perm (node :: others)) :
    ∀ other ∈ others, other.key = other.value.price := fun other member =>
  refines.keys other (perm.mem_iff.mpr (List.mem_cons_of_mem _ member))

/-- The node of an order is taken out. -/
theorem Refines.remove (refines : Refines side ref)
    (perm : side.map.nodes.Perm (node :: next.map.nodes)) (fresh : next.map.fresh = side.map.fresh)
    (hash : next.hash = Function.update side.hash node.value.orderId none) :
    Refines next (ref.cancel node.value.orderId) where
  records := refines.perm_others perm
  clock := fresh.trans refines.clock
  distinct := distinct_without refines.distinct _
  hash := by
    intro orderId
    rw [hash, Function.update_apply, Arrivals.cancel, recordOf_without, refines.hash]
    split_ifs <;> rfl
  keys := refines.keys_of_perm perm

/-- A new node is put in for an order that is not there. -/
theorem Refines.add (refines : Refines side ref) {order : Order}
    (fresh : recordOf Arrived.orderId ref.live order.orderId = none)
    (perm : next.map.nodes.Perm (⟨side.map.fresh, order.price, order⟩ :: side.map.nodes))
    (clock : next.map.fresh = side.map.fresh + 1)
    (hash : next.hash = Function.update side.hash order.orderId (some side.map.fresh)) :
    Refines next (ref.insert order) where
  records := by
    refine (perm.map arrivedOf).trans ?_
    rw [List.map_cons, arrivedOf, refines.clock]
    exact refines.records.cons _
  clock := by rw [clock, refines.clock]; rfl
  distinct := distinct_cons refines.distinct fresh
  hash := by
    intro orderId
    rw [hash, Function.update_apply, Arrivals.insert, recordOf_cons, refines.hash, refines.clock]
    split_ifs <;> rfl
  keys := by
    intro node member
    rcases List.mem_cons.mp (perm.mem_iff.mp member) with rfl | old
    · rfl
    · exact refines.keys node old

/-- The quantity of an order is changed in its node. -/
theorem Refines.write (refines : Refines side ref)
    (perm : side.map.nodes.Perm (node :: others)) (qty : Quantity)
    (nextPerm : next.map.nodes.Perm
      ({ node with value := { node.value with qty := qty } } :: others))
    (fresh : next.map.fresh = side.map.fresh) (hash : next.hash = side.hash) :
    Refines next ⟨{ arrivedOf node with qty := qty } ::
      without Arrived.orderId ref.live node.value.orderId, ref.clock⟩ where
  records := by
    refine (nextPerm.map arrivedOf).trans ?_
    rw [List.map_cons]
    exact (refines.perm_others perm).cons _
  clock := fresh.trans refines.clock
  distinct := by
    refine distinct_cons (distinct_without refines.distinct _) ?_
    rw [recordOf_without]
    exact if_pos rfl
  hash := by
    intro orderId
    have member : node ∈ side.map.nodes := perm.mem_iff.mpr List.mem_cons_self
    rw [hash, recordOf_cons, recordOf_without, refines.hash]
    show _ = Option.map _ (if orderId = node.value.orderId then _ else _)
    split_ifs with same
    · rw [same, refines.record member]
      rfl
    · rfl
  keys := by
    intro other member
    rcases List.mem_cons.mp (nextPerm.mem_iff.mp member) with rfl | old
    · exact refines.keys node (perm.mem_iff.mpr List.mem_cons_self)
    · exact refines.keys_of_perm perm other old

/-! ### What a call on a side does -/

/-- The node of a known order. -/
theorem Points.exists_node (points : Points side.map.nodes side.hash) {orderId : OrderId} {it : Nat}
    (found : side.hash orderId = some it) :
    ∃ node ∈ side.map.nodes, node.handle = it ∧ node.value.orderId = orderId :=
  points orderId it found

/-- `case 'X'` ignores an unknown id, and takes the node of a known one out. -/
theorem processCancel_cases (points : Points side.map.nodes side.hash) (order : Order) :
    (side.hash order.orderId = none ∧ side.processCancel order = some (side, .ok ())) ∨
      ∃ node ∈ side.map.nodes, node.value.orderId = order.orderId ∧
        ∃ erased : MultiMap Price Order before, erased.fresh = side.map.fresh ∧
          side.map.nodes.Perm (node :: erased.nodes) ∧ side.processCancel order =
            some (⟨erased, Function.update side.hash node.value.orderId none⟩, .ok ()) := by
  unfold processCancel
  cases found : side.hash order.orderId with
  | none => exact .inl ⟨rfl, rfl⟩
  | some it =>
    obtain ⟨node, member, rfl, sameId⟩ := points.exists_node found
    obtain ⟨erased, erases, fresh, perm⟩ := MultiMap.erase_eq_some member
    refine .inr ⟨node, member, sameId, erased, fresh, perm, ?_⟩
    rw [sameId]
    simp only [erases]
    rfl

/-- What a leg of a trade makes of the order of a node. -/
inductive Fills (side : OneSide before) (node : Node Price Order) (qty : Quantity) :
    OneSide before → Except String Unit → Prop where
  | part (less : qty < node.value.qty) :
      Fills side node qty
        ⟨side.map.write node.handle { node.value with qty := node.value.qty - qty }, side.hash⟩
        (.ok ())
  | exceeds (more : node.value.qty < qty) (text : String) : Fills side node qty side (.error text)
  | whole (same : node.value.qty = qty) (erased : MultiMap Price Order before)
      (fresh : erased.fresh = side.map.fresh) (perm : side.map.nodes.Perm (node :: erased.nodes)) :
      Fills side node qty ⟨erased, Function.update side.hash node.value.orderId none⟩ (.ok ())

/-- A leg of a trade ignores the id 0 and an unknown id, and fills the order of a known one. -/
theorem processTrade_cases (points : Points side.map.nodes side.hash) (orderId : OrderId)
    (qty : Quantity) :
    ((orderId = 0 ∨ side.hash orderId = none) ∧
        side.processTrade orderId qty = some (side, .ok ())) ∨
      ∃ node ∈ side.map.nodes, node.value.orderId = orderId ∧ orderId ≠ 0 ∧
        side.hash orderId = some node.handle ∧
        ∃ next result, side.processTrade orderId qty = some (next, result) ∧
          Fills side node qty next result := by
  unfold processTrade
  by_cases named : orderId = 0
  · exact .inl ⟨.inl named, if_neg (not_not.mpr named)⟩
  rw [if_pos named]
  cases found : side.hash orderId with
  | none => exact .inl ⟨.inr rfl, rfl⟩
  | some it =>
    obtain ⟨node, member, rfl, rfl⟩ := points.exists_node found
    refine .inr ⟨node, member, rfl, named, rfl, ?_⟩
    simp only [MultiMap.find_eq_some member, Option.bind_eq_bind, Option.bind_some]
    by_cases rest : 0 < node.value.qty - qty
    · exact ⟨_, _, if_pos rest, .part (Int.lt_of_sub_pos rest)⟩
    rw [if_neg rest]
    by_cases exceeds : node.value.qty - qty < 0
    · exact ⟨_, _, if_pos exceeds, .exceeds (Int.lt_of_sub_neg exceeds) _⟩
    · obtain ⟨erased, erases, fresh, perm⟩ := MultiMap.erase_eq_some member
      have whole : node.value.qty = qty :=
        Int.sub_eq_zero.mp (le_antisymm (not_lt.mp rest) (not_lt.mp exceeds))
      refine ⟨_, _, ?_, .whole whole erased fresh perm⟩
      rw [if_neg exceeds, erases]
      rfl

/-! ### One call on a side -/

/-- What a call on a side owes: it returns, its iterators are not stale afterwards, and unless it
throws it does to the live orders what the reference does. -/
def Answers (side : OneSide before) (call : Option (OneSide before × Except String Unit))
    (step : Arrivals → Arrivals) : Prop :=
  ∃ next result, call = some (next, result) ∧ Points next.map.nodes next.hash ∧
    ∀ ref, Refines side ref → result = .ok () → Refines next (step ref)

theorem Refines.recordOf_eq_none (refines : Refines side ref) {orderId : OrderId}
    (absent : side.hash orderId = none) : recordOf Arrived.orderId ref.live orderId = none := by
  rw [refines.hash] at absent
  exact Option.map_eq_none_iff.mp absent

theorem answers_processTrade (points : Points side.map.nodes side.hash) (orderId : OrderId)
    (qty : Quantity) :
    Answers side (side.processTrade orderId qty) fun ref => ref.trade orderId qty := by
  rcases processTrade_cases points orderId qty with
    ⟨ignored, returns⟩ | ⟨node, member, rfl, named, -, next, result, returns, fills⟩
  · refine ⟨side, .ok (), returns, points, fun ref refines _ => ?_⟩
    show Refines side (ref.trade orderId qty)
    unfold Arrivals.trade
    split_ifs with named
    · exact refines
    · rw [refines.recordOf_eq_none (ignored.resolve_left named)]
      exact refines
  · refine ⟨next, result, returns, ?_⟩
    have traded (ref : Arrivals) (refines : Refines side ref) :
        ref.trade node.value.orderId qty =
          if node.value.qty - qty = 0 then ref.cancel node.value.orderId
          else ⟨{ arrivedOf node with qty := node.value.qty - qty } ::
            without Arrived.orderId ref.live node.value.orderId, ref.clock⟩ := by
      rw [Arrivals.trade, if_neg named, refines.record member]
      rfl
    cases fills with
    | part less =>
      obtain ⟨others, perm, written⟩ :=
        MultiMap.write_perm member { node.value with qty := node.value.qty - qty }
      refine ⟨points.write perm _ written, fun ref refines _ => ?_⟩
      have left : node.value.qty - qty ≠ 0 := (Int.sub_pos_of_lt less).ne'
      show Refines _ (ref.trade node.value.orderId qty)
      rw [traded ref refines, if_neg left]
      exact refines.write perm _ written rfl rfl
    | exceeds more text => exact ⟨points, fun ref refines fine => by cases fine⟩
    | whole same erased fresh perm =>
      refine ⟨points.remove perm, fun ref refines _ => ?_⟩
      show Refines _ (ref.trade node.value.orderId qty)
      rw [traded ref refines, if_pos (Int.sub_eq_zero.mpr same)]
      exact refines.remove perm fresh rfl

theorem answers_processCancel (points : Points side.map.nodes side.hash) (order : Order) :
    Answers side (side.processCancel order) fun ref => ref.cancel order.orderId := by
  rcases processCancel_cases points order with
    ⟨absent, returns⟩ | ⟨node, member, sameId, erased, fresh, perm, returns⟩
  · refine ⟨side, .ok (), returns, points, fun ref refines _ => ?_⟩
    show Refines side (ref.cancel order.orderId)
    rw [Arrivals.cancel, without_of_absent (refines.recordOf_eq_none absent)]
    exact refines
  · rw [← sameId]
    exact ⟨_, .ok (), returns, points.remove perm, fun ref refines _ => refines.remove perm fresh rfl⟩

/-! ### The order of service -/

section Service

variable [IsStrictTotalOrder Price before]

theorem notBehind_trans {first second third : Arrived} (left : first.NotBehind before second)
    (right : second.NotBehind before third) : first.NotBehind before third := by
  rcases left with earlier | ⟨samePrice, older⟩
  · rcases right with later | ⟨same, -⟩
    · exact .inl (trans_of before earlier later)
    · exact .inl (same ▸ earlier)
  · rcases right with later | ⟨same, younger⟩
    · exact .inl (samePrice ▸ later)
    · exact .inr ⟨samePrice.trans same, older.trans younger⟩

theorem notBehind_total (before : Price → Price → Prop) [IsStrictTotalOrder Price before]
    (first second : Arrived) :
    first.NotBehind before second ∨ second.NotBehind before first := by
  rcases trichotomous_of before first.price second.price with earlier | same | later
  · exact .inl (.inl earlier)
  · exact (le_total first.rank second.rank).imp (fun older => .inr ⟨same, older⟩)
      fun younger => .inr ⟨same.symm, younger⟩
  · exact .inr (.inl later)

theorem notBehind_antisymm {first second : Arrived} (left : first.NotBehind before second)
    (right : second.NotBehind before first) : first.rank = second.rank := by
  rcases left with earlier | ⟨samePrice, older⟩
  · rcases right with later | ⟨same, -⟩
    · exact absurd later (asymm_of before earlier)
    · exact absurd earlier (same ▸ irrefl_of before _)
  · rcases right with later | ⟨-, younger⟩
    · exact absurd later (samePrice ▸ irrefl_of before _)
    · exact le_antisymm older younger

end Service

/-! ### New and modified orders -/

variable [DecidableRel before] [IsStrictTotalOrder Price before]

theorem answers_processNew (points : Points side.map.nodes side.hash) (order : Order) :
    Answers side (side.processNew order) fun ref => ref.insert order := by
  unfold processNew
  have perm := MultiMap.emplace_perm side.map order.price order
  cases found : side.hash order.orderId with
  | none =>
    refine ⟨_, .ok (), rfl, ?_, fun ref refines _ =>
      refines.add (refines.recordOf_eq_none found) perm rfl rfl⟩
    refine Points.add ⟨side.map.fresh, order.price, order⟩ ?_ perm
    show Points _ (Function.update side.hash order.orderId none)
    rw [← found, Function.update_eq_self]
    exact points
  | some it =>
    refine ⟨_, _, rfl, points.mono perm, fun ref refines fine => ?_⟩
    cases fine

/-- `case 'M'` treats an unknown order as new, puts a known one that moves at its new place, and
otherwise changes its quantity. -/
theorem processModify_cases (points : Points side.map.nodes side.hash) (order : Order) :
    (side.hash order.orderId = none ∧
        side.processModify order = side.processNew { order with type := 'N' }) ∨
      ∃ node ∈ side.map.nodes, node.value.orderId = order.orderId ∧
        ((node.value.price ≠ order.price ∧
            ∃ erased : MultiMap Price Order before, erased.fresh = side.map.fresh ∧
              side.map.nodes.Perm (node :: erased.nodes) ∧ side.processModify order =
                some (⟨(erased.emplace order.price order).1,
                  Function.update side.hash order.orderId (some erased.fresh)⟩, .ok ())) ∨
          node.value.price = order.price ∧
            side.processModify order =
              some (⟨side.map.write node.handle { node.value with qty := order.qty }, side.hash⟩,
                .ok ())) := by
  unfold processModify
  cases found : side.hash order.orderId with
  | none => exact .inl ⟨rfl, rfl⟩
  | some it =>
    obtain ⟨node, member, rfl, sameId⟩ := points.exists_node found
    refine .inr ⟨node, member, sameId, ?_⟩
    simp only [MultiMap.find_eq_some member, Option.bind_eq_bind, Option.bind_some]
    by_cases moves : node.value.price ≠ order.price
    · obtain ⟨erased, erases, fresh, perm⟩ := MultiMap.erase_eq_some member
      refine .inl ⟨moves, erased, fresh, perm, ?_⟩
      rw [if_pos moves, erases]
      rfl
    · exact .inr ⟨not_not.mp moves, if_neg moves⟩

theorem answers_processModify (points : Points side.map.nodes side.hash) (order : Order) :
    Answers side (side.processModify order) fun ref => ref.modify order := by
  rcases processModify_cases points order with ⟨absent, asNew⟩ | ⟨node, member, sameId, moves | stays⟩
  · obtain ⟨next, result, returns, again, refines⟩ :=
      answers_processNew points { order with type := 'N' }
    refine ⟨next, result, asNew.trans returns, again, fun ref related fine => ?_⟩
    show Refines next (ref.modify order)
    rw [Arrivals.modify, related.recordOf_eq_none absent]
    exact refines ref related fine
  · obtain ⟨differs, erased, fresh, perm, returns⟩ := moves
    have added := MultiMap.emplace_perm erased order.price order
    have removed := points.remove perm
    rw [sameId] at removed
    refine ⟨_, .ok (), returns, Points.add ⟨erased.fresh, order.price, order⟩ removed added,
      fun ref refines _ => ?_⟩
    show Refines _ (ref.modify order)
    have moved : (arrivedOf node).price ≠ order.price := by
      rw [arrivedOf, refines.keys node member]
      exact differs
    have rest : Refines ⟨erased, Function.update side.hash order.orderId none⟩
        (ref.cancel order.orderId) := sameId ▸ refines.remove perm fresh rfl
    have gone : recordOf Arrived.orderId (ref.cancel order.orderId).live order.orderId = none := by
      rw [Arrivals.cancel, recordOf_without, if_pos rfl]
    rw [Arrivals.modify, ← sameId, refines.record member]
    simp only [if_pos moved]
    rw [sameId]
    refine rest.add gone added rfl ?_
    rw [Function.update_idem]
  · obtain ⟨same, returns⟩ := stays
    obtain ⟨others, perm, written⟩ :=
      MultiMap.write_perm member { node.value with qty := order.qty }
    refine ⟨_, .ok (), returns, points.write perm _ written, fun ref refines _ => ?_⟩
    show Refines _ (ref.modify order)
    have stayed : ¬ (arrivedOf node).price ≠ order.price := by
      rw [arrivedOf, refines.keys node member]
      exact not_not.mpr same
    rw [Arrivals.modify, ← sameId, refines.record member]
    simp only [if_neg stayed]
    exact refines.write perm _ written rfl rfl

/-! ### A side is the reference -/

/-- A side holds exactly the live orders of the reference, by price and arrival; each entry of
its hash map points to the one node with the order of that id, each node has one entry, and
each node's key is its order's price. -/
structure Exact (side : OneSide before) (ref : Arrivals) : Prop where
  nodes : side.map.nodes.map arrivedOf = ref.byPrice before
  entry : ∀ orderId it, side.hash orderId = some it →
    ∃ node ∈ side.map.nodes, node.handle = it ∧ node.value.orderId = orderId ∧
      ∀ other ∈ side.map.nodes, other.value.orderId = orderId → other = node
  indexed : ∀ node ∈ side.map.nodes, ∃! orderId, side.hash orderId = some node.handle
  keys : ∀ node ∈ side.map.nodes, node.key = node.value.price

theorem Refines.exact (refines : Refines side ref) : Exact side ref where
  nodes := by
    have ranks : (side.map.nodes.map arrivedOf).map Arrived.rank =
        side.map.nodes.map Node.handle := List.map_map ..
    have sorted : (side.map.nodes.map arrivedOf).Pairwise fun first second =>
        decide (first.NotBehind before second) = true := by
      refine List.pairwise_map.mpr (side.map.sorted.imp fun {first second} inFront => ?_)
      rw [decide_eq_true_eq]
      exact inFront.imp_right fun ⟨same, older⟩ => ⟨same, le_of_lt older⟩
    have trans (first second third : Arrived)
        (left : decide (first.NotBehind before second) = true)
        (right : decide (second.NotBehind before third) = true) :
        decide (first.NotBehind before third) = true :=
      decide_eq_true (notBehind_trans (of_decide_eq_true left) (of_decide_eq_true right))
    have total (first second : Arrived) :
        (decide (first.NotBehind before second) || decide (second.NotBehind before first)) = true := by
      simpa using notBehind_total before first second
    have sortedRef : (ref.byPrice before).Pairwise fun first second =>
        decide (first.NotBehind before second) = true :=
      List.pairwise_mergeSort trans total ref.live
    have perm : (side.map.nodes.map arrivedOf).Perm (ref.byPrice before) :=
      refines.records.trans (List.mergeSort_perm ..).symm
    refine List.Perm.eq_of_pairwise (fun first second firstMember secondMember left right => ?_)
      sorted sortedRef perm
    have sameRank := notBehind_antisymm (of_decide_eq_true left) (of_decide_eq_true right)
    exact List.inj_on_of_nodup_map (ranks ▸ side.map.distinct) firstMember
      (perm.mem_iff.mpr secondMember) sameRank
  entry := by
    intro orderId it found
    rw [refines.hash, Option.map_eq_some_iff] at found
    obtain ⟨arrived, record, rfl⟩ := found
    obtain ⟨inLive, rfl⟩ := recordOf_some record
    obtain ⟨node, member, rfl⟩ := List.mem_map.mp (refines.records.mem_iff.mpr inLive)
    refine ⟨node, member, rfl, rfl, fun other otherMember sameId => ?_⟩
    have sameRecord : arrivedOf other = arrivedOf node := Option.some.inj
      ((refines.record otherMember).symm.trans (sameId ▸ refines.record member))
    exact List.inj_on_of_nodup_map side.map.distinct otherMember member
      (congrArg Arrived.rank sameRecord)
  indexed := by
    intro node member
    refine ⟨node.value.orderId, ?_, fun orderId found => ?_⟩
    · show side.hash node.value.orderId = some node.handle
      rw [refines.hash, refines.record member]
      rfl
    · change side.hash orderId = some node.handle at found
      rw [refines.hash, Option.map_eq_some_iff] at found
      obtain ⟨arrived, record, sameRank⟩ := found
      obtain ⟨inLive, rfl⟩ := recordOf_some record
      obtain ⟨other, otherMember, rfl⟩ := List.mem_map.mp (refines.records.mem_iff.mpr inLive)
      rw [List.inj_on_of_nodup_map side.map.distinct otherMember member sameRank]
      rfl
  keys := refines.keys

end OneSide

/-! ### Every run -/

namespace OrderBookImproved

open OneSide

def process (book : OrderBookImproved) : Message → Option (OrderBookImproved × Except String Unit)
  | .ofOrder order => book.processOrder order
  | .ofTrade trade => book.processTrade trade

/-- No iterator in the hash maps is stale. -/
def NoneStale (book : OrderBookImproved) : Prop :=
  Points book.bids.map.nodes book.bids.hash ∧ Points book.asks.map.nodes book.asks.hash

/-- Both sides refine those of the reference. -/
def RefinesBook (book : OrderBookImproved) (ref : ReferenceBook) : Prop :=
  Refines book.bids ref.bids ∧ Refines book.asks ref.asks

variable {book : OrderBookImproved}

/-- What a call on the book owes, as on a side. -/
def AnswersBook (book : OrderBookImproved)
    (call : Option (OrderBookImproved × Except String Unit))
    (step : ReferenceBook → ReferenceBook) : Prop :=
  ∃ next result, call = some (next, result) ∧ NoneStale next ∧
    ∀ ref, RefinesBook book ref → result = .ok () → RefinesBook next (step ref)

theorem answers_onBids (noneStale : NoneStale book)
    {call : Option (OneSide (· > ·) × Except String Unit)} {step : Arrivals → Arrivals}
    (answers : Answers book.bids call step) :
    AnswersBook book (book.onBids call) fun ref => { ref with bids := step ref.bids } := by
  obtain ⟨next, result, returns, points, refines⟩ := answers
  exact ⟨{ book with bids := next }, result, by rw [onBids, returns]; rfl, ⟨points, noneStale.2⟩,
    fun ref related fine => ⟨refines ref.bids related.1 fine, related.2⟩⟩

theorem answers_onAsks (noneStale : NoneStale book)
    {call : Option (OneSide (· < ·) × Except String Unit)} {step : Arrivals → Arrivals}
    (answers : Answers book.asks call step) :
    AnswersBook book (book.onAsks call) fun ref => { ref with asks := step ref.asks } := by
  obtain ⟨next, result, returns, points, refines⟩ := answers
  exact ⟨{ book with asks := next }, result, by rw [onAsks, returns]; rfl, ⟨noneStale.1, points⟩,
    fun ref related fine => ⟨related.1, refines ref.asks related.2 fine⟩⟩

theorem answers_processOrder (noneStale : NoneStale book) (order : Order) :
    AnswersBook book (book.processOrder order) fun ref => ref.process (.ofOrder order) := by
  unfold processOrder
  split
  next new =>
    have step (side : Arrivals) : side.process order = side.insert order := by
      simp only [Arrivals.process, new]
    simp only [ReferenceBook.process, step]
    split_ifs
    · exact answers_onBids noneStale (answers_processNew noneStale.1 order)
    · exact answers_onAsks noneStale (answers_processNew noneStale.2 order)
  next modify =>
    have step (side : Arrivals) : side.process order = side.modify order := by
      simp only [Arrivals.process, modify]
    simp only [ReferenceBook.process, step]
    split_ifs
    · exact answers_onBids noneStale (answers_processModify noneStale.1 order)
    · exact answers_onAsks noneStale (answers_processModify noneStale.2 order)
  next cancel =>
    have step (side : Arrivals) : side.process order = side.cancel order.orderId := by
      simp only [Arrivals.process, cancel]
    simp only [ReferenceBook.process, step]
    split_ifs
    · exact answers_onBids noneStale (answers_processCancel noneStale.1 order)
    · exact answers_onAsks noneStale (answers_processCancel noneStale.2 order)
  next notNew notModify notCancel =>
    have step (side : Arrivals) : side.process order = side := by
      unfold Arrivals.process
      split <;> simp_all
    simp only [ReferenceBook.process, step, ite_self]
    exact ⟨book, .ok (), rfl, noneStale, fun ref related _ => related⟩

theorem answers_processTradeBook (noneStale : NoneStale book) (trade : Trade) :
    AnswersBook book (book.processTrade trade) fun ref => ref.process (.ofTrade trade) := by
  obtain ⟨bought, result, buys, boughtNoneStale, boughtRefines⟩ := answers_onBids noneStale
    (answers_processTrade noneStale.1 trade.buyOrderId trade.qty)
  unfold processTrade
  rw [buys]
  cases result with
  | error text => exact ⟨bought, .error text, rfl, boughtNoneStale, fun ref _ fine => by cases fine⟩
  | ok =>
    obtain ⟨sold, result, sells, soldNoneStale, soldRefines⟩ := answers_onAsks boughtNoneStale
      (answers_processTrade boughtNoneStale.2 trade.sellOrderId trade.qty)
    exact ⟨sold, result, sells, soldNoneStale, fun ref related fine =>
      soldRefines _ (boughtRefines ref related rfl) fine⟩

theorem answers_process (noneStale : NoneStale book) (message : Message) :
    AnswersBook book (book.process message) fun ref => ref.process message := by
  cases message with
  | ofOrder order => exact answers_processOrder noneStale order
  | ofTrade trade => exact answers_processTradeBook noneStale trade

theorem run_refines (messages : List Message) (noneStale : NoneStale book) :
    ∃ last results, run process book messages = some (last, results) ∧
      ∀ ref, RefinesBook book ref → (∀ result ∈ results, result = .ok ()) →
        RefinesBook last (messages.foldl ReferenceBook.process ref) := by
  induction messages generalizing book with
  | nil => exact ⟨book, [], rfl, fun ref related _ => related⟩
  | cons message messages inductionHypothesis =>
    obtain ⟨next, result, returns, nextNoneStale, refines⟩ := answers_process noneStale message
    obtain ⟨last, results, rest, lastRefines⟩ := inductionHypothesis nextNoneStale
    refine ⟨last, result :: results, ?_, fun ref related fine => ?_⟩
    · rw [run_cons_of_some messages returns, rest]
      rfl
    · exact lastRefines _ (refines ref related (fine result List.mem_cons_self))
        fun other member => fine other (List.mem_cons_of_mem _ member)

/-- Every run of messages on a fresh book returns, and when no call throws the book is exactly
the reference. -/
theorem exact_of_no_throw (messages : List Message) :
    ∃ last results, run process empty messages = some (last, results) ∧
      ((∀ result ∈ results, result = .ok ()) →
        Exact last.bids (messages.foldl ReferenceBook.process {}).bids ∧
        Exact last.asks (messages.foldl ReferenceBook.process {}).asks) := by
  have noneStale : NoneStale empty :=
    ⟨fun _ _ found => (by cases found), fun _ _ found => (by cases found)⟩
  obtain ⟨last, results, returns, refines⟩ := run_refines messages noneStale
  refine ⟨last, results, returns, fun fine => ?_⟩
  have related := refines {} ⟨refines_empty, refines_empty⟩ fine
  exact ⟨related.1.exact, related.2.exact⟩

/-- Two bids at one price, the first moved to another price and back, a partial fill of it, an
ask that a trade fills whole, and a cancel of an unknown id. -/
theorem exact_of_no_throw_example :
    ∃ last, (run process empty
        [.ofOrder { type := 'N', orderId := 1, orderType := 'B', price := 100, qty := 10 },
          .ofOrder { type := 'N', orderId := 2, orderType := 'B', price := 100, qty := 5 },
          .ofOrder { type := 'M', orderId := 1, orderType := 'B', price := 99, qty := 10 },
          .ofOrder { type := 'M', orderId := 1, orderType := 'B', price := 100, qty := 8 },
          .ofOrder { type := 'M', orderId := 3, orderType := 'S', price := 100, qty := 4 },
          .ofTrade { buyOrderId := 1, sellOrderId := 3, price := 100, qty := 4 },
          .ofOrder { type := 'X', orderId := 7, orderType := 'S', price := 100, qty := 1 }]).map
        Prod.fst = some last ∧
      Exact last.bids ⟨[⟨1, 100, 4, 3⟩, ⟨2, 100, 5, 1⟩], 4⟩ ∧ Exact last.asks ⟨[], 1⟩ := by
  obtain ⟨last, results, returns, exact⟩ := exact_of_no_throw
    [.ofOrder { type := 'N', orderId := 1, orderType := 'B', price := 100, qty := 10 },
      .ofOrder { type := 'N', orderId := 2, orderType := 'B', price := 100, qty := 5 },
      .ofOrder { type := 'M', orderId := 1, orderType := 'B', price := 99, qty := 10 },
      .ofOrder { type := 'M', orderId := 1, orderType := 'B', price := 100, qty := 8 },
      .ofOrder { type := 'M', orderId := 3, orderType := 'S', price := 100, qty := 4 },
      .ofTrade { buyOrderId := 1, sellOrderId := 3, price := 100, qty := 4 },
      .ofOrder { type := 'X', orderId := 7, orderType := 'S', price := 100, qty := 1 }]
  have fine := congrArg (Option.map Prod.snd) returns
  obtain rfl : List.replicate 7 (.ok ()) = results := Option.some.inj fine
  exact ⟨last, by rw [returns]; rfl, exact fun result member => List.eq_of_mem_replicate member⟩

end OrderBookImproved

end ObLib
