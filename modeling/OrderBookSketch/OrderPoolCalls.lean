/-
This file proves that the free list of `BaseOrderManager` and the orders that are checked
out stay apart, over every sequence of `getOrder` and `putOrder`.

Here an order is given back once for each time that it is checked out, as the deleter of
one handle does it. An order that was popped, or cloned from the last one, keeps its old
`_next` pointer; what counts is the chain from the head.
-/

import OrderBookSketch.OrderPool
import Mathlib.Data.Finset.Basic

namespace Oms

open Runs

namespace OrderPool

/-- `getOrder()` as far as the manager goes: the order that the new handle is made for. -/
def takeOrder (pool : OrderPool) : Option (OrderPool × Nat) := do
  let order ← pool.orderList
  match pool.next order with
  | some next => return ({ pool with orderList := some next }, order)
  | none => return pool.clone order

variable {pool : OrderPool}

theorem getOrder_eq (handle : Nat) :
    pool.getOrder handle = pool.takeOrder.map fun (pool, order) => pool.checkout handle order := by
  unfold getOrder takeOrder
  cases pool.orderList with
  | none => rfl
  | some order =>
    rw [Option.bind_eq_bind, Option.bind_some, Option.bind_eq_bind, Option.bind_some]
    cases pool.next order <;> rfl

end OrderPool

/-- The orders of a manager, and those that are checked out. -/
structure PoolCustody where
  pool : OrderPool
  out : Finset Nat

inductive PoolCall where
  | getOrder
  | putOrder (order : Nat)
deriving DecidableEq, Repr

namespace PoolCustody

open OrderPool

def start (orderPoolSize : Nat) : PoolCustody := ⟨initOrderPool orderPoolSize, ∅⟩

/-- A call, and the order that it returns. -/
def step (custody : PoolCustody) : PoolCall → Option (PoolCustody × Option Nat)
  | .getOrder =>
    custody.pool.takeOrder.map fun (pool, order) => (⟨pool, insert order custody.out⟩, some order)
  | .putOrder order => some (⟨custody.pool.putOrder order, custody.out.erase order⟩, none)

/-- Only an order that is checked out is put back. -/
def Returned (custody : PoolCustody) : PoolCall → Prop
  | .getOrder => True
  | .putOrder order => order ∈ custody.out

instance : DecidableRel Returned
  | _, .getOrder => .isTrue trivial
  | custody, .putOrder order => inferInstanceAs (Decidable (order ∈ custody.out))

/-- The orders of the chain: it ends, has no order twice, is not empty and has no order that is
checked out. -/
structure Listed (custody : PoolCustody) (free : List Nat) : Prop where
  chain : Chain custody.pool.next custody.pool.orderList free
  nodup : free.Nodup
  some : free ≠ []
  apart : ∀ order ∈ free, order ∉ custody.out

def Sound (custody : PoolCustody) : Prop := ∃ free, Listed custody free

/-- What `getOrder` returns is not checked out: an order of the pool, or a new one when the pool has
one order left. -/
def HandsOut (custody : PoolCustody) : PoolCall → Option Nat → Prop
  | .getOrder, some order =>
    order ∉ custody.out ∧
      ((∃ free, Listed custody free ∧ order ∈ free ∧ 1 < free.length) ∨
        (custody.pool.allocated = order ∧ ∃ template, Listed custody [template]))
  | .getOrder, none => False
  | .putOrder _, returned => returned = none

/-- A listed pool whose orders, in the chain and outside of it, are those that were created. -/
structure Complete (custody : PoolCustody) (free : List Nat) : Prop extends Listed custody free where
  created : ∀ order, order < custody.pool.allocated ↔ order ∈ free ∨ order ∈ custody.out

variable {custody : PoolCustody} {free : List Nat}

/-! ### The first pool -/

theorem putClones_untouched (order more : Nat) (pool : OrderPool) :
    (putClones order more pool).checkouts = pool.checkouts ∧
      (putClones order more pool).puts = pool.puts := by
  induction more generalizing pool with
  | zero => exact ⟨rfl, rfl⟩
  | succ more inductionHypothesis => exact inductionHypothesis _

theorem complete_start (orderPoolSize : Nat) : ∃ free, Complete (start orderPoolSize) free := by
  obtain ⟨free, pooled⟩ := pooled_initOrderPool orderPoolSize
  have untouched := putClones_untouched 0 (orderPoolSize - 1)
    ((createOrder {}).1.putOrder (createOrder {}).2)
  refine ⟨free, ⟨pooled.chain, pooled.nodup, pooled.some, fun order _ => Finset.notMem_empty order⟩,
    fun order => ⟨fun created => ?_, fun known => ?_⟩⟩
  · by_contra unknown
    have out := pooled.out order created fun member => unknown (.inl member)
    rw [show (initOrderPool orderPoolSize).checkouts = _ from untouched.1,
      show (initOrderPool orderPoolSize).puts = _ from untouched.2] at out
    exact absurd (show 0 = 0 + 1 from out) (by decide)
  · exact pooled.created order (known.resolve_right (Finset.notMem_empty order))

/-! ### Calls -/

theorem complete_putOrder (complete : Complete custody free) {order : Nat}
    (out : order ∈ custody.out) :
    Complete ⟨custody.pool.putOrder order, custody.out.erase order⟩ (order :: free) := by
  have notFree : order ∉ free := fun member => complete.apart order member out
  exact {
    chain := chain_putOrder notFree complete.chain
    nodup := List.nodup_cons.mpr ⟨notFree, complete.nodup⟩
    some := List.cons_ne_nil _ _
    apart := List.forall_mem_cons.mpr ⟨Finset.notMem_erase order _,
      fun other member => fun again => complete.apart other member (Finset.mem_of_mem_erase again)⟩
    created := by
      intro other
      show other < custody.pool.allocated ↔ _
      rw [complete.created other, List.mem_cons, Finset.mem_erase]
      by_cases same : other = order
      · exact ⟨fun _ => .inl (.inl same), fun _ => .inr (same ▸ out)⟩
      · rw [or_iff_right same, and_iff_right same] }

/-- The first order of the chain is taken, when another is behind it. -/
theorem complete_takeFirst {order next : Nat} {rest : List Nat}
    (complete : Complete custody (order :: rest)) (after : custody.pool.next order = .some next) :
    rest ≠ [] ∧
      Complete ⟨{ custody.pool with orderList := .some next }, insert order custody.out⟩ rest := by
  have chain := complete.chain.2
  rw [after] at chain
  have some : rest ≠ [] := by
    rintro rfl
    cases chain
  obtain ⟨notRest, nodup⟩ := List.nodup_cons.mp complete.nodup
  refine ⟨some, ⟨chain, nodup, some, fun other member => ?_⟩, fun other => ?_⟩
  · rw [Finset.mem_insert, not_or]
    exact ⟨fun same => notRest (same ▸ member), complete.apart other (List.mem_cons_of_mem _ member)⟩
  · show other < custody.pool.allocated ↔ _
    rw [complete.created other, List.mem_cons, Finset.mem_insert]
    tauto

/-- A clone of the last order is new, and the last order stays. -/
theorem complete_takeClone {order : Nat} (complete : Complete custody free) :
    custody.pool.allocated ∉ custody.out ∧
      Complete ⟨(custody.pool.clone order).1, insert custody.pool.allocated custody.out⟩ free := by
  have unknown := (complete.created custody.pool.allocated).not.mp (Nat.lt_irrefl _)
  obtain ⟨notFree, notOut⟩ := not_or.mp unknown
  refine ⟨notOut, ⟨chain_update _ notFree complete.chain, complete.nodup, complete.some,
    fun other member => ?_⟩, fun other => ?_⟩
  · rw [Finset.mem_insert, not_or]
    exact ⟨fun same => notFree (same ▸ member), complete.apart other member⟩
  · show other < custody.pool.allocated + 1 ↔ _
    rw [Nat.lt_succ_iff_lt_or_eq, complete.created other, Finset.mem_insert]
    tauto

theorem getOrder_handsOut (complete : Complete custody free) :
    ∃ next order, custody.step .getOrder = some (next, some order) ∧
      custody.HandsOut .getOrder (some order) ∧ ∃ free, Complete next free := by
  cases free with
  | nil => exact absurd rfl complete.some
  | cons order rest =>
    have head := complete.chain.1
    cases after : custody.pool.next order with
    | some next =>
      obtain ⟨more, again⟩ := complete_takeFirst complete after
      have returns : custody.pool.takeOrder =
          some ({ custody.pool with orderList := some next }, order) := by
        simp only [takeOrder, head, after, Option.bind_eq_bind, Option.bind_some]
        rfl
      refine ⟨_, order, by rw [step, returns]; rfl, ⟨complete.apart order List.mem_cons_self, .inl
        ⟨_, complete.toListed, List.mem_cons_self, ?_⟩⟩, rest, again⟩
      exact Nat.succ_lt_succ (List.length_pos_iff.mpr more)
    | none =>
      obtain ⟨notOut, again⟩ := complete_takeClone complete
      have returns : custody.pool.takeOrder = some (custody.pool.clone order) := by
        simp only [takeOrder, head, after, Option.bind_eq_bind, Option.bind_some]
        rfl
      have last : rest = [] := by
        have chain := complete.chain.2
        rw [after] at chain
        cases rest with
        | nil => rfl
        | cons => cases chain.1
      refine ⟨_, custody.pool.allocated, by rw [step, returns]; rfl,
        ⟨notOut, .inr ⟨rfl, order, ?_⟩⟩, _, again⟩
      rw [← last]
      exact complete.toListed

theorem step_handsOut (complete : Complete custody free) {call : PoolCall}
    (returned : custody.Returned call) :
    ∃ next output, custody.step call = some (next, output) ∧ custody.HandsOut call output ∧
      ∃ free, Complete next free := by
  cases call with
  | getOrder =>
    obtain ⟨next, order, returns, handsOut, again⟩ := getOrder_handsOut complete
    exact ⟨next, some order, returns, handsOut, again⟩
  | putOrder order => exact ⟨_, none, rfl, rfl, _, complete_putOrder complete returned⟩

/-- In every sequence of calls that puts back only what is checked out, the chain ends, has no order
twice, is never empty and stays apart from the orders that are checked out, and no call hands out an
order that is. -/
theorem chain_apart_throughout (orderPoolSize : Nat) (calls : List PoolCall)
    (returned : EachStep step Returned (start orderPoolSize) calls) :
    Throughout step Sound (start orderPoolSize) calls ∧
      EachReturn step (fun custody call output _ => custody.HandsOut call output)
        (start orderPoolSize) calls := by
  have first := complete_start orderPoolSize
  have keeps : ∀ (custody : PoolCustody) (call : PoolCall), (∃ free, Complete custody free) →
      custody.Returned call → ∃ next output, custody.step call = some (next, output) ∧
        custody.HandsOut call output ∧ ∃ free, Complete next free :=
    fun custody call ⟨free, complete⟩ returned => step_handsOut complete returned
  have sound : ∀ custody : PoolCustody, (∃ free, Complete custody free) → custody.Sound :=
    fun custody ⟨free, complete⟩ => ⟨free, complete.toListed⟩
  refine ⟨throughout_of_keeps sound ?_ calls _ first returned,
    eachReturn_of_keeps keeps calls _ first returned⟩
  intro custody call complete returned
  obtain ⟨next, output, returns, -, again⟩ := keeps custody call complete returned
  exact ⟨next, output, returns, again⟩

/-- A pool of two: the second and the third checkout are of clones, and all three orders come back. -/
theorem chain_apart_throughout_example :
    Throughout step Sound (start 2)
        [.getOrder, .getOrder, .getOrder, .putOrder 3, .putOrder 1, .getOrder, .putOrder 2] ∧
      EachReturn step (fun custody call output _ => custody.HandsOut call output) (start 2)
        [.getOrder, .getOrder, .getOrder, .putOrder 3, .putOrder 1, .getOrder, .putOrder 2] :=
  chain_apart_throughout 2 _ (by decide)

end PoolCustody

end Oms
