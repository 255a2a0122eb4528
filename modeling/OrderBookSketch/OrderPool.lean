/-
This file models the order pool of OrderManagementSystem's `BaseOrderManager` with the
handles `IOrderPtrType` to its orders, and proves when no order is given back twice.

An order is the address of its object, and the free list is the chain of the `_next`
pointers. A handle is a name that points to an order or to nothing; a handle that does
not exist points to nothing as well. A copy of a handle is one more owner, which gives
the order back when it is reset or destroyed. `getOrder` returns its handle without a
copy; `send` takes it by value, so it copies it and destroys the copy. A call through a
null pointer has no defined behaviour (`none`).
-/

import OrderBookSketch.Library.Chain
import OrderBookSketch.Library.Run
import Mathlib.Data.List.Nodup
import Mathlib.Logic.Function.Basic
import Mathlib.Tactic.SplitIfs

namespace Oms

open Runs Chains

/-- The orders of a manager and the handles to them. `allocated` orders have been created; the
numbers of times that each was checked out and given back count what has happened. -/
structure OrderPool where
  next : Nat → Option Nat := fun _ => none
  orderList : Option Nat := none
  allocated : Nat := 0
  handles : Nat → Option Nat := fun _ => none
  checkouts : Nat → Nat := fun _ => 0
  puts : Nat → Nat := fun _ => 0

namespace OrderPool

/-! ### The manager -/

def putOrder (pool : OrderPool) (order : Nat) : OrderPool :=
  { pool with
    next := Function.update pool.next order pool.orderList
    orderList := some order }

/-- `order->clone()`, which copies the `_next` pointer too. -/
def clone (pool : OrderPool) (order : Nat) : OrderPool × Nat :=
  ({ pool with
    next := Function.update pool.next pool.allocated (pool.next order)
    allocated := pool.allocated + 1 }, pool.allocated)

/-- `createOrder()`. -/
def createOrder (pool : OrderPool) : OrderPool × Nat :=
  ({ pool with
    next := Function.update pool.next pool.allocated none
    allocated := pool.allocated + 1 }, pool.allocated)

/-- The loop of `initOrderPool`. -/
def putClones (order : Nat) : Nat → OrderPool → OrderPool
  | 0, pool => pool
  | more + 1, pool =>
    let (pool, clone) := pool.clone order
    putClones order more (pool.putOrder clone)

def initOrderPool (orderPoolSize : Nat) : OrderPool :=
  let (pool, order) := createOrder {}
  putClones order (orderPoolSize - 1) (pool.putOrder order)

/-- The new handle is to the order. -/
def checkout (pool : OrderPool) (handle order : Nat) : OrderPool :=
  { pool with
    handles := Function.update pool.handles handle (some order)
    checkouts := Function.update pool.checkouts order (pool.checkouts order + 1) }

def getOrder (pool : OrderPool) (handle : Nat) : Option OrderPool := do
  let order ← pool.orderList
  match pool.next order with
  | some next => return { pool with orderList := some next }.checkout handle order
  | none =>
    let (pool, clone) := pool.clone order
    return pool.checkout handle clone

/-! ### Handles -/

/-- The deleter of a handle. -/
def deleter (pool : OrderPool) (order : Nat) : OrderPool :=
  { pool.putOrder order with puts := Function.update pool.puts order (pool.puts order + 1) }

def copy (pool : OrderPool) (handle copied : Nat) : OrderPool :=
  { pool with handles := Function.update pool.handles copied (pool.handles handle) }

def release (pool : OrderPool) (handle : Nat) : OrderPool :=
  { pool with handles := Function.update pool.handles handle none }

def reset (pool : OrderPool) (handle : Nat) (p : Option Nat) : OrderPool :=
  if p ≠ pool.handles handle then
    let pool :=
      match pool.handles handle with
      | some order => pool.deleter order
      | none => pool
    { pool with handles := Function.update pool.handles handle p }
  else pool

def destroy (pool : OrderPool) (handle : Nat) : OrderPool := pool.reset handle none

/-- `NSESession::send`, whose parameter is a copy under a name of its own. -/
def send (pool : OrderPool) (handle temporary : Nat) : Option OrderPool :=
  let pool := pool.copy handle temporary
  match pool.handles temporary with
  | some _ => some (pool.destroy temporary)
  | none => none

/-- What is done with handles. -/
inductive Event where
  | getOrder (handle : Nat)
  | copy (handle copied : Nat)
  | send (handle temporary : Nat)
  | reset (handle : Nat) (p : Option Nat)
  | release (handle : Nat)
  | destroy (handle : Nat)
deriving DecidableEq, Repr

def step (pool : OrderPool) : Event → Option (OrderPool × Unit)
  | .getOrder handle => (pool.getOrder handle).map fun pool => (pool, ())
  | .copy handle copied => some (pool.copy handle copied, ())
  | .send handle temporary => (pool.send handle temporary).map fun pool => (pool, ())
  | .reset handle p => some (pool.reset handle p, ())
  | .release handle => some (pool.release handle, ())
  | .destroy handle => some (pool.destroy handle, ())

/-! ### The free list -/

/-- The `_next` pointers from a head on go through the orders of the list and end. -/
def Chain (next : Nat → Option Nat) : Option Nat → List Nat → Prop
  | head, [] => head = none
  | head, order :: orders => head = some order ∧ Chain next (next order) orders

/-- The free list ends and has no order twice, and no order of it has a handle that points to it;
every order has been given back at most once for each time that it was checked out, and was
checked out again only after that. -/
def Sound (pool : OrderPool) : Prop :=
  (∃ free, Chain pool.next pool.orderList free ∧ free.Nodup ∧
    ∀ handle order, pool.handles handle = some order → order ∉ free) ∧
  ∀ order, pool.puts order ≤ pool.checkouts order ∧ pool.checkouts order ≤ pool.puts order + 1

/-- New handles have new names, and a raw pointer that a handle is reset to is to an order that is
checked out. -/
def Allowed (pool : OrderPool) : Event → Prop
  | .getOrder handle => pool.handles handle = none
  | .copy _ copied => pool.handles copied = none
  | .send _ temporary => pool.handles temporary = none
  | .reset _ p => ∀ order ∈ p, pool.checkouts order = pool.puts order + 1
  | .release _ => True
  | .destroy _ => True

/-- No other handle points where the handle does. -/
def Sole (pool : OrderPool) (handle : Nat) : Prop :=
  ∀ order ∈ pool.handles handle, ∀ other ≠ handle, pool.handles other ≠ some order

/-- No order is given back through a handle that is not the only one to it. -/
def Unshared (pool : OrderPool) : Event → Prop
  | .getOrder _ => True
  | .copy _ _ => True
  | .send _ _ => False
  | .reset handle p => p = pool.handles handle ∨ pool.Sole handle
  | .release _ => True
  | .destroy handle => pool.Sole handle

/-! ### Pools with a free list -/

/-- The free list has at least one order, all others are checked out, and handles are to those. -/
structure Pooled (pool : OrderPool) (free : List Nat) : Prop where
  chain : Chain pool.next pool.orderList free
  nodup : free.Nodup
  some : free ≠ []
  created : ∀ order ∈ free, order < pool.allocated
  idle : ∀ order, order ∈ free ∨ pool.allocated ≤ order → pool.checkouts order = pool.puts order
  out : ∀ order < pool.allocated, order ∉ free → pool.checkouts order = pool.puts order + 1
  held : ∀ handle order, pool.handles handle = .some order → order < pool.allocated ∧ order ∉ free

variable {pool : OrderPool} {free : List Nat}

theorem Pooled.sound (pooled : Pooled pool free) : pool.Sound := by
  refine ⟨⟨free, pooled.chain, pooled.nodup, fun handle order held =>
    (pooled.held handle order held).2⟩, fun order => ?_⟩
  by_cases idle : order ∈ free ∨ pool.allocated ≤ order
  · have := pooled.idle order idle
    omega
  · obtain ⟨notFree, created⟩ := not_or.mp idle
    have := pooled.out order (Nat.not_le.mp created) notFree
    omega

/-- An order that is checked out is not in the free list. -/
theorem Pooled.not_free (pooled : Pooled pool free) {order : Nat}
    (out : pool.checkouts order = pool.puts order + 1) : order < pool.allocated ∧ order ∉ free := by
  have busy : ¬ (order ∈ free ∨ pool.allocated ≤ order) := fun idle => by
    have := pooled.idle order idle
    omega
  obtain ⟨notFree, created⟩ := not_or.mp busy
  exact ⟨Nat.not_le.mp created, notFree⟩

theorem chain_iff_linked {next : Nat → Option Nat} {head : Option Nat} {free : List Nat} :
    Chain next head free ↔ Linked next head free := by
  induction free generalizing head with
  | nil => exact Iff.rfl
  | cons order orders inductionHypothesis => exact and_congr_right fun _ => inductionHypothesis

theorem chain_update {next : Nat → Option Nat} {order : Nat} (after : Option Nat)
    {head : Option Nat} {free : List Nat} (absent : order ∉ free) (chain : Chain next head free) :
    Chain (Function.update next order after) head free :=
  chain_iff_linked.mpr ((chain_iff_linked.mp chain).update absent after)

/-- An order put in front of the free list. -/
theorem chain_putOrder {order : Nat} (absent : order ∉ free)
    (chain : Chain pool.next pool.orderList free) :
    Chain (pool.putOrder order).next (pool.putOrder order).orderList (order :: free) := by
  refine ⟨rfl, ?_⟩
  show Chain _ (Function.update pool.next order pool.orderList order) free
  rw [Function.update_self]
  exact chain_update _ absent chain

theorem pooled_putClone (pooled : Pooled pool free) (order : Nat) :
    Pooled ((pool.clone order).1.putOrder (pool.clone order).2) (pool.allocated :: free) where
  chain := chain_putOrder (fun member => Nat.lt_irrefl _ (pooled.created _ member))
    (chain_update _ (fun member => Nat.lt_irrefl _ (pooled.created _ member)) pooled.chain)
  nodup := List.nodup_cons.mpr
    ⟨fun member => Nat.lt_irrefl _ (pooled.created _ member), pooled.nodup⟩
  some := List.cons_ne_nil _ _
  created := List.forall_mem_cons.mpr
    ⟨Nat.lt_succ_self _, fun other member => Nat.lt_succ_of_lt (pooled.created other member)⟩
  idle := by
    rintro other (member | later)
    · rcases List.mem_cons.mp member with rfl | member
      · exact pooled.idle _ (.inr (Nat.le_refl _))
      · exact pooled.idle other (.inl member)
    · exact pooled.idle other (.inr (Nat.le_of_succ_le later))
  out := by
    intro other created notFree
    obtain ⟨notNew, notFree⟩ := not_or.mp (List.mem_cons.not.mp notFree)
    exact pooled.out other
      (Nat.lt_of_le_of_ne (Nat.le_of_lt_succ created) notNew) notFree
  held := by
    intro handle other held
    obtain ⟨created, notFree⟩ := pooled.held handle other held
    refine ⟨Nat.lt_succ_of_lt created, ?_⟩
    exact List.mem_cons.not.mpr (not_or.mpr ⟨Nat.ne_of_lt created, notFree⟩)

theorem pooled_putClones (order more : Nat) (pooled : Pooled pool free) :
    ∃ free, Pooled (putClones order more pool) free := by
  induction more generalizing pool free with
  | zero => exact ⟨free, pooled⟩
  | succ more inductionHypothesis => exact inductionHypothesis (pooled_putClone pooled order)

theorem pooled_initOrderPool (orderPoolSize : Nat) :
    ∃ free, Pooled (initOrderPool orderPoolSize) free := by
  have first : Pooled ((createOrder {}).1.putOrder (createOrder {}).2) [0] := {
    chain := ⟨rfl, rfl⟩
    nodup := List.nodup_singleton 0
    some := List.cons_ne_nil _ _
    created := fun order member => by rw [List.mem_singleton.mp member]; decide
    idle := fun order _ => rfl
    out := fun order created notFree => absurd
      (List.mem_singleton.mpr (Nat.lt_one_iff.mp created)) notFree
    held := fun handle order held => by cases held }
  exact pooled_putClones 0 (orderPoolSize - 1) first

/-! ### Steps -/

/-- A name for a handle may be given to any order that is checked out, or to none. -/
theorem Pooled.point (pooled : Pooled pool free) (handle : Nat) {p : Option Nat}
    (out : ∀ order ∈ p, order < pool.allocated ∧ order ∉ free) :
    Pooled { pool with handles := Function.update pool.handles handle p } free := by
  refine { pooled with held := fun other order held => ?_ }
  change Function.update pool.handles handle p other = _ at held
  rw [Function.update_apply] at held
  split_ifs at held
  · exact out order held
  · exact pooled.held other order held

/-- The deleter of the only handle to an order, which is then to something else. -/
theorem Pooled.deleter (pooled : Pooled pool free) {handle order : Nat}
    (here : pool.handles handle = .some order) (sole : pool.Sole handle) {p : Option Nat}
    (out : ∀ other ∈ p, other < pool.allocated ∧ other ∉ free) (other : p ≠ .some order) :
    Pooled { pool.deleter order with handles := Function.update pool.handles handle p }
      (order :: free) := by
  obtain ⟨created, notFree⟩ := pooled.held handle order here
  exact {
    chain := chain_putOrder notFree pooled.chain
    nodup := List.nodup_cons.mpr ⟨notFree, pooled.nodup⟩
    some := List.cons_ne_nil _ _
    created := List.forall_mem_cons.mpr ⟨created, pooled.created⟩
    idle := by
      intro which idle
      show pool.checkouts which = Function.update pool.puts order _ which
      rw [Function.update_apply]
      split_ifs with same
      · rw [same]
        exact pooled.out order created notFree
      · rw [List.mem_cons, or_iff_right same] at idle
        exact pooled.idle which idle
    out := by
      intro which createdWhich notFreeWhich
      obtain ⟨notSame, notFreeWhich⟩ := not_or.mp (List.mem_cons.not.mp notFreeWhich)
      show pool.checkouts which = Function.update pool.puts order _ which + 1
      rw [Function.update_of_ne notSame]
      exact pooled.out which createdWhich notFreeWhich
    held := by
      intro name which held
      rw [List.mem_cons, not_or]
      change Function.update pool.handles handle p name = _ at held
      rw [Function.update_apply] at held
      split_ifs at held with same
      · obtain ⟨createdWhich, notFreeWhich⟩ := out which held
        exact ⟨createdWhich, fun equal => other (by rw [held, equal]), notFreeWhich⟩
      · obtain ⟨createdWhich, notFreeWhich⟩ := pooled.held name which held
        exact ⟨createdWhich, fun equal => sole order here name same (by rw [held, equal]),
          notFreeWhich⟩ }

theorem pooled_reset (pooled : Pooled pool free) (handle : Nat) (p : Option Nat)
    (out : ∀ order ∈ p, pool.checkouts order = pool.puts order + 1)
    (unshared : p = pool.handles handle ∨ pool.Sole handle) :
    ∃ free, Pooled (pool.reset handle p) free := by
  have notFree (order : Nat) (member : order ∈ p) := pooled.not_free (out order member)
  unfold reset
  split_ifs with differs
  · cases here : pool.handles handle with
    | none => exact ⟨free, pooled.point handle notFree⟩
    | some order =>
      rw [here] at differs
      exact ⟨_, pooled.deleter here (unshared.resolve_left (by rwa [here])) notFree differs⟩
  · exact ⟨free, pooled⟩

/-- An order that is taken out of the free list, or new, is checked out. -/
theorem Pooled.checkout {order : Nat}
    (chain : Chain pool.next pool.orderList free) (nodup : free.Nodup) (some : free ≠ [])
    (created : ∀ other ∈ order :: free, other < pool.allocated) (absent : order ∉ free)
    (idle : ∀ other, other = order ∨ other ∈ free ∨ pool.allocated ≤ other →
      pool.checkouts other = pool.puts other)
    (out : ∀ other < pool.allocated, other ≠ order → other ∉ free →
      pool.checkouts other = pool.puts other + 1)
    (held : ∀ handle other, pool.handles handle = .some other →
      other < pool.allocated ∧ other ∉ free) (handle : Nat) :
    Pooled (pool.checkout handle order) free where
  chain := chain
  nodup := nodup
  some := some
  created := fun other member => created other (List.mem_cons_of_mem _ member)
  idle := by
    intro other idleOther
    have notOrder : other ≠ order := by
      rintro rfl
      rcases idleOther with member | later
      · exact absent member
      · exact Nat.not_le.mpr (created other List.mem_cons_self) later
    show Function.update pool.checkouts order _ other = pool.puts other
    rw [Function.update_of_ne notOrder]
    exact idle other (.inr idleOther)
  out := by
    intro other createdOther notFree
    show Function.update pool.checkouts order _ other = pool.puts other + 1
    rw [Function.update_apply]
    split_ifs with same
    · rw [same, idle order (.inl rfl)]
    · exact out other createdOther same notFree
  held := by
    intro name other heldOther
    change Function.update pool.handles handle (.some order) name = _ at heldOther
    rw [Function.update_apply] at heldOther
    split_ifs at heldOther
    · rw [← Option.some.inj heldOther]
      exact ⟨created order List.mem_cons_self, absent⟩
    · exact held name other heldOther

/-- The first order of the free list is checked out, when another is behind it. -/
theorem Pooled.checkout_first {order next : Nat} {rest : List Nat}
    (pooled : Pooled pool (order :: rest)) (after : pool.next order = .some next) (handle : Nat) :
    Pooled ({ pool with orderList := .some next }.checkout handle order) rest := by
  obtain ⟨absent, nodup⟩ := List.nodup_cons.mp pooled.nodup
  have chain := pooled.chain.2
  rw [after] at chain
  have some : rest ≠ [] := by
    rintro rfl
    cases chain
  have rests : Chain { pool with orderList := .some next }.next (.some next) rest := chain
  refine Pooled.checkout rests nodup some pooled.created absent (fun other idle => ?_)
    (fun other created notOrder notFree => ?_) (fun name other held => ?_) handle
  · refine pooled.idle other ?_
    rcases idle with rfl | member | later
    · exact .inl List.mem_cons_self
    · exact .inl (List.mem_cons_of_mem _ member)
    · exact .inr later
  · exact pooled.out other created (List.mem_cons.not.mpr (not_or.mpr ⟨notOrder, notFree⟩))
  · obtain ⟨created, notFree⟩ := pooled.held name other held
    exact ⟨created, fun member => notFree (List.mem_cons_of_mem _ member)⟩

/-- A clone of the first order is checked out, and the free list stays. -/
theorem Pooled.checkout_clone (pooled : Pooled pool free) (order handle : Nat) :
    Pooled ((pool.clone order).1.checkout handle pool.allocated) free := by
  have absent : pool.allocated ∉ free := fun member =>
    Nat.lt_irrefl _ (pooled.created _ member)
  refine Pooled.checkout (chain_update _ absent pooled.chain) pooled.nodup pooled.some
    (List.forall_mem_cons.mpr ⟨Nat.lt_succ_self _, fun other member =>
      Nat.lt_succ_of_lt (pooled.created other member)⟩) absent
    (fun other idle => ?_) (fun other created notClone notFree => ?_)
    (fun name other held => ?_) handle
  · refine pooled.idle other ?_
    rcases idle with rfl | member | later
    · exact .inr (Nat.le_refl _)
    · exact .inl member
    · exact .inr (Nat.le_of_succ_le later)
  · exact pooled.out other (Nat.lt_of_le_of_ne (Nat.le_of_lt_succ created) notClone) notFree
  · obtain ⟨created, notFree⟩ := pooled.held name other held
    exact ⟨Nat.lt_succ_of_lt created, notFree⟩

theorem pooled_getOrder (pooled : Pooled pool free) (handle : Nat) :
    ∃ next free, pool.getOrder handle = .some next ∧ Pooled next free := by
  cases free with
  | nil => exact absurd rfl pooled.some
  | cons order rest =>
    have head := pooled.chain.1
    cases after : pool.next order with
    | some next =>
      refine ⟨_, rest, ?_, pooled.checkout_first after handle⟩
      simp only [getOrder, head, after, Option.bind_eq_bind, Option.bind_some]
      rfl
    | none =>
      refine ⟨_, order :: rest, ?_, pooled.checkout_clone order handle⟩
      simp only [getOrder, head, after, Option.bind_eq_bind, Option.bind_some]
      rfl

/-- A pool is not sound while a handle is to the first order of its free list. -/
theorem not_sound_of_head {handle order : Nat} (head : pool.orderList = .some order)
    (held : pool.handles handle = .some order) : ¬ pool.Sound := by
  rintro ⟨⟨free, chain, -, apart⟩, -⟩
  cases free with
  | nil =>
    rw [show pool.orderList = none from chain] at head
    cases head
  | cons first rest =>
    have same := chain.1.symm.trans head
    exact apart handle order held (by rw [Option.some.inj same]; exact List.mem_cons_self)

/-! ### Runs -/

theorem step_pooled (pooled : Pooled pool free) {event : Event} (allowed : pool.Allowed event)
    (unshared : pool.Unshared event) :
    ∃ next, pool.step event = .some (next, ()) ∧ ∃ free, Pooled next free := by
  cases event with
  | getOrder handle =>
    obtain ⟨next, free, returns, again⟩ := pooled_getOrder pooled handle
    exact ⟨next, by rw [step, returns]; rfl, free, again⟩
  | copy handle copied =>
    exact ⟨_, rfl, free, pooled.point copied fun order here => pooled.held handle order here⟩
  | send handle temporary => exact unshared.elim
  | reset handle p => exact ⟨_, rfl, pooled_reset pooled handle p allowed unshared⟩
  | release handle => exact ⟨_, rfl, free, pooled.point handle fun order here => by cases here⟩
  | destroy handle =>
    exact ⟨_, rfl, pooled_reset pooled handle none (fun order here => by cases here) (.inr unshared)⟩

/-- An order given back while another handle is to it becomes the head of the free list. -/
theorem not_sound_of_shared {handle other order : Nat} {p : Option Nat}
    (here : pool.handles handle = .some order) (differs : p ≠ pool.handles handle)
    (apart : other ≠ handle) (there : pool.handles other = .some order) :
    ¬ (pool.reset handle p).Sound := by
  have after : pool.reset handle p =
      { pool.deleter order with handles := Function.update pool.handles handle p } := by
    rw [here] at differs
    simp only [reset, here]
    rw [if_pos differs]
    rfl
  rw [after]
  refine not_sound_of_head rfl (?_ : Function.update pool.handles handle p other = _)
  rw [Function.update_of_ne apart, there]

theorem sole_of_sound {handle : Nat} {p : Option Nat} (differs : p ≠ pool.handles handle)
    (sound : (pool.reset handle p).Sound) : pool.Sole handle :=
  fun _ here _ apart there => not_sound_of_shared here differs apart there sound

theorem unshared_of_sound {event : Event} {next : OrderPool} (allowed : pool.Allowed event)
    (returns : pool.step event = .some (next, ())) (sound : next.Sound) : pool.Unshared event := by
  cases event with
  | getOrder handle => trivial
  | copy handle copied => trivial
  | send handle temporary =>
    -- the parameter is destroyed while the handle that was passed still is to the order
    change (pool.send handle temporary).map _ = _ at returns
    have copied : (pool.copy handle temporary).handles temporary = pool.handles handle :=
      Function.update_self ..
    cases here : pool.handles handle with
    | none =>
      simp only [send, copied, here, Option.map_none] at returns
      cases returns
    | some order =>
      simp only [send, copied, here, Option.map_some] at returns
      cases returns
      have apart : handle ≠ temporary := by
        rintro rfl
        rw [show pool.handles handle = none from allowed] at here
        cases here
      refine not_sound_of_shared (copied.trans here) (by rw [copied, here]; exact nofun) apart ?_ sound
      rw [← here]
      exact Function.update_of_ne apart ..
  | reset handle p =>
    cases returns
    by_cases same : p = pool.handles handle
    · exact .inl same
    · exact .inr (sole_of_sound same sound)
  | release handle => trivial
  | destroy handle =>
    cases returns
    intro order here
    have differs : none ≠ pool.handles handle := by
      rw [show pool.handles handle = .some order from here]
      exact nofun
    exact sole_of_sound differs sound order here

/-- Over every run of checkouts from an initialised pool, and of copies, resets, releases and
destructions of their handles, the free list stays sound exactly when no order is given back
through a handle that is not the only one to it. -/
theorem freeList_sound_iff (orderPoolSize : Nat) (events : List Event)
    (allowed : EachStep step Allowed (initOrderPool orderPoolSize) events) :
    Throughout step Sound (initOrderPool orderPoolSize) events ↔
      EachStep step Unshared (initOrderPool orderPoolSize) events := by
  obtain ⟨free, start⟩ := pooled_initOrderPool orderPoolSize
  refine throughout_iff_of_steps
    (fun pool event (pooled : ∃ free, Pooled pool free) _ allowed unshared => ?_)
    (fun pool event next _ _ _ allowed returns sound => unshared_of_sound allowed returns sound)
    (fun pool event next _ pooled _ allowed unshared returns => ?_) events _ ⟨free, start⟩ start.sound
    allowed
  · obtain ⟨next, returns, free, again⟩ := step_pooled pooled.choose_spec allowed unshared
    exact ⟨next, (), returns, again.sound⟩
  · obtain ⟨after, returned, again⟩ := step_pooled pooled.choose_spec allowed unshared
    rw [returned] at returns
    cases returns
    exact again

/-- An order whose handle is copied and gives it up to the copy, and two later checkouts. -/
theorem freeList_sound_example :
    Throughout step Sound (initOrderPool 2)
      [.getOrder 0, .copy 0 1, .release 0, .destroy 1, .getOrder 0, .getOrder 1, .destroy 0] := by
  have allowed : EachStep step Allowed (initOrderPool 2)
      [.getOrder 0, .copy 0 1, .release 0, .destroy 1, .getOrder 0, .getOrder 1, .destroy 0] :=
    ⟨rfl, rfl, trivial, trivial, rfl, rfl, trivial, trivial⟩
  refine (freeList_sound_iff 2 _ allowed).mpr
    ⟨trivial, trivial, trivial, ?_, trivial, trivial, ?_, trivial⟩
  · intro order here other apart there
    match other with
    | 0 => cases there
    | 1 => exact apart rfl
    | other + 2 => cases there
  · intro order here other apart there
    match other with
    | 0 => exact apart rfl
    | 1 =>
      cases here
      cases there
    | other + 2 => cases there

/-- An order sent is in the free list while the handle that was sent still points to it. -/
theorem sent_order_is_free : ¬ Throughout step Sound (initOrderPool 2) [.getOrder 0, .send 0 1] := by
  have allowed : EachStep step Allowed (initOrderPool 2) [.getOrder 0, .send 0 1] :=
    ⟨rfl, rfl, trivial⟩
  refine (freeList_sound_iff 2 _ allowed).not.mpr ?_
  rintro ⟨-, unshared, -⟩
  exact unshared

end OrderPool

end Oms
