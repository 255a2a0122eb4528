/-
This file models the calls of `FreeListBase` in Common/include/containers/allocator.hpp
when one thread makes them, and proves when it behaves like `NonSyncFreeListBase`.

`getElement` takes the head away by an exchange with a null pointer and puts it back or
the next node in its place; `releaseElement` exchanges the tail. What is done to the
list is the same as without the exchanges. But the `throw` for an empty element stands
behind the branch that it belongs to, so `releaseElement` throws whatever it has done.
-/

import OrderBookSketch.FreeList
import OrderBookSketch.Library.Loop

namespace ObLib

open Runs Chains Loops

namespace FreeListBase

/-- A turn of the loop of `getElement`. A thread that waits for a head waits for another thread. -/
def getElementTurn (fresh : Nat) (list : FreeList) : FreeList ⊕ FreeList × Outcome :=
  if list.freeListSize > list.lowWaterMark then
    match list.freeHead with
    | none => .inl list
    | some msg =>
      -- `xchg(&_freeHead, NULL)`
      let list := { list with freeHead := none }
      match list.next msg with
      | none =>
        let list := { list with freeHead := some msg }
        if list.freeListSize > list.highWaterMark then .inl list
        else .inr (list.allocNewElement fresh, .allocated fresh)
      | some tmp =>
        let list := { list with freeListSize := list.freeListSize - 1 }
        let list := { list with next := Function.update list.next msg none }
        .inr ({ list with freeHead := some tmp }, .taken msg)
  else
    .inr (list.allocNewElement fresh, .allocated fresh)

/-- `getElement()`, for a number of turns. -/
def getElement (turns : Nat) (list : FreeList) (fresh : Nat) : Option (FreeList × Outcome) :=
  loop (getElementTurn fresh) turns list

/-- `releaseElement(element)`: what was done with the element, and the exception that follows. -/
def releaseElement (list : FreeList) (element : Option Nat) :
    Option (FreeList × Option Outcome × Except String Unit) := do
  let (list, outcome) ←
    match element with
    | some velement =>
      if list.freeListSize < list.highWaterMark then do
        let list := { list with next := Function.update list.next velement none }
        let oldTail ← list.freeTail
        let list := { list with freeTail := some velement }
        let list := { list with next := Function.update list.next oldTail (some velement) }
        some ({ list with freeListSize := list.freeListSize + 1 }, some Outcome.kept)
      else
        some (list, some .deleted)
    | none => some (list, none)
  return (list, outcome, .error " Empty element to release.")

end FreeListBase

namespace NodeCustody

/-- A call on a `FreeListBase`. -/
def syncStep (turns : Nat) (custody : NodeCustody) (call : FreeListCall) :
    Option (NodeCustody × Option Outcome × Except String Unit) :=
  match call with
  | .getElement fresh =>
    (FreeListBase.getElement turns custody.list fresh).map fun (list, outcome) =>
      (custody.after list call outcome, some outcome, .ok ())
  | .releaseElement elem =>
    (FreeListBase.releaseElement custody.list (some elem)).map fun (list, outcome, result) =>
      match outcome with
      | some done => (custody.after list call done, outcome, result)
      | none => ({ custody with list }, outcome, result)

/-- How a call on a `FreeListBase` ends. -/
def result : FreeListCall → Except String Unit
  | .getElement _ => .ok ()
  | .releaseElement _ => .error " Empty element to release."

variable {highWaterMark lowWaterMark : Int} {custody : NodeCustody} {free : List Nat}

/-- With one turn or more the exchange of the head changes nothing. -/
theorem Keeps.getElement_sync (keeps : Keeps highWaterMark lowWaterMark custody free)
    (lowNonneg : 0 ≤ lowWaterMark) (turns fresh : Nat) :
    FreeListBase.getElement (turns + 1) custody.list fresh =
      NonSyncFreeListBase.getElement custody.list fresh := by
  by_cases more : custody.list.freeListSize > custody.list.lowWaterMark
  · obtain ⟨first, second, rest, -, isHead, isNext⟩ := keeps.exists_two lowNonneg (keeps.low ▸ more)
    rw [NonSyncFreeListBase.getElement_taken more isHead, isNext]
    refine loop_inr turns ?_
    simp only [FreeListBase.getElementTurn, if_pos more, isHead, isNext]
  · rw [NonSyncFreeListBase.getElement_allocated more]
    exact loop_inr turns (if_neg more)

/-- Apart from the exception, so does the exchange of the tail. -/
theorem Keeps.releaseElement_sync (keeps : Keeps highWaterMark lowWaterMark custody free)
    (highNonneg : 0 ≤ highWaterMark) (lowNonneg : 0 ≤ lowWaterMark) {elem : Nat}
    (isOut : elem ∈ custody.out) :
    FreeListBase.releaseElement custody.list (some elem) =
      (NonSyncFreeListBase.releaseElement custody.list elem).map fun (list, outcome) =>
        (list, some outcome, result (.releaseElement elem)) := by
  by_cases room : custody.list.freeListSize < custody.list.highWaterMark
  · obtain ⟨last, inFree, isTail⟩ := keeps.queue.exists_last (keeps.free_ne_nil highNonneg lowNonneg)
    have notLast : last ≠ elem := ne_of_mem_of_not_mem inFree (keeps.not_free isOut)
    simp only [FreeListBase.releaseElement, NonSyncFreeListBase.releaseElement, if_pos room,
      FreeList.link, isTail]
    show some _ = some _
    rw [Function.update_comm notLast]
    rfl
  · simp only [FreeListBase.releaseElement, NonSyncFreeListBase.releaseElement, if_neg room]
    rfl

/-- A proper call does the same with both classes. -/
theorem Keeps.syncStep_eq (keeps : Keeps highWaterMark lowWaterMark custody free)
    (highNonneg : 0 ≤ highWaterMark) (lowNonneg : 0 ≤ lowWaterMark) (turns : Nat)
    {call : FreeListCall} (proper : Proper custody call) :
    custody.syncStep (turns + 1) call = (custody.step call).map fun (next, outcome) =>
      (next, some outcome, result call) := by
  cases call with
  | getElement fresh =>
    rw [syncStep, keeps.getElement_sync lowNonneg, NodeCustody.step, Option.map_map]
    rfl
  | releaseElement elem =>
    rw [syncStep, keeps.releaseElement_sync highNonneg lowNonneg proper, NodeCustody.step,
      Option.map_map, Option.map_map]
    rfl

end NodeCustody

/-! ### Both classes side by side -/

/-- A `FreeListBase` and a `NonSyncFreeListBase`. -/
structure TwoLists where
  sync : NodeCustody
  plain : NodeCustody

/-- The same call on both, each with an element of its own. -/
inductive TwinCall where
  | getElement (freshSync freshPlain : Nat)
  | releaseElement (elemSync elemPlain : Nat)
deriving DecidableEq, Repr

namespace TwinCall

def sync : TwinCall → FreeListCall
  | .getElement freshSync _ => .getElement freshSync
  | .releaseElement elemSync _ => .releaseElement elemSync

def plain : TwinCall → FreeListCall
  | .getElement _ freshPlain => .getElement freshPlain
  | .releaseElement _ elemPlain => .releaseElement elemPlain

def IsGetElement : TwinCall → Prop
  | .getElement .. => True
  | .releaseElement .. => False

instance : DecidablePred IsGetElement
  | .getElement .. => .isTrue trivial
  | .releaseElement .. => .isFalse id

end TwinCall

namespace TwoLists

/-- What a call returns on the first list and on the second. -/
abbrev Returned := (Option Outcome × Except String Unit) × Outcome

def step (turns : Nat) (lists : TwoLists) (call : TwinCall) : Option (TwoLists × Returned) := do
  let (sync, returned) ← lists.sync.syncStep turns call.sync
  let (plain, outcome) ← lists.plain.step call.plain
  return (⟨sync, plain⟩, returned, outcome)

def Proper (lists : TwoLists) (call : TwinCall) : Prop :=
  lists.sync.Proper call.sync ∧ lists.plain.Proper call.plain

instance : DecidableRel Proper := fun lists call =>
  inferInstanceAs (Decidable (lists.sync.Proper call.sync ∧ lists.plain.Proper call.plain))

/-- Both lists do the same with their elements and count the same. -/
def Agree (_ : TwoLists) (_ : TwinCall) (returned : Returned) (next : TwoLists) : Prop :=
  returned.1.1.map Outcome.kind = some returned.2.kind ∧
    next.sync.list.freeListSize = next.plain.list.freeListSize

/-- Both lists behave alike, and none throws. -/
def Alike (lists : TwoLists) (call : TwinCall) (returned : Returned) (next : TwoLists) : Prop :=
  Agree lists call returned next ∧ returned.1.2 = .ok ()

/-- Both lists are sound and count the same. -/
structure Twins (highWaterMark lowWaterMark : Int) (lists : TwoLists) : Prop where
  sync : ∃ free, lists.sync.Keeps highWaterMark lowWaterMark free
  plain : ∃ free, lists.plain.Keeps highWaterMark lowWaterMark free
  size : lists.sync.list.freeListSize = lists.plain.list.freeListSize

variable {highWaterMark lowWaterMark : Int} {lists : TwoLists}

theorem byCount_twin (highWaterMark lowWaterMark size : Int) (call : TwinCall) :
    NodeCustody.byCount highWaterMark lowWaterMark size call.sync =
      NodeCustody.byCount highWaterMark lowWaterMark size call.plain := by
  cases call <;> rfl

/-- A proper call does the same on both lists, and what it throws depends on the call alone. -/
theorem Twins.step (twins : Twins highWaterMark lowWaterMark lists) (highNonneg : 0 ≤ highWaterMark)
    (lowNonneg : 0 ≤ lowWaterMark) (turns : Nat) {call : TwinCall} (proper : Proper lists call) :
    ∃ next returned, lists.step (turns + 1) call = some (next, returned) ∧
      Agree lists call returned next ∧ returned.1.2 = NodeCustody.result call.sync ∧
      Twins highWaterMark lowWaterMark next := by
  obtain ⟨⟨free, keeps⟩, ⟨freePlain, keepsPlain⟩, size⟩ := twins
  obtain ⟨sync, outcome, freeNext, syncReturns, syncKeeps, syncCounts⟩ :=
    keeps.step highNonneg lowNonneg proper.1
  obtain ⟨plain, outcomePlain, freePlainNext, plainReturns, plainKeeps, plainCounts⟩ :=
    keepsPlain.step highNonneg lowNonneg proper.2
  rw [byCount_twin, size, ← plainCounts, Prod.mk.injEq] at syncCounts
  refine ⟨⟨sync, plain⟩, ((some outcome, NodeCustody.result call.sync), outcomePlain), ?_,
    ⟨congrArg some syncCounts.1, syncCounts.2⟩, rfl, ⟨_, syncKeeps⟩, ⟨_, plainKeeps⟩, syncCounts.2⟩
  rw [TwoLists.step, keeps.syncStep_eq highNonneg lowNonneg turns proper.1, syncReturns, plainReturns]
  rfl

/-- Two new lists with the same water marks. -/
theorem twins_start (highNonneg : 0 ≤ highWaterMark) (lowWaterMark : Int) {newSync newPlain : Nat → Nat}
    (distinctSync : ((List.range (highWaterMark.toNat + 1)).map newSync).Nodup)
    (distinctPlain : ((List.range (highWaterMark.toNat + 1)).map newPlain).Nodup) :
    ∃ sync plain, (FreeList.create highWaterMark lowWaterMark).init newSync = some sync ∧
      (FreeList.create highWaterMark lowWaterMark).init newPlain = some plain ∧
      Twins highWaterMark lowWaterMark ⟨.start sync newSync, .start plain newPlain⟩ := by
  obtain ⟨sync, syncInits, syncKeeps⟩ :=
    NodeCustody.keeps_start highNonneg lowWaterMark distinctSync
  obtain ⟨plain, plainInits, plainKeeps⟩ :=
    NodeCustody.keeps_start highNonneg lowWaterMark distinctPlain
  refine ⟨sync, plain, syncInits, plainInits, ⟨_, syncKeeps⟩, ⟨_, plainKeeps⟩, ?_⟩
  have syncLength := syncKeeps.length
  have plainLength := plainKeeps.length
  rw [List.length_map, List.length_range] at syncLength plainLength
  exact (Int.add_left_inj 1).mp (syncLength.symm.trans plainLength)

/-- Over every run, the two lists do the same with their elements and count the same. -/
theorem agree_always (twins : Twins highWaterMark lowWaterMark lists)
    (highNonneg : 0 ≤ highWaterMark) (lowNonneg : 0 ≤ lowWaterMark) (turns : Nat)
    (calls : List TwinCall) (fits : EachStep (step (turns + 1)) Proper lists calls) :
    EachReturn (step (turns + 1)) Agree lists calls := by
  refine eachReturn_of_keeps (fun lists call twins proper => ?_) calls lists twins fits
  obtain ⟨next, returned, returns, agree, -, again⟩ := twins.step highNonneg lowNonneg turns proper
  exact ⟨next, returned, returns, agree, again⟩

/-- From `init` with the same water marks on, over every run in which `new` returns new addresses
and only elements that are handed out are released, the two lists behave alike and none throws
exactly when no element is released. -/
theorem alike_iff_none_released (highWaterMark lowWaterMark : Int) (highNonneg : 0 ≤ highWaterMark)
    (lowNonneg : 0 ≤ lowWaterMark) (newSync newPlain : Nat → Nat)
    (distinctSync : ((List.range (highWaterMark.toNat + 1)).map newSync).Nodup)
    (distinctPlain : ((List.range (highWaterMark.toNat + 1)).map newPlain).Nodup) (turns : Nat)
    (calls : List TwinCall) :
    ∃ sync plain, (FreeList.create highWaterMark lowWaterMark).init newSync = some sync ∧
      (FreeList.create highWaterMark lowWaterMark).init newPlain = some plain ∧
      (EachStep (step (turns + 1)) Proper ⟨.start sync newSync, .start plain newPlain⟩ calls →
        (EachReturn (step (turns + 1)) Alike ⟨.start sync newSync, .start plain newPlain⟩ calls ↔
          ∀ call ∈ calls, call.IsGetElement)) := by
  obtain ⟨sync, plain, syncInits, plainInits, twins⟩ :=
    twins_start highNonneg lowWaterMark distinctSync distinctPlain
  refine ⟨sync, plain, syncInits, plainInits, fun fits => ?_⟩
  rw [← (agree_always twins highNonneg lowNonneg turns calls fits).forall_iff]
  refine eachReturn_iff_of_each (eachReturn_of_keeps (fun lists call twins proper => ?_) calls _ twins fits)
  obtain ⟨next, returned, returns, agree, result, again⟩ :=
    twins.step highNonneg lowNonneg turns proper
  refine ⟨next, returned, returns, ?_, again⟩
  rw [Alike, result, and_iff_right agree]
  cases call with
  | getElement => exact iff_of_true rfl trivial
  | releaseElement => exact iff_of_false nofun id

/-- Two of two nodes, and then new ones. -/
theorem alike_iff_none_released_example :
    ∃ sync plain, (FreeList.create 1 0).init id = some sync ∧
      (FreeList.create 1 0).init (fun i => i + 5) = some plain ∧
      EachReturn (step 1) Alike ⟨.start sync id, .start plain fun i => i + 5⟩
        [.getElement 2 7, .getElement 2 7, .getElement 3 8] := by
  obtain ⟨sync, plain, syncInits, plainInits, iff⟩ := alike_iff_none_released 1 0 (by decide)
    (by decide) id (fun i => i + 5) (by decide) (by decide) 0
    [.getElement 2 7, .getElement 2 7, .getElement 3 8]
  refine ⟨sync, plain, syncInits, plainInits, (iff ?_).mpr ?_⟩
  all_goals
    obtain rfl := Option.some.inj (show some _ = some sync from syncInits)
    obtain rfl := Option.some.inj (show some _ = some plain from plainInits)
    decide

/-- An element that is taken and released again is kept, and then the call throws. -/
theorem released_element_throws :
    ¬ ∀ (highWaterMark lowWaterMark : Int) (newSync newPlain : Nat → Nat) (turns : Nat)
        (calls : List TwinCall) (sync plain : FreeList), 0 ≤ highWaterMark → 0 ≤ lowWaterMark →
      ((List.range (highWaterMark.toNat + 1)).map newSync).Nodup →
      ((List.range (highWaterMark.toNat + 1)).map newPlain).Nodup →
      (FreeList.create highWaterMark lowWaterMark).init newSync = some sync →
      (FreeList.create highWaterMark lowWaterMark).init newPlain = some plain →
      EachStep (step (turns + 1)) Proper ⟨.start sync newSync, .start plain newPlain⟩ calls →
      EachReturn (step (turns + 1)) Alike ⟨.start sync newSync, .start plain newPlain⟩ calls := by
  intro claim
  have each := claim 1 0 id id 0 [.getElement 2 2, .releaseElement 0 0] _ _ (by decide) (by decide)
    (by decide) (by decide) rfl rfl (by decide)
  exact absurd each.2.1.2 nofun

end TwoLists

end ObLib
