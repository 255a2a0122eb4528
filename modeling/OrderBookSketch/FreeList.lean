/-
This file models the free lists of Common/include/containers/allocator.hpp as far as
`NonSyncFreeListBase` and `FreeListBase` share them, with the calls of the first, and
proves that the chain of free nodes and the nodes that are handed out stay apart.

A node is the address of its object; the memory holds the `_next` pointer of every node,
and the contents of the nodes are left out. An address that `new` returns comes with the
call that may need it. A call through a null pointer has no defined behaviour (`none`).
-/

import OrderBookSketch.Library.Chain
import OrderBookSketch.Library.Run
import Mathlib.Data.List.Nodup
import Mathlib.Data.List.Perm.Basic
import Mathlib.Tactic.SplitIfs

namespace ObLib

open Runs Chains

/-- The fields of both classes, and the memory. -/
structure FreeList where
  next : Nat → Option Nat
  freeHead : Option Nat
  freeTail : Option Nat
  freeListSize : Int
  highWaterMark : Int
  lowWaterMark : Int

/-- What a call does with its element. -/
inductive Outcome where
  | taken (elem : Nat)
  | allocated (elem : Nat)
  | kept
  | deleted
deriving DecidableEq, Repr

inductive Kind where
  | taken
  | allocated
  | kept
  | deleted
deriving DecidableEq, Repr

def Outcome.kind : Outcome → Kind
  | .taken _ => .taken
  | .allocated _ => .allocated
  | .kept => .kept
  | .deleted => .deleted

namespace FreeList

def create (highWaterMark lowWaterMark : Int) : FreeList where
  next := fun _ => none
  freeHead := none
  freeTail := none
  freeListSize := highWaterMark
  highWaterMark := highWaterMark
  lowWaterMark := lowWaterMark

/-- `allocNewElement()`, where `new` returns the given address. -/
def allocNewElement (list : FreeList) (elem : Nat) : FreeList :=
  { list with next := Function.update list.next elem none }

/-- `_freeTail->_next = msg; _freeTail = msg`. -/
def link (list : FreeList) (msg : Nat) : Option FreeList := do
  let tail ← list.freeTail
  return { list with next := Function.update list.next tail (some msg), freeTail := some msg }

/-- `init()`, where `new` returns the given addresses one after the other. -/
def init (list : FreeList) (new : Nat → Nat) : Option FreeList :=
  let list := list.allocNewElement (new 0)
  let list := { list with freeHead := some (new 0), freeTail := some (new 0) }
  (List.range list.highWaterMark.toNat).foldlM
    (fun list i => (list.allocNewElement (new (i + 1))).link (new (i + 1))) list

end FreeList

namespace NonSyncFreeListBase

/-- `getElement()`, where `new`, if it is called, returns the given address. -/
def getElement (list : FreeList) (fresh : Nat) : Option (FreeList × Outcome) :=
  if list.freeListSize > list.lowWaterMark then do
    let msg ← list.freeHead
    let list := { list with freeHead := list.next msg }
    let list := { list with next := Function.update list.next msg none }
    let list := { list with freeListSize := list.freeListSize - 1 }
    return (list, .taken msg)
  else
    some (list.allocNewElement fresh, .allocated fresh)

def releaseElement (list : FreeList) (elem : Nat) : Option (FreeList × Outcome) :=
  if list.freeListSize < list.highWaterMark then do
    let list ← list.link elem
    let list := { list with next := Function.update list.next elem none }
    return ({ list with freeListSize := list.freeListSize + 1 }, .kept)
  else
    some (list, .deleted)

end NonSyncFreeListBase

/-! ### Who holds the nodes -/

inductive FreeListCall where
  | getElement (fresh : Nat)
  | releaseElement (elem : Nat)
deriving DecidableEq, Repr

/-- A free list with the nodes that exist and those of them that are handed out. -/
structure NodeCustody where
  list : FreeList
  live : List Nat
  out : List Nat

namespace NodeCustody

/-- A call was made, and this is what it did with its element. -/
def after (custody : NodeCustody) (list : FreeList) (call : FreeListCall) (outcome : Outcome) :
    NodeCustody :=
  match call, outcome with
  | _, .taken elem => { custody with list, out := elem :: custody.out }
  | _, .allocated elem => ⟨list, elem :: custody.live, elem :: custody.out⟩
  | .releaseElement elem, .deleted => ⟨list, custody.live.erase elem, custody.out.erase elem⟩
  | .releaseElement elem, .kept => { custody with list, out := custody.out.erase elem }
  | .getElement _, _ => { custody with list }

/-- A call on a `NonSyncFreeListBase`. -/
def step (custody : NodeCustody) (call : FreeListCall) : Option (NodeCustody × Outcome) :=
  (match call with
    | .getElement fresh => NonSyncFreeListBase.getElement custody.list fresh
    | .releaseElement elem => NonSyncFreeListBase.releaseElement custody.list elem).map
    fun (list, outcome) => (custody.after list call outcome, outcome)

/-- `new` returns the address of no node that exists, and only an element that is handed out is
released. -/
def Proper (custody : NodeCustody) : FreeListCall → Prop
  | .getElement fresh => fresh ∉ custody.live
  | .releaseElement elem => elem ∈ custody.out

instance : DecidableRel Proper
  | custody, .getElement fresh => inferInstanceAs (Decidable (fresh ∉ custody.live))
  | custody, .releaseElement elem => inferInstanceAs (Decidable (elem ∈ custody.out))

/-- A free list behind `init`. -/
def start (list : FreeList) (new : Nat → Nat) : NodeCustody :=
  ⟨list, (List.range (list.highWaterMark.toNat + 1)).map new, []⟩

/-- The chain from the head to the tail ends and has one node more than the list counts, the count
is within its bounds, and no node is both free and handed out. -/
def Sound (highWaterMark lowWaterMark : Int) (custody : NodeCustody) : Prop :=
  ∃ free : List Nat, Queue custody.list.next custody.list.freeHead custody.list.freeTail free ∧
    free.Nodup ∧ (free.length : Int) = custody.list.freeListSize + 1 ∧
    min lowWaterMark highWaterMark ≤ custody.list.freeListSize ∧
    custody.list.freeListSize ≤ highWaterMark ∧ ∀ node ∈ free, node ∉ custody.out

/-- The free nodes of a free list, which with those that are handed out are all that exist. -/
structure Keeps (highWaterMark lowWaterMark : Int) (custody : NodeCustody) (free : List Nat) :
    Prop where
  high : custody.list.highWaterMark = highWaterMark
  low : custody.list.lowWaterMark = lowWaterMark
  queue : Queue custody.list.next custody.list.freeHead custody.list.freeTail free
  length : (free.length : Int) = custody.list.freeListSize + 1
  above : min lowWaterMark highWaterMark ≤ custody.list.freeListSize
  below : custody.list.freeListSize ≤ highWaterMark
  all : custody.live.Perm (free ++ custody.out)
  distinct : custody.live.Nodup

variable {highWaterMark lowWaterMark : Int} {custody : NodeCustody} {free : List Nat}

theorem Keeps.apart (keeps : Keeps highWaterMark lowWaterMark custody free) :
    (free ++ custody.out).Nodup := keeps.all.nodup_iff.mp keeps.distinct

theorem Keeps.sound (keeps : Keeps highWaterMark lowWaterMark custody free) :
    Sound highWaterMark lowWaterMark custody :=
  ⟨free, keeps.queue, keeps.queue.linked.nodup, keeps.length, keeps.above, keeps.below,
    fun _ inFree isOut => List.disjoint_of_nodup_append keeps.apart inFree isOut⟩

end NodeCustody

/-! ### The first nodes -/

namespace FreeList

variable {list : FreeList} {nodes : List Nat} {elem : Nat}

/-- A new element is linked behind the tail. -/
theorem link_allocNewElement (list : FreeList) (queue : Queue list.next list.freeHead list.freeTail nodes)
    (some : nodes ≠ []) (absent : elem ∉ nodes) :
    ∃ next, (list.allocNewElement elem).link elem =
        .some { list with next, freeTail := .some elem } ∧
      Queue next list.freeHead (.some elem) (nodes ++ [elem]) := by
  obtain ⟨last, inNodes, isTail⟩ := queue.exists_last some
  have notLast : elem ≠ last := fun same => absent (same ▸ inNodes)
  refine ⟨Function.update (Function.update list.next elem none) last (.some elem), ?_, ?_⟩
  · rw [link, show (list.allocNewElement elem).freeTail = .some last from isTail]
    rfl
  · refine (isTail ▸ queue).append (Function.update_self ..) ?_ fun member inNodes other => ?_
    · rw [Function.update_of_ne notLast, Function.update_self]
    · rw [Function.update_of_ne other,
        Function.update_of_ne (ne_of_mem_of_not_mem inNodes absent)]

/-- Each turn of the loop of `init` appends the next new node. -/
theorem link_range (list : FreeList) {new : Nat → Nat} {count : Nat}
    (distinct : ((List.range (count + 1)).map new).Nodup)
    (queue : Queue list.next list.freeHead list.freeTail [new 0]) :
    ∃ next, (List.range count).foldlM
        (fun list i => (list.allocNewElement (new (i + 1))).link (new (i + 1))) list =
          some { list with next, freeTail := some (new count) } ∧
      Queue next list.freeHead (some (new count)) ((List.range (count + 1)).map new) := by
  induction count with
  | zero =>
    have isTail : list.freeTail = some (new 0) := queue.last.symm
    exact ⟨list.next, by rw [← isTail]; rfl, isTail ▸ queue⟩
  | succ count inductionHypothesis =>
    rw [List.range_succ, List.map_append] at distinct
    obtain ⟨earlier, -, apart⟩ := List.nodup_append.mp distinct
    obtain ⟨next, loops, reached⟩ := inductionHypothesis earlier
    have absent : new (count + 1) ∉ (List.range (count + 1)).map new :=
      fun again => apart _ again _ (List.mem_singleton_self _) rfl
    obtain ⟨after, links, further⟩ := link_allocNewElement
      { list with next, freeTail := some (new count) } reached (by simp) absent
    refine ⟨after, ?_, ?_⟩
    · rw [List.range_succ, List.foldlM_append, loops]
      show (some _ >>= fun list => [count].foldlM _ list) = _
      rw [Option.bind_eq_bind, Option.bind_some, List.foldlM_cons, links]
      rfl
    · rw [List.range_succ, List.map_append]
      exact further

end FreeList

/-! ### What the calls return -/

namespace NonSyncFreeListBase

variable {list : FreeList}

theorem getElement_taken {msg fresh : Nat} (more : list.freeListSize > list.lowWaterMark)
    (isHead : list.freeHead = some msg) :
    getElement list fresh = some
      ({ list with
         next := Function.update list.next msg none
         freeHead := list.next msg
         freeListSize := list.freeListSize - 1 }, .taken msg) := by
  rw [getElement, if_pos more, isHead]
  rfl

theorem getElement_allocated {fresh : Nat} (few : ¬ list.freeListSize > list.lowWaterMark) :
    getElement list fresh = some (list.allocNewElement fresh, .allocated fresh) := if_neg few

/-- An element that is kept is linked behind the tail. -/
theorem releaseElement_kept {nodes : List Nat} {elem : Nat}
    (queue : Queue list.next list.freeHead list.freeTail nodes) (some : nodes ≠ [])
    (absent : elem ∉ nodes) (room : list.freeListSize < list.highWaterMark) :
    ∃ next, releaseElement list elem = .some
        ({ list with next, freeTail := .some elem, freeListSize := list.freeListSize + 1 }, .kept) ∧
      Queue next list.freeHead (.some elem) (nodes ++ [elem]) := by
  obtain ⟨last, inNodes, isTail⟩ := queue.exists_last some
  have notLast : last ≠ elem := ne_of_mem_of_not_mem inNodes absent
  refine ⟨Function.update (Function.update list.next last (.some elem)) elem none, ?_, ?_⟩
  · rw [releaseElement, if_pos room, FreeList.link, isTail]
    rfl
  · refine (isTail ▸ queue).append ?_ (Function.update_self ..) fun member inNodes other => ?_
    · rw [Function.update_of_ne notLast, Function.update_self]
    · rw [Function.update_of_ne (ne_of_mem_of_not_mem inNodes absent),
        Function.update_of_ne other]

theorem releaseElement_deleted {elem : Nat} (full : ¬ list.freeListSize < list.highWaterMark) :
    releaseElement list elem = some (list, .deleted) := if_neg full

end NonSyncFreeListBase

/-! ### Every run -/

namespace NodeCustody

variable {highWaterMark lowWaterMark : Int} {custody : NodeCustody} {free : List Nat}

/-- Behind `init` the nodes that were made are free, in the order in which they were made. -/
theorem keeps_start (highNonneg : 0 ≤ highWaterMark) (lowWaterMark : Int) {new : Nat → Nat}
    (distinct : ((List.range (highWaterMark.toNat + 1)).map new).Nodup) :
    ∃ list, (FreeList.create highWaterMark lowWaterMark).init new = some list ∧
      Keeps highWaterMark lowWaterMark (start list new)
        ((List.range (highWaterMark.toNat + 1)).map new) := by
  let first := { (FreeList.create highWaterMark lowWaterMark).allocNewElement (new 0) with
    freeHead := some (new 0), freeTail := some (new 0) }
  have ends : first.next (new 0) = none := by simp [first, FreeList.allocNewElement]
  have single : Queue first.next first.freeHead first.freeTail [new 0] := ⟨⟨rfl, ends⟩, rfl⟩
  obtain ⟨next, loops, queue⟩ := FreeList.link_range first distinct single
  refine ⟨_, loops, rfl, rfl, queue, ?_, Int.min_le_right .., Int.le_refl _, ?_, distinct⟩
  · rw [List.length_map, List.length_range]
    show ((highWaterMark.toNat + 1 : Nat) : Int) = highWaterMark + 1
    omega
  · show ((List.range (highWaterMark.toNat + 1)).map new).Perm _
    rw [show (start { first with next, freeTail := some (new highWaterMark.toNat) } new).out = []
      from rfl, List.append_nil]

/-- While the count is above the low water mark the head is not the last node. -/
theorem Keeps.exists_two (keeps : Keeps highWaterMark lowWaterMark custody free)
    (lowNonneg : 0 ≤ lowWaterMark) (more : lowWaterMark < custody.list.freeListSize) :
    ∃ first second rest, free = first :: second :: rest ∧ custody.list.freeHead = some first ∧
      custody.list.next first = some second := by
  have length := keeps.length
  match free, keeps.queue.linked with
  | [], _ => rw [List.length_nil] at length; omega
  | [_], _ => rw [List.length_singleton] at length; omega
  | first :: second :: rest, linked => exact ⟨first, second, rest, rfl, linked.1, linked.2.1⟩

theorem Keeps.free_ne_nil (keeps : Keeps highWaterMark lowWaterMark custody free)
    (highNonneg : 0 ≤ highWaterMark) (lowNonneg : 0 ≤ lowWaterMark) : free ≠ [] := by
  rintro rfl
  have length := keeps.length
  have above := keeps.above
  rw [List.length_nil] at length
  omega

/-- The first free node is handed out. -/
theorem Keeps.taken {first second : Nat} {rest : List Nat}
    (keeps : Keeps highWaterMark lowWaterMark custody (first :: second :: rest))
    (more : lowWaterMark < custody.list.freeListSize) (call : FreeListCall) :
    Keeps highWaterMark lowWaterMark
      (custody.after
        { custody.list with
          next := Function.update custody.list.next first none
          freeHead := custody.list.next first
          freeListSize := custody.list.freeListSize - 1 } call (.taken first))
      (second :: rest) := by
  have absent : first ∉ second :: rest := (List.nodup_cons.mp keeps.queue.linked.nodup).1
  have length := keeps.length
  have above := keeps.above
  have below := keeps.below
  have shorter : ((second :: rest).length : Int) = custody.list.freeListSize - 1 + 1 := by
    simp only [List.length_cons] at length ⊢
    omega
  have bound : min lowWaterMark highWaterMark ≤ custody.list.freeListSize - 1 := by omega
  have count : custody.list.freeListSize - 1 ≤ highWaterMark := by omega
  have queue := keeps.queue.tail_of_cons.congr fun node member =>
    Function.update_of_ne (ne_of_mem_of_not_mem member absent) none custody.list.next
  cases call <;>
    exact ⟨keeps.high, keeps.low, queue, shorter, bound, count,
      keeps.all.trans List.perm_middle.symm, keeps.distinct⟩

/-- A new node is handed out. -/
theorem Keeps.allocated (keeps : Keeps highWaterMark lowWaterMark custody free) {fresh : Nat}
    (absent : fresh ∉ custody.live) (call : FreeListCall) :
    Keeps highWaterMark lowWaterMark
      (custody.after (custody.list.allocNewElement fresh) call (.allocated fresh)) free := by
  have notFree : fresh ∉ free := fun member =>
    absent (keeps.all.mem_iff.mpr (List.mem_append_left _ member))
  have queue := keeps.queue.congr fun node member =>
    Function.update_of_ne (ne_of_mem_of_not_mem member notFree) none custody.list.next
  cases call <;>
    exact ⟨keeps.high, keeps.low, queue, keeps.length, keeps.above, keeps.below,
      (keeps.all.cons fresh).trans List.perm_middle.symm, List.nodup_cons.mpr ⟨absent, keeps.distinct⟩⟩

/-- A node that is handed out is not free. -/
theorem Keeps.not_free (keeps : Keeps highWaterMark lowWaterMark custody free) {elem : Nat}
    (isOut : elem ∈ custody.out) : elem ∉ free :=
  fun inFree => List.disjoint_of_nodup_append keeps.apart inFree isOut

/-- A node that is given back becomes the last free one. -/
theorem Keeps.kept (keeps : Keeps highWaterMark lowWaterMark custody free) {elem : Nat}
    (isOut : elem ∈ custody.out) (room : custody.list.freeListSize < highWaterMark)
    {next : Nat → Option Nat}
    (queue : Queue next custody.list.freeHead (some elem) (free ++ [elem])) :
    Keeps highWaterMark lowWaterMark
      (custody.after
        { custody.list with
          next, freeTail := some elem, freeListSize := custody.list.freeListSize + 1 }
        (.releaseElement elem) .kept)
      (free ++ [elem]) where
  high := keeps.high
  low := keeps.low
  queue := queue
  length := by
    have length := keeps.length
    rw [List.length_append, List.length_singleton, Int.natCast_add, length]
    rfl
  above := Int.le_trans keeps.above (Int.le_of_lt (Int.lt_succ _))
  below := room
  all := by
    refine keeps.all.trans ?_
    rw [List.append_assoc]
    exact (List.perm_cons_erase isOut).append_left free
  distinct := keeps.distinct

/-- A node that is given back to a full list is deleted. -/
theorem Keeps.deleted (keeps : Keeps highWaterMark lowWaterMark custody free) {elem : Nat}
    (isOut : elem ∈ custody.out) :
    Keeps highWaterMark lowWaterMark
      (custody.after custody.list (.releaseElement elem) .deleted) free where
  high := keeps.high
  low := keeps.low
  queue := keeps.queue
  length := keeps.length
  above := keeps.above
  below := keeps.below
  all := by
    refine (keeps.all.erase elem).trans (List.Perm.of_eq ?_)
    exact List.erase_append_right _ (keeps.not_free isOut)
  distinct := keeps.distinct.erase elem

/-- What a call does with an element, and the count behind it, as they follow from the count
before. -/
def byCount (highWaterMark lowWaterMark size : Int) : FreeListCall → Kind × Int
  | .getElement _ => if size > lowWaterMark then (.taken, size - 1) else (.allocated, size)
  | .releaseElement _ => if size < highWaterMark then (.kept, size + 1) else (.deleted, size)

/-- Every proper call returns, and the count decides what it does. -/
theorem Keeps.step (keeps : Keeps highWaterMark lowWaterMark custody free)
    (highNonneg : 0 ≤ highWaterMark) (lowNonneg : 0 ≤ lowWaterMark) {call : FreeListCall}
    (proper : Proper custody call) :
    ∃ next outcome free, custody.step call = some (next, outcome) ∧
      Keeps highWaterMark lowWaterMark next free ∧
      (outcome.kind, next.list.freeListSize) =
        byCount highWaterMark lowWaterMark custody.list.freeListSize call := by
  cases call with
  | getElement fresh =>
    by_cases more : custody.list.freeListSize > lowWaterMark
    · obtain ⟨first, second, rest, rfl, isHead, isNext⟩ := keeps.exists_two lowNonneg more
      refine ⟨_, .taken first, _, ?_, keeps.taken more (.getElement fresh), ?_⟩
      · rw [NodeCustody.step, NonSyncFreeListBase.getElement_taken (keeps.low ▸ more) isHead]
        rfl
      · rw [byCount, if_pos more]
        rfl
    · refine ⟨_, .allocated fresh, _, ?_, keeps.allocated proper (.getElement fresh), ?_⟩
      · rw [NodeCustody.step, NonSyncFreeListBase.getElement_allocated (keeps.low ▸ more)]
        rfl
      · rw [byCount, if_neg more]
        rfl
  | releaseElement elem =>
    by_cases room : custody.list.freeListSize < highWaterMark
    · obtain ⟨next, releases, queue⟩ := NonSyncFreeListBase.releaseElement_kept keeps.queue
        (keeps.free_ne_nil highNonneg lowNonneg) (keeps.not_free proper) (keeps.high ▸ room)
      refine ⟨_, .kept, _, ?_, keeps.kept proper room queue, ?_⟩
      · rw [NodeCustody.step, releases]
        rfl
      · rw [byCount, if_pos room]
        rfl
    · refine ⟨_, .deleted, _, ?_, keeps.deleted proper, ?_⟩
      · rw [NodeCustody.step, NonSyncFreeListBase.releaseElement_deleted (keeps.high ▸ room)]
        rfl
      · rw [byCount, if_neg room]
        rfl

/-- From `init` on, over every run in which `new` returns new addresses and only elements that are
handed out are released: no call goes through a null pointer, the chain of the free nodes has one
node more than the list counts, the count stays between its bounds, and no node is both free and
handed out. -/
theorem free_and_out_apart (highWaterMark lowWaterMark : Int) (highNonneg : 0 ≤ highWaterMark)
    (lowNonneg : 0 ≤ lowWaterMark) (new : Nat → Nat)
    (distinct : ((List.range (highWaterMark.toNat + 1)).map new).Nodup) (calls : List FreeListCall) :
    ∃ list, (FreeList.create highWaterMark lowWaterMark).init new = some list ∧
      (EachStep NodeCustody.step Proper (start list new) calls →
        Throughout NodeCustody.step (Sound highWaterMark lowWaterMark) (start list new) calls) := by
  obtain ⟨list, inits, keeps⟩ := keeps_start highNonneg lowWaterMark distinct
  refine ⟨list, inits, throughout_of_keeps
    (fun custody (kept : ∃ free, Keeps highWaterMark lowWaterMark custody free) => ?_)
    (fun custody call kept proper => ?_) calls _ ⟨_, keeps⟩⟩
  · exact kept.elim fun _ keeps => keeps.sound
  obtain ⟨free, keeps⟩ := kept
  obtain ⟨next, outcome, free, returns, again, -⟩ := keeps.step highNonneg lowNonneg proper
  exact ⟨next, outcome, returns, free, again⟩

/-- Three nodes, of which two may be taken; a new one is made, which then joins the chain, and one
more is deleted. -/
theorem free_and_out_apart_example :
    ∃ list, (FreeList.create 2 0).init id = some list ∧
      Throughout NodeCustody.step (Sound 2 0) (start list id)
        [.getElement 7, .getElement 7, .getElement 7, .releaseElement 7, .releaseElement 0,
          .releaseElement 1, .getElement 1] := by
  obtain ⟨list, inits, throughout⟩ := free_and_out_apart 2 0 (by decide) (by decide) id (by decide)
    [.getElement 7, .getElement 7, .getElement 7, .releaseElement 7, .releaseElement 0,
      .releaseElement 1, .getElement 1]
  refine ⟨list, inits, throughout ?_⟩
  obtain rfl := Option.some.inj (show some _ = some list from inits)
  decide

end NodeCustody

end ObLib
