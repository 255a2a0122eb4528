/-
This file models the `MsgList` of Common/include/containers/msglist.hpp down to its
nodes and proves that it is a first-in-first-out queue that gives every node back once.

The head is a node without a value of its own: `get` returns the value of the node
behind it and releases the head, whose place that node takes. So a node is released by
the `get` that comes after the one for its value. A node is the address of its object.
The node that `getElement` returns comes with the call; every free list of
allocator.hpp hands it out with a null `_next`. Locks are left out.
-/

import OrderBookSketch.Library.Chain
import OrderBookSketch.Referencer

namespace ObLib

open Runs Chains

/-- The memory, the fields, and what has been asked for and given back: the nodes that the list got,
the first of them from its constructor, and those that it released, as they came. -/
structure LinkedMsgList (Val : Type) where
  next : Nat → Option Nat
  value : Nat → Option Val
  head : Nat
  tail : Nat
  size : Int
  handed : List Nat
  released : List Nat

/-- A call, with the node that `getElement` returns in it. -/
inductive ListCall (Val : Type) where
  | put (val : Option Val) (node : Nat)
  | get
  | peek
deriving DecidableEq, Repr

namespace LinkedMsgList

variable {Val : Type}

/-- The constructor, with the address of the node that it makes. -/
def create (msg : Nat) : LinkedMsgList Val where
  next := fun _ => none
  value := fun _ => none
  head := msg
  tail := msg
  size := 0
  handed := [msg]
  released := []

/-- `_freeList->getElement()`, which returns the given node. -/
def getElement (list : LinkedMsgList Val) (node : Nat) : LinkedMsgList Val :=
  { list with next := Function.update list.next node none, handed := list.handed ++ [node] }

/-- `_freeList->releaseElement(msg)`. -/
def releaseElement (list : LinkedMsgList Val) (msg : Nat) : LinkedMsgList Val :=
  { list with released := list.released ++ [msg] }

def put (list : LinkedMsgList Val) (val : Option Val) (node : Nat) : LinkedMsgList Val × Int :=
  match val with
  | none => (list, -1)
  | some val =>
    let list := list.getElement node
    let list := { list with value := Function.update list.value node (some val) }
    let list := { list with next := Function.update list.next list.tail (some node) }
    let list := { list with tail := node }
    ({ list with size := list.size + 1 }, list.size + 1)

/-- The second result is what the parameter `elem` is set to. -/
def get (list : LinkedMsgList Val) : LinkedMsgList Val × Int × Option Val :=
  let msg := list.head
  let (list, size, elem) :=
    match list.next msg with
    | some newHead =>
      ({ list with size := list.size - 1, head := newHead }, list.size - 1, list.value newHead)
    | none => (list, 0, none)
  match elem with
  | some _ =>
    let list := { list with value := Function.update list.value msg none }
    (list.releaseElement msg, size, elem)
  | none => (list, size, elem)

/-- The second result is what the parameter `elem` is set to. -/
def peek (list : LinkedMsgList Val) : Int × Option Val :=
  (list.size, (list.next list.head).bind list.value)

/-- A call, what it returns and the value that it yields. -/
def step (list : LinkedMsgList Val) : ListCall Val → Option (LinkedMsgList Val × Int × Option Val)
  | .put val node =>
    let (list, size) := list.put val node
    some (list, size, none)
  | .get => some list.get
  | .peek => some (list, list.peek)

/-- The nodes from the head on. -/
def nodes (list : LinkedMsgList Val) : List Nat :=
  follow list.next (list.size.toNat + 1) (some list.head)

end LinkedMsgList

/-! ### The queue -/

section Fifo

variable {Val : Type}

/-- What the calls do to a queue of values. -/
def fifoStep : List Val → ListCall Val → List Val × Int × Option Val
  | vals, .put none _ => (vals, -1, none)
  | vals, .put (some val) _ => (vals ++ [val], vals.length + 1, none)
  | [], .get => ([], 0, none)
  | val :: vals, .get => (vals, vals.length, some val)
  | vals, .peek => (vals, vals.length, vals.head?)

/-- The list without nodes, which counts as it goes, is such a queue. -/
theorem msgList_put (vals : List Val) (val : Val) (node : Nat) :
    MsgList.put ⟨vals, vals.length⟩ val =
      (⟨(fifoStep vals (.put (some val) node)).1, (fifoStep vals (.put (some val) node)).1.length⟩,
        (fifoStep vals (.put (some val) node)).2.1) := by
  simp [MsgList.put, fifoStep]

theorem msgList_get (vals : List Val) :
    MsgList.get ⟨vals, vals.length⟩ =
      (⟨(fifoStep vals .get).1, (fifoStep vals .get).1.length⟩, (fifoStep vals .get).2) := by
  cases vals <;> simp [MsgList.get, fifoStep]

theorem msgList_peek (vals : List Val) :
    MsgList.peek ⟨vals, vals.length⟩ = (fifoStep vals .peek).2 := by
  cases vals <;> rfl

end Fifo

namespace LinkedMsgList

variable {Val : Type} {list : LinkedMsgList Val} {vals : List Val} {rest : List Nat}

/-- The free list never hands out a node that is in the list. -/
def Proper (list : LinkedMsgList Val) : ListCall Val → Prop
  | .put (some _) node => node ∉ list.nodes
  | _ => True

instance : DecidableRel (@Proper Val)
  | list, .put (some _) node => inferInstanceAs (Decidable (node ∉ list.nodes))
  | _, .put none _ => .isTrue trivial
  | _, .get => .isTrue trivial
  | _, .peek => .isTrue trivial

/-- A node is released by a `get` that yields a value, and it was the head before and is not in the
list any more. -/
def ReleasesHead (list : LinkedMsgList Val) (next : LinkedMsgList Val) :
    ListCall Val → Option Val → Prop
  | .get, some _ => next.released = list.released ++ [list.head] ∧ list.head ∉ next.nodes
  | _, _ => next.released = list.released

/-- The call returns and yields what the queue does, it releases at most the old head, and the nodes
that were released and those that are left are those that the list got, each once. -/
def Lawful (before : LinkedMsgList Val × List Val) (call : ListCall Val)
    (returned : Int × Option Val) (after : LinkedMsgList Val × List Val) : Prop :=
  returned = (fifoStep before.2 call).2 ∧ ReleasesHead before.1 after.1 call returned.2 ∧
    after.1.released ++ after.1.nodes = after.1.handed

/-- The list holds the values of a queue, in the nodes behind its head. -/
structure Holds (list : LinkedMsgList Val) (vals : List Val) (rest : List Nat) : Prop where
  queue : Queue list.next (some list.head) (some list.tail) (list.head :: rest)
  values : Carries list.value rest vals
  size : list.size = vals.length
  account : list.released ++ list.head :: rest = list.handed

theorem holds_create (msg : Nat) : Holds (create msg : LinkedMsgList Val) [] [] where
  queue := ⟨⟨rfl, rfl⟩, rfl⟩
  values := rfl
  size := rfl
  account := rfl

/-- The nodes from the head on are those of the chain. -/
theorem Holds.nodes_eq (holds : Holds list vals rest) : list.nodes = list.head :: rest := by
  have length : (list.head :: rest).length = list.size.toNat + 1 := by
    rw [holds.size, Int.toNat_natCast, List.length_cons, holds.values.length_eq]
  exact holds.queue.linked.follow_eq (Nat.le_of_eq length)

theorem Holds.account_nodes (holds : Holds list vals rest) :
    list.released ++ list.nodes = list.handed := by rw [holds.nodes_eq, holds.account]

/-! ### Calls -/

theorem Holds.put (holds : Holds list vals rest) (val : Val) {node : Nat}
    (absent : node ∉ list.nodes) :
    (list.put (some val) node).2 = vals.length + 1 ∧
      Holds (list.put (some val) node).1 (vals ++ [val]) (rest ++ [node]) := by
  rw [holds.nodes_eq] at absent
  obtain ⟨last, inNodes, isTail⟩ := holds.queue.exists_last (List.cons_ne_nil _ _)
  obtain rfl := Option.some.inj isTail
  have notTail : node ≠ list.tail := fun same => absent (same ▸ inNodes)
  refine ⟨congrArg (· + 1) holds.size, ?_, ?_, ?_, ?_⟩
  · refine holds.queue.append (Function.update_self ..) ?_ fun member inNodes other => ?_
    · exact (Function.update_of_ne notTail ..).trans (Function.update_self ..)
    · exact (Function.update_of_ne other ..).trans
        (Function.update_of_ne (ne_of_mem_of_not_mem inNodes absent) ..)
  · have kept : Carries (Function.update list.value node (some val)) rest vals :=
      holds.values.congr fun member inRest =>
        Function.update_of_ne (ne_of_mem_of_not_mem (List.mem_cons_of_mem _ inRest) absent) ..
    exact kept.append (Function.update_self ..)
  · show list.size + 1 = _
    rw [holds.size, List.length_append]
    rfl
  · show list.released ++ list.head :: (rest ++ [node]) = list.handed ++ [node]
    rw [← holds.account, List.append_assoc, List.cons_append]

theorem Holds.get_nil (holds : Holds list [] rest) : list.get = (list, 0, none) := by
  obtain rfl := List.eq_nil_of_length_eq_zero holds.values.length_eq
  have ends : list.next list.head = none := holds.queue.linked.2
  simp only [LinkedMsgList.get, ends]

/-- The first value is taken, and its node is the head from then on. -/
theorem Holds.get_cons {val : Val} (holds : Holds list (val :: vals) rest) :
    list.get.2 = ((vals.length : Int), some val) ∧ list.get.1.released = list.released ++ [list.head] ∧
      list.head ∉ list.get.1.head :: rest.tail ∧ Holds list.get.1 vals rest.tail := by
  match rest, holds with
  | [], holds => cases holds.values.length_eq
  | node :: rest, holds =>
    obtain ⟨absent, distinct⟩ := List.nodup_cons.mp holds.queue.linked.nodup
    have isNext : list.next list.head = some node := holds.queue.linked.2.1
    obtain ⟨first, others⟩ := holds.values.of_cons
    have size : list.size - 1 = vals.length := by
      rw [holds.size, List.length_cons]
      push_cast
      omega
    have gets : list.get = ({ list with
        value := Function.update list.value list.head none
        head := node
        size := list.size - 1
        released := list.released ++ [list.head] }, (vals.length : Int), some val) := by
      simp only [LinkedMsgList.get, isNext, first, ← size]
      rfl
    rw [gets]
    refine ⟨rfl, rfl, absent, ?_, ?_, size, ?_⟩
    · exact isNext ▸ holds.queue.tail_of_cons
    · exact others.congr fun member inRest => Function.update_of_ne
        (ne_of_mem_of_not_mem (List.mem_cons_of_mem _ inRest) absent) none list.value
    · show list.released ++ [list.head] ++ node :: rest = list.handed
      rw [← holds.account, List.append_assoc]
      rfl

theorem Holds.peek (holds : Holds list vals rest) : list.peek = ((vals.length : Int), vals.head?) := by
  refine Prod.ext holds.size ?_
  show (list.next list.head).bind list.value = vals.head?
  have linked := holds.queue.linked.2
  have values := holds.values
  match rest, vals, values with
  | [], [], _ => rw [show list.next list.head = none from linked]; rfl
  | node :: rest, val :: vals, values =>
    rw [linked.1]
    exact values.of_cons.1

/-- A proper call does what the queue does. -/
theorem Holds.step (holds : Holds list vals rest) {call : ListCall Val} (proper : Proper list call) :
    ∃ next returned rest, list.step call = some (next, returned) ∧
      Lawful (list, vals) call returned (next, (fifoStep vals call).1) ∧
      Holds next (fifoStep vals call).1 rest := by
  match call, vals with
  | .put none node, vals =>
    exact ⟨list, _, rest, rfl, ⟨rfl, rfl, holds.account_nodes⟩, holds⟩
  | .put (some val) node, vals =>
    obtain ⟨size, again⟩ := holds.put val proper
    exact ⟨(list.put (some val) node).1, ((list.put (some val) node).2, none), _, rfl,
      ⟨Prod.ext size rfl, rfl, again.account_nodes⟩, again⟩
  | .get, [] =>
    refine ⟨list, _, rest, congrArg some holds.get_nil, ⟨rfl, rfl, holds.account_nodes⟩, holds⟩
  | .get, val :: vals =>
    obtain ⟨returned, releases, gone, again⟩ := holds.get_cons
    rw [← again.nodes_eq] at gone
    refine ⟨list.get.1, list.get.2, _, rfl, ⟨returned, ?_, again.account_nodes⟩, again⟩
    rw [returned]
    exact ⟨releases, gone⟩
  | .peek, vals =>
    refine ⟨list, _, rest, rfl, ⟨?_, ?_, holds.account_nodes⟩, holds⟩
    · rw [holds.peek]
      cases vals <;> rfl
    · rfl

/-! ### Every run -/

/-- From the constructor on, over every run in which the free list never hands out a node that is in
the list: every call returns and yields what a first-in-first-out queue does, a node is released
only when it is no longer the head, and every node that the list got is still in it or was released
once. -/
theorem fifo_and_released_once (msg : Nat) (calls : List (ListCall Val))
    (fits : EachStep (beside LinkedMsgList.step fun vals call => (fifoStep vals call).1)
      (fun state call => Proper state.1 call) (create msg, []) calls) :
    EachReturn (beside LinkedMsgList.step fun vals call => (fifoStep vals call).1) Lawful
      (create msg, []) calls := by
  refine eachReturn_of_keeps
    (fun state call (held : ∃ rest, Holds state.1 state.2 rest) proper => ?_) calls _ ⟨[], holds_create msg⟩ fits
  obtain ⟨list, vals⟩ := state
  obtain ⟨rest, holds⟩ := held
  obtain ⟨next, returned, restNext, returns, lawful, again⟩ := holds.step proper
  exact ⟨(next, _), returned, by rw [beside, returns]; rfl, lawful, restNext, again⟩

/-- Two values are put, one is taken, and the node that is released for it is used again. -/
theorem fifo_and_released_once_example :
    EachReturn (beside LinkedMsgList.step fun vals call => (fifoStep vals call).1) Lawful
      ((create 0 : LinkedMsgList String), [])
      [.get, .put (some "a") 1, .put none 1, .put (some "b") 2, .peek, .get, .put (some "c") 0, .get,
        .get, .get] :=
  fifo_and_released_once 0 _ (by decide)

end LinkedMsgList

end ObLib
