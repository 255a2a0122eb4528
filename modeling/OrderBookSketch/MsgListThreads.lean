/-
This file models the `MsgList` of Common/include/containers/msglist.hpp when any number
of threads call it at once, one access to shared memory a step.

`put` holds the spin lock of the tail and `get` that of the head, so a `put` and a `get`
run side by side: `put` links its node before it moves the tail, and in between a `get`
may take the node and give back the old one, to which the tail still points. `_size` is
a plain integer that one side raises under its lock and the other lowers under its own.
`peek` takes no lock. The nodes come from `new` and go to `delete`, as they do with the
free list of the constructor without parameters.
-/

import OrderBookSketch.LinkedMsgList
import OrderBookSketch.Library.Interleaving

namespace ObLib

open Runs Chains Interleaving

/-- Where a thread is in a call: the access that it makes next, with its local variables. -/
inductive QueuePlace (Val : Type) where
  | idle
  -- `put`
  | getsElement (val : Val)
  | storesValue (val : Val) (msg : Nat)
  | locksTail (val : Val) (msg : Nat)
  | spinsTail (val : Val) (msg : Nat)
  | readsTail (val : Val) (msg : Nat)
  | linksTail (val : Val) (msg tail : Nat)
  | movesTail (msg : Nat)
  | readsUp
  | writesUp (size : Int)
  | unlocksTail (size : Int)
  -- `get`
  | locksHead
  | spinsHead
  | readsHead
  | readsNext (msg : Nat)
  | readsDown (msg newHead : Nat)
  | writesDown (msg newHead : Nat) (size : Int)
  | readsValue (msg newHead : Nat) (size : Int)
  | movesHead (msg newHead : Nat) (size : Int) (elem : Option Val)
  | clearsValue (msg : Nat) (size : Int) (elem : Val)
  | releases (msg : Nat) (size : Int) (elem : Val)
  | unlocksHead (size : Int) (elem : Option Val)
  -- `peek`
  | peeksHead
  | peeksNext (msg : Nat)
  | peeksValue (newHead : Nat)
  | peeksSize (elem : Option Val)
deriving DecidableEq, Repr

/-- Whether the thread is in no call. -/
def QueuePlace.isIdle {Val : Type} : QueuePlace Val → Bool
  | .idle => true
  | _ => false

theorem QueuePlace.eq_idle {Val : Type} {place : QueuePlace Val} (idle : place.isIdle) :
    place = .idle := by
  cases place <;> first | rfl | cases idle

/-- What a call returns, with what its parameter `elem` is set to; and a `get` that reads a null
link. -/
inductive QueueEvent (Val : Type) where
  | put (size : Int)
  | foundNothing
  | got (size : Int) (elem : Option Val)
  | peeked (size : Int) (elem : Option Val)
deriving DecidableEq, Repr

/-- A call that a thread begins, or its next access, with the address that `new` would return. -/
inductive QueueTurn (Val Thread : Type) where
  | put (thread : Thread) (val : Option Val)
  | get (thread : Thread)
  | peek (thread : Thread)
  | access (thread : Thread) (fresh : Nat)
deriving DecidableEq, Repr

/-- The memory, the fields and the threads, the nodes that exist, and the values whose nodes were
linked and those that `get` returned, in their order. -/
structure MsgListThreads (Val Thread : Type) where
  next : Nat → Option Nat
  value : Nat → Option Val
  head : Nat
  tail : Nat
  size : Int
  lockedHead : Bool
  lockedTail : Bool
  threads : Thread → QueuePlace Val
  live : List Nat
  linked : List Val
  returned : List Val

namespace MsgListThreads

variable {Val Thread : Type} [DecidableEq Thread]

/-- The constructor, with the address of the node that it makes. -/
def create (msg : Nat) : MsgListThreads Val Thread where
  next := fun _ => none
  value := fun _ => none
  head := msg
  tail := msg
  size := 0
  lockedHead := false
  lockedTail := false
  threads := fun _ => .idle
  live := [msg]
  linked := []
  returned := []

def goTo (state : MsgListThreads Val Thread) (thread : Thread) (place : QueuePlace Val) :
    MsgListThreads Val Thread :=
  { state with threads := Function.update state.threads thread place }

/-- An access to a node, which must exist. -/
def onNode {Result : Type} (state : MsgListThreads Val Thread) (node : Nat) (result : Result) :
    Option Result :=
  if node ∈ state.live then some result else none

/-- The next access of a thread that is in a call. -/
def access (state : MsgListThreads Val Thread) (thread : Thread) (fresh : Nat) :
    Option (MsgListThreads Val Thread × Option (QueueEvent Val)) :=
  match state.threads thread with
  | .idle => some (state, none)
  | .getsElement val =>
    let made := { state with
      next := Function.update state.next fresh none
      value := Function.update state.value fresh none
      live := fresh :: state.live }
    some (made.goTo thread (.storesValue val fresh), none)
  | .storesValue val msg => do
    let stored ← state.onNode msg
      { state with value := Function.update state.value msg (some val) }
    return (stored.goTo thread (.locksTail val msg), none)
  | .locksTail val msg =>
    -- the exchange writes `LOCKED` in any case
    if state.lockedTail then some (state.goTo thread (.spinsTail val msg), none)
    else some ({ state with lockedTail := true }.goTo thread (.readsTail val msg), none)
  | .spinsTail val msg =>
    if state.lockedTail then some (state, none)
    else some (state.goTo thread (.locksTail val msg), none)
  | .readsTail val msg => some (state.goTo thread (.linksTail val msg state.tail), none)
  | .linksTail val msg tail => do
    let linked ← state.onNode tail
      { state with
        next := Function.update state.next tail (some msg)
        linked := state.linked ++ [val] }
    return (linked.goTo thread (.movesTail msg), none)
  | .movesTail msg => some ({ state with tail := msg }.goTo thread .readsUp, none)
  | .readsUp => some (state.goTo thread (.writesUp state.size), none)
  | .writesUp size =>
    some ({ state with size := size + 1 }.goTo thread (.unlocksTail (size + 1)), none)
  | .unlocksTail size =>
    some ({ state with lockedTail := false }.goTo thread .idle, some (.put size))
  | .locksHead =>
    if state.lockedHead then some (state.goTo thread .spinsHead, none)
    else some ({ state with lockedHead := true }.goTo thread .readsHead, none)
  | .spinsHead =>
    if state.lockedHead then some (state, none) else some (state.goTo thread .locksHead, none)
  | .readsHead => some (state.goTo thread (.readsNext state.head), none)
  | .readsNext msg => do
    match ← state.onNode msg (state.next msg) with
    | some newHead => return (state.goTo thread (.readsDown msg newHead), none)
    | none => return (state.goTo thread (.unlocksHead 0 none), some .foundNothing)
  | .readsDown msg newHead =>
    some (state.goTo thread (.writesDown msg newHead state.size), none)
  | .writesDown msg newHead size =>
    some ({ state with size := size - 1 }.goTo thread (.readsValue msg newHead (size - 1)), none)
  | .readsValue msg newHead size => do
    let elem ← state.onNode newHead (state.value newHead)
    return (state.goTo thread (.movesHead msg newHead size elem), none)
  | .movesHead msg newHead size elem =>
    let moved := { state with head := newHead }
    match elem with
    | some val => some (moved.goTo thread (.clearsValue msg size val), none)
    | none => some (moved.goTo thread (.unlocksHead size none), none)
  | .clearsValue msg size elem => do
    let cleared ← state.onNode msg { state with value := Function.update state.value msg none }
    return (cleared.goTo thread (.releases msg size elem), none)
  | .releases msg size elem => do
    let released ← state.onNode msg { state with live := state.live.erase msg }
    return (released.goTo thread (.unlocksHead size (some elem)), none)
  | .unlocksHead size elem =>
    let unlocked := { state with
      lockedHead := false
      returned := state.returned ++ elem.toList }
    some (unlocked.goTo thread .idle, some (.got size elem))
  | .peeksHead => some (state.goTo thread (.peeksNext state.head), none)
  | .peeksNext msg => do
    match ← state.onNode msg (state.next msg) with
    | some newHead => return (state.goTo thread (.peeksValue newHead), none)
    | none => return (state.goTo thread (.peeksSize none), none)
  | .peeksValue newHead => do
    let elem ← state.onNode newHead (state.value newHead)
    return (state.goTo thread (.peeksSize elem), none)
  | .peeksSize elem => some (state.goTo thread .idle, some (.peeked state.size elem))

/-- A thread that is in a call begins no other. -/
def step (state : MsgListThreads Val Thread) (turn : QueueTurn Val Thread) :
    Option (MsgListThreads Val Thread × Option (QueueEvent Val)) :=
  match turn with
  | .put thread val =>
    if (state.threads thread).isIdle then
      match val with
      | some val => some (state.goTo thread (.getsElement val), none)
      | none => some (state, some (.put (-1)))
    else some (state, none)
  | .get thread =>
    if (state.threads thread).isIdle then some (state.goTo thread .locksHead, none)
    else some (state, none)
  | .peek thread =>
    if (state.threads thread).isIdle then some (state.goTo thread .peeksHead, none)
    else some (state, none)
  | .access thread fresh => state.access thread fresh

end MsgListThreads

/-! ### What a place holds -/

namespace QueuePlace

variable {Val : Type}

/-- The node that only this thread may write to. -/
def hand : QueuePlace Val → Multiset Nat
  | .storesValue _ msg | .locksTail _ msg | .spinsTail _ msg | .readsTail _ msg
  | .linksTail _ msg _ => {msg}
  | .clearsValue msg _ _ | .releases msg _ _ => {msg}
  | _ => 0

/-- Whether the thread has the lock of the tail. -/
def holdsTail : QueuePlace Val → Nat
  | .readsTail .. | .linksTail .. | .movesTail _ | .readsUp | .writesUp _ | .unlocksTail _ => 1
  | _ => 0

/-- Whether the thread has the lock of the head. -/
def holdsHead : QueuePlace Val → Nat
  | .readsHead | .readsNext _ | .readsDown .. | .writesDown .. | .readsValue .. | .movesHead ..
  | .clearsValue .. | .releases .. | .unlocksHead .. => 1
  | _ => 0

/-- Whether the thread has linked a node to which it has yet to move the tail. -/
def lags : QueuePlace Val → Nat
  | .movesTail _ => 1
  | _ => 0

theorem lags_le_holdsTail (place : QueuePlace Val) : place.lags ≤ place.holdsTail := by
  cases place <;> simp [lags, holdsTail]

/-- The value that the thread has taken out of the queue and not returned yet. -/
def taken : QueuePlace Val → Multiset Val
  | .clearsValue _ _ elem | .releases _ _ elem => {elem}
  | .unlocksHead _ (some elem) => {elem}
  | _ => 0

theorem taken_eq_zero {place : QueuePlace Val} (free : place.holdsHead = 0) : place.taken = 0 := by
  cases place <;> first | rfl | cases free

/-- Whether the thread has a value on its way that is linked and neither counted nor returned. -/
def owed : QueuePlace Val → Nat
  | .movesTail _ | .readsUp | .writesUp _ => 1
  | .readsValue .. | .movesHead .. | .clearsValue .. | .releases .. | .unlocksHead _ (some _) => 1
  | _ => 0

/-- The count that the thread has read and is about to write a new one over. -/
def readSize : QueuePlace Val → Option Int
  | .writesUp size | .writesDown _ _ size => some size
  | _ => none

/-- Whether the thread is about to make a node. -/
def makes : QueuePlace Val → Bool
  | .getsElement _ => true
  | _ => false

/-- The node that the thread is about to delete. -/
def deletes : QueuePlace Val → Option Nat
  | .releases msg _ _ => some msg
  | _ => none

/-- The node that a `peek` is about to read. -/
def peeks : QueuePlace Val → Option Nat
  | .peeksNext msg => some msg
  | .peeksValue newHead => some newHead
  | _ => none

/-- What the thread relies on that it has read or written before. -/
def Knows (next : Nat → Option Nat) (value : Nat → Option Val) (head : Nat) (last : Option Nat)
    (live : List Nat) : QueuePlace Val → Prop
  | .storesValue _ msg => next msg = none
  | .locksTail val msg | .spinsTail val msg | .readsTail val msg =>
    next msg = none ∧ value msg = some val
  | .linksTail val msg tail => (next msg = none ∧ value msg = some val) ∧ last = some tail
  | .movesTail msg => last = some msg
  | .readsNext msg => msg = head
  | .readsDown msg newHead | .writesDown msg newHead _ | .readsValue msg newHead _ =>
    msg = head ∧ next msg = some newHead
  | .movesHead msg newHead _ elem => (msg = head ∧ next msg = some newHead) ∧ elem = value newHead
  | .clearsValue msg _ _ | .releases msg _ _ => next msg = some head
  | .peeksNext node | .peeksValue node => node ∈ live
  | _ => True

variable {next next' : Nat → Option Nat} {value value' : Nat → Option Val} {head head' : Nat}
  {last last' : Option Nat} {live live' : List Nat} {place : QueuePlace Val}

/-- A thread relies on nothing but the node in its hand, the ends of the queue that it has locked
and, in a `peek`, that the node exists. -/
theorem Knows.congr (knows : place.Knows next value head last live)
    (sameHand : ∀ node ∈ place.hand, next' node = next node ∧ value' node = value node)
    (sameLast : place.holdsTail = 1 → last' = last)
    (sameHead : place.holdsHead = 1 → head' = head ∧ ∀ newHead, next head = some newHead →
      next' head = some newHead ∧ value' newHead = value newHead)
    (sameLive : ∀ node, place.peeks = some node → node ∈ live → node ∈ live') :
    place.Knows next' value' head' last' live' := by
  cases place with
  | storesValue val msg => exact (sameHand msg (Multiset.mem_singleton_self _)).1.trans knows
  | locksTail val msg | spinsTail val msg | readsTail val msg =>
    obtain ⟨sameNext, sameValue⟩ := sameHand msg (Multiset.mem_singleton_self _)
    exact ⟨sameNext.trans knows.1, sameValue.trans knows.2⟩
  | linksTail val msg tail =>
    obtain ⟨sameNext, sameValue⟩ := sameHand msg (Multiset.mem_singleton_self _)
    exact ⟨⟨sameNext.trans knows.1.1, sameValue.trans knows.1.2⟩, (sameLast rfl).trans knows.2⟩
  | movesTail msg => exact (sameLast rfl).trans knows
  | readsNext msg => exact knows.trans (sameHead rfl).1.symm
  | readsDown msg newHead | writesDown msg newHead size | readsValue msg newHead size =>
    obtain ⟨rfl, isNext⟩ := knows
    obtain ⟨rfl, same⟩ := sameHead rfl
    exact ⟨rfl, (same newHead isNext).1⟩
  | movesHead msg newHead size elem =>
    obtain ⟨⟨rfl, isNext⟩, rfl⟩ := knows
    obtain ⟨rfl, same⟩ := sameHead rfl
    exact ⟨⟨rfl, (same newHead isNext).1⟩, (same newHead isNext).2.symm⟩
  | clearsValue msg size elem | releases msg size elem =>
    obtain ⟨rfl, -⟩ := sameHead rfl
    exact (sameHand msg (Multiset.mem_singleton_self _)).1.trans knows
  | peeksNext node | peeksValue node => exact sameLive node rfl knows
  | _ => trivial

/-- A node in a hand has no link yet, or it was the head and leads to the head. -/
theorem next_of_hand (knows : place.Knows next value head last live) {node : Nat}
    (inHand : node ∈ place.hand) : next node = none ∨ next node = some head := by
  cases place with
  | storesValue val msg => exact .inl (Multiset.mem_singleton.mp inHand ▸ knows)
  | locksTail val msg | spinsTail val msg | readsTail val msg =>
    exact .inl (Multiset.mem_singleton.mp inHand ▸ knows.1)
  | linksTail val msg tail => exact .inl (Multiset.mem_singleton.mp inHand ▸ knows.1.1)
  | clearsValue msg size elem | releases msg size elem =>
    exact .inr (Multiset.mem_singleton.mp inHand ▸ knows)
  | _ => exact absurd inHand (Multiset.notMem_zero node)

end QueuePlace

namespace MsgListThreads

variable {Val Thread : Type} [Fintype Thread]

/-- `new` returns the address of no node that exists, and no node is deleted that a `peek` is about
to read. -/
def Proper (state : MsgListThreads Val Thread) : QueueTurn Val Thread → Prop
  | .access thread fresh =>
    ((state.threads thread).makes → fresh ∉ state.live) ∧
      ∀ other, (state.threads thread).deletes ≠ none →
        (state.threads other).peeks ≠ (state.threads thread).deletes
  | _ => True

instance [DecidableEq Thread] :
    DecidableRel (Proper : MsgListThreads Val Thread → QueueTurn Val Thread → Prop)
  | state, .access thread fresh =>
    inferInstanceAs (Decidable (((state.threads thread).makes → fresh ∉ state.live) ∧
      ∀ other, (state.threads thread).deletes ≠ none →
        (state.threads other).peeks ≠ (state.threads thread).deletes))
  | _, .put .. => .isTrue trivial
  | _, .get _ => .isTrue trivial
  | _, .peek _ => .isTrue trivial

/-- The nodes from the head on are linked and carry the values that were put and not taken, in the
order in which their nodes were linked; each lock has one holder where it is locked; the tail is the
last node unless a thread has yet to move it; every node that exists is in the queue or in the hand
of one thread, and only there. -/
structure Keeps (state : MsgListThreads Val Thread) (vals : List Val) (rest : List Nat) : Prop where
  chain : Linked state.next (some state.head) (state.head :: rest)
  values : Carries state.value rest vals
  tail : held QueuePlace.lags state.threads = 0 →
    (state.head :: rest).getLast? = some state.tail
  lockTail : held QueuePlace.holdsTail state.threads = if state.lockedTail then 1 else 0
  lockHead : held QueuePlace.holdsHead state.threads = if state.lockedHead then 1 else 0
  account : (state.live : Multiset Nat) =
    (state.head :: rest : List Nat) + held QueuePlace.hand state.threads
  distinct : state.live.Nodup
  order : ∃ inHand : List Val, (inHand : Multiset Val) = held QueuePlace.taken state.threads ∧
    state.linked = state.returned ++ inHand ++ vals
  knows : ∀ thread, (state.threads thread).Knows state.next state.value state.head
    (state.head :: rest).getLast? state.live

end MsgListThreads

end ObLib
