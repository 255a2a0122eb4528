/-
This file models `LocklessQ` of Common/include/containers/LocklessQ.hpp when any number
of threads call it at once, one access to shared memory a step.

An access comes with whether the weak exchange that it makes fails without a reason. The
field `_emptyNode` is the expected argument of the exchange of `_tmpAtomic` and counts as
a part of it. Nodes are never deleted, so a node is the number of those made before it.
The constructor leaves `_size` as it finds it, and as it is unsigned a `dequeue` that
counts before the `enqueue` of its value does may bring it below zero, which is 2^64 - 1.
-/

import OrderBookSketch.LocklessQ
import OrderBookSketch.Library.Interleaving
import Mathlib.Data.BitVec

namespace ObLib

open Runs Chains Interleaving

/-- Where a thread is in a call: the access that it makes next, with its local variables and, until
its node is linked, the value of an `enqueue`. -/
inductive LocklessPlace (T : Type) where
  | idle
  -- `enqueue`
  | makesNode (data : T)
  | readsTail (data : T) (newNode : Nat)
  | readsLink (data : T) (newNode : Nat) (tmp : Option Nat)
  | storesLink (data : T) (newNode tmp : Nat) (link : Option Nat)
  | exchangesLink (data : T) (newNode tmp : Nat)
  | loadsLink (data : T) (newNode tmp : Nat) (succ : Bool)
  | writesLink (data : T) (newNode tmp : Nat) (succ : Bool) (link : Option Nat)
  | readsLinkAgain (data : T) (newNode tmp : Nat)
  | movesTail (data : T) (newNode tmp : Nat) (link : Option Nat)
  | exchangesTail (newNode tmp : Nat)
  | countsUp
  -- `dequeue`
  | readsHead
  | checksLink (tmp : Option Nat)
  | readsNext (tmp : Nat)
  | movesHead (tmp : Nat) (link : Option Nat)
  | readsTaken (tmp : Nat)
  | readsData (link : Option Nat)
  | countsDown (data : Option T)
deriving DecidableEq, Repr

/-- Whether the thread is in no call. -/
def LocklessPlace.isIdle {T : Type} : LocklessPlace T → Bool
  | .idle => true
  | _ => false

theorem LocklessPlace.eq_idle {T : Type} {place : LocklessPlace T} (idle : place.isIdle) :
    place = .idle := by
  cases place <;> first | rfl | cases idle

/-- What a call returns, with what the parameter `data` is set to. -/
inductive LocklessEvent (T : Type) where
  | enqueued
  | foundNothing
  | dequeued (data : Option T)
deriving DecidableEq, Repr

/-- A call that a thread begins, or its next access, and whether the exchange of this access fails
without a reason. -/
inductive LocklessTurn (T Thread : Type) where
  | enqueue (thread : Thread) (data : T)
  | dequeue (thread : Thread)
  | access (thread : Thread) (fails : Bool)
deriving DecidableEq, Repr

/-- The memory with the number of nodes that were made, the fields and the threads; the values that
`enqueue` was called with, those that were taken off the queue and those that `dequeue` returned,
with the threads that took them, in their order. -/
structure LocklessQThreads (T Thread : Type) where
  next : Nat → Option Nat
  data : Nat → Option T
  made : Nat
  head : Option Nat
  tail : Option Nat
  size : BitVec 64
  tmpAtomic : Option Nat
  emptyNode : Option Nat
  threads : Thread → LocklessPlace T
  put : List T
  taken : List (Thread × T)
  returned : List (Thread × T)

namespace LocklessQThreads

variable {T Thread : Type} [DecidableEq Thread]

/-- The constructor, with what it finds in `_size`. `_tmpAtomic` is stored before it is read. -/
def create (size : BitVec 64) : LocklessQThreads T Thread where
  next := fun _ => none
  data := fun _ => none
  made := 1
  head := some 0
  tail := some 0
  size := size
  tmpAtomic := none
  emptyNode := none
  threads := fun _ => .idle
  put := []
  taken := []
  returned := []

def goTo (state : LocklessQThreads T Thread) (thread : Thread) (place : LocklessPlace T) :
    LocklessQThreads T Thread :=
  { state with threads := Function.update state.threads thread place }

/-- The next access of a thread that is in a call. A null pointer must not be followed. -/
def access (state : LocklessQThreads T Thread) (thread : Thread) (fails : Bool) :
    Option (LocklessQThreads T Thread × Option (LocklessEvent T)) :=
  match state.threads thread with
  | .idle => some (state, none)
  | .makesNode data =>
    let made := { state with
      next := Function.update state.next state.made none
      data := Function.update state.data state.made (some data)
      made := state.made + 1 }
    some (made.goTo thread (.readsTail data state.made), none)
  | .readsTail data newNode => some (state.goTo thread (.readsLink data newNode state.tail), none)
  | .readsLink data newNode tmp => do
    let tmp ← tmp
    return (state.goTo thread (.storesLink data newNode tmp (state.next tmp)), none)
  | .storesLink data newNode tmp link =>
    some ({ state with tmpAtomic := link }.goTo thread (.exchangesLink data newNode tmp), none)
  | .exchangesLink data newNode tmp =>
    let (tmpAtomic, emptyNode, succ) :=
      exchangeWeak [fails] state.tmpAtomic state.emptyNode (some newNode)
    let exchanged := { state with tmpAtomic, emptyNode }
    some (exchanged.goTo thread (.loadsLink data newNode tmp succ), none)
  | .loadsLink data newNode tmp succ =>
    some (state.goTo thread (.writesLink data newNode tmp succ state.tmpAtomic), none)
  | .writesLink data newNode tmp succ link =>
    let written := { state with next := Function.update state.next tmp link }
    if succ then some (written.goTo thread (.exchangesTail newNode tmp), none)
    else some (written.goTo thread (.readsLinkAgain data newNode tmp), none)
  | .readsLinkAgain data newNode tmp =>
    some (state.goTo thread (.movesTail data newNode tmp (state.next tmp)), none)
  | .movesTail data newNode tmp link =>
    let (tail, _, _) := exchangeWeak [fails] state.tail (some tmp) link
    some ({ state with tail }.goTo thread (.readsTail data newNode), none)
  | .exchangesTail newNode tmp =>
    let (tail, _, _) := exchangeWeak [fails] state.tail (some tmp) (some newNode)
    some ({ state with tail }.goTo thread .countsUp, none)
  | .countsUp =>
    some ({ state with size := state.size + 1 }.goTo thread .idle, some .enqueued)
  | .readsHead => some (state.goTo thread (.checksLink state.head), none)
  | .checksLink tmp => do
    let tmp ← tmp
    match state.next tmp with
    | none => return (state.goTo thread .idle, some .foundNothing)
    | some _ => return (state.goTo thread (.readsNext tmp), none)
  | .readsNext tmp => some (state.goTo thread (.movesHead tmp (state.next tmp)), none)
  | .movesHead tmp link =>
    let (head, _, succ) := exchangeWeak [fails] state.head (some tmp) link
    let exchanged := { state with head }
    if succ then
      let took := (link.bind state.data).toList.map (thread, ·)
      some ({ exchanged with taken := state.taken ++ took }.goTo thread (.readsTaken tmp), none)
    else some (exchanged.goTo thread .readsHead, none)
  | .readsTaken tmp => some (state.goTo thread (.readsData (state.next tmp)), none)
  | .readsData link => do
    let node ← link
    return (state.goTo thread (.countsDown (state.data node)), none)
  | .countsDown data =>
    let counted := { state with
      size := state.size - 1
      returned := state.returned ++ data.toList.map (thread, ·) }
    some (counted.goTo thread .idle, some (.dequeued data))

/-- A thread that is in a call begins no other. -/
def step (state : LocklessQThreads T Thread) (turn : LocklessTurn T Thread) :
    Option (LocklessQThreads T Thread × Option (LocklessEvent T)) :=
  match turn with
  | .enqueue thread data =>
    if (state.threads thread).isIdle then
      some ({ state with put := state.put ++ [data] }.goTo thread (.makesNode data), none)
    else some (state, none)
  | .dequeue thread =>
    if (state.threads thread).isIdle then some (state.goTo thread .readsHead, none)
    else some (state, none)
  | .access thread fails => state.access thread fails

end LocklessQThreads

/-! ### What a place holds -/

namespace LocklessPlace

variable {T : Type}

/-- Whether the thread is in an `enqueue`. -/
def enqueues : LocklessPlace T → Nat
  | .makesNode _ | .readsTail .. | .readsLink .. | .storesLink .. | .exchangesLink ..
  | .loadsLink .. | .writesLink .. | .readsLinkAgain .. | .movesTail .. | .exchangesTail ..
  | .countsUp => 1
  | _ => 0

/-- The value of an `enqueue` that is not linked yet. -/
def onItsWay : LocklessPlace T → Multiset T
  | .makesNode data | .readsTail data _ | .readsLink data .. | .storesLink data ..
  | .exchangesLink data .. | .loadsLink data .. | .writesLink data .. | .readsLinkAgain data ..
  | .movesTail data .. => {data}
  | _ => 0

/-- What the thread has yet to count: a value that it has linked, or one that it has taken. -/
def owes : LocklessPlace T → Int
  | .exchangesTail .. | .countsUp => 1
  | .readsTaken _ | .readsData _ | .countsDown _ => -1
  | _ => 0

/-- The value that the thread has taken and not returned yet. -/
def pending (next : Nat → Option Nat) (data : Nat → Option T) : LocklessPlace T → Option T
  | .readsTaken tmp => (next tmp).bind data
  | .readsData link => link.bind data
  | .countsDown data => data
  | _ => none

/-- Whether the thread has linked its node and has yet to try and move the tail. -/
def lags : LocklessPlace T → Nat
  | .exchangesTail .. => 1
  | _ => 0

theorem onItsWay_eq_zero {place : LocklessPlace T} (free : place.enqueues = 0) :
    place.onItsWay = 0 := by
  cases place <;> first | rfl | cases free

end LocklessPlace

namespace LocklessQThreads

variable {T Thread : Type}

/-- The values of a thread. -/
def valuesOf [DecidableEq Thread] (thread : Thread) (vals : List (Thread × T)) : List T :=
  (vals.filter (·.1 = thread)).map Prod.snd

/-- What a thread in a `dequeue` relies on: the node that it has read in the head is still there, or
the head has moved on from it, and a link that it has seen is still set. -/
def KnowsChain (state : LocklessQThreads T Thread) (nodes : List Nat) : LocklessPlace T → Prop
  | .checksLink tmp =>
    ∃ index node, index ≤ state.taken.length ∧ nodes[index]? = some node ∧ tmp = some node
  | .readsNext tmp => ∃ node, state.next tmp = some node
  | .movesHead tmp link => ∃ node, link = some node ∧ state.next tmp = some node
  | .readsTaken tmp => ∃ node val, state.next tmp = some node ∧ state.data node = some val
  | .readsData link => ∃ node val, link = some node ∧ state.data node = some val
  | .countsDown data => data ≠ none
  | _ => True

/-- The node of an `enqueue` is not in the chain and carries the value. -/
def Prepared (state : LocklessQThreads T Thread) (nodes : List Nat) (data : T) (newNode : Nat) :
    Prop :=
  newNode ∉ nodes ∧ newNode < state.made ∧ state.next newNode = none ∧
    state.data newNode = some data

/-- What a thread in an `enqueue` relies on: the tail that it has read is still there, and what it
has read of the link there and of `_tmpAtomic`. -/
def KnowsTail (state : LocklessQThreads T Thread) (nodes : List Nat) : LocklessPlace T → Prop
  | .readsTail data newNode => state.Prepared nodes data newNode
  | .readsLink data newNode tmp => state.Prepared nodes data newNode ∧ state.tail = tmp
  | .storesLink data newNode tmp link | .movesTail data newNode tmp link =>
    state.Prepared nodes data newNode ∧ state.tail = some tmp ∧ link = state.next tmp
  | .exchangesLink data newNode tmp =>
    state.Prepared nodes data newNode ∧ state.tail = some tmp ∧ state.tmpAtomic = state.next tmp
  | .loadsLink data newNode tmp succ =>
    state.Prepared nodes data newNode ∧ state.tail = some tmp ∧ state.emptyNode = state.next tmp ∧
      state.tmpAtomic = if succ then some newNode else state.next tmp
  | .writesLink data newNode tmp succ link =>
    state.Prepared nodes data newNode ∧ state.tail = some tmp ∧ state.emptyNode = state.next tmp ∧
      link = if succ then some newNode else state.next tmp
  | .readsLinkAgain data newNode tmp =>
    state.Prepared nodes data newNode ∧ state.tail = some tmp
  | .exchangesTail newNode tmp =>
    state.tail = some tmp ∧ state.next tmp = some newNode ∧ nodes.getLast? = some newNode
  | _ => True

/-- What can be seen of the queue: the chain from the first node on carries the values that were
linked; those that were put are these and, behind them, the one on its way in an `enqueue`; those
that were taken are the first of them, and the head is as far; every thread returns what it took, in
this order and each value once; the tail is the last node or the one in front of it; and `_size` has
counted what was linked and taken but for what the threads owe. -/
structure Account [Fintype Thread] [DecidableEq Thread] (size : BitVec 64)
    (state : LocklessQThreads T Thread) (rest : List Nat) (vals : List T) : Prop where
  chain : Linked state.next (some 0) (0 :: rest)
  values : Carries state.data rest vals
  put : ∃ way : List T, (way : Multiset T) = held LocklessPlace.onItsWay state.threads ∧
    state.put = vals ++ way
  taken : state.taken.map Prod.snd = vals.take state.taken.length
  head : state.taken.length ≤ rest.length ∧ state.head = (0 :: rest)[state.taken.length]?
  each : ∀ thread, valuesOf thread state.taken = valuesOf thread state.returned ++
    ((state.threads thread).pending state.next state.data).toList
  tail : ∃ tmp last, state.tail = some tmp ∧ (0 :: rest).getLast? = some last ∧
    (tmp = last ∨ state.next tmp = some last)
  size : state.size = size +
    ((vals.length - state.taken.length - held LocklessPlace.owes state.threads : Int) : BitVec 64)

/-- No node is in use before it is made, `_emptyNode` is null or the last node, one thread at most
is in an `enqueue`, and what the threads have read is still so. -/
structure Keeps [Fintype Thread] [DecidableEq Thread] (size : BitVec 64)
    (state : LocklessQThreads T Thread) (rest : List Nat) (vals : List T) : Prop
    extends Account size state rest vals where
  made : ∀ node ∈ 0 :: rest, node < state.made
  unmade : ∀ node, state.made ≤ node → state.next node = none ∧ state.data node = none
  expected : state.emptyNode = none ∨ state.emptyNode = (0 :: rest).getLast?
  one : held LocklessPlace.enqueues state.threads ≤ 1
  knowsChain : ∀ thread, state.KnowsChain (0 :: rest) (state.threads thread)
  knowsTail : ∀ thread, state.KnowsTail (0 :: rest) (state.threads thread)

variable [Fintype Thread] [DecidableEq Thread]

/-- A queue whose values are first in, first out. -/
def Fifo (size : BitVec 64) (state : LocklessQThreads T Thread) : Prop :=
  ∃ rest vals, Account size state rest vals

/-- Every value that was put is taken, but for those on their way in an `enqueue`. -/
def Drained (state : LocklessQThreads T Thread) : Prop :=
  ∃ way : List T, (way : Multiset T) = held LocklessPlace.onItsWay state.threads ∧
    state.put = state.taken.map Prod.snd ++ way

/-- `dequeue` returns false only if there is nothing to take, and true only with a value. -/
def Lawful (next : LocklessQThreads T Thread) : Option (LocklessEvent T) → Prop
  | some .foundNothing => next.Drained
  | some (.dequeued data) => data.isSome
  | _ => True

/-- An `enqueue` begins when no other runs. -/
def Apart (state : LocklessQThreads T Thread) : LocklessTurn T Thread → Prop
  | .enqueue _ _ => ∀ other, (state.threads other).enqueues = 0
  | _ => True

instance : DecidableRel (Apart : LocklessQThreads T Thread → LocklessTurn T Thread → Prop)
  | state, .enqueue _ _ => inferInstanceAs (Decidable (∀ other, (state.threads other).enqueues = 0))
  | _, .dequeue _ => .isTrue trivial
  | _, .access _ _ => .isTrue trivial

/-- An access changes no link that is set, and does not set the tail to null. -/
def SoundAt (state : LocklessQThreads T Thread) (fails : Bool) : LocklessPlace T → Prop
  | .writesLink _ _ tmp _ link => state.next tmp = none ∨ state.next tmp = link
  | .movesTail _ _ tmp link => state.tail = some tmp → fails = false → link ≠ none
  | _ => True

def Sound (state : LocklessQThreads T Thread) : LocklessTurn T Thread → Prop
  | .access thread fails => state.SoundAt fails (state.threads thread)
  | _ => True

instance (state : LocklessQThreads T Thread) (fails : Bool) : DecidablePred (state.SoundAt fails)
  | .writesLink _ _ tmp _ link =>
    inferInstanceAs (Decidable (state.next tmp = none ∨ state.next tmp = link))
  | .movesTail _ _ tmp link =>
    inferInstanceAs (Decidable (state.tail = some tmp → fails = false → link ≠ none))
  | .idle | .makesNode _ | .readsTail .. | .readsLink .. | .storesLink .. | .exchangesLink ..
  | .loadsLink .. | .readsLinkAgain .. | .exchangesTail .. | .countsUp | .readsHead
  | .checksLink _ | .readsNext _ | .movesHead .. | .readsTaken _ | .readsData _
  | .countsDown _ => .isTrue trivial

instance : DecidableRel (Sound : LocklessQThreads T Thread → LocklessTurn T Thread → Prop)
  | state, .access thread fails =>
    inferInstanceAs (Decidable (state.SoundAt fails (state.threads thread)))
  | _, .enqueue _ _ => .isTrue trivial
  | _, .dequeue _ => .isTrue trivial

end LocklessQThreads

end ObLib
