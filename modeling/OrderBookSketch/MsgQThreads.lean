/-
This file models the `MsgQ` of Common/include/containers/msgq.hpp when any number of
threads call `post` and `wait` at once.

One spin lock guards the queue: every access to it is made by a thread that has taken the
lock, so an access is a step on the list of the values and keys. What `wait` does with
the lock in its hands is modelled to its end: it calls `get` again, whose guard takes the
same lock, and goes on behind that as the code says for a lock that is free by then.

The free list of the queue is the default one: it hands out nodes that nobody has,
deletes those that come back and does not throw, as a `FreeListBase` does at every
release. So the node that `post` fills in before it locks is nobody else's and belongs to
no step, and a `get` that gives a node back goes on to return its value.
-/

import OrderBookSketch.MsgQ
import OrderBookSketch.Library.Run
import OrderBookSketch.Library.Interleaving

namespace ObLib

open Runs Interleaving

/-- Where a thread is in a call: what it does next, with its local variables. -/
inductive MsgQPlace (Val : Type) where
  | idle
  -- `post`
  | locksPost (val : Val) (key : Nat)
  | spinsPost (val : Val) (key : Nat)
  | links (val : Val) (key : Nat)
  | readsWaiting
  | unlocksPost
  -- `wait`, in its first `get`
  | locksGet (timeout : Int)
  | spinsGet (timeout : Int)
  | takes (timeout : Int)
  | unlocksGet (timeout : Int) (data : Option Val)
  -- `wait`, before and in a `get` with the lock
  | locksWait (timeout : Int)
  | spinsWait (timeout : Int)
  | countsUp (timeout : Int)
  | locksAgain (timeout : Int)
  | spinsAgain (timeout : Int)
  -- `wait`, behind the lock that it has taken twice
  | takesAgain (timeout : Int)
  | unlocksAgain (timeout : Int) (data : Option Val)
  | condWaits (timeout : Int)
  | countsDown (timeout code : Int) (data : Option Val)
  | unlocksWait (timeout code : Int) (data : Option Val)
deriving DecidableEq, Repr

/-- Whether the thread is in no call. -/
def MsgQPlace.isIdle {Val : Type} : MsgQPlace Val → Bool
  | .idle => true
  | _ => false

theorem MsgQPlace.eq_idle {Val : Type} {place : MsgQPlace Val} (idle : place.isIdle) :
    place = .idle := by
  cases place <;> first | rfl | cases idle

/-- What a call returns, with what it sets `data` to; a `get` that reads a null link; and the calls
on the condition. -/
inductive MsgQEvent (Val : Type) where
  | posted (code : Int)
  | foundNothing
  | waited (timeout code : Int) (data : Option Val)
  | signalOne
  | condWait
deriving DecidableEq, Repr

/-- A call that a thread begins, or its next access. -/
inductive MsgQTurn (Val Thread : Type) where
  | post (thread : Thread) (val : Option Val) (key : Nat)
  | wait (thread : Thread) (timeout : Int)
  | access (thread : Thread)
deriving DecidableEq, Repr

/-- The queue, its lock, the threads, and the values that were linked and that `wait` returned, in
their order. -/
structure MsgQThreads (Val Thread : Type) where
  queue : MsgQ Val
  mutexH : Bool
  threads : Thread → MsgQPlace Val
  linked : List Val
  returned : List Val

namespace MsgQThreads

variable {Val Thread : Type} [DecidableEq Thread] (variant : MsgQVariant)

def create : MsgQThreads Val Thread where
  queue := { entries := [] }
  mutexH := false
  threads := fun _ => .idle
  linked := []
  returned := []

def goTo (state : MsgQThreads Val Thread) (thread : Thread) (place : MsgQPlace Val) :
    MsgQThreads Val Thread :=
  { state with threads := Function.update state.threads thread place }

/-- The exchange on the lock, which writes `LOCKED` in any case. -/
def exchange (state : MsgQThreads Val Thread) (thread : Thread) (spins locked : MsgQPlace Val) :
    MsgQThreads Val Thread :=
  if state.mutexH then state.goTo thread spins else { state with mutexH := true }.goTo thread locked

/-- A read of the lock by a thread that spins. -/
def spin (state : MsgQThreads Val Thread) (thread : Thread) (locks : MsgQPlace Val) :
    MsgQThreads Val Thread :=
  if state.mutexH then state else state.goTo thread locks

def unlock (state : MsgQThreads Val Thread) : MsgQThreads Val Thread :=
  { state with mutexH := false }

/-- `_waitingForTake += change`. -/
def changeWaiting (state : MsgQThreads Val Thread) (change : Int) : MsgQThreads Val Thread :=
  { state with
    queue := { state.queue with waitingForTake := state.queue.waitingForTake + change } }

/-- What `get` does with the lock. -/
def takeFirst (state : MsgQThreads Val Thread) : MsgQThreads Val Thread × Option Val :=
  match state.queue.entries with
  | [] => (state, none)
  | (val, _) :: entries =>
    let headValue := match variant with
      | .plain => some val
      | .shared => none
    ({ state with queue := { state.queue with headValue, entries } }, some val)

/-- The time that is left behind a wait on the condition. -/
def timeLeft (timeout : Int) : Int := timeout - (MsgQ.getTime - MsgQ.getTime)

/-- The next access of a thread that is in a call. -/
def access (state : MsgQThreads Val Thread) (thread : Thread) :
    MsgQThreads Val Thread × Option (MsgQEvent Val) :=
  match state.threads thread with
  | .idle => (state, none)
  | .locksPost val key => (state.exchange thread (.spinsPost val key) (.links val key), none)
  | .spinsPost val key => (state.spin thread (.locksPost val key), none)
  | .links val key =>
    let linked := { state with
      queue := { state.queue with entries := state.queue.entries ++ [(val, key)] }
      linked := state.linked ++ [val] }
    (linked.goTo thread .readsWaiting, none)
  | .readsWaiting =>
    (state.goTo thread .unlocksPost,
      if 0 < state.queue.waitingForTake then some .signalOne else none)
  | .unlocksPost => (state.unlock.goTo thread .idle, some (.posted 0))
  | .locksGet timeout => (state.exchange thread (.spinsGet timeout) (.takes timeout), none)
  | .spinsGet timeout => (state.spin thread (.locksGet timeout), none)
  | .takes timeout =>
    let (taken, data) := state.takeFirst variant
    (taken.goTo thread (.unlocksGet timeout data),
      if data.isSome then none else some .foundNothing)
  | .unlocksGet timeout data =>
    match data with
    | some val =>
      let returned := { state.unlock with returned := state.returned ++ [val] }
      (returned.goTo thread .idle, some (.waited timeout 0 (some val)))
    | none =>
      if timeout = 0 then (state.unlock.goTo thread .idle, some (.waited timeout (-1) none))
      else (state.unlock.goTo thread (.locksWait timeout), none)
  | .locksWait timeout => (state.exchange thread (.spinsWait timeout) (.countsUp timeout), none)
  | .spinsWait timeout => (state.spin thread (.locksWait timeout), none)
  | .countsUp timeout => ((state.changeWaiting 1).goTo thread (.locksAgain timeout), none)
  | .locksAgain timeout =>
    (state.exchange thread (.spinsAgain timeout) (.takesAgain timeout), none)
  | .spinsAgain timeout => (state.spin thread (.locksAgain timeout), none)
  | .takesAgain timeout =>
    let (taken, data) := state.takeFirst variant
    (taken.goTo thread (.unlocksAgain timeout data),
      if data.isSome then none else some .foundNothing)
  | .unlocksAgain timeout data =>
    (state.unlock.goTo thread
      (if data.isSome then .countsDown timeout 0 data else .condWaits timeout), none)
  | .condWaits timeout =>
    (state.goTo thread
      (if timeout = MsgQ.infiniteTime ∨ 0 < timeLeft timeout then .locksAgain timeout
      else .countsDown timeout (-1) none), some .condWait)
  | .countsDown timeout code data =>
    ((state.changeWaiting (-1)).goTo thread (.unlocksWait timeout code data), none)
  | .unlocksWait timeout code data =>
    let returned := { state.unlock with returned := state.returned ++ data.toList }
    (returned.goTo thread .idle, some (.waited timeout code data))

/-- A thread that is in a call begins no other. -/
def step (state : MsgQThreads Val Thread) (turn : MsgQTurn Val Thread) :
    Option (MsgQThreads Val Thread × Option (MsgQEvent Val)) :=
  match turn with
  | .post thread val key =>
    if (state.threads thread).isIdle then
      match val with
      | some val => some (state.goTo thread (.locksPost val key), none)
      | none => some (state, some (.posted (-1)))
    else some (state, none)
  | .wait thread timeout =>
    if (state.threads thread).isIdle then some (state.goTo thread (.locksGet timeout), none)
    else some (state, none)
  | .access thread => some (state.access variant thread)

end MsgQThreads

/-! ### What a place holds -/

namespace MsgQPlace

variable {Val : Type}

/-- Whether the thread is in a critical section that it has entered once. -/
def holds : MsgQPlace Val → Nat
  | .links .. | .readsWaiting | .unlocksPost | .takes _ | .unlocksGet .. | .countsUp _
  | .locksAgain _ | .spinsAgain _ => 1
  | _ => 0

/-- The value that the thread has taken out of the queue and not returned yet. -/
def taken : MsgQPlace Val → Multiset Val
  | .unlocksGet _ (some val) => {val}
  | _ => 0

/-- Whether the thread is counted as waiting. -/
def waits : MsgQPlace Val → Nat
  | .locksAgain _ | .spinsAgain _ => 1
  | _ => 0

/-- Whether the thread has taken the lock in order to wait. -/
def doomed : MsgQPlace Val → Bool
  | .countsUp _ | .locksAgain _ | .spinsAgain _ => true
  | _ => false

/-- Whether the thread has taken the lock that it had. -/
def beyond : MsgQPlace Val → Bool
  | .takesAgain _ | .unlocksAgain .. | .condWaits _ | .countsDown .. | .unlocksWait .. => true
  | _ => false

/-- The time of a `wait` that has found nothing. -/
def time : MsgQPlace Val → Option Int
  | .locksWait timeout | .spinsWait timeout | .countsUp timeout | .locksAgain timeout
  | .spinsAgain timeout => some timeout
  | _ => none

variable {place : MsgQPlace Val}

theorem holds_of_doomed (doomed : place.doomed) : place.holds = 1 := by
  cases place <;> first | rfl | cases doomed

theorem holds_eq_one (some : place.holds ≠ 0) : place.holds = 1 := by
  cases place <;> first | rfl | exact absurd rfl some

/-- A thread has one value in its hand at most. -/
theorem exists_taken (place : MsgQPlace Val) :
    ∃ out : Option Val, place.taken = (out.toList : Multiset Val) := by
  cases place with
  | unlocksGet timeout data => exact ⟨data, by cases data <;> rfl⟩
  | _ => exact ⟨none, rfl⟩

theorem taken_eq_zero (free : place.holds = 0) : place.taken = 0 := by
  cases place <;> first | rfl | cases free

theorem waits_eq_zero (free : place.holds = 0) : place.waits = 0 := by
  cases place <;> first | rfl | cases free

/-- A place in no critical section. -/
structure Outside (place : MsgQPlace Val) : Prop where
  holds : place.holds = 0
  near : place.beyond = false
  timed : place.time ≠ some 0

/-- A place in which a critical section begins. -/
structure Inside (place : MsgQPlace Val) : Prop where
  holds : place.holds = 1
  taken : place.taken = 0
  waits : place.waits = 0
  near : place.beyond = false
  timed : place.time ≠ some 0

end MsgQPlace

namespace MsgQThreads

variable {Val Thread : Type} [Fintype Thread]

/-- The lock has one holder where it is locked; the values that were linked are those that were
returned, the one in the hand of the holder and those in the queue, in their order; as many threads
are counted as wait; and no thread has taken the lock that it had. -/
structure Keeps (state : MsgQThreads Val Thread) : Prop where
  lock : held MsgQPlace.holds state.threads = if state.mutexH then 1 else 0
  order : ∃ inHand : List Val, (inHand : Multiset Val) = held MsgQPlace.taken state.threads ∧
    state.linked = state.returned ++ inHand ++ state.queue.entries.map Prod.fst
  waiting : state.queue.waitingForTake = held MsgQPlace.waits state.threads
  near : ∀ thread, (state.threads thread).beyond = false
  timed : ∀ thread, (state.threads thread).time ≠ some 0

end MsgQThreads

end ObLib
