/-
This file models `get` and `wait` of both variants of `MsgQ` in
Common/include/containers/msgq.hpp with the spin lock that they take, and proves when a
thread in `wait` stays clear of its own lock.

`wait` calls `get` once without the lock, and again with the lock in its hands. `get`
takes the lock itself, and a spin lock does not know its owner, so that call spins for
ever. The lock is free for the thread whenever the thread does not hold it; what other
threads have done to the queue by then is arbitrary, so the queue that the thread finds
when it gets the lock is an input, for each time that it does. The waits on the
condition, which do nothing in the code, are listed.
-/

import Mathlib.Tactic.ByContra
import Mathlib.Tactic.SplitIfs

namespace ObLib

/-- `MsgQ<T>` and `MsgQ<std::shared_ptr<T>>`. -/
inductive MsgQVariant where
  | plain
  | shared
deriving DecidableEq, Repr

/-- The value in the head, the values and keys in the nodes behind it, which are not null, and the
number of waiting threads. -/
structure MsgQ (Val : Type) where
  headValue : Option Val := none
  entries : List (Val × Nat)
  waitingForTake : Int := 0
deriving DecidableEq, Repr

/-- A thread: the queue as the thread left it, whether it holds `_mutexH`, how often it got it, its
`key`, and its waits on the condition with the times it gave. -/
structure Waiter (Val : Type) where
  queue : MsgQ Val
  holdsMutexH : Bool := false
  locks : Nat := 0
  key : Nat
  condWaits : List (Option Int) := []
deriving DecidableEq, Repr

/-- Why a run ends without a result: the thread spins on its own lock, or the given number of turns
of a loop is over. -/
inductive WaitStop where
  | ownLock
  | turns
deriving DecidableEq, Repr

/-- What a thread does. -/
abbrev WaiterM (Val : Type) := EStateM WaitStop (Waiter Val)

namespace MsgQ

/-- `INFINITE_TIME`. -/
def infiniteTime : Int := -1

/-- `GetTime()`. -/
def getTime : Int := 1

section Code

variable {Val : Type} (variant : MsgQVariant) (found : Nat → MsgQ Val)

/-! ### The lock and the condition -/

/-- `SpinGuard sp(_mutexH)`. -/
def lock : WaiterM Val Unit := fun waiter =>
  if waiter.holdsMutexH then .error .ownLock waiter
  else
    .ok () { waiter with
      queue := found waiter.locks
      holdsMutexH := true
      locks := waiter.locks + 1 }

/-- `~SpinGuard()`. -/
def unlock : WaiterM Val Unit := fun waiter => .ok () { waiter with holdsMutexH := false }

/-- `_condT.wait(..)`, with a time or without. -/
def condWait (time : Option Int) : WaiterM Val Unit := fun waiter =>
  .ok () { waiter with condWaits := waiter.condWaits ++ [time] }

/-- `_waitingForTake += change`. -/
def changeWaiting (change : Int) : WaiterM Val Unit := fun waiter =>
  .ok () { waiter with
    queue := { waiter.queue with waitingForTake := waiter.queue.waitingForTake + change } }

/-! ### Taking a value -/

/-- What `get` does with the lock: the node of the value becomes the head, and keeps the value in
the plain variant only. -/
def takeFirst : WaiterM Val (Option Val) := fun waiter =>
  match waiter.queue.entries with
  | [] => .ok none waiter
  | (val, key) :: entries =>
    let headValue := match variant with
      | .plain => some val
      | .shared => none
    .ok (some val) { waiter with key, queue := { waiter.queue with headValue, entries } }

def get : WaiterM Val (Option Val) := do
  lock found
  let val ← takeFirst variant
  unlock
  return val

/-- The loop of `wait` without a time. -/
def waitForever : Nat → WaiterM Val (Int × Option Val)
  | 0 => throw .turns
  | turns + 1 => do
    let data ← get variant found
    if data.isSome then
      changeWaiting (-1)
      unlock
      return (0, data)
    else
      condWait none
      waitForever turns

/-- The loop of `wait` with a time. -/
def waitFor (timeout start : Int) : Nat → Int → WaiterM Val (Int × Option Val)
  | 0, _ => throw .turns
  | turns + 1, waitTime => do
    let data ← get variant found
    if data.isSome then
      changeWaiting (-1)
      unlock
      return (0, data)
    else
      condWait (some waitTime)
      let waitTime := timeout - (getTime - start)
      if waitTime ≤ 0 then
        changeWaiting (-1)
        unlock
        return (-1, none)
      else
        waitFor timeout start turns waitTime

/-- `wait(timeout, data, key)`, for a number of turns: what it returns, and what it sets `data`
to. -/
def wait (turns : Nat) (timeout : Int) : WaiterM Val (Int × Option Val) := do
  let data ← get variant found
  if data.isSome then
    return (0, data)
  else if timeout = 0 then
    return (-1, none)
  else
    lock found
    changeWaiting 1
    if timeout = infiniteTime then
      waitForever variant found turns
    else
      waitFor variant found timeout getTime turns timeout

end Code

/-- The thread at the end of a run. -/
def last {Val Result : Type} : EStateM.Result WaitStop (Waiter Val) Result → Waiter Val
  | .ok _ waiter => waiter
  | .error _ waiter => waiter

/-- A thread before its call of `wait`. -/
def start {Val : Type} (queue : MsgQ Val) (key : Nat) : Waiter Val := { queue, key }

/-- The thread never tries to get the lock that it holds; from a queue with values it returns with
the oldest one, from a queue that stays empty it returns with nothing when it has no time, and gets
to wait for its time when it has some. -/
structure Serves {Val : Type} (variant : MsgQVariant) (found : Nat → MsgQ Val) (timeout : Int)
    (waiter : Waiter Val) : Prop where
  neverOwnLock : ∀ turns stopped, wait variant found turns timeout waiter ≠ .error .ownLock stopped
  oldest : ∀ val key entries, (found 0).entries = (val, key) :: entries →
    ∀ turns, ∃ after, wait variant found turns timeout waiter = .ok (0, some val) after
  nothing : (∀ n, (found n).entries = []) → timeout = 0 →
    ∀ turns, ∃ after, wait variant found turns timeout waiter = .ok (-1, none) after
  timed : (∀ n, (found n).entries = []) → 0 < timeout →
    ∀ turns, some timeout ∈ (last (wait variant found (turns + 1) timeout waiter)).condWaits

/-! ### The paths -/

section Paths

variable {Val Result Next : Type} {variant : MsgQVariant} {found : Nat → MsgQ Val}
  {waiter after : Waiter Val} {timeout : Int}

theorem bind_of_ok {program : WaiterM Val Result} {next : Result → WaiterM Val Next}
    {result : Result} (returns : program waiter = .ok result after) :
    (program >>= next) waiter = next result after := by
  show EStateM.bind program next waiter = _
  rw [EStateM.bind, returns]

theorem bind_of_error {program : WaiterM Val Result} {next : Result → WaiterM Val Next}
    {stop : WaitStop} (stops : program waiter = .error stop after) :
    (program >>= next) waiter = .error stop after := by
  show EStateM.bind program next waiter = _
  rw [EStateM.bind, stops]

theorem lock_of_free (found : Nat → MsgQ Val) (free : waiter.holdsMutexH = false) :
    ∃ after, lock found waiter = .ok () after ∧ after.holdsMutexH = true ∧
      after.queue = found waiter.locks :=
  ⟨{ waiter with queue := found waiter.locks, holdsMutexH := true, locks := waiter.locks + 1 },
    by rw [lock, free]; rfl, rfl, rfl⟩

/-- `get` spins when its thread holds the lock. -/
theorem get_of_held (held : waiter.holdsMutexH = true) :
    get variant found waiter = .error .ownLock waiter :=
  bind_of_error (if_pos held)

/-- Otherwise it yields the oldest value, if there is one, and leaves the lock free. -/
theorem get_of_free (variant : MsgQVariant) (found : Nat → MsgQ Val)
    (free : waiter.holdsMutexH = false) :
    ∃ after, get variant found waiter =
        .ok ((found waiter.locks).entries.head?.map Prod.fst) after ∧
      after.holdsMutexH = false := by
  obtain ⟨locked, locks, -, queue⟩ := lock_of_free found free
  rw [get, bind_of_ok locks, ← queue]
  cases entries : locked.queue.entries with
  | nil =>
    have takes : takeFirst variant locked = .ok none locked := by rw [takeFirst, entries]
    exact ⟨_, bind_of_ok takes, rfl⟩
  | cons entry rest =>
    have takes : ∃ taken, takeFirst variant locked = .ok (some entry.1) taken := by
      rw [takeFirst, entries]
      exact ⟨_, rfl⟩
    obtain ⟨taken, takes⟩ := takes
    exact ⟨_, bind_of_ok takes, rfl⟩

/-- A queue with values is left with the oldest one. -/
theorem wait_of_cons (variant : MsgQVariant) {val : Val} {key : Nat} {entries : List (Val × Nat)}
    (free : waiter.holdsMutexH = false) (some : (found waiter.locks).entries = (val, key) :: entries)
    (turns : Nat) (timeout : Int) :
    ∃ after, wait variant found turns timeout waiter = .ok (0, .some val) after := by
  obtain ⟨after, gets, -⟩ := get_of_free variant found free
  rw [some] at gets
  exact ⟨after, bind_of_ok gets⟩

/-- An empty queue is left with nothing when there is no time. -/
theorem wait_of_nil_zero (variant : MsgQVariant) (free : waiter.holdsMutexH = false)
    (none : (found waiter.locks).entries = []) (turns : Nat) :
    ∃ after, wait variant found turns 0 waiter = .ok (-1, .none) after := by
  obtain ⟨after, gets, -⟩ := get_of_free variant found free
  rw [none] at gets
  exact ⟨after, bind_of_ok gets⟩

/-- With a time, the thread gets the lock and calls `get` with it. -/
theorem wait_of_nil (variant : MsgQVariant) (free : waiter.holdsMutexH = false)
    (none : (found waiter.locks).entries = []) (some : timeout ≠ 0) (turns : Nat) :
    ∃ stopped, wait variant found (turns + 1) timeout waiter = .error .ownLock stopped := by
  obtain ⟨after, gets, free⟩ := get_of_free variant found free
  obtain ⟨locked, locks, held, -⟩ := lock_of_free found free
  rw [none] at gets
  rw [wait, bind_of_ok gets]
  show ∃ stopped, (if timeout = 0 then _ else _ : WaiterM Val (Int × Option Val)) after = _
  rw [if_neg some, bind_of_ok locks]
  let counted : Waiter Val := { locked with
    queue := { locked.queue with waitingForTake := locked.queue.waitingForTake + 1 } }
  have spins : get variant found counted = .error .ownLock counted := get_of_held held
  have counts : changeWaiting 1 locked = .ok () counted := rfl
  refine ⟨counted, ?_⟩
  rw [bind_of_ok counts]
  split_ifs
  · exact bind_of_error spins
  · exact bind_of_error spins

end Paths

/-- In both variants, whatever the queue and whatever other threads do to it, `wait` serves its
thread exactly when it finds a value at its first look or has no time to wait. -/
theorem serves_iff {Val : Type} (variant : MsgQVariant) (found : Nat → MsgQ Val) (timeout : Int)
    (queue : MsgQ Val) (key : Nat) :
    Serves variant found timeout (start queue key) ↔ (found 0).entries ≠ [] ∨ timeout = 0 := by
  constructor
  · intro serves
    by_contra fails
    obtain ⟨empty, some⟩ := not_or.mp fails
    have first : (found (start queue key).locks).entries = [] := not_not.mp empty
    obtain ⟨stopped, spins⟩ := wait_of_nil variant rfl first some 0
    exact serves.neverOwnLock 1 stopped spins
  · intro lucky
    have free : (start queue key).holdsMutexH = false := rfl
    cases first : (found (start queue key).locks).entries with
    | nil =>
      obtain rfl := lucky.resolve_left (not_not.mpr first)
      have returns := wait_of_nil_zero variant free first
      refine ⟨fun turns stopped stops => ?_, fun val key entries same => ?_, fun _ _ => returns,
        fun _ more => absurd more (Int.lt_irrefl 0)⟩
      · obtain ⟨after, returned⟩ := returns turns
        cases returned.symm.trans stops
      · cases first.symm.trans same
    | cons entry entries =>
      have returns (turns : Nat) := wait_of_cons variant free first turns timeout
      refine ⟨fun turns stopped stops => ?_, ?_, fun empty => ?_, fun empty => ?_⟩
      · obtain ⟨after, returned⟩ := returns turns
        cases returned.symm.trans stops
      · rintro val key entries same
        obtain ⟨rfl, -⟩ := List.cons.inj (first.symm.trans same)
        exact returns
      · cases first.symm.trans (empty 0)
      · cases first.symm.trans (empty 0)

/-- A queue that stays empty, and five units of time. -/
theorem wait_spins_on_own_lock :
    ¬ ∀ (variant : MsgQVariant) (found : Nat → MsgQ Nat) (timeout : Int) (queue : MsgQ Nat)
      (key : Nat), 0 ≤ timeout ∨ timeout = infiniteTime →
      Serves variant found timeout (start queue key) := by
  intro claim
  have serves := claim .plain (fun _ => { entries := [] }) 5 { entries := [] } 0 (.inl (by decide))
  exact absurd (serves.timed (fun _ => rfl) (by decide) 0) (by decide)

end MsgQ

end ObLib
