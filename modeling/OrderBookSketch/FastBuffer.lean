/-
This file models the `FastBuffer` of Common/include/FastBuffer.hpp from the state that
`reset` sets up, and proves that it is a bounded queue.

Indices and sizes are unsigned words of 64 bits, and a slot is a pointer or null. A
call that reads or writes outside of the buffer, or waits for a lock that is held, has
no result (`none`).
-/

import OrderBookSketch.Library.Ring
import OrderBookSketch.Library.Run
import Mathlib.Algebra.Group.Nat.Defs
import Mathlib.Data.List.Basic

namespace ObLib

open Rings Runs

variable {Ptr : Type}

structure FastBuffer (Ptr : Type) where
  pread : UInt64
  pwrite : UInt64
  size : UInt64
  buffer : List (Option Ptr)
  spinLock : Bool := false

namespace FastBuffer

/-- The state that `reset` leaves of a buffer of this size. -/
def reset (size : UInt64) : FastBuffer Ptr where
  pread := 0
  pwrite := 0
  size := size
  buffer := List.replicate size.toNat none

def begin (fast : FastBuffer Ptr) : Option (Option Ptr) := fast.buffer[fast.pread.toNat]?

def isEmpty (fast : FastBuffer Ptr) : Option Bool :=
  fast.buffer[fast.pread.toNat]?.map Option.isNone

def isAvailable (fast : FastBuffer Ptr) : Option Bool :=
  fast.buffer[fast.pwrite.toNat]?.map Option.isNone

def length (fast : FastBuffer Ptr) : Option UInt64 :=
  let len : Int64 := (fast.pwrite - fast.pread).toInt64
  if len > 0 then some len.toUInt64
  else if len < 0 then some (fast.size + len.toUInt64)
  else
    fast.buffer[fast.pwrite.toNat]?.map fun slot => if slot.isNone then 0 else fast.size

/-- The index behind another. -/
def next (index size : UInt64) : UInt64 := index + if index + 1 ≥ size then 1 - size else 1

def pushSp (fast : FastBuffer Ptr) : Option Ptr → Option (FastBuffer Ptr × Bool)
  | none => some (fast, false)
  | some data => do
    if ← fast.isAvailable then
      return ({ fast with
        buffer := fast.buffer.set fast.pwrite.toNat (some data)
        pwrite := next fast.pwrite fast.size }, true)
    else return (fast, false)

/-- The data is what is stored through the argument, when the call returns true. -/
def popSc (fast : FastBuffer Ptr) : Option (FastBuffer Ptr × Option (Option Ptr)) := do
  if ← fast.isEmpty then return (fast, none)
  else
    let data ← fast.buffer[fast.pread.toNat]?
    return ({ fast with
      buffer := fast.buffer.set fast.pread.toNat none
      pread := next fast.pread fast.size }, some data)

def lock (fast : FastBuffer Ptr) : Option (FastBuffer Ptr) :=
  if fast.spinLock then none else some { fast with spinLock := true }

def unlock (fast : FastBuffer Ptr) : FastBuffer Ptr := { fast with spinLock := false }

def pushMp (fast : FastBuffer Ptr) (data : Option Ptr) : Option (FastBuffer Ptr × Bool) := do
  let (fast, x) ← (← fast.lock).pushSp data
  return (fast.unlock, x)

def popMp (fast : FastBuffer Ptr) : Option (FastBuffer Ptr × Option (Option Ptr)) := do
  let (fast, x) ← (← fast.lock).popSc
  return (fast.unlock, x)

end FastBuffer

/-! ### Calls -/

inductive BufferCall (Ptr : Type) where
  | pushSp (data : Option Ptr)
  | pushMp (data : Option Ptr)
  | popSc
  | popMp
  | length
  | isEmpty
  | isAvailable
  | begin
deriving DecidableEq, Repr

inductive BufferOutput (Ptr : Type) where
  | success (x : Bool)
  | popped (data : Option (Option Ptr))
  | length (length : Nat)
  | pointer (data : Option Ptr)
deriving DecidableEq, Repr

/-- The calls of a buffer. -/
def FastBuffer.step (fast : FastBuffer Ptr) :
    BufferCall Ptr → Option (FastBuffer Ptr × BufferOutput Ptr)
  | .pushSp data => (fast.pushSp data).map fun (fast, x) => (fast, .success x)
  | .pushMp data => (fast.pushMp data).map fun (fast, x) => (fast, .success x)
  | .popSc => fast.popSc.map fun (fast, data) => (fast, .popped data)
  | .popMp => fast.popMp.map fun (fast, data) => (fast, .popped data)
  | .length => fast.length.map fun length => (fast, .length length.toNat)
  | .isEmpty => fast.isEmpty.map fun x => (fast, .success x)
  | .isAvailable => fast.isAvailable.map fun x => (fast, .success x)
  | .begin => fast.begin.map fun data => (fast, .pointer data)

namespace BoundedFifo

/-- A pointer goes behind the others when there is room for it; null does not. -/
def push (capacity : Nat) (items : List Ptr) : Option Ptr → List Ptr × BufferOutput Ptr
  | some data =>
    if items.length < capacity then (items ++ [data], .success true) else (items, .success false)
  | none => (items, .success false)

/-- The oldest pointer is taken out. -/
def pop : List Ptr → List Ptr × BufferOutput Ptr
  | [] => ([], .popped none)
  | data :: items => (items, .popped (some (some data)))

/-- The calls of a queue of this capacity. -/
def step (capacity : Nat) (items : List Ptr) : BufferCall Ptr → List Ptr × BufferOutput Ptr
  | .pushSp data => push capacity items data
  | .pushMp data => push capacity items data
  | .popSc => pop items
  | .popMp => pop items
  | .length => (items, .length items.length)
  | .isEmpty => (items, .success items.isEmpty)
  | .isAvailable => (items, .success (items.length < capacity))
  | .begin => (items, .pointer items.head?)

end BoundedFifo

namespace FastBuffer

/-- The buffer holds these pointers, the oldest first. -/
structure Represents (fast : FastBuffer Ptr) (items : List Ptr) : Prop where
  holds : Holds fast.buffer fast.pread.toNat items
  write : fast.pwrite.toNat = place fast.buffer.length fast.pread.toNat items.length
  size : fast.buffer.length = fast.size.toNat
  small : fast.size.toNat < 2 ^ 63

variable {fast : FastBuffer Ptr} {items : List Ptr}

/-! ### Indices -/

theorem toNat_next {index size : UInt64} (inside : index.toNat < size.toNat)
    (small : size.toNat < 2 ^ 63) : (next index size).toNat = place size.toNat index.toNat 1 := by
  have sum : (index + 1).toNat = index.toNat + 1 := by
    rw [UInt64.toNat_add, UInt64.toNat_one]
    omega
  have wraps : index + 1 ≥ size ↔ size.toNat ≤ index.toNat + 1 := by
    rw [ge_iff_le, UInt64.le_iff_toNat_le, sum]
  unfold next place
  by_cases last : index + 1 ≥ size
  · have behind := wraps.mp last
    rw [if_pos last, if_neg (Nat.not_lt.mpr behind), UInt64.toNat_add, UInt64.toNat_sub,
      UInt64.toNat_one]
    omega
  · rw [if_neg last, if_pos (Nat.not_le.mp (wraps.not.mp last)), sum]

/-- The distance of two indices is signed. -/
theorem toInt_sub {index other : UInt64} (small : index.toNat < 2 ^ 63)
    (smallOther : other.toNat < 2 ^ 63) :
    (index - other).toInt64.toInt = (index.toNat : Int) - other.toNat := by
  have value : (index - other).toInt64.toInt = ((index - other).toNat : Int).bmod (2 ^ 64) :=
    BitVec.toInt_eq_toNat_bmod _
  rw [value, UInt64.toNat_sub, Int.bmod_def]
  omega

theorem represents_reset {size : UInt64} (some : 0 < size) (small : size.toNat < 2 ^ 63) :
    Represents (reset size : FastBuffer Ptr) [] := by
  have positive : 0 < size.toNat := UInt64.lt_iff_toNat_lt.mp some
  exact {
    holds := holds_nil positive
    write := by
      show 0 = place (List.replicate size.toNat (none : Option Ptr)).length 0 0
      rw [List.length_replicate, place_zero positive]
    size := List.length_replicate
    small := small }

/-- The four cases of `length` are the number of pointers. -/
theorem length_eq (represents : Represents fast items) :
    fast.length.map UInt64.toNat = some items.length := by
  obtain ⟨holds, write, size, small⟩ := represents
  have fits := holds.fits
  have inside := holds.inside
  have slot := holds.slot_write
  rw [← write] at slot
  rw [size] at fits inside slot
  have place := write
  rw [size] at place
  unfold Rings.place at place
  have smallWrite : fast.pwrite.toNat < 2 ^ 63 := by
    rw [place]
    split_ifs <;> omega
  have value := toInt_sub smallWrite (Nat.lt_trans inside small)
  have difference := UInt64.toNat_sub fast.pwrite fast.pread
  simp only [length, gt_iff_lt, Int64.lt_iff_toInt_lt, Int64.toInt_zero, value,
    UInt64.toUInt64_toInt64]
  split_ifs with ahead behind
  · rw [Option.map_some, difference]
    split_ifs at place
    · congr 1
      omega
    · omega
  · rw [Option.map_some, UInt64.toNat_add, difference]
    split_ifs at place
    · omega
    · congr 1
      omega
  · rw [slot]
    split_ifs at place with short
    · have empty : items.length = 0 := by omega
      rw [if_pos (by omega), empty]
      rfl
    · have full : items.length = fast.size.toNat := by omega
      rw [if_neg (by omega), full]
      cases items with
      | nil =>
        rw [List.length_nil] at full
        omega
      | cons => rfl

/-! ### Queue -/

theorem isEmpty_eq (represents : Represents fast items) : fast.isEmpty = some items.isEmpty := by
  unfold isEmpty
  rw [represents.holds.slot_read]
  cases items <;> rfl

theorem isAvailable_eq (represents : Represents fast items) :
    fast.isAvailable = some (decide (items.length < fast.size.toNat)) := by
  have inside := represents.holds.inside
  unfold isAvailable
  rw [represents.write, represents.holds.slot_write, represents.size]
  rw [represents.size] at inside
  by_cases room : items.length < fast.size.toNat
  · rw [if_pos room, decide_eq_true room]
    rfl
  · rw [if_neg room, decide_eq_false room]
    cases items with
    | nil => exact absurd (Nat.zero_lt_of_lt inside) room
    | cons => rfl

theorem represents_push (represents : Represents fast items) (room : items.length < fast.size.toNat)
    (data : Ptr) :
    Represents
      { fast with
        buffer := fast.buffer.set fast.pwrite.toNat (some data)
        pwrite := next fast.pwrite fast.size }
      (items ++ [data]) := by
  obtain ⟨holds, write, size, small⟩ := represents
  have inside := holds.inside
  have pushed := holds.push (by rwa [size]) data
  rw [← write] at pushed
  rw [size] at inside write
  exact {
    holds := pushed
    write := by
      show (next fast.pwrite fast.size).toNat =
        place (fast.buffer.set fast.pwrite.toNat (some data)).length _ (items ++ [data]).length
      have insideWrite : fast.pwrite.toNat < fast.size.toNat := by
        rw [write]
        exact place_lt inside (Nat.le_of_lt room)
      rw [toNat_next insideWrite small, write, place_one_place inside room, List.length_set, size,
        List.length_append, List.length_singleton]
    size := by
      show (fast.buffer.set fast.pwrite.toNat (some data)).length = fast.size.toNat
      rw [List.length_set, size]
    small := small }

theorem represents_pop {data : Ptr} (represents : Represents fast (data :: items)) :
    Represents
      { fast with
        buffer := fast.buffer.set fast.pread.toNat none
        pread := next fast.pread fast.size }
      items := by
  obtain ⟨holds, write, size, small⟩ := represents
  have inside := holds.inside
  have fits := holds.fits
  have popped := holds.pop
  rw [size] at inside fits write popped
  have read := toNat_next inside small
  rw [← read] at popped
  exact {
    holds := popped
    write := by
      show fast.pwrite.toNat =
        place (fast.buffer.set fast.pread.toNat none).length (next fast.pread fast.size).toNat _
      rw [List.length_set, size, read, place_place_one inside fits]
      exact write
    size := by
      show (fast.buffer.set fast.pread.toNat none).length = fast.size.toNat
      rw [List.length_set, size]
    small := small }

/-- What a call returns is what the queue answers, and the buffer represents what the queue has
then; size and lock are as before. -/
def Answers {Result : Type} (fast : FastBuffer Ptr) (returned : Option (FastBuffer Ptr × Result))
    (output : Result → BufferOutput Ptr) (expected : List Ptr × BufferOutput Ptr) : Prop :=
  ∃ after result, returned = some (after, result) ∧ expected.2 = output result ∧
    Represents after expected.1 ∧ after.size = fast.size ∧ after.spinLock = fast.spinLock

/-- A push is one of the queue. -/
theorem pushSp_answers (represents : Represents fast items) (data : Option Ptr) :
    Answers fast (fast.pushSp data) .success (BoundedFifo.push fast.size.toNat items data) := by
  have available := isAvailable_eq represents
  cases data with
  | none => exact ⟨fast, false, rfl, rfl, represents, rfl, rfl⟩
  | some data =>
    by_cases room : items.length < fast.size.toNat
    · have accepts : BoundedFifo.push fast.size.toNat items (some data) =
          (items ++ [data], .success true) := if_pos room
      rw [decide_eq_true room] at available
      rw [accepts]
      refine ⟨_, true, ?_, rfl, represents_push represents room data, rfl, rfl⟩
      simp only [pushSp, available]
      rfl
    · have refuses : BoundedFifo.push fast.size.toNat items (some data) =
          (items, .success false) := if_neg room
      rw [decide_eq_false room] at available
      rw [refuses]
      refine ⟨fast, false, ?_, rfl, represents, rfl, rfl⟩
      simp only [pushSp, available]
      rfl

/-- A pop is one of the queue. -/
theorem popSc_answers (represents : Represents fast items) :
    Answers fast fast.popSc .popped (BoundedFifo.pop items) := by
  have empty := isEmpty_eq represents
  have first := represents.holds.slot_read
  cases items with
  | nil =>
    refine ⟨fast, none, ?_, rfl, represents, rfl, rfl⟩
    simp only [popSc, empty]
    rfl
  | cons data items =>
    refine ⟨_, some (some data), ?_, rfl, represents_pop represents, rfl, rfl⟩
    simp only [popSc, empty, first]
    rfl

/-- The lock changes nothing else. -/
theorem Represents.lock (represents : Represents fast items) (locked : Bool) :
    Represents { fast with spinLock := locked } items where
  holds := represents.holds
  write := represents.write
  size := represents.size
  small := represents.small

/-- A call between the taking of a free lock and its release answers as it does by itself. -/
theorem Answers.underLock {Result : Type} {call : FastBuffer Ptr → Option (FastBuffer Ptr × Result)}
    {output : Result → BufferOutput Ptr} {expected : List Ptr × BufferOutput Ptr}
    (free : fast.spinLock = false)
    (answers : Answers { fast with spinLock := true } (call { fast with spinLock := true }) output
      expected) :
    Answers fast (do let (fast, x) ← call (← fast.lock); return (fast.unlock, x)) output expected := by
  obtain ⟨after, result, returns, same, again, size, -⟩ := answers
  refine ⟨after.unlock, result, ?_, same, again.lock false, size, free.symm⟩
  simp only [lock, free, Bool.false_eq_true, if_false, Option.bind_eq_bind, Option.bind_some, returns]
  rfl

theorem pushMp_answers (represents : Represents fast items) (free : fast.spinLock = false)
    (data : Option Ptr) :
    Answers fast (fast.pushMp data) .success (BoundedFifo.push fast.size.toNat items data) :=
  Answers.underLock free (pushSp_answers (represents.lock true) data)

theorem popMp_answers (represents : Represents fast items) (free : fast.spinLock = false) :
    Answers fast fast.popMp .popped (BoundedFifo.pop items) :=
  Answers.underLock free (popSc_answers (represents.lock true))

/-- The buffer of this capacity holds these pointers, and its lock is free. -/
structure Queues (capacity : UInt64) (fast : FastBuffer Ptr) (items : List Ptr) : Prop where
  represents : Represents fast items
  capacity : fast.size = capacity
  free : fast.spinLock = false

/-- A call that answers as the queue does leaves a buffer that goes on as the queue. -/
theorem Answers.simulates {Result : Type} {returned : Option (FastBuffer Ptr × Result)}
    {output : Result → BufferOutput Ptr} {expected : List Ptr × BufferOutput Ptr}
    (answers : Answers fast returned output expected) (free : fast.spinLock = false) :
    ∃ next, returned.map (fun (fast, result) => (fast, output result)) = some (next, expected.2) ∧
      Queues fast.size next expected.1 := by
  obtain ⟨after, result, returns, same, again, size, lock⟩ := answers
  refine ⟨after, ?_, again, size, lock.trans free⟩
  rw [returns, same]
  rfl

/-- Every call is one of the queue. -/
theorem step_simulates (capacity : UInt64) :
    Simulates step (BoundedFifo.step capacity.toNat) (Queues capacity : FastBuffer Ptr → List Ptr → Prop)
      fun _ _ => True := by
  rintro fast items call ⟨represents, rfl, free⟩ -
  cases call with
  | pushSp data => exact (pushSp_answers represents data).simulates free
  | pushMp data => exact (pushMp_answers represents free data).simulates free
  | popSc => exact (popSc_answers represents).simulates free
  | popMp => exact (popMp_answers represents free).simulates free
  | length =>
    obtain ⟨length, returns, number⟩ := Option.map_eq_some_iff.mp (length_eq represents)
    refine ⟨fast, ?_, represents, rfl, free⟩
    rw [step, returns]
    exact congrArg (fun number => some (fast, BufferOutput.length number)) number
  | isEmpty =>
    refine ⟨fast, ?_, represents, rfl, free⟩
    rw [step, isEmpty_eq represents]
    rfl
  | isAvailable =>
    refine ⟨fast, ?_, represents, rfl, free⟩
    rw [step, isAvailable_eq represents]
    rfl
  | begin =>
    refine ⟨fast, ?_, represents, rfl, free⟩
    rw [step, begin, represents.holds.slot_read]
    rfl

/-- From the state of `reset`, every sequence of calls does what it does to a queue of that capacity,
for every capacity below 2^63. -/
theorem run_eq_boundedFifo (capacity : UInt64) (some : 0 < capacity)
    (small : capacity.toNat < 2 ^ 63) (calls : List (BufferCall Ptr)) :
    ∃ last, run step (reset capacity) calls =
        .some (last, (specRun (BoundedFifo.step capacity.toNat) [] calls).2) ∧
      Queues capacity last (specRun (BoundedFifo.step capacity.toNat) [] calls).1 :=
  run_simulates_always (step_simulates capacity) calls _ _ ⟨represents_reset some small, rfl, rfl⟩

/-- A capacity of one, with calls that succeed and calls that fail. -/
theorem run_eq_boundedFifo_example :
    ∃ last, run step (reset 1 : FastBuffer Nat)
        [.popSc, .pushSp (.some 5), .length, .pushMp (.some 6), .pushSp none, .begin, .popMp,
          .isEmpty, .pushMp (.some 7), .isAvailable] =
        .some (last, (specRun (BoundedFifo.step 1) []
          [.popSc, .pushSp (.some 5), .length, .pushMp (.some 6), .pushSp none, .begin, .popMp,
            .isEmpty, .pushMp (.some 7), .isAvailable]).2) ∧
      Queues 1 last (specRun (BoundedFifo.step 1) []
        [.popSc, .pushSp (.some 5), .length, .pushMp (.some 6), .pushSp none, .begin, .popMp,
          .isEmpty, .pushMp (.some 7), .isAvailable]).1 :=
  run_eq_boundedFifo 1 (by decide) (by decide) _

end FastBuffer

end ObLib
