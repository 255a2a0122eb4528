/-
This file models the `Referencer` of Common/include/containers/Referencer.hpp with its
`MsgList` under any interleaving of puts and workers, and proves that its messages are
run one at a time, once each and in the order of their puts, and that none is left
behind.

A message is on its way while a put or an `execute` is about to post it, while it is
in the dispatch queue, and while a worker is in `execute` for it; each of these is a
point, and a step takes one point on. The put, get and peek of the list are single
steps, as are the calls of a functor and the reads and writes of `_priority`. An
`execute` that has no message any more is over. The dispatch queue takes every post;
aspects are left out.
-/

import OrderBookSketch.Library.Run
import Mathlib.Data.List.Nodup
import Mathlib.Logic.Function.Basic
import Mathlib.Tactic.SplitIfs

namespace ObLib

open Runs

variable {Msg : Type}

/-! ### The list -/

/-- The messages from the head on, and their number as the list counts it. -/
structure MsgList (Msg : Type) where
  messages : List Msg := []
  size : Int := 0
deriving DecidableEq, Repr

namespace MsgList

def put (list : MsgList Msg) (val : Msg) : MsgList Msg × Int :=
  ({ messages := list.messages ++ [val], size := list.size + 1 }, list.size + 1)

def get (list : MsgList Msg) : MsgList Msg × Int × Option Msg :=
  match list.messages with
  | [] => (list, 0, none)
  | elem :: messages => ({ messages, size := list.size - 1 }, list.size - 1, some elem)

def peek (list : MsgList Msg) : Int × Option Msg := (list.size, list.messages.head?)

end MsgList

/-! ### The referencer -/

inductive FlagStatus where
  | free
  | inUse
  | canceled
  | completed
deriving DecidableEq, Repr

def keepBit : Nat := 1

def lastBit : Nat := 2

def delBit : Nat := 4

def endBit : Nat := 8

/-- `FUNCTOR_PRIORITY_Q_SIZE`. -/
def functorPriorityQSize : Int := -2

/-- Where a message is that is on its way: about to be posted by its put, in the dispatch queue, or
in an `execute`, which goes from its start through its loop. -/
inductive Point (Msg : Type) where
  | posting (msg : Msg)
  | posted (msg : Msg)
  | start (msg : Msg)
  | sizing (msg : Msg)
  | loop (tmp : Msg) (priority : Int)
  | functor (tmp : Msg) (priority : Int)
  | counting (tmp : Msg) (priority : Int) (res : Nat)
  | testing (tmp : Msg) (priority : Int) (res : Nat)
  | getting (priority : Int) (last : Bool)
  | peeking (priority : Int) (last : Bool)
  | reposting (tmp : Msg)
deriving DecidableEq, Repr

/-- The referencer, with everything that is on its way. The messages put and the functors called
are listed as they were. -/
structure Referencer (Msg : Type) where
  priority : Int
  status : Msg → FlagStatus
  completionList : MsgList Msg := {}
  points : List (Point Msg) := []
  puts : List Msg := []
  calls : List Msg := []

namespace Referencer

variable [DecidableEq Msg]

/-- `put`, until it is about to post. -/
def put (ref : Referencer Msg) (msg : Msg) : Referencer Msg :=
  let (completionList, size) := ref.completionList.put msg
  { ref with
    status := Function.update ref.status msg .inUse
    completionList
    points := if size = 1 then ref.points ++ [.posting msg] else ref.points
    puts := ref.puts ++ [msg] }

/-- The functor of a message is entered. -/
def call (ref : Referencer Msg) (tmp : Msg) (priority : Int) : Referencer Msg × Option (Point Msg) :=
  ({ ref with calls := ref.calls ++ [tmp] }, some (.functor tmp priority))

/-- What comes next for a message, in the loop or behind it. -/
def onward (last : Bool) (priority : Int) : Option Msg → Option (Point Msg)
  | some tmp => some (if last then .reposting tmp else .loop tmp priority)
  | none => none

/-- The next step from a point, where `res` is what a functor returns that is left by it. -/
def advance (ref : Referencer Msg) (res : Nat) : Point Msg → Referencer Msg × Option (Point Msg)
  | .posting msg => (ref, some (.posted msg))
  | .posted msg => (ref, some (.start msg))
  | .start msg =>
    (ref, some
      (if ref.priority = functorPriorityQSize then .sizing msg else .loop msg ref.priority))
  | .sizing msg =>
    let priority := ref.completionList.size
    (ref, some (.loop msg (if ref.status msg ≠ .inUse then priority + 1 else priority)))
  | .loop tmp priority =>
    if ref.status tmp ≠ .inUse then
      let ref := { ref with status := Function.update ref.status tmp .inUse }
      if ref.completionList.size = 1 then ref.call tmp priority else (ref, some (.loop tmp priority))
    else ref.call tmp priority
  | .functor tmp priority =>
    if res &&& endBit ≠ 0 then (ref, none) else (ref, some (.counting tmp priority res))
  | .counting tmp priority res =>
    ({ ref with priority := if priority > 0 then ref.priority - 1 else ref.priority },
      some (.testing tmp priority res))
  | .testing tmp priority res =>
    let last := ref.priority = 0 ∨ res &&& lastBit ≠ 0
    if res &&& keepBit ≠ 0 then
      (ref, onward last priority (if res &&& delBit ≠ 0 then none else some tmp))
    else (ref, some (.getting priority last))
  | .getting priority last =>
    let (completionList, size, _) := ref.completionList.get
    ({ ref with completionList }, if size > 0 then some (.peeking priority last) else none)
  | .peeking priority last => (ref, onward last priority ref.completionList.peek.2)
  | .reposting tmp => (ref, some (.posted tmp))

/-- A put, a new priority, or a step from one of the points. -/
inductive Event (Msg : Type) where
  | put (msg : Msg)
  | setPriority (newPrio : Int)
  | advance (idx : Nat) (res : Nat)

def step (ref : Referencer Msg) : Event Msg → Option (Referencer Msg × Unit)
  | .put msg => some (ref.put msg, ())
  | .setPriority newPrio => some ({ ref with priority := newPrio }, ())
  | .advance idx res => do
    let point ← ref.points[idx]?
    match ref.advance res point with
    | (ref, some next) => return ({ ref with points := ref.points.set idx next }, ())
    | (ref, none) => return ({ ref with points := ref.points.eraseIdx idx }, ())

/-! ### One message at a time -/

/-- Messages are put once, a step is from a point, and functors return no other bits than these. -/
def Allowed (ref : Referencer Msg) : Event Msg → Prop
  | .put msg => msg ∉ ref.puts
  | .setPriority _ => True
  | .advance idx res => idx < ref.points.length ∧ res ∈ [0, lastBit, delBit, lastBit + delBit]

instance (ref : Referencer Msg) (event : Event Msg) : Decidable (ref.Allowed event) := by
  cases event <;> unfold Allowed <;> infer_instance

end Referencer

/-- The message is in the dispatch queue or in its functor. -/
def Point.busy : Point Msg → Bool
  | .posted _ => true
  | .functor _ _ => true
  | _ => false

namespace Referencer

/-- One message at most is posted or in its functor; the functors called are those of the first
messages put, once each; and while the list has a message, there is a point. -/
def Orderly (ref : Referencer Msg) : Prop :=
  ref.points.countP Point.busy ≤ 1 ∧ ref.calls.Nodup ∧ ref.calls <+: ref.puts ∧
    (ref.completionList.messages ≠ [] → ref.points ≠ [])

end Referencer

namespace Point

/-- The point is that of a message whose functor has not been called. -/
def Waits (head : Msg) : Point Msg → Prop
  | .posting msg => msg = head
  | .posted msg => msg = head
  | .start msg => msg = head
  | .sizing msg => msg = head
  | .loop tmp _ => tmp = head
  | .functor _ _ => False
  | .counting _ _ _ => False
  | .testing _ _ _ => False
  | .getting _ _ => False
  | .peeking _ _ => True
  | .reposting tmp => tmp = head

/-- The point is that of a message whose functor has been called, and that will be taken off the
list. -/
def Runs (head : Msg) : Point Msg → Prop
  | .functor tmp _ => tmp = head
  | .counting tmp _ res => tmp = head ∧ res &&& keepBit = 0
  | .testing tmp _ res => tmp = head ∧ res &&& keepBit = 0
  | .getting _ _ => True
  | _ => False

end Point

namespace Referencer

/-- One point for the head of the list, when there is one; the messages in front of it have been
called and taken off. -/
def Turns (ref : Referencer Msg) : List Msg → Prop
  | [] => ref.points = [] ∧ ref.calls = ref.puts
  | head :: rest => ∃ point called, ref.points = [point] ∧ ref.puts = called ++ head :: rest ∧
    (point.Waits head ∧ ref.calls = called ∨ point.Runs head ∧ ref.calls = called ++ [head])

structure Kept (ref : Referencer Msg) : Prop where
  size : ref.completionList.size = ref.completionList.messages.length
  inUse : ∀ msg ∈ ref.completionList.messages, ref.status msg = .inUse
  distinct : ref.puts.Nodup
  turns : ref.Turns ref.completionList.messages

variable {ref : Referencer Msg}

theorem Kept.orderly (kept : Kept ref) : ref.Orderly := by
  obtain ⟨-, -, distinct, turns⟩ := kept
  unfold Orderly
  cases messages : ref.completionList.messages with
  | nil =>
    rw [messages] at turns
    obtain ⟨none, called⟩ := turns
    rw [none, called]
    exact ⟨Nat.zero_le 1, distinct, List.prefix_refl _, fun some => absurd rfl some⟩
  | cons head rest =>
    rw [messages] at turns
    obtain ⟨point, called, one, put, state⟩ := turns
    have calls : ref.calls <+: ref.puts := by
      rw [put]
      rcases state with ⟨-, calls⟩ | ⟨-, calls⟩
      · rw [calls]
        exact List.prefix_append _ _
      · rw [calls]
        exact ⟨rest, List.append_assoc ..⟩
    refine ⟨?_, distinct.sublist calls.sublist, calls, fun _ => ?_⟩
    · rw [one]
      exact List.countP_le_length
    · rw [one]
      exact List.cons_ne_nil _ _

/-! ### Steps -/

/-- The referencer with the point that a step leads to as its only one. -/
def withPoint (result : Referencer Msg × Option (Point Msg)) : Referencer Msg :=
  { result.1 with points := result.2.toList }

/-- The head of the list is at its point, before or after the call of its functor. -/
theorem kept_point (kept : Kept ref) {head : Msg} {rest called : List Msg}
    (messages : ref.completionList.messages = head :: rest) (put : ref.puts = called ++ head :: rest)
    {point : Point Msg}
    (state : point.Waits head ∧ ref.calls = called ∨ point.Runs head ∧ ref.calls = called ++ [head]) :
    Kept (withPoint (ref, some point)) where
  size := kept.size
  inUse := kept.inUse
  distinct := kept.distinct
  turns := by
    show Turns _ ref.completionList.messages
    rw [messages]
    exact ⟨point, called, rfl, put, state⟩

variable [DecidableEq Msg]

theorem kept_put (kept : Kept ref) {msg : Msg} (fresh : msg ∉ ref.puts) : Kept (ref.put msg) where
  size := by
    show ref.completionList.size + 1 = ((ref.completionList.messages ++ [msg]).length : Int)
    rw [kept.size, List.length_append]
    rfl
  inUse := by
    intro other member
    show Function.update ref.status msg .inUse other = .inUse
    rw [Function.update_apply]
    split_ifs with same
    · rfl
    · refine kept.inUse other ((List.mem_append.mp member).resolve_right fun here => ?_)
      exact same (List.mem_singleton.mp here)
  distinct := List.nodup_append.mpr ⟨kept.distinct, List.nodup_singleton msg, fun first member second
    here same => fresh (by rw [List.mem_singleton] at here; rwa [← here, ← same])⟩
  turns := by
    have turns := kept.turns
    have size := kept.size
    show Turns _ (ref.completionList.messages ++ [msg])
    cases messages : ref.completionList.messages with
    | nil =>
      rw [messages] at turns size
      obtain ⟨none, called⟩ := turns
      refine ⟨.posting msg, ref.puts, ?_, rfl, .inl ⟨rfl, called⟩⟩
      show (if ref.completionList.size + 1 = 1 then ref.points ++ [.posting msg] else ref.points) = _
      rw [size, none]
      rfl
    | cons head rest =>
      rw [messages] at turns size
      obtain ⟨point, called, one, put, state⟩ := turns
      refine ⟨point, called, ?_, ?_, state⟩
      · show (if ref.completionList.size + 1 = 1 then ref.points ++ [.posting msg] else ref.points) = _
        have others : ref.completionList.size + 1 ≠ 1 := by
          rw [size, List.length_cons]
          omega
        rw [if_neg others, one]
      · show ref.puts ++ [msg] = _
        rw [put, List.append_assoc]
        rfl

/-- A step of the head in front of the call of its functor, and that call. -/
theorem kept_advance_of_waits (kept : Kept ref) {head : Msg} {rest : List Msg}
    (messages : ref.completionList.messages = head :: rest) (put : ref.puts = ref.calls ++ head :: rest)
    {point : Point Msg} (waits : point.Waits head) (res : Nat) :
    Kept (withPoint (ref.advance res point)) := by
  have onto {next : Point Msg} (waits : next.Waits head) : Kept (withPoint (ref, some next)) :=
    kept_point kept messages put (.inl ⟨waits, rfl⟩)
  cases point with
  | posting msg => exact onto waits
  | posted msg => exact onto waits
  | start msg =>
    refine onto ?_
    split_ifs <;> exact waits
  | sizing msg => exact onto waits
  | loop tmp priority =>
    obtain rfl : tmp = head := waits
    have inUse : ref.status tmp = .inUse := kept.inUse tmp (by rw [messages]; exact List.mem_cons_self)
    have returns : ref.advance res (.loop tmp priority) = ref.call tmp priority :=
      if_neg (not_not.mpr inUse)
    rw [returns]
    have called : Kept { ref with calls := ref.calls ++ [tmp], points := [.functor tmp priority] } :=
      { size := kept.size
        inUse := kept.inUse
        distinct := kept.distinct
        turns := by
          show Turns _ ref.completionList.messages
          rw [messages]
          exact ⟨_, ref.calls, rfl, put, .inr ⟨rfl, rfl⟩⟩ }
    exact called
  | peeking priority last =>
    have returns : ref.advance res (.peeking priority last) = (ref, onward last priority (some head)) := by
      show (ref, onward last priority ref.completionList.messages.head?) = _
      rw [messages]
      rfl
    rw [returns]
    cases last <;> exact onto rfl
  | reposting tmp => exact onto waits
  | functor => exact waits.elim
  | counting => exact waits.elim
  | testing => exact waits.elim
  | getting => exact waits.elim

/-- The head is taken off the list, and the next message is its head. -/
theorem kept_get (kept : Kept ref) {head : Msg} {rest called : List Msg}
    (messages : ref.completionList.messages = head :: rest) (put : ref.puts = called ++ head :: rest)
    (calls : ref.calls = called ++ [head]) (priority : Int) (last : Bool) (res : Nat) :
    Kept (withPoint (ref.advance res (.getting priority last))) := by
  have size := kept.size
  rw [messages] at size
  have returns : ref.advance res (.getting priority last) =
      ({ ref with completionList := { messages := rest, size := ref.completionList.size - 1 } },
        if ref.completionList.size - 1 > 0 then some (.peeking priority last) else none) := by
    show (_, _) = _
    rw [messages]
  rw [returns]
  exact {
    size := by
      show ref.completionList.size - 1 = rest.length
      rw [size, List.length_cons]
      omega
    inUse := fun msg member => kept.inUse msg (by rw [messages]; exact List.mem_cons_of_mem _ member)
    distinct := kept.distinct
    turns := by
      show Turns _ rest
      cases rest with
      | nil =>
        refine ⟨?_, calls.trans put.symm⟩
        show Option.toList (if ref.completionList.size - 1 > 0 then _ else _) = []
        have last : ¬ (([head].length : Int) - 1 > 0) := Int.lt_irrefl 0
        rw [size, if_neg last]
        rfl
      | cons next rest =>
        refine ⟨.peeking priority last, called ++ [head], ?_, ?_, .inl ⟨trivial, calls⟩⟩
        · show Option.toList (if ref.completionList.size - 1 > 0 then _ else _) = _
          rw [size, if_pos (by rw [List.length_cons, List.length_cons]; omega)]
          rfl
        · exact put.trans (List.append_assoc called [head] (next :: rest)).symm }

/-- A step of the head from the call of its functor on, until it is off the list. -/
theorem kept_advance_of_runs (kept : Kept ref) {head : Msg} {rest called : List Msg}
    (messages : ref.completionList.messages = head :: rest) (put : ref.puts = called ++ head :: rest)
    (calls : ref.calls = called ++ [head]) {point : Point Msg} (runs : point.Runs head) {res : Nat}
    (bits : res ∈ [0, lastBit, delBit, lastBit + delBit]) :
    Kept (withPoint (ref.advance res point)) := by
  have onto {next : Point Msg} (runs : next.Runs head) : Kept (withPoint (ref, some next)) :=
    kept_point kept messages put (.inr ⟨runs, calls⟩)
  have noEnd : res &&& endBit = 0 := by
    revert res
    decide
  have noKeep : res &&& keepBit = 0 := by
    revert res
    decide
  cases point with
  | functor tmp priority =>
    have returns : ref.advance res (.functor tmp priority) =
        (ref, some (.counting tmp priority res)) := if_neg (not_not.mpr noEnd)
    rw [returns]
    exact onto ⟨runs, noKeep⟩
  | counting tmp priority res =>
    have counted (next : Int) : Kept { ref with priority := next } :=
      { size := kept.size, inUse := kept.inUse, distinct := kept.distinct, turns := kept.turns }
    have moves (next : Int) : Kept (withPoint ({ ref with priority := next },
        some (.testing tmp priority res))) :=
      kept_point (counted next) messages put (.inr ⟨runs, calls⟩)
    exact moves _
  | testing tmp priority bits =>
    have returns : ref.advance res (.testing tmp priority bits) =
        (ref, some (.getting priority (ref.priority = 0 ∨ bits &&& lastBit ≠ 0))) :=
      if_neg (not_not.mpr runs.2)
    rw [returns]
    exact onto trivial
  | getting priority last => exact kept_get kept messages put calls priority last res
  | posting => exact runs.elim
  | posted => exact runs.elim
  | start => exact runs.elim
  | sizing => exact runs.elim
  | loop => exact runs.elim
  | peeking => exact runs.elim
  | reposting => exact runs.elim

theorem points_advance (res : Nat) (point : Point Msg) :
    (ref.advance res point).1.points = ref.points := by
  unfold advance call
  cases point <;> dsimp only <;> split_ifs <;> rfl

/-- A step from the only point there is. -/
theorem step_advance {point : Point Msg} (one : ref.points = [point]) (res : Nat) :
    ref.step (.advance 0 res) = some (withPoint (ref.advance res point), ()) := by
  have same : (ref.advance res point).1.points = ref.points := points_advance res point
  unfold step withPoint
  rw [one] at same ⊢
  cases advanced : ref.advance res point with
  | mk after next =>
    rw [advanced] at same
    change after.points = [point] at same
    cases next with
    | none =>
      simp only [advanced, List.getElem?_cons_zero, Option.bind_eq_bind, Option.bind_some]
      rw [same]
      rfl
    | some next =>
      simp only [advanced, List.getElem?_cons_zero, Option.bind_eq_bind, Option.bind_some]
      rw [same]
      rfl

theorem step_kept (kept : Kept ref) {event : Event Msg} (allowed : ref.Allowed event) :
    ∃ next, ref.step event = some (next, ()) ∧ Kept next := by
  cases event with
  | put msg => exact ⟨_, rfl, kept_put kept allowed⟩
  | setPriority newPrio => exact ⟨_, rfl, kept.size, kept.inUse, kept.distinct, kept.turns⟩
  | advance idx res =>
    obtain ⟨within, bits⟩ := allowed
    have turns := kept.turns
    cases messages : ref.completionList.messages with
    | nil =>
      rw [messages] at turns
      rw [turns.1] at within
      exact absurd within (Nat.not_lt_zero _)
    | cons head rest =>
      rw [messages] at turns
      obtain ⟨point, called, one, put, state⟩ := turns
      rw [one] at within
      obtain rfl : idx = 0 := Nat.lt_one_iff.mp within
      refine ⟨_, step_advance one res, ?_⟩
      rcases state with ⟨waits, rfl⟩ | ⟨runs, calls⟩
      · exact kept_advance_of_waits kept messages put waits res
      · exact kept_advance_of_runs kept messages put calls runs bits

/-- Over every interleaving of puts of distinct messages, new priorities and steps of workers, from
every priority, the messages are run one at a time, once each and in the order of their puts, and
while the list has a message it is on its way. -/
theorem orderly_throughout (priority : Int) (status : Msg → FlagStatus) (events : List (Event Msg))
    (allowed : EachStep step Allowed { priority, status } events) :
    Throughout step Orderly { priority, status } events := by
  refine throughout_of_keeps (fun ref (kept : Kept ref) => kept.orderly)
    (fun ref event kept allowed => ?_) events _ ?_ allowed
  · obtain ⟨next, returns, again⟩ := step_kept kept allowed
    exact ⟨next, (), returns, again⟩
  · exact {
      size := rfl
      inUse := fun msg member => absurd member List.not_mem_nil
      distinct := List.nodup_nil
      turns := ⟨rfl, rfl⟩ }

/-- Three messages: the second is put while the first is in its functor, which asks to post the rest
again, and the third when the list has become empty. -/
theorem orderly_example :
    Throughout step Orderly ({ priority := -1, status := fun _ => .free } : Referencer Nat)
      [.put 1, .advance 0 0, .advance 0 0, .advance 0 0, .advance 0 0, .put 2,
        .advance 0 (lastBit + delBit), .advance 0 0, .advance 0 0, .advance 0 0, .advance 0 0,
        .advance 0 0, .advance 0 0, .advance 0 0, .advance 0 0, .advance 0 delBit, .advance 0 0,
        .advance 0 0, .advance 0 0, .put 3, .advance 0 0] :=
  orderly_throughout (-1) (fun _ => .free) _ (by decide)

end Referencer

end ObLib
