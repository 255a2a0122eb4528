/-
This file models the `Logger` of Common/include/logger/Logger.hpp under any
interleaving of its clients, one `stop` and its own thread, and proves when it writes
all that was logged before `stop` and returns.

A section that holds the mutex is one step, and so is each read and write of
`_isRunning`. A `wait` lets go of the mutex until it is notified, or wakes by itself,
and then its thread is in front of the mutex again. The thread tests `_isRunning` only
when it has drained the container: a message put between the two is not written when
`stop` comes in between as well, and a thread that waits for messages does not see
that it should stop.
-/

import OrderBookSketch.Library.Run
import Mathlib.Tactic.SplitIfs

namespace ObLib

open Runs

variable {Msg : Type}

/-- Where `run` is: at the test of its outer loop, in front of the mutex, in `wait`, or done. -/
inductive RunPoint where
  | test
  | locking
  | waiting
  | returned
deriving DecidableEq, Repr

/-- How far `stop` is. -/
inductive StopPoint where
  | notCalled
  | notifying
  | joining
deriving DecidableEq, Repr

/-- The logger, with the messages written and those logged so far; the first `early` of these were
logged when `stop` had not been called. -/
structure Logger (Msg : Type) where
  isRunning : Bool := true
  logContainer : List Msg := []
  runPoint : RunPoint := .test
  stopPoint : StopPoint := .notCalled
  written : List Msg := []
  logged : List Msg := []
  early : Nat := 0
deriving DecidableEq, Repr

namespace Logger

/-- `_logCV.notify_one()`; the logger's thread is the only one that waits. -/
def notifyOne (logger : Logger Msg) : Logger Msg :=
  { logger with runPoint := if logger.runPoint = .waiting then .locking else logger.runPoint }

/-- `_logContainer.put(t)`. -/
def put (logger : Logger Msg) (t : Msg) : Logger Msg :=
  { logger with
    logContainer := logger.logContainer ++ [t]
    logged := logger.logged ++ [t]
    early := if logger.stopPoint = .notCalled then logger.early + 1 else logger.early }

def log (logger : Logger Msg) (t : Msg) : Logger Msg := (logger.put t).notifyOne

def popAll (logger : Logger Msg) : Logger Msg :=
  { logger with written := logger.written ++ logger.logContainer, logContainer := [] }

/-- A step of `run`, where it can take one. -/
def run (logger : Logger Msg) : Option (Logger Msg) :=
  match logger.runPoint with
  | .test => some { logger with runPoint := if logger.isRunning then .locking else .returned }
  | .locking =>
    if logger.logContainer.isEmpty then some { logger with runPoint := .waiting }
    else some { logger.popAll with runPoint := .test }
  | .waiting => none
  | .returned => none

/-- A call of a client, the steps of `stop`, a step of `run`, and a wait that ends by itself. -/
inductive Event (Msg : Type) where
  | log (t : Msg)
  | stop
  | notify
  | run
  | wake

def step (logger : Logger Msg) : Event Msg → Option (Logger Msg × Unit)
  | .log t => some (logger.log t, ())
  | .stop => some ({ logger with isRunning := false, stopPoint := .notifying }, ())
  | .notify => some ({ logger with stopPoint := .joining }.notifyOne, ())
  | .run => logger.run.map fun logger => (logger, ())
  | .wake => some (logger.notifyOne, ())

/-- `stop` is called once, and `run` takes steps where it can. -/
def Allowed (logger : Logger Msg) : Event Msg → Prop
  | .log _ => True
  | .stop => logger.stopPoint = .notCalled
  | .notify => logger.stopPoint = .notifying
  | .run => logger.runPoint = .test ∨ logger.runPoint = .locking
  | .wake => True

instance (logger : Logger Msg) (event : Event Msg) : Decidable (logger.Allowed event) := by
  cases event <;> unfold Allowed <;> infer_instance

/-- `run` waits on an empty container when `stop` has notified it. -/
def Stuck (logger : Logger Msg) : Prop :=
  logger.stopPoint = .joining ∧ logger.runPoint = .waiting ∧ logger.logContainer = []

/-- When `run` has returned, the messages logged before `stop` have been written, each once and in
the order of the calls; and `run` is not stuck. -/
structure Served (logger : Logger Msg) : Prop where
  written : logger.runPoint = .returned →
    logger.logged.take logger.early <+: logger.written ∧ logger.written <+: logger.logged
  awake : ¬ logger.Stuck

/-- When `run` finds that it should stop, what was logged before `stop` has been written; and when
it looks at the container after the notification, that has a message. -/
def Timely (logger : Logger Msg) : Event Msg → Prop
  | .run =>
    (logger.runPoint = .test → logger.isRunning = true ∨ logger.early ≤ logger.written.length) ∧
      (logger.runPoint = .locking → logger.stopPoint ≠ .joining ∨ logger.logContainer ≠ [])
  | _ => True

instance [DecidableEq Msg] (logger : Logger Msg) (event : Event Msg) :
    Decidable (logger.Timely event) := by
  cases event <;> unfold Timely <;> infer_instance

/-! ### Steps -/

/-- The messages logged are those written and then those in the container. -/
structure Ordered (logger : Logger Msg) : Prop where
  conserved : logger.logged = logger.written ++ logger.logContainer
  early : logger.early ≤ logger.logged.length
  running : logger.stopPoint = .notCalled → logger.isRunning = true
  returned : logger.runPoint = .returned → logger.isRunning = false

variable {logger : Logger Msg}

theorem waiting_notifyOne (logger : Logger Msg) : logger.notifyOne.runPoint ≠ .waiting := by
  unfold notifyOne
  dsimp only
  split_ifs with waiting
  · exact nofun
  · exact waiting

theorem returned_notifyOne : logger.notifyOne.runPoint = .returned ↔ logger.runPoint = .returned := by
  unfold notifyOne
  dsimp only
  split_ifs with waiting
  · rw [waiting]
    exact ⟨nofun, nofun⟩
  · exact Iff.rfl

theorem ordered_notifyOne (ordered : Ordered logger) : Ordered logger.notifyOne where
  conserved := ordered.conserved
  early := ordered.early
  running := ordered.running
  returned := fun returned => ordered.returned (returned_notifyOne.mp returned)

/-- What is notified is not stuck. -/
theorem served_notifyOne (written : logger.runPoint = .returned →
    logger.logged.take logger.early <+: logger.written ∧ logger.written <+: logger.logged) :
    Served logger.notifyOne where
  written := fun returned => written (returned_notifyOne.mp returned)
  awake := fun stuck => waiting_notifyOne logger stuck.2.1

theorem ordered_put (ordered : Ordered logger) (t : Msg) : Ordered (logger.put t) where
  conserved := by
    show logger.logged ++ [t] = logger.written ++ (logger.logContainer ++ [t])
    rw [ordered.conserved, List.append_assoc]
  early := by
    have before := ordered.early
    show (if logger.stopPoint = .notCalled then logger.early + 1 else logger.early) ≤
      (logger.logged ++ [t]).length
    rw [List.length_append, List.length_singleton]
    split_ifs
    · exact Nat.succ_le_succ before
    · exact Nat.le_succ_of_le before
  running := ordered.running
  returned := ordered.returned

/-- A message put when `run` has returned is not one that was logged before `stop`. -/
theorem written_put (ordered : Ordered logger) (served : Served logger) (t : Msg)
    (returned : logger.runPoint = .returned) :
    (logger.put t).logged.take (logger.put t).early <+: logger.written ∧
      logger.written <+: (logger.put t).logged := by
  obtain ⟨early, inOrder⟩ := served.written returned
  have called : logger.stopPoint ≠ .notCalled := fun notCalled =>
    absurd (ordered.running notCalled) (Bool.eq_false_iff.mp (ordered.returned returned))
  show (logger.logged ++ [t]).take (if logger.stopPoint = .notCalled then _ else _) <+: _ ∧
    _ <+: logger.logged ++ [t]
  rw [if_neg called, List.take_append_of_le_length ordered.early]
  exact ⟨early, inOrder.trans (List.prefix_append _ _)⟩

theorem popAll_conserved (ordered : Ordered logger) :
    logger.popAll.logged = logger.popAll.written ++ logger.popAll.logContainer := by
  show logger.logged = (logger.written ++ logger.logContainer) ++ []
  rw [List.append_nil]
  exact ordered.conserved

/-- All that was logged before `stop` is written exactly when that many messages are. -/
theorem written_iff (ordered : Ordered logger) :
    logger.logged.take logger.early <+: logger.written ∧ logger.written <+: logger.logged ↔
      logger.early ≤ logger.written.length := by
  have inOrder : logger.written <+: logger.logged := by
    rw [ordered.conserved]
    exact List.prefix_append _ _
  rw [and_iff_left inOrder]
  constructor
  · intro early
    have length := early.length_le
    rwa [List.length_take_of_le ordered.early] at length
  · intro enough
    rw [ordered.conserved, List.take_append_of_le_length enough]
    exact List.take_prefix _ _

/-- A step of `run` keeps the logger in order, and serves exactly when it is timely. -/
theorem run_served_iff (ordered : Ordered logger)
    (runs : logger.runPoint = .test ∨ logger.runPoint = .locking) :
    ∃ next, logger.run = some next ∧ (Served next ↔ logger.Timely .run) ∧ Ordered next := by
  rcases runs with test | locking
  · cases running : logger.isRunning with
    | true =>
      refine ⟨{ logger with runPoint := .locking }, by unfold run; rw [test, running]; rfl, ?_, ?_⟩
      · refine iff_of_true ⟨nofun, fun stuck => nomatch stuck.2.1⟩ ⟨fun _ => .inl running, ?_⟩
        rw [test]
        exact nofun
      · exact { ordered with returned := nofun }
    | false =>
      refine ⟨{ logger with runPoint := .returned }, by unfold run; rw [test, running]; rfl, ?_, ?_⟩
      · constructor
        · intro served
          refine ⟨fun _ => .inr ((written_iff ordered).mp (served.written rfl)), ?_⟩
          rw [test]
          exact nofun
        · intro timely
          have enough := (timely.1 test).resolve_left (Bool.eq_false_iff.mp running)
          exact ⟨fun _ => (written_iff ordered).mpr enough, fun stuck => nomatch stuck.2.1⟩
      · exact { ordered with returned := fun _ => running }
  · cases empty : logger.logContainer with
    | nil =>
      refine ⟨{ logger with runPoint := .waiting }, by unfold run; rw [locking, empty]; rfl, ?_, ?_⟩
      · constructor
        · intro served
          refine ⟨?_, fun _ => .inl fun joining => served.awake ⟨joining, rfl, empty⟩⟩
          rw [locking]
          exact nofun
        · intro timely
          have notJoining := (timely.2 locking).resolve_right (not_not.mpr empty)
          exact ⟨nofun, fun stuck => notJoining stuck.1⟩
      · exact { ordered with returned := nofun }
    | cons first rest =>
      refine ⟨{ logger.popAll with runPoint := .test }, by unfold run; rw [locking, empty]; rfl, ?_, ?_⟩
      · refine iff_of_true ⟨nofun, fun stuck => nomatch stuck.2.1⟩ ⟨?_, fun _ => .inr ?_⟩
        · rw [locking]
          exact nofun
        · rw [empty]
          exact List.cons_ne_nil _ _
      · exact {
          conserved := popAll_conserved ordered
          early := ordered.early
          running := ordered.running
          returned := nofun }

/-- A stuck `run` never returns, whatever steps are taken, but for another call of `log`. -/
theorem stuck_throughout (stuck : logger.Stuck) (events : List (Event Msg))
    (allowed : EachStep step
      (fun logger event => logger.Allowed event ∧ ∀ t, event ≠ .log t) logger events) :
    Throughout step (fun logger => logger.runPoint ≠ .returned) logger events := by
  refine throughout_of_keeps
    (fun logger (asleep : logger.stopPoint = .joining ∧ logger.logContainer = [] ∧
      (logger.runPoint = .waiting ∨ logger.runPoint = .locking)) => ?_)
    (fun logger event asleep allowed => ?_) events logger ⟨stuck.1, stuck.2.2, .inl stuck.2.1⟩ allowed
  · rcases asleep.2.2 with waiting | locking
    · rw [waiting]
      exact nofun
    · rw [locking]
      exact nofun
  · obtain ⟨joining, empty, point⟩ := asleep
    obtain ⟨allowed, silent⟩ := allowed
    cases event with
    | log t => exact absurd rfl (silent t)
    | stop => exact absurd (joining.symm.trans allowed) nofun
    | notify => exact absurd (joining.symm.trans allowed) nofun
    | run =>
      have locking : logger.runPoint = .locking := by
        rcases allowed with test | locking
        · rw [test] at point
          rcases point with waiting | locking
          · cases waiting
          · cases locking
        · exact locking
      refine ⟨{ logger with runPoint := .waiting }, (), ?_, joining, empty, .inl rfl⟩
      unfold step run
      rw [locking, empty]
      rfl
    | wake =>
      refine ⟨logger.notifyOne, (), rfl, joining, empty, .inr ?_⟩
      show (if logger.runPoint = .waiting then RunPoint.locking else logger.runPoint) = .locking
      rcases point with waiting | locking
      · exact if_pos waiting
      · rw [locking]
        rfl

/-- Over every interleaving, all that was logged before `stop` is written when `run` has returned,
and `run` is never stuck, exactly when each step of `run` is timely. -/
theorem served_throughout_iff (events : List (Event Msg)) (allowed : EachStep step Allowed {} events) :
    Throughout step Served {} events ↔ EachStep step Timely {} events := by
  refine throughout_iff (fun logger event (ordered : Ordered logger) served allowed => ?_) events _
    ⟨rfl, Nat.le_refl 0, fun _ => rfl, nofun⟩ ⟨nofun, fun stuck => nomatch stuck.2.1⟩ allowed
  cases event with
  | log t =>
    refine ⟨_, _, rfl, iff_of_true ?_ trivial, fun _ => ordered_notifyOne (ordered_put ordered t)⟩
    exact served_notifyOne fun returned => written_put ordered served t returned
  | stop =>
    refine ⟨_, _, rfl, iff_of_true ⟨served.written, fun stuck => nomatch stuck.1⟩ trivial, fun _ => ?_⟩
    exact { ordered with running := nofun, returned := fun _ => rfl }
  | notify =>
    refine ⟨_, _, rfl, iff_of_true (served_notifyOne served.written) trivial, fun _ => ?_⟩
    exact ordered_notifyOne { ordered with running := nofun }
  | run =>
    obtain ⟨next, returns, servedIff, again⟩ := run_served_iff ordered allowed
    exact ⟨next, (), by rw [step, returns]; rfl, servedIff, fun _ => again⟩
  | wake =>
    exact ⟨_, _, rfl, iff_of_true (served_notifyOne served.written) trivial,
      fun _ => ordered_notifyOne ordered⟩

/-- Two messages, the second logged while the thread is in front of the mutex, and a stop that comes
while it still has them to write. -/
theorem served_throughout_example :
    Throughout step Served ({} : Logger Nat)
      [.run, .run, .log 1, .log 2, .stop, .notify, .run, .run] :=
  (served_throughout_iff _ (by decide)).mpr (by decide)

/-- A message logged between the drain and the test of the flag is not written when `stop` comes in
between as well; and a stop that finds the thread waiting leaves it waiting. -/
theorem stop_loses_or_hangs :
    ¬ Throughout step Served ({} : Logger Nat) [.log 1, .stop, .run] ∧
      ¬ Throughout step Served ({} : Logger Nat) [.run, .run, .stop, .notify, .run] :=
  ⟨(served_throughout_iff _ (by decide)).not.mpr (by decide),
    (served_throughout_iff _ (by decide)).not.mpr (by decide)⟩

end Logger

end ObLib
