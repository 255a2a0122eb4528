/-
This file proves what a driver runs that starts with the message that `add` returned and
takes each next one with `getNext`.

`getNext` takes the message that was run off the list and returns the one behind it; when
there is none, it returns the message that it has taken off.
-/

import OrderBookSketch.ReferencerDispatch

namespace ObLib

open Loops

variable {Msg : Type} [DecidableEq Msg]

namespace Referencer

/-- `add`: the message to start with, when the list was empty. -/
def add (ref : Referencer Msg) (msg : Msg) : Referencer Msg × Option Msg :=
  let (completionList, size) := ref.completionList.put msg
  let ref := { ref with status := Function.update ref.status msg .inUse, completionList }
  if size = 1 then (ref, some msg) else (ref, none)

/-- `getNext`: `get` sets its argument to the message that it takes off. -/
def getNext (ref : Referencer Msg) : Referencer Msg × Option Msg :=
  let (completionList, size, tmp) := ref.completionList.get
  let ref := { ref with completionList }
  if size > 0 then (ref, ref.completionList.peek.2) else (ref, tmp)

/-- Messages are added one after another; the message of the first `add` is the one to start with. -/
def addAll (ref : Referencer Msg) : List Msg → Referencer Msg × Option Msg
  | [] => (ref, none)
  | msg :: msgs =>
    let (ref, first) := ref.add msg
    let (ref, later) := ref.addAll msgs
    (ref, first.or later)

/-- The driver at a message, with the messages that it has run: it runs the message and takes the
next one, until there is none. -/
def drive (state : Referencer Msg × Option Msg × List Msg) :
    (Referencer Msg × Option Msg × List Msg) ⊕ List Msg :=
  match state with
  | (_, none, ran) => .inr ran
  | (ref, some msg, ran) =>
    let (ref, next) := ref.getNext
    .inl (ref, next, ran ++ [msg])

/-- The messages that the driver runs, when it stops within so many turns. -/
def driven (turns : Nat) (ref : Referencer Msg) (msgs : List Msg) : Option (List Msg) :=
  let (ref, first) := ref.addAll msgs
  loop drive turns (ref, first, [])

/-! ### What the driver runs -/

/-- The list counts its messages. -/
def Counts (ref : Referencer Msg) : Prop :=
  ref.completionList.size = ref.completionList.messages.length

variable {ref : Referencer Msg}

theorem addAll_spec (counts : ref.Counts) (msgs : List Msg) :
    (ref.addAll msgs).1.Counts ∧
      (ref.addAll msgs).1.completionList.messages = ref.completionList.messages ++ msgs ∧
      (ref.completionList.messages = [] → (ref.addAll msgs).2 = msgs.head?) := by
  induction msgs generalizing ref with
  | nil => exact ⟨counts, (List.append_nil _).symm, fun _ => rfl⟩
  | cons msg msgs inductionHypothesis =>
    have list : (ref.add msg).1.completionList =
        ⟨ref.completionList.messages ++ [msg], ref.completionList.size + 1⟩ := by
      show (ite _ _ _ : Referencer Msg × Option Msg).1.completionList = _
      split_ifs <;> rfl
    have counted : (ref.add msg).1.Counts := by
      unfold Counts
      rw [list, counts, List.length_append]
      rfl
    obtain ⟨again, messages, -⟩ := inductionHypothesis counted
    refine ⟨again, messages.trans ?_, fun empty => ?_⟩
    · rw [list, List.append_assoc, List.singleton_append]
    · have first : (ref.add msg).2 = some msg := by
        have one : ref.completionList.size + 1 = 1 := by
          rw [counts, empty]
          rfl
        show (ite _ _ _ : Referencer Msg × Option Msg).2 = some msg
        rw [if_pos one]
      show (ref.add msg).2.or _ = some msg
      rw [first, Option.some_or]

omit [DecidableEq Msg] in
/-- The message that is taken off is the one that was run; behind the last one it comes back. -/
theorem getNext_spec (counts : ref.Counts) {msg : Msg} {rest : List Msg}
    (messages : ref.completionList.messages = msg :: rest) :
    ref.getNext.1.Counts ∧ ref.getNext.1.completionList.messages = rest ∧
      ref.getNext.2 = some (rest.headD msg) := by
  have size : ref.completionList.size - 1 = rest.length := by
    rw [counts, messages, List.length_cons]
    omega
  unfold getNext
  simp only [MsgList.get_cons messages, size]
  cases rest with
  | nil => exact ⟨rfl, rfl, rfl⟩
  | cons next rest =>
    have more : ((next :: rest).length : Int) > 0 := by
      rw [List.length_cons]
      omega
    rw [if_pos more]
    exact ⟨rfl, rfl, rfl⟩

omit [DecidableEq Msg] in
theorem getNext_nil (empty : ref.completionList.messages = []) : ref.getNext.2 = none := by
  simp only [getNext, MsgList.get, empty]
  rfl

omit [DecidableEq Msg] in
theorem drive_eq (msg : Msg) (ran : List Msg) {next : Option Msg} (follows : ref.getNext.2 = next) :
    drive (ref, some msg, ran) = .inl (ref.getNext.1, next, ran ++ [msg]) := by
  rw [← follows]
  rfl

omit [DecidableEq Msg] in
theorem loop_drive {msg : Msg} {rest : List Msg} (counts : ref.Counts)
    (messages : ref.completionList.messages = msg :: rest) (ran : List Msg) :
    loop drive (rest.length + 3) (ref, some msg, ran) =
      some (ran ++ msg :: rest ++ [rest.getLastD msg]) := by
  induction rest generalizing ref msg ran with
  | nil =>
    obtain ⟨-, empty, again⟩ := getNext_spec counts messages
    have once : drive (ref, some msg, ran) = .inl (ref.getNext.1, some msg, ran ++ [msg]) :=
      drive_eq msg ran again
    have twice : drive (ref.getNext.1, some msg, ran ++ [msg]) =
        .inl (ref.getNext.1.getNext.1, none, ran ++ [msg] ++ [msg]) :=
      drive_eq msg _ (getNext_nil empty)
    have stops : drive (ref.getNext.1.getNext.1, none, ran ++ [msg] ++ [msg]) =
        .inr (ran ++ [msg] ++ [msg]) := rfl
    rw [List.length_nil, loop_inl _ once, loop_inl _ twice, loop_inr _ stops]
    rfl
  | cons next rest inductionHypothesis =>
    obtain ⟨counted, left, follows⟩ := getNext_spec counts messages
    have turn : drive (ref, some msg, ran) = .inl (ref.getNext.1, some next, ran ++ [msg]) :=
      drive_eq msg ran follows
    rw [List.length_cons, loop_inl _ turn, inductionHypothesis counted left, List.getLastD_cons,
      List.append_assoc ran, List.singleton_append]

/-- For every list of messages but the empty one, the driver runs the last message twice, and so it
never runs every message exactly once. -/
theorem driven_ne (ref : Referencer Msg) (fresh : ref.completionList = {}) (msgs : List Msg)
    (some : msgs ≠ []) :
    driven (msgs.length + 2) ref msgs = .some (msgs ++ [msgs.getLast some]) ∧
      ∀ turns, driven turns ref msgs ≠ .some msgs := by
  have counts : ref.Counts := by
    unfold Counts
    rw [fresh]
    rfl
  obtain ⟨counted, messages, first⟩ := addAll_spec counts msgs
  rw [fresh] at messages first
  have runs : driven (msgs.length + 2) ref msgs = .some (msgs ++ [msgs.getLast some]) := by
    unfold driven
    cases msgs with
    | nil => exact absurd rfl some
    | cons msg rest =>
      show loop drive _ ((ref.addAll (msg :: rest)).1, (ref.addAll (msg :: rest)).2, []) = _
      rw [first rfl, List.getLast_eq_getLastD]
      exact loop_drive counted messages []
  refine ⟨runs, fun turns stops => ?_⟩
  have same := congrArg List.length (loop_unique runs stops)
  rw [List.length_append, List.length_singleton] at same
  omega

theorem driven_ne_example :
    driven 5 { priority := -1, status := fun _ => .free } [1, 2, 3] = .some [1, 2, 3, 3] ∧
      ∀ turns, driven turns { priority := -1, status := fun _ => .free } [1, 2, 3] ≠ .some [1, 2, 3] :=
  driven_ne _ rfl [1, 2, 3] (List.cons_ne_nil _ _)

/-- A single message is run twice. -/
theorem single_message_is_run_twice :
    driven 3 ({ priority := -1, status := fun _ => .free } : Referencer Nat) [1] = .some [1, 1] :=
  rfl

end Referencer

end ObLib
