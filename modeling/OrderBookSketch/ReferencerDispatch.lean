/-
This file proves what one dispatch of a `Referencer` runs, and when that keeps to its
budget.

A dispatch is a call of `execute` for the message at the head of the list, by itself: the
steps of its point one after another, until it reposts a message or returns. Its functors
return 0, and each may put further messages before it does. The budget is copied when
`execute` starts, but it is the referencer's own that is counted down.
-/

import OrderBookSketch.Library.Loop
import OrderBookSketch.Referencer

namespace ObLib

open Loops Runs

variable {Msg : Type}

theorem MsgList.get_cons {list : MsgList Msg} {elem : Msg} {messages : List Msg}
    (here : list.messages = elem :: messages) :
    list.get = (⟨messages, list.size - 1⟩, list.size - 1, some elem) := by
  rw [get, here]

/-- A worker in `execute`, with what the functors put that it has not called, one after another. -/
structure Executing (Msg : Type) where
  ref : Referencer Msg
  point : Point Msg
  spawns : List (List Msg)

variable [DecidableEq Msg]

namespace Executing

/-- Where a step leads to; `execute` returns when it leads nowhere. -/
def onto (spawns : List (List Msg)) :
    Referencer Msg × Option (Point Msg) → Executing Msg ⊕ (Referencer Msg × Option Msg)
  | (ref, some point) => .inl ⟨ref, point, spawns⟩
  | (ref, none) => .inr (ref, none)

/-- One step of `execute`; the message that it reposts is the result. -/
def turn (executing : Executing Msg) : Executing Msg ⊕ (Referencer Msg × Option Msg) :=
  let ⟨ref, point, spawns⟩ := executing
  match point with
  | .reposting tmp => .inr (ref, some tmp)
  | .functor _ _ => onto spawns.tail (((spawns.headD []).foldl Referencer.put ref).advance 0 point)
  | _ => onto spawns (ref.advance 0 point)

end Executing

namespace Referencer

/-- A dispatch, in at most six steps for each message that it can come to, and three more. -/
def execute (ref : Referencer Msg) (msg : Msg) (spawns : List (List Msg)) :
    Option (Referencer Msg × Option Msg) :=
  loop Executing.turn (6 * (ref.completionList.messages.length + spawns.flatten.length) + 3)
    ⟨ref, .start msg, spawns⟩

/-- The list counts its messages, and they are all in use. -/
structure Ready (ref : Referencer Msg) : Prop where
  size : ref.completionList.size = ref.completionList.messages.length
  inUse : ∀ msg ∈ ref.completionList.messages, ref.status msg = .inUse

variable {ref : Referencer Msg}

theorem Ready.put (ready : ref.Ready) (msg : Msg) : (ref.put msg).Ready where
  size := by
    show ref.completionList.size + 1 = ((ref.completionList.messages ++ [msg]).length : Int)
    rw [ready.size, List.length_append]
    rfl
  inUse := by
    intro other member
    show Function.update ref.status msg .inUse other = .inUse
    rw [Function.update_apply]
    split_ifs with same
    · rfl
    · refine ready.inUse other ((List.mem_append.mp member).resolve_right fun here => ?_)
      exact same (List.mem_singleton.mp here)

/-- Messages put one after another. -/
theorem foldl_put (ready : ref.Ready) (msgs : List Msg) :
    (msgs.foldl put ref).Ready ∧
      (msgs.foldl put ref).completionList.messages = ref.completionList.messages ++ msgs ∧
      (msgs.foldl put ref).priority = ref.priority ∧ (msgs.foldl put ref).calls = ref.calls ∧
      (msgs.foldl put ref).puts = ref.puts ++ msgs := by
  induction msgs generalizing ref with
  | nil => exact ⟨ready, (List.append_nil _).symm, rfl, rfl, (List.append_nil _).symm⟩
  | cons msg msgs inductionHypothesis =>
    obtain ⟨again, messages, priority, calls, puts⟩ := inductionHypothesis (ready.put msg)
    refine ⟨again, messages.trans ?_, priority, calls, puts.trans ?_⟩
    · show (ref.completionList.messages ++ [msg]) ++ msgs = _
      rw [List.append_assoc, List.singleton_append]
    · show (ref.puts ++ [msg]) ++ msgs = _
      rw [List.append_assoc, List.singleton_append]

/-- The referencer when the functor of the message has returned and the budget is counted. -/
def called (ref : Referencer Msg) (tmp : Msg) (priority : Int) (puts : List Msg) : Referencer Msg :=
  let ref := puts.foldl put { ref with calls := ref.calls ++ [tmp] }
  { ref with priority := if priority > 0 then ref.priority - 1 else ref.priority }

/-- The head of the list is taken off. -/
def taken (ref : Referencer Msg) : Referencer Msg :=
  { ref with completionList := ref.completionList.get.1 }

theorem called_spec (ready : ref.Ready) (tmp : Msg) (priority : Int) (puts : List Msg) :
    let after := ref.called tmp priority puts
    after.Ready ∧ after.completionList.messages = ref.completionList.messages ++ puts ∧
      after.priority = (if priority > 0 then ref.priority - 1 else ref.priority) ∧
      after.calls = ref.calls ++ [tmp] ∧ after.puts = ref.puts ++ puts := by
  have entered : ({ ref with calls := ref.calls ++ [tmp] } : Referencer Msg).Ready :=
    ⟨ready.size, ready.inUse⟩
  obtain ⟨⟨size, inUse⟩, messages, same, calls, all⟩ := foldl_put entered puts
  refine ⟨⟨size, inUse⟩, messages, ?_, calls, all⟩
  show (if priority > 0 then (puts.foldl put _).priority - 1 else (puts.foldl put _).priority) = _
  rw [same]

omit [DecidableEq Msg] in
theorem taken_ready (ready : ref.Ready) {tmp : Msg} {rest : List Msg}
    (messages : ref.completionList.messages = tmp :: rest) :
    ref.taken.Ready ∧ ref.taken.completionList.messages = rest := by
  have list : ref.taken.completionList = ⟨rest, ref.completionList.size - 1⟩ :=
    congrArg Prod.fst (MsgList.get_cons messages)
  refine ⟨⟨?_, ?_⟩, by rw [list]⟩
  · rw [list]
    show ref.completionList.size - 1 = (rest.length : Int)
    rw [ready.size, messages, List.length_cons]
    omega
  · rw [list]
    intro msg member
    refine ready.inUse msg ?_
    rw [messages]
    exact List.mem_cons_of_mem _ member

/-- The referencer when the functor of its first message has been called and the message is taken
off. -/
theorem taken_called (ready : ref.Ready) {tmp : Msg} {rest : List Msg}
    (messages : ref.completionList.messages = tmp :: rest) (priority : Int) (puts : List Msg) :
    let after := (ref.called tmp priority puts).taken
    after.Ready ∧ after.completionList.messages = rest ++ puts ∧
      after.priority = (if priority > 0 then ref.priority - 1 else ref.priority) ∧
      after.calls = ref.calls ++ [tmp] := by
  obtain ⟨called, listed, budget, calls, -⟩ := called_spec ready tmp priority puts
  rw [messages] at listed
  obtain ⟨again, left⟩ := taken_ready called listed
  exact ⟨again, left, budget, calls⟩

/-- That call is one more, and a budget below zero stays so. -/
theorem taken_called_counts (ready : ref.Ready) {tmp : Msg} {rest : List Msg}
    (messages : ref.completionList.messages = tmp :: rest) (priority : Int) (puts : List Msg) :
    let after := (ref.called tmp priority puts).taken
    after.calls.length = ref.calls.length + 1 ∧ (ref.priority < 0 → after.priority < 0) := by
  obtain ⟨-, -, budget, calls⟩ := taken_called ready messages priority puts
  constructor
  · rw [calls, List.length_append, List.length_singleton]
  · intro negative
    rw [budget]
    split_ifs <;> omega

/-! ### The steps of a dispatch -/

open Executing

/-- The head of the list is called, and its budget counted. -/
theorem loop_call (fuel : Nat) {tmp : Msg} (inUse : ref.status tmp = .inUse) (priority : Int)
    (spawns : List (List Msg)) :
    let after := ref.called tmp priority (spawns.headD [])
    loop turn (fuel + 4) ⟨ref, .loop tmp priority, spawns⟩ =
      loop turn fuel ⟨after, .getting priority (decide (after.priority = 0)), spawns.tail⟩ := by
  intro after
  have call : turn ⟨ref, .loop tmp priority, spawns⟩ =
      .inl ⟨{ ref with calls := ref.calls ++ [tmp] }, .functor tmp priority, spawns⟩ := by
    simp only [turn, advance, inUse, ne_eq, not_true, if_false]
    rfl
  have functor : turn ⟨{ ref with calls := ref.calls ++ [tmp] }, .functor tmp priority, spawns⟩ =
      .inl ⟨(spawns.headD []).foldl put { ref with calls := ref.calls ++ [tmp] },
        .counting tmp priority 0, spawns.tail⟩ := rfl
  have count : turn ⟨(spawns.headD []).foldl put { ref with calls := ref.calls ++ [tmp] },
      .counting tmp priority 0, spawns.tail⟩ =
      .inl ⟨after, .testing tmp priority 0, spawns.tail⟩ := rfl
  have test : turn ⟨after, .testing tmp priority 0, spawns.tail⟩ =
      .inl ⟨after, .getting priority (decide (after.priority = 0)), spawns.tail⟩ := by
    have last : decide (after.priority = 0 ∨ 0 &&& lastBit ≠ 0) = decide (after.priority = 0) :=
      decide_eq_decide.mpr (or_iff_left (by decide))
    rw [← last]
    rfl
  rw [loop_inl _ call, loop_inl _ functor, loop_inl _ count, loop_inl fuel test]

/-- The last message is taken off, and `execute` returns. -/
theorem loop_last (fuel : Nat) {tmp : Msg} (ready : ref.Ready)
    (messages : ref.completionList.messages = [tmp]) (priority : Int) (last : Bool)
    (spawns : List (List Msg)) :
    loop turn (fuel + 1) ⟨ref, .getting priority last, spawns⟩ = some (ref.taken, none) := by
  refine loop_inr fuel ?_
  have none : ¬ ref.completionList.size - 1 > 0 := by
    rw [ready.size, messages, List.length_singleton]
    omega
  simp only [turn, advance, MsgList.get_cons messages, if_neg none, taken]
  rfl

/-- A message is taken off, and the next one is read. -/
theorem loop_next (fuel : Nat) {tmp next : Msg} {rest : List Msg} (ready : ref.Ready)
    (messages : ref.completionList.messages = tmp :: next :: rest) (priority : Int) (last : Bool)
    (spawns : List (List Msg)) :
    loop turn (fuel + 2) ⟨ref, .getting priority last, spawns⟩ =
      loop turn fuel ⟨ref.taken, if last then .reposting next else .loop next priority, spawns⟩ := by
  have more : ref.completionList.size - 1 > 0 := by
    rw [ready.size, messages, List.length_cons, List.length_cons]
    omega
  have get : turn ⟨ref, .getting priority last, spawns⟩ =
      .inl ⟨ref.taken, .peeking priority last, spawns⟩ := by
    simp only [turn, advance, MsgList.get_cons messages, if_pos more, taken]
    rfl
  have peek : turn ⟨ref.taken, .peeking priority last, spawns⟩ =
      .inl ⟨ref.taken, if last then .reposting next else .loop next priority, spawns⟩ := by
    simp only [turn, advance, taken, MsgList.get_cons messages]
    rfl
  rw [loop_inl _ get, loop_inl _ peek]

/-! ### What a dispatch runs -/

/-- What a dispatch comes to, from the loop on: it counts the referencer's budget down when the copy
is positive; a budget below zero stays so, and then all messages that wait are called, and no more
of them exactly when the functors of these put none. -/
structure Dispatched (priority : Int) (waiting : Nat) (spawns : List (List Msg))
    (before after : Referencer Msg) : Prop where
  ready : after.Ready
  counted : 0 < priority → after.priority < before.priority
  below : before.priority < 0 → after.priority < 0
  least : before.priority < 0 → before.calls.length + waiting ≤ after.calls.length
  most : before.priority < 0 → (after.calls.length ≤ before.calls.length + waiting ↔
    ∀ puts ∈ spawns.take waiting, puts = [])

omit [DecidableEq Msg] in
theorem forall_take_succ (spawns : List (List Msg)) (waiting : Nat) :
    (∀ puts ∈ spawns.take (waiting + 1), puts = []) ↔
      spawns.headD [] = [] ∧ ∀ puts ∈ spawns.tail.take waiting, puts = [] := by
  cases spawns with
  | nil => simp
  | cons puts spawns => exact List.forall_mem_cons

omit [DecidableEq Msg] in
theorem length_flatten (spawns : List (List Msg)) :
    spawns.flatten.length = (spawns.headD []).length + spawns.tail.flatten.length := by
  cases spawns with
  | nil => rfl
  | cons puts spawns => exact List.length_append

/-- A message whose functor has been called and that is taken off, as a dispatch of it alone. -/
theorem dispatched_one (ready : ref.Ready) {tmp : Msg} {rest : List Msg}
    (messages : ref.completionList.messages = tmp :: rest) (priority : Int) (spawns : List (List Msg))
    (ends : rest ++ spawns.headD [] = [] ∨ (ref.called tmp priority (spawns.headD [])).taken.priority = 0) :
    Dispatched priority (rest.length + 1) spawns ref
      (ref.called tmp priority (spawns.headD [])).taken := by
  obtain ⟨again, -, budget, -⟩ := taken_called ready messages priority (spawns.headD [])
  obtain ⟨length, below⟩ := taken_called_counts ready messages priority (spawns.headD [])
  have alone (negative : ref.priority < 0) : rest = [] ∧ spawns.headD [] = [] :=
    List.append_eq_nil_iff.mp (ends.resolve_right (Int.ne_of_lt (below negative)))
  exact {
    ready := again
    counted := fun positive => by
      rw [budget, if_pos positive]
      omega
    below := below
    least := fun negative =>
      Nat.le_of_eq (by rw [length, (alone negative).1, List.length_nil])
    most := fun negative => by
      rw [forall_take_succ, length, (alone negative).1, List.length_nil]
      exact iff_of_true (Nat.le_refl _) ⟨(alone negative).2, by rw [List.take_zero]; exact nofun⟩ }

/-- A message whose functor has been called and that is taken off, and a dispatch of the others. -/
theorem Dispatched.step (ready : ref.Ready) {tmp next : Msg} {rest others : List Msg}
    (messages : ref.completionList.messages = tmp :: rest) {priority : Int} {spawns : List (List Msg)}
    (more : rest ++ spawns.headD [] = next :: others) {after : Referencer Msg}
    (dispatched : Dispatched priority (others.length + 1) spawns.tail
      (ref.called tmp priority (spawns.headD [])).taken after) :
    Dispatched priority (rest.length + 1) spawns ref after := by
  obtain ⟨-, -, budget, -⟩ := taken_called ready messages priority (spawns.headD [])
  obtain ⟨length, below⟩ := taken_called_counts ready messages priority (spawns.headD [])
  have waiting := congrArg List.length more
  rw [List.length_append, List.length_cons] at waiting
  have least (negative : ref.priority < 0) := dispatched.least (below negative)
  exact {
    ready := dispatched.ready
    counted := fun positive => by
      have later := dispatched.counted positive
      rw [budget, if_pos positive] at later
      omega
    below := fun negative => dispatched.below (below negative)
    least := fun negative => by
      have := least negative
      omega
    most := fun negative => by
      have later := dispatched.most (below negative)
      rw [forall_take_succ]
      cases puts : spawns.headD [] with
      | nil =>
        rw [puts, List.length_nil, Nat.add_zero] at waiting
        rw [length, ← waiting] at later
        rw [and_iff_right rfl, ← later]
        omega
      | cons first puts' =>
        refine iff_of_false (fun few => ?_) nofun
        have := least negative
        rw [puts, List.length_cons] at waiting
        omega }

/-- A dispatch comes to its end, from the loop on, in six steps for each message. -/
theorem loop_dispatched (total : Nat) :
    ∀ {ref : Referencer Msg} {tmp : Msg} {rest : List Msg} (priority : Int) (spawns : List (List Msg)),
      ref.Ready → ref.completionList.messages = tmp :: rest →
      rest.length + spawns.flatten.length = total → ∀ extra,
      ∃ after reposted,
        loop turn (6 * total + 7 + extra) ⟨ref, .loop tmp priority, spawns⟩ = some (after, reposted) ∧
          Dispatched priority (rest.length + 1) spawns ref after := by
  induction total using Nat.strongRecOn with
  | ind total inductionHypothesis =>
    intro ref tmp rest priority spawns ready messages size extra
    obtain ⟨called, listed, -⟩ := called_spec ready tmp priority (spawns.headD [])
    obtain ⟨again, left, -⟩ := taken_called ready messages priority (spawns.headD [])
    rw [messages, List.cons_append] at listed
    rw [length_flatten] at size
    have inUse : ref.status tmp = .inUse := ready.inUse tmp (messages ▸ List.mem_cons_self)
    cases more : rest ++ spawns.headD [] with
    | nil =>
      rw [more] at listed
      refine ⟨_, none, ?_, dispatched_one ready messages priority spawns (.inl more)⟩
      rw [show 6 * total + 7 + extra = (6 * total + 2 + extra + 1) + 4 by omega,
        loop_call _ inUse, loop_last _ called listed]
    | cons next others =>
      rw [more] at listed left
      have shorter := congrArg List.length more
      rw [List.length_append, List.length_cons] at shorter
      by_cases spent : (ref.called tmp priority (spawns.headD [])).priority = 0
      · refine ⟨_, some next, ?_, dispatched_one ready messages priority spawns (.inr spent)⟩
        rw [show 6 * total + 7 + extra = (6 * total + extra + 1 + 2) + 4 by omega, loop_call _
          inUse, loop_next _ called listed, decide_eq_true spent]
        exact loop_inr _ rfl
      · obtain ⟨fewer, rfl⟩ : ∃ fewer, total = fewer + 1 := ⟨total - 1, by omega⟩
        obtain ⟨after, reposted, returns, dispatched⟩ := inductionHypothesis fewer
          (Nat.lt_succ_self _) priority spawns.tail again left (by omega) extra
        refine ⟨after, reposted, ?_, dispatched.step ready messages more⟩
        rw [show 6 * (fewer + 1) + 7 + extra = (6 * fewer + 7 + extra + 2) + 4 by omega, loop_call _
          inUse, loop_next _ called listed, decide_eq_false spent]
        exact returns

/-- A dispatch of the first message of the list; the copy of the budget is its own unless that is the
size of the list. -/
theorem execute_dispatched (ready : ref.Ready) {msg : Msg} {rest : List Msg}
    (messages : ref.completionList.messages = msg :: rest) (spawns : List (List Msg)) :
    ∃ after reposted priority, ref.execute msg spawns = some (after, reposted) ∧
      (ref.priority ≠ functorPriorityQSize → priority = ref.priority) ∧
      Dispatched priority ref.completionList.messages.length spawns ref after := by
  have inUse : ref.status msg = .inUse := ready.inUse msg (messages ▸ List.mem_cons_self)
  have turns : 6 * (ref.completionList.messages.length + spawns.flatten.length) + 3 =
      6 * (rest.length + spawns.flatten.length) + 7 + 2 := by
    rw [messages, List.length_cons]
    omega
  unfold execute
  rw [turns, messages, List.length_cons]
  by_cases sized : ref.priority = functorPriorityQSize
  · have start : turn ⟨ref, .start msg, spawns⟩ = .inl ⟨ref, .sizing msg, spawns⟩ := by
      simp only [turn, advance, if_pos sized]
      rfl
    have size : turn ⟨ref, .sizing msg, spawns⟩ =
        .inl ⟨ref, .loop msg ref.completionList.size, spawns⟩ := by
      simp only [turn, advance, inUse, ne_eq, not_true, if_false]
      rfl
    obtain ⟨after, reposted, returns, dispatched⟩ :=
      loop_dispatched _ ref.completionList.size spawns ready messages rfl 0
    refine ⟨after, reposted, _, ?_, fun other => absurd sized other, dispatched⟩
    rw [loop_inl _ start, loop_inl _ size]
    exact returns
  · have start : turn ⟨ref, .start msg, spawns⟩ = .inl ⟨ref, .loop msg ref.priority, spawns⟩ := by
      simp only [turn, advance, if_neg sized]
      rfl
    obtain ⟨after, reposted, returns, dispatched⟩ :=
      loop_dispatched _ ref.priority spawns ready messages rfl 1
    refine ⟨after, reposted, _, ?_, fun _ => rfl, dispatched⟩
    rw [loop_inl _ start]
    exact returns

end Referencer

/-! ### Runs of dispatches -/

/-- A put, or a dispatch of the message at the head of the list, whose functors put these. -/
inductive Dispatch (Msg : Type) where
  | put (msg : Msg)
  | execute (spawns : List (List Msg))
deriving DecidableEq, Repr

namespace Referencer

/-- What is dispatched, and how many functors it runs; there is nothing to dispatch while the list is
empty. -/
def dispatch (ref : Referencer Msg) : Dispatch Msg → Option (Referencer Msg × Option Nat)
  | .put msg => some (ref.put msg, none)
  | .execute spawns =>
    match ref.completionList.messages with
    | [] => some (ref, none)
    | msg :: _ =>
      (ref.execute msg spawns).map fun (after, _) =>
        (after, some (after.calls.length - ref.calls.length))

/-- A positive budget is the number of functors that a dispatch runs while there are messages, the
ones that they put included, and it is there again after it; with the size of the list as the budget
it runs at most as many functors as there were messages. -/
def Budgeted (budget : Int) (ref : Referencer Msg) :
    Dispatch Msg → Option Nat → Referencer Msg → Prop
  | .execute _, some ran, next =>
    if 0 < budget then
      (ran : Int) = min budget
        (ref.completionList.messages.length + (next.puts.length - ref.puts.length : Nat)) ∧
        next.priority = budget
    else ran ≤ ref.completionList.messages.length
  | _, _, _ => True

/-- There is nothing to dispatch, or the budget is the size of the list and no functor of a message
in the list puts another. -/
def PutsNothing (budget : Int) (ref : Referencer Msg) : Dispatch Msg → Prop
  | .put _ => True
  | .execute spawns =>
    ref.completionList.messages ≠ [] → budget = functorPriorityQSize ∧
      ∀ puts ∈ spawns.take ref.completionList.messages.length, puts = []

/-- A referencer with the budget, or with what is left of the size as a budget. -/
structure Holding (budget : Int) (ref : Referencer Msg) : Prop where
  ready : ref.Ready
  positive : 0 < budget → ref.priority = budget
  sized : budget = functorPriorityQSize → ref.priority < 0

omit [DecidableEq Msg] in
/-- A dispatch with a positive budget counts the referencer's own down, and does not bring it back. -/
theorem not_budgeted_of_pos {budget priority : Int} {waiting : Nat} {spawns : List (List Msg)}
    {ref after : Referencer Msg} (above : 0 < budget) (budgetLeft : ref.priority = budget)
    (copied : ref.priority ≠ functorPriorityQSize → priority = ref.priority)
    (dispatched : Dispatched priority waiting spawns ref after) (ran : Nat) :
    ¬ Budgeted budget ref (.execute spawns) (some ran) after := by
  have notSize : ref.priority ≠ functorPriorityQSize := fun here => by
    rw [← budgetLeft, here] at above
    exact absurd above (by decide)
  have copy : priority = budget := (copied notSize).trans budgetLeft
  have counted := dispatched.counted (copy ▸ above)
  intro budgeted
  change (if 0 < budget then _ ∧ after.priority = budget else _) at budgeted
  rw [if_pos above] at budgeted
  have kept := budgeted.2
  omega

omit [DecidableEq Msg] in
/-- With the size as the budget, a dispatch keeps to it when the functors of what waits put nothing. -/
theorem budgeted_size_iff {priority : Int} {spawns : List (List Msg)} {ref after : Referencer Msg}
    (negative : ref.priority < 0)
    (dispatched : Dispatched priority ref.completionList.messages.length spawns ref after) :
    Budgeted functorPriorityQSize ref (.execute spawns)
        (some (after.calls.length - ref.calls.length)) after ↔
      ∀ puts ∈ spawns.take ref.completionList.messages.length, puts = [] := by
  have notAbove : ¬ 0 < functorPriorityQSize := by decide
  rw [← dispatched.most negative]
  simp only [Budgeted, if_neg notAbove]
  omega

theorem dispatch_budgeted_iff {budget : Int} (either : 0 < budget ∨ budget = functorPriorityQSize)
    {ref : Referencer Msg} (holding : Holding budget ref) (input : Dispatch Msg) :
    ∃ next output, ref.dispatch input = some (next, output) ∧
      (Budgeted budget ref input output next ↔ PutsNothing budget ref input) ∧
      (PutsNothing budget ref input → Holding budget next) := by
  obtain ⟨ready, positive, sized⟩ := holding
  cases input with
  | put msg => exact ⟨_, none, rfl, Iff.rfl, fun _ => ⟨ready.put msg, positive, sized⟩⟩
  | execute spawns =>
    cases messages : ref.completionList.messages with
    | nil =>
      refine ⟨ref, none, by rw [dispatch, messages], iff_of_true trivial ?_,
        fun _ => ⟨ready, positive, sized⟩⟩
      exact fun some => absurd messages some
    | cons msg rest =>
      obtain ⟨after, reposted, priority, returns, copied, dispatched⟩ :=
        execute_dispatched ready messages spawns
      have some : ref.completionList.messages ≠ [] := by
        rw [messages]
        exact List.cons_ne_nil _ _
      have nothing : PutsNothing budget ref (.execute spawns) ↔
          budget = functorPriorityQSize ∧
            ∀ puts ∈ spawns.take ref.completionList.messages.length, puts = [] :=
        ⟨fun here => here some, fun here _ => here⟩
      have notSize (above : 0 < budget) : budget ≠ functorPriorityQSize := fun same =>
        absurd (same ▸ above) (by decide)
      refine ⟨after, .some (after.calls.length - ref.calls.length), ?_, ?_, fun here => ?_⟩
      · rw [dispatch, messages]
        show (ref.execute msg spawns).map _ = _
        rw [returns]
        rfl
      · rw [nothing]
        rcases either with above | rfl
        · exact iff_of_false (not_budgeted_of_pos above (positive above) copied dispatched _)
            fun here => notSize above here.1
        · rw [and_iff_right rfl]
          exact budgeted_size_iff (sized rfl) dispatched
      · obtain ⟨same, -⟩ := nothing.mp here
        exact ⟨dispatched.ready, fun above => absurd same (notSize above),
          fun _ => dispatched.below (sized same)⟩

/-- Over every run of puts and dispatches, the budget is kept to exactly when it is the size of the
list and no functor of a message that waited puts another, or nothing is dispatched. -/
theorem budgeted_iff_putsNothing {budget : Int} (either : 0 < budget ∨ budget = functorPriorityQSize)
    (ref : Referencer Msg) (ready : ref.Ready) (inputs : List (Dispatch Msg)) :
    EachReturn dispatch (Budgeted budget) { ref with priority := budget } inputs ↔
      EachStep dispatch (PutsNothing budget) { ref with priority := budget } inputs := by
  refine eachReturn_iff (fun _ input holding => dispatch_budgeted_iff either holding input) inputs _ ?_
  refine ⟨⟨ready.size, ready.inUse⟩, fun _ => rfl, fun same => ?_⟩
  show budget < 0
  rw [same]
  decide

/-- The size of the list as the budget, and a dispatch of two messages that put none. -/
theorem budgeted_iff_putsNothing_example :
    EachReturn dispatch (Budgeted functorPriorityQSize)
      { priority := functorPriorityQSize, status := fun _ => .free : Referencer Nat }
      [.put 1, .put 2, .execute [], .execute [], .put 3, .execute [[], [4]]] :=
  (budgeted_iff_putsNothing (.inr rfl) { priority := -1, status := fun _ => .free } ⟨rfl, nofun⟩ _).mpr
    ⟨trivial, trivial, fun _ => ⟨rfl, nofun⟩, fun _ => ⟨rfl, nofun⟩, trivial,
      fun _ => ⟨rfl, List.forall_mem_singleton.mpr rfl⟩, trivial⟩

/-- With a budget of two, the first dispatch of five messages runs two and leaves a budget of zero,
and the second runs one. With the size as the budget, a dispatch of one message runs the three that
come of it. -/
theorem budget_is_not_kept :
    let two : Referencer Nat := { priority := 2, status := fun _ => .free }
    let size : Referencer Nat := { priority := functorPriorityQSize, status := fun _ => .free }
    let five : List (Dispatch Nat) := [.put 1, .put 2, .put 3, .put 4, .put 5, .execute [], .execute []]
    let one : List (Dispatch Nat) := [.put 1, .execute [[2, 3]]]
    ((run dispatch two five).map fun result => (result.2, result.1.priority)) =
        some ([none, none, none, none, none, some 2, some 1], 0) ∧
      ¬ EachReturn dispatch (Budgeted 2) two five ∧
      (run dispatch size one).map (fun result => result.2) = some [none, some 3] ∧
      ¬ EachReturn dispatch (Budgeted functorPriorityQSize) size one := by
  refine ⟨by decide, fun budgeted => ?_, by decide, fun budgeted => ?_⟩
  · have first := budgeted.2.2.2.2.2.1
    exact absurd first.2 (by decide)
  · have first : 3 ≤ 1 := budgeted.2.1
    exact absurd first (by decide)

end Referencer

end ObLib
