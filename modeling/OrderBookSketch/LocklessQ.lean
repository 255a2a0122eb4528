/-
This file models `LocklessQ` of Common/include/containers/LocklessQ.hpp as one thread
uses it, and proves which failures of its weak exchanges it survives.

A weak compare-and-exchange may fail although the values are equal. It then stores the
value that it has read in its expected argument, which for `_tmpAtomic` is the field
`_emptyNode`. Each call comes with the failures of its exchanges in their order; behind
the end of the list no exchange fails without a reason. Nodes are never deleted, so a
node is the number of those made before it. A dereference of a null pointer has no
defined behaviour (`none`).

An exchange of `_tail` that is not needed sets it to null, and one that fails leaves
`_tail` behind, where the next exchange of `_tmpAtomic` puts its own node in the place
of the last one.
-/

import OrderBookSketch.Library.Chain
import OrderBookSketch.Library.Loop
import OrderBookSketch.Library.Run
import Mathlib.Tactic.SplitIfs

namespace ObLib

open Runs Chains Loops

/-- The memory with the number of nodes that were made, and the fields. No queue holds so many nodes
that `_size` comes round. -/
structure LocklessQ (T : Type) where
  next : Nat → Option Nat
  data : Nat → Option T
  made : Nat
  head : Nat
  tail : Option Nat
  size : Int
  tmpAtomic : Option Nat
  emptyNode : Option Nat

/-- A call, with the failures of its exchanges. -/
inductive QueueCall (T : Type) where
  | enqueue (data : T) (fails : List Bool)
  | dequeue (fails : List Bool)
deriving DecidableEq, Repr

/-- `atomic_compare_exchange_weak_explicit`: the object and the expected value behind it, and whether
it succeeds. -/
def exchangeWeak {Value : Type} [DecidableEq Value] (fails : List Bool)
    (object expected desired : Value) : Value × Value × Bool :=
  if object = expected ∧ fails.headD false = false then (desired, expected, true)
  else (object, object, false)

section Exchange

variable {Value : Type} [DecidableEq Value] {fails : List Bool}

theorem exchangeWeak_succeeds (succeeds : fails.headD false = false) (object desired : Value) :
    exchangeWeak fails object object desired = (desired, object, true) := if_pos ⟨rfl, succeeds⟩

theorem exchangeWeak_fails {object expected : Value}
    (fail : object ≠ expected ∨ fails.headD false = true) (desired : Value) :
    exchangeWeak fails object expected desired = (object, object, false) := by
  refine if_neg ?_
  rintro ⟨same, succeeds⟩
  rcases fail with other | spurious
  · exact other same
  · rw [succeeds] at spurious
    cases spurious

end Exchange

namespace LocklessQ

variable {T : Type}

/-- The constructor, with `_size` at 0. -/
def create : LocklessQ T where
  next := fun _ => none
  data := fun _ => none
  made := 1
  head := 0
  tail := some 0
  size := 0
  tmpAtomic := none
  emptyNode := none

/-- `new QNode<T>(std::move(data))`. -/
def newNode (queue : LocklessQ T) (data : T) : LocklessQ T × Nat :=
  ({ queue with
     next := Function.update queue.next queue.made none
     data := Function.update queue.data queue.made (some data)
     made := queue.made + 1 }, queue.made)

/-- A turn of the loop of `enqueue`, with the failures to come. The loop is left with `tmp`. -/
def enqueueTurn (newNode : Nat) :
    LocklessQ T × List Bool → LocklessQ T × List Bool ⊕ Option (LocklessQ T × Nat × List Bool)
  | (queue, fails) =>
    match queue.tail with
    | none => .inr none
    | some tmp =>
      let queue := { queue with tmpAtomic := queue.next tmp }
      let (tmpAtomic, emptyNode, succ) :=
        exchangeWeak fails queue.tmpAtomic queue.emptyNode (some newNode)
      let queue := { queue with tmpAtomic, emptyNode }
      let queue := { queue with next := Function.update queue.next tmp queue.tmpAtomic }
      if succ then .inr (some (queue, tmp, fails.tail))
      else
        let (tail, _, _) := exchangeWeak fails.tail queue.tail (some tmp) (queue.next tmp)
        .inl ({ queue with tail }, fails.tail.tail)

def enqueue (queue : LocklessQ T) (data : T) (fails : List Bool) :
    Option (LocklessQ T × Bool) := do
  let (queue, newNode) := queue.newNode data
  let (queue, tmp, fails) ← (loop (enqueueTurn newNode) (fails.length + 4) (queue, fails)).join
  let (tail, _, _) := exchangeWeak fails queue.tail (some tmp) (some newNode)
  let queue := { queue with tail }
  return ({ queue with size := queue.size + 1 }, true)

/-- A turn of the loop of `dequeue`, which is left with `tmp`, or because the queue is empty. -/
def dequeueTurn : LocklessQ T × List Bool → LocklessQ T × List Bool ⊕ LocklessQ T × Option Nat
  | (queue, fails) =>
    let tmp := queue.head
    match queue.next tmp with
    | none => .inr (queue, none)
    | some next =>
      let (head, _, succ) := exchangeWeak fails queue.head tmp next
      let queue := { queue with head }
      if succ then .inr (queue, some tmp) else .inl (queue, fails.tail)

/-- The last result is what the parameter `data` is set to. -/
def dequeue (queue : LocklessQ T) (fails : List Bool) :
    Option (LocklessQ T × Bool × Option T) := do
  let (queue, tmp) ← loop dequeueTurn (fails.length + 1) (queue, fails)
  match tmp with
  | none => return (queue, false, none)
  | some tmp =>
    let node ← queue.next tmp
    return ({ queue with size := queue.size - 1 }, true, queue.data node)

/-- A call, what it returns and the data that it yields. -/
def step (queue : LocklessQ T) : QueueCall T → Option (LocklessQ T × Bool × Option T)
  | .enqueue data fails =>
    (queue.enqueue data fails).map fun (queue, returned) => (queue, returned, none)
  | .dequeue fails => queue.dequeue fails

/-- What the calls do to a queue of values. -/
def specStep : List T → QueueCall T → List T × Bool × Option T
  | vals, .enqueue data _ => (vals ++ [data], true, none)
  | [], .dequeue _ => ([], false, none)
  | data :: vals, .dequeue _ => (vals, true, some data)

/-! ### The failures that a call survives -/

/-- Where `_tail` is, and what `_emptyNode` holds: `_tail` points to the last node or to the one in
front of it, and `_emptyNode` is null or the last node. -/
inductive Mode where
  | atLast
  | behind
  | behindKnown
  | caughtUp
deriving DecidableEq, Repr

/-- The mode, from the link of the node of `_tail` and from `_emptyNode`. -/
def modeOf : Option Nat → Option Nat → Mode
  | none, none => .atLast
  | some _, none => .behind
  | some _, some _ => .behindKnown
  | none, some _ => .caughtUp

def mode (queue : LocklessQ T) : Mode := modeOf (queue.tail.bind queue.next) queue.emptyNode

/-- The failures of an `enqueue` hit it in the right places: at the last node, an exchange of
`_tmpAtomic` and the one of `_tail` that follows it fail together or the first succeeds; behind it,
that of `_tmpAtomic` does not succeed. The failures come in pairs, one pair a turn. -/
def survives : Mode → List Bool → Bool
  | .atLast, [] => true
  | .atLast, [first] => !first
  | .atLast, first :: second :: fails => !first || (second && survives .atLast fails)
  | .behind, _ :: second :: fails => survives (if second then .behindKnown else .caughtUp) fails
  | .behindKnown, first :: second :: fails =>
    first && survives (if second then .behindKnown else .caughtUp) fails
  | .caughtUp, _ :: second :: fails => second && survives .atLast fails
  | _, _ => false

/-- The failures of a call are those that it survives, as the queue is before the call. -/
def Survives (state : LocklessQ T × List T) : QueueCall T → Prop
  | .enqueue _ fails => survives state.1.mode fails
  | .dequeue _ => True

instance (state : LocklessQ T × List T) : DecidablePred (Survives state)
  | .enqueue _ fails => inferInstanceAs (Decidable (survives state.1.mode fails = true))
  | .dequeue _ => .isTrue trivial

/-- The chain from the head holds the values behind its first node, and `_size` is their number. -/
def Holds (queue : LocklessQ T) (vals : List T) : Prop :=
  ∃ rest, Linked queue.next (some queue.head) (queue.head :: rest) ∧
    rest.map queue.data = vals.map some ∧ queue.size = vals.length

/-- The call returns what the queue of values does, and behind it the queue holds these values. -/
def Lawful (before : LocklessQ T × List T) (call : QueueCall T) (returned : Bool × Option T)
    (after : LocklessQ T × List T) : Prop :=
  returned = (specStep before.2 call).2 ∧ after.1.Holds after.2

/-! ### A turn of the loop of `enqueue` -/

section Turns

variable {queue : LocklessQ T} {tmp newNode : Nat} {fails : List Bool}

/-- In each mode, the first pair of failures decides how it goes on. -/
theorem survives_iff (mode : Mode) (fails : List Bool) :
    survives mode fails =
      match mode with
      | .atLast => !fails.headD false || (fails.tail.headD false && survives .atLast fails.tail.tail)
      | .behind =>
        survives (if fails.tail.headD false then .behindKnown else .caughtUp) fails.tail.tail
      | .behindKnown => fails.headD false &&
        survives (if fails.tail.headD false then .behindKnown else .caughtUp) fails.tail.tail
      | .caughtUp => fails.tail.headD false && survives .atLast fails.tail.tail := by
  match mode, fails with
  | .atLast, [] | .behind, [] | .behindKnown, [] | .caughtUp, [] => rfl
  | .atLast, [first] | .behind, [first] | .behindKnown, [first] | .caughtUp, [first] =>
    cases first <;> rfl
  | .atLast, first :: second :: fails | .behind, first :: second :: fails
  | .behindKnown, first :: second :: fails | .caughtUp, first :: second :: fails => rfl

/-- An exchange of `_tmpAtomic` that fails leaves the links as they are, and the one of `_tail` moves
it on when it succeeds. -/
theorem enqueueTurn_fails (isTail : queue.tail = some tmp)
    (fail : queue.next tmp ≠ queue.emptyNode ∨ fails.headD false = true) :
    enqueueTurn newNode (queue, fails) = .inl
      ({ queue with
         tmpAtomic := queue.next tmp
         emptyNode := queue.next tmp
         tail := if fails.tail.headD false then some tmp else queue.next tmp }, fails.tail.tail) := by
  have unchanged : Function.update queue.next tmp (queue.next tmp) = queue.next :=
    Function.update_eq_self tmp queue.next
  simp only [enqueueTurn, isTail, exchangeWeak_fails fail, unchanged]
  by_cases second : fails.tail.headD false = true
  · rw [exchangeWeak_fails (.inr second), if_pos second]
    rfl
  · rw [exchangeWeak_succeeds (eq_false_of_ne_true second), if_neg second]
    rfl

/-- One that succeeds links the new node behind the node of `_tail`. -/
theorem enqueueTurn_succeeds (isTail : queue.tail = some tmp)
    (same : queue.next tmp = queue.emptyNode) (succeeds : fails.headD false = false) :
    enqueueTurn newNode (queue, fails) = .inr (some
      ({ queue with
         tmpAtomic := some newNode
         next := Function.update queue.next tmp (some newNode) }, tmp, fails.tail)) := by
  simp only [enqueueTurn, isTail, same, exchangeWeak_succeeds succeeds]
  rfl

end Turns

/-! ### The loop of `enqueue` -/

/-- The queue in the loop: only the fields of the exchanges change. -/
def trying (base : LocklessQ T) (tmp : Nat) (emptyNode tmpAtomic : Option Nat) : LocklessQ T :=
  { base with tail := some tmp, emptyNode, tmpAtomic }

/-- `_tail` points to the last node or to the one in front of it, `_emptyNode` is null or the last
node, and the failures to come decide as all of them do; or `_tail` is null, and they failed. -/
def Tries (base : LocklessQ T) (last : Nat) (survived : Bool) : LocklessQ T × List Bool → Prop
  | (queue, fails) =>
    (∃ tmp emptyNode tmpAtomic, queue = base.trying tmp emptyNode tmpAtomic ∧
      (tmp = last ∨ base.next tmp = some last) ∧ (emptyNode = none ∨ emptyNode = some last) ∧
      survives queue.mode fails = survived) ∨
    (queue.tail = none ∧ survived = false)

/-- The loop is left with the new node behind the last one, where `_tail` is too. -/
def Joins (base : LocklessQ T) (last newNode : Nat) (result : Option (LocklessQ T × Nat × List Bool)) :
    Prop :=
  ∃ fails, result = some
    ({ base with
       next := Function.update base.next last (some newNode)
       tail := some last
       tmpAtomic := some newNode
       emptyNode := none }, last, fails)

/-- A null pointer was followed, or the loop is left with the new node in the place of the last
one. -/
def Spoils (base : LocklessQ T) (last newNode : Nat)
    (result : Option (LocklessQ T × Nat × List Bool)) : Prop :=
  result = none ∨ ∃ queue tmp fails, result = some (queue, tmp, fails) ∧
    base.next tmp = some last ∧ queue.next = Function.update base.next tmp (some newNode) ∧
    queue.data = base.data ∧ queue.head = base.head

/-- The loop takes no more turns than there are failures and these. -/
def turnsLeft (queue : LocklessQ T) : Nat :=
  match queue.tail, queue.mode with
  | none, _ => 0
  | some _, .atLast => 1
  | some _, .behind => 3
  | some _, .behindKnown => 2
  | some _, .caughtUp => 2

section Tries

variable {base : LocklessQ T} {last newNode : Nat} {survived : Bool} {fails : List Bool}

theorem mode_atLast (ends : base.next last = none) (tmpAtomic : Option Nat) :
    (base.trying last none tmpAtomic).mode = .atLast := by
  simp [mode, trying, ends, modeOf]

theorem mode_caughtUp (ends : base.next last = none) (tmpAtomic : Option Nat) :
    (base.trying last (some last) tmpAtomic).mode = .caughtUp := by
  simp [mode, trying, ends, modeOf]

theorem mode_behind {tmp : Nat} (isNext : base.next tmp = some last) (tmpAtomic : Option Nat) :
    (base.trying tmp none tmpAtomic).mode = .behind := by
  simp [mode, trying, isNext, modeOf]

theorem mode_behindKnown {tmp : Nat} (isNext : base.next tmp = some last) (tmpAtomic : Option Nat) :
    (base.trying tmp (some last) tmpAtomic).mode = .behindKnown := by
  simp [mode, trying, isNext, modeOf]

theorem length_of_first (first : fails.headD false = true) : 1 ≤ fails.length := by
  cases fails with
  | nil => cases first
  | cons => exact Nat.succ_le_succ (Nat.zero_le _)

theorem length_of_second (second : fails.tail.headD false = true) : 2 ≤ fails.length := by
  have rest := length_of_first second
  rw [List.length_tail] at rest
  omega

/-- What a turn owes to the rule of the loop. -/
abbrev TurnServes (base : LocklessQ T) (last newNode : Nat) (survived : Bool)
    (state : LocklessQ T × List Bool) : Prop :=
  TurnOk (Tries base last survived) (fun state => state.2.length + turnsLeft state.1)
    (fun result => if survived then Joins base last newNode result else Spoils base last newNode result)
    state (enqueueTurn newNode state)

/-- When the exchange of `_tmpAtomic` fails at the last node, that of `_tail` has to fail too. -/
theorem turn_fails_atLast (ends : base.next last = none) {emptyNode tmpAtomic : Option Nat}
    (fail : none ≠ emptyNode ∨ fails.headD false = true)
    (after : (fails.tail.headD false && survives .atLast fails.tail.tail) = survived)
    (more : 0 < turnsLeft (base.trying last emptyNode tmpAtomic)) :
    TurnServes base last newNode survived (base.trying last emptyNode tmpAtomic, fails) := by
  have isTail : (base.trying last emptyNode tmpAtomic).tail = some last := rfl
  have isEnd : (base.trying last emptyNode tmpAtomic).next last = none := ends
  unfold TurnServes
  rw [enqueueTurn_fails isTail (isEnd.symm ▸ fail), isEnd]
  by_cases second : fails.tail.headD false = true
  · have enough := length_of_second second
    have atLast : (base.trying last none none).mode = .atLast := mode_atLast ends none
    rw [second, Bool.true_and] at after
    rw [if_pos second]
    refine ⟨.inl ⟨last, none, none, rfl, .inl rfl, .inl rfl, ?_⟩, ?_⟩
    · exact (congrArg (survives · _) atLast).trans after
    · show fails.tail.tail.length + turnsLeft (base.trying last none none) < fails.length + _
      rw [show turnsLeft (base.trying last none none) = 1 by rw [turnsLeft, atLast]; rfl,
        List.length_tail, List.length_tail]
      omega
  · rw [eq_false_of_ne_true second, Bool.false_and] at after
    rw [if_neg second]
    refine ⟨.inr ⟨rfl, after.symm⟩, ?_⟩
    show fails.tail.tail.length + 0 <
      fails.length + turnsLeft (base.trying last emptyNode tmpAtomic)
    rw [List.length_tail, List.length_tail]
    omega

/-- When it fails behind the last node, `_emptyNode` holds the last node then, and `_tail` is there
or stays behind. -/
theorem turn_fails_behind {tmp : Nat} (ends : base.next last = none)
    (isNext : base.next tmp = some last) {emptyNode tmpAtomic : Option Nat}
    (fail : some last ≠ emptyNode ∨ fails.headD false = true)
    (after : survives (if fails.tail.headD false then .behindKnown else .caughtUp) fails.tail.tail =
      survived)
    (more : fails.tail.tail.length + 2 < fails.length + turnsLeft (base.trying tmp emptyNode tmpAtomic)) :
    TurnServes base last newNode survived (base.trying tmp emptyNode tmpAtomic, fails) := by
  have isTail : (base.trying tmp emptyNode tmpAtomic).tail = some tmp := rfl
  have isLast : (base.trying tmp emptyNode tmpAtomic).next tmp = some last := isNext
  unfold TurnServes
  rw [enqueueTurn_fails isTail (isLast.symm ▸ fail), isLast]
  by_cases second : fails.tail.headD false = true
  · have known := mode_behindKnown isNext (some last)
    rw [if_pos second] at after ⊢
    refine ⟨.inl ⟨tmp, some last, some last, rfl, .inr isNext, .inr rfl, ?_⟩, ?_⟩
    · exact (congrArg (survives · _) known).trans after
    · show fails.tail.tail.length + turnsLeft (base.trying tmp (some last) (some last)) < _
      rwa [show turnsLeft (base.trying tmp (some last) (some last)) = 2 by
        rw [turnsLeft, known]; rfl]
  · have there := mode_caughtUp ends (some last)
    rw [if_neg second] at after ⊢
    refine ⟨.inl ⟨last, some last, some last, rfl, .inl rfl, .inr rfl, ?_⟩, ?_⟩
    · exact (congrArg (survives · _) there).trans after
    · show fails.tail.tail.length + turnsLeft (base.trying last (some last) (some last)) < _
      rwa [show turnsLeft (base.trying last (some last) (some last)) = 2 by
        rw [turnsLeft, there]; rfl]

/-- Every turn does what the failures decide. -/
theorem turn_serves (ends : base.next last = none) (state : LocklessQ T × List Bool)
    (tries : Tries base last survived state) : TurnServes base last newNode survived state := by
  obtain ⟨queue, fails⟩ := state
  rcases tries with ⟨tmp, emptyNode, tmpAtomic, rfl, place, expected, same⟩ | ⟨null, failed⟩
  · rcases place with rfl | isNext <;> rcases expected with rfl | rfl
    · -- at the last node, which the first exchange that succeeds finds
      have atLast := mode_atLast ends tmpAtomic
      have left : turnsLeft (base.trying tmp none tmpAtomic) = 1 := by rw [turnsLeft, atLast]; rfl
      rw [atLast, survives_iff] at same
      by_cases first : fails.headD false = true
      · simp only [first, Bool.not_true, Bool.false_or] at same
        exact turn_fails_atLast ends (.inr first) same (left ▸ Nat.one_pos)
      · simp only [eq_false_of_ne_true first, Bool.not_false, Bool.true_or] at same
        have isTail : (base.trying tmp none tmpAtomic).tail = some tmp := rfl
        unfold TurnServes
        rw [enqueueTurn_succeeds isTail ends (eq_false_of_ne_true first)]
        show if survived then _ else _
        rw [← same, if_pos rfl]
        exact ⟨fails.tail, rfl⟩
    · have there := mode_caughtUp ends tmpAtomic
      rw [there, survives_iff] at same
      exact turn_fails_atLast ends (.inl nofun) same (by rw [turnsLeft, there]; exact Nat.two_pos)
    · have behind := mode_behind isNext tmpAtomic
      rw [behind, survives_iff] at same
      refine turn_fails_behind ends isNext (.inl nofun) same ?_
      rw [show turnsLeft (base.trying tmp none tmpAtomic) = 3 by rw [turnsLeft, behind]; rfl,
        List.length_tail, List.length_tail]
      omega
    · -- behind the last node, which the first exchange that succeeds puts out of the chain
      have known := mode_behindKnown isNext tmpAtomic
      rw [known, survives_iff] at same
      by_cases first : fails.headD false = true
      · have enough := length_of_first first
        simp only [first, Bool.true_and] at same
        refine turn_fails_behind ends isNext (.inr first) same ?_
        rw [show turnsLeft (base.trying tmp (some last) tmpAtomic) = 2 by rw [turnsLeft, known]; rfl,
          List.length_tail, List.length_tail]
        omega
      · simp only [eq_false_of_ne_true first, Bool.false_and] at same
        have isTail : (base.trying tmp (some last) tmpAtomic).tail = some tmp := rfl
        unfold TurnServes
        rw [enqueueTurn_succeeds isTail isNext (eq_false_of_ne_true first)]
        show if survived then _ else _
        rw [← same, if_neg Bool.false_ne_true]
        exact .inr ⟨_, tmp, fails.tail, rfl, isNext, rfl, rfl, rfl⟩
  · unfold TurnServes
    rw [enqueueTurn, null]
    show if survived then _ else _
    rw [failed, if_neg Bool.false_ne_true]
    exact .inl rfl

/-- The loop is always left, and the failures decide how. -/
theorem enqueue_loop (ends : base.next last = none) (tries : Tries base last survived (base, fails)) :
    ∃ result, loop (enqueueTurn newNode) (fails.length + 4) (base, fails) = some result ∧
      if survived then Joins base last newNode result else Spoils base last newNode result := by
  refine loop_total (enqueueTurn newNode) (Tries base last survived)
    (fun state => state.2.length + turnsLeft state.1) _ (turn_serves ends) _ (base, fails) tries ?_
  have few : turnsLeft base ≤ 3 := by
    unfold turnsLeft
    split <;> decide
  show fails.length + turnsLeft base < fails.length + 4
  omega

end Tries

/-! ### Calls -/

/-- The queue holds the values, `_tail` points to the last node or to the one in front of it, and
`_emptyNode` is null. -/
structure Keeps (queue : LocklessQ T) (vals : List T) (rest : List Nat) (last tmp : Nat) : Prop where
  linked : Chains.Linked queue.next (some queue.head) (queue.head :: rest)
  values : Carries queue.data rest vals
  size : queue.size = vals.length
  isLast : (queue.head :: rest).getLast? = some last
  tail : queue.tail = some tmp
  place : tmp = last ∨ queue.next tmp = some last
  expected : queue.emptyNode = none
  made : ∀ node ∈ queue.head :: rest, node < queue.made
  tmpMade : tmp < queue.made

section Calls

variable {queue : LocklessQ T} {vals : List T} {rest : List Nat} {last tmp : Nat}

theorem keeps_create : Keeps (create : LocklessQ T) [] [] 0 0 where
  linked := ⟨rfl, rfl⟩
  values := rfl
  size := rfl
  isLast := rfl
  tail := rfl
  place := .inl rfl
  expected := rfl
  made := fun _ member => List.mem_singleton.mp member ▸ Nat.one_pos
  tmpMade := Nat.one_pos

theorem Keeps.holds (keeps : Keeps queue vals rest last tmp) : queue.Holds vals :=
  ⟨rest, keeps.linked, keeps.values, keeps.size⟩

theorem Keeps.last_mem (keeps : Keeps queue vals rest last tmp) : last ∈ queue.head :: rest :=
  List.mem_of_getLast? keeps.isLast

/-- A new node changes no link of the others. -/
theorem next_newNode (queue : LocklessQ T) (data : T) {node : Nat}
    (older : node < queue.made) : (queue.newNode data).1.next node = queue.next node := by
  rw [newNode]
  exact Function.update_of_ne (Nat.ne_of_lt older) ..

theorem data_newNode (queue : LocklessQ T) (data : T) {node : Nat}
    (older : node < queue.made) : (queue.newNode data).1.data node = queue.data node := by
  rw [newNode]
  exact Function.update_of_ne (Nat.ne_of_lt older) ..

/-- The failures decide what the loop of `enqueue` does. -/
theorem Keeps.loop (keeps : Keeps queue vals rest last tmp) (data : T) (fails : List Bool) :
    ∃ result, Loops.loop (enqueueTurn queue.made) (fails.length + 4)
        ((queue.newNode data).1, fails) = some result ∧
      if survives queue.mode fails then Joins (queue.newNode data).1 last queue.made result
      else Spoils (queue.newNode data).1 last queue.made result := by
  have ends : (queue.newNode data).1.next last = none :=
    (next_newNode queue data (keeps.made last keeps.last_mem)).trans
      (keeps.linked.next_last keeps.isLast)
  have isNext : (queue.newNode data).1.next tmp = queue.next tmp :=
    next_newNode queue data keeps.tmpMade
  have same : (queue.newNode data).1 =
      (queue.newNode data).1.trying tmp none (queue.newNode data).1.tmpAtomic := by
    rw [trying, ← keeps.tail, ← keeps.expected]
    rfl
  have mode : (queue.newNode data).1.mode = queue.mode := by
    rw [LocklessQ.mode, LocklessQ.mode, show (queue.newNode data).1.tail = some tmp from keeps.tail,
      keeps.tail]
    exact congrArg (modeOf · queue.emptyNode) isNext
  refine enqueue_loop ends (.inl ⟨tmp, none, _, same, ?_, .inl rfl, by rw [mode]⟩)
  rw [isNext]
  exact keeps.place

theorem enqueue_eq (queue : LocklessQ T) (data : T) (fails : List Bool) :
    queue.enqueue data fails =
      (Loops.loop (enqueueTurn queue.made) (fails.length + 4)
        ((queue.newNode data).1, fails)).join.bind fun (queue', tmp, fails) =>
          some ({ queue' with
            tail := (exchangeWeak fails queue'.tail (some tmp) (some queue.made)).1
            size := queue'.size + 1 }, true) := rfl

/-- The chain of the queue with a new node beside it. -/
theorem Keeps.linked_newNode (keeps : Keeps queue vals rest last tmp) (data : T) :
    Chains.Linked (queue.newNode data).1.next (some queue.head) (queue.head :: rest) :=
  keeps.linked.congr fun node member => next_newNode queue data (keeps.made node member)

/-- Failures in the right places: the new node is behind the last one, and `_tail` points to one of
these two. -/
theorem Keeps.enqueue (keeps : Keeps queue vals rest last tmp) (data : T) {fails : List Bool}
    (survived : survives queue.mode fails = true) :
    ∃ next tmp, queue.enqueue data fails = some (next, true) ∧
      Keeps next (vals ++ [data]) (rest ++ [queue.made]) queue.made tmp := by
  obtain ⟨result, leaves, joins⟩ := keeps.loop data fails
  rw [if_pos survived] at joins
  obtain ⟨later, rfl⟩ := joins
  rw [enqueue_eq, leaves]
  have lastMade : last < queue.made := keeps.made last keeps.last_mem
  have link : Function.update (queue.newNode data).1.next last (some queue.made) last =
      some queue.made := Function.update_self ..
  have newEnds : Function.update (queue.newNode data).1.next last (some queue.made) queue.made =
      none := by
    rw [Function.update_of_ne (Nat.ne_of_gt lastMade), newNode]
    exact Function.update_self ..
  have place : ∃ tmp, (exchangeWeak later (some last) (some last) (some queue.made)).1 = some tmp ∧
      (tmp = queue.made ∨ tmp = last) := by
    unfold exchangeWeak
    split_ifs
    · exact ⟨queue.made, rfl, .inl rfl⟩
    · exact ⟨last, rfl, .inr rfl⟩
  obtain ⟨newTmp, isTail, place⟩ := place
  refine ⟨_, newTmp, rfl, ?_, ?_, ?_, ?_, isTail, ?_, rfl, ?_, ?_⟩
  · exact (keeps.linked_newNode data).append keeps.isLast link newEnds fun member _ other =>
      Function.update_of_ne other ..
  · have kept : Carries (queue.newNode data).1.data rest vals := keeps.values.congr fun node member =>
      data_newNode queue data (keeps.made node (List.mem_cons_of_mem _ member))
    have stored : (queue.newNode data).1.data queue.made = some data := by
      rw [newNode]
      exact Function.update_self ..
    exact kept.append stored
  · show queue.size + 1 = _
    rw [keeps.size, List.length_append]
    rfl
  · show (queue.head :: (rest ++ [queue.made])).getLast? = _
    rw [← List.cons_append, List.getLast?_concat]
  · rcases place with rfl | rfl
    · exact .inl rfl
    · exact .inr link
  · intro node member
    show node < queue.made + 1
    rcases List.mem_append.mp (show node ∈ (queue.head :: rest) ++ [queue.made] from member) with
      old | new
    · exact Nat.lt_succ_of_lt (keeps.made node old)
    · exact List.mem_singleton.mp new ▸ Nat.lt_succ_self _
  · show newTmp < queue.made + 1
    rcases place with rfl | rfl
    · exact Nat.lt_succ_self _
    · exact Nat.lt_succ_of_lt lastMade

/-- Failures in other places: if `enqueue` returns at all, the queue has lost a value. -/
theorem Keeps.enqueue_spoils (keeps : Keeps queue vals rest last tmp) {data : T} {fails : List Bool}
    (failed : survives queue.mode fails ≠ true) {next : LocklessQ T} {returned : Bool}
    (returns : queue.enqueue data fails = some (next, returned)) : ¬ next.Holds (vals ++ [data]) := by
  obtain ⟨result, leaves, spoils⟩ := keeps.loop data fails
  rw [if_neg failed] at spoils
  rw [enqueue_eq, leaves] at returns
  rcases spoils with rfl | ⟨left, before, later, rfl, isNext, links, -, sameHead⟩
  · cases returns
  · obtain ⟨rfl, -⟩ := Prod.mk.inj (Option.some.inj returns)
    rintro ⟨others, linkedOther, values, -⟩
    have isLast : (queue.newNode data).1.next last = none :=
      (keeps.linked_newNode data).next_last keeps.isLast
    have newEnds : (queue.newNode data).1.next queue.made = none := by
      rw [newNode]
      exact Function.update_self ..
    have apart : queue.made ≠ before := fun same => by
      rw [← same, newEnds] at isNext
      cases isNext
    obtain ⟨chain, linked, long⟩ := (keeps.linked_newNode data).replace_last isNext isLast
      (show left.next before = some queue.made by rw [links]; exact Function.update_self ..)
      (by rw [links, Function.update_of_ne apart, newEnds])
      (fun member _ other => by rw [links, Function.update_of_ne other])
    have same := linked.unique (show Chains.Linked left.next (some queue.head) (left.head :: others)
      from (show left.head = queue.head from sameHead) ▸ linkedOther)
    have lengths := Carries.length_eq values
    rw [List.length_append] at lengths
    rw [same, List.length_cons, List.length_cons, keeps.values.length_eq, lengths] at long
    exact absurd long (by simp)

/-- The exchange of `_head` is made again until it succeeds. -/
theorem dequeue_loop {node : Nat} (isNext : queue.next queue.head = some node) (fails : List Bool) :
    Loops.loop dequeueTurn (fails.length + 1) (queue, fails) =
      some ({ queue with head := node }, some queue.head) := by
  induction fails with
  | nil =>
    refine loop_inr 0 ?_
    simp only [dequeueTurn, isNext, exchangeWeak_succeeds (show [].headD false = false from rfl)]
    rfl
  | cons first fails inductionHypothesis =>
    cases first with
    | true =>
      have again : dequeueTurn (queue, true :: fails) = .inl (queue, fails) := by
        simp only [dequeueTurn, isNext,
          exchangeWeak_fails (.inr (show (true :: fails).headD false = true from rfl))]
        rfl
      exact (loop_inl _ again).trans inductionHypothesis
    | false =>
      refine loop_inr _ ?_
      simp only [dequeueTurn, isNext,
        exchangeWeak_succeeds (show (false :: fails).headD false = false from rfl)]
      rfl

theorem Keeps.dequeue_nil (keeps : Keeps queue [] rest last tmp) (fails : List Bool) :
    queue.dequeue fails = some (queue, false, none) := by
  obtain rfl := List.eq_nil_of_length_eq_zero keeps.values.length_eq
  have isEnd : queue.next queue.head = none := keeps.linked.2
  have leaves : dequeueTurn (queue, fails) = .inr (queue, none) := by
    simp only [dequeueTurn, isEnd]
  rw [dequeue, loop_inr fails.length leaves]
  rfl

/-- The first value is taken, and its node is the head from then on. -/
theorem Keeps.dequeue_cons {data : T} (keeps : Keeps queue (data :: vals) rest last tmp)
    (fails : List Bool) :
    ∃ next, queue.dequeue fails = some (next, true, some data) ∧
      Keeps next vals rest.tail last tmp := by
  match rest, keeps with
  | [], keeps => cases keeps.values.length_eq
  | node :: rest, keeps =>
    have isNext : queue.next queue.head = some node := keeps.linked.2.1
    obtain ⟨first, others⟩ := keeps.values.of_cons
    refine ⟨{ queue with head := node, size := queue.size - 1 }, ?_, ?_, others, ?_, ?_, keeps.tail,
      keeps.place, keeps.expected, fun other member => keeps.made other (List.mem_cons_of_mem _ member),
      keeps.tmpMade⟩
    · rw [dequeue, dequeue_loop isNext]
      show (queue.next queue.head).bind _ = _
      rw [isNext, ← first]
      rfl
    · exact isNext ▸ keeps.linked.2
    · show queue.size - 1 = _
      rw [keeps.size, List.length_cons]
      push_cast
      omega
    · exact List.getLast?_cons_cons.symm.trans keeps.isLast

end Calls

/-! ### Every run -/

/-- A call of which the failures are survived does what the queue of values does. -/
theorem Keeps.step {queue : LocklessQ T} {vals : List T} {rest : List Nat} {last tmp : Nat}
    (keeps : Keeps queue vals rest last tmp) (call : QueueCall T)
    (survived : Survives (queue, vals) call) :
    ∃ next returned rest last tmp, queue.step call = some (next, returned) ∧
      returned = (specStep vals call).2 ∧ Keeps next (specStep vals call).1 rest last tmp := by
  match call, vals with
  | .enqueue data fails, vals =>
    obtain ⟨next, tmp, returns, again⟩ := keeps.enqueue data survived
    exact ⟨next, (true, none), _, _, tmp, by rw [LocklessQ.step, returns]; rfl, rfl, again⟩
  | .dequeue fails, [] => exact ⟨queue, _, rest, last, tmp, keeps.dequeue_nil fails, rfl, keeps⟩
  | .dequeue fails, data :: vals =>
    obtain ⟨next, returns, again⟩ := keeps.dequeue_cons fails
    exact ⟨next, _, rest.tail, last, tmp, returns, rfl, again⟩

/-- Over every run of one thread, from the constructor on and with any failures of the weak
exchanges: no null pointer is followed, the values come out in the order in which they were put in,
none is lost or comes twice, and `_size` is their number, exactly when each `enqueue` survives its
failures. -/
theorem lawful_iff_survives (calls : List (QueueCall T)) :
    EachReturn (beside LocklessQ.step fun vals call => (specStep vals call).1) Lawful
        (create, []) calls ↔
      EachStep (beside LocklessQ.step fun vals call => (specStep vals call).1) Survives
        (create, []) calls := by
  refine eachReturn_iff_of_steps
    (fun state call (kept : ∃ rest last tmp, Keeps state.1 state.2 rest last tmp) survived => ?_)
    (fun state call next returned kept returns lawful => ?_) calls _ ⟨[], 0, 0, keeps_create⟩
  · obtain ⟨queue, vals⟩ := state
    obtain ⟨rest, last, tmp, keeps⟩ := kept
    obtain ⟨next, returned, rest, last, tmp, returns, same, again⟩ := keeps.step call survived
    exact ⟨(next, _), returned, by rw [beside, returns]; rfl, ⟨same, again.holds⟩,
      rest, last, tmp, again⟩
  · obtain ⟨queue, vals⟩ := state
    obtain ⟨rest, last, tmp, keeps⟩ := kept
    cases call with
    | dequeue => trivial
    | enqueue data fails =>
      by_contra failed
      obtain ⟨⟨after, result⟩, steps, same⟩ := Option.map_eq_some_iff.mp returns
      obtain ⟨⟨after, enqueued⟩, enqueues, sameStep⟩ := Option.map_eq_some_iff.mp steps
      obtain ⟨rfl, rfl⟩ := Prod.mk.inj sameStep
      obtain ⟨rfl, rfl⟩ := Prod.mk.inj same
      exact keeps.enqueue_spoils failed enqueues lawful.2

/-- The first exchange of the first `enqueue` fails once without a reason. -/
theorem spurious_failure_follows_null :
    ¬ ∀ calls : List (QueueCall Nat),
      EachReturn (beside LocklessQ.step fun vals call => (specStep vals call).1) Lawful
        (create, []) calls := by
  intro claim
  exact claim [.enqueue 7 [true]]

end LocklessQ

end ObLib
