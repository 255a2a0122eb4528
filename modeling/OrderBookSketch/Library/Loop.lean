/-
This file gives unbounded loops a meaning and rules of total and of partial correctness.

A `for (;;)` loop has a body that either goes on with a new state or leaves the
loop with a result. A run of the loop is bounded by fuel: `none` says that the
body has gone on that many times without leaving, so a proof that the run is
`some` is a proof that the loop stops within that many turns. The rule asks for
an invariant of the states at the head of the loop and for a measure that every
turn lowers.
-/

import Mathlib.Order.Basic

namespace Loops

variable {State Result : Type}

/-- At most `fuel` turns of a loop whose body goes on (`inl`) or leaves (`inr`). -/
def loop (body : State → State ⊕ Result) : Nat → State → Option Result
  | 0, _ => none
  | fuel + 1, state =>
    match body state with
    | .inl next => loop body fuel next
    | .inr result => some result

theorem loop_inl {body : State → State ⊕ Result} {state next : State} (fuel : Nat)
    (goesOn : body state = .inl next) : loop body (fuel + 1) state = loop body fuel next := by
  rw [loop, goesOn]

theorem loop_inr {body : State → State ⊕ Result} {state : State} {result : Result} (fuel : Nat)
    (leaves : body state = .inr result) : loop body (fuel + 1) state = some result := by
  rw [loop, leaves]

/-- A loop leaves with one result, whatever the fuel. -/
theorem loop_unique {body : State → State ⊕ Result} {fuel more : Nat} {state : State}
    {result other : Result} (leaves : loop body fuel state = some result)
    (leavesOther : loop body more state = some other) : result = other := by
  induction fuel generalizing more state with
  | zero => cases leaves
  | succ fuel inductionHypothesis =>
    cases more with
    | zero => cases leavesOther
    | succ more =>
      cases outcome : body state with
      | inl next =>
        rw [loop_inl _ outcome] at leaves leavesOther
        exact inductionHypothesis leaves leavesOther
      | inr last =>
        rw [loop_inr _ outcome] at leaves leavesOther
        exact Option.some.inj (leaves.symm.trans leavesOther)

/-- What one turn owes to the rule: the invariant again and a smaller measure when the loop
goes on, the postcondition when it leaves. -/
def TurnOk (invariant : State → Prop) (measure : State → Nat) (post : Result → Prop)
    (state : State) : State ⊕ Result → Prop
  | .inl next => invariant next ∧ measure next < measure state
  | .inr result => post result

/-- Total correctness of a loop: from a state of the invariant whose measure is below the
fuel, the loop leaves, and with a result of the postcondition. -/
theorem loop_total (body : State → State ⊕ Result) (invariant : State → Prop)
    (measure : State → Nat) (post : Result → Prop)
    (turn : ∀ state, invariant state → TurnOk invariant measure post state (body state))
    (fuel : Nat) (state : State) (holds : invariant state) (enough : measure state < fuel) :
    ∃ result, loop body fuel state = some result ∧ post result := by
  induction fuel generalizing state with
  | zero => omega
  | succ fuel inductionHypothesis =>
    have here := turn state holds
    cases outcome : body state with
    | inl next =>
      rw [outcome] at here
      rw [loop_inl fuel outcome]
      exact inductionHypothesis next here.1 (by have := here.2; omega)
    | inr result =>
      rw [outcome] at here
      exact ⟨result, loop_inr fuel outcome, here⟩

/-- Partial correctness of a loop: from a state of the invariant it leaves, if it does, with a
result of the postcondition. -/
theorem loop_partial (body : State → State ⊕ Result) (invariant : State → Prop)
    (post : Result → Prop)
    (goesOn : ∀ state next, invariant state → body state = .inl next → invariant next)
    (leaves : ∀ state result, invariant state → body state = .inr result → post result)
    (fuel : Nat) (state : State) (holds : invariant state) {result : Result}
    (returns : loop body fuel state = some result) : post result := by
  induction fuel generalizing state with
  | zero => cases returns
  | succ fuel inductionHypothesis =>
    cases outcome : body state with
    | inl next =>
      rw [loop_inl fuel outcome] at returns
      exact inductionHypothesis next (goesOn state next holds outcome) returns
    | inr other =>
      rw [loop_inr fuel outcome] at returns
      rw [← Option.some.inj returns]
      exact leaves state other holds outcome

/-- A loop whose body always goes on inside a set of states never leaves, whatever the fuel. -/
theorem loop_eq_none (body : State → State ⊕ Result) (invariant : State → Prop)
    (turn : ∀ state, invariant state → ∃ next, body state = .inl next ∧ invariant next)
    (fuel : Nat) (state : State) (holds : invariant state) : loop body fuel state = none := by
  induction fuel generalizing state with
  | zero => rfl
  | succ fuel inductionHypothesis =>
    obtain ⟨next, goesOn, again⟩ := turn state holds
    rw [loop_inl fuel goesOn]
    exact inductionHypothesis next again

end Loops
