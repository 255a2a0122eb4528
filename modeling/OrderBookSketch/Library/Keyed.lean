/-
This file is about families of components that take their inputs from one stream.

Every input has a key and goes to the component of its key; the others stay as they
are. A run of the family is therefore, for each key, a run of its component on the
inputs of that key alone, whatever comes between them: it ends where that one ends, and
what it puts out for the inputs of a key is what that one puts out. A condition holds
along the stream when it holds for each component along its own inputs.
-/

import OrderBookSketch.Library.Run
import Mathlib.Logic.Function.Basic

namespace Runs

variable {Key Input Output State Spec : Type} [DecidableEq Key]

/-- A step of the family: the component of the input's key takes it. -/
def keyed (key : Input → Key) (step : State → Input → Option (State × Output))
    (family : Key → State) (input : Input) : Option ((Key → State) × Output) :=
  (step (family (key input)) input).map fun result =>
    (Function.update family (key input) result.1, result.2)

def specKeyed (key : Input → Key) (step : Spec → Input → Spec × Output) (family : Key → Spec)
    (input : Input) : (Key → Spec) × Output :=
  (Function.update family (key input) (step (family (key input)) input).1,
    (step (family (key input)) input).2)

/-- The inputs of a key. -/
def inputsOf (key : Input → Key) (inputs : List Input) (k : Key) : List Input :=
  inputs.filter (key · = k)

section Split

variable {key : Input → Key} {input : Input} {inputs : List Input} {output : Output}
  {outputs : List Output} {k : Key}

theorem inputsOf_cons_self : inputsOf key (input :: inputs) (key input) =
    input :: inputsOf key inputs (key input) :=
  List.filter_cons_of_pos (decide_eq_true rfl)

theorem inputsOf_cons_of_ne (other : key input ≠ k) :
    inputsOf key (input :: inputs) k = inputsOf key inputs k :=
  List.filter_cons_of_neg fun same => other (of_decide_eq_true same)

end Split

/-! ### Runs of the family -/

/-- A condition holds along a run of the family exactly when it holds for each component along
the run on its own inputs. -/
theorem along_specKeyed_iff {key : Input → Key} {step : Spec → Input → Spec × Output}
    {condition : Spec → Input → Prop} {inputs : List Input} {family : Key → Spec} :
    Along (specKeyed key step) (fun family input => condition (family (key input)) input)
        family inputs ↔
      ∀ k, Along step condition (family k) (inputsOf key inputs k) := by
  induction inputs generalizing family with
  | nil => exact iff_of_true trivial fun _ => trivial
  | cons input inputs inductionHypothesis =>
    show _ ∧ Along _ _ _ inputs ↔ _
    rw [inductionHypothesis]
    constructor
    · rintro ⟨here, later⟩ k
      by_cases same : key input = k
      · subst same
        rw [inputsOf_cons_self]
        have own := later (key input)
        simp only [specKeyed, Function.update_self] at own
        exact ⟨here, own⟩
      · rw [inputsOf_cons_of_ne same]
        have own := later k
        simp only [specKeyed, Function.update_of_ne (Ne.symm same)] at own
        exact own
    · intro each
      have first := each (key input)
      rw [inputsOf_cons_self] at first
      refine ⟨first.1, fun k => ?_⟩
      by_cases same : key input = k
      · subst same
        simp only [specKeyed, Function.update_self]
        exact first.2
      · have own := each k
        rw [inputsOf_cons_of_ne same] at own
        simp only [specKeyed, Function.update_of_ne (Ne.symm same)]
        exact own

theorem specKeyed_specMap {Other : Type} (key : Input → Key) (carry : Output → Other)
    (step : Spec → Input → Spec × Output) :
    specKeyed key (specMap carry step) = specMap carry (specKeyed key step) := rfl

/-- Components that simulate their specifications make a family that does. -/
theorem simulates_keyed {key : Input → Key} {step : State → Input → Option (State × Output)}
    {specStep : Spec → Input → Spec × Output} {relation : Key → State → Spec → Prop}
    {condition : Spec → Input → Prop}
    (simulates : ∀ k, Simulates step specStep (relation k) fun spec input =>
      key input = k ∧ condition spec input) :
    Simulates (keyed key step) (specKeyed key specStep)
      (fun family specs => ∀ k, relation k (family k) (specs k))
      fun specs input => condition (specs (key input)) input := by
  intro family specs input related meets
  obtain ⟨next, returns, again⟩ :=
    simulates (key input) _ _ input (related (key input)) ⟨rfl, meets⟩
  refine ⟨Function.update family (key input) next, by rw [keyed, returns]; rfl, fun k => ?_⟩
  by_cases same : k = key input
  · subst same
    simp only [specKeyed, Function.update_self]
    exact again
  · simp only [specKeyed, Function.update_of_ne same]
    exact related k

end Runs
