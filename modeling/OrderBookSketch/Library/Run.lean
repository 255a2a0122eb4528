/-
This file gives runs of partial step functions their invariant and simulation rules.

A component takes one input after another. Each step either returns the next state
and an output or does not return at all (`none`); a run of a list of inputs returns
when every step does. A specification is a step function that always returns. A
condition on the steps of a run is read along the run of the specification, where it
sees the specification's state before each step.
-/

import Mathlib.Logic.Basic

namespace Runs

variable {State Spec Input Output : Type}

/-- The last state and the outputs of a run, `none` when some step does not return. -/
def run (step : State → Input → Option (State × Output)) :
    State → List Input → Option (State × List Output)
  | state, [] => some (state, [])
  | state, input :: inputs => do
    let (next, output) ← step state input
    let (last, outputs) ← run step next inputs
    return (last, output :: outputs)

/-- The last state and the outputs of a run whose steps all return. -/
def specRun (step : Spec → Input → Spec × Output) : Spec → List Input → Spec × List Output
  | spec, [] => (spec, [])
  | spec, input :: inputs =>
    ((specRun step (step spec input).1 inputs).1,
      (step spec input).2 :: (specRun step (step spec input).1 inputs).2)

/-- Every input meets the condition in the specification's state before it. -/
def Along (step : Spec → Input → Spec × Output) (condition : Spec → Input → Prop) :
    Spec → List Input → Prop
  | _, [] => True
  | spec, input :: inputs => condition spec input ∧ Along step condition (step spec input).1 inputs

theorem run_cons_of_some {step : State → Input → Option (State × Output)} {state next : State}
    {input : Input} {output : Output} (inputs : List Input)
    (returns : step state input = some (next, output)) :
    run step state (input :: inputs) =
      (run step next inputs).map fun rest => (rest.1, output :: rest.2) := by
  rw [run, returns]
  show (run step next inputs).bind (fun rest => some (rest.1, output :: rest.2)) = _
  rw [Option.map_eq_bind]
  rfl

theorem run_cons_of_none {step : State → Input → Option (State × Output)} {state : State}
    {input : Input} (inputs : List Input) (diverges : step state input = none) :
    run step state (input :: inputs) = none := by
  rw [run, diverges]
  rfl

/-- A step, or a run, returns one state and one output. -/
theorem returns_unique {returned : Option (State × Output)} {next other : State}
    {output otherOutput : Output} (returns : returned = some (next, output))
    (returnsOther : returned = some (other, otherOutput)) : next = other ∧ output = otherOutput :=
  Prod.mk.inj (Option.some.inj (returns.symm.trans returnsOther))

/-- Steps that agree on the states of an invariant make the same runs. -/
theorem run_congr {step other : State → Input → Option (State × Output)} {invariant : State → Prop}
    (same : ∀ state input, invariant state → step state input = other state input)
    (keeps : ∀ state input next output, invariant state → step state input = some (next, output) →
      invariant next) (inputs : List Input) {state : State} (start : invariant state) :
    run step state inputs = run other state inputs := by
  induction inputs generalizing state with
  | nil => rfl
  | cons input inputs inductionHypothesis =>
    cases returns : step state input with
    | none =>
      rw [run_cons_of_none inputs returns,
        run_cons_of_none inputs ((same state input start).symm.trans returns)]
    | some result =>
      rw [run_cons_of_some inputs returns,
        run_cons_of_some inputs ((same state input start).symm.trans returns),
        inductionHypothesis (keeps state input _ result.2 start returns)]

/-- A run that returns returns from its first step. -/
theorem exists_of_run_cons {step : State → Input → Option (State × Output)} {state last : State}
    {input : Input} {inputs : List Input} {outputs : List Output}
    (returns : run step state (input :: inputs) = some (last, outputs)) :
    ∃ next output later, step state input = some (next, output) ∧
      run step next inputs = some (last, later) ∧ outputs = output :: later := by
  obtain ⟨⟨next, output⟩, steps, rest⟩ := Option.bind_eq_some_iff.mp returns
  obtain ⟨⟨after, later⟩, runs, same⟩ := Option.bind_eq_some_iff.mp rest
  obtain ⟨rfl, rfl⟩ := Prod.mk.inj (Option.some.inj same)
  exact ⟨next, output, later, steps, runs, rfl⟩

/-- A run of two lists of inputs is a run of the second from where that of the first ends. -/
theorem exists_of_run_append {step : State → Input → Option (State × Output)}
    {inputs more : List Input} {state last : State} {outputs : List Output}
    (returns : run step state (inputs ++ more) = some (last, outputs)) :
    ∃ mid first later, run step state inputs = some (mid, first) ∧
      run step mid more = some (last, later) ∧ outputs = first ++ later := by
  induction inputs generalizing state outputs with
  | nil => exact ⟨state, [], outputs, rfl, returns, rfl⟩
  | cons input inputs inductionHypothesis =>
    obtain ⟨next, output, rest, steps, runs, rfl⟩ := exists_of_run_cons returns
    obtain ⟨mid, first, later, firstRuns, laterRuns, rfl⟩ := inductionHypothesis runs
    refine ⟨mid, output :: first, later, ?_, laterRuns, rfl⟩
    rw [run_cons_of_some inputs steps, firstRuns]
    rfl

/-- A step simulates the specification's when it returns the same output in a state that is
again related. -/
def Simulates (step : State → Input → Option (State × Output))
    (specStep : Spec → Input → Spec × Output) (relation : State → Spec → Prop)
    (condition : Spec → Input → Prop) : Prop :=
  ∀ state spec input, relation state spec → condition spec input →
    ∃ next, step state input = some (next, (specStep spec input).2) ∧
      relation next (specStep spec input).1

/-- Steps that simulate the specification's make runs that do. -/
theorem run_simulates {step : State → Input → Option (State × Output)}
    {specStep : Spec → Input → Spec × Output} {relation : State → Spec → Prop}
    {condition : Spec → Input → Prop} (simulates : Simulates step specStep relation condition)
    (inputs : List Input) (state : State) (spec : Spec) (related : relation state spec)
    (along : Along specStep condition spec inputs) :
    ∃ last, run step state inputs = some (last, (specRun specStep spec inputs).2) ∧
      relation last (specRun specStep spec inputs).1 := by
  induction inputs generalizing state spec with
  | nil => exact ⟨state, rfl, related⟩
  | cons input inputs inductionHypothesis =>
    obtain ⟨next, returns, again⟩ := simulates state spec input related along.1
    obtain ⟨last, rest, final⟩ := inductionHypothesis next _ again along.2
    refine ⟨last, ?_, final⟩
    rw [run_cons_of_some inputs returns, rest]
    rfl

/-- A run of allowed inputs does not return when the step of the first one that fails the
condition does not. -/
theorem run_eq_none {step : State → Input → Option (State × Output)}
    {specStep : Spec → Input → Spec × Output} {relation : State → Spec → Prop}
    {allowed : Input → Prop} {condition : Spec → Input → Prop}
    (simulates : Simulates step specStep relation
      fun spec input => allowed input ∧ condition spec input)
    (diverges : ∀ state spec input, relation state spec → ¬ condition spec input →
      step state input = none)
    (inputs : List Input) (each : ∀ input ∈ inputs, allowed input) (state : State) (spec : Spec)
    (related : relation state spec) (fails : ¬ Along specStep condition spec inputs) :
    run step state inputs = none := by
  induction inputs generalizing state spec with
  | nil => exact absurd trivial fails
  | cons input inputs inductionHypothesis =>
    by_cases meets : condition spec input
    · obtain ⟨next, returns, again⟩ :=
        simulates state spec input related ⟨each input List.mem_cons_self, meets⟩
      rw [run_cons_of_some inputs returns,
        inductionHypothesis (fun other member => each other (List.mem_cons_of_mem _ member)) next _
          again fun rest => fails ⟨meets, rest⟩]
      rfl
    · exact run_cons_of_none inputs (diverges state spec input related meets)

/-- A condition on the inputs alone holds along every run of inputs that meet it. -/
theorem along_and {specStep : Spec → Input → Spec × Output} {allowed : Input → Prop}
    {condition : Spec → Input → Prop} (inputs : List Input) (spec : Spec)
    (each : ∀ input ∈ inputs, allowed input) (along : Along specStep condition spec inputs) :
    Along specStep (fun spec input => allowed input ∧ condition spec input) spec inputs := by
  induction inputs generalizing spec with
  | nil => trivial
  | cons input inputs inductionHypothesis =>
    exact ⟨⟨each input List.mem_cons_self, along.1⟩, inductionHypothesis _
      (fun other member => each other (List.mem_cons_of_mem _ member)) along.2⟩

/-- A condition on the inputs alone holds along the run. -/
theorem along_of_forall {specStep : Spec → Input → Spec × Output} {allowed : Input → Prop}
    {inputs : List Input} (each : ∀ input ∈ inputs, allowed input) (spec : Spec) :
    Along specStep (fun _ input => allowed input) spec inputs := by
  induction inputs generalizing spec with
  | nil => trivial
  | cons input inputs inductionHypothesis =>
    exact ⟨each input List.mem_cons_self, inductionHypothesis
      (fun other member => each other (List.mem_cons_of_mem _ member)) _⟩

/-- A specification that puts something else out for its outputs. -/
def specMap {Other : Type} (carry : Output → Other) (step : Spec → Input → Spec × Output)
    (spec : Spec) (input : Input) : Spec × Other :=
  ((step spec input).1, carry (step spec input).2)

theorem specRun_specMap {Other : Type} (carry : Output → Other)
    (step : Spec → Input → Spec × Output) (spec : Spec) (inputs : List Input) :
    specRun (specMap carry step) spec inputs =
      ((specRun step spec inputs).1, (specRun step spec inputs).2.map carry) := by
  induction inputs generalizing spec with
  | nil => rfl
  | cons input inputs inductionHypothesis =>
    simp only [specRun, specMap, inductionHypothesis, List.map_cons]

theorem along_specMap_iff {Other : Type} (carry : Output → Other)
    {step : Spec → Input → Spec × Output} {condition : Spec → Input → Prop} {spec : Spec}
    {inputs : List Input} :
    Along (specMap carry step) condition spec inputs ↔ Along step condition spec inputs := by
  induction inputs generalizing spec with
  | nil => rfl
  | cons input inputs inductionHypothesis => exact and_congr_right fun _ => inductionHypothesis

/-- The condition along a run is decided by running it. -/
instance decideAlong {specStep : Spec → Input → Spec × Output} {condition : Spec → Input → Prop}
    [∀ spec input, Decidable (condition spec input)] :
    ∀ spec inputs, Decidable (Along specStep condition spec inputs)
  | _, [] => .isTrue trivial
  | spec, input :: inputs =>
    @instDecidableAnd _ _ inferInstance (decideAlong (specStep spec input).1 inputs)

/-- Where no condition is needed, a run simulates the specification's from related states. -/
theorem run_simulates_always {step : State → Input → Option (State × Output)}
    {specStep : Spec → Input → Spec × Output} {relation : State → Spec → Prop}
    (simulates : Simulates step specStep relation fun _ _ => True)
    (inputs : List Input) (state : State) (spec : Spec) (related : relation state spec) :
    ∃ last, run step state inputs = some (last, (specRun specStep spec inputs).2) ∧
      relation last (specRun specStep spec inputs).1 :=
  run_simulates simulates inputs state spec related (along_of_forall (fun _ _ => trivial) spec)

/-- Steps that keep an invariant and relate the states around them make runs that do, where
the relation is reflexive and transitive. -/
theorem run_relates {step : State → Input → Option (State × Output)} {invariant : State → Prop}
    {allowed : Input → Prop} {relation : State → State → Prop}
    (refl : ∀ state, relation state state)
    (trans : ∀ first second third, relation first second → relation second third →
      relation first third)
    (steps : ∀ state input, invariant state → allowed input →
      ∃ next output, step state input = some (next, output) ∧ invariant next ∧ relation state next)
    (inputs : List Input) (each : ∀ input ∈ inputs, allowed input) (state : State)
    (start : invariant state) :
    ∃ last outputs, run step state inputs = some (last, outputs) ∧ invariant last ∧
      relation state last := by
  induction inputs generalizing state with
  | nil => exact ⟨state, [], rfl, start, refl state⟩
  | cons input inputs inductionHypothesis =>
    obtain ⟨next, output, returns, again, related⟩ :=
      steps state input start (each input List.mem_cons_self)
    obtain ⟨last, outputs, rest, final, further⟩ := inductionHypothesis
      (fun other member => each other (List.mem_cons_of_mem _ member)) next again
    refine ⟨last, output :: outputs, ?_, final, trans _ _ _ related further⟩
    rw [run_cons_of_some inputs returns, rest]
    rfl

/-! ### Properties of every state of a run -/

/-- Every step of the run returns, and every state it reaches has the property. -/
def Throughout (step : State → Input → Option (State × Output)) (holds : State → Prop) :
    State → List Input → Prop
  | state, [] => holds state
  | state, input :: inputs =>
    holds state ∧
      match step state input with
      | some (next, _) => Throughout step holds next inputs
      | none => False

/-- Every input meets the condition in the state before it. -/
def EachStep (step : State → Input → Option (State × Output)) (condition : State → Input → Prop) :
    State → List Input → Prop
  | _, [] => True
  | state, input :: inputs =>
    condition state input ∧
      match step state input with
      | some (next, _) => EachStep step condition next inputs
      | none => True

variable {step : State → Input → Option (State × Output)}

/-- The condition along a run is decided by running it. -/
def decideEachStep {condition : State → Input → Prop}
    (decideStep : ∀ state input, Decidable (condition state input)) :
    ∀ state inputs, Decidable (EachStep step condition state inputs)
  | _, [] => .isTrue trivial
  | state, input :: inputs =>
    have later : Decidable (match step state input with
        | some (next, _) => EachStep step condition next inputs
        | none => True) :=
      match step state input with
      | some (next, _) => decideEachStep decideStep next inputs
      | none => .isTrue trivial
    @instDecidableAnd _ _ (decideStep state input) later

instance {condition : State → Input → Prop} [∀ state input, Decidable (condition state input)]
    (state : State) (inputs : List Input) : Decidable (EachStep step condition state inputs) :=
  decideEachStep inferInstance state inputs

theorem eachStep_of_forall {condition : State → Input → Prop} {inputs : List Input}
    (each : ∀ state, ∀ input ∈ inputs, condition state input) (state : State) :
    EachStep step condition state inputs := by
  induction inputs generalizing state with
  | nil => trivial
  | cons input inputs inductionHypothesis =>
    refine ⟨each state input List.mem_cons_self, ?_⟩
    cases step state input with
    | none => trivial
    | some next =>
      exact inductionHypothesis
        (fun state other member => each state other (List.mem_cons_of_mem _ member)) next.1

/-- Two conditions that agree on the states of an invariant hold along the same runs, where the
invariant lasts as long as they do. -/
theorem eachStep_iff {invariant : State → Prop} {condition other : State → Input → Prop}
    (same : ∀ state input, invariant state → (condition state input ↔ other state input))
    (keeps : ∀ state input next output, invariant state → other state input →
      step state input = some (next, output) → invariant next)
    (inputs : List Input) (state : State) (start : invariant state) :
    EachStep step condition state inputs ↔ EachStep step other state inputs := by
  induction inputs generalizing state with
  | nil => exact Iff.rfl
  | cons input inputs inductionHypothesis =>
    unfold EachStep
    rw [same state input start]
    refine and_congr_right fun meets => ?_
    cases returns : step state input with
    | none => exact Iff.rfl
    | some result =>
      exact inductionHypothesis result.1 (keeps state input _ result.2 start meets returns)

theorem Throughout.start {holds : State → Prop} {state : State} {inputs : List Input}
    (throughout : Throughout step holds state inputs) : holds state := by
  cases inputs with
  | nil => exact throughout
  | cons => exact throughout.1

theorem Throughout.last {holds : State → Prop} {inputs : List Input} {state last : State}
    {outputs : List Output} (throughout : Throughout step holds state inputs)
    (returns : run step state inputs = some (last, outputs)) : holds last := by
  induction inputs generalizing state outputs with
  | nil =>
    cases returns
    exact throughout
  | cons input inputs inductionHypothesis =>
    obtain ⟨next, output, later, steps, runs, -⟩ := exists_of_run_cons returns
    have rest := throughout.2
    rw [steps] at rest
    exact inductionHypothesis rest runs

/-- Where a step that meets the condition keeps the property, and a step that keeps the property
meets the condition, every state of a run has the property exactly when every step meets the
condition. -/
theorem throughout_iff_of_steps {holds invariant : State → Prop}
    {allowed condition : State → Input → Prop}
    (meets : ∀ state input, invariant state → holds state → allowed state input →
      condition state input →
        ∃ next output, step state input = some (next, output) ∧ holds next)
    (needs : ∀ state input next output, invariant state → holds state → allowed state input →
      step state input = some (next, output) → holds next → condition state input)
    (keeps : ∀ state input next output, invariant state → holds state → allowed state input →
      condition state input → step state input = some (next, output) → invariant next)
    (inputs : List Input) (state : State) (start : invariant state) (startHolds : holds state)
    (fits : EachStep step allowed state inputs) :
    Throughout step holds state inputs ↔ EachStep step condition state inputs := by
  induction inputs generalizing state with
  | nil => exact ⟨fun _ => trivial, fun _ => startHolds⟩
  | cons input inputs inductionHypothesis =>
    obtain ⟨allowedHere, later⟩ := fits
    unfold Throughout EachStep
    cases returns : step state input with
    | none =>
      refine ⟨fun throughout => throughout.2.elim, fun each => ?_⟩
      obtain ⟨next, output, returned, -⟩ := meets state input start startHolds allowedHere each.1
      rw [returned] at returns
      cases returns
    | some result =>
      obtain ⟨next, output⟩ := result
      rw [returns] at later
      have rest (meetsHere : condition state input) (nextHolds : holds next) :=
        inductionHypothesis next
          (keeps state input next output start startHolds allowedHere meetsHere returns) nextHolds later
      constructor
      · intro throughout
        have nextHolds := throughout.2.start
        have meetsHere := needs state input next output start startHolds allowedHere returns nextHolds
        exact ⟨meetsHere, (rest meetsHere nextHolds).mp throughout.2⟩
      · intro each
        obtain ⟨again, output, returned, nextHolds⟩ :=
          meets state input start startHolds allowedHere each.1
        obtain ⟨rfl, -⟩ := returns_unique returned returns
        exact ⟨startHolds, (rest each.1 nextHolds).mpr each.2⟩

/-- Where the condition decides at each step whether the property is kept, it decides over a
whole run whether every state has the property. -/
theorem throughout_iff {holds invariant : State → Prop} {allowed condition : State → Input → Prop}
    (decides : ∀ state input, invariant state → holds state → allowed state input →
      ∃ next output, step state input = some (next, output) ∧
        (holds next ↔ condition state input) ∧ (condition state input → invariant next))
    (inputs : List Input) (state : State) (start : invariant state) (startHolds : holds state)
    (fits : EachStep step allowed state inputs) :
    Throughout step holds state inputs ↔ EachStep step condition state inputs := by
  refine throughout_iff_of_steps (fun state input start startHolds fits meets => ?_)
    (fun state input next output start startHolds fits returns nextHolds => ?_)
    (fun state input next output start startHolds fits meets returns => ?_) inputs state start
    startHolds fits
  · obtain ⟨next, output, returns, kept, -⟩ := decides state input start startHolds fits
    exact ⟨next, output, returns, kept.mpr meets⟩
  · obtain ⟨after, outputAfter, returned, kept, -⟩ := decides state input start startHolds fits
    obtain ⟨rfl, -⟩ := returns_unique returned returns
    exact kept.mp nextHolds
  · obtain ⟨after, outputAfter, returned, -, again⟩ := decides state input start startHolds fits
    obtain ⟨rfl, -⟩ := returns_unique returned returns
    exact again meets

/-- Two conditions that hold along a run hold along it together. -/
theorem EachStep.and {condition other : State → Input → Prop} {state : State} {inputs : List Input}
    (each : EachStep step condition state inputs) (eachOther : EachStep step other state inputs) :
    EachStep step (fun state input => condition state input ∧ other state input) state inputs := by
  induction inputs generalizing state with
  | nil => trivial
  | cons input inputs inductionHypothesis =>
    obtain ⟨here, later⟩ := each
    obtain ⟨hereOther, laterOther⟩ := eachOther
    refine ⟨⟨here, hereOther⟩, ?_⟩
    cases returns : step state input with
    | none => trivial
    | some result =>
      rw [returns] at later laterOther
      exact inductionHypothesis later laterOther

/-- An invariant that every allowed step keeps holds throughout a run of allowed steps. -/
theorem throughout_of_keeps {holds invariant : State → Prop} {allowed : State → Input → Prop}
    (implies : ∀ state, invariant state → holds state)
    (keeps : ∀ state input, invariant state → allowed state input →
      ∃ next output, step state input = some (next, output) ∧ invariant next)
    (inputs : List Input) (state : State) (start : invariant state)
    (fits : EachStep step allowed state inputs) : Throughout step holds state inputs := by
  induction inputs generalizing state with
  | nil => exact implies state start
  | cons input inputs inductionHypothesis =>
    obtain ⟨allowedHere, later⟩ := fits
    obtain ⟨next, output, returns, again⟩ := keeps state input start allowedHere
    refine ⟨implies state start, ?_⟩
    rw [returns] at later ⊢
    exact inductionHypothesis next again later

/-- An invariant that every allowed step keeps holds behind a run of allowed steps, which returns. -/
theorem run_keeps {invariant : State → Prop} {allowed : State → Input → Prop}
    (keeps : ∀ state input, invariant state → allowed state input →
      ∃ next output, step state input = some (next, output) ∧ invariant next)
    (inputs : List Input) (state : State) (start : invariant state)
    (fits : EachStep step allowed state inputs) :
    ∃ last outputs, run step state inputs = some (last, outputs) ∧ invariant last := by
  induction inputs generalizing state with
  | nil => exact ⟨state, [], rfl, start⟩
  | cons input inputs inductionHypothesis =>
    obtain ⟨allowedHere, later⟩ := fits
    obtain ⟨next, output, returns, again⟩ := keeps state input start allowedHere
    rw [returns] at later
    obtain ⟨last, outputs, runs, final⟩ := inductionHypothesis next again later
    exact ⟨last, output :: outputs, by rw [run_cons_of_some inputs returns, runs]; rfl, final⟩

/-! ### Properties of every step of a run -/

/-- Every step of the run returns, and what it does to the state and outputs is lawful. -/
def EachReturn (step : State → Input → Option (State × Output))
    (lawful : State → Input → Output → State → Prop) : State → List Input → Prop
  | _, [] => True
  | state, input :: inputs =>
    match step state input with
    | some (next, output) => lawful state input output next ∧ EachReturn step lawful next inputs
    | none => False

/-- Where the condition decides at each step whether it is lawful, and an invariant lasts as long
as it holds, every step of a run is lawful exactly when every step meets the condition. -/
theorem eachReturn_iff {lawful : State → Input → Output → State → Prop} {invariant : State → Prop}
    {condition : State → Input → Prop}
    (decides : ∀ state input, invariant state → ∃ next output,
      step state input = some (next, output) ∧
        (lawful state input output next ↔ condition state input) ∧
        (condition state input → invariant next))
    (inputs : List Input) (state : State) (start : invariant state) :
    EachReturn step lawful state inputs ↔ EachStep step condition state inputs := by
  induction inputs generalizing state with
  | nil => exact Iff.rfl
  | cons input inputs inductionHypothesis =>
    obtain ⟨next, output, returns, same, again⟩ := decides state input start
    unfold EachReturn EachStep
    rw [returns]
    show _ ∧ _ ↔ _ ∧ _
    rw [same]
    exact and_congr_right fun meets => inductionHypothesis next (again meets)

/-- So it is in a run whose steps are all allowed. -/
theorem eachReturn_iff_of_allowed {lawful : State → Input → Output → State → Prop}
    {invariant : State → Prop} {allowed condition : State → Input → Prop}
    (decides : ∀ state input, invariant state → allowed state input → ∃ next output,
      step state input = some (next, output) ∧
        (lawful state input output next ↔ condition state input) ∧
        (condition state input → invariant next))
    (inputs : List Input) (state : State) (start : invariant state)
    (fits : EachStep step allowed state inputs) :
    EachReturn step lawful state inputs ↔ EachStep step condition state inputs := by
  induction inputs generalizing state with
  | nil => exact Iff.rfl
  | cons input inputs inductionHypothesis =>
    obtain ⟨allowedHere, later⟩ := fits
    obtain ⟨next, output, returns, same, again⟩ := decides state input start allowedHere
    unfold EachReturn EachStep
    rw [returns] at later ⊢
    show _ ∧ _ ↔ _ ∧ _
    rw [same]
    exact and_congr_right fun meets => inductionHypothesis next (again meets) later

/-- Where a step that meets the condition is lawful and keeps an invariant, and a step that returns
lawfully meets the condition, every step of a run is lawful exactly when every step meets the
condition. -/
theorem eachReturn_iff_of_steps {lawful : State → Input → Output → State → Prop}
    {invariant : State → Prop} {condition : State → Input → Prop}
    (meets : ∀ state input, invariant state → condition state input → ∃ next output,
      step state input = some (next, output) ∧ lawful state input output next ∧ invariant next)
    (needs : ∀ state input next output, invariant state →
      step state input = some (next, output) → lawful state input output next →
      condition state input)
    (inputs : List Input) (state : State) (start : invariant state) :
    EachReturn step lawful state inputs ↔ EachStep step condition state inputs := by
  induction inputs generalizing state with
  | nil => exact Iff.rfl
  | cons input inputs inductionHypothesis =>
    unfold EachReturn EachStep
    constructor
    · intro each
      cases returns : step state input with
      | none =>
        rw [returns] at each
        exact each.elim
      | some result =>
        rw [returns] at each
        have here := needs state input _ result.2 start returns each.1
        obtain ⟨next, output, returned, -, again⟩ := meets state input start here
        obtain ⟨rfl, -⟩ := returns_unique returned returns
        exact ⟨here, (inductionHypothesis result.1 again).mp each.2⟩
    · rintro ⟨here, later⟩
      obtain ⟨next, output, returns, lawful, again⟩ := meets state input start here
      rw [returns] at later ⊢
      exact ⟨lawful, (inductionHypothesis next again).mpr later⟩

/-- Where each step of a run is lawful exactly when it meets the condition, all of them are exactly
when all of them do. -/
theorem eachReturn_iff_of_each {lawful : State → Input → Output → State → Prop}
    {condition : State → Input → Prop} {state : State} {inputs : List Input}
    (each : EachReturn step (fun state input output next =>
      lawful state input output next ↔ condition state input) state inputs) :
    EachReturn step lawful state inputs ↔ EachStep step condition state inputs := by
  induction inputs generalizing state with
  | nil => exact Iff.rfl
  | cons input inputs inductionHypothesis =>
    unfold EachReturn EachStep
    unfold EachReturn at each
    cases returns : step state input with
    | none =>
      rw [returns] at each
      exact each.elim
    | some result =>
      rw [returns] at each
      exact and_congr each.1 (inductionHypothesis each.2)

/-- Allowed steps that are lawful and keep an invariant make runs whose steps are all lawful. -/
theorem eachReturn_of_keeps {lawful : State → Input → Output → State → Prop}
    {invariant : State → Prop} {allowed : State → Input → Prop}
    (keeps : ∀ state input, invariant state → allowed state input → ∃ next output,
      step state input = some (next, output) ∧ lawful state input output next ∧ invariant next)
    (inputs : List Input) (state : State) (start : invariant state)
    (fits : EachStep step allowed state inputs) : EachReturn step lawful state inputs := by
  induction inputs generalizing state with
  | nil => trivial
  | cons input inputs inductionHypothesis =>
    obtain ⟨allowedHere, later⟩ := fits
    obtain ⟨next, output, returns, here, again⟩ := keeps state input start allowedHere
    unfold EachReturn
    rw [returns] at later ⊢
    exact ⟨here, inductionHypothesis next again later⟩

/-- In a run whose steps all return, a condition on the inputs holds at each step when it holds of
all inputs. -/
theorem EachReturn.forall_iff {lawful : State → Input → Output → State → Prop}
    {condition : Input → Prop} {inputs : List Input} {state : State}
    (each : EachReturn step lawful state inputs) :
    EachStep step (fun _ input => condition input) state inputs ↔
      ∀ input ∈ inputs, condition input := by
  induction inputs generalizing state with
  | nil => exact iff_of_true trivial nofun
  | cons input inputs inductionHypothesis =>
    unfold EachReturn at each
    unfold EachStep
    cases returns : step state input with
    | none =>
      rw [returns] at each
      exact each.elim
    | some result =>
      rw [returns] at each
      rw [List.forall_mem_cons]
      exact and_congr_right fun _ => inductionHypothesis each.2

/-- An invariant that lawful steps keep holds throughout a run whose steps are lawful. -/
theorem EachReturn.throughout {lawful : State → Input → Output → State → Prop}
    {invariant : State → Prop} {allowed : Input → Prop}
    (keeps : ∀ state input output next, invariant state → allowed input →
      lawful state input output next → invariant next) {inputs : List Input} {state : State}
    (each : EachReturn step lawful state inputs) (fits : ∀ input ∈ inputs, allowed input)
    (start : invariant state) : Throughout step invariant state inputs := by
  induction inputs generalizing state with
  | nil => exact start
  | cons input inputs inductionHypothesis =>
    unfold EachReturn at each
    refine ⟨start, ?_⟩
    cases returns : step state input with
    | none =>
      rw [returns] at each
      exact each
    | some result =>
      rw [returns] at each
      exact inductionHypothesis each.2
        (fun other member => fits other (List.mem_cons_of_mem _ member))
        (keeps _ _ _ _ start (fits input List.mem_cons_self) each.1)

/-! ### A component beside its reference -/

/-- The component and its reference take the same inputs. -/
def beside (step : State → Input → Option (State × Output)) (reference : Spec → Input → Spec) :
    State × Spec → Input → Option ((State × Spec) × Output)
  | (state, spec), input =>
    (step state input).map fun result => ((result.1, reference spec input), result.2)

/-! ### Two components in step -/

/-- Components that answer every allowed input alike, and stay related, make the same runs. -/
theorem run_lockstep {Other : Type} {other : Other → Input → Option (Other × Output)}
    {relation : State → Other → Prop} {allowed : Input → Prop}
    (lockstep : ∀ state twin input, relation state twin → allowed input →
      ∃ next after output, step state input = some (next, output) ∧
        other twin input = some (after, output) ∧ relation next after)
    {inputs : List Input} (each : ∀ input ∈ inputs, allowed input) {state : State} {twin : Other}
    (related : relation state twin) :
    ∃ last final outputs, run step state inputs = some (last, outputs) ∧
      run other twin inputs = some (final, outputs) ∧ relation last final := by
  induction inputs generalizing state twin with
  | nil => exact ⟨state, twin, [], rfl, rfl, related⟩
  | cons input inputs inductionHypothesis =>
    obtain ⟨allowedHere, later⟩ := List.forall_mem_cons.mp each
    obtain ⟨next, after, output, returns, answers, again⟩ :=
      lockstep state twin input related allowedHere
    obtain ⟨last, final, outputs, runs, runsOther, atEnd⟩ := inductionHypothesis later again
    refine ⟨last, final, output :: outputs, ?_, ?_, atEnd⟩
    · rw [run_cons_of_some inputs returns, runs]
      rfl
    · rw [run_cons_of_some inputs answers, runsOther]
      rfl

/-- The steps of a component are those of another that records more. What holds throughout a run of
that one, and is about what the component sees of it, holds throughout the run of the component. -/
theorem Throughout.seen {Other : Type} {recorded : Other → Input → Option (Other × Output)}
    (seen : Other → State) {holds invariant : State → Prop}
    (same : ∀ other input, invariant (seen other) →
      step (seen other) input = (recorded other input).map (Prod.map seen id))
    (keeps : ∀ state input next output, invariant state → step state input = some (next, output) →
      invariant next) {inputs : List Input} (other : Other) (start : invariant (seen other))
    (throughout : Throughout recorded (fun other => holds (seen other)) other inputs) :
    Throughout step holds (seen other) inputs := by
  induction inputs generalizing other with
  | nil => exact throughout
  | cons input inputs inductionHypothesis =>
    obtain ⟨here, later⟩ := throughout
    have sees := same other input start
    refine ⟨here, ?_⟩
    cases returns : recorded other input with
    | none =>
      rw [returns] at later
      exact later.elim
    | some result =>
      rw [returns] at later sees
      rw [sees]
      exact inductionHypothesis result.1 (keeps _ _ _ _ start sees) later

end Runs
