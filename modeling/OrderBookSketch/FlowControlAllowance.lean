/-
This file proves that what a flow control allows fits into the burst, and that a caller
that keeps to it never takes more than the burst.

The rates that the window reports decide only whether anything is allowed. So the calls
are those of a flow control over any window: what a measurement makes of the window and
the rate it gives are a function, of which the ring of measurements is one case.
-/

import OrderBookSketch.FlowControl

namespace ObLib

open Rings Runs MeasurementWindow

namespace AdaptiveFlowControl

/-! ### Any rates -/

/-- What a measurement makes of the window, and the rate that is reported for it. -/
abbrev Report := MeasurementWindow → Int → Measurement → MeasurementWindow × Int

/-- `isOkToSend`, whatever the window reports. -/
def isOkToSendBy (report : Report) (flow : AdaptiveFlowControl) (now : Int) :
    AdaptiveFlowControl × Int :=
  let elapsed := now - flow.startCount
  let (flow, count) :=
    if flow.milliCount < elapsed ∨ flow.burstCount < flow.cumulative then
      let (window, count) := report flow.window now ⟨now, elapsed, flow.cumulative⟩
      ({ flow with window := window, startCount := now, cumulative := 0 }, count)
    else (flow, flow.window.count)
  (flow, if count < flow.avgRate then (flow.burstCount - flow.cumulative : Int) % 2 ^ 32 else 0)

def stepBy (report : Report) (flow : AdaptiveFlowControl) :
    FlowCall → Option (AdaptiveFlowControl × Option Int)
  | .addTraffic additional => some (flow.addTraffic additional, none)
  | .isOkToSend now =>
    let (flow, allowed) := flow.isOkToSendBy report now
    some (flow, some allowed)

/-- What the ring of measurements reports. -/
def ringReport (cpuFreq : ℚ≥0) : Report := fun window now latest =>
  (window.calculateRate cpuFreq timerSerialSize now latest).getD (window, window.count)

theorem step_eq_stepBy (cpuFreq : ℚ≥0) {flow : AdaptiveFlowControl} (inRange : flow.InRange)
    (call : FlowCall) : step cpuFreq flow call = stepBy (ringReport cpuFreq) flow call := by
  cases call with
  | addTraffic additional => rfl
  | isOkToSend now =>
    rw [step, stepBy, isOkToSend, isOkToSendBy]
    by_cases due : flow.milliCount < now - flow.startCount ∨ flow.burstCount < flow.cumulative
    · have latest : (⟨now, now - flow.startCount, flow.cumulative⟩ : Measurement).begin = now := rfl
      rw [if_pos due, if_pos due, ringReport, calculateRate_eq cpuFreq inRange.1 inRange.2 latest]
      rfl
    · rw [if_neg due, if_neg due]
      rfl

/-- The calls on a flow control over the ring of measurements are calls over a window that reports
what the ring does. -/
theorem run_eq_stepBy (cpuFreq : ℚ≥0) (calls : List FlowCall) {flow : AdaptiveFlowControl}
    (inRange : flow.InRange) :
    run (step cpuFreq) flow calls = run (stepBy (ringReport cpuFreq)) flow calls := by
  refine run_congr (fun flow call inRange => step_eq_stepBy cpuFreq inRange call)
    (fun flow call next output inRange returns => ?_) calls inRange
  obtain ⟨after, _, returned, again⟩ := step_inRange cpuFreq inRange call
  obtain ⟨rfl, -⟩ := returns_unique returned returns
  exact again

/-! ### What is allowed -/

variable {report : Report} {flow : AdaptiveFlowControl}

theorem unsigned_sub {burst cumulative : Nat} (unsigned : burst < 2 ^ 32)
    (within : cumulative ≤ burst) : (burst - cumulative : Int) % 2 ^ 32 = burst - cumulative :=
  Int.emod_eq_of_lt (by omega) (by omega)

/-- After a call the cumulative traffic is within the burst, and what is allowed is the rest of the
burst or nothing. -/
theorem isOkToSendBy_spec (report : Report) (unsigned : flow.burstCount < 2 ^ 32) (now : Int) :
    ∃ after allowed, flow.isOkToSendBy report now = (after, allowed) ∧
      after.burstCount = flow.burstCount ∧ after.cumulative ≤ after.burstCount ∧
      (allowed = 0 ∨ allowed = after.burstCount - after.cumulative) := by
  by_cases due : flow.milliCount < now - flow.startCount ∨ flow.burstCount < flow.cumulative
  · simp only [isOkToSendBy, if_pos due]
    refine ⟨_, _, rfl, rfl, Nat.zero_le _, ?_⟩
    split_ifs
    · exact .inr (unsigned_sub unsigned (Nat.zero_le _))
    · exact .inl rfl
  · simp only [isOkToSendBy, if_neg due]
    have within : flow.cumulative ≤ flow.burstCount := Nat.not_lt.mp (not_or.mp due).2
    refine ⟨_, _, rfl, rfl, within, ?_⟩
    split_ifs
    · exact .inr (unsigned_sub unsigned within)
    · exact .inl rfl

/-- What a call allows and the cumulative traffic after it fit into the burst, unless the call allows
nothing. -/
def Fits (burstCount : Nat) (_ : AdaptiveFlowControl) (_ : FlowCall) (allowed : Option Int)
    (after : AdaptiveFlowControl) : Prop :=
  ∀ rest ∈ allowed, 0 ≤ rest ∧ after.cumulative ≤ burstCount ∧
    (rest ≠ 0 → rest + after.cumulative ≤ burstCount)

theorem stepBy_fits (report : Report) (unsigned : flow.burstCount < 2 ^ 32) (call : FlowCall) :
    ∃ next allowed, stepBy report flow call = some (next, allowed) ∧
      Fits flow.burstCount flow call allowed next ∧ next.burstCount = flow.burstCount := by
  cases call with
  | addTraffic additional => exact ⟨_, _, rfl, nofun, rfl⟩
  | isOkToSend now =>
    obtain ⟨after, allowed, calls, same, inBurst, rest⟩ := isOkToSendBy_spec report unsigned now
    refine ⟨after, some allowed, by rw [stepBy, calls], fun other found => ?_, same⟩
    cases found
    rw [same] at inBurst rest
    omega

/-! ### A caller that keeps to it -/

/-- The flow control with what its caller may still add: what the last call allowed, less what was
added since. -/
structure Paced where
  flow : AdaptiveFlowControl
  left : Int

namespace Paced

def step (report : Report) (paced : Paced) : FlowCall → Option (Paced × Option Int)
  | .addTraffic additional =>
    some (⟨paced.flow.addTraffic additional, paced.left - additional⟩, none)
  | .isOkToSend now =>
    let (flow, allowed) := paced.flow.isOkToSendBy report now
    some (⟨flow, allowed⟩, some allowed)

/-- The caller adds no more than it may. -/
def Keeps (paced : Paced) : FlowCall → Prop
  | .addTraffic additional => additional ≤ paced.left
  | .isOkToSend _ => True

instance : DecidableRel Keeps
  | paced, .addTraffic additional => inferInstanceAs (Decidable ((additional : Int) ≤ paced.left))
  | _, .isOkToSend _ => .isTrue trivial

/-- The traffic is added as it is. -/
def Adds (paced : Paced) (call : FlowCall) (_ : Option Int) (after : Paced) : Prop :=
  ∀ additional, call = .addTraffic additional →
    after.flow.cumulative = paced.flow.cumulative + additional

/-- The cumulative traffic and what may still be added are within the burst. -/
structure Bounded (burstCount : Nat) (paced : Paced) : Prop where
  burst : paced.flow.burstCount = burstCount
  left : 0 ≤ paced.left
  within : paced.flow.cumulative + paced.left ≤ burstCount

theorem Bounded.step (report : Report) {burstCount : Nat} (unsigned : burstCount < 2 ^ 32)
    {paced : Paced} (bounded : Bounded burstCount paced) {call : FlowCall} (keeps : paced.Keeps call) :
    ∃ next allowed, paced.step report call = some (next, allowed) ∧
      paced.Adds call allowed next ∧ Bounded burstCount next := by
  obtain ⟨rfl, left, within⟩ := bounded
  cases call with
  | addTraffic additional =>
    have fits : additional ≤ paced.left := keeps
    have exact : (paced.flow.cumulative + additional) % 2 ^ 32 = paced.flow.cumulative + additional :=
      Nat.mod_eq_of_lt (by omega)
    refine ⟨_, _, rfl, fun other same => ?_, rfl, Int.sub_nonneg.mpr fits, ?_⟩
    · cases same
      exact exact
    · show ((paced.flow.cumulative + additional) % 2 ^ 32 : Nat) + (paced.left - additional) ≤ _
      rw [exact]
      omega
  | isOkToSend now =>
    obtain ⟨after, allowed, calls, burst, inBurst, rest⟩ := isOkToSendBy_spec report unsigned now
    refine ⟨⟨after, allowed⟩, some allowed, ?_, nofun, burst, ?_, ?_⟩
    · rw [Paced.step, calls]
    · show 0 ≤ allowed
      omega
    · show (after.cumulative : Int) + allowed ≤ _
      omega

theorem bounded_start (cpuFreq : ℚ≥0) (avgRate burstCount timeSlice : Nat) (now : Int) :
    Bounded burstCount ⟨start cpuFreq avgRate burstCount timeSlice now, 0⟩ :=
  ⟨rfl, Int.le_refl 0, Int.natCast_nonneg burstCount⟩

/-- A caller that keeps to what is allowed stays within the burst. -/
theorem Bounded.throughout (report : Report) {burstCount : Nat} (unsigned : burstCount < 2 ^ 32)
    {paced : Paced} (bounded : Bounded burstCount paced) {calls : List FlowCall}
    (keeps : EachStep (Paced.step report) Keeps paced calls) :
    Throughout (Paced.step report) (fun paced => paced.flow.cumulative ≤ burstCount) paced
      calls := by
  refine throughout_of_keeps (fun paced bounded => ?_) (fun paced call bounded keeps => ?_) calls _
    bounded keeps
  · obtain ⟨-, left, within⟩ := bounded
    omega
  · obtain ⟨next, allowed, returns, -, again⟩ := bounded.step report unsigned keeps
    exact ⟨next, allowed, returns, again⟩

/-- The flow control does not know what its caller may still add. -/
theorem step_flow (cpuFreq : ℚ≥0) (paced : Paced) (call : FlowCall) (inRange : paced.flow.InRange) :
    AdaptiveFlowControl.step cpuFreq paced.flow call =
      (paced.step (ringReport cpuFreq) call).map (Prod.map Paced.flow id) := by
  rw [step_eq_stepBy cpuFreq inRange]
  cases call <;> rfl

end Paced

/-- Every call allows what fits into the burst with the cumulative traffic after it; and for a caller
that never adds more than the last call has allowed, and nothing before the first, the cumulative
traffic is within the burst throughout and is the sum of what was added. -/
theorem allowances_fit (report : Report) (cpuFreq : ℚ≥0) (avgRate burstCount : UInt32)
    (timeSlice : Nat) (now : Int) (calls : List FlowCall) :
    let fresh := start cpuFreq avgRate.toNat burstCount.toNat timeSlice now
    EachReturn (stepBy report) (Fits burstCount.toNat) fresh calls ∧
      (EachStep (Paced.step report) Paced.Keeps ⟨fresh, 0⟩ calls →
        Throughout (Paced.step report)
            (fun paced => paced.flow.cumulative ≤ burstCount.toNat) ⟨fresh, 0⟩ calls ∧
          EachReturn (Paced.step report) Paced.Adds ⟨fresh, 0⟩ calls) := by
  have unsigned : burstCount.toNat < 2 ^ 32 := burstCount.toNat_lt
  constructor
  · have start : (start cpuFreq avgRate.toNat burstCount.toNat timeSlice now).burstCount =
        burstCount.toNat := rfl
    refine eachReturn_of_keeps
      (fun flow call (burst : flow.burstCount = burstCount.toNat) (_ : True) => ?_) calls _ start
      (eachStep_of_forall (fun _ _ _ => trivial) _)
    have fits := stepBy_fits report (burst ▸ unsigned) call
    rwa [burst] at fits
  · intro keeps
    have bounded := Paced.bounded_start cpuFreq avgRate.toNat burstCount.toNat timeSlice now
    exact ⟨bounded.throughout report unsigned keeps,
      eachReturn_of_keeps (fun paced call bounded keeps => bounded.step report unsigned keeps)
        calls _ bounded keeps⟩

/-- A window that reports what was measured, and a caller that takes all of the burst twice. -/
theorem allowances_fit_example :
    let report : Report := fun window _ latest => ({ window with count := latest.count }, latest.count)
    let fresh := start 1 20 (10 : UInt32).toNat 1 0
    let calls : List FlowCall :=
      [.isOkToSend 5, .addTraffic 4, .addTraffic 6, .isOkToSend 7, .isOkToSend 2000, .addTraffic 10]
    Throughout (Paced.step report) (fun paced => paced.flow.cumulative ≤ (10 : UInt32).toNat)
        ⟨fresh, 0⟩ calls ∧
      EachReturn (Paced.step report) Paced.Adds ⟨fresh, 0⟩ calls :=
  (allowances_fit _ 1 20 10 1 0 _).2 (by decide +kernel)

/-- So does every call of `isOkToSend` on a flow control over its ring of measurements. -/
theorem isOkToSend_fits (cpuFreq : ℚ≥0) (avgRate burstCount : UInt32) (timeSlice : Nat) (now : Int)
    (calls : List FlowCall) :
    let fresh := start cpuFreq avgRate.toNat burstCount.toNat timeSlice now
    EachReturn (step cpuFreq) (Fits burstCount.toNat) fresh calls ∧
      (EachStep (Paced.step (ringReport cpuFreq)) Paced.Keeps ⟨fresh, 0⟩ calls →
        Throughout (step cpuFreq) (fun flow => flow.cumulative ≤ burstCount.toNat) fresh calls) := by
  have unsigned : burstCount.toNat < 2 ^ 32 := burstCount.toNat_lt
  have startInRange := inRange_start cpuFreq avgRate.toNat burstCount.toNat timeSlice now
  constructor
  · refine eachReturn_of_keeps
      (fun flow call (kept : flow.InRange ∧ flow.burstCount = burstCount.toNat) (_ : True) => ?_)
      calls _ ⟨startInRange, rfl⟩ (eachStep_of_forall (fun _ _ _ => trivial) _)
    obtain ⟨inRange, burst⟩ := kept
    obtain ⟨after, output, returned, again⟩ := step_inRange cpuFreq inRange call
    obtain ⟨next, allowed, returns, fits, same⟩ :=
      stepBy_fits (ringReport cpuFreq) (burst ▸ unsigned) call
    rw [← step_eq_stepBy cpuFreq inRange] at returns
    obtain ⟨rfl, rfl⟩ := returns_unique returned returns
    exact ⟨after, output, returned, burst ▸ fits, again, same.trans burst⟩
  · intro keeps
    have bounded := Paced.bounded_start cpuFreq avgRate.toNat burstCount.toNat timeSlice now
    refine Throughout.seen Paced.flow (Paced.step_flow cpuFreq)
      (fun flow call next output inRange returns => ?_)
      ⟨start cpuFreq avgRate.toNat burstCount.toNat timeSlice now, 0⟩ startInRange
      (bounded.throughout (ringReport cpuFreq) unsigned keeps)
    obtain ⟨after, _, returned, again⟩ := step_inRange cpuFreq inRange call
    obtain ⟨rfl, -⟩ := returns_unique returned returns
    exact again

end AdaptiveFlowControl

end ObLib
