/-
This file models Common/include/FlowControl.hpp, the window of measurements and the flow
control that reads its rate, and proves that a call ends within one turn of the ring.

The index is a number and the ring has 64 slots; a call that looks outside of the ring
has no result (`none`), and neither has one whose loop is still running after the given
number of turns. Tick counts and the two totals are exact integers. The frequency of the
clock is a measured number, and the products with it are exact as well.
-/

import OrderBookSketch.Library.Loop
import OrderBookSketch.Library.Ring
import OrderBookSketch.Library.Run
import Mathlib.Algebra.Field.Rat
import Mathlib.Algebra.Order.Ring.Rat
import Mathlib.Data.List.Nodup
import Mathlib.Data.List.TakeWhile
import Mathlib.Data.NNRat.Defs

namespace ObLib

open Loops Rings Runs

/-- `DEFAULT_TIMER_SERIAL_SIZE`. -/
def timerSerialSize : Nat := 64

structure Measurement where
  begin : Int
  duration : Int
  count : Nat
deriving DecidableEq, Repr

structure MeasurementWindow where
  serial : Vector Measurement timerSerialSize
  count : Int
  sum : Int
  duration : Int
  index : Nat
  maxDuration : Int

namespace MeasurementWindow

/-- The constructor; the number of slots and the time slice are multiplied as `unsigned`. -/
def start (cpuFreq : ℚ≥0) (timeSlice : Nat) : MeasurementWindow where
  serial := Vector.replicate timerSerialSize ⟨0, 0, 0⟩
  count := 0
  sum := 0
  duration := 0
  index := 0
  maxDuration := ((timerSerialSize * timeSlice % 2 ^ 32 : Nat) * (cpuFreq : ℚ) * 1000).floor

/-- The slot holds a measurement, and that is too old. -/
def expired (maxDuration now : Int) (slot : Measurement) : Bool :=
  slot.duration ≠ 0 ∧ slot.begin + maxDuration < now

/-- The index of the next slot. -/
def advance (index : Nat) : Nat := if index + 1 = timerSerialSize then 0 else index + 1

/-- One turn of the loop: it moves to the next slot and takes an expired one off the totals. -/
def turn (now : Int) (window : MeasurementWindow) : MeasurementWindow ⊕ Option MeasurementWindow :=
  let index := advance window.index
  match window.serial[index]? with
  | none => .inr none
  | some slot =>
    if expired window.maxDuration now slot then
      .inl { window with
        index := index
        duration := window.duration - slot.duration
        sum := window.sum - slot.count }
    else .inr (some { window with index := index })

/-- What comes before the loop. -/
def record (window : MeasurementWindow) (latest : Measurement) : Option MeasurementWindow := do
  let slot ← window.serial[window.index]?
  return { window with
    duration := window.duration - slot.duration + latest.duration
    sum := window.sum - slot.count + latest.count
    serial := window.serial.setIfInBounds window.index latest }

/-- What comes after the loop. -/
def rate (cpuFreq : ℚ≥0) (window : MeasurementWindow) : Int :=
  let millifrq := window.duration.tdiv 1000000
  if millifrq ≠ 0 then ((window.sum % 2 ^ 32 : Int) * (cpuFreq : ℚ) / millifrq).floor
  else window.count

def calculateRate (cpuFreq : ℚ≥0) (turns : Nat) (window : MeasurementWindow) (now : Int)
    (latest : Measurement) : Option (MeasurementWindow × Int) := do
  let window ← window.record latest
  let window ← (loop (turn now) turns window).join
  let window := { window with count := window.rate cpuFreq }
  return (window, window.count)

end MeasurementWindow

/-! ### The loop -/

namespace MeasurementWindow

theorem start_maxDuration (cpuFreq : ℚ≥0) (timeSlice : Nat) :
    0 ≤ (start cpuFreq timeSlice).maxDuration := by
  have nonneg : (0 : ℚ) ≤ (timerSerialSize * timeSlice % 2 ^ 32 : Nat) * (cpuFreq : ℚ) * 1000 :=
    mul_nonneg (mul_nonneg Rat.natCast_nonneg cpuFreq.2) (by decide)
  exact Rat.le_floor_iff.mpr nonneg

/-- The slots behind the index in the order of the loop, up to the one in front of it. -/
def behind (index : Nat) : List Nat :=
  (List.range' 1 (timerSerialSize - 1)).map (place timerSerialSize index)

/-- The slot holds an expired measurement. -/
def expiredAt (window : MeasurementWindow) (now : Int) (slot : Nat) : Bool :=
  window.serial[slot]?.any (expired window.maxDuration now)

/-- The expired slots behind the index, up to the first that is not expired. -/
def passed (window : MeasurementWindow) (now : Int) : List Nat :=
  (behind window.index).takeWhile (window.expiredAt now)

/-- An amount of the measurement in a slot. -/
def amountIn (amount : Measurement → Int) (window : MeasurementWindow) (slot : Nat) : Int :=
  window.serial[slot]?.elim 0 amount

abbrev durationIn : MeasurementWindow → Nat → Int := amountIn Measurement.duration

abbrev countIn : MeasurementWindow → Nat → Int := amountIn fun measurement => measurement.count

/-- The window after the loop has passed over these slots. -/
def pass (window : MeasurementWindow) : List Nat → MeasurementWindow
  | [] => { window with index := place timerSerialSize window.index 1 }
  | slot :: slots =>
    pass { window with
      index := slot
      duration := window.duration - window.durationIn slot
      sum := window.sum - window.countIn slot } slots

variable {window : MeasurementWindow} {now : Int}

theorem slot_of_lt (window : MeasurementWindow) {slot : Nat} (inside : slot < timerSerialSize) :
    ∃ measurement, window.serial[slot]? = some measurement :=
  ⟨window.serial[slot], Vector.getElem?_eq_getElem inside⟩

theorem advance_eq_place {index : Nat} (inside : index < timerSerialSize) :
    advance index = place timerSerialSize index 1 := by
  unfold advance place
  split_ifs <;> omega

/-- A turn that finds an expired slot. -/
theorem turn_expired (inside : window.index < timerSerialSize) {slot : Nat}
    (next : place timerSerialSize window.index 1 = slot) (old : window.expiredAt now slot = true) :
    turn now window = .inl { window with
      index := slot
      duration := window.duration - window.durationIn slot
      sum := window.sum - window.countIn slot } := by
  obtain ⟨measurement, here⟩ := slot_of_lt window (next ▸ place_lt inside (by decide))
  have moves : advance window.index = slot := (advance_eq_place inside).trans next
  rw [expiredAt, here, Option.any_some] at old
  simp only [turn, moves, here, old, if_true, amountIn, Option.elim_some]

/-- A turn that finds another slot. -/
theorem turn_fresh (inside : window.index < timerSerialSize)
    (fresh : window.expiredAt now (place timerSerialSize window.index 1) = false) :
    turn now window = .inr (some (window.pass [])) := by
  obtain ⟨measurement, here⟩ := slot_of_lt window
    (place_lt inside (by decide : 1 ≤ timerSerialSize))
  have moves := advance_eq_place inside
  rw [expiredAt, here, Option.any_some] at fresh
  simp only [turn, moves, here, fresh, Bool.false_eq_true, if_false, pass]

/-- From an offset behind a slot that is not expired, the loop passes over the expired slots and
leaves before it has gone round. -/
theorem loop_turn {written : Nat} (inside : written < timerSerialSize) (left : Nat) :
    ∀ (window : MeasurementWindow) (offset : Nat), offset + left + 1 = timerSerialSize →
      window.index = place timerSerialSize written offset →
      window.expiredAt now written = false →
      loop (turn now) (left + 1) window =
        some (some (window.pass (((List.range' (offset + 1) left).map
          (place timerSerialSize written)).takeWhile (window.expiredAt now)))) := by
  induction left with
  | zero =>
    intro window offset full here fresh
    have insideIndex : window.index < timerSerialSize := by
      rw [here]
      exact place_lt inside (by omega)
    have around : place timerSerialSize window.index 1 = written := by
      rw [here, place_one_place inside (by omega), show offset + 1 = timerSerialSize from full,
        place_size]
    exact loop_inr 0 (turn_fresh insideIndex (by rwa [around]))
  | succ left inductionHypothesis =>
    intro window offset full here fresh
    have insideIndex : window.index < timerSerialSize := by
      rw [here]
      exact place_lt inside (by omega)
    have next : place timerSerialSize window.index 1 = place timerSerialSize written (offset + 1) := by
      rw [here, place_one_place inside (by omega)]
    rw [List.range'_succ, List.map_cons]
    cases old : window.expiredAt now (place timerSerialSize written (offset + 1)) with
    | true =>
      rw [loop_inl _ (turn_expired insideIndex next old), List.takeWhile_cons_of_pos old]
      exact inductionHypothesis _ (offset + 1) (by omega) rfl fresh
    | false =>
      rw [List.takeWhile_cons_of_neg (by rw [old]; decide)]
      exact loop_inr _ (turn_fresh insideIndex (by rwa [next]))

/-! ### A call -/

/-- The window when the measurement is in its slot. -/
def recorded (window : MeasurementWindow) (latest : Measurement) : MeasurementWindow :=
  { window with
    duration := window.duration - window.durationIn window.index + latest.duration
    sum := window.sum - window.countIn window.index + latest.count
    serial := window.serial.setIfInBounds window.index latest }

variable {latest : Measurement}

theorem record_eq (inside : window.index < timerSerialSize) :
    window.record latest = some (window.recorded latest) := by
  obtain ⟨measurement, here⟩ := slot_of_lt window inside
  simp only [record, recorded, amountIn, here, Option.elim_some]
  rfl

theorem recorded_self (inside : window.index < timerSerialSize) :
    (window.recorded latest).serial[window.index]? = some latest :=
  Vector.getElem?_setIfInBounds_self_of_lt inside

theorem recorded_of_ne {slot : Nat} (apart : slot ≠ window.index) :
    (window.recorded latest).serial[slot]? = window.serial[slot]? :=
  Vector.getElem?_setIfInBounds_ne (Ne.symm apart)

theorem mem_behind {index slot : Nat} (inside : index < timerSerialSize)
    (member : slot ∈ behind index) : slot < timerSerialSize ∧ slot ≠ index := by
  obtain ⟨offset, between, rfl⟩ := List.mem_map.mp member
  rw [List.mem_range'_1] at between
  have bound : offset < timerSerialSize := by omega
  refine ⟨place_lt inside (Nat.le_of_lt bound), fun same => ?_⟩
  exact place_ne bound (Nat.lt_of_le_of_lt (Nat.zero_le _) bound) (by omega)
    (same.trans (place_zero inside).symm)

theorem behind_nodup (index : Nat) : (behind index).Nodup := by
  refine List.Nodup.map_on (fun offset member other memberOther same => ?_) List.nodup_range'
  rw [List.mem_range'_1] at member memberOther
  by_contra apart
  exact place_ne (by omega) (by omega) apart same

theorem amountIn_recorded {amount : Measurement → Int} {slot : Nat} (apart : slot ≠ window.index) :
    amountIn amount (window.recorded latest) slot = amountIn amount window slot :=
  congrArg (Option.elim · 0 amount) (recorded_of_ne apart)

/-- A `takeWhile` depends on what holds of the elements only. -/
theorem takeWhile_congr {Element : Type} {first second : Element → Bool} {elements : List Element}
    (same : ∀ element ∈ elements, first element = second element) :
    elements.takeWhile first = elements.takeWhile second := by
  induction elements with
  | nil => rfl
  | cons element elements inductionHypothesis =>
    rw [List.takeWhile_cons, List.takeWhile_cons, same element List.mem_cons_self,
      inductionHypothesis fun other member => same other (List.mem_cons_of_mem _ member)]

/-- The new measurement is not one of those that the loop passes over. -/
theorem passed_recorded (inside : window.index < timerSerialSize) :
    (window.recorded latest).passed now = window.passed now := by
  refine takeWhile_congr fun slot member => ?_
  unfold expiredAt
  rw [recorded_of_ne (mem_behind inside member).2]
  rfl

theorem fresh_of_now (nonneg : 0 ≤ window.maxDuration) (same : latest.begin = now) :
    expired window.maxDuration now latest = false :=
  decide_eq_false fun ⟨_, old⟩ => by omega

/-- The measurement that was just written stops the loop. -/
theorem loop_recorded (inside : window.index < timerSerialSize) (nonneg : 0 ≤ window.maxDuration)
    (same : latest.begin = now) :
    loop (turn now) timerSerialSize (window.recorded latest) =
      some (some ((window.recorded latest).pass (window.passed now))) := by
  have written : (window.recorded latest).expiredAt now window.index = false := by
    rw [expiredAt, recorded_self inside, Option.any_some]
    exact fresh_of_now nonneg same
  have leaves := loop_turn inside (timerSerialSize - 1) (window.recorded latest) 0 rfl
    (place_zero inside).symm written
  rw [← passed_recorded inside]
  exact leaves

theorem calculateRate_eq (cpuFreq : ℚ≥0) (inside : window.index < timerSerialSize)
    (nonneg : 0 ≤ window.maxDuration) (same : latest.begin = now) :
    window.calculateRate cpuFreq timerSerialSize now latest =
      let after := (window.recorded latest).pass (window.passed now)
      some ({ after with count := after.rate cpuFreq }, after.rate cpuFreq) := by
  unfold calculateRate
  rw [record_eq inside]
  show (loop (turn now) timerSerialSize (window.recorded latest)).join.bind _ = _
  rw [loop_recorded inside nonneg same]
  rfl

/-- The loop leaves at a slot that is not expired. -/
theorem fresh_after_loop (inside : window.index < timerSerialSize) (nonneg : 0 ≤ window.maxDuration)
    (same : latest.begin = now) :
    (window.recorded latest).expiredAt now
      ((window.recorded latest).pass (window.passed now)).index = false := by
  refine loop_partial (turn now)
    (fun here => here.serial = (window.recorded latest).serial ∧ here.maxDuration = window.maxDuration)
    (fun result => ∀ after ∈ result, (window.recorded latest).expiredAt now after.index = false)
    ?_ ?_ _ _ ⟨rfl, rfl⟩ (loop_recorded inside nonneg same) _ rfl
  · rintro here next kept goesOn
    simp only [turn] at goesOn
    split at goesOn
    · cases goesOn
    · split_ifs at goesOn
      cases goesOn
      exact kept
  · rintro here result ⟨serial, maxDuration⟩ leaves after rfl
    simp only [turn] at leaves
    split at leaves
    · cases leaves
    · rename_i slot found
      split_ifs at leaves with old
      cases leaves
      rw [serial] at found
      rw [expiredAt]
      show ((window.recorded latest).serial[_]?.any (expired window.maxDuration now)) = false
      rw [found, ← maxDuration]
      exact Bool.eq_false_iff.mpr old

theorem pass_maxDuration {slots : List Nat} : (window.pass slots).maxDuration = window.maxDuration := by
  induction slots generalizing window with
  | nil => rfl
  | cons slot slots inductionHypothesis => exact inductionHypothesis

theorem pass_serial {slots : List Nat} : (window.pass slots).serial = window.serial := by
  induction slots generalizing window with
  | nil => rfl
  | cons slot slots inductionHypothesis => exact inductionHypothesis

theorem pass_duration {slots : List Nat} :
    (window.pass slots).duration = window.duration - (slots.map window.durationIn).sum := by
  induction slots generalizing window with
  | nil => exact (Int.sub_zero _).symm
  | cons slot slots inductionHypothesis =>
    rw [List.map_cons, List.sum_cons, ← Int.sub_sub]
    exact inductionHypothesis

theorem pass_sum {slots : List Nat} :
    (window.pass slots).sum = window.sum - (slots.map window.countIn).sum := by
  induction slots generalizing window with
  | nil => exact (Int.sub_zero _).symm
  | cons slot slots inductionHypothesis =>
    rw [List.map_cons, List.sum_cons, ← Int.sub_sub]
    exact inductionHypothesis

theorem pass_index_lt {slots : List Nat} (insides : ∀ slot ∈ slots, slot < timerSerialSize)
    (inside : window.index < timerSerialSize) : (window.pass slots).index < timerSerialSize := by
  induction slots generalizing window with
  | nil => exact place_lt inside (by decide)
  | cons slot slots inductionHypothesis =>
    exact inductionHypothesis (fun other member => insides other (List.mem_cons_of_mem _ member))
      (insides slot List.mem_cons_self)

theorem mem_passed {slot : Nat} (inside : window.index < timerSerialSize)
    (member : slot ∈ window.passed now) :
    slot < timerSerialSize ∧ slot ≠ window.index ∧ window.expiredAt now slot = true :=
  ⟨(mem_behind inside ((List.takeWhile_sublist _).subset member)).1,
    (mem_behind inside ((List.takeWhile_sublist _).subset member)).2, List.mem_takeWhile_imp member⟩

theorem recorded_pass_index_lt (inside : window.index < timerSerialSize) :
    ((window.recorded latest).pass (window.passed now)).index < timerSerialSize :=
  pass_index_lt (fun _ member => (mem_passed inside member).1) inside

/-- Whatever the ring holds, the loop is left within one turn of the ring. -/
theorem calculateRate_returns (cpuFreq : ℚ≥0) (window : MeasurementWindow) (now : Int)
    (latest : Measurement) (inside : window.index < timerSerialSize)
    (nonneg : 0 ≤ window.maxDuration) (same : latest.begin = now) :
    ∃ after rate, window.calculateRate cpuFreq timerSerialSize now latest = some (after, rate) ∧
      after.index < timerSerialSize :=
  ⟨_, _, calculateRate_eq cpuFreq inside nonneg same, recorded_pass_index_lt inside⟩

/-- Every other measurement of a ring is expired, and the loop goes all the way round. -/
theorem calculateRate_returns_example :
    ∃ after rate, calculateRate 1 timerSerialSize
        { serial := Vector.replicate timerSerialSize ⟨0, 1, 1⟩, count := 0, sum := 64,
          duration := 64, index := 5, maxDuration := 10 } 100 ⟨100, 20, 3⟩ = some (after, rate) ∧
      after.index < timerSerialSize :=
  calculateRate_returns 1 _ 100 ⟨100, 20, 3⟩ (by decide) (by decide) rfl

end MeasurementWindow

/-! ### Flow control -/

/-- `AdaptiveFlowControl`; the lock is held inside of a call only. -/
structure AdaptiveFlowControl where
  avgRate : Nat
  burstCount : Nat
  cumulative : Nat
  startCount : Int
  milliCount : Int
  window : MeasurementWindow

namespace AdaptiveFlowControl

open MeasurementWindow

def start (cpuFreq : ℚ≥0) (avgRate burstCount timeSlice : Nat) (now : Int) :
    AdaptiveFlowControl where
  avgRate := avgRate
  burstCount := burstCount
  cumulative := 0
  startCount := now
  milliCount := ((cpuFreq : ℚ) * timeSlice).floor * 1000
  window := .start cpuFreq timeSlice

def addTraffic (flow : AdaptiveFlowControl) (additional : Nat) : AdaptiveFlowControl :=
  { flow with cumulative := (flow.cumulative + additional) % 2 ^ 32 }

/-- The call at a reading of the clock, and what it returns. -/
def isOkToSend (cpuFreq : ℚ≥0) (flow : AdaptiveFlowControl) (now : Int) :
    Option (AdaptiveFlowControl × Int) := do
  let elapsed := now - flow.startCount
  let (flow, count) ←
    if flow.milliCount < elapsed ∨ flow.burstCount < flow.cumulative then do
      let (window, count) ←
        flow.window.calculateRate cpuFreq timerSerialSize now ⟨now, elapsed, flow.cumulative⟩
      pure ({ flow with window := window, startCount := now, cumulative := 0 }, count)
    else pure (flow, flow.window.count)
  return (flow, if count < flow.avgRate then (flow.burstCount - flow.cumulative : Int) % 2 ^ 32 else 0)

inductive FlowCall where
  | addTraffic (additional : Nat)
  | isOkToSend (now : Int)
deriving DecidableEq, Repr

def step (cpuFreq : ℚ≥0) (flow : AdaptiveFlowControl) :
    FlowCall → Option (AdaptiveFlowControl × Option Int)
  | .addTraffic additional => some (flow.addTraffic additional, none)
  | .isOkToSend now => (flow.isOkToSend cpuFreq now).map fun (flow, allowed) => (flow, some allowed)

/-- The index of the window is inside of its ring, and a measurement is not too old when it is
taken. -/
def InRange (flow : AdaptiveFlowControl) : Prop :=
  flow.window.index < timerSerialSize ∧ 0 ≤ flow.window.maxDuration

theorem inRange_start (cpuFreq : ℚ≥0) (avgRate burstCount timeSlice : Nat) (now : Int) :
    (start cpuFreq avgRate burstCount timeSlice now).InRange :=
  ⟨Nat.zero_lt_succ 63, start_maxDuration cpuFreq timeSlice⟩

/-- A call that may send returns. -/
theorem isOkToSend_returns (cpuFreq : ℚ≥0) {flow : AdaptiveFlowControl} (inRange : flow.InRange)
    (now : Int) :
    ∃ after allowed, flow.isOkToSend cpuFreq now = some (after, allowed) ∧ after.InRange := by
  obtain ⟨inside, nonneg⟩ := inRange
  unfold isOkToSend
  by_cases due : flow.milliCount < now - flow.startCount ∨ flow.burstCount < flow.cumulative
  · have latest : (⟨now, now - flow.startCount, flow.cumulative⟩ : Measurement).begin = now := rfl
    rw [if_pos due, calculateRate_eq cpuFreq inside nonneg latest]
    refine ⟨_, _, rfl, recorded_pass_index_lt inside, ?_⟩
    show 0 ≤ (pass _ _).maxDuration
    rw [pass_maxDuration]
    exact nonneg
  · rw [if_neg due]
    exact ⟨_, _, rfl, inside, nonneg⟩

theorem step_inRange (cpuFreq : ℚ≥0) {flow : AdaptiveFlowControl} (inRange : flow.InRange)
    (call : FlowCall) :
    ∃ next output, step cpuFreq flow call = some (next, output) ∧ next.InRange := by
  cases call with
  | addTraffic additional => exact ⟨_, _, rfl, inRange⟩
  | isOkToSend now =>
    obtain ⟨after, allowed, returns, again⟩ := isOkToSend_returns cpuFreq inRange now
    exact ⟨after, some allowed, by rw [step, returns]; rfl, again⟩

/-- In every sequence of calls, every call returns. -/
theorem run_inRange (cpuFreq : ℚ≥0) (avgRate burstCount timeSlice : Nat) (now : Int)
    (calls : List FlowCall) :
    Throughout (step cpuFreq) InRange (start cpuFreq avgRate burstCount timeSlice now) calls :=
  throughout_of_keeps (fun _ inRange => inRange)
    (fun _ call inRange _ => step_inRange cpuFreq inRange call) calls _
    (inRange_start cpuFreq avgRate burstCount timeSlice now)
    (eachStep_of_forall (fun _ _ _ => trivial) _)

end AdaptiveFlowControl

end ObLib
