/-
This file proves when the two totals of a measurement window are those of the
measurements that still count.

Beside the window stands the account of it: a measurement counts from the call that
stores it to the call that overwrites it or passes over it as expired. The loop leaves
an expired measurement in its slot, so a later turn of the ring takes it off the totals
once more; the totals are right for as long as that does not happen.
-/

import OrderBookSketch.FlowControl
import OrderBookSketch.Library.Total

namespace ObLib

open Rings Runs Totals MeasurementWindow

/-- A window, the measurements that count, and the time of the last call. -/
structure WindowAccount where
  window : MeasurementWindow
  live : Nat → Option Measurement
  last : Option Int

structure RateCall where
  now : Int
  latest : Measurement
deriving DecidableEq, Repr

namespace WindowAccount

def start (cpuFreq : ℚ≥0) (timeSlice : Nat) : WindowAccount where
  window := .start cpuFreq timeSlice
  live := fun _ => none
  last := none

/-- A call: the new measurement counts, and those that the loop passes over do not any more. -/
def step (cpuFreq : ℚ≥0) (account : WindowAccount) (call : RateCall) :
    Option (WindowAccount × Int) :=
  (account.window.calculateRate cpuFreq timerSerialSize call.now call.latest).map
    fun (after, rate) =>
      ({ window := after
         live := clear (Function.update account.live account.window.index (some call.latest))
           (account.window.passed call.now)
         last := some call.now }, rate)

def slots : Finset Nat := Finset.range timerSerialSize

theorem mem_slots {slot : Nat} : slot ∈ slots ↔ slot < timerSerialSize := Finset.mem_range

/-- The totals of the window are those of the measurements that count, and not negative. -/
structure Balanced (account : WindowAccount) : Prop where
  sum : account.window.sum = total slots (fun measurement => measurement.count) account.live
  duration : account.window.duration = total slots Measurement.duration account.live
  sum_nonneg : 0 ≤ account.window.sum
  duration_nonneg : 0 ≤ account.window.duration

/-- Every measurement that the loop passes over still counts. -/
def PassesLive (account : WindowAccount) (call : RateCall) : Prop :=
  ∀ slot ∈ account.window.passed call.now, account.live slot ≠ none

instance : DecidableRel PassesLive := fun account call =>
  inferInstanceAs (Decidable (∀ slot ∈ account.window.passed call.now, account.live slot ≠ none))

/-- A call as flow control makes it, not before the last one. -/
def Timely (account : WindowAccount) (call : RateCall) : Prop :=
  (∀ last ∈ account.last, last ≤ call.now) ∧ call.latest.begin = call.now ∧ 0 < call.latest.duration

/-- What is in the slots: measurements that count, and others that are empty or expired. -/
structure Sound (account : WindowAccount) : Prop where
  inside : account.window.index < timerSerialSize
  nonneg : 0 ≤ account.window.maxDuration
  stored : ∀ slot measurement, account.live slot = some measurement →
    account.window.serial[slot]? = some measurement ∧ 0 < measurement.duration
  spent : ∀ slot measurement, account.live slot = none →
    account.window.serial[slot]? = some measurement →
    (measurement.duration = 0 ∧ measurement.count = 0) ∨
      (0 < measurement.duration ∧
        ∃ last ∈ account.last, measurement.begin + account.window.maxDuration < last)
  next : ∀ measurement, account.live account.window.index = none →
    account.window.serial[account.window.index]? = some measurement →
    measurement.duration = 0 ∧ measurement.count = 0

variable {account : WindowAccount} {call : RateCall}

/-- The account after a call. -/
def after (cpuFreq : ℚ≥0) (account : WindowAccount) (call : RateCall) : WindowAccount :=
  let window := (account.window.recorded call.latest).pass (account.window.passed call.now)
  { window := { window with count := window.rate cpuFreq }
    live := clear (Function.update account.live account.window.index (some call.latest))
      (account.window.passed call.now)
    last := some call.now }

theorem step_eq (cpuFreq : ℚ≥0) (sound : account.Sound) (timely : account.Timely call) :
    ∃ rate, account.step cpuFreq call = some (account.after cpuFreq call, rate) := by
  unfold step
  rw [calculateRate_eq cpuFreq sound.inside sound.nonneg timely.2.1]
  exact ⟨_, rfl⟩

/-! ### What is in the slots -/

theorem live_after_of_notMem {cpuFreq : ℚ≥0} {slot : Nat}
    (notMem : slot ∉ account.window.passed call.now) :
    (account.after cpuFreq call).live slot =
      Function.update account.live account.window.index (some call.latest) slot :=
  clear_of_notMem notMem

theorem serial_after {cpuFreq : ℚ≥0} :
    (account.after cpuFreq call).window.serial = (account.window.recorded call.latest).serial :=
  pass_serial

/-- A slot that the loop passes over holds an expired measurement. -/
theorem expired_of_passed (sound : account.Sound) {slot : Nat} {measurement : Measurement}
    (member : slot ∈ account.window.passed call.now)
    (here : account.window.serial[slot]? = some measurement) :
    0 < measurement.duration ∧ measurement.begin + account.window.maxDuration < call.now := by
  have old := (mem_passed sound.inside member).2.2
  rw [expiredAt, here, Option.any_some, expired, decide_eq_true_iff] at old
  refine ⟨?_, old.2⟩
  cases live : account.live slot with
  | some other =>
    obtain ⟨stored, positive⟩ := sound.stored slot other live
    rw [here] at stored
    exact Option.some.inj stored ▸ positive
  | none =>
    rcases sound.spent slot measurement live here with ⟨zero, _⟩ | ⟨positive, _⟩
    · exact absurd zero old.1
    · exact positive

/-- What counts after a call is in its slot. -/
theorem stored_after {cpuFreq : ℚ≥0} (sound : account.Sound) (positive : 0 < call.latest.duration)
    {slot : Nat} {measurement : Measurement}
    (live : (account.after cpuFreq call).live slot = some measurement) :
    (account.after cpuFreq call).window.serial[slot]? = some measurement ∧
      0 < measurement.duration := by
  rw [serial_after]
  by_cases member : slot ∈ account.window.passed call.now
  · have gone : (account.after cpuFreq call).live slot = none := clear_of_mem member
    rw [gone] at live
    cases live
  · rw [live_after_of_notMem member] at live
    by_cases written : slot = account.window.index
    · rw [written, Function.update_self] at live
      cases live
      rw [written]
      exact ⟨recorded_self sound.inside, positive⟩
    · rw [Function.update_of_ne written] at live
      rw [recorded_of_ne written]
      exact sound.stored slot measurement live

/-- What is in a slot after a call without counting is empty or expired. -/
theorem spent_after {cpuFreq : ℚ≥0} (sound : account.Sound)
    (later : ∀ last ∈ account.last, last ≤ call.now) {slot : Nat} {measurement : Measurement}
    (gone : (account.after cpuFreq call).live slot = none)
    (here : (account.after cpuFreq call).window.serial[slot]? = some measurement) :
    (measurement.duration = 0 ∧ measurement.count = 0) ∨
      (0 < measurement.duration ∧
        measurement.begin + account.window.maxDuration < call.now) := by
  rw [serial_after] at here
  by_cases member : slot ∈ account.window.passed call.now
  · rw [recorded_of_ne (mem_passed sound.inside member).2.1] at here
    exact .inr (expired_of_passed sound member here)
  · rw [live_after_of_notMem member] at gone
    by_cases written : slot = account.window.index
    · rw [written, Function.update_self] at gone
      cases gone
    · rw [Function.update_of_ne written] at gone
      rw [recorded_of_ne written] at here
      rcases sound.spent slot measurement gone here with zero | ⟨some, last, isLast, old⟩
      · exact .inl zero
      · exact .inr ⟨some, Int.lt_of_lt_of_le old (later last isLast)⟩

theorem sound_after (cpuFreq : ℚ≥0) (sound : account.Sound) (timely : account.Timely call) :
    (account.after cpuFreq call).Sound := by
  obtain ⟨later, same, positive⟩ := timely
  have limit : (account.after cpuFreq call).window.maxDuration = account.window.maxDuration :=
    pass_maxDuration
  exact {
    inside := recorded_pass_index_lt sound.inside
    nonneg := limit ▸ sound.nonneg
    stored := fun slot measurement live => stored_after sound positive live
    spent := by
      intro slot measurement gone here
      rw [limit]
      rcases spent_after sound later gone here with zero | ⟨some, old⟩
      · exact .inl zero
      · exact .inr ⟨some, call.now, rfl, old⟩
    next := by
      intro measurement gone here
      have fresh : (account.window.recorded call.latest).expiredAt call.now
          (account.after cpuFreq call).window.index = false :=
        fresh_after_loop sound.inside sound.nonneg same
      rcases spent_after sound later gone here with zero | ⟨some, old⟩
      · exact zero
      · rw [serial_after] at here
        rw [expiredAt, here] at fresh
        exact absurd ⟨Int.ne_of_gt some, old⟩ (of_decide_eq_false fresh) }

/-! ### The totals -/

theorem total_after (cpuFreq : ℚ≥0) (sound : account.Sound) (call : RateCall)
    (amount : Measurement → Int) :
    total slots amount (account.after cpuFreq call).live =
      total slots amount account.live - amountAt amount account.live account.window.index +
        amount call.latest -
        ((account.window.passed call.now).map (amountAt amount account.live)).sum := by
  have distinct : (account.window.passed call.now).Nodup :=
    (behind_nodup _).sublist (List.takeWhile_sublist _)
  have others : (account.window.passed call.now).map (amountAt amount
        (Function.update account.live account.window.index (some call.latest))) =
      (account.window.passed call.now).map (amountAt amount account.live) := by
    refine List.map_congr_left fun slot member => ?_
    rw [amountAt, Function.update_of_ne (mem_passed sound.inside member).2.1, amountAt]
  show total slots amount (clear _ _) = _
  rw [total_clear (fun slot member => mem_slots.mpr (mem_passed sound.inside member).1) distinct,
    others, total_update (mem_slots.mpr sound.inside), Option.elim_some]

/-- The slot that is written holds a measurement that counts, or nothing. -/
theorem amountIn_index (sound : account.Sound) {amount : Measurement → Int}
    (zero : ∀ measurement, measurement.duration = 0 → measurement.count = 0 → amount measurement = 0) :
    amountIn amount account.window account.window.index =
      amountAt amount account.live account.window.index := by
  obtain ⟨measurement, here⟩ := slot_of_lt account.window sound.inside
  rw [amountIn, here, Option.elim_some]
  cases live : account.live account.window.index with
  | none =>
    obtain ⟨noDuration, noCount⟩ := sound.next measurement live here
    rw [amountAt_none live, zero measurement noDuration noCount]
  | some other =>
    have stored := (sound.stored _ other live).1
    rw [here] at stored
    rw [amountAt_some live, Option.some.inj stored]

/-- The loop takes off what it passes over, at the amounts in the slots. -/
theorem sum_amountIn_recorded (sound : account.Sound) (amount : Measurement → Int) :
    ((account.window.passed call.now).map
        (amountIn amount (account.window.recorded call.latest))).sum =
      ((account.window.passed call.now).map (amountIn amount account.window)).sum :=
  congrArg List.sum (List.map_congr_left fun _ member =>
    amountIn_recorded (mem_passed sound.inside member).2.1)

/-- Where every measurement that is passed over counts, what is taken off is what counted. -/
theorem sum_amountIn_of_passesLive (sound : account.Sound) (passes : account.PassesLive call)
    (amount : Measurement → Int) :
    ((account.window.passed call.now).map (amountIn amount account.window)).sum =
      ((account.window.passed call.now).map (amountAt amount account.live)).sum := by
  refine congrArg List.sum (List.map_congr_left fun slot member => ?_)
  obtain ⟨measurement, live⟩ := Option.ne_none_iff_exists'.mp (passes slot member)
  rw [amountIn, (sound.stored slot measurement live).1, Option.elim_some, amountAt_some live]

theorem sum_amountIn_duration_iff (sound : account.Sound) :
    ((account.window.passed call.now).map account.window.durationIn).sum =
        ((account.window.passed call.now).map (amountAt Measurement.duration account.live)).sum ↔
      account.PassesLive call := by
  refine sum_charged_eq_iff (fun slot member => ?_) (fun slot member measurement live => ?_)
  · obtain ⟨measurement, here⟩ := slot_of_lt account.window (mem_passed sound.inside member).1
    show 0 < amountIn Measurement.duration account.window slot
    rw [amountIn, here, Option.elim_some]
    exact (expired_of_passed sound member here).1
  · show amountIn Measurement.duration account.window slot = _
    rw [amountIn, (sound.stored slot measurement live).1, Option.elim_some]

/-- A call keeps the balance exactly when every measurement that it passes over counts. -/
theorem balanced_after_iff (cpuFreq : ℚ≥0) (sound : account.Sound) (timely : account.Timely call)
    (balanced : account.Balanced) :
    (account.after cpuFreq call).Balanced ↔ account.PassesLive call := by
  have durations : (account.after cpuFreq call).window.duration =
      account.window.duration - amountAt Measurement.duration account.live account.window.index +
        call.latest.duration -
        ((account.window.passed call.now).map account.window.durationIn).sum := by
    rw [← amountIn_index sound fun _ noDuration _ => noDuration, ← sum_amountIn_recorded sound]
    exact pass_duration
  have counts : (account.after cpuFreq call).window.sum =
      account.window.sum - amountAt (fun measurement => (measurement.count : Int)) account.live
          account.window.index + call.latest.count -
        ((account.window.passed call.now).map account.window.countIn).sum := by
    rw [← amountIn_index sound fun _ _ noCount => congrArg Nat.cast noCount,
      ← sum_amountIn_recorded sound]
    exact pass_sum
  have totalDuration := total_after cpuFreq sound call Measurement.duration
  have totalCount := total_after cpuFreq sound call fun measurement => measurement.count
  constructor
  · intro after
    have same := after.duration
    rw [← sum_amountIn_duration_iff sound]
    rw [durations, totalDuration, balanced.duration] at same
    omega
  · intro passes
    have sum : (account.after cpuFreq call).window.sum =
        total slots (fun measurement => measurement.count) (account.after cpuFreq call).live := by
      rw [counts, totalCount, balanced.sum, sum_amountIn_of_passesLive sound passes]
    have duration : (account.after cpuFreq call).window.duration =
        total slots Measurement.duration (account.after cpuFreq call).live := by
      rw [durations, totalDuration, balanced.duration, sum_amountIn_of_passesLive sound passes]
    exact {
      sum := sum
      duration := duration
      sum_nonneg := by
        rw [sum]
        exact total_nonneg fun _ measurement _ => Int.natCast_nonneg measurement.count
      duration_nonneg := by
        rw [duration]
        exact total_nonneg fun slot measurement live =>
          Int.le_of_lt ((sound_after cpuFreq sound timely).stored slot measurement live).2 }

/-! ### Runs -/

theorem sound_start (cpuFreq : ℚ≥0) (timeSlice : Nat) : (start cpuFreq timeSlice).Sound where
  inside := Nat.zero_lt_succ 63
  nonneg := start_maxDuration cpuFreq timeSlice
  stored := nofun
  spent := by
    intro slot measurement _ here
    obtain ⟨inside, stored⟩ := Vector.getElem?_eq_some_iff.mp here
    have empty : (⟨0, 0, 0⟩ : Measurement) = measurement :=
      (Vector.getElem_replicate inside).symm.trans stored
    exact .inl (empty ▸ ⟨rfl, rfl⟩)
  next := by
    rintro measurement - here
    cases here
    exact ⟨rfl, rfl⟩

theorem balanced_start (cpuFreq : ℚ≥0) (timeSlice : Nat) : (start cpuFreq timeSlice).Balanced where
  sum := (Finset.sum_eq_zero fun _ _ => rfl).symm
  duration := (Finset.sum_eq_zero fun _ _ => rfl).symm
  sum_nonneg := Int.le_refl 0
  duration_nonneg := Int.le_refl 0

/-- Calls in the order of their times are each made after the last one. -/
theorem eachStep_timely (cpuFreq : ℚ≥0) {calls : List RateCall}
    (ordered : calls.Pairwise fun call later => call.now ≤ later.now)
    (proper : ∀ call ∈ calls, call.latest.begin = call.now ∧ 0 < call.latest.duration)
    (account : WindowAccount) (before : ∀ last ∈ account.last, ∀ call ∈ calls, last ≤ call.now) :
    EachStep (step cpuFreq) Timely account calls := by
  induction calls generalizing account with
  | nil => trivial
  | cons call calls inductionHypothesis =>
    obtain ⟨first, rest⟩ := List.pairwise_cons.mp ordered
    refine ⟨⟨fun last isLast => before last isLast call List.mem_cons_self,
      proper call List.mem_cons_self⟩, ?_⟩
    cases returns : step cpuFreq account call with
    | none => trivial
    | some result =>
      obtain ⟨⟨after, rate⟩, -, rfl⟩ := Option.map_eq_some_iff.mp returns
      refine inductionHypothesis rest (fun other member => proper other (List.mem_cons_of_mem _ member))
        _ ?_
      rintro last ⟨⟩ other member
      exact first other member

/-- After every call the totals are those of the measurements that count, for as long as no call
passes over a measurement that does not count any more. -/
theorem balanced_iff_passesLive (cpuFreq : ℚ≥0) (timeSlice : Nat) (calls : List RateCall)
    (ordered : calls.Pairwise fun call later => call.now ≤ later.now)
    (proper : ∀ call ∈ calls, call.latest.begin = call.now ∧ 0 < call.latest.duration) :
    Throughout (step cpuFreq) Balanced (start cpuFreq timeSlice) calls ↔
      EachStep (step cpuFreq) PassesLive (start cpuFreq timeSlice) calls := by
  refine throughout_iff (fun account call sound balanced timely => ?_) calls _
    (sound_start cpuFreq timeSlice) (balanced_start cpuFreq timeSlice)
    (eachStep_timely cpuFreq ordered proper _ nofun)
  obtain ⟨rate, returns⟩ := step_eq cpuFreq sound timely
  exact ⟨_, rate, returns, balanced_after_iff cpuFreq sound timely balanced,
    fun _ => sound_after cpuFreq sound timely⟩

theorem balanced_iff_passesLive_example :
    Throughout (step 1) Balanced (start 1 1)
      [⟨1, 1, 1, 4⟩, ⟨3, 3, 2, 1⟩, ⟨90000, 90000, 89997, 2⟩] :=
  (balanced_iff_passesLive 1 1 _ (by decide) (by decide)).mpr (by decide +kernel)

/-- One call a tick until the ring is full, then two calls that come a pause later each. -/
def fullRingThenPauses : List RateCall :=
  (List.range timerSerialSize).map (fun tick => ⟨tick, tick, 1, 1⟩) ++
    [⟨100000, 100000, 99936, 1⟩, ⟨200000, 200000, 100000, 1⟩]

/-- The first pause takes the 63 other measurements off the totals, and the second takes them off
again. -/
theorem expired_measurements_are_taken_off_twice :
    fullRingThenPauses.Pairwise (fun call later => call.now ≤ later.now) ∧
      (∀ call ∈ fullRingThenPauses, call.latest.begin = call.now ∧ 0 < call.latest.duration) ∧
      ¬ Throughout (step 1) Balanced (start 1 1) fullRingThenPauses := by
  refine ⟨by decide +kernel, by decide +kernel, fun throughout => ?_⟩
  have sums : (run (step 1) (start 1 1) fullRingThenPauses).map (fun result => result.1.window.sum) =
      some (-62) := by
    decide +kernel
  obtain ⟨⟨last, rates⟩, returns, negative⟩ := Option.map_eq_some_iff.mp sums
  have nonneg := (throughout.last returns).sum_nonneg
  rw [show last.window.sum = -62 from negative] at nonneg
  exact absurd nonneg (by decide)

end WindowAccount

end ObLib
