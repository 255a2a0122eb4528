/-
This file models `LatencyChecker::getPercentile`, in exact arithmetic, and proves when
what it returns is the percentile by nearest rank.

The rank of a percentile is its share of the number of samples, rounded up, and counts
from one; the code takes it for an index, which counts from zero. So it returns the next
value in order, which lies behind the list when the rank is the number of samples, and
is the percentile only when the same value has both ranks.
-/

import OrderBookSketch.Library.OrderStatistic
import Mathlib.Algebra.Order.Floor.Semiring
import Mathlib.Data.Rat.Floor

namespace ObLib

open OrderStatistics

namespace LatencyChecker

def isLatencyAvailable (latencies : List Nat) : Bool := decide (latencies.length > 0)

/-- `std::ceil((float)(per/100) * _latencies.size())`. -/
def rank (latencies : List Nat) (per : ℚ) : Nat := ⌈per / 100 * latencies.length⌉₊

/-- The latencies as the call leaves them, and what it returns; `none` is a read outside of them. -/
def getPercentile (latencies : List Nat) (per : ℚ) : List Nat × Option Nat :=
  if !isLatencyAvailable latencies then (latencies, some 0)
  else (latencies.mergeSort (· ≤ ·), inOrder latencies (rank latencies per))

/-- The value is the percentile by nearest rank. -/
structure NearestRank (latencies : List Nat) (per : ℚ) (value : Nat) : Prop where
  recorded : value ∈ latencies
  enough : per / 100 * latencies.length ≤ upTo latencies value
  fewer : (∃ other ∈ latencies, other < value) →
    (below latencies value : ℚ) < per / 100 * latencies.length

/-- The call returns the percentile. -/
def ReturnsPercentile (latencies : List Nat) (per : ℚ) : Prop :=
  ∃ value, (getPercentile latencies per).2 = some value ∧ NearestRank latencies per value

variable {latencies : List Nat} {per : ℚ}

theorem getPercentile_of_recorded (recorded : latencies ≠ []) :
    getPercentile latencies per =
      (latencies.mergeSort (· ≤ ·), inOrder latencies (rank latencies per)) := by
  have available : isLatencyAvailable latencies = true :=
    decide_eq_true (List.length_pos_iff.mpr recorded)
  unfold getPercentile
  rw [available]
  rfl

theorem share_pos (recorded : latencies ≠ []) (positive : 0 < per) :
    0 < per / 100 * latencies.length :=
  mul_pos (div_pos positive (by decide)) (Nat.cast_pos.mpr (List.length_pos_iff.mpr recorded))

/-- The nearest rank is that of a value which fewer values than the rank are below. -/
theorem nearestRank_iff (recorded : latencies ≠ []) (positive : 0 < per) {value : Nat} :
    NearestRank latencies per value ↔
      value ∈ latencies ∧ below latencies value < rank latencies per ∧
        rank latencies per ≤ upTo latencies value := by
  constructor
  · rintro ⟨member, enough, fewer⟩
    refine ⟨member, ?_, Nat.ceil_le.mpr enough⟩
    by_cases smaller : ∃ other ∈ latencies, other < value
    · exact Nat.lt_ceil.mpr (fewer smaller)
    · have none : below latencies value = 0 :=
        below_eq_zero fun other inLatencies => not_lt.mp fun less => smaller ⟨other, inLatencies, less⟩
      rw [none]
      exact Nat.ceil_pos.mpr (share_pos recorded positive)
  · rintro ⟨member, fewer, enough⟩
    exact ⟨member, Nat.ceil_le.mp enough, fun _ => Nat.lt_ceil.mp fewer⟩

/-- A percentile whose rank is the number of samples is read behind them. -/
theorem getPercentile_eq_none_iff (recorded : latencies ≠ []) :
    (getPercentile latencies per).2 = none ↔ latencies.length ≤ rank latencies per := by
  rw [getPercentile_of_recorded recorded]
  exact inOrder_eq_none_iff

/-- The call returns the percentile exactly when one recorded value takes the rank and the next one. -/
theorem returnsPercentile_iff (recorded : latencies ≠ []) (positive : 0 < per) :
    ReturnsPercentile latencies per ↔
      ∃ value ∈ latencies, below latencies value < rank latencies per ∧
        rank latencies per < upTo latencies value := by
  unfold ReturnsPercentile
  rw [getPercentile_of_recorded recorded]
  constructor
  · rintro ⟨value, returned, nearest⟩
    obtain ⟨member, fewer, -⟩ := (nearestRank_iff recorded positive).mp nearest
    exact ⟨value, member, fewer, (inOrder_eq_some_iff.mp returned).2⟩
  · rintro ⟨value, member, fewer, more⟩
    exact ⟨value, inOrder_eq_some_iff.mpr ⟨Nat.le_of_lt fewer, more⟩,
      (nearestRank_iff recorded positive).mpr ⟨member, fewer, Nat.le_of_lt more⟩⟩

theorem returnsPercentile_three : ReturnsPercentile [5, 3, 5] 60 :=
  (returnsPercentile_iff (by decide) (by decide)).mpr ⟨5, by decide, by decide +kernel⟩

/-- The 90th percentile of one latency is read behind it. -/
theorem one_latency_has_no_percentile :
    ¬ ∀ (latencies : List Nat) (per : ℚ), latencies ≠ [] → 0 < per → per ≤ 100 →
      ReturnsPercentile latencies per := by
  intro claim
  obtain ⟨value, returned, -⟩ := claim [5] 90 (by decide) (by decide) (by decide)
  have outside : (getPercentile [5] 90).2 = none :=
    (getPercentile_eq_none_iff (by decide)).mpr
      (Nat.ceil_pos.mpr (share_pos (by decide) (by decide)))
  exact absurd (outside.symm.trans returned) nofun

end LatencyChecker

end ObLib
