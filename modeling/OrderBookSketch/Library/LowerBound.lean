/-
This file gives the binary search of `std::lower_bound` its meaning.

The search halves a range in every turn and keeps the half that the answer lies in. Over
a test that holds up to some index and not from there on, it finds that index, also when
it is the end of the range; in a sorted list that is the number of values below the one
that is searched for.
-/

import OrderBookSketch.Library.OrderStatistic

namespace OrderStatistics

/-- The search in so many places from the first on, in at most `fuel` turns. -/
def search (less : Nat → Bool) : Nat → Nat → Nat → Nat
  | 0, first, _ => first
  | fuel + 1, first, len =>
    if len = 0 then first
    else
      let half := len / 2
      if less (first + half) then search less fuel (first + half + 1) (len - half - 1)
      else search less fuel first half

theorem search_eq {less : Nat → Bool} {point fuel first len : Nat} (enough : len ≤ fuel)
    (splits : ∀ index, first ≤ index → index < first + len → less index = decide (index < point))
    (low : first ≤ point) (high : point ≤ first + len) : search less fuel first len = point := by
  induction fuel generalizing first len with
  | zero =>
    rw [search]
    omega
  | succ fuel inductionHypothesis =>
    rw [search]
    by_cases empty : len = 0
    · rw [if_pos empty]
      omega
    · have middle := splits (first + len / 2) (by omega) (by omega)
      simp only [if_neg empty, middle, decide_eq_true_iff]
      split
      case isTrue before =>
        refine inductionHypothesis (by omega) (fun index _ _ => splits index ?_ ?_) ?_ ?_ <;> omega
      case isFalse behind =>
        refine inductionHypothesis (by omega) (fun index _ _ => splits index ?_ ?_) ?_ ?_ <;> omega

variable {Value : Type} [LinearOrder Value]

/-- `std::lower_bound` in the values of a list. -/
def lowerBound (values : List Value) (value : Value) : Nat :=
  search (fun index => values[index]?.any (· < value)) values.length 0 values.length

/-- In a sorted list, the values below another one are those at the indices below their number. -/
theorem lt_iff_lt_below {values : List Value} (sorted : values.Pairwise (· ≤ ·)) {index : Nat}
    {here : Value} (at_index : values[index]? = some here) (value : Value) :
    here < value ↔ index < below values value := by
  obtain ⟨fewBelow, moreUpTo⟩ := (getElem?_eq_some_iff_of_sorted sorted index here).mp at_index
  constructor
  · intro less
    refine moreUpTo.trans_le (List.countP_mono_left fun other _ atMost => ?_)
    exact decide_eq_true ((of_decide_eq_true atMost).trans_lt less)
  · intro inside
    refine lt_of_not_ge fun atLeast => Nat.not_le.mpr inside ?_
    refine le_trans (List.countP_mono_left fun other _ less => ?_) fewBelow
    exact decide_eq_true ((of_decide_eq_true less).trans_le atLeast)

/-- The search finds the number of the values below the one that is searched for. -/
theorem lowerBound_eq {values : List Value} (sorted : values.Pairwise (· ≤ ·)) (value : Value) :
    lowerBound values value = below values value := by
  refine search_eq le_rfl (fun index _ inside => ?_) (Nat.zero_le _) ?_
  · rw [Nat.zero_add] at inside
    have here := List.getElem?_eq_getElem inside
    rw [here, Option.any_some, decide_eq_decide]
    exact lt_iff_lt_below sorted here value
  · rw [Nat.zero_add]
    exact List.countP_le_length

end OrderStatistics
