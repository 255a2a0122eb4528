/-
This file tells which value stands at an index of a sorted list by counting the values
of the list.

At an index stands the value that no more values than the index are below, and more
than the index are not above. The counts are the same before and after sorting.
-/

import Mathlib.Data.List.Sort

namespace OrderStatistics

variable {Value : Type} [LinearOrder Value]

/-- How many values are below a value. -/
def below (values : List Value) (value : Value) : Nat := values.countP (· < value)

/-- How many values are a value or below it. -/
def upTo (values : List Value) (value : Value) : Nat := values.countP (· ≤ value)

/-- The value at an index of the values in order. -/
def inOrder (values : List Value) (index : Nat) : Option Value := (values.mergeSort (· ≤ ·))[index]?

theorem below_eq_zero {values : List Value} {value : Value}
    (least : ∀ other ∈ values, value ≤ other) : below values value = 0 := by
  refine List.countP_eq_zero.mpr fun other member => ?_
  rw [decide_eq_true_iff]
  exact not_lt.mpr (least other member)

/-- Of a sorted list, an index has the value whose counts are on its two sides. -/
theorem getElem?_eq_some_iff_of_sorted {values : List Value} (sorted : values.Pairwise (· ≤ ·))
    (index : Nat) (value : Value) :
    values[index]? = some value ↔ below values value ≤ index ∧ index < upTo values value := by
  induction values generalizing index with
  | nil => exact iff_of_false nofun fun counts => absurd counts.2 (Nat.not_lt_zero index)
  | cons first values inductionHypothesis =>
    obtain ⟨least, sortedRest⟩ := List.pairwise_cons.mp sorted
    have leastOfAll : ∀ other ∈ first :: values, first ≤ other :=
      List.forall_mem_cons.mpr ⟨le_rfl, least⟩
    cases index with
    | zero =>
      rw [List.getElem?_cons_zero, Option.some.injEq]
      constructor
      · rintro rfl
        refine ⟨(below_eq_zero leastOfAll).le, List.countP_pos_iff.mpr ⟨first, List.mem_cons_self, ?_⟩⟩
        exact decide_eq_true le_rfl
      · rintro ⟨none, some⟩
        have notBelow : ¬ first < value := fun less =>
          List.countP_eq_zero.mp (Nat.le_zero.mp none) first List.mem_cons_self (decide_eq_true less)
        obtain ⟨other, member, atMost⟩ := List.countP_pos_iff.mp some
        exact le_antisymm ((leastOfAll other member).trans (of_decide_eq_true atMost))
          (not_lt.mp notBelow)
    | succ index =>
      have belowCons : below (first :: values) value =
          below values value + if first < value then 1 else 0 := by
        simp only [below, List.countP_cons, decide_eq_true_iff]
      have upToCons : upTo (first :: values) value =
          upTo values value + if first ≤ value then 1 else 0 := by
        simp only [upTo, List.countP_cons, decide_eq_true_iff]
      rw [List.getElem?_cons_succ, inductionHypothesis sortedRest, belowCons, upToCons]
      constructor
      · rintro ⟨fewBelow, moreUpTo⟩
        obtain ⟨other, member, atMost⟩ :=
          List.countP_pos_iff.mp (Nat.zero_lt_of_lt moreUpTo)
        rw [if_pos ((least other member).trans (of_decide_eq_true atMost))]
        refine ⟨?_, Nat.succ_lt_succ moreUpTo⟩
        split <;> omega
      · rintro ⟨fewBelow, moreUpTo⟩
        refine ⟨?_, by split at moreUpTo <;> omega⟩
        by_cases less : first < value
        · rw [if_pos less] at fewBelow
          exact Nat.le_of_succ_le_succ fewBelow
        · rw [below_eq_zero fun other member => (not_lt.mp less).trans (least other member)]
          exact Nat.zero_le _

/-- The value at an index in order, by the counts. -/
theorem inOrder_eq_some_iff {values : List Value} {index : Nat} {value : Value} :
    inOrder values index = some value ↔ below values value ≤ index ∧ index < upTo values value := by
  have order := List.mergeSort_perm values (· ≤ ·)
  unfold inOrder
  rw [getElem?_eq_some_iff_of_sorted (List.pairwise_mergeSort' (· ≤ ·) values)]
  unfold below upTo
  rw [order.countP_eq, order.countP_eq]

theorem inOrder_eq_none_iff {values : List Value} {index : Nat} :
    inOrder values index = none ↔ values.length ≤ index := by
  unfold inOrder
  rw [List.getElem?_eq_none_iff, List.length_mergeSort]

end OrderStatistics
