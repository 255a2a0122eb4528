/-
This file gives the total of an amount over the items that are kept in a set of places.

A component that keeps such a total in a field adds an amount when an item comes to a
place and takes it off when the item goes. The rules say what the total is then, for one
place and for a list of places that are emptied one after another.
-/

import Mathlib.Algebra.BigOperators.Group.Finset.Piecewise
import Mathlib.Algebra.Order.BigOperators.Group.Finset
import Mathlib.Algebra.Ring.Int.Defs

namespace Totals

variable {Place Item : Type}

/-- The amount of the item that is kept in a place. -/
def amountAt (amount : Item → Int) (kept : Place → Option Item) (place : Place) : Int :=
  (kept place).elim 0 amount

def total (places : Finset Place) (amount : Item → Int) (kept : Place → Option Item) : Int :=
  ∑ place ∈ places, amountAt amount kept place

variable {places : Finset Place} {amount : Item → Int} {kept : Place → Option Item}

theorem amountAt_some {place : Place} {item : Item} (here : kept place = some item) :
    amountAt amount kept place = amount item := by
  rw [amountAt, here, Option.elim_some]

theorem amountAt_none {place : Place} (empty : kept place = none) :
    amountAt amount kept place = 0 := by
  rw [amountAt, empty, Option.elim_none]

theorem total_nonneg (nonneg : ∀ place item, kept place = some item → 0 ≤ amount item) :
    0 ≤ total places amount kept := by
  refine Finset.sum_nonneg fun place _ => ?_
  cases here : kept place with
  | none => rw [amountAt_none here]
  | some item =>
    rw [amountAt_some here]
    exact nonneg place item here

/-- Places are charged a positive amount each, the amount of their item where one is kept: what is
charged is what is kept exactly when no place is empty. -/
theorem sum_charged_eq_iff {gone : List Place} {charged : Place → Int}
    (positive : ∀ place ∈ gone, 0 < charged place)
    (agrees : ∀ place ∈ gone, ∀ item, kept place = some item → charged place = amount item) :
    (gone.map charged).sum = (gone.map (amountAt amount kept)).sum ↔
      ∀ place ∈ gone, kept place ≠ none := by
  have compare : ∀ place ∈ gone, amountAt amount kept place ≤ charged place ∧
      (charged place = amountAt amount kept place ↔ kept place ≠ none) := by
    intro place member
    have above := positive place member
    cases here : kept place with
    | none =>
      rw [amountAt_none here]
      exact ⟨Int.le_of_lt above, fun same => absurd same (Int.ne_of_gt above), fun some => absurd rfl some⟩
    | some item =>
      have same := agrees place member item here
      rw [amountAt_some here]
      exact ⟨Int.le_of_eq same.symm, fun _ => nofun, fun _ => same⟩
  clear positive agrees
  induction gone with
  | nil => exact ⟨fun _ _ => nofun, fun _ => rfl⟩
  | cons first gone inductionHypothesis =>
    have here := compare first List.mem_cons_self
    have later := inductionHypothesis fun place member => compare place (List.mem_cons_of_mem _ member)
    have bound : (gone.map (amountAt amount kept)).sum ≤ (gone.map charged).sum :=
      List.sum_le_sum fun place member => (compare place (List.mem_cons_of_mem _ member)).1
    rw [List.forall_mem_cons, List.map_cons, List.map_cons, List.sum_cons, List.sum_cons]
    refine Iff.trans ?_ (and_congr here.2 later)
    omega

/-! ### Places that get an item or are emptied -/

variable [DecidableEq Place]

/-- The places are emptied, one after another. -/
def clear (kept : Place → Option Item) (gone : List Place) : Place → Option Item :=
  gone.foldl (fun kept place => Function.update kept place none) kept

theorem total_update {place : Place} (member : place ∈ places) (next : Option Item) :
    total places amount (Function.update kept place next) =
      total places amount kept - amountAt amount kept place + next.elim 0 amount := by
  have updated : amountAt amount (Function.update kept place next) =
      Function.update (amountAt amount kept) place (next.elim 0 amount) := by
    funext other
    by_cases same : other = place
    · rw [same, Function.update_self, amountAt, Function.update_self]
    · rw [Function.update_of_ne same, amountAt, Function.update_of_ne same, amountAt]
  have before := Finset.add_sum_erase places (amountAt amount kept) member
  unfold total
  rw [updated, Finset.sum_update_of_mem member, ← Finset.erase_eq, ← before]
  omega

theorem clear_of_notMem {place : Place} {gone : List Place} (notMem : place ∉ gone) :
    clear kept gone place = kept place := by
  induction gone generalizing kept with
  | nil => rfl
  | cons first gone inductionHypothesis =>
    have apart := List.ne_of_not_mem_cons notMem
    have rest := List.not_mem_of_not_mem_cons notMem
    show clear (Function.update kept first none) gone place = _
    rw [inductionHypothesis rest, Function.update_of_ne apart]

theorem clear_of_mem {place : Place} {gone : List Place} (member : place ∈ gone) :
    clear kept gone place = none := by
  induction gone generalizing kept with
  | nil => cases member
  | cons first gone inductionHypothesis =>
    show clear (Function.update kept first none) gone place = none
    by_cases later : place ∈ gone
    · exact inductionHypothesis later
    · have here : place = first := (List.mem_cons.mp member).resolve_right later
      rw [clear_of_notMem later, here, Function.update_self]

theorem total_clear {gone : List Place} (members : ∀ place ∈ gone, place ∈ places)
    (distinct : gone.Nodup) :
    total places amount (clear kept gone) =
      total places amount kept - (gone.map (amountAt amount kept)).sum := by
  induction gone generalizing kept with
  | nil => exact (Int.sub_zero _).symm
  | cons first gone inductionHypothesis =>
    obtain ⟨notLater, distinctLater⟩ := List.nodup_cons.mp distinct
    have later : gone.map (amountAt amount (Function.update kept first none)) =
        gone.map (amountAt amount kept) := by
      refine List.map_congr_left fun place member => ?_
      rw [amountAt, Function.update_of_ne fun same : place = first => notLater (same ▸ member), amountAt]
    show total places amount (clear (Function.update kept first none) gone) = _
    rw [inductionHypothesis (fun place member => members place (List.mem_cons_of_mem _ member))
      distinctLater, later, total_update (members first List.mem_cons_self), List.map_cons,
      List.sum_cons, Option.elim_none]
    omega

end Totals
