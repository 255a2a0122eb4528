/-
This file is the theory of linear probing with backward-shift deletion, over any
type of keys and any home slot function.

A table of `n` slots is read as a ring. A key is looked for from its home slot
forward, and the search ends at the first empty slot, so what keeps a key findable
is that no empty slot lies between its home slot and its own (`Chained`). Filling
the empty slot a search ends at keeps that. Emptying a slot does not: the slots
behind the hole are walked, every entry whose search would cross the hole is moved
into it and leaves the new hole behind, and the walk ends at the first empty slot.
`Shifting` is the invariant of that walk.
-/

import Mathlib.Logic.Function.Basic
import Mathlib.Tactic.SplitIfs
import Mathlib.Order.Nat

namespace Probing

/-! ### The ring of slots -/

/-- The number of steps forward from one slot of the ring to another. -/
def ahead (count start target : Nat) : Nat :=
  if start ≤ target then target - start else count + target - start

/-- The slot after a slot. -/
def after (count slot : Nat) : Nat :=
  if slot + 1 = count then 0 else slot + 1

theorem after_lt {count slot : Nat} (bound : slot < count) : after count slot < count := by
  unfold after
  split_ifs <;> omega

@[simp] theorem ahead_self (count slot : Nat) : ahead count slot slot = 0 := by
  simp [ahead]

theorem ahead_lt {count first second : Nat} (firstBound : first < count)
    (secondBound : second < count) : ahead count first second < count := by
  unfold ahead
  split_ifs <;> omega

theorem ahead_eq_zero {count first second : Nat} (firstBound : first < count)
    (same : ahead count first second = 0) : first = second := by
  unfold ahead at same
  split_ifs at same <;> omega

theorem ahead_injective {count start first second : Nat} (startBound : start < count)
    (firstBound : first < count) (secondBound : second < count)
    (same : ahead count start first = ahead count start second) : first = second := by
  unfold ahead at same
  split_ifs at same <;> omega

/-- Stepping forward comes one closer to any slot but the one it leaves. -/
theorem ahead_after_left {count slot target : Nat} (slotBound : slot < count)
    (targetBound : target < count) (different : slot ≠ target) :
    ahead count (after count slot) target + 1 = ahead count slot target := by
  unfold ahead after
  split_ifs <;> omega

/-- Stepping forward goes one further from the start, unless it comes back to it. -/
theorem ahead_after_right {count start slot : Nat} (startBound : start < count)
    (different : after count slot ≠ start) :
    ahead count start (after count slot) = ahead count start slot + 1 := by
  unfold after at different
  unfold ahead after
  split_ifs at different ⊢ <;> omega

/-- From the start, the way to a later slot passes the earlier one. -/
theorem ahead_split {count start first second : Nat} (startBound : start < count)
    (firstBound : first < count) (secondBound : second < count)
    (order : ahead count start first ≤ ahead count start second) :
    ahead count start second = ahead count start first + ahead count first second := by
  unfold ahead at order ⊢
  split_ifs at order ⊢ <;> omega

/-! ### Tables -/

variable {Key Value : Type}

/-- The entries of a table of slots, `none` where a slot is empty. -/
abbrev Table (Key Value : Type) := Nat → Option (Key × Value)

/-- Some slot holds the key with the value. -/
def Holds (count : Nat) (table : Table Key Value) (key : Key) (value : Value) : Prop :=
  ∃ slot < count, table slot = some (key, value)

/-- No two slots hold the same key. -/
def Distinct (count : Nat) (table : Table Key Value) : Prop :=
  ∀ first < count, ∀ second < count, ∀ key value value', table first = some (key, value) →
    table second = some (key, value') → first = second

/-- No empty slot lies between the home slot of a key and the slot that holds it. -/
def Chained (count : Nat) (home : Key → Nat) (table : Table Key Value) : Prop :=
  ∀ slot < count, ∀ key value, table slot = some (key, value) → ∀ passed < count,
    ahead count (home key) passed < ahead count (home key) slot → table passed ≠ none

/-- A search for a key has come to a slot: it has passed neither an empty slot nor the key. -/
def Searching (count : Nat) (home : Key → Nat) (table : Table Key Value) (key : Key)
    (slot : Nat) : Prop :=
  slot < count ∧ ∀ passed < count,
    ahead count (home key) passed < ahead count (home key) slot →
      ∃ other value, table passed = some (other, value) ∧ other ≠ key

variable {count : Nat} {home : Key → Nat} {table : Table Key Value} {key : Key}

theorem searching_home (homeBound : home key < count) :
    Searching count home table key (home key) := by
  refine ⟨homeBound, fun passed _ closer => ?_⟩
  rw [ahead_self] at closer
  omega

/-- A search that meets another key goes on. It never comes back to the home slot, because
some slot is empty. -/
theorem searching_after {slot free : Nat} {other : Key} {value : Value}
    (homeBound : home key < count) (freeBound : free < count) (empty : table free = none)
    (searching : Searching count home table key slot)
    (occupied : table slot = some (other, value)) (different : other ≠ key) :
    Searching count home table key (after count slot) ∧
      ahead count (after count slot) free < ahead count slot free := by
  obtain ⟨slotBound, passedOk⟩ := searching
  have notFree : slot ≠ free := by
    rintro rfl
    rw [empty] at occupied
    cases occupied
  have closer := ahead_after_left slotBound freeBound notFree
  refine ⟨⟨after_lt slotBound, fun passed passedBound before => ?_⟩, by omega⟩
  by_cases wraps : after count slot = home key
  · rw [wraps, ahead_self] at before
    omega
  · rw [ahead_after_right homeBound wraps] at before
    by_cases here : ahead count (home key) passed = ahead count (home key) slot
    · rw [ahead_injective homeBound passedBound slotBound here]
      exact ⟨other, value, occupied, different⟩
    · exact passedOk passed passedBound (by omega)

/-- A search that ends at an empty slot looked for a key the table does not hold. -/
theorem not_holds_of_searching {slot : Nat} (chained : Chained count home table)
    (homeBound : home key < count) (searching : Searching count home table key slot)
    (empty : table slot = none) (value : Value) : ¬ Holds count table key value := by
  rintro ⟨place, placeBound, held⟩
  rcases lt_or_ge (ahead count (home key) slot) (ahead count (home key) place) with less | more
  · exact chained place placeBound key value held slot searching.1 less empty
  · rcases Nat.lt_or_eq_of_le more with before | same
    · obtain ⟨other, otherValue, occupied, different⟩ :=
        searching.2 place placeBound before
      rw [held] at occupied
      exact different (congrArg Prod.fst (Option.some.inj occupied)).symm
    · rw [ahead_injective homeBound placeBound searching.1 same, empty] at held
      cases held

/-! ### Filling the slot a search ends at -/

theorem update_ne_none {slot passed : Nat} {entry : Key × Value} (filled : table passed ≠ none) :
    Function.update table slot (some entry) passed ≠ none := by
  by_cases same : passed = slot
  · rw [same, Function.update_self]
    exact Option.some_ne_none entry
  · rwa [Function.update_of_ne same]

theorem chained_fill {slot : Nat} (value : Value) (chained : Chained count home table)
    (searching : Searching count home table key slot) :
    Chained count home (Function.update table slot (some (key, value))) := by
  intro place placeBound held heldValue holds passed passedBound before
  refine update_ne_none ?_
  by_cases same : place = slot
  · subst same
    rw [Function.update_self, Option.some.injEq, Prod.mk.injEq] at holds
    obtain ⟨rfl, -⟩ := holds
    obtain ⟨other, otherValue, occupied, -⟩ := searching.2 passed passedBound before
    rw [occupied]
    exact Option.some_ne_none _
  · rw [Function.update_of_ne same] at holds
    exact chained place placeBound held heldValue holds passed passedBound before

theorem distinct_fill {slot : Nat} (value : Value) (distinct : Distinct count table)
    (absent : ∀ value, ¬ Holds count table key value) :
    Distinct count (Function.update table slot (some (key, value))) := by
  intro first firstBound second secondBound held firstValue secondValue firstHolds secondHolds
  by_cases firstHere : first = slot
  · by_cases secondHere : second = slot
    · rw [firstHere, secondHere]
    · rw [firstHere, Function.update_self, Option.some.injEq, Prod.mk.injEq] at firstHolds
      rw [Function.update_of_ne secondHere, ← firstHolds.1] at secondHolds
      exact absurd ⟨second, secondBound, secondHolds⟩ (absent secondValue)
  · rw [Function.update_of_ne firstHere] at firstHolds
    by_cases secondHere : second = slot
    · rw [secondHere, Function.update_self, Option.some.injEq, Prod.mk.injEq] at secondHolds
      rw [← secondHolds.1] at firstHolds
      exact absurd ⟨first, firstBound, firstHolds⟩ (absent firstValue)
    · rw [Function.update_of_ne secondHere] at secondHolds
      exact distinct first firstBound second secondBound held firstValue secondValue firstHolds
        secondHolds

theorem holds_fill_iff {slot : Nat} (value : Value) (slotBound : slot < count)
    (empty : table slot = none) (other : Key) (otherValue : Value) :
    Holds count (Function.update table slot (some (key, value))) other otherValue ↔
      (other = key ∧ otherValue = value) ∨ Holds count table other otherValue := by
  constructor
  · rintro ⟨place, placeBound, held⟩
    by_cases same : place = slot
    · rw [same, Function.update_self, Option.some.injEq, Prod.mk.injEq] at held
      exact Or.inl ⟨held.1.symm, held.2.symm⟩
    · rw [Function.update_of_ne same] at held
      exact Or.inr ⟨place, placeBound, held⟩
  · rintro (⟨rfl, rfl⟩ | ⟨place, placeBound, held⟩)
    · exact ⟨slot, slotBound, Function.update_self ..⟩
    · have different : place ≠ slot := by
        rintro rfl
        rw [empty] at held
        cases held
      exact ⟨place, placeBound, by rwa [Function.update_of_ne different]⟩

/-! ### Backward-shift deletion -/

/-- The walk of a deletion has come to a slot. The hole still carries an entry, which counts
for nothing any more; every other entry is chained, the slots from the hole to the walk are
occupied, and no search for an entry the walk has passed crosses the hole. The entries outside
the hole are those of the wanted content. -/
structure Shifting (count : Nat) (home : Key → Nat) (content : Key → Value → Prop)
    (table : Table Key Value) (hole slot : Nat) : Prop where
  holeBound : hole < count
  slotBound : slot < count
  different : hole ≠ slot
  solid : ∀ passed < count, ahead count hole passed < ahead count hole slot →
    table passed ≠ none
  chained : ∀ place < count, place ≠ hole → ∀ key value, table place = some (key, value) →
    ∀ passed < count, ahead count (home key) passed < ahead count (home key) place →
      table passed ≠ none
  settled : ∀ place < count, place ≠ hole → ahead count hole place < ahead count hole slot →
    ∀ key value, table place = some (key, value) →
      ahead count (home key) place ≤ ahead count (home key) hole
  distinct : ∀ first < count, ∀ second < count, first ≠ hole → second ≠ hole →
    ∀ key value value', table first = some (key, value) → table second = some (key, value') →
      first = second
  holds_iff : ∀ key value, content key value ↔
    ∃ place < count, place ≠ hole ∧ table place = some (key, value)

variable {content : Key → Value → Prop} {hole slot : Nat}

/-- The walk starts one slot behind the erased one. -/
theorem shifting_start {key : Key} {value : Value} {free : Nat}
    (chained : Chained count home table) (distinct : Distinct count table)
    (holeBound : hole < count) (erased : table hole = some (key, value))
    (freeBound : free < count) (empty : table free = none) :
    Shifting count home (fun other otherValue => other ≠ key ∧ Holds count table other otherValue)
      table hole (after count hole) := by
  have notFree : hole ≠ free := by
    rintro rfl
    rw [empty] at erased
    cases erased
  have different : hole ≠ after count hole := by
    unfold after
    split_ifs <;> omega
  have onlyHole : ∀ passed < count, ahead count hole passed < ahead count hole (after count hole) →
      passed = hole := by
    intro passed passedBound before
    rw [ahead_after_right holeBound different.symm, ahead_self] at before
    exact (ahead_eq_zero holeBound (by omega)).symm
  refine ⟨holeBound, after_lt holeBound, different, ?_, ?_, ?_, ?_, ?_⟩
  · intro passed passedBound before
    rw [onlyHole passed passedBound before, erased]
    exact Option.some_ne_none _
  · intro place placeBound _
    exact chained place placeBound
  · intro place placeBound away before
    exact absurd (onlyHole place placeBound before) away
  · intro first firstBound second secondBound _ _
    exact distinct first firstBound second secondBound
  · intro other otherValue
    constructor
    · rintro ⟨otherKey, place, placeBound, held⟩
      refine ⟨place, placeBound, ?_, held⟩
      rintro rfl
      rw [erased, Option.some.injEq, Prod.mk.injEq] at held
      exact otherKey held.1.symm
    · rintro ⟨place, placeBound, away, held⟩
      refine ⟨?_, place, placeBound, held⟩
      rintro rfl
      exact away (distinct place placeBound hole holeBound other otherValue value held erased)

/-- An empty slot is never between the hole and the walk, so every turn of the walk comes
closer to it. -/
theorem Shifting.closer {free : Nat} (shifting : Shifting count home content table hole slot)
    (freeBound : free < count) (empty : table free = none) (occupied : table slot ≠ none) :
    after count slot ≠ hole ∧ ahead count (after count slot) free < ahead count slot free := by
  have notFree : slot ≠ free := by
    rintro rfl
    exact occupied empty
  have notBefore : ¬ ahead count hole free < ahead count hole slot :=
    fun before => shifting.solid free freeBound before empty
  have notSame : ahead count hole free ≠ ahead count hole slot := fun same =>
    notFree (ahead_injective shifting.holeBound freeBound shifting.slotBound same).symm
  have closer := ahead_after_left shifting.slotBound freeBound notFree
  refine ⟨fun wraps => ?_, by omega⟩
  rw [wraps] at closer
  have split := ahead_split shifting.holeBound shifting.slotBound freeBound (by omega)
  have positive : ahead count hole slot ≠ 0 := fun zero =>
    shifting.different (ahead_eq_zero shifting.holeBound zero)
  omega

/-- The walk passes an entry whose search does not cross the hole. -/
theorem Shifting.skip {free : Nat} (shifting : Shifting count home content table hole slot)
    (freeBound : free < count) (empty : table free = none) {key : Key} {value : Value}
    (occupied : table slot = some (key, value))
    (stays : ahead count (home key) slot ≤ ahead count (home key) hole) :
    Shifting count home content table hole (after count slot) := by
  have filled : table slot ≠ none := by
    rw [occupied]
    exact Option.some_ne_none _
  have notHole := (shifting.closer freeBound empty filled).1
  have further := ahead_after_right shifting.holeBound notHole
  have here : ∀ place < count, ahead count hole place < ahead count hole (after count slot) →
      ahead count hole place < ahead count hole slot ∨ place = slot := by
    intro place placeBound before
    rw [further] at before
    rcases Nat.lt_succ_iff_lt_or_eq.mp before with less | same
    · exact Or.inl less
    · exact Or.inr (ahead_injective shifting.holeBound placeBound shifting.slotBound same)
  refine { shifting with slotBound := after_lt shifting.slotBound, different := notHole.symm,
                         solid := ?_, settled := ?_ }
  · intro passed passedBound before
    rcases here passed passedBound before with less | rfl
    · exact shifting.solid passed passedBound less
    · exact filled
  · intro place placeBound away before held heldValue holds
    rcases here place placeBound before with less | rfl
    · exact shifting.settled place placeBound away less held heldValue holds
    · rw [occupied, Option.some.injEq, Prod.mk.injEq] at holds
      rw [← holds.1]
      exact stays

/-- The walk moves an entry whose search crosses the hole into it; the slot it comes from is
the new hole. -/
theorem Shifting.move {free : Nat} (shifting : Shifting count home content table hole slot)
    (freeBound : free < count) (empty : table free = none)
    {key : Key} {value : Value} (occupied : table slot = some (key, value))
    (crosses : ahead count (home key) hole < ahead count (home key) slot) :
    Shifting count home content (Function.update table hole (some (key, value))) slot
      (after count slot) := by
  have filled : table slot ≠ none := by
    rw [occupied]
    exact Option.some_ne_none _
  have notFree : slot ≠ free := by
    rintro rfl
    exact filled empty
  have slotAfter : slot ≠ after count slot := by
    have := shifting.slotBound
    unfold after
    split_ifs <;> omega
  have onlySlot : ∀ passed < count, ahead count slot passed < ahead count slot (after count slot) →
      passed = slot := by
    intro passed passedBound before
    rw [ahead_after_right shifting.slotBound slotAfter.symm, ahead_self] at before
    exact (ahead_eq_zero shifting.slotBound (by omega)).symm
  refine ⟨shifting.slotBound, after_lt shifting.slotBound, slotAfter, ?_, ?_, ?_, ?_, ?_⟩
  · intro passed passedBound before
    rw [onlySlot passed passedBound before]
    exact update_ne_none filled
  · intro place placeBound away held heldValue holds passed passedBound before
    refine update_ne_none ?_
    by_cases same : place = hole
    · -- the moved entry: its search is a part of the one it had at the old slot
      rw [same, Function.update_self, Option.some.injEq, Prod.mk.injEq] at holds
      obtain ⟨rfl, -⟩ := holds
      exact shifting.chained slot shifting.slotBound shifting.different.symm key value occupied
        passed passedBound (by rw [same] at before; omega)
    · rw [Function.update_of_ne same] at holds
      exact shifting.chained place placeBound same held heldValue holds passed passedBound before
  · intro place placeBound away before
    exact absurd (onlySlot place placeBound before) away
  · intro first firstBound second secondBound firstAway secondAway held firstValue secondValue
      firstHolds secondHolds
    by_cases firstHole : first = hole
    · by_cases secondHole : second = hole
      · rw [firstHole, secondHole]
      · rw [firstHole, Function.update_self, Option.some.injEq, Prod.mk.injEq] at firstHolds
        rw [Function.update_of_ne secondHole, ← firstHolds.1] at secondHolds
        exact absurd (shifting.distinct second secondBound slot shifting.slotBound secondHole
          shifting.different.symm key secondValue value secondHolds occupied) secondAway
    · rw [Function.update_of_ne firstHole] at firstHolds
      by_cases secondHole : second = hole
      · rw [secondHole, Function.update_self, Option.some.injEq, Prod.mk.injEq] at secondHolds
        rw [← secondHolds.1] at firstHolds
        exact absurd (shifting.distinct first firstBound slot shifting.slotBound firstHole
          shifting.different.symm key firstValue value firstHolds occupied) firstAway
      · rw [Function.update_of_ne secondHole] at secondHolds
        exact shifting.distinct first firstBound second secondBound firstHole secondHole held
          firstValue secondValue firstHolds secondHolds
  · intro other otherValue
    rw [shifting.holds_iff]
    constructor
    · rintro ⟨place, placeBound, away, held⟩
      by_cases same : place = slot
      · rw [same, occupied] at held
        exact ⟨hole, shifting.holeBound, shifting.different, by rw [Function.update_self, held]⟩
      · exact ⟨place, placeBound, same, by rwa [Function.update_of_ne away]⟩
    · rintro ⟨place, placeBound, away, held⟩
      by_cases same : place = hole
      · rw [same, Function.update_self] at held
        exact ⟨slot, shifting.slotBound, shifting.different.symm, by rw [occupied, held]⟩
      · rw [Function.update_of_ne same] at held
        exact ⟨place, placeBound, same, held⟩

/-- At an empty slot the walk ends: emptying the hole leaves a chained table of the wanted
content. -/
theorem Shifting.finish (shifting : Shifting count home content table hole slot)
    (homeBound : ∀ key, home key < count) (empty : table slot = none) :
    Chained count home (Function.update table hole none) ∧
      Distinct count (Function.update table hole none) ∧
      ∀ key value, Holds count (Function.update table hole none) key value ↔
        content key value := by
  have outside : ∀ {place : Nat} {entry : Key × Value},
      Function.update table hole none place = some entry →
        place ≠ hole ∧ table place = some entry := by
    intro place entry held
    have away : place ≠ hole := by
      rintro rfl
      rw [Function.update_self] at held
      cases held
    exact ⟨away, by rwa [Function.update_of_ne away] at held⟩
  refine ⟨?_, ?_, ?_⟩
  · intro place placeBound key value held passed passedBound before
    obtain ⟨away, holds⟩ := outside held
    have filled := shifting.chained place placeBound away key value holds passed passedBound before
    by_cases same : passed = hole
    · -- a search that crosses the hole from behind the walk also crosses the empty slot
      subst same
      exfalso
      have notBefore : ¬ ahead count passed place < ahead count passed slot := fun less =>
        absurd (shifting.settled place placeBound away less key value holds) (by omega)
      have beyond : ahead count passed slot ≤ ahead count passed place := by omega
      have toPlace := ahead_split (homeBound key) shifting.holeBound placeBound (by omega)
      have notSlot : place ≠ slot := by
        rintro rfl
        rw [empty] at holds
        cases holds
      have notSame : ahead count passed slot ≠ ahead count passed place := fun same =>
        notSlot (ahead_injective shifting.holeBound shifting.slotBound placeBound same).symm
      have toSlot : ahead count (home key) slot =
          ahead count (home key) passed + ahead count passed slot := by
        have placeLt := ahead_lt (homeBound key) placeBound
        have homeKey := homeBound key
        have holeBound := shifting.holeBound
        have slotBound := shifting.slotBound
        unfold ahead at toPlace placeLt beyond notSame ⊢
        split_ifs at toPlace placeLt beyond notSame ⊢ <;> omega
      exact shifting.chained place placeBound away key value holds slot shifting.slotBound
        (by omega) empty
    · rwa [Function.update_of_ne same]
  · intro first firstBound second secondBound key value value' firstHolds secondHolds
    obtain ⟨firstAway, firstHeld⟩ := outside firstHolds
    obtain ⟨secondAway, secondHeld⟩ := outside secondHolds
    exact shifting.distinct first firstBound second secondBound firstAway secondAway key value
      value' firstHeld secondHeld
  · intro key value
    rw [shifting.holds_iff]
    constructor
    · rintro ⟨place, placeBound, held⟩
      exact ⟨place, placeBound, outside held⟩
    · rintro ⟨place, placeBound, away, held⟩
      exact ⟨place, placeBound, by rwa [Function.update_of_ne away]⟩

end Probing
