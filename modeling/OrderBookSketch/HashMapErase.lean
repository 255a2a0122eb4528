/-
This file proves of `HashMap::erase` what it does to any table that can be searched,
whether or not calls on a map lead there.

The keys of the buckets are different, a bucket is empty, and none is empty between the
ideal bucket of a key and its own. Nothing is asked of the load or of the counter. The
walk behind the erased bucket goes around the end of the array like any other.
-/

import OrderBookSketch.HashMapInvariant

namespace ObLib

open Probing

namespace HashMap

variable {Key T : Type} [DecidableEq Key] [Inhabited T]

/-- The buckets of a table that can be searched. -/
structure Searchable (hasher : Key → Nat) (map : HashMap Key T) : Prop where
  pow2 : ∃ exponent, map.bucketCount = 2 ^ exponent
  free : ∃ free < map.bucketCount, (map.bucket free).1 = map.emptyKey
  distinct : ∀ first < map.bucketCount, ∀ second < map.bucketCount,
    (map.bucket first).1 ≠ map.emptyKey → (map.bucket first).1 = (map.bucket second).1 →
    first = second
  noGap : ∀ place < map.bucketCount, (map.bucket place).1 ≠ map.emptyKey →
    ∀ passed < map.bucketCount,
      ahead map.bucketCount (map.keyToIdx hasher (map.bucket place).1) passed <
        ahead map.bucketCount (map.keyToIdx hasher (map.bucket place).1) place →
      (map.bucket passed).1 ≠ map.emptyKey

variable {hasher : Key → Nat} {map : HashMap Key T}

theorem searchable_iff : Searchable hasher map ↔ map.Probed hasher := by
  constructor
  · rintro ⟨pow2, ⟨free, freeBound, empty⟩, distinct, noGap⟩
    refine ⟨pow2, ⟨free, freeBound, (slot_eq_none_iff ..).mpr empty⟩, ?_, ?_⟩
    · intro first firstBound second secondBound key value other firstHolds secondHolds
      obtain ⟨firstHeld, proper⟩ := (slot_eq_some_iff ..).mp firstHolds
      obtain ⟨secondHeld, -⟩ := (slot_eq_some_iff ..).mp secondHolds
      refine distinct first firstBound second secondBound ?_ ?_
      · rw [firstHeld]
        exact proper
      · rw [firstHeld, secondHeld]
    · intro place placeBound key value holds passed passedBound before
      obtain ⟨held, proper⟩ := (slot_eq_some_iff ..).mp holds
      have filled := noGap place placeBound (by rw [held]; exact proper) passed passedBound
        (by rw [held]; exact before)
      exact fun empty => filled ((slot_eq_none_iff ..).mp empty)
  · rintro ⟨pow2, ⟨free, freeBound, empty⟩, distinct, chained⟩
    refine ⟨pow2, ⟨free, freeBound, (slot_eq_none_iff ..).mp empty⟩, ?_, ?_⟩
    · intro first firstBound second secondBound proper same
      have secondHolds := slot_of_ne (same ▸ proper)
      rw [← same] at secondHolds
      exact distinct first firstBound second secondBound _ _ _ (slot_of_ne proper) secondHolds
    · intro place placeBound proper passed passedBound before empty
      exact chained place placeBound _ _ (slot_of_ne proper) passed passedBound before
        ((slot_eq_none_iff ..).mpr empty)

/-- Erasing any occupied bucket of a table that can be searched stops, and leaves one that can be
searched, of the same size, in which that key is not found any more and every other key is found as
before, with its value. -/
theorem erase_searchable (hasher : Key → Nat) (map : HashMap Key T)
    (searchable : Searchable hasher map) (it : Nat) (bound : it < map.bucketCount)
    (occupied : (map.bucket it).1 ≠ map.emptyKey) :
    ∃ result, map.erase hasher it = some result ∧ Searchable hasher result ∧
      result.bucketCount = map.bucketCount ∧ result.emptyKey = map.emptyKey ∧
      result.occupiedCount + 1 = map.occupiedCount ∧
      result.find hasher (map.bucket it).1 = some result.end ∧
      ∀ key ≠ (map.bucket it).1, key ≠ map.emptyKey → result.lookup key = map.lookup key ∧
        ∃ found, result.find hasher key = some found ∧ result.FindOk key found := by
  have held : map.bucket it = ((map.bucket it).1, (map.bucket it).2) := rfl
  obtain ⟨result, erases, removed⟩ :=
    erase_probed (searchable_iff.mp searchable) bound held occupied
  have finds : ∀ key ≠ map.emptyKey, ∃ found, result.find hasher key = some found ∧
      result.FindOk key found := fun key proper =>
    find_probed removed.probed (by rw [removed.emptyKey]; exact proper)
  refine ⟨result, erases, searchable_iff.mpr removed.probed, removed.count, removed.emptyKey,
    removed.occupied, ?_, fun key other proper => ⟨?_, finds key proper⟩⟩
  · obtain ⟨found, found_eq, ok⟩ := finds _ occupied
    unfold FindOk at ok
    rw [removed.lookup, Function.update_self] at ok
    rw [found_eq, show found = result.end from ok]
  · rw [removed.lookup, Function.update_of_ne other]

/-- Keys 3, 7 and 11 of the ideal bucket 3, the last one, of four buckets. -/
def wrapped : HashMap Nat Nat where
  emptyKey := 0
  buckets := [(7, 70), (11, 110), (0, 0), (3, 30)]
  size := 3

/-- Both other keys move back, one of them around the end. -/
example : wrapped.erase id 3 =
    some { emptyKey := 0, buckets := [(11, 110), (0, 110), (0, 0), (7, 70)], size := 2 } := by
  decide

theorem searchable_wrapped : Searchable id wrapped where
  pow2 := ⟨2, rfl⟩
  free := ⟨2, by decide, rfl⟩
  distinct := by decide
  noGap := by decide

theorem erase_wrapped :
    ∃ result, wrapped.erase id 3 = some result ∧ Searchable id result ∧
      result.bucketCount = wrapped.bucketCount ∧ result.emptyKey = wrapped.emptyKey ∧
      result.occupiedCount + 1 = wrapped.occupiedCount ∧
      result.find id (wrapped.bucket 3).1 = some result.end ∧
      ∀ key ≠ (wrapped.bucket 3).1, key ≠ wrapped.emptyKey →
        result.lookup key = wrapped.lookup key ∧
        ∃ found, result.find id key = some found ∧ result.FindOk key found :=
  erase_searchable id wrapped searchable_wrapped 3 (by decide) (by decide)

end HashMap

end ObLib
