/-
This file proves when a cleared hash map is like a new one: only when it had no entry.

`clear` writes the reserved key into every occupied bucket and leaves `size_` as it is,
so a map that had entries goes on to count them. A map that had none and a new map with
as many buckets stand for the same finite map, and every later call returns the same on
both and leaves the same size and number of buckets.
-/

import OrderBookSketch.HashMapRun

namespace ObLib

open Probing Runs

namespace HashMap

variable {Key T : Type} [DecidableEq Key] [Inhabited T] {hasher : Key → Nat} {map : HashMap Key T}

/-! ### Clearing -/

/-- Advancing passes empty buckets only. -/
theorem advancePastEmpty_passes (map : HashMap Key T) (fuel idx : Nat) {passed : Nat}
    (behind : idx ≤ passed) (before : passed < map.advancePastEmpty fuel idx) :
    (map.bucket passed).1 = map.emptyKey := by
  induction fuel generalizing idx with
  | zero =>
    rw [advancePastEmpty] at before
    omega
  | succ fuel inductionHypothesis =>
    rw [advancePastEmpty] at before
    split_ifs at before with goesOn
    · rcases Nat.eq_or_lt_of_le behind with rfl | further
      · exact goesOn.2
      · exact inductionHypothesis (idx + 1) further before
    · omega

/-- The map with all buckets empty, and with its size. -/
structure Emptied (map cleared : HashMap Key T) : Prop where
  count : cleared.bucketCount = map.bucketCount
  emptyKey : cleared.emptyKey = map.emptyKey
  size : cleared.size = map.size
  empty : ∀ idx < map.bucketCount, (cleared.bucket idx).1 = map.emptyKey

/-- The loop of `clear`, from an iterator behind which there is no entry. -/
theorem emptied_clearFrom (fuel : Nat) (map : HashMap Key T) (it : Nat) (bound : it ≤ map.bucketCount)
    (done : ∀ idx < it, (map.bucket idx).1 = map.emptyKey) (enough : map.bucketCount - it < fuel) :
    Emptied map (clearFrom fuel map it) := by
  induction fuel generalizing map it with
  | zero => omega
  | succ fuel inductionHypothesis =>
    rw [clearFrom, HashMap.end]
    split_ifs with last
    · exact ⟨rfl, rfl, rfl, last ▸ done⟩
    · have inside : it < map.bucketCount := by omega
      let next := map.setBucket it (map.emptyKey, (map.bucket it).2)
      show Emptied map (clearFrom fuel next (next.increment it))
      have count : next.bucketCount = map.bucketCount := bucketCount_setBucket ..
      obtain ⟨lower, upper, -, -⟩ :=
        advancePastEmpty_spec next next.bucketCount (it + 1) (by omega) (by omega)
      have passes : ∀ idx < next.increment it, (next.bucket idx).1 = next.emptyKey := by
        intro idx before
        rcases Nat.lt_or_ge it idx with further | behind
        · exact advancePastEmpty_passes next next.bucketCount (it + 1) further before
        · rw [bucket_setBucket inside]
          split_ifs with here
          · rfl
          · exact done idx (Nat.lt_of_le_of_ne behind here)
      have less : next.bucketCount - next.increment it < fuel := by
        rw [increment]
        omega
      have emptied := inductionHypothesis next (next.increment it) upper passes less
      exact ⟨emptied.count.trans count, emptied.emptyKey, emptied.size,
        fun idx within => emptied.empty idx (count ▸ within)⟩

theorem emptied_clear (map : HashMap Key T) : Emptied map map.clear := by
  obtain ⟨-, upper, -, -⟩ :=
    advancePastEmpty_spec map map.bucketCount 0 (Nat.zero_le _) (by omega)
  refine emptied_clearFrom _ map map.begin upper (fun idx before => ?_) (by omega)
  exact advancePastEmpty_passes map map.bucketCount 0 (Nat.zero_le idx) before

/-- Without an entry to count, a cleared map stands for no entries, as a new map does. -/
theorem Emptied.standsFor (hasher : Key → Nat) (pow2 : ∃ exponent, map.bucketCount = 2 ^ exponent)
    {cleared : HashMap Key T} (emptied : Emptied map cleared) (none : map.size = 0) :
    StandsFor hasher map.emptyKey cleared [] := by
  have vacant : ∀ idx < cleared.bucketCount, cleared.slot idx = .none := fun idx bound =>
    (slot_eq_none_iff cleared idx).mpr
      ((emptied.empty idx (emptied.count ▸ bound)).trans emptied.emptyKey.symm)
  have size : cleared.size = 0 := emptied.size.trans none
  have distinct : Distinct cleared.bucketCount cleared.slot := by
    intro first bound _ _ key value other held
    rw [vacant first bound] at held
    cases held
  refine ⟨⟨?_, ?_, ?_, distinct, ?_⟩, emptied.emptyKey, List.nodup_nil, fun key value => ?_⟩
  · rw [emptied.count]
    exact pow2
  · rw [size]
    exact Nat.zero_le _
  · rw [size, occupiedCount, List.countP_eq_zero]
    intro entry member
    obtain ⟨idx, bound, rfl⟩ := List.getElem_of_mem member
    have empty := emptied.empty idx (emptied.count ▸ bound)
    rw [bucket_eq_getElem bound] at empty
    simp [empty, emptied.emptyKey]
  · intro place bound key value held
    rw [vacant place bound] at held
    cases held
  · rw [lookup_eq_some_iff distinct]
    refine iff_of_false ?_ List.not_mem_nil
    rintro ⟨idx, bound, held⟩
    rw [vacant idx bound] at held
    cases held

/-! ### Calls with the size and the number of buckets -/

/-- The call is an `emplace`, a `find`, or an `erase` with the iterator of a successful `find`. -/
def Call.Basic : Call Key T → Prop
  | .emplace _ _ => True
  | .find _ => True
  | .erase _ => True
  | _ => False

instance (input : Call Key T) : Decidable input.Basic := by
  cases input <;> unfold Call.Basic <;> infer_instance

/-- A call, with what it returns, the size and the number of buckets after it. -/
def observe (hasher : Key → Nat) (map : HashMap Key T) (input : Call Key T) :
    Option (HashMap Key T × Reply Key T × Nat × Nat) :=
  (call hasher map input).map fun (map, reply) => (map, reply, map.size, map.bucketCount)

/-- The number of buckets after a call. -/
def countAfter (entries : List (Key × T)) (bucketCount : Nat) : Call Key T → Nat
  | .emplace _ _ => roomFor entries.length bucketCount
  | _ => bucketCount

/-- What is seen of a call on a finite map of so many buckets. -/
def specObserve (spec : List (Key × T) × Nat) (input : Call Key T) :
    (List (Key × T) × Nat) × Reply Key T × Nat × Nat :=
  let (entries, reply) := specCall spec.1 input
  let count := countAfter spec.1 spec.2 input
  ((entries, count), reply, entries.length, count)

theorem call_count {emptyKey : Key} {entries : List (Key × T)}
    (standsFor : StandsFor hasher emptyKey map entries) {input : Call Key T} (basic : input.Basic)
    (proper : input.KeyIs (· ≠ emptyKey)) {next : HashMap Key T} {reply : Reply Key T}
    (returns : call hasher map input = some (next, reply)) :
    next.bucketCount = countAfter entries map.bucketCount input := by
  rw [← standsFor.emptyKey] at proper
  cases input with
  | emplace key value =>
    obtain ⟨result, emplaced, same⟩ := Option.bind_eq_some_iff.mp returns
    obtain ⟨rfl, -⟩ := Prod.mk.inj (Option.some.inj same)
    rw [countAfter, ← standsFor.size_eq]
    exact emplace_count standsFor.valid proper emplaced
  | find key =>
    obtain ⟨it, -, same⟩ := Option.bind_eq_some_iff.mp returns
    obtain ⟨rfl, -⟩ := Prod.mk.inj (Option.some.inj same)
    rfl
  | erase key =>
    cases stored : map.lookup key with
    | none =>
      simp only [call, find_of_absent standsFor.valid proper stored, Option.bind_eq_bind,
        Option.bind_some, if_true] at returns
      cases returns
      rfl
    | some value =>
      obtain ⟨it, found, notEnd, bound, held⟩ := find_of_present standsFor.valid proper stored
      obtain ⟨erased, erases, result⟩ := erase_spec standsFor.valid bound held proper
      simp only [call, found, erases, Option.bind_eq_bind, Option.bind_some, if_neg notEnd]
        at returns
      cases returns
      exact result.count
  | insert _ => exact basic.elim
  | rehash _ => exact basic.elim
  | reserve _ => exact basic.elim

/-- A map shows the calls what a finite map of as many buckets does. -/
theorem observe_simulates (hasher : Key → Nat) (emptyKey : Key) :
    Simulates (observe (T := T) hasher) specObserve
      (fun map spec => StandsFor hasher emptyKey map spec.1 ∧ map.bucketCount = spec.2)
      (fun _ input => input.Basic ∧ input.KeyIs (· ≠ emptyKey)) := by
  rintro map ⟨entries, count⟩ input ⟨standsFor, rfl⟩ ⟨basic, proper⟩
  have fits : RehashFits entries input := by
    cases input <;> first | exact trivial | exact basic.elim
  obtain ⟨next, returns, again⟩ := call_simulates map entries input standsFor ⟨proper, fits⟩
  have counted := call_count standsFor basic proper returns
  refine ⟨next, ?_, again, counted⟩
  rw [observe, returns]
  show some (next, _, next.size, next.bucketCount) = _
  rw [again.size_eq, counted]
  rfl

/-! ### A cleared map beside a new one -/

/-- Right after `clear` the map is empty and finds no key, and all later calls show the same on it
as on a new map with as many buckets. -/
def ClearedLikeNew (hasher : Key → Nat) (map : HashMap Key T) (calls : List (Call Key T)) : Prop :=
  map.clear.size = 0 ∧ map.clear.isEmpty = true ∧
    (∀ key ≠ map.emptyKey, map.clear.find hasher key = some map.clear.end) ∧
    ∃ cleared new shown, run (observe hasher) map.clear calls = some (cleared, shown) ∧
      run (observe hasher) (empty map.bucketCount map.emptyKey) calls = some (new, shown)

/-- A cleared map is like a new one, whatever is called later, exactly when it counted no entry. The
constructor makes a power of two of the number of buckets. -/
theorem clearedLikeNew_iff (hasher : Key → Nat) (map : HashMap Key T)
    (pow2 : ∃ exponent, map.bucketCount = 2 ^ exponent) (calls : List (Call Key T))
    (basic : ∀ input ∈ calls, input.Basic) (proper : ∀ input ∈ calls, input.KeyIs (· ≠ map.emptyKey)) :
    ClearedLikeNew hasher map calls ↔ map.size = 0 := by
  have emptied := emptied_clear map
  constructor
  · rintro ⟨size, -⟩
    exact emptied.size.symm.trans size
  · intro none
    have cleared := emptied.standsFor hasher pow2 none
    obtain ⟨exponent, count⟩ := pow2
    have new : StandsFor hasher map.emptyKey (empty (T := T) map.bucketCount map.emptyKey) [] := by
      rw [count]
      refine ⟨valid_empty exponent map.emptyKey, rfl, List.nodup_nil, fun key value => ?_⟩
      simp [lookup_empty]
    have along : Along specObserve (fun _ input => input.Basic ∧ input.KeyIs (· ≠ map.emptyKey))
        ([], map.bucketCount) calls := along_and calls _ basic (along_of_forall proper _)
    obtain ⟨last, shows, -⟩ := run_simulates (observe_simulates hasher map.emptyKey) calls map.clear
      ([], map.bucketCount) ⟨cleared, emptied.count⟩ along
    obtain ⟨lastNew, showsNew, -⟩ := run_simulates (observe_simulates hasher map.emptyKey) calls
      (empty map.bucketCount map.emptyKey) ([], map.bucketCount) ⟨new, bucketCount_empty ..⟩ along
    refine ⟨emptied.size.trans none, decide_eq_true (emptied.size.trans none), fun key other => ?_,
      last, lastNew, _, shows, showsNew⟩
    refine find_of_absent cleared.valid (cleared.emptyKey ▸ other) ?_
    rw [Option.eq_none_iff_forall_ne_some]
    exact fun value stored => List.not_mem_nil ((cleared.lookup key value).mp stored)

/-- A map whose only entry was erased is cleared, filled past its two buckets and searched. -/
theorem clearedLikeNew_after_erase :
    ClearedLikeNew id (⟨0, [(0, ""), (0, "a")], 0⟩ : HashMap Nat String)
      [.emplace 5 "b", .emplace 1 "c", .find 3, .erase 5, .find 1] :=
  (clearedLikeNew_iff id _ ⟨1, rfl⟩ _ (by decide) (by simp [Call.KeyIs])).mpr rfl

/-- A map with one entry counts it after `clear`. -/
theorem cleared_map_keeps_size :
    ¬ ∀ (map : HashMap Nat Nat) (calls : List (Call Nat Nat)), Reachable id map →
      (∀ input ∈ calls, input.Basic) → (∀ input ∈ calls, input.KeyIs (· ≠ map.emptyKey)) →
      ClearedLikeNew id map calls := by
  intro claim
  have created : create 2 0 = some (⟨0, [(0, 0), (0, 0)], 0⟩ : HashMap Nat Nat) := rfl
  have filled : call id (⟨0, [(0, 0), (0, 0)], 0⟩ : HashMap Nat Nat) (.emplace 3 7) =
      some (⟨0, [(0, 0), (3, 7)], 1⟩, .emplaced (3, 7) true) := rfl
  have emplaces : Call.KeyIs (· ≠ (0 : Nat)) (Call.emplace 3 7) := Nat.succ_ne_zero 2
  obtain ⟨size, -⟩ := claim ⟨0, [(0, 0), (3, 7)], 1⟩ []
    (.call (.create (by decide) created) emplaces filled) nofun nofun
  exact absurd size (by decide)

end HashMap

end ObLib
