/-
This file proves the invariant of the hash map and what each operation does to the
finite map it stands for.

The invariant has five parts: the bucket count is a power of two, so that masking
is reduction modulo it; twice the size is at most the bucket count, so that some
bucket is empty; the size counts the occupied buckets; no key sits in two buckets;
and no empty bucket lies between the ideal bucket of a key and its own. The last
two are the `Distinct` and `Chained` of the theory of linear probing, read on the
bucket vector, and each loop of the code is a run of that theory's steps.
-/

import OrderBookSketch.HashMap
import OrderBookSketch.Library.Probing
import Mathlib.Data.List.Basic
import Mathlib.Data.Nat.Bits

namespace ObLib

open Loops Probing

namespace HashMap

variable {Key T : Type}

/-! ### Bucket indices -/

section Indices

variable {map : HashMap Key T} {hasher : Key → Nat}

theorem bucketCount_pos (pow2 : ∃ exponent, map.bucketCount = 2 ^ exponent) :
    0 < map.bucketCount := by
  obtain ⟨exponent, count⟩ := pow2
  rw [count]
  exact Nat.two_pow_pos exponent

/-- Masking with the bucket count less one is reduction modulo the bucket count. -/
theorem and_mask_eq_mod (pow2 : ∃ exponent, map.bucketCount = 2 ^ exponent) (number : Nat) :
    number &&& (map.bucketCount - 1) = number % map.bucketCount := by
  obtain ⟨exponent, count⟩ := pow2
  rw [count, Nat.and_two_pow_sub_one_eq_mod]

theorem keyToIdx_lt (hasher : Key → Nat) (pow2 : ∃ exponent, map.bucketCount = 2 ^ exponent)
    (key : Key) :
    map.keyToIdx hasher key < map.bucketCount := by
  unfold keyToIdx
  rw [and_mask_eq_mod pow2]
  exact Nat.mod_lt _ (bucketCount_pos pow2)

theorem probeNext_eq (pow2 : ∃ exponent, map.bucketCount = 2 ^ exponent) {idx : Nat}
    (bound : idx < map.bucketCount) : map.probeNext idx = after map.bucketCount idx := by
  unfold probeNext after
  rw [and_mask_eq_mod pow2]
  split_ifs with last
  · rw [last, Nat.mod_self]
  · exact Nat.mod_eq_of_lt (by omega)

/-- The code's `diff(a, b)` is the number of steps from `b` forward to `a`. -/
theorem diff_eq (pow2 : ∃ exponent, map.bucketCount = 2 ^ exponent) {a b : Nat}
    (aBound : a < map.bucketCount) (bBound : b < map.bucketCount) :
    map.diff a b = ahead map.bucketCount b a := by
  unfold diff ahead
  rw [and_mask_eq_mod pow2]
  split_ifs with order
  · rw [show map.bucketCount + a - b = a - b + map.bucketCount by omega, Nat.add_mod_right]
    exact Nat.mod_eq_of_lt (by omega)
  · exact Nat.mod_eq_of_lt (by omega)

theorem keyToIdx_congr {other : HashMap Key T} (same : other.bucketCount = map.bucketCount) :
    other.keyToIdx hasher = map.keyToIdx hasher := by
  funext key
  unfold keyToIdx
  rw [same]

end Indices

/-! ### Reading and writing buckets -/

@[simp] theorem bucketCount_setBucket (map : HashMap Key T) (idx : Nat) (entry : Key × T) :
    (map.setBucket idx entry).bucketCount = map.bucketCount := by
  simp [setBucket, bucketCount]

@[simp] theorem emptyKey_setBucket (map : HashMap Key T) (idx : Nat) (entry : Key × T) :
    (map.setBucket idx entry).emptyKey = map.emptyKey := rfl

variable [Inhabited T]

theorem bucket_eq_getElem {map : HashMap Key T} {idx : Nat} (bound : idx < map.buckets.length) :
    map.bucket idx = map.buckets[idx] := by
  unfold bucket
  rw [List.getD_eq_getElem?_getD, List.getElem?_eq_getElem bound, Option.getD_some]

theorem bucket_setBucket {map : HashMap Key T} {idx : Nat} (bound : idx < map.bucketCount)
    (entry : Key × T) (other : Nat) :
    (map.setBucket idx entry).bucket other = if other = idx then entry else map.bucket other := by
  unfold setBucket bucket
  rw [List.getD_eq_getElem?_getD, List.getElem?_set, List.getD_eq_getElem?_getD]
  by_cases same : idx = other
  · rw [if_pos same, if_pos same.symm]
    exact congrArg (Option.getD · _) (if_pos bound)
  · rw [if_neg same, if_neg (Ne.symm same)]

theorem bucketCount_empty (pow2 : Nat) (emptyKey : Key) :
    (empty (T := T) pow2 emptyKey).bucketCount = pow2 :=
  List.length_replicate

theorem bucket_empty (pow2 : Nat) (emptyKey : Key) (idx : Nat) :
    (empty (T := T) pow2 emptyKey).bucket idx = (emptyKey, default) := by
  unfold empty bucket
  rw [List.getD_eq_getElem?_getD, List.getElem?_replicate]
  split_ifs <;> rfl

theorem drop_eq_cons {map : HashMap Key T} {idx : Nat} (bound : idx < map.bucketCount) :
    map.buckets.drop idx = map.bucket idx :: map.buckets.drop (idx + 1) := by
  rw [bucket_eq_getElem bound]
  exact List.drop_eq_getElem_cons bound

/-! ### The rounding loop of the constructor -/

/-- Up to `2 ^ 63` buckets the register reaches a power of two that is large enough. -/
theorem pow2Loop_spec {count : Nat} (small : count ≤ 2 ^ 63) :
    ∃ exponent, pow2Loop count 65 1 = some (2 ^ exponent) ∧ count ≤ 2 ^ exponent := by
  have turn : ∀ pow2, (∃ exponent, pow2 = 2 ^ exponent ∧ exponent ≤ 63) →
      TurnOk (fun pow2 => ∃ exponent, pow2 = 2 ^ exponent ∧ exponent ≤ 63)
        (fun pow2 => 63 - Nat.log2 pow2)
        (fun pow2 => ∃ exponent, pow2 = 2 ^ exponent ∧ count ≤ pow2) pow2
        (if pow2 < count then .inl (pow2 * 2 % 2 ^ 64) else .inr pow2) := by
    rintro pow2 ⟨exponent, rfl, bound⟩
    split_ifs with goesOn
    · have below : exponent < 63 :=
        (Nat.pow_lt_pow_iff_right (by decide : 1 < 2)).mp (lt_of_lt_of_le goesOn small)
      have shifted : 2 ^ exponent * 2 % 2 ^ 64 = 2 ^ (exponent + 1) := by
        rw [← Nat.pow_succ]
        exact Nat.mod_eq_of_lt (Nat.pow_lt_pow_right (by decide) (by omega))
      refine ⟨⟨exponent + 1, shifted, below⟩, ?_⟩
      rw [shifted]
      show 63 - (2 ^ (exponent + 1)).log2 < 63 - (2 ^ exponent).log2
      rw [Nat.log2_two_pow, Nat.log2_two_pow]
      omega
    · exact ⟨exponent, rfl, by omega⟩
  obtain ⟨pow2, stops, exponent, rfl, enough⟩ :=
    loop_total _ _ _ _ turn 65 1 ⟨0, rfl, by omega⟩ (by decide)
  exact ⟨exponent, stops, enough⟩

/-- Past `2 ^ 63` buckets the register is shifted out and the loop never stops. -/
theorem pow2Loop_eq_none {count : Nat} (large : 2 ^ 63 < count) (fuel : Nat) :
    pow2Loop count fuel 1 = none := by
  refine loop_eq_none _ (fun pow2 => pow2 = 0 ∨ ∃ exponent, pow2 = 2 ^ exponent ∧ exponent ≤ 63)
    ?_ fuel 1 (Or.inr ⟨0, rfl, by omega⟩)
  rintro pow2 (rfl | ⟨exponent, rfl, bound⟩)
  · exact ⟨0, if_pos (by omega), Or.inl rfl⟩
  · have less : 2 ^ exponent < count :=
      lt_of_le_of_lt (Nat.pow_le_pow_right (by decide) bound) large
    refine ⟨_, if_pos less, ?_⟩
    rw [← Nat.pow_succ]
    rcases Nat.lt_or_eq_of_le bound with below | rfl
    · right
      refine ⟨exponent + 1, Nat.mod_eq_of_lt (Nat.pow_lt_pow_right (by decide) ?_), below⟩
      omega
    · left
      exact Nat.mod_self _

theorem create_spec {count : Nat} (small : count ≤ 2 ^ 63) (emptyKey : Key) :
    ∃ exponent, create (T := T) count emptyKey = some (empty (2 ^ exponent) emptyKey) := by
  obtain ⟨exponent, stops, -⟩ := pow2Loop_spec small
  refine ⟨exponent, ?_⟩
  unfold create
  rw [stops]
  rfl

variable [DecidableEq Key]

/-! ### The table of a map -/

/-- The bucket vector as a table of the probing theory. -/
def slot (map : HashMap Key T) : Table Key T := fun idx =>
  if (map.bucket idx).1 = map.emptyKey then none else some (map.bucket idx)

theorem slot_eq_none_iff (map : HashMap Key T) (idx : Nat) :
    map.slot idx = none ↔ (map.bucket idx).1 = map.emptyKey := by
  unfold slot
  split_ifs with same <;> simp [same]

theorem slot_eq_some_iff (map : HashMap Key T) (idx : Nat) (key : Key) (value : T) :
    map.slot idx = some (key, value) ↔ map.bucket idx = (key, value) ∧ key ≠ map.emptyKey := by
  unfold slot
  split_ifs with same
  · simp only [false_iff, not_and, not_not]
    rintro held
    rw [← same, held]
  · simp only [Option.some.injEq, iff_self_and]
    rintro held
    rwa [held] at same

theorem slot_of_ne {map : HashMap Key T} {idx : Nat} (occupied : (map.bucket idx).1 ≠ map.emptyKey) :
    map.slot idx = some ((map.bucket idx).1, (map.bucket idx).2) := by
  unfold slot
  rw [if_neg occupied]

theorem slot_setBucket {map : HashMap Key T} {idx : Nat} (bound : idx < map.bucketCount)
    {entry : Key × T} (occupied : entry.1 ≠ map.emptyKey) :
    (map.setBucket idx entry).slot = Function.update map.slot idx (some entry) := by
  funext other
  unfold slot
  rw [bucket_setBucket bound]
  by_cases same : other = idx
  · rw [if_pos same, emptyKey_setBucket, if_neg occupied, same, Function.update_self]
  · rw [if_neg same, Function.update_of_ne same]
    rfl

theorem slot_setBucket_empty {map : HashMap Key T} {idx : Nat} (bound : idx < map.bucketCount)
    (value : T) :
    (map.setBucket idx (map.emptyKey, value)).slot = Function.update map.slot idx none := by
  funext other
  unfold slot
  rw [bucket_setBucket bound]
  by_cases same : other = idx
  · rw [if_pos same, emptyKey_setBucket, if_pos rfl, same, Function.update_self]
  · rw [if_neg same, Function.update_of_ne same]
    rfl

/-! ### Counting the occupied buckets -/

/-- The number of occupied buckets. -/
def occupiedCount (map : HashMap Key T) : Nat :=
  map.buckets.countP fun entry => decide (entry.1 ≠ map.emptyKey)

/-- Writing a bucket changes the count by what the bucket held and what it holds now. -/
theorem occupiedCount_setBucket {map : HashMap Key T} {idx : Nat} (bound : idx < map.bucketCount)
    (entry : Key × T) :
    (map.setBucket idx entry).occupiedCount + (if (map.bucket idx).1 = map.emptyKey then 0 else 1) =
      map.occupiedCount + if entry.1 = map.emptyKey then 0 else 1 := by
  unfold occupiedCount setBucket
  rw [List.countP_set bound, bucket_eq_getElem bound]
  have positive : map.buckets[idx].1 ≠ map.emptyKey →
      0 < map.buckets.countP fun entry => decide (entry.1 ≠ map.emptyKey) := fun occupied =>
    List.countP_pos_iff.mpr ⟨map.buckets[idx], List.getElem_mem bound, by simpa using occupied⟩
  by_cases before : map.buckets[idx].1 = map.emptyKey <;>
    by_cases now : entry.1 = map.emptyKey <;> simp [before, now]
  · have := positive before
    simp only [ne_eq, decide_not] at this
    omega
  · have := positive before
    simp only [ne_eq, decide_not] at this
    omega

/-- A map with fewer occupied buckets than buckets has an empty one. -/
theorem exists_empty {map : HashMap Key T} (fewer : map.occupiedCount < map.bucketCount) :
    ∃ free < map.bucketCount, map.slot free = none := by
  by_contra full
  push Not at full
  have all : ∀ entry ∈ map.buckets, decide (entry.1 ≠ map.emptyKey) = true := by
    intro entry member
    obtain ⟨idx, bound, rfl⟩ := List.getElem_of_mem member
    have occupied := full idx bound
    rw [Ne, slot_eq_none_iff, bucket_eq_getElem bound] at occupied
    simpa using occupied
  have := List.countP_eq_length.mpr all
  unfold occupiedCount bucketCount at fewer
  omega

/-! ### The finite map a hash map stands for -/

/-- The value a map stores under a key. -/
def lookup (map : HashMap Key T) (key : Key) : Option T :=
  if key = map.emptyKey then none
  else (map.buckets.find? fun entry => entry.1 = key).map Prod.snd

theorem lookup_eq_some_iff {map : HashMap Key T} (distinct : Distinct map.bucketCount map.slot)
    (key : Key) (value : T) :
    map.lookup key = some value ↔ Holds map.bucketCount map.slot key value := by
  unfold lookup
  constructor
  · intro found
    split_ifs at found with reserved
    obtain ⟨entry, first, rfl⟩ := Option.map_eq_some_iff.mp found
    have sameKey : entry.1 = key := by simpa using List.find?_some first
    obtain ⟨idx, bound, atIdx⟩ := List.getElem_of_mem (List.mem_of_find?_eq_some first)
    refine ⟨idx, bound, (slot_eq_some_iff ..).mpr ⟨?_, reserved⟩⟩
    rw [bucket_eq_getElem bound, atIdx, ← sameKey]
  · rintro ⟨idx, bound, held⟩
    obtain ⟨inBucket, proper⟩ := (slot_eq_some_iff ..).mp held
    rw [if_neg proper]
    rw [bucket_eq_getElem bound] at inBucket
    cases first : map.buckets.find? fun entry => entry.1 = key with
    | none =>
      have missed := List.find?_eq_none.mp first map.buckets[idx] (List.getElem_mem bound)
      rw [inBucket] at missed
      simp at missed
    | some entry =>
      have sameKey : entry.1 = key := by simpa using List.find?_some first
      obtain ⟨other, otherBound, atOther⟩ := List.getElem_of_mem (List.mem_of_find?_eq_some first)
      have otherHeld : map.slot other = some (key, entry.2) := by
        rw [slot_eq_some_iff, bucket_eq_getElem otherBound, atOther, ← sameKey]
        exact ⟨rfl, sameKey ▸ proper⟩
      have here := distinct idx bound other otherBound key value entry.2 held otherHeld
      subst here
      rw [otherHeld, Option.some.injEq, Prod.mk.injEq] at held
      exact congrArg some held.2

theorem lookup_eq_none_iff {map : HashMap Key T} (distinct : Distinct map.bucketCount map.slot)
    (key : Key) :
    map.lookup key = none ↔ ∀ value, ¬ Holds map.bucketCount map.slot key value := by
  rw [Option.eq_none_iff_forall_ne_some]
  exact forall_congr' fun value => not_congr (lookup_eq_some_iff distinct key value)

/-- The content of a table determines the finite map. -/
theorem lookup_eq_of_holds {map : HashMap Key T} (distinct : Distinct map.bucketCount map.slot)
    (content : Key → Option T)
    (same : ∀ key value, Holds map.bucketCount map.slot key value ↔ content key = some value) :
    map.lookup = content := by
  funext key
  refine Option.ext fun value => ?_
  rw [lookup_eq_some_iff distinct, same]

/-! ### The invariant -/

variable (hasher : Key → Nat)

/-- The invariant of a hash map. -/
structure Valid (map : HashMap Key T) : Prop where
  pow2 : ∃ exponent, map.bucketCount = 2 ^ exponent
  load : 2 * map.size ≤ map.bucketCount
  counted : map.occupiedCount = map.size
  distinct : Distinct map.bucketCount map.slot
  chained : Chained map.bucketCount (map.keyToIdx hasher) map.slot

variable {hasher} {map : HashMap Key T}

theorem Valid.exists_empty (valid : map.Valid hasher) :
    ∃ free < map.bucketCount, map.slot free = none := by
  have positive := bucketCount_pos valid.pow2
  have load := valid.load
  exact HashMap.exists_empty (by rw [valid.counted]; omega)

/-- What searching needs of a map, however it has come about. -/
structure Probed (hasher : Key → Nat) (map : HashMap Key T) : Prop where
  pow2 : ∃ exponent, map.bucketCount = 2 ^ exponent
  free : ∃ free < map.bucketCount, map.slot free = none
  distinct : Distinct map.bucketCount map.slot
  chained : Chained map.bucketCount (map.keyToIdx hasher) map.slot

theorem Valid.probed (valid : map.Valid hasher) : map.Probed hasher :=
  ⟨valid.pow2, valid.exists_empty, valid.distinct, valid.chained⟩

/-! ### Lookup -/

/-- The iterator `find` owes for a key. -/
def FindOk (map : HashMap Key T) (key : Key) (it : Nat) : Prop :=
  match map.lookup key with
  | none => it = map.end
  | some value => it < map.bucketCount ∧ map.bucket it = (key, value)

/-- The search for a key ends within one turn for each bucket, at the bucket of the key or at
an empty one. -/
theorem find_probed (probed : map.Probed hasher) {key : Key} (proper : key ≠ map.emptyKey) :
    ∃ it, map.find hasher key = some it ∧ map.FindOk key it := by
  obtain ⟨free, freeBound, empty⟩ := probed.free
  have homeBound := keyToIdx_lt hasher probed.pow2 key
  refine loop_total (map.findTurn key)
    (Searching map.bucketCount (map.keyToIdx hasher) map.slot key)
    (fun idx => ahead map.bucketCount idx free) (map.FindOk key) ?_ map.bucketCount
    (map.keyToIdx hasher key) (searching_home homeBound) (ahead_lt homeBound freeBound)
  intro idx searching
  unfold findTurn
  split_ifs with found missing
  · have held : map.slot idx = some (key, (map.bucket idx).2) := by
      rw [← found]
      exact slot_of_ne (found ▸ proper)
    have stored := (lookup_eq_some_iff probed.distinct key _).mpr ⟨idx, searching.1, held⟩
    show map.FindOk key idx
    unfold FindOk
    rw [stored]
    exact ⟨searching.1, ((slot_eq_some_iff ..).mp held).1⟩
  · have absent := (lookup_eq_none_iff probed.distinct key).mpr
      (not_holds_of_searching probed.chained homeBound searching
        ((slot_eq_none_iff ..).mpr missing))
    show map.FindOk key map.end
    unfold FindOk
    rw [absent]
  · have further := searching_after homeBound freeBound empty searching (slot_of_ne missing) found
    rw [← probeNext_eq probed.pow2 searching.1] at further
    exact further

theorem find_spec (valid : map.Valid hasher) {key : Key} (proper : key ≠ map.emptyKey) :
    ∃ it, map.find hasher key = some it ∧ map.FindOk key it :=
  find_probed valid.probed proper

theorem find_of_absent (valid : map.Valid hasher) {key : Key} (proper : key ≠ map.emptyKey)
    (absent : map.lookup key = none) : map.find hasher key = some map.end := by
  obtain ⟨it, found, ok⟩ := find_spec valid proper
  unfold FindOk at ok
  rw [absent] at ok
  rw [found, show it = map.end from ok]

theorem find_of_present (valid : map.Valid hasher) {key : Key} (proper : key ≠ map.emptyKey)
    {value : T} (stored : map.lookup key = some value) :
    ∃ it, map.find hasher key = some it ∧ it ≠ map.end ∧ it < map.bucketCount ∧
      map.bucket it = (key, value) := by
  obtain ⟨it, found, ok⟩ := find_spec valid proper
  unfold FindOk at ok
  rw [stored] at ok
  exact ⟨it, found, Nat.ne_of_lt ok.1, ok⟩

/-- A search for the reserved key ends at an empty bucket, as if that were an entry. -/
theorem find_emptyKey (valid : map.Valid hasher) :
    ∃ it, map.find hasher map.emptyKey = some it ∧
      it < map.bucketCount ∧ (map.bucket it).1 = map.emptyKey := by
  obtain ⟨free, freeBound, empty⟩ := valid.exists_empty
  have homeBound := keyToIdx_lt hasher valid.pow2 map.emptyKey
  refine loop_total (map.findTurn map.emptyKey)
    (Searching map.bucketCount (map.keyToIdx hasher) map.slot map.emptyKey)
    (fun idx => ahead map.bucketCount idx free)
    (fun it => it < map.bucketCount ∧ (map.bucket it).1 = map.emptyKey) ?_ map.bucketCount
    (map.keyToIdx hasher map.emptyKey) (searching_home homeBound) (ahead_lt homeBound freeBound)
  intro idx searching
  unfold findTurn
  split_ifs with found
  · exact ⟨searching.1, found⟩
  · have further := searching_after homeBound freeBound empty searching (slot_of_ne found) found
    rw [← probeNext_eq valid.pow2 searching.1] at further
    exact further

/-! ### Iteration -/

/-- The entries of the occupied buckets, in bucket order. -/
def entries (map : HashMap Key T) : List (Key × T) :=
  map.buckets.filter fun entry => entry.1 ≠ map.emptyKey

/-- Advancing stops at the end or at an occupied bucket, and passes only empty ones. -/
theorem advancePastEmpty_spec (map : HashMap Key T) (fuel : Nat) (idx : Nat) (bound : idx ≤ map.bucketCount)
    (enough : map.bucketCount - idx ≤ fuel) :
    idx ≤ map.advancePastEmpty fuel idx ∧ map.advancePastEmpty fuel idx ≤ map.bucketCount ∧
      (map.advancePastEmpty fuel idx = map.bucketCount ∨
        (map.bucket (map.advancePastEmpty fuel idx)).1 ≠ map.emptyKey) ∧
      ((map.buckets.drop (map.advancePastEmpty fuel idx)).filter
          fun entry => entry.1 ≠ map.emptyKey) =
        (map.buckets.drop idx).filter fun entry => entry.1 ≠ map.emptyKey := by
  induction fuel generalizing idx with
  | zero =>
    rw [advancePastEmpty]
    exact ⟨le_rfl, bound, Or.inl (by omega), rfl⟩
  | succ fuel inductionHypothesis =>
    rw [advancePastEmpty]
    split_ifs with goesOn
    · obtain ⟨lower, upper, stop, same⟩ :=
        inductionHypothesis (idx + 1) goesOn.1 (by omega)
      refine ⟨by omega, upper, stop, ?_⟩
      rw [same, drop_eq_cons goesOn.1, List.filter_cons_of_neg (by simpa using goesOn.2)]
    · refine ⟨le_rfl, bound, ?_, rfl⟩
      rcases Nat.lt_or_eq_of_le bound with less | last
      · exact Or.inr fun reserved => goesOn ⟨less, reserved⟩
      · exact Or.inl last

theorem visitFrom_eq (fuel : Nat) (it : Nat) (bound : it ≤ map.bucketCount)
    (stop : it = map.bucketCount ∨ (map.bucket it).1 ≠ map.emptyKey)
    (enough : map.bucketCount - it < fuel) :
    map.visitFrom fuel it =
      (map.buckets.drop it).filter fun entry => entry.1 ≠ map.emptyKey := by
  induction fuel generalizing it with
  | zero => omega
  | succ fuel inductionHypothesis =>
    rw [visitFrom, HashMap.end]
    split_ifs with last
    · rw [last, bucketCount, List.drop_length, List.filter_nil]
    · have inside : it < map.bucketCount := by omega
      obtain ⟨lower, upper, next, same⟩ :=
        advancePastEmpty_spec map map.bucketCount (it + 1) inside (by omega)
      rw [increment, inductionHypothesis _ upper next (by omega), same, drop_eq_cons inside,
        List.filter_cons_of_pos (by simpa using stop.resolve_left last)]

/-- Iteration from `begin()` to `end()` visits the occupied buckets in order. -/
theorem visited_eq : map.visited = map.entries := by
  obtain ⟨-, upper, stop, same⟩ := advancePastEmpty_spec map map.bucketCount 0
    (Nat.zero_le _) (by omega)
  unfold visited begin
  rw [visitFrom_eq _ _ upper stop (by omega), same, List.drop_zero]
  rfl

theorem mem_entries_iff {key : Key} {value : T} :
    (key, value) ∈ map.entries ↔ Holds map.bucketCount map.slot key value := by
  unfold entries Holds
  simp only [List.mem_filter, decide_eq_true_eq, slot_eq_some_iff]
  constructor
  · rintro ⟨member, proper⟩
    obtain ⟨idx, bound, atIdx⟩ := List.getElem_of_mem member
    exact ⟨idx, bound, by rw [bucket_eq_getElem bound, atIdx], proper⟩
  · rintro ⟨idx, bound, held, proper⟩
    refine ⟨?_, proper⟩
    rw [← held, bucket_eq_getElem bound]
    exact List.getElem_mem bound

theorem Valid.mem_visited_iff (valid : map.Valid hasher) {key : Key} {value : T} :
    (key, value) ∈ map.visited ↔ map.lookup key = some value := by
  rw [visited_eq, mem_entries_iff, lookup_eq_some_iff valid.distinct]

theorem Valid.length_visited (valid : map.Valid hasher) : map.visited.length = map.size := by
  rw [visited_eq, ← valid.counted]
  unfold entries occupiedCount
  rw [List.countP_eq_length_filter]

/-- Iteration visits no key twice. -/
theorem Valid.nodup_visited (valid : map.Valid hasher) :
    (map.visited.map Prod.fst).Nodup := by
  rw [visited_eq]
  unfold entries List.Nodup
  rw [List.pairwise_map, List.pairwise_filter, List.pairwise_iff_getElem]
  intro first second firstBound secondBound before firstProper secondProper sameKey
  have held : ∀ idx (bound : idx < map.buckets.length), map.buckets[idx].1 ≠ map.emptyKey →
      map.slot idx = some (map.buckets[idx].1, map.buckets[idx].2) := by
    intro idx bound proper
    rw [slot_eq_some_iff, bucket_eq_getElem bound]
    exact ⟨rfl, proper⟩
  have firstHeld := held first firstBound (by simpa using firstProper)
  have secondHeld := held second secondBound (by simpa using secondProper)
  rw [← sameKey] at secondHeld
  have := valid.distinct first firstBound second secondBound _ _ _ firstHeld secondHeld
  omega

/-! ### Insertion -/

/-- What an insertion owes: the value already stored under the key stays, otherwise the new
one is stored, and the iterator is to the entry of the key. -/
structure Emplaced (hasher : Key → Nat) (map : HashMap Key T) (key : Key) (value : T)
    (result : HashMap Key T × Nat × Bool) : Prop where
  valid : result.1.Valid hasher
  emptyKey : result.1.emptyKey = map.emptyKey
  lookup : result.1.lookup = Function.update map.lookup key (some ((map.lookup key).getD value))
  inserted : result.2.2 = (map.lookup key).isNone
  bound : result.2.1 < result.1.bucketCount
  entry : result.1.bucket result.2.1 = (key, (map.lookup key).getD value)
  size : result.1.size = map.size + if (map.lookup key).isNone then 1 else 0

/-- Filling the empty bucket a search has ended at. -/
theorem emplaced_fill (valid : map.Valid hasher) {key : Key} (value : T)
    (proper : key ≠ map.emptyKey) (room : (map.size + 1) * 2 ≤ map.bucketCount) {idx : Nat}
    (searching : Searching map.bucketCount (map.keyToIdx hasher) map.slot key idx)
    (empty : (map.bucket idx).1 = map.emptyKey) :
    Emplaced hasher map key value
      ({ map.setBucket idx (key, value) with size := map.size + 1 }, idx, true) := by
  have bound := searching.1
  have slotEmpty := (slot_eq_none_iff map idx).mpr empty
  have absent := not_holds_of_searching valid.chained (keyToIdx_lt hasher valid.pow2 key) searching
    slotEmpty
  have missing := (lookup_eq_none_iff valid.distinct key).mpr absent
  have table : (map.setBucket idx (key, value)).slot =
      Function.update map.slot idx (some (key, value)) := slot_setBucket bound proper
  have count : (map.setBucket idx (key, value)).bucketCount = map.bucketCount :=
    bucketCount_setBucket map idx (key, value)
  have distinct : Distinct (map.setBucket idx (key, value)).bucketCount
      (map.setBucket idx (key, value)).slot := by
    rw [table, count]
    exact distinct_fill value valid.distinct absent
  have counted := occupiedCount_setBucket bound (key, value)
  rw [if_pos empty, if_neg proper, valid.counted] at counted
  refine { valid := ?_, emptyKey := rfl, lookup := ?_, inserted := by rw [missing]; rfl,
           bound := by rw [← count] at bound; exact bound, entry := ?_,
           size := by rw [missing]; rfl }
  · refine { pow2 := ?_, load := ?_, counted := counted, distinct := distinct, chained := ?_ }
    · exact count ▸ valid.pow2
    · show 2 * (map.size + 1) ≤ (map.setBucket idx (key, value)).bucketCount
      omega
    · show Chained (map.setBucket idx (key, value)).bucketCount
        ((map.setBucket idx (key, value)).keyToIdx hasher) (map.setBucket idx (key, value)).slot
      rw [keyToIdx_congr count, table, count]
      exact chained_fill value valid.chained searching
  · refine lookup_eq_of_holds distinct _ fun other otherValue => ?_
    show Holds (map.setBucket idx (key, value)).bucketCount
      (map.setBucket idx (key, value)).slot other otherValue ↔ _
    rw [table, count, holds_fill_iff value bound slotEmpty, missing, Option.getD_none]
    by_cases same : other = key
    · subst same
      rw [Function.update_self]
      constructor
      · rintro (⟨-, rfl⟩ | held)
        · rfl
        · exact absurd held (absent otherValue)
      · intro stored
        exact Or.inl ⟨rfl, (Option.some.inj stored).symm⟩
    · rw [Function.update_of_ne same, ← lookup_eq_some_iff valid.distinct]
      exact or_iff_right fun both => same both.1
  · rw [missing]
    show (map.setBucket idx (key, value)).bucket idx = _
    rw [bucket_setBucket bound, if_pos rfl, Option.getD_none]

/-- With room for one more key the probe loop of `emplace` ends within one turn for each
bucket, and the bucket count stays. -/
theorem emplaceLoop_spec (valid : map.Valid hasher) {key : Key} (value : T)
    (proper : key ≠ map.emptyKey) (room : (map.size + 1) * 2 ≤ map.bucketCount) :
    ∃ result, map.emplaceLoop hasher key value = some result ∧
      Emplaced hasher map key value result ∧ result.1.bucketCount = map.bucketCount := by
  obtain ⟨free, freeBound, empty⟩ := valid.exists_empty
  have homeBound := keyToIdx_lt hasher valid.pow2 key
  refine loop_total (map.emplaceTurn key value)
    (Searching map.bucketCount (map.keyToIdx hasher) map.slot key)
    (fun idx => ahead map.bucketCount idx free)
    (fun result => Emplaced hasher map key value result ∧
      result.1.bucketCount = map.bucketCount) ?_ map.bucketCount
    (map.keyToIdx hasher key) (searching_home homeBound) (ahead_lt homeBound freeBound)
  intro idx searching
  unfold emplaceTurn
  split_ifs with missing found
  · exact ⟨emplaced_fill valid value proper room searching missing,
      bucketCount_setBucket map idx (key, value)⟩
  · have held : map.slot idx = some (key, (map.bucket idx).2) := by
      rw [← found]
      exact slot_of_ne missing
    have stored := (lookup_eq_some_iff valid.distinct key _).mpr ⟨idx, searching.1, held⟩
    refine ⟨{ valid := valid, emptyKey := rfl, lookup := ?_, inserted := by rw [stored]; rfl,
              bound := searching.1, entry := ?_, size := by rw [stored]; rfl }, rfl⟩
    · rw [stored, Option.getD_some, ← stored, Function.update_eq_self]
    · rw [stored, Option.getD_some]
      exact ((slot_eq_some_iff ..).mp held).1
  · have further := searching_after homeBound freeBound empty searching (slot_of_ne missing) found
    rw [← probeNext_eq valid.pow2 searching.1] at further
    exact further

/-! ### Growth -/

/-- A map of the invariant that stands for the same finite map as another. -/
structure SameContent (hasher : Key → Nat) (map other : HashMap Key T) : Prop where
  valid : other.Valid hasher
  emptyKey : other.emptyKey = map.emptyKey
  lookup : other.lookup = map.lookup
  size : other.size = map.size

theorem SameContent.refl (valid : map.Valid hasher) : SameContent hasher map map :=
  ⟨valid, rfl, rfl, rfl⟩

theorem emplaceWith_spec (grow : HashMap Key T → Option (HashMap Key T))
    (valid : map.Valid hasher) {key : Key} (value : T) (proper : key ≠ map.emptyKey)
    (room : (map.size + 1) * 2 ≤ map.bucketCount) :
    ∃ result, map.emplaceWith hasher grow key value = some result ∧
      Emplaced hasher map key value result ∧ result.1.bucketCount = map.bucketCount := by
  unfold emplaceWith reserveWith
  rw [if_neg (by omega)]
  exact emplaceLoop_spec valid value proper room

/-- Inserting entries of new and different keys for which there is room never grows the map. -/
theorem insertAll_spec (grow : HashMap Key T → Option (HashMap Key T))
    (entries : List (Key × T)) (map : HashMap Key T) (valid : map.Valid hasher)
    (proper : ∀ entry ∈ entries, entry.1 ≠ map.emptyKey)
    (nodup : (entries.map Prod.fst).Nodup)
    (fresh : ∀ entry ∈ entries, map.lookup entry.1 = none)
    (room : (map.size + entries.length) * 2 ≤ map.bucketCount) :
    ∃ other, insertAll hasher grow entries map = some other ∧ other.Valid hasher ∧
      other.emptyKey = map.emptyKey ∧ other.bucketCount = map.bucketCount ∧
      other.size = map.size + entries.length ∧
      ∀ key value, other.lookup key = some value ↔
        (key, value) ∈ entries ∨ map.lookup key = some value := by
  induction entries generalizing map with
  | nil => exact ⟨map, rfl, valid, rfl, rfl, rfl, by simp⟩
  | cons entry entries inductionHypothesis =>
    obtain ⟨entryKey, entryValue⟩ := entry
    rw [List.length_cons] at room
    rw [List.map_cons, List.nodup_cons] at nodup
    have entryFresh : map.lookup entryKey = none := fresh _ List.mem_cons_self
    obtain ⟨⟨next, it, inserted⟩, emplaced, ok, count⟩ :=
      emplaceWith_spec grow valid entryValue (proper _ List.mem_cons_self) (by omega)
    have nextSize : next.size = map.size + 1 := by
      rw [ok.size, entryFresh]
      rfl
    have nextLookup : next.lookup = Function.update map.lookup entryKey (some entryValue) := by
      rw [ok.lookup, entryFresh, Option.getD_none]
    have others : ∀ other ∈ entries, other.1 ≠ entryKey := by
      rintro other member same
      exact nodup.1 (List.mem_map.mpr ⟨other, member, same⟩)
    obtain ⟨final, inserts, finalValid, finalKey, finalCount, finalSize, finalLookup⟩ :=
      inductionHypothesis next ok.valid
        (fun other member => by
          rw [ok.emptyKey]
          exact proper other (List.mem_cons_of_mem _ member))
        nodup.2
        (fun other member => by
          rw [nextLookup, Function.update_of_ne (others other member)]
          exact fresh other (List.mem_cons_of_mem _ member))
        (by rw [nextSize, count]; omega)
    refine ⟨final, ?_, finalValid, finalKey.trans ok.emptyKey, finalCount.trans count, ?_, ?_⟩
    · rw [insertAll, emplaced]
      exact inserts
    · rw [finalSize, nextSize, List.length_cons]
      omega
    · intro key value
      rw [finalLookup, nextLookup, List.mem_cons, Prod.mk.injEq]
      by_cases same : key = entryKey
      · subst same
        rw [Function.update_self, entryFresh]
        have notLater : (key, value) ∉ entries := fun member => others _ member rfl
        simp [notLater, eq_comm]
      · rw [Function.update_of_ne same]
        simp [same]

theorem slot_empty (pow2 : Nat) (emptyKey : Key) (idx : Nat) :
    (empty (T := T) pow2 emptyKey).slot idx = none := by
  rw [slot_eq_none_iff, bucket_empty]
  rfl

theorem valid_empty (exponent : Nat) (emptyKey : Key) :
    (empty (T := T) (2 ^ exponent) emptyKey).Valid hasher where
  pow2 := ⟨exponent, bucketCount_empty _ _⟩
  load := Nat.zero_le _
  counted := by simp [occupiedCount, empty]
  distinct := by
    intro first _ second _ key value value' held
    rw [slot_empty] at held
    cases held
  chained := by
    intro place _ key value held
    rw [slot_empty] at held
    cases held

theorem lookup_empty (pow2 : Nat) (emptyKey : Key) :
    (empty (T := T) pow2 emptyKey).lookup = fun _ => none := by
  funext key
  unfold lookup empty
  split_ifs with reserved
  · rfl
  · rw [List.find?_eq_none.mpr]
    · rfl
    · intro entry member
      rw [List.eq_of_mem_replicate member]
      simpa using Ne.symm reserved

/-- Copying a map into enough empty buckets keeps the finite map. -/
theorem copy_spec (grow : HashMap Key T → Option (HashMap Key T)) (valid : map.Valid hasher)
    (exponent : Nat) (room : map.size * 2 ≤ 2 ^ exponent) :
    ∃ other, insertAll hasher grow map.visited (empty (2 ^ exponent) map.emptyKey) = some other ∧
      SameContent hasher map other ∧ other.bucketCount = 2 ^ exponent := by
  obtain ⟨other, inserts, otherValid, otherKey, otherCount, otherSize, otherLookup⟩ :=
    insertAll_spec grow map.visited (empty (2 ^ exponent) map.emptyKey)
      (valid_empty exponent map.emptyKey)
      (fun entry member => by
        rw [visited_eq] at member
        exact of_decide_eq_true (List.mem_filter.mp member).2)
      valid.nodup_visited
      (fun entry _ => by rw [lookup_empty])
      (by
        rw [bucketCount_empty, valid.length_visited]
        simpa [empty] using room)
  refine ⟨other, inserts, ⟨otherValid, otherKey, ?_, ?_⟩, otherCount.trans (bucketCount_empty ..)⟩
  · funext key
    refine Option.ext fun value => ?_
    rw [otherLookup, lookup_empty, valid.mem_visited_iff]
    simp
  · rw [otherSize, valid.length_visited]
    exact Nat.zero_add _

/-- Doubling the buckets keeps the finite map, and no growth nests in it. -/
theorem grow_spec (depth : Nat) (valid : map.Valid hasher) :
    ∃ other, grow hasher (depth + 1) map = some other ∧ SameContent hasher map other ∧
      other.bucketCount = map.bucketCount * 2 := by
  obtain ⟨exponent, count⟩ := valid.pow2
  have load := valid.load
  have doubled : map.bucketCount * 2 = 2 ^ (exponent + 1) := by rw [count, Nat.pow_succ]
  rw [grow, doubled]
  exact copy_spec (grow hasher depth) valid (exponent + 1) (by omega)

theorem reserve_spec (valid : map.Valid hasher) (count : Nat) :
    ∃ other, map.reserve hasher count = some other ∧ SameContent hasher map other := by
  unfold reserve reserveWith
  split_ifs
  · obtain ⟨other, grown, same, -⟩ := grow_spec (growthDepth - 1) valid
    exact ⟨other, grown, same⟩
  · exact ⟨map, rfl, SameContent.refl valid⟩

/-- The bucket count with room for one more key. -/
def roomFor (size bucketCount : Nat) : Nat :=
  if bucketCount < (size + 1) * 2 then bucketCount * 2 else bucketCount

/-- One doubling makes room for one more key, whatever the size. -/
theorem reserveWith_spec (valid : map.Valid hasher) (depth : Nat) :
    ∃ other, map.reserveWith (grow hasher (depth + 1)) ((map.size + 1) * 2) = some other ∧
      SameContent hasher map other ∧ (map.size + 1) * 2 ≤ other.bucketCount ∧
      other.bucketCount = roomFor map.size map.bucketCount := by
  have load := valid.load
  have positive := bucketCount_pos valid.pow2
  unfold reserveWith roomFor
  split_ifs with full
  · obtain ⟨other, grown, same, count⟩ := grow_spec depth valid
    exact ⟨other, grown, same, by omega, count⟩
  · exact ⟨map, rfl, SameContent.refl valid, by omega, rfl⟩

theorem emplace_spec (valid : map.Valid hasher) {key : Key} (value : T)
    (proper : key ≠ map.emptyKey) :
    ∃ result, map.emplace hasher key value = some result ∧
      Emplaced hasher map key value result := by
  obtain ⟨other, reserved, same, enough, -⟩ := reserveWith_spec valid (growthDepth - 1)
  obtain ⟨result, emplaced, ok, -⟩ := emplaceLoop_spec same.valid value
    (same.emptyKey ▸ proper) (by rw [same.size]; exact enough)
  refine ⟨result, ?_, ⟨ok.valid, ok.emptyKey.trans same.emptyKey, ?_, ?_, ok.bound, ?_, ?_⟩⟩
  · unfold emplace emplaceWith
    rw [show growthDepth = growthDepth - 1 + 1 from rfl, reserved]
    exact emplaced
  · rw [ok.lookup, same.lookup]
  · rw [ok.inserted, same.lookup]
  · rw [ok.entry, same.lookup]
  · rw [ok.size, same.lookup, same.size]

/-- An insertion leaves the bucket count that it has reserved. -/
theorem emplace_count (valid : map.Valid hasher) {key : Key} {value : T}
    (proper : key ≠ map.emptyKey) {result : HashMap Key T × Nat × Bool}
    (emplaced : map.emplace hasher key value = some result) :
    result.1.bucketCount = roomFor map.size map.bucketCount := by
  obtain ⟨other, reserved, same, enough, count⟩ := reserveWith_spec valid (growthDepth - 1)
  obtain ⟨result', loops, -, kept⟩ := emplaceLoop_spec same.valid value
    (same.emptyKey ▸ proper) (by rw [same.size]; exact enough)
  obtain ⟨room, returned, inserts⟩ := Option.bind_eq_some_iff.mp emplaced
  have sameRoom : other = room := Option.some.inj (reserved.symm.trans returned)
  rw [← sameRoom] at inserts
  have sameResult : result' = result := Option.some.inj (loops.symm.trans inserts)
  rw [← sameResult, kept, count]

/-! ### Construction and rehashing -/

/-- A map a constructor call returns is empty. -/
theorem create_eq_some (hasher : Key → Nat) {count : Nat} {emptyKey : Key}
    (created : create (T := T) count emptyKey = some map) :
    map.Valid hasher ∧ map.emptyKey = emptyKey ∧ map.lookup = (fun _ => none) ∧ map.size = 0 := by
  rcases le_or_gt count (2 ^ 63) with small | large
  · obtain ⟨exponent, equation⟩ := create_spec (T := T) small emptyKey
    rw [equation, Option.some.injEq] at created
    subst created
    exact ⟨valid_empty exponent emptyKey, rfl, lookup_empty .., rfl⟩
  · unfold create at created
    rw [pow2Loop_eq_none large] at created
    cases created

theorem rehash_spec (valid : map.Valid hasher) {count : Nat}
    (small : max count (map.size * 2) ≤ 2 ^ 63) :
    ∃ other, map.rehash hasher count = some other ∧ SameContent hasher map other := by
  obtain ⟨exponent, stops, enough⟩ := pow2Loop_spec small
  obtain ⟨other, copied, same, -⟩ := copy_spec (grow hasher growthDepth) valid exponent
    (le_trans (le_max_right ..) enough)
  refine ⟨other, ?_, same⟩
  unfold rehash
  rw [stops]
  exact copied

theorem rehash_eq_none {count : Nat} (large : 2 ^ 63 < max count (map.size * 2)) :
    map.rehash hasher count = none := by
  unfold rehash
  rw [pow2Loop_eq_none large]
  rfl

/-! ### Deletion -/

/-- What holds at the head of the loop of `erase`: the map is the old one with entries moved
and a hole in it that the walk of the probing theory has behind it. -/
structure Erasing (hasher : Key → Nat) (map : HashMap Key T) (key : Key)
    (state : HashMap Key T × Nat × Nat) : Prop where
  shifting : Shifting map.bucketCount (map.keyToIdx hasher)
    (fun other value => other ≠ key ∧ Holds map.bucketCount map.slot other value)
    state.1.slot state.2.1 state.2.2
  count : state.1.bucketCount = map.bucketCount
  emptyKey : state.1.emptyKey = map.emptyKey
  size : state.1.size = map.size
  counted : state.1.occupiedCount = map.occupiedCount
  holeOccupied : (state.1.bucket state.2.1).1 ≠ map.emptyKey

/-- What an erasure comes to in any map that can be searched. -/
structure Removed (hasher : Key → Nat) (map : HashMap Key T) (key : Key)
    (result : HashMap Key T) : Prop where
  probed : result.Probed hasher
  emptyKey : result.emptyKey = map.emptyKey
  count : result.bucketCount = map.bucketCount
  lookup : result.lookup = Function.update map.lookup key none
  size : result.size = map.size - 1
  occupied : result.occupiedCount + 1 = map.occupiedCount

/-- What an erasure owes. -/
structure Erased (hasher : Key → Nat) (map : HashMap Key T) (key : Key)
    (result : HashMap Key T) : Prop where
  valid : result.Valid hasher
  emptyKey : result.emptyKey = map.emptyKey
  count : result.bucketCount = map.bucketCount
  lookup : result.lookup = Function.update map.lookup key none
  size : result.size + 1 = map.size

/-- The walk of an erasure ends at an empty bucket, where the hole is emptied. -/
theorem Erasing.finish {key : Key} {current : HashMap Key T} {hole idx : Nat}
    (probed : map.Probed hasher) (erasing : Erasing hasher map key (current, hole, idx))
    (empty : (current.bucket idx).1 = current.emptyKey) :
    Removed hasher map key { current.setBucket hole (current.emptyKey, (current.bucket hole).2) with
      size := current.size - 1 } := by
  obtain ⟨shifting, count, emptyKey, size, counted, holeOccupied⟩ := erasing
  simp only at shifting count emptyKey size counted holeOccupied
  have holeBound : hole < current.bucketCount := count ▸ shifting.holeBound
  obtain ⟨chained, distinct, content⟩ := shifting.finish (keyToIdx_lt hasher probed.pow2)
    ((slot_eq_none_iff current idx).mpr empty)
  let final := current.setBucket hole (current.emptyKey, (current.bucket hole).2)
  have table : final.slot = Function.update current.slot hole none :=
    slot_setBucket_empty holeBound _
  have finalCount : final.bucketCount = map.bucketCount :=
    (bucketCount_setBucket ..).trans count
  have finalOccupied := occupiedCount_setBucket holeBound (current.emptyKey, (current.bucket hole).2)
  rw [if_neg (emptyKey ▸ holeOccupied), if_pos rfl, counted] at finalOccupied
  have finalDistinct : Distinct final.bucketCount final.slot := by
    rw [table, finalCount]
    exact distinct
  have finalHole : final.slot hole = none := by
    rw [table]
    exact Function.update_self ..
  refine { probed := { pow2 := finalCount ▸ probed.pow2,
                       free := ⟨hole, finalCount ▸ shifting.holeBound, finalHole⟩,
                       distinct := finalDistinct, chained := ?_ },
           emptyKey := emptyKey, count := finalCount, lookup := ?_,
           size := congrArg (fun size => size - 1) size, occupied := finalOccupied }
  · show Chained final.bucketCount (final.keyToIdx hasher) final.slot
    rw [keyToIdx_congr finalCount, table, finalCount]
    exact chained
  · refine lookup_eq_of_holds finalDistinct _ fun other value => ?_
    show Holds final.bucketCount final.slot other value ↔ _
    rw [table, finalCount, content]
    by_cases same : other = key
    · rw [same, Function.update_self]
      simp
    · rw [Function.update_of_ne same, lookup_eq_some_iff probed.distinct]
      exact and_iff_right same

/-- Erasing the entry of a key ends within one turn for each bucket and removes just that key. -/
theorem erase_probed (probed : map.Probed hasher) {it : Nat} {key : Key} {value : T}
    (bound : it < map.bucketCount) (held : map.bucket it = (key, value))
    (proper : key ≠ map.emptyKey) :
    ∃ result, map.erase hasher it = some result ∧ Removed hasher map key result := by
  obtain ⟨free, freeBound, empty⟩ := probed.free
  have homeBound := keyToIdx_lt hasher probed.pow2
  have slotHeld : map.slot it = some (key, value) := (slot_eq_some_iff ..).mpr ⟨held, proper⟩
  have nextEq : map.probeNext it = after map.bucketCount it := probeNext_eq probed.pow2 bound
  refine loop_total (eraseTurn hasher)
    (fun state => Erasing hasher map key state ∧ state.1.slot free = none)
    (fun state => ahead map.bucketCount state.2.2 free)
    (Removed hasher map key) ?_ map.bucketCount (map, it, map.probeNext it) ⟨⟨?_, rfl, rfl, rfl,
      rfl, by rw [held]; exact proper⟩, empty⟩ ?_
  · rintro ⟨current, hole, idx⟩ ⟨erasing, stillEmpty⟩
    have finish := erasing.finish probed
    obtain ⟨shifting, count, emptyKey, size, counted, holeOccupied⟩ := erasing
    simp only at shifting count emptyKey size counted holeOccupied stillEmpty
    have pow2 : ∃ exponent, current.bucketCount = 2 ^ exponent := count ▸ probed.pow2
    have holeBound : hole < current.bucketCount := count ▸ shifting.holeBound
    have idxBound : idx < current.bucketCount := count ▸ shifting.slotBound
    have next : current.probeNext idx = after map.bucketCount idx := by
      rw [probeNext_eq pow2 idxBound, count]
    have ideal : current.keyToIdx hasher = map.keyToIdx hasher := keyToIdx_congr count
    simp only [eraseTurn]
    split_ifs with atEmpty crosses
    · exact finish atEmpty
    · -- the entry crosses the hole: it moves there, and its bucket is the new hole
      have occupied : current.slot idx = some ((current.bucket idx).1, (current.bucket idx).2) :=
        slot_of_ne atEmpty
      have closer := (shifting.closer freeBound stillEmpty (by rw [occupied]; simp)).2
      rw [diff_eq pow2 holeBound (keyToIdx_lt hasher pow2 _), diff_eq pow2 idxBound (keyToIdx_lt hasher pow2 _),
        ideal, count] at crosses
      have moved := shifting.move freeBound stillEmpty occupied crosses
      have table : (current.setBucket hole (current.bucket idx)).slot =
          Function.update current.slot hole (some (current.bucket idx)) :=
        slot_setBucket holeBound atEmpty
      have notHole : free ≠ hole := by
        rintro rfl
        rw [slot_eq_none_iff, emptyKey] at stillEmpty
        exact holeOccupied stillEmpty
      refine ⟨⟨⟨?_, ?_, emptyKey, size, ?_, ?_⟩, ?_⟩, ?_⟩
      · show Shifting _ _ _ (current.setBucket hole (current.bucket idx)).slot idx
          (current.probeNext idx)
        rw [table, next]
        exact moved
      · exact (bucketCount_setBucket ..).trans count
      · have change := occupiedCount_setBucket holeBound (current.bucket idx)
        rw [if_neg (emptyKey ▸ holeOccupied), if_neg atEmpty, counted] at change
        exact Nat.add_right_cancel change
      · show ((current.setBucket hole (current.bucket idx)).bucket idx).1 ≠ map.emptyKey
        rw [bucket_setBucket holeBound, if_neg shifting.different.symm, ← emptyKey]
        exact atEmpty
      · show (current.setBucket hole (current.bucket idx)).slot free = none
        rw [table, Function.update_of_ne notHole]
        exact stillEmpty
      · show ahead map.bucketCount (current.probeNext idx) free < _
        rw [next]
        exact closer
    · -- the entry stays, and the walk goes on behind the same hole
      have occupied : current.slot idx = some ((current.bucket idx).1, (current.bucket idx).2) :=
        slot_of_ne atEmpty
      have closer := (shifting.closer freeBound stillEmpty (by rw [occupied]; simp)).2
      rw [diff_eq pow2 holeBound (keyToIdx_lt hasher pow2 _), diff_eq pow2 idxBound (keyToIdx_lt hasher pow2 _),
        ideal, count, not_lt] at crosses
      have skipped := shifting.skip freeBound stillEmpty occupied crosses
      rw [← next] at skipped closer
      exact ⟨⟨⟨skipped, count, emptyKey, size, counted, holeOccupied⟩, stillEmpty⟩, closer⟩
  · show Shifting _ _ _ map.slot it (map.probeNext it)
    rw [nextEq]
    exact shifting_start probed.chained probed.distinct bound slotHeld freeBound empty
  · show ahead map.bucketCount (map.probeNext it) free < map.bucketCount
    rw [nextEq]
    exact ahead_lt (after_lt bound) freeBound

/-- In a map of the invariant, the invariant is kept. -/
theorem erase_spec (valid : map.Valid hasher) {it : Nat} {key : Key} {value : T}
    (bound : it < map.bucketCount) (held : map.bucket it = (key, value))
    (proper : key ≠ map.emptyKey) :
    ∃ result, map.erase hasher it = some result ∧ Erased hasher map key result := by
  obtain ⟨result, erases, removed⟩ := erase_probed valid.probed bound held proper
  have load := valid.load
  have counted := valid.counted
  have size := removed.size
  have occupied := removed.occupied
  refine ⟨result, erases, ⟨removed.probed.pow2, ?_, by omega, removed.probed.distinct,
    removed.probed.chained⟩, removed.emptyKey, removed.count, removed.lookup, by omega⟩
  rw [removed.count]
  omega

end HashMap

end ObLib
