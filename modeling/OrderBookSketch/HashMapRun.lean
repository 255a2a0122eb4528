/-
This file proves that the hash map is a finite map over every sequence of its
operations, and that no sequence of them brings it to a state in which a probe loop
does not stop.

The reference is a list of entries with different keys, in the order their keys were
inserted. The one call on which the code leaves it is `rehash`: the constructor behind
it rounds the bucket count up on a 64-bit register, and past `2 ^ 63` the register is
shifted to 0 and the loop runs for ever.
-/

import OrderBookSketch.HashMapInvariant
import OrderBookSketch.Library.Run
import Mathlib.Data.List.Nodup
import Mathlib.Data.List.Perm.Basic

namespace ObLib

open Loops Probing Runs

namespace HashMap

variable {Key T : Type}

/-! ### Calls and what they return -/

/-- A call on a hash map; `erase` is called with the iterator of a successful `find`. -/
inductive Call (Key T : Type) where
  | emplace (key : Key) (value : T)
  | insert (entry : Key × T)
  | find (key : Key)
  | erase (key : Key)
  | rehash (count : Nat)
  | reserve (count : Nat)
deriving Repr, DecidableEq

/-- What a call returns, an iterator being read as the entry it points to. -/
inductive Reply (Key T : Type) where
  | emplaced (entry : Key × T) (inserted : Bool)
  | found (entry : Option (Key × T))
  | done
deriving Repr, DecidableEq

/-- The call names no key but those of the predicate. -/
def Call.KeyIs (allowed : Key → Prop) : Call Key T → Prop
  | .emplace key _ => allowed key
  | .insert entry => allowed entry.1
  | .find key => allowed key
  | .erase key => allowed key
  | .rehash _ => True
  | .reserve _ => True

variable [DecidableEq Key]

section Code

variable [Inhabited T] (hasher : Key → Nat)

/-- One call on the map of the code. -/
def call (map : HashMap Key T) : Call Key T → Option (HashMap Key T × Reply Key T)
  | .emplace key value => do
    let (map, it, inserted) ← map.emplace hasher key value
    return (map, .emplaced (map.bucket it) inserted)
  | .insert entry => do
    let (map, it, inserted) ← map.insert hasher entry
    return (map, .emplaced (map.bucket it) inserted)
  | .find key => do
    let it ← map.find hasher key
    return (map, .found (if it = map.end then none else some (map.bucket it)))
  | .erase key => do
    let it ← map.find hasher key
    if it = map.end then return (map, .done)
    let map ← map.erase hasher it
    return (map, .done)
  | .rehash count => do
    let map ← map.rehash hasher count
    return (map, .done)
  | .reserve count => do
    let map ← map.reserve hasher count
    return (map, .done)

end Code

/-! ### The reference -/

/-- The entry of a key in a list of entries. -/
def entryOf (entries : List (Key × T)) (key : Key) : Option (Key × T) :=
  entries.find? fun entry => entry.1 = key

/-- A finite map keeps the value of a key that is there and appends a new key. -/
def specEmplace (entries : List (Key × T)) (key : Key) (value : T) :
    List (Key × T) × Reply Key T :=
  match entryOf entries key with
  | some entry => (entries, .emplaced entry false)
  | none => (entries ++ [(key, value)], .emplaced (key, value) true)

/-- One call on the finite map. -/
def specCall (entries : List (Key × T)) : Call Key T → List (Key × T) × Reply Key T
  | .emplace key value => specEmplace entries key value
  | .insert entry => specEmplace entries entry.1 entry.2
  | .find key => (entries, .found (entryOf entries key))
  | .erase key => (entries.filter fun entry => entry.1 ≠ key, .done)
  | .rehash _ => (entries, .done)
  | .reserve _ => (entries, .done)

/-- The bucket count a `rehash` asks for can be reached on a 64-bit register. -/
def RehashFits (entries : List (Key × T)) : Call Key T → Prop
  | .rehash count => max count (entries.length * 2) ≤ 2 ^ 63
  | _ => True

theorem entryOf_eq_some_iff {entries : List (Key × T)} (nodup : (entries.map Prod.fst).Nodup) (key : Key) (value : T) :
    entryOf entries key = some (key, value) ↔ (key, value) ∈ entries := by
  unfold entryOf
  constructor
  · exact List.mem_of_find?_eq_some
  · intro member
    cases first : entries.find? fun entry => entry.1 = key with
    | none =>
      have missed := List.find?_eq_none.mp first _ member
      simp at missed
    | some entry =>
      have sameKey : entry.1 = key := by simpa using List.find?_some first
      have same := List.inj_on_of_nodup_map nodup (List.mem_of_find?_eq_some first) member sameKey
      rw [same]

/-! ### The relation between the two -/

variable [Inhabited T] {hasher : Key → Nat}

/-- The map of the code stands for a list of entries with different keys. -/
structure StandsFor (hasher : Key → Nat) (emptyKey : Key) (map : HashMap Key T)
    (entries : List (Key × T)) : Prop where
  valid : map.Valid hasher
  emptyKey : map.emptyKey = emptyKey
  nodup : (entries.map Prod.fst).Nodup
  lookup : ∀ key value, map.lookup key = some value ↔ (key, value) ∈ entries

variable {emptyKey : Key} {map : HashMap Key T} {entries : List (Key × T)}

/-- The entry of a key is the key with the value the map stores under it. -/
theorem StandsFor.entryOf_eq (standsFor : StandsFor hasher emptyKey map entries) (key : Key) :
    entryOf entries key = (map.lookup key).map fun value => (key, value) := by
  refine Option.ext fun entry => ?_
  rw [Option.map_eq_some_iff]
  constructor
  · intro found
    have sameKey : entry.1 = key := by simpa [entryOf] using List.find?_some found
    exact ⟨entry.2, (standsFor.lookup ..).mpr (sameKey ▸ List.mem_of_find?_eq_some found),
      by rw [← sameKey]⟩
  · rintro ⟨value, stored, rfl⟩
    exact (entryOf_eq_some_iff standsFor.nodup key value).mpr ((standsFor.lookup ..).mp stored)

/-- Iteration visits the entries, each once, and the size is their number. -/
theorem StandsFor.visited_perm (standsFor : StandsFor hasher emptyKey map entries) :
    map.visited.Perm entries := by
  refine (List.perm_ext_iff_of_nodup (List.Nodup.of_map _ standsFor.valid.nodup_visited)
    (List.Nodup.of_map _ standsFor.nodup)).mpr ?_
  rintro ⟨key, value⟩
  rw [standsFor.valid.mem_visited_iff, standsFor.lookup]

theorem StandsFor.size_eq (standsFor : StandsFor hasher emptyKey map entries) :
    map.size = entries.length := by
  rw [← standsFor.valid.length_visited]
  exact standsFor.visited_perm.length_eq

theorem SameContent.standsFor {other : HashMap Key T} (same : SameContent hasher map other)
    (standsFor : StandsFor hasher emptyKey map entries) :
    StandsFor hasher emptyKey other entries where
  valid := same.valid
  emptyKey := same.emptyKey.trans standsFor.emptyKey
  nodup := standsFor.nodup
  lookup := same.lookup ▸ standsFor.lookup

/-! ### One call -/

theorem emplace_standsFor (standsFor : StandsFor hasher emptyKey map entries) {key : Key}
    (value : T) (proper : key ≠ emptyKey) :
    ∃ next, (do
        let (map, it, inserted) ← map.emplace hasher key value
        return (map, Reply.emplaced (map.bucket it) inserted)) =
          some (next, (specEmplace entries key value).2) ∧
      StandsFor hasher emptyKey next (specEmplace entries key value).1 := by
  obtain ⟨⟨next, it, inserted⟩, emplaced, ok⟩ :=
    emplace_spec standsFor.valid value (standsFor.emptyKey ▸ proper)
  refine ⟨next, ?_⟩
  rw [emplaced]
  have entry := standsFor.entryOf_eq key
  have lookup := ok.lookup
  have inBucket := ok.entry
  have fresh := ok.inserted
  simp only at lookup inBucket fresh
  unfold specEmplace
  cases stored : map.lookup key with
  | some old =>
    rw [stored] at entry lookup inBucket fresh
    rw [entry]
    refine ⟨?_, ok.valid, ok.emptyKey.trans standsFor.emptyKey, standsFor.nodup, ?_⟩
    · show some (next, Reply.emplaced (next.bucket it) inserted) = _
      rw [inBucket, fresh]
      rfl
    · show ∀ other otherValue, next.lookup other = some otherValue ↔ (other, otherValue) ∈ entries
      rw [lookup, Option.getD_some, ← stored, Function.update_eq_self]
      exact standsFor.lookup
  | none =>
    rw [stored] at entry lookup inBucket fresh
    rw [entry]
    have absent : ∀ other ∈ entries, other.1 ≠ key := by
      rintro ⟨otherKey, otherValue⟩ member rfl
      rw [(standsFor.lookup ..).mpr member] at stored
      cases stored
    refine ⟨?_, ok.valid, ok.emptyKey.trans standsFor.emptyKey, ?_, ?_⟩
    · show some (next, Reply.emplaced (next.bucket it) inserted) = _
      rw [inBucket, fresh]
      rfl
    · rw [Option.map_none, List.map_append, List.nodup_append]
      refine ⟨standsFor.nodup, List.nodup_singleton _, ?_⟩
      intro first firstMember second secondMember
      obtain ⟨other, member, rfl⟩ := List.mem_map.mp firstMember
      rw [List.map_singleton, List.mem_singleton] at secondMember
      rw [secondMember]
      exact absent other member
    · intro other otherValue
      rw [lookup, Option.map_none, List.mem_append, List.mem_singleton, Prod.mk.injEq,
        ← standsFor.lookup]
      by_cases same : other = key
      · rw [same, Function.update_self, stored, Option.getD_none]
        simp [eq_comm]
      · rw [Function.update_of_ne same]
        simp [same]

theorem erase_standsFor (standsFor : StandsFor hasher emptyKey map entries) {key : Key}
    (proper : key ≠ emptyKey) :
    ∃ next, call hasher map (.erase key) = some (next, .done) ∧
      StandsFor hasher emptyKey next (entries.filter fun entry => entry.1 ≠ key) := by
  have nodup : ((entries.filter fun entry => entry.1 ≠ key).map Prod.fst).Nodup :=
    standsFor.nodup.sublist (List.filter_sublist.map _)
  have keyProper : key ≠ map.emptyKey := standsFor.emptyKey ▸ proper
  cases stored : map.lookup key with
  | none =>
    refine ⟨map, ?_, standsFor.valid, standsFor.emptyKey, nodup, fun other value => ?_⟩
    · simp only [call, find_of_absent standsFor.valid keyProper stored, Option.bind_eq_bind,
        Option.bind_some, if_true]
      rfl
    · rw [standsFor.lookup, List.mem_filter, decide_eq_true_eq, iff_self_and]
      rintro member rfl
      rw [(standsFor.lookup ..).mpr member] at stored
      cases stored
  | some value =>
    obtain ⟨it, found, notEnd, bound, held⟩ := find_of_present standsFor.valid keyProper stored
    obtain ⟨next, erased, result⟩ := erase_spec standsFor.valid bound held keyProper
    refine ⟨next, ?_, result.valid, result.emptyKey.trans standsFor.emptyKey, nodup,
      fun other otherValue => ?_⟩
    · simp only [call, found, erased, Option.bind_eq_bind, Option.bind_some, if_neg notEnd]
      rfl
    · rw [result.lookup, List.mem_filter, decide_eq_true_eq, ← standsFor.lookup]
      by_cases same : other = key
      · rw [same, Function.update_self]
        simp
      · rw [Function.update_of_ne same]
        simp [same]

/-- Every call on a key other than the reserved one does what it does on the finite map. -/
theorem call_simulates :
    Simulates (call hasher) specCall (StandsFor (T := T) hasher emptyKey)
      (fun entries input => input.KeyIs (· ≠ emptyKey) ∧ RehashFits entries input) := by
  rintro map entries input standsFor ⟨proper, fits⟩
  cases input with
  | emplace key value => exact emplace_standsFor standsFor value proper
  | insert entry => exact emplace_standsFor standsFor entry.2 proper
  | find key =>
    have keyProper : key ≠ map.emptyKey := standsFor.emptyKey ▸ proper
    refine ⟨map, ?_, standsFor⟩
    simp only [call, specCall, standsFor.entryOf_eq]
    cases stored : map.lookup key with
    | none =>
      rw [find_of_absent standsFor.valid keyProper stored]
      simp
    | some value =>
      obtain ⟨it, found, notEnd, -, held⟩ := find_of_present standsFor.valid keyProper stored
      rw [found]
      simp [notEnd, held]
  | erase key => exact erase_standsFor standsFor proper
  | rehash count =>
    have room : max count (map.size * 2) ≤ 2 ^ 63 := by
      rw [standsFor.size_eq]
      exact fits
    obtain ⟨next, rehashed, same⟩ := rehash_spec standsFor.valid room
    refine ⟨next, ?_, same.standsFor standsFor⟩
    simp only [call, rehashed]
    rfl
  | reserve count =>
    obtain ⟨next, reserved, same⟩ := reserve_spec standsFor.valid count
    refine ⟨next, ?_, same.standsFor standsFor⟩
    simp only [call, reserved]
    rfl

/-- A `rehash` that asks for too many buckets never returns. -/
theorem call_eq_none (standsFor : StandsFor hasher emptyKey map entries) {input : Call Key T}
    (tooMany : ¬ RehashFits entries input) : call hasher map input = none := by
  cases input with
  | rehash count =>
    have large : 2 ^ 63 < max count (map.size * 2) := by
      rw [standsFor.size_eq]
      exact not_le.mp tooMany
    simp only [call, rehash_eq_none large]
    rfl
  | _ => exact absurd trivial tooMany

theorem standsFor_of_create (hasher : Key → Nat) {count : Nat} (created : create count emptyKey = some map) :
    StandsFor hasher emptyKey map [] := by
  obtain ⟨valid, sameKey, lookup, -⟩ := create_eq_some hasher created
  exact ⟨valid, sameKey, List.nodup_nil, by simp [lookup]⟩

/-! ### Every run -/

/-- The calls made on a new map return, with what the same calls return on a finite map, and
leave a map that holds its entries: its size is their number, and iteration visits them all
and no key twice. -/
def ActsAsFiniteMap (hasher : Key → Nat) (count : Nat) (emptyKey : Key)
    (calls : List (Call Key T)) : Prop :=
  ∃ map, (create count emptyKey).bind (fun map => run (call hasher) map calls) =
      some (map, (specRun specCall [] calls).2) ∧
    map.size = (specRun specCall [] calls).1.length ∧
    map.visited.Perm (specRun specCall [] calls).1 ∧ (map.visited.map Prod.fst).Nodup

/-- A map acts as a finite map over exactly the sequences of calls whose `rehash` calls ask for
no more than `2 ^ 63` buckets. -/
theorem actsAsFiniteMap_iff (hasher : Key → Nat) (count : Nat) (small : count < 2 ^ 62)
    (emptyKey : Key) (calls : List (Call Key T))
    (proper : ∀ input ∈ calls, input.KeyIs (· ≠ emptyKey)) :
    ActsAsFiniteMap hasher count emptyKey calls ↔ Along specCall RehashFits [] calls := by
  obtain ⟨exponent, created⟩ := create_spec (T := T) (show count ≤ 2 ^ 63 by omega) emptyKey
  have start := standsFor_of_create hasher created
  unfold ActsAsFiniteMap
  rw [created, Option.bind_some]
  constructor
  · rintro ⟨map, returns, -⟩
    by_contra fails
    rw [run_eq_none call_simulates (fun _ _ _ standsFor => call_eq_none standsFor) calls proper _
      [] start fails] at returns
    cases returns
  · intro fits
    obtain ⟨map, returns, standsFor⟩ := run_simulates call_simulates calls _ [] start
      (along_and calls [] proper fits)
    exact ⟨map, returns, standsFor.size_eq, standsFor.visited_perm, standsFor.valid.nodup_visited⟩

/-- Growth, a collision, a deletion that shifts an entry back and a `rehash`, on a map whose
keys all hash to one bucket. -/
theorem actsAsFiniteMap_collisions :
    ActsAsFiniteMap (fun _ : Nat => 5) 1 0
      [.emplace 3 "a", .emplace 8 "b", .emplace 3 "c", .erase 3, .rehash 7, .find 8] :=
  (actsAsFiniteMap_iff (fun _ => 5) 1 (by decide) 0 _ (by simp [Call.KeyIs])).mpr
    (by simp [Along, RehashFits, specCall, specEmplace, entryOf])

/-- `rehash(2^63 + 1)` on a new map: the loop that rounds the count up has not stopped after
any number of turns. -/
theorem rehash_runs_for_ever :
    (∀ turns, pow2Loop (max (2 ^ 63 + 1) (0 * 2)) turns 1 = none) ∧
      ¬ ActsAsFiniteMap (fun _ : Nat => 0) 1 0 [.rehash (2 ^ 63 + 1) (T := Nat)] := by
  refine ⟨pow2Loop_eq_none (by decide), ?_⟩
  rintro ⟨map, returns, -⟩
  cases returns

/-! ### The probe loops -/

/-- The maps that calls on keys other than the reserved one lead to. -/
inductive Reachable (hasher : Key → Nat) : HashMap Key T → Prop where
  | create {count : Nat} {emptyKey : Key} {map : HashMap Key T} (small : count < 2 ^ 62)
      (created : create count emptyKey = some map) : Reachable hasher map
  | call {map next : HashMap Key T} {input : Call Key T} {reply : Reply Key T}
      (reachable : Reachable hasher map) (proper : input.KeyIs (· ≠ map.emptyKey))
      (returns : call hasher map input = some (next, reply)) : Reachable hasher next

theorem Reachable.standsFor (reachable : Reachable hasher map) :
    ∃ entries, StandsFor hasher map.emptyKey map entries := by
  induction reachable with
  | create small created =>
    have start := standsFor_of_create hasher created
    exact ⟨[], start.emptyKey ▸ start⟩
  | @call map next input reply reachable proper returns inductionHypothesis =>
    obtain ⟨entries, standsFor⟩ := inductionHypothesis
    by_cases fits : RehashFits entries input
    · obtain ⟨other, returned, again⟩ := call_simulates map entries input standsFor ⟨proper, fits⟩
      obtain ⟨rfl, -⟩ := returns_unique returned returns
      exact ⟨_, again.emptyKey ▸ again⟩
    · rw [call_eq_none standsFor fits] at returns
      cases returns

/-- In every reachable map the bucket count is a power of two, at least twice the size, and
some bucket is empty; the probe loops of `find`, of `emplace` (once it has reserved room) and
of `erase` leave within one turn for each bucket, and the re-insertion of a growth, whose
probe loops are as bounded, returns without growing again. -/
theorem Reachable.probe_loops_stop (reachable : Reachable hasher map) :
    (∃ exponent, map.bucketCount = 2 ^ exponent) ∧ 2 * map.size ≤ map.bucketCount ∧
      (∃ idx < map.bucketCount, (map.bucket idx).1 = map.emptyKey) ∧
      (∀ key ≠ map.emptyKey,
        (∃ it, loop (map.findTurn key) map.bucketCount (map.keyToIdx hasher key) = some it) ∧
        ∀ value, ∃ room, map.reserveWith (grow hasher 1) ((map.size + 1) * 2) = some room ∧
          ∃ result, loop (room.emplaceTurn key value) room.bucketCount
            (room.keyToIdx hasher key) = some result) ∧
      (∀ it < map.bucketCount, (map.bucket it).1 ≠ map.emptyKey →
        ∃ next, loop (eraseTurn hasher) map.bucketCount (map, it, map.probeNext it) =
          some next) ∧
      (∃ other, grow hasher 1 map = some other) ∧ ∀ count,
        (∃ other, map.reserve hasher count = some other) ∧
          (max count (map.size * 2) ≤ 2 ^ 63 → ∃ other, map.rehash hasher count = some other) := by
  obtain ⟨entries, standsFor⟩ := reachable.standsFor
  have valid := standsFor.valid
  obtain ⟨free, freeBound, empty⟩ := valid.exists_empty
  refine ⟨valid.pow2, valid.load, ⟨free, freeBound, (slot_eq_none_iff ..).mp empty⟩,
    fun key proper => ⟨?_, fun value => ?_⟩, fun it bound occupied => ?_, ?_, fun count => ⟨?_, ?_⟩⟩
  · obtain ⟨it, found, -⟩ := find_spec valid proper
    exact ⟨it, found⟩
  · obtain ⟨room, reserved, same, enough, -⟩ := reserveWith_spec valid 0
    obtain ⟨result, emplaced, -⟩ := emplaceLoop_spec same.valid value (same.emptyKey ▸ proper)
      (by rw [same.size]; exact enough)
    exact ⟨room, reserved, result, emplaced⟩
  · obtain ⟨next, erased, -⟩ := erase_spec valid bound rfl occupied
    exact ⟨next, erased⟩
  · obtain ⟨other, grown, -⟩ := grow_spec 0 valid
    exact ⟨other, grown⟩
  · obtain ⟨other, reserved, -⟩ := reserve_spec valid count
    exact ⟨other, reserved⟩
  · intro fits
    obtain ⟨other, rehashed, -⟩ := rehash_spec valid fits
    exact ⟨other, rehashed⟩

/-- A map made with one bucket, its first insertion growing it. -/
theorem probe_loops_stop_one_bucket :
    ∃ start next : HashMap Nat String, create 1 0 = some start ∧ start.bucketCount = 1 ∧
      call (fun _ => 5) start (.emplace 3 "a") = some (next, .emplaced (3, "a") true) ∧
      2 * next.size ≤ next.bucketCount ∧
      ∀ key ≠ 0, ∃ it, loop (next.findTurn key) next.bucketCount (next.keyToIdx (fun _ => 5) key) =
        some it := by
  have created : create 1 0 = some (⟨0, [(0, "")], 0⟩ : HashMap Nat String) := rfl
  have emplaced : call (fun _ => 5) (⟨0, [(0, "")], 0⟩ : HashMap Nat String) (.emplace 3 "a") =
      some (⟨0, [(0, ""), (3, "a")], 1⟩, .emplaced (3, "a") true) := rfl
  have proper : Call.KeyIs (· ≠ (0 : Nat)) (Call.emplace 3 "a") := Nat.succ_ne_zero 2
  obtain ⟨-, load, -, stops, -⟩ := Reachable.probe_loops_stop
    (.call (.create (by decide) created) proper emplaced)
  exact ⟨_, _, created, rfl, emplaced, load, fun key proper => (stops key proper).1⟩

end HashMap

end ObLib
