/-
This file is a map kept as a list of entries in the strict order of its keys: what
the ordered containers of C++ are to the code that uses them, whatever the tree or
vector behind them.

The order is a parameter, so one map serves the ascending and the descending
containers. A map carries the proof that it is sorted, hence no key occurs twice and
two maps with the same values under the same keys are equal. An iterator to an entry
is its key; its position is the number of entries before it (`rank`), which does not
change when the entry itself is inserted, written or erased.
-/

import Mathlib.Data.List.Nodup
import Mathlib.Data.List.Perm.Basic
import Mathlib.Order.RelClasses
import Mathlib.Logic.Function.Basic

namespace Containers

/-- A list of entries in the strict order of their keys. -/
structure OrderedMap (Key Value : Type) (before : Key → Key → Prop) where
  entries : List (Key × Value)
  sorted : entries.Pairwise fun first second => before first.1 second.1
deriving DecidableEq, Repr

namespace OrderedMap

variable {Key Value : Type} {before : Key → Key → Prop}

theorem ext_entries {map other : OrderedMap Key Value before}
    (same : map.entries = other.entries) : map = other := by
  cases map
  cases other
  simpa using same

/-- The map with no entries. -/
def empty : OrderedMap Key Value before := ⟨[], List.Pairwise.nil⟩

/-- The number of entries. -/
def size (map : OrderedMap Key Value before) : Nat := map.entries.length

/-! ### Operations -/

section Operations

variable [DecidableEq Key]

/-- The value under a key. -/
def get (map : OrderedMap Key Value before) (key : Key) : Option Value :=
  (map.entries.find? fun entry => entry.1 = key).map Prod.snd

/-- Rewrites the value under a key, if there is one. -/
def modify (map : OrderedMap Key Value before) (key : Key) (change : Value → Value) :
    OrderedMap Key Value before where
  entries := map.entries.map fun entry => if entry.1 = key then (key, change entry.2) else entry
  sorted := by
    rw [List.pairwise_map]
    refine map.sorted.imp fun {first second} order => ?_
    split_ifs with firstKey secondKey <;> simp_all

/-- Removes the entry of a key, if there is one. -/
def erase (map : OrderedMap Key Value before) (key : Key) : OrderedMap Key Value before where
  entries := map.entries.filter fun entry => entry.1 ≠ key
  sorted := map.sorted.filter _

variable [DecidableRel before]

/-- The number of entries before a key: the position of its entry, and where it would go. -/
def rank (map : OrderedMap Key Value before) (key : Key) : Nat :=
  map.entries.countP fun entry => before entry.1 key

variable [IsStrictTotalOrder Key before]

/-- Adds an entry at its place; an entry already there stays as it is. -/
def insert (map : OrderedMap Key Value before) (key : Key) (value : Value) :
    OrderedMap Key Value before :=
  if present : key ∈ map.entries.map Prod.fst then map
  else
    { entries := map.entries.filter (fun entry => before entry.1 key) ++
        (key, value) :: map.entries.filter fun entry => ¬ before entry.1 key
      sorted := by
        have behind : ∀ entry ∈ map.entries, ¬ before entry.1 key → before key entry.1 := by
          intro entry member notBefore
          refine (trichotomous_of before key entry.1).resolve_right ?_
          rintro (rfl | less)
          · exact present (List.mem_map_of_mem member)
          · exact notBefore less
        refine List.pairwise_append.mpr ⟨map.sorted.filter _,
          List.pairwise_cons.mpr ⟨?_, map.sorted.filter _⟩, ?_⟩
        · intro entry member
          obtain ⟨inMap, notBefore⟩ := List.mem_filter.mp member
          exact behind entry inMap (by simpa using notBefore)
        · intro first firstMember second secondMember
          have firstBefore : before first.1 key := by
            simpa using (List.mem_filter.mp firstMember).2
          rcases List.mem_cons.mp secondMember with rfl | later
          · exact firstBefore
          · obtain ⟨inMap, notBefore⟩ := List.mem_filter.mp later
            exact trans_of before firstBefore (behind second inMap (by simpa using notBefore)) }

end Operations

/-! ### Keys and values -/

variable {map : OrderedMap Key Value before}

theorem nodup_keys [IsStrictTotalOrder Key before] (map : OrderedMap Key Value before) :
    (map.entries.map Prod.fst).Nodup := by
  unfold List.Nodup
  rw [List.pairwise_map]
  refine map.sorted.imp fun {first second} order same => ?_
  rw [same] at order
  exact irrefl_of before second.1 order

/-- The last entry comes after every other. -/
theorem before_of_getLast? {entry other : Key × Value} (last : map.entries.getLast? = some entry)
    (member : other ∈ map.entries) : other = entry ∨ before other.1 entry.1 := by
  obtain ⟨init, split⟩ := List.getLast?_eq_some_iff.mp last
  have sorted := map.sorted
  rw [split, List.mem_append, List.mem_singleton] at member
  rw [split, List.pairwise_append] at sorted
  exact member.symm.imp_right fun early => sorted.2.2 other early entry (List.mem_singleton_self _)

variable [DecidableEq Key]

variable [IsStrictTotalOrder Key before]

theorem get_eq_some_iff {key : Key} {value : Value} :
    map.get key = some value ↔ (key, value) ∈ map.entries := by
  unfold get
  constructor
  · intro found
    obtain ⟨entry, first, rfl⟩ := Option.map_eq_some_iff.mp found
    have sameKey : entry.1 = key := by simpa using List.find?_some first
    exact sameKey ▸ List.mem_of_find?_eq_some first
  · intro member
    cases first : map.entries.find? fun entry => entry.1 = key with
    | none =>
      have missed := List.find?_eq_none.mp first _ member
      simp at missed
    | some entry =>
      have sameKey : entry.1 = key := by simpa using List.find?_some first
      rw [List.inj_on_of_nodup_map map.nodup_keys (List.mem_of_find?_eq_some first) member sameKey]
      rfl

theorem get_eq_none_iff {key : Key} : map.get key = none ↔ key ∉ map.entries.map Prod.fst := by
  rw [Option.eq_none_iff_forall_ne_some]
  constructor
  · rintro absent member
    obtain ⟨entry, inMap, rfl⟩ := List.mem_map.mp member
    exact absent entry.2 (get_eq_some_iff.mpr inMap)
  · rintro absent value found
    exact absent (List.mem_map.mpr ⟨_, get_eq_some_iff.mp found, rfl⟩)

/-- Two maps with the same value under every key are equal. -/
theorem ext {other : OrderedMap Key Value before} (same : ∀ key, map.get key = other.get key) :
    map = other := by
  refine ext_entries (List.Perm.eq_of_pairwise (fun first second _ _ order reverse => ?_)
    map.sorted other.sorted ?_)
  · exact absurd reverse (asymm_of before order)
  · refine (List.perm_ext_iff_of_nodup (List.Nodup.of_map _ map.nodup_keys)
      (List.Nodup.of_map _ other.nodup_keys)).mpr ?_
    rintro ⟨key, value⟩
    rw [← get_eq_some_iff, ← get_eq_some_iff, same]

theorem get_modify (change : Value → Value) (key other : Key) :
    (map.modify key change).get other =
      if other = key then (map.get key).map change else map.get other := by
  refine Option.ext fun value => ?_
  rw [get_eq_some_iff]
  show (other, value) ∈ map.entries.map _ ↔ _
  rw [List.mem_map]
  constructor
  · rintro ⟨⟨entryKey, entryValue⟩, member, changed⟩
    split_ifs at changed with here <;>
      simp only [Prod.mk.injEq] at changed here <;> obtain ⟨rfl, rfl⟩ := changed
    · rw [if_pos rfl, ← here, get_eq_some_iff.mpr member]
      rfl
    · rw [if_neg here]
      exact get_eq_some_iff.mpr member
  · intro found
    split_ifs at found with here
    · obtain ⟨old, stored, rfl⟩ := Option.map_eq_some_iff.mp found
      exact ⟨(key, old), get_eq_some_iff.mp stored, by rw [if_pos rfl, here]⟩
    · exact ⟨(other, value), get_eq_some_iff.mp found, by rw [if_neg here]⟩

theorem get_erase (key other : Key) :
    (map.erase key).get other = if other = key then none else map.get other := by
  refine Option.ext fun value => ?_
  rw [get_eq_some_iff]
  show (other, value) ∈ map.entries.filter _ ↔ _
  rw [List.mem_filter, decide_eq_true_eq]
  split_ifs with here
  · simp [here]
  · rw [get_eq_some_iff]
    exact and_iff_left here

omit [IsStrictTotalOrder Key before] in
theorem size_erase_lt {key : Key} {value : Value} (held : map.get key = some value) :
    (map.erase key).size < map.size := by
  obtain ⟨entry, found, -⟩ := Option.map_eq_some_iff.mp held
  refine List.length_filter_lt_length_iff_exists.mpr
    ⟨entry, List.mem_of_find?_eq_some found, ?_⟩
  have here := List.find?_some found
  simpa using here

variable [DecidableRel before]

theorem get_insert (key other : Key) (value : Value) :
    (map.insert key value).get other =
      if other = key then some ((map.get key).getD value) else map.get other := by
  unfold insert
  split_ifs with present here here
  · obtain ⟨entry, member, rfl⟩ := List.mem_map.mp present
    rw [here, get_eq_some_iff.mpr member]
    rfl
  · rfl
  · refine get_eq_some_iff.mpr ?_
    rw [get_eq_none_iff.mpr present, Option.getD_none, here]
    exact List.mem_append_right _ List.mem_cons_self
  · refine Option.ext fun found => ?_
    rw [get_eq_some_iff, get_eq_some_iff]
    simp only [List.mem_append, List.mem_filter, List.mem_cons, Prod.mk.injEq, here, false_and,
      false_or, decide_eq_true_eq]
    by_cases order : before other key <;> simp [order]

/-- A new key adds its entry to those there. -/
theorem insert_perm {key : Key} (absent : key ∉ map.entries.map Prod.fst) (value : Value) :
    (map.insert key value).entries.Perm ((key, value) :: map.entries) := by
  unfold insert
  rw [dif_neg absent]
  simp only [decide_not]
  exact List.perm_middle.trans ((List.filter_append_perm _ _).cons _)

/-- Every entry is the inserted one or was there before. -/
theorem mem_insert {key : Key} {value : Value} {entry : Key × Value}
    (member : entry ∈ (map.insert key value).entries) :
    entry = (key, value) ∨ entry ∈ map.entries := by
  by_cases present : key ∈ map.entries.map Prod.fst
  · unfold insert at member
    rw [dif_pos present] at member
    exact .inr member
  · exact List.mem_cons.mp ((insert_perm present value).mem_iff.mp member)

/-- An entry is at the front when no other entry is before it. -/
theorem rank_eq_zero_iff {key : Key} :
    map.rank key = 0 ↔ ∀ other value, map.get other = some value → ¬ before other key := by
  unfold rank
  rw [List.countP_eq_zero]
  constructor
  · intro front other value stored order
    exact front _ (get_eq_some_iff.mp stored) (by simpa using order)
  · rintro front ⟨other, value⟩ member order
    exact front other value (get_eq_some_iff.mpr member) (by simpa using order)

end OrderedMap

end Containers
