/-
This file says where the entries of an ordered map stand: the rank of a key is the
position of its entry, an insertion moves the entries behind it by one and an erasure
moves them back, and the entries from a position on are an ordered map again, which
the operations behind that position act on.
-/

import OrderBookSketch.Library.OrderedMap

namespace Containers

namespace OrderedMap

variable {Key Value : Type} {before : Key → Key → Prop}

/-! ### Ranks -/

section Ranks

variable [DecidableRel before] {map : OrderedMap Key Value before}

theorem length_filter_before (map : OrderedMap Key Value before) (key : Key) :
    (map.entries.filter fun entry => before entry.1 key).length = map.rank key :=
  List.countP_eq_length_filter.symm

theorem rank_le_length (map : OrderedMap Key Value before) (key : Key) :
    map.rank key ≤ map.entries.length := List.countP_le_length

variable [IsStrictTotalOrder Key before]

/-- A map is the entries before a key and then the others. -/
theorem entries_eq_append (map : OrderedMap Key Value before) (key : Key) :
    map.entries = map.entries.filter (fun entry => before entry.1 key) ++
      map.entries.filter fun entry => ¬ before entry.1 key := by
  refine List.Perm.eq_of_pairwise (fun first second _ _ order reverse => ?_) map.sorted ?_
    (List.Perm.symm ?_)
  · exact absurd reverse (asymm_of before order)
  · refine List.pairwise_append.mpr ⟨map.sorted.filter _, map.sorted.filter _, ?_⟩
    intro first firstMember second secondMember
    have front : before first.1 key := by simpa using (List.mem_filter.mp firstMember).2
    have behind : ¬ before second.1 key := by simpa using (List.mem_filter.mp secondMember).2
    rcases trichotomous_of before key second.1 with later | same | earlier
    · exact trans_of before front later
    · exact same ▸ front
    · exact absurd earlier behind
  · simpa using List.filter_append_perm (fun entry => decide (before entry.1 key)) map.entries

/-- The entries before a key are those whose position is below its rank. -/
theorem before_iff_lt_rank {idx : Nat} {entry : Key × Value}
    (here : map.entries[idx]? = some entry) (key : Key) :
    before entry.1 key ↔ idx < map.rank key := by
  rw [map.entries_eq_append key] at here
  rcases Nat.lt_or_ge idx (map.rank key) with front | behind
  · rw [List.getElem?_append_left (by rwa [length_filter_before])] at here
    have member := (List.mem_filter.mp (List.mem_of_getElem? here)).2
    exact iff_of_true (by simpa using member) front
  · rw [List.getElem?_append_right (by rwa [length_filter_before])] at here
    have member := (List.mem_filter.mp (List.mem_of_getElem? here)).2
    exact iff_of_false (by simpa using member) (Nat.not_lt.mpr behind)

/-- The rank of a key with an entry is the position of the entry. -/
theorem rank_eq_of_getElem? {idx : Nat} {key : Key} {value : Value}
    (here : map.entries[idx]? = some (key, value)) : map.rank key = idx := by
  refine Nat.le_antisymm (Nat.not_lt.mp fun front => ?_) (Nat.not_lt.mp fun behind => ?_)
  · exact irrefl_of before key ((before_iff_lt_rank here key).mpr front)
  · -- the entry at the rank would be before the key, hence below the rank
    have bound := (List.getElem?_eq_some_iff.mp here).1
    have there := List.getElem?_eq_getElem (Nat.lt_trans behind bound)
    have order := List.pairwise_iff_getElem.mp map.sorted (map.rank key) idx
      (Nat.lt_trans behind bound) bound behind
    rw [(List.getElem?_eq_some_iff.mp here).2] at order
    exact Nat.lt_irrefl _ ((before_iff_lt_rank there key).mp order)

variable [DecidableEq Key]

theorem getElem?_rank {key : Key} {value : Value} (held : map.get key = some value) :
    map.entries[map.rank key]? = some (key, value) := by
  obtain ⟨idx, here⟩ := List.mem_iff_getElem?.mp (get_eq_some_iff.mp held)
  rw [rank_eq_of_getElem? here]
  exact here

/-- The rank of a key depends on the keys before it only. -/
theorem rank_congr {Other : Type} {other : OrderedMap Key Other before} {key : Key}
    (same : ∀ front, before front key → ((map.get front).isSome ↔ (other.get front).isSome)) :
    map.rank key = other.rank key := by
  have keys {Value : Type} (map : OrderedMap Key Value before) (front : Key) :
      front ∈ (map.entries.filter fun entry => before entry.1 key).map Prod.fst ↔
        before front key ∧ (map.get front).isSome := by
    rw [Option.isSome_iff_exists, List.mem_map]
    constructor
    · rintro ⟨entry, member, rfl⟩
      obtain ⟨inMap, order⟩ := List.mem_filter.mp member
      exact ⟨by simpa using order, entry.2, get_eq_some_iff.mpr inMap⟩
    · rintro ⟨order, value, held⟩
      exact ⟨(front, value), List.mem_filter.mpr ⟨get_eq_some_iff.mp held, by simpa using order⟩,
        rfl⟩
  have nodup {Value : Type} (map : OrderedMap Key Value before) :
      ((map.entries.filter fun entry => before entry.1 key).map Prod.fst).Nodup :=
    map.nodup_keys.sublist (List.filter_sublist.map _)
  have perm := (List.perm_ext_iff_of_nodup (nodup map) (nodup other)).mpr fun front => by
    rw [keys, keys]
    exact and_congr_right (same front)
  have length := perm.length_eq
  rwa [List.length_map, List.length_map, length_filter_before, length_filter_before] at length

/-- Of two keys at one rank, at most one has an entry. -/
theorem get_eq_none_of_rank_eq {key other : Key} {value : Value} (held : map.get key = some value)
    (same : map.rank other = map.rank key) (different : other ≠ key) : map.get other = none := by
  cases there : map.get other with
  | none => rfl
  | some otherValue =>
    have position := getElem?_rank there
    rw [same, getElem?_rank held] at position
    exact absurd (Prod.mk.inj (Option.some.inj position)).1.symm different

/-- Erasing a key leaves the rank of another that would come to the same place. -/
theorem rank_erase_of_rank_eq {key other : Key} {value : Value} (held : map.get key = some value)
    (same : map.rank other = map.rank key) : (map.erase key).rank other = map.rank other := by
  have notBefore : ¬ before key other := fun less =>
    Nat.lt_irrefl _ (same ▸ (before_iff_lt_rank (getElem?_rank held) other).mp less)
  refine rank_congr fun front less => ?_
  have apart : front ≠ key := fun equal => notBefore (equal ▸ less)
  rw [get_erase, if_neg apart]

@[simp] theorem rank_insert_self (map : OrderedMap Key Value before) (key : Key) (value : Value) :
    (map.insert key value).rank key = map.rank key := by
  refine rank_congr fun front order => ?_
  rw [get_insert, if_neg]
  rintro rfl
  exact irrefl_of before front order

@[simp] theorem rank_modify (map : OrderedMap Key Value before) (key other : Key)
    (change : Value → Value) : (map.modify key change).rank other = map.rank other := by
  refine rank_congr fun front _ => ?_
  rw [get_modify]
  split_ifs with same
  · rw [same, Option.isSome_map]
  · rfl

/-! ### Positions after an operation -/

theorem insert_of_present {key : Key} {old : Value} (held : map.get key = some old)
    (value : Value) : map.insert key value = map := by
  unfold insert
  rw [dif_pos (List.mem_map.mpr ⟨_, get_eq_some_iff.mp held, rfl⟩)]

theorem getElem?_insert {key : Key} (absent : map.get key = none) (value : Value) (idx : Nat) :
    (map.insert key value).entries[idx]? =
      if idx < map.rank key then map.entries[idx]?
      else if idx = map.rank key then some (key, value)
      else map.entries[idx - 1]? := by
  have split (idx : Nat) := congrArg (fun entries => entries[idx]?) (map.entries_eq_append key)
  have front := map.length_filter_before key
  unfold insert
  rw [dif_neg (get_eq_none_iff.mp absent)]
  simp only at split ⊢
  split_ifs with less here
  · rw [split, List.getElem?_append_left (by rwa [front]), List.getElem?_append_left (by rwa [front])]
  · rw [List.getElem?_append_right (by omega), front, here, Nat.sub_self, List.getElem?_cons_zero]
  · have behind : idx - map.rank key = idx - 1 - map.rank key + 1 := by omega
    rw [split, List.getElem?_append_right (by omega), List.getElem?_append_right (by omega), front,
      behind, List.getElem?_cons_succ]

theorem entries_erase {key : Key} {value : Value} (held : map.get key = some value) :
    (map.erase key).entries = map.entries.eraseIdx (map.rank key) := by
  refine List.Perm.eq_of_pairwise (fun first second _ _ order reverse => ?_)
    (map.erase key).sorted (map.sorted.sublist (List.eraseIdx_sublist ..)) ?_
  · exact absurd reverse (asymm_of before order)
  · refine (List.perm_ext_iff_of_nodup (List.Nodup.of_map _ (map.erase key).nodup_keys)
      ((List.Nodup.of_map _ map.nodup_keys).sublist (List.eraseIdx_sublist ..))).mpr ?_
    rintro ⟨other, otherValue⟩
    rw [← get_eq_some_iff, get_erase, List.mem_eraseIdx_iff_getElem?]
    constructor
    · intro there
      split_ifs at there with same
      refine ⟨map.rank other, fun equal => ?_, getElem?_rank there⟩
      have both := getElem?_rank there
      rw [equal, getElem?_rank held] at both
      exact same (Prod.mk.inj (Option.some.inj both)).1.symm
    · rintro ⟨idx, different, here⟩
      have rank := rank_eq_of_getElem? here
      rw [if_neg, get_eq_some_iff]
      · exact List.mem_of_getElem? here
      · rintro rfl
        exact different rank.symm

theorem getElem?_erase {key : Key} {value : Value} (held : map.get key = some value) (idx : Nat) :
    (map.erase key).entries[idx]? =
      if idx < map.rank key then map.entries[idx]? else map.entries[idx + 1]? := by
  rw [entries_erase held, List.getElem?_eraseIdx]

theorem getElem?_modify {key : Key} {value : Value} (held : map.get key = some value)
    (change : Value → Value) (idx : Nat) :
    (map.modify key change).entries[idx]? =
      if idx = map.rank key then some (key, change value) else map.entries[idx]? := by
  show (map.entries.map _)[idx]? = _
  rw [List.getElem?_map]
  split_ifs with here
  · rw [here, getElem?_rank held, Option.map_some, if_pos rfl]
  · cases there : map.entries[idx]? with
    | none => rfl
    | some entry =>
      rw [Option.map_some, if_neg]
      rintro rfl
      exact here (rank_eq_of_getElem? there).symm

end Ranks

/-! ### The last entry -/

section Last

variable [DecidableEq Key] [IsStrictTotalOrder Key before] {map next : OrderedMap Key Value before}

/-- The last entry is the one that every other is before. -/
theorem getLast?_eq_some_iff {key : Key} {value : Value} :
    map.entries.getLast? = some (key, value) ↔
      map.get key = some value ∧
        ∀ other otherValue, map.get other = some otherValue → other = key ∨ before other key := by
  constructor
  · intro last
    refine ⟨get_eq_some_iff.mpr (List.mem_of_getLast? last), fun other otherValue held => ?_⟩
    exact (before_of_getLast? last (get_eq_some_iff.mp held)).imp_left (congrArg Prod.fst)
  · rintro ⟨held, behind⟩
    cases last : map.entries.getLast? with
    | none =>
      have member := get_eq_some_iff.mp held
      rw [List.getLast?_eq_none_iff.mp last] at member
      cases member
    | some entry =>
      have inMap := get_eq_some_iff.mpr (List.mem_of_getLast? last)
      rcases before_of_getLast? last (get_eq_some_iff.mp held) with rfl | order
      · rfl
      · rcases behind entry.1 entry.2 inMap with same | reverse
        · exact absurd (same ▸ order) (irrefl_of before _)
        · exact absurd reverse (asymm_of before order)

/-- What is done under one key does not change the last entry, where another is behind it. -/
theorem getLast?_congr {key back : Key} {value : Value}
    (same : ∀ other ≠ key, next.get other = map.get other) (held : map.get back = some value)
    (behind : before key back) : next.entries.getLast? = map.entries.getLast? := by
  cases last : map.entries.getLast? with
  | none =>
    have member := get_eq_some_iff.mp held
    rw [List.getLast?_eq_none_iff.mp last] at member
    cases member
  | some entry =>
    obtain ⟨inMap, front⟩ := getLast?_eq_some_iff.mp last
    have order : before key entry.1 := by
      rcases front back value held with rfl | later
      · exact behind
      · exact trans_of before behind later
    have different : entry.1 ≠ key := fun equal => irrefl_of before key (equal ▸ order)
    refine getLast?_eq_some_iff.mpr ⟨(same entry.1 different).trans inMap, ?_⟩
    intro other otherValue there
    by_cases here : other = key
    · exact .inr (here ▸ order)
    · exact front other otherValue ((same other here).symm.trans there)

/-- The entry of a key that no other is behind is the last. -/
theorem getLast?_of_last {key : Key} {value : Value}
    (same : ∀ other ≠ key, next.get other = map.get other)
    (last : ∀ other otherValue, map.get other = some otherValue → ¬ before key other)
    (held : next.get key = some value) : next.entries.getLast? = some (key, value) := by
  refine getLast?_eq_some_iff.mpr ⟨held, fun other otherValue there => ?_⟩
  rcases trichotomous_of before other key with front | here | behind
  · exact .inr front
  · exact .inl here
  · have different : other ≠ key := fun equal => irrefl_of before key (equal ▸ behind)
    exact absurd behind (last other otherValue ((same other different).symm.trans there))

end Last

/-! ### The entries from a position on -/

/-- The map without its first entries. -/
def tail (map : OrderedMap Key Value before) (count : Nat) : OrderedMap Key Value before where
  entries := map.entries.drop count
  sorted := map.sorted.drop

/-- The map with other values. -/
def mapValues {Other : Type} (map : OrderedMap Key Value before) (change : Value → Other) :
    OrderedMap Key Other before where
  entries := map.entries.map fun entry => (entry.1, change entry.2)
  sorted := List.pairwise_map.mpr map.sorted

section Values

variable [DecidableEq Key] {Other : Type} {map : OrderedMap Key Value before}

@[simp] theorem get_mapValues (map : OrderedMap Key Value before) (change : Value → Other)
    (key : Key) : (map.mapValues change).get key = (map.get key).map change := by
  show (List.find? _ (map.entries.map _)).map _ = _
  rw [List.find?_map, get, Option.map_map, Option.map_map]
  rfl

variable [IsStrictTotalOrder Key before]

theorem mapValues_insert [DecidableRel before] (map : OrderedMap Key Value before) (change : Value → Other) (key : Key)
    (value : Value) :
    (map.insert key value).mapValues change = (map.mapValues change).insert key (change value) := by
  refine OrderedMap.ext fun other => ?_
  simp only [get_mapValues, get_insert]
  split_ifs
  · cases map.get key <;> rfl
  · rfl

theorem mapValues_erase (map : OrderedMap Key Value before) (change : Value → Other) (key : Key) :
    (map.erase key).mapValues change = (map.mapValues change).erase key := by
  refine OrderedMap.ext fun other => ?_
  simp only [get_mapValues, get_erase]
  split_ifs <;> rfl

/-- Rewriting one value and rewriting what is made of it. -/
theorem mapValues_modify {change : Value → Other} {key : Key} {rewrite : Value → Value}
    (rewriteOther : Other → Other)
    (same : ∀ value, map.get key = some value → change (rewrite value) = rewriteOther (change value)) :
    (map.modify key rewrite).mapValues change = (map.mapValues change).modify key rewriteOther := by
  refine OrderedMap.ext fun other => ?_
  simp only [get_mapValues, get_modify]
  split_ifs
  · cases held : map.get key with
    | none => rfl
    | some value => simp [same value held]
  · rfl

end Values

section Tail

variable [DecidableEq Key] [DecidableRel before] [IsStrictTotalOrder Key before]
  {map : OrderedMap Key Value before} {key : Key} {count : Nat}

theorem get_tail (map : OrderedMap Key Value before) (count : Nat) (key : Key) :
    (map.tail count).get key = if count ≤ map.rank key then map.get key else none := by
  refine Option.ext fun value => ?_
  rw [get_eq_some_iff]
  show (key, value) ∈ map.entries.drop count ↔ _
  rw [List.mem_iff_getElem?]
  constructor
  · rintro ⟨idx, here⟩
    rw [List.getElem?_drop] at here
    rw [rank_eq_of_getElem? here, if_pos (Nat.le_add_right ..), get_eq_some_iff]
    exact List.mem_of_getElem? here
  · intro held
    split_ifs at held with behind
    refine ⟨map.rank key - count, ?_⟩
    rw [List.getElem?_drop, Nat.add_sub_cancel' behind]
    exact getElem?_rank held

omit [DecidableEq Key] in
theorem rank_tail (behind : count ≤ map.rank key) :
    (map.tail count).rank key = map.rank key - count := by
  have front := map.length_filter_before key
  show (map.entries.drop count).countP _ = _
  conv_lhs => rw [map.entries_eq_append key]
  rw [List.drop_append_of_le_length (by rwa [front]), List.countP_append,
    List.countP_eq_length.mpr, List.countP_eq_zero.mpr, List.length_drop, front, Nat.add_zero]
  · intro entry member
    simpa using (List.mem_filter.mp member).2
  · intro entry member
    exact (List.mem_filter.mp (List.mem_of_mem_drop member)).2

theorem tail_insert (absent : map.get key = none) (value : Value)
    (behind : count ≤ map.rank key) :
    (map.insert key value).tail count = (map.tail count).insert key value := by
  have absentBehind : (map.tail count).get key = none := by rw [get_tail, if_pos behind, absent]
  refine ext_entries (List.ext_getElem? fun idx => ?_)
  rw [getElem?_insert absentBehind, rank_tail behind]
  show ((map.insert key value).entries.drop count)[idx]? =
    if _ then (map.entries.drop count)[idx]? else if _ then _ else (map.entries.drop count)[idx - 1]?
  rw [List.getElem?_drop, getElem?_insert absent, List.getElem?_drop, List.getElem?_drop]
  have front : idx < map.rank key - count ↔ count + idx < map.rank key := by omega
  have here : idx = map.rank key - count ↔ count + idx = map.rank key := by omega
  simp only [front, here]
  split_ifs
  · rfl
  · rfl
  · exact congrArg (fun idx => map.entries[idx]?) (by omega)

theorem tail_erase {value : Value} (held : map.get key = some value)
    (behind : count ≤ map.rank key) : (map.erase key).tail count = (map.tail count).erase key := by
  have heldBehind : (map.tail count).get key = some value := by rw [get_tail, if_pos behind, held]
  refine ext_entries (List.ext_getElem? fun idx => ?_)
  rw [getElem?_erase heldBehind, rank_tail behind]
  show ((map.erase key).entries.drop count)[idx]? =
    if _ then (map.entries.drop count)[idx]? else (map.entries.drop count)[idx + 1]?
  rw [List.getElem?_drop, getElem?_erase held, List.getElem?_drop, List.getElem?_drop]
  have front : idx < map.rank key - count ↔ count + idx < map.rank key := by omega
  simp only [front]
  rfl

omit [DecidableRel before] [IsStrictTotalOrder Key before] in
theorem tail_modify (map : OrderedMap Key Value before) (count : Nat) (key : Key)
    (change : Value → Value) :
    (map.modify key change).tail count = (map.tail count).modify key change :=
  ext_entries List.map_drop.symm

omit [DecidableRel before] in
theorem modify_of_absent (absent : map.get key = none) (change : Value → Value) :
    map.modify key change = map := by
  refine OrderedMap.ext fun other => ?_
  rw [get_modify, absent]
  split_ifs with same
  · rw [same, absent]
    rfl
  · rfl

/-- An insertion in front of a position moves the last entry in front of it behind it. -/
theorem drop_insert (absent : map.get key = none) (value : Value) (front : map.rank key < count) :
    (map.insert key value).entries.drop count = map.entries.drop (count - 1) := by
  refine List.ext_getElem? fun idx => ?_
  rw [List.getElem?_drop, List.getElem?_drop, getElem?_insert absent, if_neg (by omega),
    if_neg (by omega)]
  exact congrArg (fun idx => map.entries[idx]?) (by omega)

/-- An erasure in front of a position moves the first entry behind it in front of it. -/
theorem drop_erase {value : Value} (held : map.get key = some value)
    (front : map.rank key < count) :
    (map.erase key).entries.drop count = map.entries.drop (count + 1) := by
  refine List.ext_getElem? fun idx => ?_
  rw [List.getElem?_drop, List.getElem?_drop, getElem?_erase held, if_neg (by omega)]
  exact congrArg (fun idx => map.entries[idx]?) (by omega)

/-- A key before every entry is inserted at the front. -/
theorem entries_insert_front (first : ∀ entry ∈ map.entries, before key entry.1) (value : Value) :
    (map.insert key value).entries = (key, value) :: map.entries := by
  have absent : map.get key = none := get_eq_none_iff.mpr fun member => by
    obtain ⟨entry, inMap, same⟩ := List.mem_map.mp member
    exact irrefl_of before key (same ▸ first entry inMap)
  have front : map.rank key = 0 := rank_eq_zero_iff.mpr fun other value held order =>
    asymm_of before order (first _ (get_eq_some_iff.mp held))
  refine List.ext_getElem? fun idx => ?_
  rw [getElem?_insert absent, front, if_neg (Nat.not_lt_zero idx)]
  cases idx <;> rfl

/-- Erasing the key of the first entry leaves the others. -/
theorem entries_erase_head {value : Value} (first : map.entries.head? = some (key, value)) :
    (map.erase key).entries = map.entries.tail := by
  have here : map.entries[0]? = some (key, value) := by rw [← List.head?_eq_getElem?, first]
  have held := get_eq_some_iff.mpr (List.mem_of_head? first)
  rw [entries_erase held, rank_eq_of_getElem? here, List.eraseIdx_zero]

end Tail

end OrderedMap

end Containers
