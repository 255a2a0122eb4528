/-
This file is a ledger: a list of records with different ids, in no order that matters,
which are grouped and whose amounts are read group by group.

What a component keeps as running totals is stated against such a ledger. Replacing
or removing a record is taking it out by its id, and the one fact behind every such
step is that a record taken out and put back in front is a permutation.
-/

import Mathlib.Algebra.Ring.Int.Defs
import Mathlib.Data.List.Nodup
import Mathlib.Data.List.Perm.Basic

namespace Ledgers

section Records

variable {Record Id : Type} [DecidableEq Id] (idOf : Record → Id)

/-- No two records have the same id. -/
def Distinct (records : List Record) : Prop := (records.map idOf).Nodup

/-- The record of an id. -/
def recordOf (records : List Record) (id : Id) : Option Record :=
  records.find? fun record => idOf record = id

/-- The records of the other ids. -/
def without (records : List Record) (id : Id) : List Record :=
  records.filter fun record => idOf record ≠ id

variable {idOf} {records : List Record} {id : Id} {record : Record}

theorem recordOf_some (found : recordOf idOf records id = some record) :
    record ∈ records ∧ idOf record = id :=
  ⟨List.mem_of_find?_eq_some found, by simpa [recordOf] using List.find?_some found⟩

theorem recordOf_eq_some_iff (distinct : Distinct idOf records) :
    recordOf idOf records id = some record ↔ record ∈ records ∧ idOf record = id := by
  refine ⟨recordOf_some, fun ⟨member, same⟩ => ?_⟩
  cases found : recordOf idOf records id with
  | none =>
    have missed := List.find?_eq_none.mp found record member
    simp [same] at missed
  | some other =>
    obtain ⟨otherMember, otherSame⟩ := recordOf_some found
    rw [List.inj_on_of_nodup_map distinct otherMember member (otherSame.trans same.symm)]

theorem recordOf_eq_none_iff :
    recordOf idOf records id = none ↔ ∀ record ∈ records, idOf record ≠ id := by
  simp [recordOf]

theorem without_of_absent (absent : recordOf idOf records id = none) :
    without idOf records id = records :=
  List.filter_eq_self.mpr fun record member => by
    simpa using recordOf_eq_none_iff.mp absent record member

theorem distinct_without (distinct : Distinct idOf records) (id : Id) :
    Distinct idOf (without idOf records id) :=
  distinct.sublist (List.filter_sublist.map idOf)

theorem distinct_cons (distinct : Distinct idOf records)
    (fresh : recordOf idOf records (idOf record) = none) : Distinct idOf (record :: records) := by
  refine List.nodup_cons.mpr ⟨?_, distinct⟩
  intro member
  obtain ⟨other, otherMember, same⟩ := List.mem_map.mp member
  exact recordOf_eq_none_iff.mp fresh other otherMember same

theorem recordOf_without (records : List Record) (id other : Id) :
    recordOf idOf (without idOf records id) other =
      if other = id then none else recordOf idOf records other := by
  unfold recordOf without
  rw [List.find?_filter]
  split_ifs with same
  · simp [same]
  · refine congrArg (List.find? · records) (funext fun record => ?_)
    by_cases here : idOf record = other
    · simp [here, same]
    · simp [here]

theorem recordOf_cons (record : Record) (records : List Record) (other : Id) :
    recordOf idOf (record :: records) other =
      if other = idOf record then some record else recordOf idOf records other := by
  unfold recordOf
  rw [List.find?_cons]
  by_cases same : other = idOf record
  · simp [same]
  · simp [same, Ne.symm same]

theorem recordOf_perm {others : List Record} (distinct : Distinct idOf records)
    (perm : records.Perm others) (id : Id) :
    recordOf idOf records id = recordOf idOf others id := by
  have again : Distinct idOf others := (perm.map idOf).nodup_iff.mp distinct
  refine Option.ext fun record => ?_
  rw [recordOf_eq_some_iff distinct, recordOf_eq_some_iff again, perm.mem_iff]

theorem recordOf_filter (distinct : Distinct idOf records) (kept : Record → Bool) (id : Id) :
    recordOf idOf (records.filter kept) id = (recordOf idOf records id).filter kept := by
  have again : Distinct idOf (records.filter kept) :=
    distinct.sublist (List.filter_sublist.map idOf)
  refine Option.ext fun record => ?_
  rw [recordOf_eq_some_iff again, List.mem_filter, Option.filter_eq_some_iff,
    recordOf_eq_some_iff distinct, and_right_comm]

/-- Records that are carried to others with their ids. -/
theorem recordOf_map {Other : Type} {otherId : Other → Id} {carry : Record → Other}
    (sameId : ∀ record, otherId (carry record) = idOf record) (records : List Record) (id : Id) :
    recordOf otherId (records.map carry) id = (recordOf idOf records id).map carry := by
  unfold recordOf
  rw [List.find?_map]
  simp only [Function.comp_def, sameId]

/-- A record taken out by its id and put back in front. -/
theorem perm_cons_without (distinct : Distinct idOf records)
    (found : recordOf idOf records id = some record) :
    records.Perm (record :: without idOf records id) := by
  refine (List.perm_ext_iff_of_nodup (List.Nodup.of_map _ distinct) ?_).mpr fun other => ?_
  · refine List.nodup_cons.mpr ⟨?_, List.Nodup.of_map _ (distinct_without distinct id)⟩
    intro member
    have kept := (List.mem_filter.mp member).2
    simp [(recordOf_some found).2] at kept
  · rw [List.mem_cons, without, List.mem_filter, decide_eq_true_eq]
    constructor
    · intro member
      by_cases same : idOf other = id
      · have alike := (recordOf_eq_some_iff distinct).mpr ⟨member, same⟩
        exact .inl (Option.some.inj (alike.symm.trans found))
      · exact .inr ⟨member, same⟩
    · rintro (rfl | ⟨member, -⟩)
      · exact (recordOf_some found).1
      · exact member

/-- Rewriting the record of an id in its place. -/
theorem perm_map_replace (distinct : Distinct idOf records)
    (found : recordOf idOf records id = some record) (replacement : Record) :
    (records.map fun other => if idOf other = id then replacement else other).Perm
      (replacement :: without idOf records id) := by
  refine ((perm_cons_without distinct found).map _).trans ?_
  rw [List.map_cons, if_pos (recordOf_some found).2]
  have untouched (other : Record) (member : other ∈ without idOf records id) :
      (if idOf other = id then replacement else other) = other :=
    if_neg (by simpa using (List.mem_filter.mp member).2)
  rw [List.map_congr_left untouched, List.map_id']

end Records

/-! ### Maps from ids -/

/-- The records of a map whose keys are the ids of its records. -/
structure IdMap {Record Id : Type} (idOf : Record → Id) where
  records : List Record
  distinct : Distinct idOf records

namespace IdMap

variable {Record Id : Type} {idOf : Record → Id}

def empty : IdMap idOf := ⟨[], List.nodup_nil⟩

variable [DecidableEq Id]

def find (map : IdMap idOf) (id : Id) : Option Record := recordOf idOf map.records id

def erase (map : IdMap idOf) (id : Id) : IdMap idOf :=
  ⟨without idOf map.records id, distinct_without map.distinct id⟩

/-- Inserts a record, unless there is one of its id. -/
def insert (map : IdMap idOf) (record : Record) : IdMap idOf :=
  if absent : recordOf idOf map.records (idOf record) = none then
    ⟨record :: map.records, distinct_cons map.distinct absent⟩
  else map

/-- Writes a record in the place of the one of its id. -/
def write (map : IdMap idOf) (record : Record) : IdMap idOf :=
  (map.erase (idOf record)).insert record

variable {map : IdMap idOf} {record : Record}

theorem find_erase (map : IdMap idOf) (id other : Id) :
    (map.erase id).find other = if other = id then none else map.find other :=
  recordOf_without map.records id other

theorem records_insert (absent : map.find (idOf record) = none) :
    (map.insert record).records = record :: map.records :=
  congrArg records (dif_pos absent)

theorem find_insert (absent : map.find (idOf record) = none) (other : Id) :
    (map.insert record).find other = if other = idOf record then some record else map.find other := by
  unfold find
  rw [records_insert absent]
  exact recordOf_cons record map.records other

theorem records_write (map : IdMap idOf) (record : Record) :
    (map.write record).records = record :: (map.erase (idOf record)).records :=
  records_insert (by rw [find_erase, if_pos rfl])

theorem find_write (map : IdMap idOf) (record : Record) (other : Id) :
    (map.write record).find other = if other = idOf record then some record else map.find other := by
  unfold write
  rw [find_insert (by rw [find_erase, if_pos rfl]), find_erase]
  split_ifs <;> rfl

theorem perm_erase {id : Id} (found : map.find id = some record) :
    map.records.Perm (record :: (map.erase id).records) :=
  perm_cons_without map.distinct found

end IdMap

/-! ### Amounts by group -/

section Amounts

variable {Record Group : Type} [DecidableEq Group] (groupOf : Record → Group)
  (amountOf : Record → Int)

/-- The amounts of the records of a group. -/
def amountsAt (records : List Record) (group : Group) : List Int :=
  (records.filter fun record => groupOf record = group).map amountOf

variable {groupOf} {amountOf}

theorem amountsAt_cons (record : Record) (records : List Record) (group : Group) :
    amountsAt groupOf amountOf (record :: records) group =
      if groupOf record = group then
        amountOf record :: amountsAt groupOf amountOf records group
      else amountsAt groupOf amountOf records group := by
  unfold amountsAt
  rw [List.filter_cons]
  split_ifs <;> simp_all

theorem amountsAt_perm {records others : List Record} (perm : records.Perm others)
    (group : Group) :
    (amountsAt groupOf amountOf records group).Perm (amountsAt groupOf amountOf others group) :=
  (perm.filter _).map _

/-- The amounts of records are those of what the records carry. -/
theorem amountsAt_map {Source : Type} (carry : Source → Record) (sources : List Source)
    (group : Group) :
    amountsAt groupOf amountOf (sources.map carry) group =
      amountsAt (groupOf ∘ carry) (amountOf ∘ carry) sources group := by
  simp [amountsAt, List.filter_map, Function.comp_def]

theorem mem_amountsAt {records : List Record} {group : Group} {amount : Int} :
    amount ∈ amountsAt groupOf amountOf records group ↔
      ∃ record ∈ records, groupOf record = group ∧ amountOf record = amount := by
  simp [amountsAt, and_assoc]

theorem sum_amountsAt_cons (record : Record) (records : List Record) (group : Group) :
    (amountsAt groupOf amountOf (record :: records) group).sum =
      (if groupOf record = group then amountOf record else 0) +
        (amountsAt groupOf amountOf records group).sum := by
  rw [amountsAt_cons]
  split_ifs
  · exact List.sum_cons
  · exact (Int.zero_add _).symm

/-- A group has an amount when it has a record. -/
theorem amountsAt_ne_nil_iff {records : List Record} {group : Group} :
    amountsAt groupOf amountOf records group ≠ [] ↔ ∃ record ∈ records, groupOf record = group := by
  simp [amountsAt]

end Amounts

end Ledgers
