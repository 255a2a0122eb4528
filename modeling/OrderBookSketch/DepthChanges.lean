/-
This file proves that the change stamps of a depth miss nothing: after any calls behind
a publication, whether they find their prices or throw, every slot that shows something
else than at the publication is stamped later than it. So a subscriber that copies the
stamped slots at each publication holds what the depth shows.

The one fact about a call is that it leaves a slot and its stamp as they are, or stamps
it with one of the changes it makes, of which there are three at most. It needs that no
slot is empty in front of a level: copying an empty level does not stamp the slot it is
copied to. The counter comes round after 2^32 changes, so a stamp is later than another
only as long as the changes from it on stay below the largest value of the counter.
-/

import OrderBookSketch.DepthSlots
import OrderBookSketch.Library.Run

namespace ObLib

open Containers Runs

namespace DepthSide

variable {isBid : Bool} {size : Nat} {side next last : DepthSide isBid}
  {lastChanged nextChanged : ChangeId} {price : Price}

/-! ### Counting changes -/

/-- A counter that does not pass its largest value is later after some changes. -/
theorem lt_add_ofNat {change : ChangeId} {count : Nat} (positive : 0 < count)
    (fits : change.toInt + count < 2 ^ 31) : change < change + Int32.ofNat count := by
  have least := change.le_toInt
  have sum : (change + Int32.ofNat count).toInt = change.toInt + count := by
    rw [Int32.toInt_add, Int32.toInt_ofNat', show Int32.size = 2 ^ 32 from rfl,
      Int.add_bmod_bmod]
    exact Int.bmod_eq_of_le (by omega) (by omega)
  rw [Int32.lt_iff_toInt_lt, sum]
  omega

theorem add_ofNat_add (change : ChangeId) (first second : Nat) :
    change + Int32.ofNat first + Int32.ofNat second = change + Int32.ofNat (first + second) := by
  rw [Int32.add_assoc, Int32.ofNat_add]

theorem add_ofNat_succ (change : ChangeId) (changes : Nat) :
    change + Int32.ofNat changes + 1 = change + Int32.ofNat (changes + 1) :=
  add_ofNat_add change changes 1

/-- The changes from one value of the counter to another. -/
def changesBetween (lastChanged nextChanged : ChangeId) : Nat :=
  (nextChanged - lastChanged).toUInt32.toNat

theorem changesBetween_add (lastChanged : ChangeId) {changes : Nat} (few : changes < 2 ^ 32) :
    changesBetween lastChanged (lastChanged + Int32.ofNat changes) = changes := by
  unfold changesBetween
  rw [Int32.add_comm, Int32.add_sub_cancel, Int32.toUInt32_ofNat']
  exact UInt32.toNat_ofNat_of_lt few

/-! ### Stamps -/

/-- The slot shows what it did and has its stamp, or is stamped with one of the changes. -/
def SlotKept (before after : DepthLevel) (lastChanged : ChangeId) (changes : Nat) : Prop :=
  after.content = before.content ∧ after.lastChange = before.lastChange ∨
    ∃ count, 0 < count ∧ count ≤ changes ∧ after.lastChange = lastChanged + Int32.ofNat count

/-- Every slot but the one of a pointer is kept or stamped by the changes that were made. -/
structure StampedBut (size : Nat) (ptr : Option LevelPtr) (side : DepthSide isBid)
    (lastChanged : ChangeId) (next : DepthSide isBid) (nextChanged : ChangeId)
    (changes : Nat) : Prop where
  counted : nextChanged = lastChanged + Int32.ofNat changes
  slots : ∀ idx < size, ptr ≠ some (.slot idx) →
    SlotKept (side.levels idx) (next.levels idx) lastChanged changes

/-- Every slot is kept or stamped. -/
abbrev Stamped (size : Nat) (side : DepthSide isBid) (lastChanged : ChangeId)
    (next : DepthSide isBid) (nextChanged : ChangeId) (changes : Nat) : Prop :=
  StampedBut size none side lastChanged next nextChanged changes

theorem SlotKept.refl (level : DepthLevel) (lastChanged : ChangeId) (changes : Nat) :
    SlotKept level level lastChanged changes := .inl ⟨rfl, rfl⟩

theorem Stamped.refl (size : Nat) (side : DepthSide isBid) (lastChanged : ChangeId) :
    Stamped size side lastChanged side lastChanged 0 :=
  ⟨(Int32.add_zero lastChanged).symm, fun _ _ _ => .refl ..⟩

theorem SlotKept.mono {before after : DepthLevel} {changes more : Nat} (le : changes ≤ more)
    (kept : SlotKept before after lastChanged changes) :
    SlotKept before after lastChanged more :=
  kept.imp_right fun ⟨count, positive, bound, stamp⟩ => ⟨count, positive, bound.trans le, stamp⟩

theorem SlotKept.trans {before between after : DepthLevel} {changes more : Nat}
    (first : SlotKept before between lastChanged changes)
    (second : SlotKept between after (lastChanged + Int32.ofNat changes) more) :
    SlotKept before after lastChanged (changes + more) := by
  rcases second with ⟨content, stamp⟩ | ⟨count, positive, bound, stamp⟩
  · rcases first with ⟨firstContent, firstStamp⟩ | ⟨count, positive, bound, firstStamp⟩
    · exact .inl ⟨content.trans firstContent, stamp.trans firstStamp⟩
    · exact .inr ⟨count, positive, bound.trans (Nat.le_add_right ..), stamp.trans firstStamp⟩
  · exact .inr ⟨changes + count, Nat.add_pos_right _ positive, Nat.add_le_add_left bound _,
      stamp.trans (add_ofNat_add ..)⟩

theorem Stamped.trans {finalChanged : ChangeId} {changes more : Nat}
    (first : Stamped size side lastChanged next nextChanged changes)
    (second : Stamped size next nextChanged last finalChanged more) :
    Stamped size side lastChanged last finalChanged (changes + more) where
  counted := by rw [second.counted, first.counted, add_ofNat_add]
  slots := fun idx bound other =>
    (first.slots idx bound other).trans (first.counted ▸ second.slots idx bound other)

/-- Nothing has happened to the slots yet. -/
theorem stampedBut_self (ptr : LevelPtr) :
    StampedBut size (some ptr) side lastChanged side lastChanged 0 :=
  ⟨(Int32.add_zero lastChanged).symm, fun _ _ _ => .refl ..⟩

/-- Stamping the level of a pointer after a change to it stamps the slot it is in. -/
theorem StampedBut.stamp {ptr : LevelPtr} {changes : Nat}
    (stamped : StampedBut size (some ptr) side lastChanged next nextChanged changes)
    (change : DepthLevel → DepthLevel) :
    Stamped size side lastChanged
      ((next.modify ptr change).modify ptr fun level => level.stamp (nextChanged + 1))
      (nextChanged + 1) (changes + 1) where
  counted := by rw [stamped.counted, add_ofNat_succ]
  slots := by
    intro idx bound _
    cases ptr with
    | slot slot =>
      show SlotKept _ (Function.update (Function.update next.levels slot _) slot _ idx) _ _
      rw [Function.update_apply]
      split_ifs with same
      · refine .inr ⟨changes + 1, Nat.succ_pos _, le_rfl, ?_⟩
        rw [← add_ofNat_succ, ← stamped.counted]
        rfl
      · rw [Function.update_of_ne same]
        refine (stamped.slots idx bound fun here => ?_).mono (Nat.le_succ _)
        exact same (LevelPtr.slot.inj (Option.some.inj here)).symm
    | excess key => exact (stamped.slots idx bound (by simp)).mono (Nat.le_succ _)

/-! ### Opening a level -/

/-- What `findLevel` owes when it may create: a level of the price, still without a stamp, and
slots in order that are otherwise kept or stamped. -/
structure Opened (size : Nat) (side : DepthSide isBid) (lastChanged : ChangeId) (price : Price)
    (result : DepthSide isBid × ChangeId × LevelPtr) : Prop where
  orderly : Orderly size result.1
  points : Points size result.1 result.2.2
  price : (result.1.level result.2.2).price = price
  stamped : ∃ changes ≤ 1,
    StampedBut size (some result.2.2) side lastChanged result.1 result.2.1 changes

theorem Orderly.insertLevelBefore (orderly : Orderly size side) {level : Nat}
    (bound : level < size) (occupied : (side.levels level).price ≠ invalidLevelPrice)
    (proper : price ≠ invalidLevelPrice) :
    Orderly size (side.insertLevelBefore size lastChanged level price).1 where
  visible := by
    intro idx idxBound
    rw [levels_insertLevelBefore bound]
    split_ifs
    · rfl
    · rw [DepthLevel.isExcess_moveDown]
      exact orderly.visible idx idxBound
    · exact orderly.visible idx idxBound
  gapless := by
    intro idx other before otherBound empty
    rw [levels_insertLevelBefore bound] at empty ⊢
    split_ifs at empty with same behind
    · exact absurd empty proper
    · rw [if_neg (by omega), if_pos ⟨by omega, otherBound⟩, DepthLevel.price_moveDown]
      rw [DepthLevel.price_moveDown] at empty
      exact orderly.gapless (idx - 1) (other - 1) (by omega) (by omega) empty
    · have front : idx < level := by omega
      exact absurd (orderly.gapless idx level front bound empty) occupied
  unused := by
    intro idx idxBound empty
    rw [levels_insertLevelBefore bound] at empty ⊢
    split_ifs at empty ⊢ with same behind
    · exact absurd empty proper
    · rw [DepthLevel.price_moveDown] at empty
      rw [DepthLevel.ordersCount_moveDown]
      exact orderly.unused (idx - 1) (by omega) empty
    · exact orderly.unused idx idxBound empty
  excess := by
    intro key stored held
    simp only [DepthSide.insertLevelBefore] at held
    split_ifs at held with full
    · rw [OrderedMap.get_insert] at held
      split_ifs at held with same
      · cases already : side.excess.get (side.levels (size - 1)).price with
        | none =>
          rw [already] at held
          obtain rfl := Option.some.inj held
          exact ⟨rfl, same.symm, same ▸ full⟩
        | some old =>
          rw [already] at held
          obtain rfl := Option.some.inj held
          exact same ▸ orderly.excess _ _ already
      · exact orderly.excess key stored held
    · exact orderly.excess key stored held

/-- The slots behind a new level show the levels they got, which are stamped, or were empty and
stay so. -/
theorem Orderly.stamped_insertLevelBefore (orderly : Orderly size side) {level : Nat}
    (bound : level < size) :
    StampedBut size (some (.slot level)) side lastChanged
      (side.insertLevelBefore size lastChanged level price).1 (lastChanged + 1) 1 where
  counted := rfl
  slots := by
    intro idx idxBound other
    have different : idx ≠ level := fun same => other (same ▸ rfl)
    rw [levels_insertLevelBefore bound, if_neg different]
    split_ifs with behind
    · by_cases empty : (side.levels (idx - 1)).price = invalidLevelPrice
      · have still := orderly.gapless (idx - 1) idx (by omega) idxBound empty
        refine .inl ⟨?_, ?_⟩
        · rw [DepthLevel.content_moveDown, DepthLevel.content_eq_none_iff.mpr empty,
            DepthLevel.content_eq_none_iff.mpr still]
        · simp [DepthLevel.moveDown, DepthLevel.assign, empty]
      · refine .inr ⟨1, Nat.one_pos, le_rfl, ?_⟩
        simp [DepthLevel.moveDown, DepthLevel.stamp, empty]
    · exact .refl ..

/-- A vacant slot behind occupied ones may take the level of a price. -/
theorem Orderly.init_vacant (orderly : Orderly size side) (proper : price ≠ invalidLevelPrice)
    {idx : Nat} (passed : ∀ front < idx, (side.levels front).price ≠ invalidLevelPrice) :
    Orderly size (side.modify (.slot idx) fun level => level.init price false) := by
  have here : (side.modify (.slot idx) fun level => level.init price false).levels =
      Function.update side.levels idx ((side.levels idx).init price false) := rfl
  exact {
    visible := by
      intro other otherBound
      rw [here, Function.update_apply]
      split_ifs
      · rfl
      · exact orderly.visible other otherBound
    gapless := by
      intro first second less secondBound firstEmpty
      rw [here, Function.update_apply] at firstEmpty ⊢
      split_ifs at firstEmpty with same
      · exact absurd firstEmpty proper
      · have behind : idx < first :=
          lt_of_le_of_ne (not_lt.mp fun front => passed first front firstEmpty) (Ne.symm same)
        rw [if_neg (by omega)]
        exact orderly.gapless first second less secondBound firstEmpty
    unused := by
      intro other otherBound otherEmpty
      rw [here, Function.update_apply] at otherEmpty ⊢
      split_ifs at otherEmpty ⊢
      · rfl
      · exact orderly.unused other otherBound otherEmpty
    excess := orderly.excess }

/-- An excess level may be added for a price that has none. -/
theorem Orderly.insert_excess (orderly : Orderly size side) (proper : price ≠ invalidLevelPrice)
    (absent : side.excess.get price = none) :
    Orderly size
      { side with excess := side.excess.insert price (({} : DepthLevel).init price true) } := by
  refine { orderly with excess := fun key stored held => ?_ }
  change (side.excess.insert price _).get key = some stored at held
  rw [OrderedMap.get_insert, absent] at held
  split_ifs at held with same
  · obtain rfl := Option.some.inj held
    exact ⟨rfl, same.symm, same ▸ proper⟩
  · exact orderly.excess key stored held

theorem opened_findLevel (lastChanged : ChangeId) (orderly : Orderly size side)
    (positive : 0 < size) (proper : price ≠ invalidLevelPrice) :
    Opened size side lastChanged price (side.findLevel size lastChanged price true) := by
  have ok := search_spec isBid side.levels price true (size - 1) 0
  rw [Nat.zero_add] at ok
  unfold findLevel
  cases stop : search isBid side.levels price true (size - 1) 0 with
  | found idx =>
    rw [stop] at ok
    obtain ⟨before, here, -⟩ := ok
    have bound : idx < size := by omega
    exact ⟨orderly, bound, here, 0, Nat.zero_le 1, stampedBut_self _⟩
  | vacant idx =>
    rw [stop] at ok
    obtain ⟨before, -, empty, passed⟩ := ok
    have bound : idx < size := by omega
    have passedOver (front : Nat) (earlier : front < idx) :
        (side.levels front).price ≠ invalidLevelPrice :=
      ((passed front (Nat.zero_le _) earlier).2 rfl).1
    refine ⟨orderly.init_vacant proper passedOver, bound, ?_, 0, Nat.zero_le 1,
      (Int32.add_zero lastChanged).symm, fun other _ different => ?_⟩
    · show (Function.update side.levels idx _ idx).price = price
      rw [Function.update_self]
      rfl
    · have elsewhere : other ≠ idx := fun same => different (by rw [same])
      show SlotKept _ (Function.update side.levels idx _ other) _ _
      rw [Function.update_of_ne elsewhere]
      exact .refl ..
  | before idx =>
    rw [stop] at ok
    obtain ⟨before, -, occupied, -, -⟩ := ok
    have bound : idx < size := by omega
    refine ⟨orderly.insertLevelBefore bound occupied proper, bound, ?_, 1, le_rfl,
      orderly.stamped_insertLevelBefore bound⟩
    show ((side.insertLevelBefore size lastChanged idx price).1.levels idx).price = price
    rw [levels_insertLevelBefore bound, if_pos rfl]
    rfl
  | last =>
    by_cases inExcess : (side.excess.get price).isSome
    · simp only [inExcess, if_true]
      obtain ⟨old, held⟩ := Option.isSome_iff_exists.mp inExcess
      refine ⟨orderly, inExcess, ?_, 0, Nat.zero_le 1, stampedBut_self _⟩
      show ((side.excess.get price).getD {}).price = price
      rw [held]
      exact (orderly.excess price old held).2.1
    · have absent : side.excess.get price = none := by simpa using inExcess
      simp only [inExcess, if_true, Bool.false_eq_true, if_false]
      refine ⟨orderly.insert_excess proper absent, ?_, ?_, 0, Nat.zero_le 1,
        (Int32.add_zero lastChanged).symm, fun _ _ _ => .refl ..⟩
      · show ((side.excess.insert price _).get price).isSome
        rw [OrderedMap.get_insert, if_pos rfl]
        rfl
      · show (((side.excess.insert price _).get price).getD {}).price = price
        rw [OrderedMap.get_insert, if_pos rfl, absent]
        rfl

/-! ### Erasing a level -/

/-- A level of the excess map is found by its key. -/
theorem get_of_head? {key : Price} {level : DepthLevel}
    (first : side.excess.entries.head? = some (key, level)) : side.excess.get key = some level :=
  OrderedMap.get_eq_some_iff.mpr (List.mem_of_head? first)

section Erase

variable {level : Nat} (orderly : Orderly size side) (bound : level < size)
  (occupied : (side.levels level).price ≠ invalidLevelPrice)
  (slots : ∀ idx < size - 1, next.levels idx = side.shifted level (lastChanged + 1) idx)
  (refilled : Refilled size side level (lastChanged + 1) next)

include orderly in
/-- From the erased level on, each slot shows the level behind it. -/
theorem Orderly.content_shifted {idx : Nat} (before : idx < size - 1) (change : ChangeId) :
    (side.shifted level change idx).content =
      if level ≤ idx then (side.levels (idx + 1)).content else (side.levels idx).content := by
  unfold shifted
  by_cases behind : level ≤ idx
  · by_cases moves : (side.levels idx).price ≠ invalidLevelPrice ∨ idx = level
    · rw [if_pos ⟨behind, moves⟩, if_pos behind, DepthLevel.content_moveUp]
    · obtain ⟨empty, -⟩ := not_or.mp moves
      have empty := not_not.mp empty
      have next := orderly.gapless idx (idx + 1) (Nat.lt_succ_self idx) (by omega) empty
      rw [if_neg fun both => moves both.2, if_pos behind,
        DepthLevel.content_eq_none_iff.mpr empty, DepthLevel.content_eq_none_iff.mpr next]
  · rw [if_neg fun both => behind both.1, if_neg behind]

include orderly bound occupied slots in
/-- A slot that is empty afterwards is behind the erased level, and so was the one behind it. -/
theorem Orderly.empty_erased {idx : Nat} (before : idx < size - 1)
    (empty : (next.levels idx).price = invalidLevelPrice) :
    level ≤ idx ∧ (side.levels (idx + 1)).price = invalidLevelPrice := by
  rw [← DepthLevel.content_eq_none_iff, slots idx before, orderly.content_shifted before] at empty
  split_ifs at empty with behind
  · exact ⟨behind, DepthLevel.content_eq_none_iff.mp empty⟩
  · have front := DepthLevel.content_eq_none_iff.mp empty
    exact absurd (orderly.gapless idx level (by omega) bound front) occupied

include orderly bound occupied slots refilled in
theorem Orderly.erased : Orderly size next := by
  have lastSlot : size - 1 < size := by omega
  have lastVisible : (next.levels (size - 1)).isExcess = false := by
    rcases refilled.cases with ⟨key, first, head, last, -⟩ | ⟨-, last, -⟩ | ⟨-, -, last, -⟩
    · rw [last]
      exact orderly.visible _ lastSlot
    · rw [last]
      rfl
    · rw [last]
      exact orderly.visible _ lastSlot
  -- the last slot is empty afterwards only when no excess level was left or it was empty
  have lastUnused : (next.levels (size - 1)).price = invalidLevelPrice →
      (next.levels (size - 1)).ordersCount = 0 := by
    rcases refilled.cases with ⟨key, first, head, last, -⟩ | ⟨-, last, -⟩ | ⟨-, -, last, -⟩
    · rw [last]
      obtain ⟨-, same, proper⟩ := orderly.excess _ _ (get_of_head? head)
      exact fun empty => absurd (same.symm.trans empty) proper
    · rw [last]
      exact fun _ => rfl
    · rw [last]
      exact orderly.unused _ lastSlot
  have lastGap (behind : level < size - 1)
      (empty : (side.levels (size - 1)).price = invalidLevelPrice) :
      (next.levels (size - 1)).price = invalidLevelPrice := by
    unfold Refilled at refilled
    rw [if_neg (not_or.mpr ⟨behind.ne, not_not.mpr empty⟩)] at refilled
    rw [refilled.1, empty]
  have excess : ∀ key stored, next.excess.get key = some stored →
      side.excess.get key = some stored := by
    intro key stored held
    rcases refilled.cases with ⟨key, first, -, -, rest⟩ | ⟨-, -, rest⟩ | ⟨-, -, -, rest⟩
    · rw [rest, OrderedMap.get_erase] at held
      split_ifs at held
      exact held
    · rwa [rest] at held
    · rwa [rest] at held
  exact {
    visible := by
      intro idx idxBound
      rcases Nat.lt_or_eq_of_le (Nat.le_sub_one_of_lt idxBound) with before | rfl
      · rw [slots idx before, shifted]
        split_ifs <;> exact orderly.visible idx idxBound
      · exact lastVisible
    gapless := by
      intro idx other less otherBound empty
      obtain ⟨behind, empty⟩ :=
        orderly.empty_erased bound occupied slots (by omega) empty
      rcases Nat.lt_or_eq_of_le (Nat.le_sub_one_of_lt otherBound) with before | rfl
      · rw [← DepthLevel.content_eq_none_iff, slots other before,
          orderly.content_shifted before, if_pos (by omega), DepthLevel.content_eq_none_iff]
        exact orderly.gapless (idx + 1) (other + 1) (by omega) (by omega) empty
      · refine lastGap (by omega) ?_
        rcases Nat.lt_or_eq_of_le (show idx + 1 ≤ size - 1 by omega) with earlier | same
        · exact orderly.gapless (idx + 1) (size - 1) earlier lastSlot empty
        · exact same ▸ empty
    unused := by
      intro idx idxBound empty
      rcases Nat.lt_or_eq_of_le (Nat.le_sub_one_of_lt idxBound) with before | rfl
      · obtain ⟨behind, emptyBehind⟩ :=
          orderly.empty_erased bound occupied slots before empty
        rw [slots idx before, shifted]
        split_ifs with moves
        · exact orderly.unused (idx + 1) (by omega) emptyBehind
        · refine orderly.unused idx idxBound ?_
          by_contra full
          exact moves ⟨behind, .inl full⟩
      · exact lastUnused empty
    excess := fun key stored held => orderly.excess key stored (excess key stored held) }

include slots refilled in
/-- The slots that change are stamped, the erased one in any case. -/
theorem stamped_erased {base : DepthSide isBid}
    (same : ∀ idx < size, idx ≠ level → base.levels idx = side.levels idx) :
    Stamped size base lastChanged next (lastChanged + 1) 1 where
  counted := rfl
  slots := by
    intro idx idxBound _
    have stamps {level : DepthLevel} (stamp : level.lastChange = lastChanged + 1) :
        SlotKept (base.levels idx) level lastChanged 1 := .inr ⟨1, Nat.one_pos, le_rfl, stamp⟩
    rcases Nat.lt_or_eq_of_le (Nat.le_sub_one_of_lt idxBound) with before | rfl
    · rw [slots idx before, shifted]
      split_ifs with moves
      · exact stamps rfl
      · by_cases here : idx = level
        · exact absurd ⟨here.ge, .inr here⟩ moves
        · rw [same idx idxBound here]
          exact .refl ..
    · rcases refilled.cases with ⟨key, first, -, last, -⟩ | ⟨-, last, -⟩ | ⟨other, -, last, -⟩
      · rw [last]
        exact stamps rfl
      · rw [last]
        exact stamps rfl
      · rw [last, same _ idxBound other.symm]
        exact .refl ..

end Erase

/-! ### Orders -/

/-- What an operation owes: slots in order again, and a stamp on each slot that changes, of one
of a few changes. -/
def Sound (size : Nat) (side : DepthSide isBid) (lastChanged : ChangeId)
    (result : DepthSide isBid × ChangeId) (most : Nat) : Prop :=
  Orderly size result.1 ∧ ∃ changes ≤ most, Stamped size side lastChanged result.1 result.2 changes

theorem Orderly.stamp (orderly : Orderly size side) (ptr : LevelPtr) (change : ChangeId) :
    Orderly size (side.modify ptr fun level => level.stamp change) :=
  orderly.modify ptr rfl rfl fun _ => rfl

variable (orderly : Orderly size side) (positive : 0 < size)

include positive in
theorem exists_findLevel (side : DepthSide isBid) (lastChanged : ChangeId) (price : Price) :
    ∃ ptr, side.findLevel size lastChanged price false = (side, lastChanged, ptr) ∧
      Points size side ptr := by
  obtain ⟨ptr, found, place⟩ := findLevel_of_not_create size side lastChanged price
  refine ⟨ptr, found, ?_⟩
  rcases place with ⟨idx, before, rfl, -⟩ | ⟨-, ⟨inExcess, rfl⟩ | ⟨-, rfl⟩⟩
  · show idx < size
    omega
  · exact inExcess
  · show size - 1 < size
    omega

include orderly positive in
theorem sound_addOrder (lastChanged : ChangeId) (proper : price ≠ invalidLevelPrice)
    (qty : Quantity) :
    Sound size side lastChanged (side.addOrder size lastChanged price qty) 2 := by
  have opened := opened_findLevel lastChanged orderly positive proper
  unfold addOrder
  obtain ⟨⟨next, nextChanged, ptr⟩, found⟩ :
      ∃ result, side.findLevel size lastChanged price true = result := ⟨_, rfl⟩
  rw [found] at opened ⊢
  obtain ⟨nextOrderly, points, here, changes, few, stamped⟩ := opened
  simp only at nextOrderly points here stamped ⊢
  have entered : Orderly size (next.modify ptr fun level => level.addOrder qty) :=
    nextOrderly.modify ptr rfl rfl fun empty => absurd (here.symm.trans empty) proper
  have mark : ((next.modify ptr fun level => level.addOrder qty).level ptr).isExcess =
      (next.level ptr).isExcess := by rw [level_modify points]; rfl
  rw [mark]
  split_ifs with isExcess
  · refine ⟨entered, changes, few.trans (Nat.le_succ 1), stamped.counted, fun idx bound _ => ?_⟩
    cases ptr with
    | slot slot =>
      rw [show (next.level (.slot slot)).isExcess = false from nextOrderly.visible slot points]
        at isExcess
      cases isExcess
    | excess key => exact stamped.slots idx bound (by simp)
  · exact ⟨entered.stamp ptr _, changes + 1, Nat.succ_le_succ few, stamped.stamp _⟩

include orderly positive in
theorem sound_changeQtyOrder (lastChanged : ChangeId) (price : Price) (delta : Quantity) :
    Sound size side lastChanged (side.changeQtyOrder size lastChanged price delta) 1 := by
  obtain ⟨ptr, found, points⟩ := exists_findLevel positive side lastChanged price
  unfold changeQtyOrder
  rw [found]
  by_cases changes : delta ≠ 0
  · simp only [if_pos changes]
    refine ⟨Orderly.stamp (orderly.modify ptr ?_ ?_ ?_) ptr _, 1, le_rfl,
      (stampedBut_self ptr).stamp _⟩
    · split_ifs <;> rfl
    · split_ifs <;> rfl
    · split_ifs <;> exact fun _ => rfl
  · simp only [if_neg changes]
    exact ⟨orderly, 0, Nat.zero_le 1, .refl ..⟩

end DepthSide

namespace DepthLevel

/-- A level that an order is taken off keeps its price and its mark; it had an order. -/
theorem closeOrder_ok {level next : DepthLevel} {qty : Quantity} {emptied : Bool}
    (closed : level.closeOrder qty = .ok (next, emptied)) :
    next.price = level.price ∧ next.isExcess = level.isExcess ∧ level.ordersCount ≠ 0 := by
  simp only [closeOrder] at closed
  split_ifs at closed with unused single <;> cases closed <;> exact ⟨rfl, rfl, unused⟩

end DepthLevel

namespace DepthSide

variable {isBid : Bool} {size : Nat} {side : DepthSide isBid} {lastChanged : ChangeId}

/-- A level with an order has a price. -/
theorem Orderly.occupied (orderly : Orderly size side) {ptr : LevelPtr}
    (points : Points size side ptr) (used : (side.level ptr).ordersCount ≠ 0) :
    (side.level ptr).price ≠ invalidLevelPrice := by
  cases ptr with
  | slot idx => exact fun empty => used (orderly.unused idx points empty)
  | excess key =>
    obtain ⟨level, held⟩ := Option.isSome_iff_exists.mp points
    obtain ⟨-, price, proper⟩ := orderly.excess key level held
    rw [DepthSide.level, held, Option.getD_some, price]
    exact proper

theorem sound_eraseLevel (lastChanged : ChangeId) (orderly : Orderly size side) {ptr : LevelPtr}
    (points : Points size side ptr) (occupied : (side.level ptr).price ≠ invalidLevelPrice)
    {base : DepthSide isBid}
    (same : ∀ idx < size, ptr ≠ .slot idx → base.levels idx = side.levels idx) :
    ∃ result, side.eraseLevel size lastChanged ptr = some result ∧
      Sound size base lastChanged result 1 := by
  cases ptr with
  | slot level =>
    obtain ⟨next, erases, slots, refilled⟩ :=
      eraseLevel_slot lastChanged points (orderly.visible level points)
    refine ⟨(next, lastChanged + 1), erases, orderly.erased points occupied slots refilled, 1,
      le_rfl, stamped_erased slots refilled fun idx bound other => same idx bound ?_⟩
    exact fun here => other (LevelPtr.slot.inj here).symm
  | excess key =>
    obtain ⟨level, held⟩ := Option.isSome_iff_exists.mp points
    have mark : (side.level (.excess key)).isExcess = true := by
      rw [DepthSide.level, held]
      exact (orderly.excess key level held).1
    refine ⟨_, by rw [eraseLevel, if_pos mark], { orderly with excess := ?_ }, 0, Nat.zero_le 1,
      (Int32.add_zero lastChanged).symm, ?_⟩
    · intro other stored held
      change (side.excess.erase _).get other = some stored at held
      rw [OrderedMap.get_erase] at held
      split_ifs at held
      exact orderly.excess other stored held
    · intro idx bound _
      rw [same idx bound (by simp)]
      exact .refl ..

theorem sound_closeOrder (lastChanged : ChangeId) (orderly : Orderly size side)
    (positive : 0 < size) (price : Price) (openQty : Quantity) :
    ∃ next nextChanged result,
      side.closeOrder size lastChanged price openQty = some (next, nextChanged, result) ∧
      Sound size side lastChanged (next, nextChanged) 1 := by
  obtain ⟨ptr, found, points⟩ := exists_findLevel positive side lastChanged price
  unfold closeOrder
  rw [found]
  simp only
  cases closed : (side.level ptr).closeOrder openQty with
  | error text => exact ⟨side, lastChanged, _, rfl, orderly, 0, Nat.zero_le 1, .refl ..⟩
  | ok result =>
    obtain ⟨level, emptied⟩ := result
    obtain ⟨samePrice, sameMark, used⟩ := DepthLevel.closeOrder_ok closed
    have occupied := orderly.occupied points used
    have lowered : Orderly size (side.modify ptr fun _ => level) :=
      orderly.modify ptr samePrice sameMark fun empty => absurd empty occupied
    have same (idx : Nat) (_ : idx < size) (other : ptr ≠ .slot idx) :
        side.levels idx = (side.modify ptr fun _ => level).levels idx := by
      cases ptr with
      | slot slot => exact (Function.update_of_ne (fun here => other (by rw [here])) ..).symm
      | excess key => rfl
    cases emptied with
    | false =>
      exact ⟨_, _, _, rfl, lowered.stamp ptr _, 1, le_rfl, (stampedBut_self ptr).stamp _⟩
    | true =>
      obtain ⟨⟨next, nextChanged⟩, erases, sound⟩ :=
        sound_eraseLevel lastChanged lowered (points.modify _)
          (by rw [level_modify points, samePrice]; exact occupied) same
      exact ⟨next, nextChanged, .ok true, by simp only [erases]; rfl, sound⟩

theorem sound_replaceOrder (lastChanged : ChangeId) (orderly : Orderly size side)
    (positive : 0 < size) {oldPrice newPrice : Price} (proper : newPrice ≠ invalidLevelPrice)
    (oldQty newQty : Quantity) :
    ∃ next nextChanged result, side.replaceOrder size lastChanged oldPrice newPrice oldQty newQty =
        some (next, nextChanged, result) ∧ Sound size side lastChanged (next, nextChanged) 3 := by
  unfold replaceOrder
  split_ifs with same
  · obtain ⟨changed, changes, few, stamped⟩ := sound_changeQtyOrder orderly positive lastChanged
      newPrice (asInt32 (newQty - oldQty))
    exact ⟨_, _, _, rfl, changed, changes, few.trans (by decide), stamped⟩
  · obtain ⟨added, changes, few, addedStamped⟩ :=
      sound_addOrder orderly positive lastChanged proper newQty
    obtain ⟨next, nextChanged, result, closes, nextOrderly, more, fewMore, stamped⟩ :=
      sound_closeOrder (side.addOrder size lastChanged newPrice newQty).2 added positive oldPrice
        oldQty
    exact ⟨next, nextChanged, result, closes, nextOrderly, changes + more,
      Nat.add_le_add few fewMore, addedStamped.trans stamped⟩

end DepthSide

namespace Depth

open DepthSide

/-! ### Calls -/

/-- The call creates no level under the price that marks an empty slot. -/
def Call.Priced : Call → Prop
  | .addOrder price _ _ => price ≠ invalidLevelPrice
  | .closeOrder _ _ _ => True
  | .changeQtyOrder _ _ _ => True
  | .replaceOrder _ newPrice _ _ _ => newPrice ≠ invalidLevelPrice

/-- The depths that calls and publications lead to. -/
inductive Reachable (size : Nat) : Depth → Prop where
  | create (lastChanged lastPublished : ChangeId) :
      Reachable size (create lastChanged lastPublished)
  | call {depth next : Depth} {call : Call} {result : Except String Bool}
      (reachable : Reachable size depth) (priced : call.Priced)
      (returns : depth.call size call = some (next, result)) : Reachable size next
  | published {depth : Depth} (reachable : Reachable size depth) :
      Reachable size depth.published

/-- The slots of both sides are in order. -/
def InOrder (size : Nat) (depth : Depth) : Prop := ∀ isBid, Orderly size (depth.side isBid)

/-- The slots of both sides are kept or stamped by the changes, and nothing is published. -/
structure Since (size : Nat) (depth next : Depth) (changes : Nat) : Prop where
  stamped : ∀ isBid,
    Stamped size (depth.side isBid) depth.lastChanged (next.side isBid) next.lastChanged changes
  unpublished : next.lastPublished = depth.lastPublished

variable {size : Nat} {depth next last : Depth}

theorem Since.refl (size : Nat) (depth : Depth) : Since size depth depth 0 :=
  ⟨fun _ => .refl .., rfl⟩

theorem Since.trans {changes more : Nat} (early : Since size depth next changes)
    (late : Since size next last more) : Since size depth last (changes + more) :=
  ⟨fun isBid => (early.stamped isBid).trans (late.stamped isBid),
    late.unpublished.trans early.unpublished⟩

/-- An operation on one side leaves the other side and its stamps alone. -/
theorem setSide_since (inOrder : InOrder size depth) {isBid : Bool} {side : DepthSide isBid}
    {lastChanged : ChangeId} {most : Nat}
    (sound : Sound size (depth.side isBid) depth.lastChanged (side, lastChanged) most) :
    InOrder size (depth.setSide isBid side lastChanged) ∧
      ∃ changes ≤ most, Since size depth (depth.setSide isBid side lastChanged) changes := by
  obtain ⟨orderly, changes, few, stamped⟩ := sound
  have counted := stamped.counted
  cases isBid with
  | true =>
    refine ⟨fun other => ?_, changes, few, fun other => ?_, rfl⟩
    · cases other
      · exact inOrder false
      · exact orderly
    · cases other
      · exact ⟨counted, fun _ _ _ => .refl ..⟩
      · exact stamped
  | false =>
    refine ⟨fun other => ?_, changes, few, fun other => ?_, rfl⟩
    · cases other
      · exact orderly
      · exact inOrder true
    · cases other
      · exact stamped
      · exact ⟨counted, fun _ _ _ => .refl ..⟩

/-- A call keeps the slots in order and stamps what it changes, with three changes at most. -/
theorem call_since (positive : 0 < size) (depth : Depth) (call : Call)
    (inOrder : InOrder size depth) (priced : call.Priced) :
    ∃ next result, depth.call size call = some (next, result) ∧ InOrder size next ∧
      ∃ changes ≤ 3, Since size depth next changes := by
  have few {next : Depth} {most : Nat} (atMost : most ≤ 3)
      (sound : InOrder size next ∧ ∃ changes ≤ most, Since size depth next changes) :
      InOrder size next ∧ ∃ changes ≤ 3, Since size depth next changes :=
    ⟨sound.1, sound.2.imp fun _ since => ⟨since.1.trans atMost, since.2⟩⟩
  cases call with
  | addOrder price qty isBid =>
    exact ⟨_, _, rfl, few (by decide) (setSide_since inOrder
      (sound_addOrder (inOrder isBid) positive depth.lastChanged priced qty))⟩
  | closeOrder price openQty isBid =>
    obtain ⟨side, lastChanged, result, closes, sound⟩ :=
      sound_closeOrder depth.lastChanged (inOrder isBid) positive price openQty
    exact ⟨_, result, by rw [Depth.call, closeOrder, closes]; rfl,
      few (by decide) (setSide_since inOrder sound)⟩
  | changeQtyOrder price delta isBid =>
    exact ⟨_, _, rfl, few (by decide) (setSide_since inOrder
      (sound_changeQtyOrder (inOrder isBid) positive depth.lastChanged price delta))⟩
  | replaceOrder oldPrice newPrice oldQty newQty isBid =>
    obtain ⟨side, lastChanged, result, replaces, sound⟩ :=
      sound_replaceOrder depth.lastChanged (inOrder isBid) positive priced oldQty newQty
    exact ⟨_, result, by rw [Depth.call, replaceOrder, replaces]; rfl,
      setSide_since inOrder sound⟩

theorem Reachable.inOrder (positive : 0 < size) (reachable : Reachable size depth) :
    InOrder size depth := by
  induction reachable with
  | create =>
    intro isBid
    cases isBid <;> exact orderly_empty size
  | call reachable priced returns inductionHypothesis =>
    obtain ⟨next, result, returned, again, -⟩ := call_since positive _ _ inductionHypothesis priced
    obtain ⟨rfl, -⟩ := returns_unique returned returns
    exact again
  | published reachable inductionHypothesis =>
    intro isBid
    cases isBid
    · exact inductionHypothesis false
    · exact inductionHypothesis true

/-! ### Subscribers -/

/-- What is seen of a depth, slot by slot. -/
def view (depth : Depth) (isBid : Bool) (idx : Nat) : Option Level :=
  ((depth.side isBid).levels idx).content

/-- A subscriber copies the slots that changed since the last publication. -/
def copyChanged (depth : Depth) (copy : Bool → Nat → Option Level) (isBid : Bool) (idx : Nat) :
    Option Level :=
  if ((depth.side isBid).levels idx).changedSince depth.lastPublishedChange then
    depth.view isBid idx
  else copy isBid idx

/-- Calls up to the next publication, at which the subscriber copies. -/
def publication (size : Nat) : Depth × (Bool → Nat → Option Level) → List Call →
    Option ((Depth × (Bool → Nat → Option Level)) × List (Except String Bool))
  | (depth, copy), calls =>
    (run (call size) depth calls).map fun result =>
      ((result.1.published, result.1.copyChanged copy), result.2)

/-- The changes that a run of calls makes. A call makes three at most, so the counter tells. -/
def changes (size : Nat) : Depth → List Call → Nat
  | _, [] => 0
  | depth, call :: calls =>
    match depth.call size call with
    | some (next, _) =>
      changesBetween depth.lastChanged next.lastChanged + changes size next calls
    | none => 0

/-- The counter does not pass its largest value in a run of calls. -/
def Counts (size : Nat) (depth : Depth) (calls : List Call) : Prop :=
  depth.lastChanged.toInt + changes size depth calls < 2 ^ 31

instance (size : Nat) (depth : Depth) (calls : List Call) : Decidable (Counts size depth calls) :=
  inferInstanceAs (Decidable (_ < _))

/-- A slot that shows something else than at the publication is stamped later. -/
theorem Since.changed {changes : Nat} (since : Since size depth.published next changes)
    (counts : depth.lastChanged.toInt + changes < 2 ^ 31) {isBid : Bool} {idx : Nat}
    (bound : idx < size) (differs : next.view isBid idx ≠ depth.view isBid idx) :
    ((next.side isBid).levels idx).changedSince next.lastPublishedChange ∧ next.changed := by
  have same : depth.published.side isBid = depth.side isBid := by cases isBid <;> rfl
  have published : next.lastPublished = depth.lastChanged := since.unpublished
  have counted : next.lastChanged = depth.lastChanged + Int32.ofNat changes :=
    (since.stamped isBid).counted
  rcases (since.stamped isBid).slots idx bound (by simp) with
    ⟨content, -⟩ | ⟨count, positive, most, stamp⟩
  · rw [same] at content
    exact absurd content differs
  · have fresh : next.lastPublished < ((next.side isBid).levels idx).lastChange := by
      rw [published, stamp]
      exact lt_add_ofNat positive (by omega)
    have later : next.lastPublished < next.lastChanged := by
      rw [published, counted]
      exact lt_add_ofNat (positive.trans_le most) counts
    exact ⟨decide_eq_true fresh, decide_eq_true later⟩

theorem run_since (positive : 0 < size) (inOrder : InOrder size depth) (calls : List Call)
    (priced : ∀ call ∈ calls, call.Priced) :
    ∃ last results, run (call size) depth calls = some (last, results) ∧ InOrder size last ∧
      Since size depth last (changes size depth calls) := by
  induction calls generalizing depth with
  | nil => exact ⟨depth, [], rfl, inOrder, .refl size depth⟩
  | cons call calls inductionHypothesis =>
    obtain ⟨next, result, returns, nextInOrder, made, few, since⟩ :=
      call_since positive depth call inOrder (priced call List.mem_cons_self)
    obtain ⟨last, results, runs, lastInOrder, rest⟩ := inductionHypothesis nextInOrder
      fun other member => priced other (List.mem_cons_of_mem _ member)
    have between : changesBetween depth.lastChanged next.lastChanged = made := by
      rw [(since.stamped true).counted]
      exact changesBetween_add _ (by omega)
    refine ⟨last, result :: results, by rw [run_cons_of_some calls returns, runs]; rfl,
      lastInOrder, ?_⟩
    rw [changes, returns]
    simp only [between]
    exact since.trans rest

theorem inOrder_published (inOrder : InOrder size depth) : InOrder size depth.published := by
  intro isBid
  cases isBid
  · exact inOrder false
  · exact inOrder true

theorem view_published (depth : Depth) : depth.published.view = depth.view := by
  funext isBid idx
  cases isBid <;> rfl

/-- The depth is just published, and the copy is what it shows. -/
def Held (size : Nat) (state : Depth × (Bool → Nat → Option Level)) : Prop :=
  InOrder size state.1 ∧ state.1.published = state.1 ∧
    ∀ isBid, ∀ idx < size, state.2 isBid idx = state.1.view isBid idx

theorem publication_held (positive : 0 < size) (state : Depth × (Bool → Nat → Option Level))
    (calls : List Call) (held : Held size state) (priced : ∀ call ∈ calls, call.Priced)
    (counts : Counts size state.1 calls) :
    ∃ next results, publication size state calls = some (next, results) ∧ Held size next := by
  obtain ⟨depth, copy⟩ := state
  obtain ⟨inOrder, published, copied⟩ := held
  obtain ⟨last, results, returns, lastInOrder, since⟩ := run_since positive inOrder calls priced
  refine ⟨_, results, by rw [publication, returns]; rfl,
    inOrder_published lastInOrder, rfl, fun isBid idx bound => ?_⟩
  show last.copyChanged copy isBid idx = last.published.view isBid idx
  rw [view_published, copyChanged]
  split_ifs with changed
  · rfl
  · have sincePublished : Since size depth.published last (changes size depth calls) :=
      published.symm ▸ since
    by_contra differs
    exact changed (sincePublished.changed counts bound fun same =>
      differs ((copied isBid idx bound).trans same.symm)).1

/-- After any calls behind a publication, found or not and thrown or not, every slot that shows
something else than at the publication has changed since it, and so has the depth. A subscriber
with a copy of what was published has one again after any publications. Both hold as long as the
counter does not pass its largest value behind a publication. -/
theorem changes_are_stamped (positive : 0 < size) (reachable : Reachable size depth) :
    (∀ calls : List Call, (∀ call ∈ calls, call.Priced) → Counts size depth.published calls →
      ∃ last results, run (call size) depth.published calls = some (last, results) ∧
        ∀ isBid, ∀ idx < size, last.view isBid idx ≠ depth.view isBid idx →
          ((last.side isBid).levels idx).changedSince last.lastPublishedChange ∧ last.changed) ∧
    ∀ batches : List (List Call), (∀ calls ∈ batches, ∀ call ∈ calls, call.Priced) →
      ∀ copy, (∀ isBid, ∀ idx < size, copy isBid idx = depth.view isBid idx) →
        EachStep (publication size) (fun state calls => Counts size state.1 calls)
          (depth.published, copy) batches →
        ∃ last held results,
          run (publication size) (depth.published, copy) batches = some ((last, held), results) ∧
          ∀ isBid, ∀ idx < size, held isBid idx = last.view isBid idx := by
  have inOrder := inOrder_published (reachable.inOrder positive)
  constructor
  · intro calls priced counts
    obtain ⟨last, results, returns, -, since⟩ := run_since positive inOrder calls priced
    exact ⟨last, results, returns, fun isBid idx bound differs =>
      since.changed counts bound differs⟩
  · intro batches priced copy start counts
    have held : Held size (depth.published, copy) :=
      ⟨inOrder, rfl, fun isBid idx bound => by rw [view_published]; exact start isBid idx bound⟩
    have eachPriced : EachStep (publication size) (fun _ calls => ∀ call ∈ calls, call.Priced)
        (depth.published, copy) batches := eachStep_of_forall (fun _ => priced) _
    obtain ⟨⟨last, copied⟩, results, returns, final⟩ :=
      run_keeps (fun state calls held fits =>
        publication_held positive state calls held fits.1 fits.2) batches (depth.published, copy)
        held (eachPriced.and counts)
    exact ⟨last, copied, results, returns, final.2.2⟩

/-- Two visible levels of two, and behind them an insertion that moves both down, a call for an
absent price that takes an order off the last slot, and one that throws. -/
theorem changes_are_stamped_example :
    ∃ last held results,
      run (publication 2) ((create 0 0).published, (create 0 0).view)
          [[.addOrder 99 5 true, .addOrder 100 10 true], [.addOrder 101 1 true,
            .closeOrder 98 1 true, .changeQtyOrder 101 2 true, .closeOrder 50 1 false]] =
        some ((last, held), results) ∧
      ∀ isBid, ∀ idx < 2, held isBid idx = last.view isBid idx := by
  refine (changes_are_stamped (by decide) (.create 0 0)).2 _ ?_ _ (fun _ _ _ => rfl) ?_
  · simp [Call.Priced, invalidLevelPrice]
  · decide

end Depth

end ObLib
