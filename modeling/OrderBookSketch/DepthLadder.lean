/-
This file proves that a side of a depth is a window on a ladder, an ordered map with a
level for each price: the slots show the first levels of the ladder, the best price
first, and the excess map has the others. Entering, changing and taking off orders at a
price do to the window what they do to the ladder.

There is one exception. The search of `findLevel` ends at the last slot without looking
at it. A search for a level that is there comes back to that slot; but an order entered
at the price that belongs in it starts an excess level instead.
-/

import OrderBookSketch.DepthChanges
import OrderBookSketch.OrderBookType2Levels
import OrderBookSketch.Library.OrderedMapPosition

namespace ObLib

open Containers

/-- The levels of a side by price, the best first. -/
abbrev Ladder (isBid : Bool) := OrderedMap Price Level (better isBid)

namespace DepthSide

variable {isBid : Bool} {size : Nat} {side : DepthSide isBid} {ladder : Ladder isBid}
  {price : Price} {level : Level}

/-! ### The window -/

/-- The slots show the first levels of the ladder, and the excess map the levels behind them. -/
structure Windowed (size : Nat) (side : DepthSide isBid) (ladder : Ladder isBid) : Prop where
  visible : ∀ idx < size, (side.levels idx).content = ladder.entries[idx]?.map Prod.snd
  excess : side.excess.mapValues DepthLevel.content = (ladder.tail size).mapValues some
  keys : ∀ price level, ladder.get price = some level → level.price = price

theorem windowed_empty (size : Nat) : Windowed size (empty : DepthSide isBid) .empty where
  visible := fun _ _ => rfl
  excess := OrderedMap.ext_entries (by
    show [] = (List.drop size []).map _
    rw [List.drop_nil, List.map_nil])
  keys := fun _ _ held => by cases held

/-- Where the level of a price is. -/
def placeOf (size : Nat) (ladder : Ladder isBid) (price : Price) : LevelPtr :=
  if ladder.rank price < size then .slot (ladder.rank price) else .excess price

theorem placeOf_slot (visible : ladder.rank price < size) :
    placeOf size ladder price = .slot (ladder.rank price) := if_pos visible

theorem placeOf_excess (behind : size ≤ ladder.rank price) :
    placeOf size ladder price = .excess price := if_neg (not_lt.mpr behind)

theorem placeOf_congr {other : Ladder isBid} (same : other.rank price = ladder.rank price) :
    placeOf size other price = placeOf size ladder price := by
  unfold placeOf
  rw [same]

theorem Windowed.excess_get (windowed : Windowed size side ladder) (price : Price) :
    (side.excess.get price).map DepthLevel.content =
      if size ≤ ladder.rank price then (ladder.get price).map some else none := by
  rw [← OrderedMap.get_mapValues, windowed.excess, OrderedMap.get_mapValues, OrderedMap.get_tail]
  split_ifs <;> rfl

/-- A slot shows the level at its position. -/
theorem Windowed.price_slot (windowed : Windowed size side ladder) {idx : Nat} (bound : idx < size)
    (here : ladder.entries[idx]? = some (price, level)) : (side.levels idx).price = price := by
  have shown := windowed.visible idx bound
  rw [here, Option.map_some] at shown
  unfold DepthLevel.content at shown
  split_ifs at shown
  have key := windowed.keys price level (OrderedMap.get_eq_some_iff.mpr (List.mem_of_getElem? here))
  have same : _ = level := Option.some.inj shown
  rw [← key, ← same]

theorem Windowed.empty_slot_iff (windowed : Windowed size side ladder) {idx : Nat}
    (bound : idx < size) :
    (side.levels idx).price = invalidLevelPrice ↔ ladder.entries[idx]? = none := by
  rw [← DepthLevel.content_eq_none_iff, windowed.visible idx bound, Option.map_eq_none_iff]

/-- A slot of the price has its level. -/
theorem Windowed.getElem?_of_price (windowed : Windowed size side ladder) {idx : Nat}
    (bound : idx < size) (proper : price ≠ invalidLevelPrice)
    (here : (side.levels idx).price = price) :
    ∃ level, ladder.entries[idx]? = some (price, level) := by
  cases there : ladder.entries[idx]? with
  | none =>
    rw [(windowed.empty_slot_iff bound).mpr there] at here
    exact absurd here.symm proper
  | some entry =>
    obtain ⟨key, level⟩ := entry
    have same := (windowed.price_slot bound there).symm.trans here
    exact ⟨level, by rw [same]⟩

/-- The level of a price on the ladder is where it belongs. -/
theorem Windowed.content_place (windowed : Windowed size side ladder)
    (held : ladder.get price = some level) :
    Points size side (placeOf size ladder price) ∧
      (side.level (placeOf size ladder price)).content = some level := by
  unfold placeOf
  split_ifs with visible
  · refine ⟨visible, ?_⟩
    show (side.levels _).content = _
    rw [windowed.visible _ visible, OrderedMap.getElem?_rank held]
    rfl
  · have stored := windowed.excess_get price
    rw [if_pos (not_lt.mp visible), held, Option.map_some, Option.map_eq_some_iff] at stored
    obtain ⟨depthLevel, inExcess, content⟩ := stored
    refine ⟨Option.isSome_iff_exists.mpr ⟨depthLevel, inExcess⟩, ?_⟩
    show ((side.excess.get price).getD {}).content = _
    rw [inExcess]
    exact content

/-- Rewriting a level where it belongs. -/
theorem Windowed.modify (windowed : Windowed size side ladder)
    (held : ladder.get price = some level) {change : DepthLevel → DepthLevel}
    {rewrite : Level → Level}
    (shows : (change (side.level (placeOf size ladder price))).content = some (rewrite level))
    (keeps : (rewrite level).price = level.price) :
    Windowed size (side.modify (placeOf size ladder price) change)
      (ladder.modify price rewrite) where
  visible := by
    intro idx bound
    rw [OrderedMap.getElem?_modify held]
    unfold placeOf at shows ⊢
    by_cases visible : ladder.rank price < size
    · rw [if_pos visible] at shows ⊢
      show (Function.update side.levels _ _ idx).content = _
      rw [Function.update_apply]
      split_ifs
      · exact shows
      · exact windowed.visible idx bound
    · rw [if_neg visible, if_neg fun here => visible (by rwa [← here])]
      exact windowed.visible idx bound
  excess := by
    rw [OrderedMap.tail_modify]
    unfold placeOf at shows ⊢
    split_ifs at shows ⊢ with visible
    · have absent : (ladder.tail size).get price = none := by
        rw [OrderedMap.get_tail, if_neg (not_le.mpr visible)]
      rw [OrderedMap.modify_of_absent absent]
      exact windowed.excess
    · show (side.excess.modify price change).mapValues _ = _
      have heldBehind : (ladder.tail size).get price = some level := by
        rw [OrderedMap.get_tail, if_pos (not_lt.mp visible), held]
      rw [OrderedMap.mapValues_modify fun _ => some (rewrite level), windowed.excess,
        OrderedMap.mapValues_modify fun _ => some (rewrite level)]
      · intro value there
        rw [heldBehind] at there
        rw [Option.some.inj there]
      · intro value there
        rw [DepthSide.level, there] at shows
        exact shows
  keys := by
    intro other stored there
    rw [OrderedMap.get_modify, held] at there
    split_ifs at there with same
    · rw [← Option.some.inj there, keeps, same]
      exact windowed.keys price level held
    · exact windowed.keys other stored there

/-! ### Searching -/

/-- The search passes over levels that are better than the price only. -/
theorem Windowed.lt_rank_of_passed (windowed : Windowed size side ladder) {idx : Nat}
    (bound : idx < size) (passes : PassedOver isBid price true (side.levels idx)) :
    idx < ladder.rank price := by
  obtain ⟨other, create⟩ := passes
  obtain ⟨occupied, notWorse⟩ := create rfl
  cases here : ladder.entries[idx]? with
  | none => exact absurd ((windowed.empty_slot_iff bound).mpr here) occupied
  | some entry =>
    obtain ⟨key, level⟩ := entry
    rw [windowed.price_slot bound here] at other notWorse
    rw [← OrderedMap.before_iff_lt_rank here]
    exact (trichotomous_of (better isBid) key price).resolve_right
      (not_or.mpr ⟨other, notWorse⟩)

theorem Windowed.le_rank_of_passed (windowed : Windowed size side ladder) {count : Nat}
    (bound : count ≤ size) (passed : PassedFrom isBid side.levels price true 0 count) :
    count ≤ ladder.rank price := by
  refine not_lt.mp fun less => ?_
  exact lt_irrefl _ (windowed.lt_rank_of_passed (less.trans_le bound)
    (passed (ladder.rank price) (Nat.zero_le _) less))

/-- A search that may create a level stops at the position of the price, unless that is the last
slot or behind it. -/
theorem Windowed.search_create (windowed : Windowed size side ladder)
    (proper : price ≠ invalidLevelPrice) (stop : Stop)
    (stops : search isBid side.levels price true (size - 1) 0 = stop) :
    match stop with
    | .found idx => idx < size - 1 ∧ idx = ladder.rank price ∧ (ladder.get price).isSome
    | .vacant idx => idx < size - 1 ∧ idx = ladder.rank price ∧ ladder.get price = none ∧
        ladder.entries.length = idx
    | .before idx => idx < size - 1 ∧ idx = ladder.rank price ∧ ladder.get price = none ∧
        idx < ladder.entries.length
    | .last => size - 1 ≤ ladder.rank price := by
  have ok := search_spec isBid side.levels price true (size - 1) 0
  rw [Nat.zero_add, stops] at ok
  cases stop with
  | found idx =>
    obtain ⟨bound, here, -⟩ := ok
    obtain ⟨level, there⟩ := windowed.getElem?_of_price (by omega) proper here
    refine ⟨bound, (OrderedMap.rank_eq_of_getElem? there).symm, ?_⟩
    rw [OrderedMap.get_eq_some_iff.mpr (List.mem_of_getElem? there)]
    rfl
  | vacant idx =>
    obtain ⟨bound, -, empty, passed⟩ := ok
    have behindAll := List.getElem?_eq_none_iff.mp
      ((windowed.empty_slot_iff (show idx < size by omega)).mp empty)
    have front := windowed.le_rank_of_passed (show idx ≤ size by omega) passed
    have bounded := ladder.rank_le_length price
    have position : idx = ladder.rank price := by omega
    refine ⟨bound, position, ?_, by omega⟩
    cases held : ladder.get price with
    | none => rfl
    | some level =>
      have there := (List.getElem?_eq_some_iff.mp (OrderedMap.getElem?_rank held)).1
      omega
  | before idx =>
    obtain ⟨bound, -, occupied, worse, passed⟩ := ok
    have front := windowed.le_rank_of_passed (show idx ≤ size by omega) passed
    cases here : ladder.entries[idx]? with
    | none =>
      exact absurd ((windowed.empty_slot_iff (show idx < size by omega)).mpr here) occupied
    | some entry =>
      obtain ⟨key, level⟩ := entry
      rw [windowed.price_slot (by omega) here] at worse
      have behind : ¬ idx < ladder.rank price := fun less =>
        asymm_of (better isBid) worse ((OrderedMap.before_iff_lt_rank here price).mpr less)
      have position : idx = ladder.rank price := by omega
      refine ⟨bound, position, ?_, (List.getElem?_eq_some_iff.mp here).1⟩
      cases held : ladder.get price with
      | none => rfl
      | some level =>
        have there := OrderedMap.getElem?_rank held
        rw [← position, here] at there
        rw [(Prod.mk.inj (Option.some.inj there)).1] at worse
        exact absurd worse (irrefl_of (better isBid) price)
  | last => exact windowed.le_rank_of_passed (Nat.sub_le size 1) ok

/-- A search for a price on the ladder finds its level, in the last slot as well. -/
theorem Windowed.findLevel_held (windowed : Windowed size side ladder) (positive : 0 < size)
    (proper : price ≠ invalidLevelPrice) (held : ladder.get price = some level)
    (lastChanged : ChangeId) :
    side.findLevel size lastChanged price false =
      (side, lastChanged, placeOf size ladder price) := by
  obtain ⟨ptr, found, place⟩ := findLevel_of_not_create size side lastChanged price
  have position := OrderedMap.getElem?_rank held
  have stored := windowed.excess_get price
  rw [found]
  unfold placeOf
  rcases place with ⟨idx, before, rfl, here⟩ | ⟨absent, place⟩
  · obtain ⟨level, there⟩ := windowed.getElem?_of_price (by omega) proper here
    rw [OrderedMap.rank_eq_of_getElem? there, if_pos (by omega)]
  · have behind : size - 1 ≤ ladder.rank price := not_lt.mp fun before =>
      absent _ before (windowed.price_slot (by omega) position)
    rcases place with ⟨inExcess, rfl⟩ | ⟨notInExcess, rfl⟩
    · have notVisible : ¬ ladder.rank price < size := by
        intro visible
        rw [if_neg (not_le.mpr visible), Option.map_eq_none_iff] at stored
        rw [stored] at inExcess
        cases inExcess
      rw [if_neg notVisible]
    · have visible : ladder.rank price < size := by
        refine not_le.mp fun notVisible => ?_
        rw [if_pos notVisible, held, notInExcess] at stored
        cases stored
      rw [if_pos visible, show ladder.rank price = size - 1 by omega]

/-! ### Opening a level -/

/-- The level a price starts with. -/
def opened (price : Price) : Level := { price := price }

theorem content_opened (level : DepthLevel) (proper : price ≠ invalidLevelPrice)
    (isExcess : Bool) : (level.init price isExcess).content = some (opened price) := by
  simp [DepthLevel.content, DepthLevel.init, proper, opened]

theorem keys_insert (windowed : Windowed size side ladder) :
    ∀ other level, (ladder.insert price (opened price)).get other = some level →
      level.price = other := by
  intro other level held
  rw [OrderedMap.get_insert] at held
  split_ifs at held with same
  · cases stored : ladder.get price with
    | none =>
      rw [stored] at held
      rw [← Option.some.inj held, same]
      rfl
    | some old =>
      rw [stored] at held
      rw [← Option.some.inj held, same]
      exact windowed.keys price old stored
  · exact windowed.keys other level held

/-- A new level in a slot moves the levels behind it down and the last of them to the front of
the excess levels. -/
theorem Windowed.insertLevelBefore (windowed : Windowed size side ladder) (proper : price ≠ invalidLevelPrice)
    (absent : ladder.get price = none) (bound : ladder.rank price < size - 1)
    (lastChanged : ChangeId) :
    Windowed size (side.insertLevelBefore size lastChanged (ladder.rank price) price).1
      (ladder.insert price (opened price)) where
  visible := by
    intro idx idxBound
    rw [levels_insertLevelBefore (by omega), OrderedMap.getElem?_insert absent]
    rcases Nat.lt_trichotomy idx (ladder.rank price) with front | here | behind
    · rw [if_neg front.ne, if_neg (by omega), if_pos front]
      exact windowed.visible idx idxBound
    · rw [if_pos here, if_neg (by omega), if_pos here, content_opened _ proper]
      rfl
    · rw [if_neg behind.ne', if_pos ⟨behind, idxBound⟩, if_neg (by omega), if_neg behind.ne',
        DepthLevel.content_moveDown]
      exact windowed.visible (idx - 1) (by omega)
  excess := by
    have entries := congrArg OrderedMap.entries windowed.excess
    refine OrderedMap.ext_entries ?_
    show _ = ((ladder.insert price (opened price)).entries.drop size).map _
    rw [OrderedMap.drop_insert absent _ (by omega)]
    show (OrderedMap.entries (side.insertLevelBefore size _ _ _).1.excess).map _ = _
    rw [excess_insertLevelBefore]
    have lastSlot : size - 1 < size := by omega
    cases last : ladder.entries[size - 1]? with
    | none =>
      have empty := (windowed.empty_slot_iff lastSlot).mpr last
      rw [if_neg (not_not.mpr empty)]
      have bounded := List.getElem?_eq_none_iff.mp last
      refine Eq.trans entries ?_
      show (ladder.entries.drop size).map _ = _
      rw [List.drop_eq_nil_of_le bounded, List.drop_eq_nil_of_le (by omega)]
    | some entry =>
      obtain ⟨key, level⟩ := entry
      have here := windowed.price_slot lastSlot last
      have occupied : (side.levels (size - 1)).price ≠ invalidLevelPrice := fun empty => by
        rw [(windowed.empty_slot_iff lastSlot).mp empty] at last
        cases last
      -- every excess level is worse than the one in the last slot
      have first : ∀ stored ∈ side.excess.entries,
          better isBid (side.levels (size - 1)).price stored.1 := by
        intro stored member
        have shown : (stored.1, stored.2.content) ∈
            (side.excess.mapValues DepthLevel.content).entries :=
          List.mem_map.mpr ⟨stored, member, rfl⟩
        rw [entries] at shown
        obtain ⟨rung, inTail, same⟩ := List.mem_map.mp shown
        obtain ⟨idx, there⟩ := List.mem_iff_getElem?.mp inTail
        rw [show (ladder.tail size).entries = ladder.entries.drop size from rfl,
          List.getElem?_drop] at there
        rw [here, ← (Prod.mk.inj same).1]
        have rank := OrderedMap.rank_eq_of_getElem? there
        refine (OrderedMap.before_iff_lt_rank last rung.1).mpr ?_
        omega
      rw [if_pos occupied, OrderedMap.entries_insert_front first, List.map_cons]
      have split : ladder.entries.drop (size - 1) = (key, level) :: ladder.entries.drop size := by
        rw [List.drop_eq_getElem?_toList_append, last, show size - 1 + 1 = size by omega]
        rfl
      rw [split, List.map_cons]
      refine congrArg₂ List.cons ?_ entries
      rw [here, DepthLevel.content_assign, windowed.visible _ lastSlot, last]
      rfl
  keys := keys_insert windowed

/-- A new level in the empty slot behind all levels. -/
theorem Windowed.initSlot (windowed : Windowed size side ladder)
    (proper : price ≠ invalidLevelPrice) (absent : ladder.get price = none)
    (behind : ladder.entries.length = ladder.rank price) (bound : ladder.rank price < size) :
    Windowed size
      (side.modify (.slot (ladder.rank price)) fun level => level.init price false)
      (ladder.insert price (opened price)) where
  visible := by
    intro idx idxBound
    show (Function.update side.levels _ _ idx).content = _
    rw [OrderedMap.getElem?_insert absent, Function.update_apply]
    rcases Nat.lt_trichotomy idx (ladder.rank price) with front | here | beyond
    · rw [if_neg front.ne, if_pos front]
      exact windowed.visible idx idxBound
    · rw [if_pos here, if_neg (by omega), if_pos here, content_opened _ proper]
      rfl
    · rw [if_neg beyond.ne', if_neg (by omega), if_neg beyond.ne', windowed.visible idx idxBound,
        List.getElem?_eq_none (by omega), List.getElem?_eq_none (by omega)]
  excess := by
    refine windowed.excess.trans (OrderedMap.ext_entries ?_)
    show (ladder.entries.drop size).map _ =
      ((ladder.insert price (opened price)).entries.drop size).map _
    rw [OrderedMap.drop_insert absent _ bound, List.drop_eq_nil_of_le (by omega),
      List.drop_eq_nil_of_le (by omega)]
  keys := keys_insert windowed

/-- A new excess level for a price behind the last slot. -/
theorem Windowed.insertExcess (windowed : Windowed size side ladder)
    (proper : price ≠ invalidLevelPrice) (absent : ladder.get price = none)
    (behind : size ≤ ladder.rank price) :
    Windowed size
      { side with excess := side.excess.insert price (({} : DepthLevel).init price true) }
      (ladder.insert price (opened price)) where
  visible := by
    intro idx bound
    rw [OrderedMap.getElem?_insert absent, if_pos (by omega)]
    exact windowed.visible idx bound
  excess := by
    show (side.excess.insert price _).mapValues _ = _
    rw [OrderedMap.mapValues_insert, windowed.excess, content_opened _ proper,
      OrderedMap.tail_insert absent _ behind, OrderedMap.mapValues_insert]
  keys := keys_insert windowed

/-- `findLevel` opens a level where it belongs, unless that is the last slot. -/
theorem Windowed.findLevel_create (windowed : Windowed size side ladder)
    (proper : price ≠ invalidLevelPrice) (clear : ladder.rank price ≠ size - 1)
    (lastChanged : ChangeId) :
    ∃ next nextChanged, side.findLevel size lastChanged price true =
        (next, nextChanged, placeOf size ladder price) ∧
      Windowed size next (ladder.insert price (opened price)) := by
  have present (held : (ladder.get price).isSome) :
      ladder.insert price (opened price) = ladder := by
    obtain ⟨level, held⟩ := Option.isSome_iff_exists.mp held
    exact OrderedMap.insert_of_present held _
  obtain ⟨stop, stops⟩ : ∃ stop, search isBid side.levels price true (size - 1) 0 = stop := ⟨_, rfl⟩
  have ok := windowed.search_create proper stop stops
  unfold findLevel
  rw [stops]
  cases stop with
  | found idx =>
    obtain ⟨bound, rfl, held⟩ := ok
    rw [placeOf_slot (by omega), present held]
    exact ⟨side, lastChanged, rfl, windowed⟩
  | vacant idx =>
    obtain ⟨bound, rfl, absent, behind⟩ := ok
    rw [placeOf_slot (by omega)]
    exact ⟨_, lastChanged, rfl, windowed.initSlot proper absent behind (by omega)⟩
  | before idx =>
    obtain ⟨bound, rfl, absent, -⟩ := ok
    rw [placeOf_slot (by omega)]
    exact ⟨_, _, rfl, windowed.insertLevelBefore proper absent bound lastChanged⟩
  | last =>
    have behind : size ≤ ladder.rank price := by
      have atLeast : size - 1 ≤ ladder.rank price := ok
      omega
    have stored := windowed.excess_get price
    rw [if_pos behind] at stored
    rw [placeOf_excess behind]
    cases held : ladder.get price with
    | none =>
      rw [held, Option.map_none, Option.map_eq_none_iff] at stored
      simp only [stored, Option.isSome_none, Bool.false_eq_true, if_false, if_true]
      exact ⟨_, lastChanged, rfl, windowed.insertExcess proper held behind⟩
    | some level =>
      have inExcess : (side.excess.get price).isSome := by
        rw [held, Option.map_some, Option.map_eq_some_iff] at stored
        obtain ⟨depthLevel, there, -⟩ := stored
        rw [there]
        rfl
      simp only [inExcess, if_true]
      rw [present (by rw [held]; rfl)]
      exact ⟨side, lastChanged, rfl, windowed⟩

/-! ### Orders -/

/-- Two changes to one level. -/
theorem modify_modify (side : DepthSide isBid) (ptr : LevelPtr)
    (first second : DepthLevel → DepthLevel) :
    (side.modify ptr first).modify ptr second = side.modify ptr fun level => second (first level) := by
  cases ptr with
  | slot idx =>
    refine congrArg (DepthSide.mk · side.excess) ?_
    show Function.update (Function.update side.levels idx (first (side.levels idx))) idx
        (second (Function.update side.levels idx (first (side.levels idx)) idx)) = _
    rw [Function.update_idem, Function.update_self]
  | excess key =>
    refine congrArg (DepthSide.mk side.levels) (OrderedMap.ext fun other => ?_)
    show ((side.excess.modify key first).modify key second).get other = _
    simp only [OrderedMap.get_modify, if_true]
    split_ifs
    · rw [Option.map_map]
      rfl
    · rfl

/-- The ladder after an order is entered. -/
def enter (ladder : Ladder isBid) (price : Price) (qty : Quantity) : Ladder isBid :=
  (ladder.insert price (opened price)).modify price fun level => level.entered price qty

theorem content_eq_some {depthLevel : DepthLevel} (shown : depthLevel.content = some level) :
    depthLevel.price = level.price ∧ depthLevel.totalQty = level.qty ∧
      depthLevel.ordersCount = level.orderCount ∧ level.price ≠ invalidLevelPrice := by
  unfold DepthLevel.content at shown
  split_ifs at shown with empty
  obtain rfl := Option.some.inj shown
  exact ⟨rfl, rfl, rfl, empty⟩

/-- What a level of the same price shows. -/
theorem content_of_price {depthLevel : DepthLevel} (proper : depthLevel.price ≠ invalidLevelPrice) :
    depthLevel.content =
      some ⟨depthLevel.price, depthLevel.totalQty, depthLevel.ordersCount⟩ := if_neg proper

theorem Windowed.addOrder (windowed : Windowed size side ladder)
    (proper : price ≠ invalidLevelPrice) (clear : ladder.rank price ≠ size - 1)
    (lastChanged : ChangeId) {qty : Quantity}
    (fits : ∀ level ∈ (ladder.insert price (opened price)).get price, FitsInt32 (level.qty + qty)) :
    Windowed size (side.addOrder size lastChanged price qty).1 (enter ladder price qty) := by
  obtain ⟨next, nextChanged, found, opens⟩ :=
    windowed.findLevel_create proper clear lastChanged
  obtain ⟨level, held⟩ : ∃ level, (ladder.insert price (opened price)).get price = some level := by
    rw [OrderedMap.get_insert, if_pos rfl]
    exact ⟨_, rfl⟩
  have place : placeOf size (ladder.insert price (opened price)) price =
      placeOf size ladder price := placeOf_congr (OrderedMap.rank_insert_self ..)
  obtain ⟨-, content⟩ := opens.content_place held
  obtain ⟨samePrice, sameQty, sameCount, -⟩ := content_eq_some content
  have key := opens.keys price level held
  have entered :
      ((next.level (placeOf size (ladder.insert price (opened price)) price)).addOrder qty).content =
        some (level.entered price qty) := by
    rw [content_of_price]
    · simp only [DepthLevel.addOrder, Level.entered, samePrice, sameQty, sameCount, key,
        asInt32_of_fits (fits level held)]
    · exact fun empty => proper (key.symm.trans (samePrice.symm.trans empty))
  unfold DepthSide.addOrder
  rw [found]
  simp only
  rw [← place]
  show Windowed size _
    ((ladder.insert price (opened price)).modify price fun level => level.entered price qty)
  split_ifs
  · show Windowed size (next.modify (placeOf size (ladder.insert price (opened price)) price)
      fun level => level.addOrder qty) _
    exact opens.modify held entered key.symm
  · rw [modify_modify]
    show Windowed size (next.modify (placeOf size (ladder.insert price (opened price)) price)
      fun level => (level.addOrder qty).stamp (nextChanged + 1)) _
    exact opens.modify held ((DepthLevel.content_stamp ..).trans entered) key.symm

theorem Windowed.changeQtyOrder (windowed : Windowed size side ladder) (positive : 0 < size)
    (held : ladder.get price = some level) (lastChanged : ChangeId) {delta : Quantity}
    (fits : FitsInt32 (level.qty + delta)) :
    Windowed size (side.changeQtyOrder size lastChanged price delta).1
      (ladder.modify price fun level => level.adjusted delta) := by
  obtain ⟨-, content⟩ := windowed.content_place held
  obtain ⟨samePrice, sameQty, sameCount, occupied⟩ := content_eq_some content
  have proper : price ≠ invalidLevelPrice := windowed.keys price level held ▸ occupied
  unfold DepthSide.changeQtyOrder
  rw [windowed.findLevel_held positive proper held]
  by_cases changes : delta ≠ 0
  · simp only [if_pos changes, modify_modify]
    refine windowed.modify held ?_ rfl
    rw [DepthLevel.content_stamp]
    have occupied := samePrice.trans_ne occupied
    split_ifs with rises
    · refine (content_of_price ?_).trans ?_
      · exact occupied
      simp only [DepthLevel.increaseQty, Level.adjusted, samePrice, sameQty, sameCount,
        asInt32_of_fits fits]
    · refine (content_of_price ?_).trans ?_
      · exact occupied
      simp only [DepthLevel.decreaseQty, Level.adjusted, samePrice, sameQty, sameCount,
        asInt32_sub_asInt32, abs_of_nonpos (not_lt.mp rises), sub_neg_eq_add, asInt32_of_fits fits]
  · simp only [if_neg changes]
    have same : ladder.modify price (fun level => level.adjusted delta) = ladder := by
      refine OrderedMap.ext fun other => ?_
      rw [OrderedMap.get_modify, not_not.mp changes]
      split_ifs with here
      · rw [here, held, Option.map_some, Level.adjusted, add_zero]
      · rfl
    rw [same]
    exact windowed

theorem Windowed.keys_erase (windowed : Windowed size side ladder) (price : Price) :
    ∀ other level, (ladder.erase price).get other = some level → level.price = other := by
  intro other level there
  rw [OrderedMap.get_erase] at there
  split_ifs at there
  exact windowed.keys other level there

/-- Erasing the level of a price where it belongs. -/
theorem Windowed.eraseLevel (windowed : Windowed size side ladder) (orderly : Orderly size side)
    (held : ladder.get price = some level) (lastChanged : ChangeId) :
    ∃ next nextChanged, side.eraseLevel size lastChanged (placeOf size ladder price) =
        some (next, nextChanged) ∧
      Windowed size next (ladder.erase price) := by
  have keys := windowed.keys_erase price
  have entries := congrArg OrderedMap.entries windowed.excess
  rcases Nat.lt_or_ge (ladder.rank price) size with visible | behind
  · rw [placeOf_slot visible]
    obtain ⟨next, erases, slots, refilled⟩ :=
      eraseLevel_slot lastChanged visible (orderly.visible _ visible)
    have lastSlot : size - 1 < size := by omega
    have behindLast : size - 1 + 1 = size := by omega
    have tail : ((ladder.erase price).tail size).entries = ladder.entries.drop (size + 1) :=
      OrderedMap.drop_erase held visible
    -- what comes into the last slot is the first level behind it
    have last : (next.levels (size - 1)).content = ladder.entries[size]?.map Prod.snd ∧
        next.excess.mapValues DepthLevel.content =
          ((ladder.erase price).tail size).mapValues some := by
      have heads := congrArg List.head? entries
      rw [show (side.excess.mapValues DepthLevel.content).entries = side.excess.entries.map _ from rfl,
        show ((ladder.tail size).mapValues some).entries = (ladder.entries.drop size).map _ from rfl,
        List.head?_map, List.head?_map, List.head?_drop] at heads
      have noneLeft (none : ladder.entries[size]? = none) :
          side.excess.mapValues DepthLevel.content =
            ((ladder.erase price).tail size).mapValues some := by
        have bounded := List.getElem?_eq_none_iff.mp none
        refine windowed.excess.trans (OrderedMap.ext_entries ?_)
        show (ladder.entries.drop size).map _ = List.map _ ((ladder.erase price).tail size).entries
        rw [tail, List.drop_eq_nil_of_le bounded, List.drop_eq_nil_of_le (by omega)]
      rcases refilled.cases with ⟨key, first, head, lastLevel, rest⟩ | ⟨head, lastLevel, rest⟩ |
        ⟨-, empty, lastLevel, rest⟩
      · rw [head] at heads
        obtain ⟨rung, there, same⟩ := Option.map_eq_some_iff.mp heads.symm
        rw [lastLevel, rest, there, DepthLevel.content_moveUp]
        refine ⟨(Prod.mk.inj same).2.symm, OrderedMap.ext_entries ?_⟩
        show (side.excess.erase key).entries.map _ = List.map _ ((ladder.erase price).tail size).entries
        rw [OrderedMap.entries_erase_head head, tail, ← List.tail_drop, List.map_tail, List.map_tail]
        exact congrArg List.tail entries
      · rw [head] at heads
        have none := Option.map_eq_none_iff.mp heads.symm
        rw [lastLevel, rest, none]
        exact ⟨rfl, noneLeft none⟩
      · have none := (windowed.empty_slot_iff lastSlot).mp empty
        have beyond : ladder.entries[size]? = .none :=
          List.getElem?_eq_none ((List.getElem?_eq_none_iff.mp none).trans (Nat.sub_le size 1))
        rw [lastLevel, rest, windowed.visible _ lastSlot, none, beyond]
        exact ⟨rfl, noneLeft beyond⟩
    refine ⟨next, lastChanged + 1, erases, ?_, last.2, keys⟩
    intro idx bound
    rw [OrderedMap.getElem?_erase held]
    rcases Nat.lt_or_eq_of_le (Nat.le_sub_one_of_lt bound) with before | rfl
    · rw [slots idx before, orderly.content_shifted before]
      by_cases front : idx < ladder.rank price
      · rw [if_neg (not_le.mpr front), if_pos front]
        exact windowed.visible idx bound
      · rw [if_pos (not_lt.mp front), if_neg front]
        exact windowed.visible (idx + 1) (by omega)
    · rw [if_neg (by omega), behindLast]
      exact last.1
  · rw [placeOf_excess behind]
    have stored := windowed.excess_get price
    rw [if_pos behind, held, Option.map_some, Option.map_eq_some_iff] at stored
    obtain ⟨depthLevel, inExcess, -⟩ := stored
    obtain ⟨mark, key, -⟩ := orderly.excess price depthLevel inExcess
    have here : side.level (.excess price) = depthLevel := by
      rw [DepthSide.level, inExcess]
      rfl
    refine ⟨_, lastChanged, by rw [DepthSide.eraseLevel, here, if_pos mark, key], ?_, ?_, keys⟩
    · intro idx bound
      rw [OrderedMap.getElem?_erase held, if_pos (by omega)]
      exact windowed.visible idx bound
    · show (side.excess.erase price).mapValues _ = _
      rw [OrderedMap.mapValues_erase, windowed.excess, OrderedMap.tail_erase held behind,
        OrderedMap.mapValues_erase]

/-- Taking off one of several orders whose quantity the level has. -/
theorem Windowed.closeOrder_more (windowed : Windowed size side ladder) (positive : 0 < size)
    (held : ladder.get price = some level) (several : level.orderCount ≠ 0 ∧ level.orderCount ≠ 1)
    {openQty : Quantity} (enough : openQty ≤ level.qty) (fits : FitsInt32 (level.qty - openQty))
    (lastChanged : ChangeId) :
    ∃ next, side.closeOrder size lastChanged price openQty =
        some (next, lastChanged + 1, .ok false) ∧
      Windowed size next (ladder.modify price fun level => level.reduced openQty) := by
  obtain ⟨-, content⟩ := windowed.content_place held
  obtain ⟨samePrice, sameQty, sameCount, occupied⟩ := content_eq_some content
  have proper : price ≠ invalidLevelPrice := windowed.keys price level held ▸ occupied
  have closes : (side.level (placeOf size ladder price)).closeOrder openQty =
      .ok ({ side.level (placeOf size ladder price) with
        ordersCount := level.orderCount - 1, totalQty := level.qty - openQty }, false) := by
    simp only [DepthLevel.closeOrder, sameCount, sameQty, if_neg several.1, if_neg several.2,
      if_pos enough, asInt32_of_fits fits]
  unfold DepthSide.closeOrder
  rw [windowed.findLevel_held positive proper held]
  simp only [closes, modify_modify]
  refine ⟨_, rfl, windowed.modify held ?_ rfl⟩
  rw [DepthLevel.content_stamp]
  refine (content_of_price ?_).trans ?_
  · exact samePrice.trans_ne occupied
  · simp only [samePrice]
    rfl

theorem closeOrder_single {depthLevel : DepthLevel} (single : depthLevel.ordersCount = 1)
    (openQty : Quantity) :
    depthLevel.closeOrder openQty = .ok ({ depthLevel with ordersCount := 0, totalQty := 0 }, true) := by
  have used : depthLevel.ordersCount ≠ 0 := by
    rw [single]
    decide
  rw [DepthLevel.closeOrder, if_neg used, if_pos single]

/-- Taking off the last order of a level. -/
theorem Windowed.closeOrder_last (windowed : Windowed size side ladder)
    (orderly : Orderly size side) (positive : 0 < size) (held : ladder.get price = some level)
    (single : level.orderCount = 1) (openQty : Quantity) (lastChanged : ChangeId) :
    ∃ next nextChanged, side.closeOrder size lastChanged price openQty =
        some (next, nextChanged, .ok true) ∧
      Windowed size next (ladder.erase price) := by
  obtain ⟨points, content⟩ := windowed.content_place held
  obtain ⟨samePrice, -, sameCount, occupied⟩ := content_eq_some content
  have proper : price ≠ invalidLevelPrice := windowed.keys price level held ▸ occupied
  have closes := closeOrder_single (sameCount.trans single) openQty
  have emptied : Windowed size
      (side.modify (placeOf size ladder price) fun _ =>
        { side.level (placeOf size ladder price) with ordersCount := 0, totalQty := 0 })
      (ladder.modify price fun level => ⟨level.price, 0, 0⟩) := by
    refine windowed.modify held ?_ rfl
    refine (content_of_price ?_).trans ?_
    · exact samePrice.trans_ne occupied
    · simp only [samePrice]
  have emptiedOrderly : Orderly size
      (side.modify (placeOf size ladder price) fun _ =>
        { side.level (placeOf size ladder price) with ordersCount := 0, totalQty := 0 }) :=
    orderly.modify _ rfl rfl fun empty => absurd empty (samePrice.trans_ne occupied)
  have emptiedHeld : (ladder.modify price fun level => ⟨level.price, 0, 0⟩).get price =
      some ⟨level.price, 0, 0⟩ := by
    rw [OrderedMap.get_modify, if_pos rfl, held]
    rfl
  obtain ⟨next, nextChanged, erases, nextWindowed⟩ :=
    emptied.eraseLevel emptiedOrderly emptiedHeld lastChanged
  have place : placeOf size (ladder.modify price fun level => ⟨level.price, 0, 0⟩) price =
      placeOf size ladder price := placeOf_congr (OrderedMap.rank_modify ..)
  rw [place] at erases
  have same : (ladder.modify price fun level => ⟨level.price, 0, 0⟩).erase price =
      ladder.erase price := by
    refine OrderedMap.ext fun other => ?_
    rw [OrderedMap.get_erase, OrderedMap.get_erase, OrderedMap.get_modify]
    split_ifs <;> rfl
  unfold DepthSide.closeOrder
  rw [windowed.findLevel_held positive proper held]
  simp only [closes, erases]
  exact ⟨next, nextChanged, rfl, same ▸ nextWindowed⟩

/-! ### The last slot -/

/-- The side with an order of a new price that belongs in the last slot, which went to the excess
levels. -/
def misplaced (side : DepthSide isBid) (price : Price) (qty : Quantity) : DepthSide isBid :=
  { side with
    excess := (side.excess.insert price (({} : DepthLevel).init price true)).modify price
      fun level => level.addOrder qty }

theorem Windowed.notInExcess (windowed : Windowed size side ladder)
    (visible : ladder.rank price < size) : side.excess.get price = none := by
  have stored := windowed.excess_get price
  rwa [if_neg (not_le.mpr visible), Option.map_eq_none_iff] at stored

theorem Windowed.addOrder_last (windowed : Windowed size side ladder) (positive : 0 < size)
    (proper : price ≠ invalidLevelPrice) (last : ladder.rank price = size - 1)
    (lastChanged : ChangeId) (qty : Quantity) :
    side.addOrder size lastChanged price qty = (side.misplaced price qty, lastChanged) := by
  have absent := windowed.notInExcess (show ladder.rank price < size by omega)
  have stops : search isBid side.levels price true (size - 1) 0 = .last := by
    obtain ⟨stop, stops⟩ : ∃ stop, search isBid side.levels price true (size - 1) 0 = stop :=
      ⟨_, rfl⟩
    have ok := windowed.search_create proper stop stops
    cases stop with
    | found idx => exact absurd ok.1 (by rw [ok.2.1, last]; exact lt_irrefl _)
    | vacant idx => exact absurd ok.1 (by rw [ok.2.1, last]; exact lt_irrefl _)
    | before idx => exact absurd ok.1 (by rw [ok.2.1, last]; exact lt_irrefl _)
    | last => exact stops
  have isExcess : (((side.excess.insert price (({} : DepthLevel).init price true)).modify price
      fun level => level.addOrder qty).get price).getD {} =
        ((({} : DepthLevel).init price true).addOrder qty) := by
    rw [OrderedMap.get_modify, if_pos rfl, OrderedMap.get_insert, if_pos rfl, absent]
    rfl
  unfold DepthSide.addOrder findLevel
  rw [stops]
  simp only [absent, Option.isSome_none, Bool.false_eq_true, if_false, if_true]
  refine if_pos ?_
  show ((((side.excess.insert price (({} : DepthLevel).init price true)).modify price
    fun level => level.addOrder qty).get price).getD {}).isExcess = true
  rw [isExcess]
  rfl

/-- The first excess level of a side with a misplaced order is that order's. -/
theorem Windowed.head_misplaced (windowed : Windowed size side ladder)
    (absent : ladder.get price = none) (visible : ladder.rank price < size) (qty : Quantity) :
    (side.misplaced price qty).excess.entries.head? =
      some (price, (({} : DepthLevel).init price true).addOrder qty) := by
  have first : ∀ stored ∈ side.excess.entries, better isBid price stored.1 := by
    intro stored member
    have held := OrderedMap.get_eq_some_iff.mpr member
    have there := windowed.excess_get stored.1
    rw [held] at there
    split_ifs at there with behind
    · obtain ⟨level, inLadder, -⟩ := Option.map_eq_some_iff.mp there.symm
      have position := OrderedMap.getElem?_rank inLadder
      have notBefore : ¬ better isBid stored.1 price := fun less => by
        have front := (OrderedMap.before_iff_lt_rank position price).mp less
        omega
      refine ((trichotomous_of (better isBid) stored.1 price).resolve_left notBefore).resolve_left ?_
      intro same
      rw [same, absent] at inLadder
      cases inLadder
    · cases there
  show ((side.excess.insert price _).entries.map _).head? = _
  rw [OrderedMap.entries_insert_front first, List.map_cons, List.head?_cons]
  simp

/-- The search for a price in the last slot comes back to that slot. -/
theorem Windowed.findLevel_misplaced (windowed : Windowed size side ladder) (positive : 0 < size)
    (held : ladder.get price = some level) (last : ladder.rank price = size - 1) {newPrice : Price}
    (different : newPrice ≠ price) (newQty : Quantity) (lastChanged : ChangeId) :
    (side.misplaced newPrice newQty).findLevel size lastChanged price false =
      (side.misplaced newPrice newQty, lastChanged, .slot (size - 1)) := by
  obtain ⟨ptr, found, place⟩ :=
    findLevel_of_not_create size (side.misplaced newPrice newQty) lastChanged price
  have notInExcess : (side.misplaced newPrice newQty).excess.get price = none := by
    show ((side.excess.insert newPrice _).modify newPrice _).get price = none
    rw [OrderedMap.get_modify, if_neg different.symm, OrderedMap.get_insert,
      if_neg different.symm]
    exact windowed.notInExcess (by omega)
  rw [found]
  rcases place with ⟨idx, before, -, here⟩ | ⟨-, ⟨inExcess, -⟩ | ⟨-, rfl⟩⟩
  · have occupied := (content_eq_some (windowed.content_place held).2).2.2.2
    have proper : price ≠ invalidLevelPrice := windowed.keys price level held ▸ occupied
    obtain ⟨level, there⟩ := windowed.getElem?_of_price (by omega) proper here
    have rank := OrderedMap.rank_eq_of_getElem? there
    omega
  · rw [notInExcess] at inExcess
    cases inExcess
  · rfl

/-- Without the misplaced order the excess levels are those that were there. -/
theorem Windowed.erase_misplaced (windowed : Windowed size side ladder)
    (visible : ladder.rank price < size) (qty : Quantity) :
    (side.misplaced price qty).excess.erase price = side.excess := by
  refine OrderedMap.ext fun other => ?_
  show (((side.excess.insert price _).modify price _).erase price).get other = _
  rw [OrderedMap.get_erase]
  split_ifs with same
  · rw [same, windowed.notInExcess visible]
  · rw [OrderedMap.get_modify, if_neg same, OrderedMap.get_insert, if_neg same]

/-- A ladder keeps its levels under their prices when an order of a new price is entered. -/
theorem keys_enter (keys : ∀ other level, ladder.get other = some level → level.price = other)
    (absent : ladder.get price = none) (qty : Quantity) :
    ∀ other level, (enter ladder price qty).get other = some level → level.price = other := by
  intro other stored there
  rw [enter, OrderedMap.get_modify] at there
  split_ifs at there with same
  · rw [OrderedMap.get_insert, if_pos rfl, absent] at there
    rw [← Option.some.inj there, same]
    rfl
  · rw [OrderedMap.get_insert, if_neg same] at there
    exact keys other stored there

/-- Closing the level in the last slot moves the misplaced order there, and leaves the slots in front
of it. -/
theorem Windowed.closeOrder_lastSlot (windowed : Windowed size side ladder)
    (orderly : Orderly size side) (positive : 0 < size) {newPrice : Price}
    (held : ladder.get price = some level) (single : level.orderCount = 1)
    (last : ladder.rank price = size - 1) (absent : ladder.get newPrice = none)
    (newLast : ladder.rank newPrice = size - 1) (different : newPrice ≠ price)
    (newQty openQty : Quantity) (lastChanged : ChangeId) :
    ∃ next nextChanged, (side.misplaced newPrice newQty).closeOrder size lastChanged price openQty =
        some (next, nextChanged, .ok true) ∧
      (∀ idx < size - 1, (next.levels idx).content = (side.levels idx).content) ∧
      (next.levels (size - 1)).content =
        ((({} : DepthLevel).init newPrice true).addOrder newQty).content ∧
      next.excess = side.excess := by
  have lastSlot : size - 1 < size := by omega
  have head := windowed.head_misplaced absent (by omega) newQty
  have found := windowed.findLevel_misplaced positive held last different newQty lastChanged
  have shown := windowed.visible _ lastSlot
  rw [← last, OrderedMap.getElem?_rank held, Option.map_some, last] at shown
  obtain ⟨-, -, sameCount, -⟩ := content_eq_some shown
  have closes : ((side.misplaced newPrice newQty).level (.slot (size - 1))).closeOrder openQty =
      .ok ({ side.levels (size - 1) with ordersCount := 0, totalQty := 0 }, true) :=
    closeOrder_single (sameCount.trans single) openQty
  have visible : (((side.misplaced newPrice newQty).modify (.slot (size - 1)) fun _ =>
      { side.levels (size - 1) with ordersCount := 0, totalQty := 0 }).levels
        (size - 1)).isExcess = false := by
    show (Function.update side.levels (size - 1) _ (size - 1)).isExcess = false
    rw [Function.update_self]
    exact orderly.visible _ lastSlot
  obtain ⟨next, erases, slots, refilled⟩ := eraseLevel_slot lastChanged lastSlot visible
  unfold Refilled at refilled
  rw [if_pos (.inl rfl)] at refilled
  simp only [show ((side.misplaced newPrice newQty).modify (.slot (size - 1)) fun _ =>
    { side.levels (size - 1) with ordersCount := 0, totalQty := 0 }).excess =
      (side.misplaced newPrice newQty).excess from rfl, head] at refilled
  obtain ⟨lastLevel, rest⟩ := refilled
  refine ⟨next, lastChanged + 1, ?_, fun idx before => ?_, ?_, ?_⟩
  · unfold DepthSide.closeOrder
    rw [found]
    simp only [closes, erases]
    rfl
  · rw [slots idx before, shifted, if_neg (by omega)]
    show (Function.update side.levels (size - 1) _ idx).content = _
    rw [Function.update_of_ne before.ne]
  · rw [lastLevel, DepthLevel.content_moveUp]
  · rw [rest, windowed.erase_misplaced (by omega)]

/-- The misplaced order comes into the last slot when the level there is closed. -/
theorem Windowed.closeOrder_misplaced (windowed : Windowed size side ladder)
    (orderly : Orderly size side) (positive : 0 < size) {newPrice : Price}
    (proper : newPrice ≠ invalidLevelPrice) (held : ladder.get price = some level)
    (single : level.orderCount = 1) (last : ladder.rank price = size - 1)
    (newLast : ladder.rank newPrice = size - 1) (different : newPrice ≠ price)
    {newQty : Quantity} (fits : FitsInt32 newQty) (openQty : Quantity) (lastChanged : ChangeId) :
    ∃ next nextChanged, (side.misplaced newPrice newQty).closeOrder size lastChanged price openQty =
        some (next, nextChanged, .ok true) ∧
      Windowed size next (enter (ladder.erase price) newPrice newQty) := by
  have sameRank := newLast.trans last.symm
  have absent := OrderedMap.get_eq_none_of_rank_eq held sameRank different
  obtain ⟨next, nextChanged, closes, slots, lastLevel, rest⟩ := windowed.closeOrder_lastSlot orderly
    positive held single last absent newLast different newQty openQty lastChanged
  refine ⟨next, nextChanged, closes, ?_⟩
  -- the new price takes the position of the old one
  have rank : (ladder.erase price).rank newPrice = size - 1 :=
    (OrderedMap.rank_erase_of_rank_eq held sameRank).trans newLast
  have stillAbsent : (ladder.erase price).get newPrice = none := by
    rw [OrderedMap.get_erase, if_neg different, absent]
  have heldNew : ((ladder.erase price).insert newPrice (opened newPrice)).get newPrice =
      some (opened newPrice) := by
    rw [OrderedMap.get_insert, if_pos rfl, stillAbsent]
    rfl
  have rankNew : ((ladder.erase price).insert newPrice (opened newPrice)).rank newPrice =
      size - 1 := (OrderedMap.rank_insert_self ..).trans rank
  refine ⟨fun idx bound => ?_, ?_, ?_⟩
  · rw [enter, OrderedMap.getElem?_modify heldNew, rankNew, OrderedMap.getElem?_insert stillAbsent,
      rank, OrderedMap.getElem?_erase held, last]
    rcases Nat.lt_or_eq_of_le (Nat.le_sub_one_of_lt bound) with before | rfl
    · rw [slots idx before, if_neg before.ne, if_pos before, if_pos before]
      exact windowed.visible idx bound
    · rw [if_pos rfl, lastLevel]
      refine (content_of_price ?_).trans ?_
      · exact proper
      · have total : asInt32 (0 + newQty) = 0 + newQty := by rw [zero_add, asInt32_of_fits fits]
        exact congrArg (fun qty => some (Level.mk newPrice qty 1)) total
  · rw [rest, windowed.excess]
    refine OrderedMap.ext_entries ?_
    show (ladder.entries.drop size).map _ =
      ((enter (ladder.erase price) newPrice newQty).tail size).entries.map _
    have absentBehind : (((ladder.erase price).insert newPrice (opened newPrice)).tail size).get
        newPrice = none := by
      rw [OrderedMap.get_tail, if_neg (by omega)]
    rw [enter, OrderedMap.tail_modify, OrderedMap.modify_of_absent absentBehind]
    show _ = (((ladder.erase price).insert newPrice (opened newPrice)).entries.drop size).map _
    rw [OrderedMap.drop_insert stillAbsent _ (by omega)]
    refine congrArg _ (List.ext_getElem? fun idx => ?_)
    rw [List.getElem?_drop, List.getElem?_drop, OrderedMap.getElem?_erase held, if_neg (by omega)]
    exact congrArg (fun idx => ladder.entries[idx]?) (by omega)
  · exact keys_enter (windowed.keys_erase price) stillAbsent newQty

end DepthSide

end ObLib
