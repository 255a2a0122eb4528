/-
This file proves exactly when the levels of the order book stay well formed: keyed by
the priority of their price, with a quantity and an order, so that `GetBestPrice`
quotes the best level of each side.

A level is left without an order, or without its price, by four kinds of step: one that
takes an order off a level with one order but not its whole quantity, a modify that
moves an order to the other side, and a modify that raises the quantity of an order
whose level is gone. Every other step keeps the levels well formed, whatever ids, sides
and quantities the messages name.
-/

import OrderBookSketch.OrderBookType2Steps

namespace ObLib

open Containers Runs

namespace BookOver

/-! ### Well-formed levels -/

/-- Every level stands under the priority of its price and has a quantity and an order. -/
def SoundSide (isBuy : Bool) (levels : Levels) : Prop :=
  ∀ it level, levels.get it = some level →
    it = prio isBuy level.price ∧ 0 < level.qty ∧ 1 ≤ level.orderCount

def Sound {Index : Type} (book : BookOver Index) : Prop :=
  ∀ isBuy, SoundSide isBuy (book.side isBuy)

/-- The price and quantity are those of a level no other level is better than, or 0 on an
empty side. -/
def BestIn (levels : Levels) (notBetter : Price → Price → Prop) (price : Price)
    (qty : Quantity) : Prop :=
  (levels.entries = [] ∧ price = 0 ∧ qty = 0) ∨
    ∃ entry ∈ levels.entries, entry.2.price = price ∧ entry.2.qty = qty ∧
      ∀ other ∈ levels.entries, notBetter other.2.price price

/-- `GetBestPrice` returns the highest bid and the lowest ask of the levels. -/
def QuotesBest (book : OrderBookType2) : Prop :=
  BestIn book.buy (· ≤ ·) book.getBestPrice.bid book.getBestPrice.bidqty ∧
    BestIn book.sell (· ≥ ·) book.getBestPrice.ask book.getBestPrice.askqty

theorem bestIn_empty {levels : Levels} (none : levels.entries.getLast? = none)
    (notBetter : Price → Price → Prop) : BestIn levels notBetter 0 0 :=
  .inl ⟨List.getLast?_eq_none_iff.mp none, rfl, rfl⟩

/-- The last entry of a side whose levels are under their priorities has the best price. -/
theorem SoundSide.bestIn {isBuy : Bool} {levels : Levels} (sound : SoundSide isBuy levels)
    {notBetter : Price → Price → Prop}
    (order : ∀ price other, prio isBuy price ≤ prio isBuy other → notBetter other price)
    {it : Int} {level : Level} (last : levels.entries.getLast? = some (it, level)) :
    BestIn levels notBetter level.price level.qty := by
  have key (entry : Int × Level) (member : entry ∈ levels.entries) :
      entry.1 = prio isBuy entry.2.price :=
    (sound entry.1 entry.2 (OrderedMap.get_eq_some_iff.mpr member)).1
  have lastMember := List.mem_of_getLast? last
  refine .inr ⟨(it, level), lastMember, rfl, rfl, fun other member => order _ _ ?_⟩
  rw [← key other member, ← key (it, level) lastMember]
  rcases OrderedMap.before_of_getLast? last member with rfl | later
  · exact le_rfl
  · exact le_of_lt later

theorem Sound.quotesBest {book : OrderBookType2} (sound : book.Sound) : book.QuotesBest := by
  have bidOrder (price other : Price) (le : prio true price ≤ prio true other) : other ≤ price :=
    neg_le_neg_iff.mp le
  constructor
  · unfold getBestPrice
    cases bid : book.buy.entries.getLast? <;> cases ask : book.sell.entries.getLast?
    · exact bestIn_empty bid _
    · exact bestIn_empty bid _
    · exact (sound true).bestIn bidOrder bid
    · exact (sound true).bestIn bidOrder bid
  · unfold getBestPrice
    cases bid : book.buy.entries.getLast? <;> cases ask : book.sell.entries.getLast?
    · exact bestIn_empty ask _
    · exact (sound false).bestIn (fun _ _ => id) ask
    · exact bestIn_empty ask _
    · exact (sound false).bestIn (fun _ _ => id) ask

/-! ### The operations on a side -/

/-- Taking the quantity and an order off the level does not leave a quantity without an
order. -/
def Reducible (levels : Levels) (it : Int) (qty : Quantity) : Prop :=
  ∀ level ∈ levels.get it, level.qty ≤ qty ∨ 2 ≤ level.orderCount

variable {isBuy : Bool} {levels : Levels} {it : Int} {qty : Quantity}

theorem soundSide_empty (isBuy : Bool) : SoundSide isBuy OrderedMap.empty := by
  intro it level stored
  cases stored

theorem soundSide_reduce_iff (sound : SoundSide isBuy levels) :
    SoundSide isBuy (reduce levels it qty) ↔ Reducible levels it qty := by
  constructor
  · intro reduced level stored
    by_cases spent : level.qty ≤ qty
    · exact .inl spent
    · have kept : (reduce levels it qty).get it = some (level.reduced qty) := by
        rw [get_reduce, if_pos rfl, stored, Option.map_some, unspent_some, if_pos]
        exact sub_pos.mpr (not_le.mp spent)
      have count : 1 ≤ level.orderCount - 1 := (reduced it _ kept).2.2
      exact .inr (by linarith)
  · intro reducible other level stored
    rw [get_reduce] at stored
    split_ifs at stored with same
    · cases before : levels.get it with
      | none =>
        rw [before] at stored
        cases stored
      | some old =>
        rw [before, Option.map_some, unspent_some] at stored
        split_ifs at stored with left
        obtain rfl := Option.some.inj stored
        obtain ⟨key, -, -⟩ := sound it old before
        refine ⟨same.trans key, left, ?_⟩
        have enough := (reducible old before).resolve_left (not_le.mpr (sub_pos.mp left))
        show 1 ≤ old.orderCount - 1
        linarith
    · exact sound other level stored

theorem soundSide_enter {price : Price} (sound : SoundSide isBuy levels) (positive : 0 < qty) :
    SoundSide isBuy (enter levels (prio isBuy price) price qty) := by
  intro other level stored
  rw [get_enter] at stored
  split_ifs at stored with same
  · obtain rfl := Option.some.inj stored
    refine ⟨same, ?_⟩
    cases before : levels.get (prio isBuy price) with
    | none => exact ⟨by simpa [Level.entered] using positive, le_rfl⟩
    | some old =>
      obtain ⟨-, oldPositive, oldCount⟩ := sound _ old before
      exact ⟨add_pos oldPositive positive, by
        show 1 ≤ old.orderCount + 1
        linarith⟩
  · exact sound other level stored

/-- A modify that moves an order keeps a side well formed when the old level can give the order
up and the order stays on its side. -/
theorem soundSide_move_iff {newSide : Bool} {price newPrice : Price} {newQty : Quantity}
    (sound : SoundSide isBuy levels) (positive : 0 < newQty) (pricePositive : 0 < newPrice)
    (moves : newPrice ≠ price) :
    SoundSide isBuy
        (enter (reduce levels (prio isBuy price) qty) (prio newSide newPrice) newPrice newQty) ↔
      newSide = isBuy ∧ Reducible levels (prio isBuy price) qty := by
  constructor
  · intro moved
    have entered := moved (prio newSide newPrice) _ (by rw [get_enter, if_pos rfl])
    have sameSide : newSide = isBuy := by
      by_contra different
      rw [Bool.eq_not_of_ne different] at entered
      exact prio_ne_prio_not pricePositive pricePositive entered.1.symm
    refine ⟨sameSide, (soundSide_reduce_iff sound).mp fun other level stored => ?_⟩
    rw [sameSide] at moved
    by_cases here : other = prio isBuy newPrice
    · rw [get_reduce, if_neg (by rw [here, prio_inj]; exact moves)] at stored
      exact sound other level stored
    · exact moved other level (by rwa [get_enter, if_neg here])
  · rintro ⟨rfl, reducible⟩
    exact soundSide_enter ((soundSide_reduce_iff sound).mpr reducible) positive

/-- A modify that changes a quantity keeps a side well formed when the quantity falls or the
level is there. -/
theorem soundSide_adjust_iff {delta : Quantity} (sound : SoundSide isBuy levels) :
    SoundSide isBuy (adjust levels it delta) ↔ delta ≤ 0 ∨ (levels.get it).isSome := by
  constructor
  · intro adjusted
    by_contra fails
    obtain ⟨raised, gone⟩ := not_or.mp fails
    have absent : levels.get it = none := by simpa using gone
    have made : (adjust levels it delta).get it = some (Level.adjusted {} delta) := by
      rw [get_adjust, if_pos rfl, absent, Option.getD_none, unspent_some, if_pos]
      simpa [Level.adjusted] using raised
    have count : (1 : Int) ≤ 0 := (adjusted it _ made).2.2
    exact absurd count (by decide)
  · intro fits other level stored
    rw [get_adjust] at stored
    split_ifs at stored with same
    · rw [unspent_some] at stored
      split_ifs at stored with left
      obtain rfl := Option.some.inj stored
      cases before : levels.get it with
      | none =>
        rw [before] at left fits
        have raised : ¬ delta ≤ 0 := by simpa [Level.adjusted] using left
        simp [raised] at fits
      | some old =>
        rw [before] at left
        obtain ⟨key, -, count⟩ := sound it old before
        exact ⟨same.trans key, left, count⟩
    · exact sound other level stored

/-! ### One message -/

/-- A modify of an order leaves its levels well formed. -/
def SafeModify (book : SpecBook) (newOrder stored : Order) : Prop :=
  (newOrder.price ≠ stored.price → newOrder.isBuy = stored.isBuy ∧
      Reducible (book.side stored.isBuy) (prio stored.isBuy stored.price) stored.qty) ∧
    (newOrder.price = stored.price → newOrder.qty ≤ stored.qty ∨
      ((book.side stored.isBuy).get (prio stored.isBuy stored.price)).isSome)

/-- A message leaves the levels it reaches well formed. -/
def SafeStep (book : SpecBook) : Message → Prop
  | .ofOrder order =>
    ∀ stored ∈ book.orders order.orderId,
      (order.type = 'M' → SafeModify book order stored) ∧
      (order.type = 'X' →
        Reducible (book.side stored.isBuy) (prio stored.isBuy stored.price) stored.qty)
  | .ofTrade trade =>
    (book.BuyLegRuns trade → Reducible (book.side true) (prio true trade.price) trade.qty) ∧
      (book.SellLegRuns trade → Reducible (book.side false) (prio false trade.price) trade.qty)

instance (levels : Levels) (it : Int) (qty : Quantity) : Decidable (Reducible levels it qty) :=
  inferInstanceAs (Decidable (∀ level ∈ levels.get it, _))

instance (book : SpecBook) (newOrder stored : Order) : Decidable (SafeModify book newOrder stored) :=
  inferInstanceAs (Decidable (_ ∧ _))

instance (book : SpecBook) : ∀ message, Decidable (SafeStep book message)
  | .ofOrder order => inferInstanceAs (Decidable (∀ stored ∈ book.orders order.orderId, _))
  | .ofTrade _ => inferInstanceAs (Decidable (_ ∧ _))

/-- Prices and quantities are positive. -/
def Positive : Message → Prop
  | .ofOrder order => 0 < order.price ∧ 0 < order.qty
  | .ofTrade trade => 0 < trade.price ∧ 0 < trade.qty

/-- So are those of the orders in an index. -/
def StoredPositive (book : SpecBook) : Prop :=
  ∀ orderId stored, book.orders orderId = some stored → 0 < stored.price ∧ 0 < stored.qty

variable {book next : SpecBook}

/-- Where one side is replaced, the levels are well formed when the new ones are. -/
theorem sound_iff_of_side (sound : book.Sound) {levels : Levels}
    (sides : ∀ other, next.side other = if other = isBuy then levels else book.side other) :
    next.Sound ↔ SoundSide isBuy levels := by
  constructor
  · intro nextSound
    have replaced := nextSound isBuy
    rwa [sides, if_pos rfl] at replaced
  · intro replaced other
    rw [sides]
    split_ifs with same
    · exact same ▸ replaced
    · exact sound other

theorem sound_specAdd (sound : book.Sound) {order : Order} (positive : 0 < order.qty) :
    (book.specAdd order).1.Sound :=
  (sound_iff_of_side sound (book.side_specAdd order)).mpr
    (soundSide_enter (sound order.isBuy) positive)

theorem sound_specRemove_iff (sound : book.Sound) (stored : Order) (orderId : OrderId) :
    (book.specRemove stored orderId).1.Sound ↔
      Reducible (book.side stored.isBuy) (prio stored.isBuy stored.price) stored.qty :=
  (sound_iff_of_side sound (book.side_specRemove stored orderId)).trans
    (soundSide_reduce_iff (sound stored.isBuy))

theorem sound_modifyOrder_iff (sound : book.Sound) {newOrder stored : Order}
    (positive : 0 < newOrder.price ∧ 0 < newOrder.qty) (storedPositive : 0 < stored.qty) :
    (book.modifyOrder newOrder stored).1.Sound ↔ SafeModify book newOrder stored := by
  unfold SafeModify
  by_cases moves : newOrder.price ≠ stored.price
  · simp only [moves, ne_eq, not_false_eq_true, forall_const, IsEmpty.forall_iff, and_true]
    exact (sound_iff_of_side sound (book.side_modifyOrder_price moves storedPositive)).trans
      (soundSide_move_iff (sound stored.isBuy) positive.2 positive.1 moves)
  · have stays : newOrder.price = stored.price := not_not.mp moves
    simp only [stays, ne_eq, not_true_eq_false, IsEmpty.forall_iff, forall_const, true_and]
    by_cases differs : newOrder.qty ≠ stored.qty
    · rw [← sub_nonpos]
      exact (sound_iff_of_side sound (book.side_modifyOrder_qty stays differs)).trans
        (soundSide_adjust_iff (sound stored.isBuy))
    · have same : newOrder.qty = stored.qty := not_not.mp differs
      rw [modifyOrder_same book stays same]
      exact ⟨fun _ => .inl same.le, fun _ => sound⟩

theorem sound_specProcessOrder_iff (sound : book.Sound) (stored : StoredPositive book)
    {order : Order} (positive : 0 < order.price ∧ 0 < order.qty) :
    (book.specProcessOrder order).1.Sound ↔ SafeStep book (.ofOrder order) := by
  unfold specProcessOrder SafeStep
  split
  next new =>
    unfold specProcessNew
    cases found : book.orders order.orderId with
    | none => simp [found, sound_specAdd sound positive.2]
    | some old => simp [new, sound]
  next modify =>
    unfold specProcessModify
    cases found : book.orders order.orderId with
    | none => simp [found, sound_specAdd sound positive.2]
    | some old => simp [found, modify, sound_modifyOrder_iff sound positive (stored _ old found).2]
  next cancel =>
    unfold specProcessCancel
    cases found : book.orders order.orderId with
    | none => simp [found, sound]
    | some old => simp [found, cancel, sound_specRemove_iff sound]
  next notNew notModify notCancel =>
    exact ⟨fun _ old _ => ⟨fun modify => absurd modify notModify,
      fun cancel => absurd cancel notCancel⟩, fun _ => sound⟩

theorem sound_specProcessTrade_iff (sound : book.Sound) (trade : Trade) :
    (book.specProcessTrade trade).1.Sound ↔ SafeStep book (.ofTrade trade) := by
  have leg (isBuy : Bool) (runs : Prop) [Decidable runs] :
      SoundSide isBuy (if runs then reduce (book.side isBuy) (prio isBuy trade.price) trade.qty
        else book.side isBuy) ↔
        (runs → Reducible (book.side isBuy) (prio isBuy trade.price) trade.qty) := by
    split_ifs with here
    · rw [soundSide_reduce_iff (sound isBuy)]
      exact ⟨fun reducible _ => reducible, fun reducible => reducible here⟩
    · exact ⟨fun _ runs => absurd runs here, fun _ => sound isBuy⟩
  unfold Sound SafeStep
  simp only [side_specProcessTrade, Bool.forall_bool, leg]
  simp [and_comm]

/-- A message keeps the levels well formed exactly when it is a safe step. -/
theorem sound_specProcess_iff (sound : book.Sound) (stored : StoredPositive book)
    {message : Message} (positive : Positive message) :
    (book.specProcess message).1.Sound ↔ SafeStep book message := by
  cases message with
  | ofOrder order => exact sound_specProcessOrder_iff sound stored positive
  | ofTrade trade => exact sound_specProcessTrade_iff sound trade

theorem storedPositive_specProcess (stored : StoredPositive book) {message : Message}
    (positive : Positive message) : StoredPositive (book.specProcess message).1 := by
  intro orderId order found
  rcases stored_specProcess book found with before | ⟨rfl, -⟩
  · exact stored orderId order before
  · exact positive

/-! ### Every run -/

theorem storedPositive_create {sizeHint : Nat} {book : OrderBookType2}
    (created : create sizeHint = some book) : StoredPositive book.contents := by
  rw [(indexes_create created).contents_eq]
  exact nofun

/-- A book whose orders are positive answers a positive message, and its orders are so again. -/
theorem Reachable.process_positive {book : OrderBookType2} (reachable : Reachable book)
    (stored : StoredPositive book.contents) {message : Message}
    (fits : Proper message ∧ Positive message) :
    ∃ next, book.process message = some (next, (book.contents.specProcess message).2) ∧
      next.contents = (book.contents.specProcess message).1 ∧ Reachable next ∧
      StoredPositive next.contents := by
  obtain ⟨next, returns, again, contents⟩ := reachable.process_returns fits.1
  exact ⟨next, returns, contents, again, contents ▸ storedPositive_specProcess stored fits.2⟩

/-- Over a run of messages with positive prices and quantities, the levels of every book reached
are well formed and the best of them quoted exactly when every message is a safe step. -/
theorem sound_throughout_iff {sizeHint : Nat} {book : OrderBookType2}
    (created : create sizeHint = some book) (messages : List Message)
    (fits : ∀ message ∈ messages, Proper message ∧ Positive message) :
    Throughout process (fun book => book.Sound ∧ book.QuotesBest) book messages ↔
      EachStep process (fun book message => SafeStep book.contents message) book messages := by
  have start := indexes_create created
  have soundStart : book.Sound := by
    intro isBuy
    rw [start.side_eq]
    cases isBuy <;> exact soundSide_empty _
  have decides (book : OrderBookType2) (message : Message)
      (invariant : Reachable book ∧ StoredPositive book.contents)
      (holds : book.Sound ∧ book.QuotesBest) (allowed : Proper message ∧ Positive message) :
      ∃ next result, book.process message = some (next, result) ∧
        ((next.Sound ∧ next.QuotesBest) ↔ SafeStep book.contents message) ∧
        (SafeStep book.contents message → Reachable next ∧ StoredPositive next.contents) := by
    obtain ⟨reachable, stored⟩ := invariant
    obtain ⟨next, returns, contents, again⟩ := reachable.process_positive stored allowed
    have sound : book.contents.Sound := holds.1
    refine ⟨next, _, returns, ?_, fun _ => again⟩
    rw [← sound_specProcess_iff sound stored allowed.2, ← contents]
    exact ⟨And.left, fun nextSound => ⟨nextSound, Sound.quotesBest nextSound⟩⟩
  exact throughout_iff decides messages book ⟨.create created, storedPositive_create created⟩
    ⟨soundStart, soundStart.quotesBest⟩ (eachStep_of_forall (fun _ => fits) book)

/-- Two bids at one price and an ask: a modify, a trade that fills a bid, a trade of an unknown
order, and a cancel. -/
theorem sound_throughout_example :
    ∃ book, create 1 = some book ∧
      Throughout process (fun book => book.Sound ∧ book.QuotesBest) book
        [.ofOrder { type := 'N', orderId := 1, orderType := 'B', price := 100, qty := 10 },
          .ofOrder { type := 'N', orderId := 2, orderType := 'B', price := 100, qty := 5 },
          .ofOrder { type := 'M', orderId := 3, orderType := 'S', price := 102, qty := 7 },
          .ofOrder { type := 'M', orderId := 2, orderType := 'S', price := 100, qty := 8 },
          .ofTrade { buyOrderId := 1, sellOrderId := 9, price := 100, qty := 10 },
          .ofTrade { buyOrderId := 0, sellOrderId := 3, price := 102, qty := 2 },
          .ofOrder { type := 'X', orderId := 3, orderType := 'S', price := 102, qty := 7 }] := by
  have created : create 1 = some ⟨.empty, .empty, .empty 1 emptyOrderId⟩ := rfl
  refine ⟨_, created, (sound_throughout_iff created _ ?_).mpr (by decide)⟩
  simp [Proper, Positive, emptyOrderId]

/-- A bid of 10 and a trade of 3 of it leave a level of 7 with no order. -/
theorem partial_fill_unsound :
    ∃ book, create 1 = some book ∧
      ¬ Throughout process (fun book => book.Sound ∧ book.QuotesBest) book
        [.ofOrder { type := 'N', orderId := 1, orderType := 'B', price := 100, qty := 10 },
          .ofTrade { buyOrderId := 1, sellOrderId := 0, price := 100, qty := 3 }] := by
  refine ⟨_, rfl, ?_⟩
  rintro ⟨-, -, sound, -⟩
  have count : (1 : Int) ≤ 0 := (sound true (-100) ⟨100, 7, 0⟩ rfl).2.2
  exact absurd count (by decide)

end BookOver

end ObLib
