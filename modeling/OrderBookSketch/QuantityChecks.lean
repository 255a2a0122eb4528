/-
This file proves when the state of an order and a level of the depth give out no more
than they have.

Three calls take quantities out and check what is there in three ways. `change_qty`
throws, but asks for the size of the least `int32_t`, which has none, and adds without
looking at the range; `fill` makes its exception and does not throw it; `close_order`
does neither for the last order of a level, and for the others makes an exception that it
does not throw and leaves the total as it is.
-/

import OrderBookSketch.OrderBook
import OrderBookSketch.Library.Run

namespace ObLib

open Runs

/-- An order's state and a level, which the calls take quantities out of. -/
structure Stock where
  keeper : OrderStateKeeper
  level : DepthLevel
deriving DecidableEq, Repr

inductive TakeCall where
  | fill (qty : Quantity)
  | changeQty (delta : Quantity)
  | closeOrder (qty : Quantity)
deriving DecidableEq, Repr

namespace Stock

/-- A call, with the stock as it is at a throw and the text of the exception. -/
def step (stock : Stock) : TakeCall → Option (Stock × Except String Unit)
  | .fill qty => some ({ stock with keeper := stock.keeper.fill qty }, .ok ())
  | .changeQty delta =>
    match stock.keeper.changeQty delta with
    | .error text => some (stock, .error text)
    | .ok keeper => some ({ stock with keeper }, .ok ())
  | .closeOrder qty =>
    match stock.level.closeOrder qty with
    | .error text => some (stock, .error text)
    | .ok (level, _) => some ({ stock with level }, .ok ())

/-! ### What the calls owe -/

/-- The call would take out more than is there. -/
def Lacks (stock : Stock) : TakeCall → Prop
  | .fill qty => stock.keeper.openQty < qty
  | .changeQty delta => delta < 0 ∧ stock.keeper.openQty + delta < 0
  | .closeOrder qty => stock.level.ordersCount = 0 ∨ stock.level.totalQty < qty

/-- What is there when the call has taken out what was asked, and one order when it closes one. -/
def without (stock : Stock) : TakeCall → Stock
  | .fill qty =>
    { stock with keeper := { stock.keeper with openQty := stock.keeper.openQty - qty } }
  | .changeQty delta =>
    { stock with keeper := { stock.keeper with openQty := stock.keeper.openQty + delta } }
  | .closeOrder qty =>
    { stock with level := { stock.level with
        totalQty := stock.level.totalQty - qty
        ordersCount := stock.level.ordersCount - 1 } }

/-- A call that would take out more than is there throws and leaves all as it is, and every other
takes out what was asked. -/
def Takes (stock : Stock) (call : TakeCall) (result : Except String Unit) (next : Stock) : Prop :=
  (stock.Lacks call → next = stock ∧ ∃ text, result = .error text) ∧
    (¬ stock.Lacks call → next = stock.without call ∧ result = .ok ())

/-- No quantity is negative. -/
structure NonNeg (stock : Stock) : Prop where
  openQty : 0 ≤ stock.keeper.openQty
  totalQty : 0 ≤ stock.level.totalQty

/-- The quantities are of an `int32_t`. -/
structure Sized (stock : Stock) : Prop where
  openQty : FitsInt32 stock.keeper.openQty
  totalQty : FitsInt32 stock.level.totalQty

end Stock

/-- The quantity is of an `int32_t`, and that of a fill or a close is not negative. -/
def TakeCall.Proper : TakeCall → Prop
  | .fill qty => 0 ≤ qty ∧ FitsInt32 qty
  | .changeQty delta => FitsInt32 delta
  | .closeOrder qty => 0 ≤ qty ∧ FitsInt32 qty

instance : DecidablePred TakeCall.Proper
  | .fill qty => inferInstanceAs (Decidable (0 ≤ qty ∧ FitsInt32 qty))
  | .changeQty delta => inferInstanceAs (Decidable (FitsInt32 delta))
  | .closeOrder qty => inferInstanceAs (Decidable (0 ≤ qty ∧ FitsInt32 qty))

namespace Stock

/-- A fill is of no more than is open, a change is not by the least number and leaves the open
quantity in its range, and a close is at a level without orders, or of the whole total when the
order is the last one, or of no more than the total. -/
def Covered (stock : Stock) : TakeCall → Prop
  | .fill qty => qty ≤ stock.keeper.openQty
  | .changeQty delta => delta ≠ -2 ^ 31 ∧ stock.keeper.openQty + delta < 2 ^ 31
  | .closeOrder qty =>
    stock.level.ordersCount = 0 ∨
      if stock.level.ordersCount = 1 then qty = stock.level.totalQty else qty ≤ stock.level.totalQty

instance : DecidableRel Covered
  | stock, .fill qty => inferInstanceAs (Decidable (qty ≤ stock.keeper.openQty))
  | stock, .changeQty delta =>
    inferInstanceAs (Decidable (delta ≠ -2 ^ 31 ∧ stock.keeper.openQty + delta < 2 ^ 31))
  | stock, .closeOrder qty => inferInstanceAs (Decidable (stock.level.ordersCount = 0 ∨
      if stock.level.ordersCount = 1 then qty = stock.level.totalQty else qty ≤ stock.level.totalQty))

/-! ### A call -/

variable {stock : Stock}

theorem takes_of_lacks {call : TakeCall} {result : Except String Unit} {next : Stock}
    (lacks : stock.Lacks call) :
    stock.Takes call result next ↔ next = stock ∧ ∃ text, result = .error text :=
  ⟨fun takes => takes.1 lacks, fun throws => ⟨fun _ => throws, fun has => absurd lacks has⟩⟩

theorem takes_of_not_lacks {call : TakeCall} {result : Except String Unit} {next : Stock}
    (has : ¬ stock.Lacks call) :
    stock.Takes call result next ↔ next = stock.without call ∧ result = .ok () :=
  ⟨fun takes => takes.2 has, fun takes => ⟨fun lacks => absurd lacks has, fun _ => takes⟩⟩

theorem fill_takes_iff (sized : Sized stock) {qty : Quantity} (nonneg : 0 ≤ qty) :
    ∃ next result, stock.step (.fill qty) = some (next, result) ∧
      (stock.Takes (.fill qty) result next ↔ stock.Covered (.fill qty)) := by
  refine ⟨_, _, rfl, ?_⟩
  by_cases lacks : stock.Lacks (.fill qty)
  · rw [takes_of_lacks lacks]
    refine iff_of_false ?_ (Int.not_le.mpr lacks)
    rintro ⟨-, text, thrown⟩
    cases thrown
  · have enough : qty ≤ stock.keeper.openQty := Int.not_lt.mp lacks
    have left : FitsInt32 (stock.keeper.openQty - qty) :=
      sized.openQty.of_le (Int.sub_nonneg.mpr enough) (Int.sub_le_self _ nonneg)
    rw [takes_of_not_lacks lacks, OrderStateKeeper.fill, asInt32_of_fits left]
    exact iff_of_true ⟨rfl, rfl⟩ enough

/-- `change_qty` throws for what is lacking, except where the size of the change is lost. -/
theorem changeQty_throws_iff (nonNeg : NonNeg stock) {delta : Quantity} (fits : FitsInt32 delta) :
    (delta < 0 ∧ stock.keeper.openQty < asInt32 |delta|) ↔
      delta ≠ -2 ^ 31 ∧ stock.Lacks (.changeQty delta) := by
  by_cases least : delta = -2 ^ 31
  · have lost : asInt32 |delta| = -2 ^ 31 := by
      rw [least]
      decide
    rw [lost]
    refine iff_of_false (fun throws => ?_) fun both => both.1 least
    exact absurd (throws.2.trans_le (show (-2 ^ 31 : Int) ≤ 0 by decide)) (not_lt.mpr nonNeg.openQty)
  · rw [and_iff_right least]
    refine and_congr_right fun negative => ?_
    have size : FitsInt32 |delta| := by
      rw [abs_of_neg negative]
      exact fits.neg least
    rw [asInt32_of_fits size, abs_of_neg negative, lt_neg_iff_add_neg]

theorem changeQty_takes_iff (nonNeg : NonNeg stock) (sized : Sized stock) {delta : Quantity}
    (fits : FitsInt32 delta) :
    ∃ next result, stock.step (.changeQty delta) = some (next, result) ∧
      (stock.Takes (.changeQty delta) result next ↔ stock.Covered (.changeQty delta)) := by
  have throwsIff := changeQty_throws_iff nonNeg fits
  rw [step]
  by_cases throws : delta ≠ -2 ^ 31 ∧ stock.Lacks (.changeQty delta)
  · obtain ⟨notLeast, lacks⟩ := throws
    have thrown : stock.keeper.changeQty delta = .error OrderStateKeeper.deductedTooMuch :=
      if_pos (throwsIff.mpr ⟨notLeast, lacks⟩)
    rw [thrown]
    refine ⟨_, _, rfl, iff_of_true ((takes_of_lacks lacks).mpr ⟨rfl, _, rfl⟩) ⟨notLeast, ?_⟩⟩
    exact lacks.2.trans (by decide)
  · have changes : stock.keeper.changeQty delta =
        .ok { stock.keeper with openQty := asInt32 (stock.keeper.openQty + delta) } :=
      if_neg fun here => throws (throwsIff.mp here)
    rw [changes]
    refine ⟨_, _, rfl, ?_⟩
    by_cases lacks : stock.Lacks (.changeQty delta)
    · rw [takes_of_lacks lacks]
      refine iff_of_false ?_ fun covered => throws ⟨covered.1, lacks⟩
      rintro ⟨-, text, thrown⟩
      cases thrown
    · have nonneg : 0 ≤ stock.keeper.openQty + delta := by
        rcases Int.lt_or_le delta 0 with negative | more
        · exact Int.not_lt.mp fun below => lacks ⟨negative, below⟩
        · exact Int.add_nonneg nonNeg.openQty more
      have notLeast : delta ≠ -2 ^ 31 := by
        rintro rfl
        exact absurd (Int.sub_nonneg.mp nonneg) (not_le.mpr sized.openQty.2)
      rw [takes_of_not_lacks lacks, and_iff_left rfl]
      show _ ↔ delta ≠ -2 ^ 31 ∧ _
      rw [and_iff_right notLeast]
      constructor
      · intro same
        have sum : asInt32 (stock.keeper.openQty + delta) = stock.keeper.openQty + delta :=
          congrArg (fun next => next.keeper.openQty) same
        exact (asInt32_eq_iff.mp sum).2
      · intro below
        rw [asInt32_of_fits ⟨(show (-2 ^ 31 : Int) ≤ 0 by decide).trans nonneg, below⟩]
        rfl

/-- The last order of a level takes the total with it, whatever the quantity. -/
theorem takes_last_iff {qty : Quantity} (last : stock.level.ordersCount = 1) :
    stock.Takes (.closeOrder qty) (.ok ())
        { stock with level := { stock.level with ordersCount := 0, totalQty := 0 } } ↔
      qty = stock.level.totalQty := by
  by_cases lacks : stock.Lacks (.closeOrder qty)
  · rw [takes_of_lacks lacks]
    have more : stock.level.totalQty < qty := lacks.resolve_left (by rw [last]; decide)
    refine iff_of_false ?_ (Int.ne_of_gt more)
    rintro ⟨-, text, thrown⟩
    cases thrown
  · rw [takes_of_not_lacks lacks, and_iff_left rfl]
    constructor
    · intro same
      have left : 0 = stock.level.totalQty - qty := congrArg (fun next => next.level.totalQty) same
      exact (Int.sub_eq_zero.mp left.symm).symm
    · rintro rfl
      rw [without, last, Int.sub_self]
      rfl

/-- With more orders, a total that is too small stays. -/
theorem takes_other_iff (qty : Quantity) (some : stock.level.ordersCount ≠ 0) :
    stock.Takes (.closeOrder qty) (.ok ())
        (if qty ≤ stock.level.totalQty then stock.without (.closeOrder qty)
        else { stock with level := { stock.level with
          ordersCount := stock.level.ordersCount - 1 } }) ↔
      qty ≤ stock.level.totalQty := by
  by_cases enough : qty ≤ stock.level.totalQty
  · have has : ¬ stock.Lacks (.closeOrder qty) := not_or.mpr ⟨some, Int.not_lt.mpr enough⟩
    rw [if_pos enough, takes_of_not_lacks has]
    exact iff_of_true ⟨rfl, rfl⟩ enough
  · have lacks : stock.Lacks (.closeOrder qty) := Or.inr (Int.not_le.mp enough)
    rw [takes_of_lacks lacks]
    refine iff_of_false ?_ enough
    rintro ⟨-, text, thrown⟩
    cases thrown

theorem closeOrder_takes_iff (sized : Sized stock) {qty : Quantity} (nonneg : 0 ≤ qty) :
    ∃ next result, stock.step (.closeOrder qty) = some (next, result) ∧
      (stock.Takes (.closeOrder qty) result next ↔ stock.Covered (.closeOrder qty)) := by
  rw [step]
  by_cases none : stock.level.ordersCount = 0
  · have throws : stock.level.closeOrder qty = .error DepthLevel.noOrders := if_pos none
    rw [throws]
    have lacks : stock.Lacks (.closeOrder qty) := Or.inl none
    exact ⟨_, _, rfl, iff_of_true ((takes_of_lacks lacks).mpr ⟨rfl, _, rfl⟩) (.inl none)⟩
  have covered : stock.Covered (.closeOrder qty) ↔
      if stock.level.ordersCount = 1 then qty = stock.level.totalQty else qty ≤ stock.level.totalQty :=
    or_iff_right none
  rw [covered]
  by_cases last : stock.level.ordersCount = 1
  · have closes : stock.level.closeOrder qty =
        .ok ({ stock.level with ordersCount := 0, totalQty := 0 }, true) := by
      rw [DepthLevel.closeOrder, if_neg none, if_pos last]
    rw [closes, if_pos last]
    exact ⟨_, _, rfl, takes_last_iff last⟩
  · rw [DepthLevel.closeOrder, if_neg none, if_neg last, if_neg last]
    have takes := takes_other_iff qty none
    split_ifs at takes with enough
    · have left : FitsInt32 (stock.level.totalQty - qty) :=
        sized.totalQty.of_le (Int.sub_nonneg.mpr enough) (Int.sub_le_self _ nonneg)
      rw [if_pos enough, asInt32_of_fits left]
      exact ⟨_, _, rfl, takes⟩
    · rw [if_neg enough]
      exact ⟨_, _, rfl, takes⟩

/-! ### Every run -/

/-- A call that takes what was asked leaves no quantity negative. -/
theorem NonNeg.of_takes (nonNeg : NonNeg stock) {call : TakeCall} (proper : call.Proper)
    {result : Except String Unit} {next : Stock} (takes : stock.Takes call result next) :
    NonNeg next := by
  by_cases lacks : stock.Lacks call
  · rw [((takes_of_lacks lacks).mp takes).1]
    exact nonNeg
  · rw [((takes_of_not_lacks lacks).mp takes).1]
    cases call with
    | fill qty => exact ⟨Int.sub_nonneg.mpr (Int.not_lt.mp lacks), nonNeg.totalQty⟩
    | changeQty delta =>
      refine ⟨?_, nonNeg.totalQty⟩
      rcases Int.lt_or_le delta 0 with negative | more
      · exact Int.not_lt.mp fun below => lacks ⟨negative, below⟩
      · exact Int.add_nonneg nonNeg.openQty more
    | closeOrder qty =>
      exact ⟨nonNeg.openQty, Int.sub_nonneg.mpr (Int.not_lt.mp (not_or.mp lacks).2)⟩

theorem step_takes_iff (nonNeg : NonNeg stock) (sized : Sized stock) {call : TakeCall}
    (proper : call.Proper) :
    ∃ next result, stock.step call = some (next, result) ∧
      (stock.Takes call result next ↔ stock.Covered call) := by
  cases call with
  | fill qty => exact fill_takes_iff sized proper.1
  | changeQty delta => exact changeQty_takes_iff nonNeg sized proper
  | closeOrder qty => exact closeOrder_takes_iff sized proper.1

/-- What a call stores is of an `int32_t` again. -/
theorem Sized.step (sized : Sized stock) {call : TakeCall} {next : Stock}
    {result : Except String Unit} (returns : stock.step call = some (next, result)) :
    Sized next := by
  cases call with
  | fill qty =>
    cases returns
    exact ⟨fits_asInt32 _, sized.totalQty⟩
  | changeQty delta =>
    simp only [Stock.step, OrderStateKeeper.changeQty] at returns
    split_ifs at returns <;> cases returns
    · exact sized
    · exact ⟨fits_asInt32 _, sized.totalQty⟩
  | closeOrder qty =>
    simp only [Stock.step, DepthLevel.closeOrder] at returns
    split_ifs at returns <;> cases returns
    · exact sized
    · exact ⟨sized.openQty, (by decide : FitsInt32 0)⟩
    · exact ⟨sized.openQty, fits_asInt32 _⟩
    · exact ⟨sized.openQty, sized.totalQty⟩

/-- Over every run, the calls take out exactly what was asked or throw, and no quantity is ever
negative, exactly when each call is covered. -/
theorem takes_iff_covered (stock : Stock) (sized : Sized stock) (nonNeg : NonNeg stock)
    (calls : List TakeCall) (proper : ∀ call ∈ calls, call.Proper) :
    (EachReturn step Takes stock calls ∧ Throughout step NonNeg stock calls) ↔
      EachStep step Covered stock calls := by
  have takes : EachReturn step Takes stock calls ↔ EachStep step Covered stock calls := by
    refine eachReturn_iff_of_allowed (fun stock call (both : NonNeg stock ∧ Sized stock) proper => ?_)
      calls stock ⟨nonNeg, sized⟩ (eachStep_of_forall (fun _ => proper) stock)
    obtain ⟨next, result, returns, iff⟩ := step_takes_iff both.1 both.2 proper
    exact ⟨next, result, returns, iff, fun covered =>
      ⟨both.1.of_takes proper (iff.mpr covered), both.2.step returns⟩⟩
  rw [← takes]
  refine and_iff_left_of_imp fun each => each.throughout ?_ proper nonNeg
  exact fun _ _ _ _ nonNeg proper takes => nonNeg.of_takes proper takes

/-- Fills and closes that are covered, and a change that throws. -/
theorem takes_iff_covered_example :
    EachReturn step Takes
        { keeper := ⟨⟨'N', 1, 1, 'B', 100, 5⟩, 5, 100⟩
          level := { price := 100, totalQty := 9, ordersCount := 2 } }
        [.fill 2, .changeQty (-4), .closeOrder 5, .changeQty 3, .closeOrder 4, .fill 6] ∧
      Throughout step NonNeg
        { keeper := ⟨⟨'N', 1, 1, 'B', 100, 5⟩, 5, 100⟩
          level := { price := 100, totalQty := 9, ordersCount := 2 } }
        [.fill 2, .changeQty (-4), .closeOrder 5, .changeQty 3, .closeOrder 4, .fill 6] :=
  (takes_iff_covered _ ⟨by decide, by decide⟩ ⟨by decide, by decide⟩ _ (by decide)).mpr (by decide)

/-- A fill of more than is open makes the open quantity negative, and a close of more than the total
leaves the total of the orders that are left too large. -/
theorem fill_makes_negative :
    (¬ ∀ (stock : Stock) (calls : List TakeCall), Sized stock → NonNeg stock →
      (∀ call ∈ calls, call.Proper) →
      EachReturn step Takes stock calls ∧ Throughout step NonNeg stock calls) ∧
    step { keeper := ⟨⟨'N', 1, 1, 'B', 100, 5⟩, 5, 100⟩, level := { totalQty := 3, ordersCount := 2 } }
        (.closeOrder 4) =
      some ({ keeper := ⟨⟨'N', 1, 1, 'B', 100, 5⟩, 5, 100⟩
              level := { totalQty := 3, ordersCount := 1 } }, .ok ()) := by
  refine ⟨fun claim => ?_, by decide⟩
  obtain ⟨-, -, nonNeg⟩ := claim
    { keeper := ⟨⟨'N', 1, 1, 'B', 100, 5⟩, 5, 100⟩, level := {} } [.fill 6] ⟨by decide, by decide⟩
    ⟨by decide, by decide⟩ (by decide)
  exact absurd nonNeg.openQty (by decide)

end Stock

end ObLib
