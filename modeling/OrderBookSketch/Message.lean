/-
This file is the market data messages of OrderBookStore/include/Order.hpp and
Trade.hpp, as far as the order books read them: the fields behind the accessors of
`Order` and `Trade`.

A message type is the character of the feed. Prices, quantities and ids are signed
integers. A quantity is an `int32_t`: where a sum or a difference of quantities is kept in
one and could leave its range, the computation says so, as `asInt32`: it comes round at the
ends of the range, as the machine's does where the language leaves it undefined.
-/

import Mathlib.Algebra.Order.Ring.Int

namespace ObLib

abbrev Price := Int
abbrev Quantity := Int
abbrev OrderId := Int
abbrev TokenId := Int

/-- What an `int32_t` holds of a number. -/
def asInt32 (number : Int) : Int := Int.bmod number (2 ^ 32)

/-- The number is one of an `int32_t`. -/
def FitsInt32 (number : Int) : Prop := -2 ^ 31 ≤ number ∧ number < 2 ^ 31

instance : DecidablePred FitsInt32 := fun number =>
  inferInstanceAs (Decidable (-2 ^ 31 ≤ number ∧ number < 2 ^ 31))

theorem asInt32_of_fits {number : Int} (fits : FitsInt32 number) : asInt32 number = number :=
  Int.bmod_eq_of_le (by have := fits.1; omega) (by have := fits.2; omega)

/-- The number is a positive one of an `int32_t`. -/
def PositiveInt32 (number : Int) : Prop := 0 < number ∧ number < 2 ^ 31

instance : DecidablePred PositiveInt32 := fun number =>
  inferInstanceAs (Decidable (0 < number ∧ number < 2 ^ 31))

theorem PositiveInt32.fits {number : Int} (positive : PositiveInt32 number) : FitsInt32 number :=
  ⟨by have := positive.1; omega, positive.2⟩

/-- A difference may be taken of what an `int32_t` holds of a number. -/
theorem asInt32_sub_asInt32 (number other : Int) :
    asInt32 (number - asInt32 other) = asInt32 (number - other) := Int.sub_bmod_bmod

theorem fits_asInt32 (number : Int) : FitsInt32 (asInt32 number) :=
  ⟨Int.le_bmod (by decide), Int.bmod_lt (by decide)⟩

theorem asInt32_eq_iff {number : Int} : asInt32 number = number ↔ FitsInt32 number :=
  ⟨fun same => same ▸ fits_asInt32 number, asInt32_of_fits⟩

/-- What is not negative fits where something no smaller does. -/
theorem FitsInt32.of_le {number bound : Int} (fits : FitsInt32 bound) (nonneg : 0 ≤ number)
    (le : number ≤ bound) : FitsInt32 number :=
  ⟨by omega, by have := fits.2; omega⟩

/-- Every number but the least one has its negative. -/
theorem FitsInt32.neg {number : Int} (fits : FitsInt32 number) (notLeast : number ≠ -2 ^ 31) :
    FitsInt32 (-number) :=
  ⟨by have := fits.2; omega, by have := fits.1; omega⟩

/-- The difference of two positive numbers fits, in either direction. -/
theorem PositiveInt32.fits_sub {number other : Int} (positive : PositiveInt32 number)
    (otherPositive : PositiveInt32 other) : FitsInt32 (number - other) :=
  ⟨by have := positive.1; have := otherPositive.2; omega,
    by have := positive.2; have := otherPositive.1; omega⟩

/-- What comes round in a sum is negative, so a positive number is the sum itself. -/
theorem PositiveInt32.add_eq {number sum delta : Int} (positive : PositiveInt32 number)
    (fits : FitsInt32 delta) (holds : asInt32 (number + delta) = sum) (sumPositive : 0 < sum) :
    number + delta = sum := by
  have inRange : FitsInt32 (number + delta) := by
    refine ⟨by have := positive.1; have := fits.1; omega, Int.not_le.mp fun beyond => ?_⟩
    have least := fits.2
    have most := positive.2
    rw [asInt32, Int.bmod_def] at holds
    split at holds <;> omega
  rw [← holds, asInt32_of_fits inRange]

/-- An `Order` message: `'N'` new, `'M'` modify, `'X'` cancel. -/
structure Order where
  type : Char
  orderId : OrderId
  tokenId : TokenId := 1
  orderType : Char
  price : Price
  qty : Quantity
deriving DecidableEq, Repr

/-- `is_buy()`: every side but `'B'` is the sell side. -/
def Order.isBuy (order : Order) : Bool := order.orderType == 'B'

/-- A `Trade` message; an id 0 names no order. -/
structure Trade where
  buyOrderId : OrderId
  sellOrderId : OrderId
  tokenId : TokenId := 1
  price : Price
  qty : Quantity
deriving DecidableEq, Repr

/-- A message of the feed. -/
inductive Message where
  | ofOrder (order : Order)
  | ofTrade (trade : Trade)
deriving DecidableEq, Repr

end ObLib
