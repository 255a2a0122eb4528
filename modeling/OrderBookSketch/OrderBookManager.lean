/-
This file models `OrderBookManagerType2` of OrderBookStore/include/OrderBookManager.hpp,
which keeps one order book for each subscribed token and routes orders and trades to
the book of their token.

The books are a vector, and a hash map takes a token to the index of its book; the
reserved key of that map is the token 0. A reference to a book is its index. `none`
stands for a call that has no defined end: a probe loop that does not stop, an index
outside the vector, or a call on a book that has none.
-/

import OrderBookSketch.OrderBookType2

namespace ObLib

/-- `OrderBookManagerType2`. The hash map holds the indices as `uint16_t` values. -/
structure OrderBookManagerType2 where
  sizeHint : Nat
  books : List OrderBookType2
  symbols : HashMap TokenId Nat

/-- The token of a message. -/
def Message.tokenId : Message → TokenId
  | .ofOrder order => order.tokenId
  | .ofTrade trade => trade.tokenId

namespace OrderBookManagerType2

/-- `MAXSECURITIES`. -/
def maxSecurities : Nat := 32767

/-- The hash of a token, which is converted to `uint64_t`; the manager repeats the hash
function of the order book. -/
def hasher (token : TokenId) : Nat := (BookOver.hash (UInt64.ofInt token)).toNat

def emptyToken : TokenId := 0

/-- `OrderBookManagerType2(cb, sizeHint)`. -/
def create (sizeHint : Nat) : Option OrderBookManagerType2 := do
  let symbols ← HashMap.create maxSecurities emptyToken
  return { sizeHint := sizeHint, books := [], symbols := symbols }

def tooManySubscriptions : String := "too many subscriptions"

def unknownSecurity : String := "Error - Unknown Security comes, Don't have any OB for this."

/-- The book it returns, or the text of the exception. -/
def subscribe (manager : OrderBookManagerType2) (instrument : TokenId) :
    Option (OrderBookManagerType2 × Except String Nat) := do
  let it ← manager.symbols.find hasher instrument
  if it ≠ manager.symbols.end then
    let bookid := (manager.symbols.bucket it).2
    let _ ← manager.books[bookid]?
    return (manager, .ok bookid)
  else if manager.books.length = maxSecurities then return (manager, .error tooManySubscriptions)
  else
    let books := manager.books ++ [← BookOver.create manager.sizeHint]
    let (symbols, _) ← manager.symbols.emplace hasher instrument ((books.length - 1) % 2 ^ 16)
    return ({ manager with books := books, symbols := symbols }, .ok (books.length - 1))

/-- The value of an index in an `int16_t`. -/
def int16 (value : Nat) : Int := Int.bmod value (2 ^ 16)

/-- `_books[bookid]`. -/
def bookAt (manager : OrderBookManagerType2) (bookid : Int) : Option OrderBookType2 :=
  if 0 ≤ bookid then manager.books[bookid.toNat]? else none

/-- What `addOrder` and `addTrade` do with a token and a call on its book. What the source has
after the throw for an unknown token is never reached. -/
def route (manager : OrderBookManagerType2) (token : TokenId)
    (process : OrderBookType2 → Option (OrderBookType2 × Except String Bool)) :
    Option (OrderBookManagerType2 × Except String Unit) := do
  let it ← manager.symbols.find hasher token
  if it = manager.symbols.end then return (manager, .error unknownSecurity)
  else
    let bookid := int16 (manager.symbols.bucket it).2
    let (book, result) ← process (← manager.bookAt bookid)
    return ({ manager with books := manager.books.set bookid.toNat book }, result.map fun _ => ())

def addOrder (manager : OrderBookManagerType2) (order : Order) :
    Option (OrderBookManagerType2 × Except String Unit) :=
  manager.route order.tokenId fun book => book.processOrder order

def addTrade (manager : OrderBookManagerType2) (trade : Trade) :
    Option (OrderBookManagerType2 × Except String Unit) :=
  manager.route trade.tokenId fun book => book.processTrade trade

end OrderBookManagerType2

end ObLib
