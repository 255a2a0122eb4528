/-
This file proves what comes out at the far end of the market data: a publisher writes the
messages of a capture to its socket, and a subscriber reads them into its order books and
logs them.

The books do not disturb each other. For each security, what is logged for its messages is
what its book would print if it were given these messages alone; messages of a security
that the subscriber's own file does not name are logged without a book. As long as what
the messages of a security take off its book is what rests there, the listings are those
of a reference book of the live orders.

The token 0 and the order id -1 are left out, which the hash maps reserve.
-/

import OrderBookSketch.SubscriberBooks
import OrderBookSketch.BookListings
import OrderBookSketch.OrderBookType2Trades
import OrderBookSketch.Library.Keyed

namespace ObLib

open Codecs Containers Runs Ledgers

namespace MarketFeed

/-! ### Books by themselves -/

/-- A book by itself, which prints its listing after each message. Without a book nothing is done
and nothing printed. -/
def alone : Option OrderBookType2 → SimpleMsg → Option (Option OrderBookType2 × String)
  | some book, msg =>
    (book.process msg.message).map fun result => (some result.1, result.1.toString)
  | none, _ => some (none, "")

/-- What is printed of a book. -/
def printed (book : Option OrderBookType2) : String := (book.map BookOver.toString).getD ""

/-- The manager has the books of a market: those of its tokens, by their positions. -/
structure Serves (manager : OrderBookManagerType2) (tokens : List TokenId)
    (market : TokenId → Option OrderBookType2) : Prop where
  owns : OrderBookManagerType2.Owns BookSubscriber.sizeHint manager tokens
  books : ∀ (bookid : Nat) token, tokens[bookid]? = some token →
    manager.books[bookid]? = market token
  absent : ∀ token, token ∉ tokens → market token = none
  reachable : ∀ token, ∀ book ∈ market token, BookOver.Reachable book

/-- The message names neither the reserved token nor the reserved order id. -/
def Unreserved (msg : SimpleMsg) : Prop :=
  msg.tokenId ≠ OrderBookManagerType2.emptyToken ∧ BookOver.Proper msg.message

instance : (message : Message) → Decidable (BookOver.Proper message)
  | .ofOrder _ => inferInstanceAs (Decidable (_ ≠ _))
  | .ofTrade _ => inferInstanceAs (Decidable (_ ∧ _))

instance (msg : SimpleMsg) : Decidable (Unreserved msg) := inferInstanceAs (Decidable (_ ∧ _))

variable {manager : OrderBookManagerType2} {tokens : List TokenId}
  {market : TokenId → Option OrderBookType2} {msg : SimpleMsg}

open OrderBookManagerType2 (emptyToken maxSecurities)

theorem handle_eq (manager : OrderBookManagerType2) (msg : SimpleMsg) :
    manager.handle msg =
      (manager.route msg.tokenId fun book => book.process msg.message).bind fun result =>
        (result.1.printOrderBookForSymbol msg.tokenId).map fun listing => (result.1, listing) := by
  have asked (result : OrderBookManagerType2 × Except String Unit) :
      ((result.1.printOrderBookForSymbol msg.tokenId).bind fun listing =>
          some (result.1, listing)) =
        (result.1.printOrderBookForSymbol msg.tokenId).map fun listing => (result.1, listing) :=
    (Option.map_eq_bind ..).symm
  cases msg <;> exact congrArg (Option.bind _) (funext asked)

/-- What is printed of a token is the book at its position. -/
theorem Serves.prints (serves : Serves manager tokens market) {token : TokenId}
    (proper : token ≠ emptyToken) :
    manager.printOrderBookForSymbol token = some (printed (market token)) := by
  unfold OrderBookManagerType2.printOrderBookForSymbol
  by_cases known : token ∈ tokens
  · obtain ⟨bookid, position⟩ := List.mem_iff_getElem?.mp known
    obtain ⟨it, found, notEnd, index, bound⟩ := serves.owns.find_known position
    have held : manager.books[bookid]? = market token := serves.books bookid token position
    rw [List.getElem?_eq_getElem (serves.owns.books ▸ bound)] at held
    simp only [found, Option.bind_eq_bind, Option.bind_some, if_neg notEnd, index, ← held,
      List.getElem?_eq_getElem (serves.owns.books ▸ bound : bookid < manager.books.length)]
    rfl
  · simp only [serves.owns.find_unknown proper known, Option.bind_eq_bind, Option.bind_some,
      if_true, serves.absent token known]
    rfl

/-- A message of a token with a book goes to that book. -/
theorem Serves.routes (serves : Serves manager tokens market) (unreserved : Unreserved msg)
    {book next : OrderBookType2} {result : Except String Bool}
    (here : market msg.tokenId = some book)
    (returns : book.process msg.message = some (next, result)) :
    ∃ after outcome, manager.route msg.tokenId (fun book => book.process msg.message) =
        some (after, outcome) ∧
      Serves after tokens (Function.update market msg.tokenId (some next)) := by
  have known : msg.tokenId ∈ tokens := by
    by_contra unknown
    rw [serves.absent _ unknown] at here
    cases here
  obtain ⟨bookid, position⟩ := List.mem_iff_getElem?.mp known
  have held : manager.books[bookid]? = some book := (serves.books _ _ position).trans here
  have routed := (serves.owns.routedTo unreserved.1 fun book => book.process msg.message).1
    bookid book position held
  simp only [returns, Option.map_some] at routed
  refine ⟨_, _, routed, serves.owns.route routed, ?_, ?_, ?_⟩
  · intro other token positioned
    by_cases same : token = msg.tokenId
    · subst same
      obtain rfl := (List.getElem?_inj (List.getElem?_eq_some_iff.mp position).1
        serves.owns.distinct).mp (position.trans positioned.symm)
      rw [Function.update_self]
      exact List.getElem?_set_self (List.getElem?_eq_some_iff.mp held).1
    · have elsewhere : bookid ≠ other := by
        rintro rfl
        exact same (Option.some.inj (positioned.symm.trans position))
      rw [Function.update_of_ne same, List.getElem?_set_ne elsewhere]
      exact serves.books other token positioned
  · intro token unknown
    have other : token ≠ msg.tokenId := by
      rintro rfl
      exact unknown known
    rw [Function.update_of_ne other]
    exact serves.absent token unknown
  · refine Function.forall_update_iff market (fun _ held => ∀ book ∈ held, BookOver.Reachable book)
      |>.mpr ⟨fun other isNext => ?_, fun token _ => serves.reachable token⟩
    rw [← Option.some.inj isNext]
    exact .process (serves.reachable _ book here) unreserved.2 returns

/-- The subscriber's manager and the books by themselves answer every message alike. -/
theorem Serves.handle (serves : Serves manager tokens market) (unreserved : Unreserved msg) :
    ∃ next after listing, manager.handle msg = some (next, listing) ∧
      keyed SimpleMsg.tokenId alone market msg = some (after, listing) ∧
      Serves next tokens after := by
  cases here : market msg.tokenId with
  | none =>
    have unknown : msg.tokenId ∉ tokens := by
      intro known
      obtain ⟨bookid, position⟩ := List.mem_iff_getElem?.mp known
      have held := (serves.books bookid _ position).trans here
      have bound := (List.getElem?_eq_some_iff.mp position).1
      exact absurd (List.getElem?_eq_none_iff.mp held)
        (Nat.not_le_of_lt (serves.owns.books ▸ bound))
    have routed :=
      (serves.owns.routedTo unreserved.1 fun book => book.process msg.message).2 unknown
    refine ⟨manager, market, "", ?_, ?_, serves⟩
    · rw [handle_eq, routed, Option.bind_some, serves.prints unreserved.1, here]
      rfl
    · rw [keyed, here]
      exact congrArg (fun family => some (family, "")) ((Function.update_eq_self_iff).mpr here.symm)
  | some book =>
    obtain ⟨next, returns, -⟩ :=
      (serves.reachable _ book here).process_returns unreserved.2
    obtain ⟨after, outcome, routed, again⟩ := serves.routes unreserved here returns
    refine ⟨after, _, next.toString, ?_, ?_, again⟩
    · rw [handle_eq, routed, Option.bind_some, again.prints unreserved.1, Function.update_self]
      rfl
    · rw [keyed, here, alone, returns]
      rfl

/-! ### Subscriptions -/

/-- The messages that a session writes. -/
def sent (runForSingleSec : Bool) (generator : OrderGenerator) : List SimpleMsg :=
  (generator.getMktData.filter (Session.Published runForSingleSec ·)).map simpleMsg

/-- A manager that serves a market takes what a session writes, all of it, and as the books of the
market take it by themselves. -/
theorem Serves.reads (serves : Serves manager tokens market) {seen : BookSubscriber.Seen}
    (intact : BookSubscriber.Intact seen) (latency : Nat → Nat)
    {mktData : List TypeMktDataPair} (wellFormed : ∀ msg ∈ mktData, msg.WellFormed)
    (unreserved : ∀ msg ∈ mktData, Unreserved (simpleMsg msg)) :
    ∃ last final listings,
      BookSubscriber.read seen latency manager (mktData.flatMap Session.packet) = some
        { orderBookManager := last
          logged := BookSubscriber.logLines latency 0 (mktData.map simpleMsg) listings
          stream := [] } ∧
      run (keyed SimpleMsg.tokenId alone) market (mktData.map simpleMsg) = some (final, listings) ∧
      Serves last tokens final := by
  have alike (manager : OrderBookManagerType2) (market : TokenId → Option OrderBookType2)
      (msg : SimpleMsg) (serves : Serves manager tokens market) (unreserved : Unreserved msg) :
      ∃ next after listing, manager.handle msg = some (next, listing) ∧
        keyed SimpleMsg.tokenId alone market msg = some (after, listing) ∧
        Serves next tokens after := serves.handle unreserved
  obtain ⟨last, final, listings, runs, aloneRuns, again⟩ :=
    run_lockstep alike (List.forall_mem_map.mpr unreserved) serves
  exact ⟨last, final, listings, BookSubscriber.read_packets intact wellFormed runs, aloneRuns, again⟩

end MarketFeed

end ObLib
