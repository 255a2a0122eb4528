/-
This file proves exactly when the book manager routes every call to the book of its
token: as long as no call names the token 0, which the hash map behind the routing
reserves for its empty buckets.

A search for the token 0 ends at an empty bucket as if that were its entry. So the
manager takes the token for a subscribed one, subscribes no book for it, and hands its
orders and trades to the book whose index the bucket happens to hold.
-/

import OrderBookSketch.OrderBookManager
import OrderBookSketch.OrderBookType2Run

namespace ObLib

open Runs

namespace OrderBookManagerType2

/-! ### Calls -/

inductive Call where
  | subscribe (token : TokenId)
  | addOrder (order : Order)
  | addTrade (trade : Trade)
deriving Repr, DecidableEq

/-- The token a call names. -/
def Call.token : Call → TokenId
  | .subscribe token => token
  | .addOrder order => order.tokenId
  | .addTrade trade => trade.tokenId

/-- One call on the manager, with the index of the book it returns, if it returns one. -/
def call (manager : OrderBookManagerType2) :
    Call → Option (OrderBookManagerType2 × Except String (Option Nat))
  | .subscribe token =>
    (manager.subscribe token).map fun result => (result.1, result.2.map some)
  | .addOrder order =>
    (manager.addOrder order).map fun result => (result.1, result.2.map fun _ => none)
  | .addTrade trade =>
    (manager.addTrade trade).map fun result => (result.1, result.2.map fun _ => none)

/-! ### What routing means -/

/-- The tokens subscribed after a call, in the order of their subscriptions. -/
def subscribed (tokens : List TokenId) : Call → List TokenId
  | .subscribe token =>
    if token ∈ tokens ∨ tokens.length = maxSecurities then tokens else tokens ++ [token]
  | .addOrder _ => tokens
  | .addTrade _ => tokens

/-- A message for a subscribed token does to the manager what the book of the token does to
itself, and changes no other book; one for another token throws and changes nothing. -/
def RoutedTo (manager : OrderBookManagerType2) (tokens : List TokenId) (token : TokenId)
    (process : OrderBookType2 → Option (OrderBookType2 × Except String Bool))
    (result : Option (OrderBookManagerType2 × Except String Unit)) : Prop :=
  (∀ bookid book, tokens[bookid]? = some token → manager.books[bookid]? = some book →
    result = (process book).map fun processed =>
      ({ manager with books := manager.books.set bookid processed.1 },
        processed.2.map fun _ => ())) ∧
  (token ∉ tokens → result = some (manager, .error unknownSecurity))

/-- Each subscribed token has the book at its own position. The call is routed: a subscribed
token gets its book again, a new one gets a fresh book behind the others while there is room,
and a message goes to the book of its token. -/
def Routed (fresh : OrderBookType2) (manager : OrderBookManagerType2) (tokens : List TokenId)
    (call : Call) : Prop :=
  tokens.Nodup ∧ manager.books.length = tokens.length ∧
    match call with
    | .subscribe token =>
      (∀ bookid, tokens[bookid]? = some token →
        manager.subscribe token = some (manager, .ok bookid)) ∧
      (token ∉ tokens → tokens.length < maxSecurities → ∃ symbols, manager.subscribe token =
        some ({ manager with books := manager.books ++ [fresh], symbols := symbols },
          .ok tokens.length)) ∧
      (token ∉ tokens → tokens.length = maxSecurities →
        manager.subscribe token = some (manager, .error tooManySubscriptions))
    | .addOrder order =>
      RoutedTo manager tokens order.tokenId (fun book => book.processOrder order)
        (manager.addOrder order)
    | .addTrade trade =>
      RoutedTo manager tokens trade.tokenId (fun book => book.processTrade trade)
        (manager.addTrade trade)

/-! ### The invariant -/

/-- The hash map takes each subscribed token to its position. -/
structure Owns (sizeHint : Nat) (manager : OrderBookManagerType2) (tokens : List TokenId) :
    Prop where
  valid : manager.symbols.Valid hasher
  emptyKey : manager.symbols.emptyKey = emptyToken
  lookup : ∀ token bookid,
    manager.symbols.lookup token = some bookid ↔ tokens[bookid]? = some token
  proper : emptyToken ∉ tokens
  distinct : tokens.Nodup
  books : manager.books.length = tokens.length
  room : tokens.length ≤ maxSecurities
  sizeHint : manager.sizeHint = sizeHint

variable {sizeHint : Nat} {manager : OrderBookManagerType2} {tokens : List TokenId}
  {token : TokenId} {fresh : OrderBookType2}

theorem owns_create (created : create sizeHint = some manager) : Owns sizeHint manager [] := by
  simp only [create, Option.bind_eq_bind, Option.bind_eq_some_iff] at created
  obtain ⟨symbols, made, equation⟩ := created
  obtain rfl := Option.some.inj equation
  obtain ⟨valid, emptyKey, lookup, -⟩ := HashMap.create_eq_some hasher made
  exact {
    valid := valid
    emptyKey := emptyKey
    lookup := fun token bookid => by simp [lookup]
    proper := List.not_mem_nil
    distinct := List.nodup_nil
    books := rfl
    room := Nat.zero_le _
    sizeHint := rfl }

theorem exists_create (sizeHint : Nat) : ∃ manager, create sizeHint = some manager := by
  obtain ⟨exponent, created⟩ :=
    HashMap.create_spec (T := Nat) (show maxSecurities ≤ 2 ^ 63 by decide) emptyToken
  exact ⟨_, by rw [create, created]; rfl⟩

theorem Owns.find_known (owns : Owns sizeHint manager tokens) {bookid : Nat}
    (known : tokens[bookid]? = some token) :
    ∃ it, manager.symbols.find hasher token = some it ∧ it ≠ manager.symbols.end ∧
      (manager.symbols.bucket it).2 = bookid ∧ bookid < tokens.length := by
  have proper : token ≠ manager.symbols.emptyKey := by
    rintro rfl
    exact owns.proper (owns.emptyKey ▸ List.mem_of_getElem? known)
  obtain ⟨it, found, notEnd, -, held⟩ :=
    HashMap.find_of_present owns.valid proper ((owns.lookup token bookid).mpr known)
  exact ⟨it, found, notEnd, by rw [held], (List.getElem?_eq_some_iff.mp known).1⟩

theorem Owns.lookup_unknown (owns : Owns sizeHint manager tokens) (unknown : token ∉ tokens) :
    manager.symbols.lookup token = none :=
  Option.eq_none_iff_forall_ne_some.mpr fun bookid stored =>
    unknown (List.mem_of_getElem? ((owns.lookup token bookid).mp stored))

theorem Owns.find_unknown (owns : Owns sizeHint manager tokens) (proper : token ≠ emptyToken)
    (unknown : token ∉ tokens) :
    manager.symbols.find hasher token = some manager.symbols.end :=
  HashMap.find_of_absent owns.valid (owns.emptyKey ▸ proper) (owns.lookup_unknown unknown)

/-- The token 0 is found though it is not there. -/
theorem Owns.find_emptyToken (owns : Owns sizeHint manager tokens) :
    ∃ it, manager.symbols.find hasher emptyToken = some it ∧ it ≠ manager.symbols.end := by
  obtain ⟨it, found, bound, -⟩ := HashMap.find_emptyKey owns.valid
  rw [owns.emptyKey] at found
  exact ⟨it, found, Nat.ne_of_lt bound⟩

/-! ### What a book throws -/

/-- An order book throws for a duplicate order id only. -/
theorem processOrder_error {book next : OrderBookType2} {order : Order} {text : String}
    (throws : book.processOrder order = some (next, .error text)) :
    text = BookOver.duplicateOrder := by
  unfold BookOver.processOrder at throws
  split at throws
  · simp only [BookOver.processNew, Option.bind_eq_bind, Option.bind_eq_some_iff] at throws
    obtain ⟨⟨orders, it, inserted⟩, -, returned⟩ := throws
    cases inserted <;> cases returned
    rfl
  · simp only [BookOver.processModify, Option.bind_eq_bind, Option.bind_eq_some_iff] at throws
    obtain ⟨⟨orders, it, inserted⟩, -, stored, -, returned⟩ := throws
    cases inserted <;> cases returned
  · simp only [BookOver.processCancel, Option.bind_eq_bind, Option.bind_eq_some_iff] at throws
    obtain ⟨it, -, returned⟩ := throws
    split_ifs at returned
    · cases returned
    · simp only [Option.bind_eq_some_iff] at returned
      obtain ⟨stored, -, orders, -, returned⟩ := returned
      cases returned
  · cases throws

theorem processTrade_ne_error {book next : OrderBookType2} {trade : Trade} {text : String} :
    book.processTrade trade ≠ some (next, .error text) := by
  intro throws
  simp only [BookOver.processTrade, Option.bind_eq_bind, Option.bind_eq_some_iff] at throws
  obtain ⟨bought, -, sold, -, returned⟩ := throws
  cases returned

/-! ### One call -/

/-- An index below the capacity is the same in an `int16_t`. -/
theorem int16_of_room {bookid : Nat} (room : bookid < maxSecurities) : int16 bookid = bookid := by
  have small : bookid < 32767 := room
  exact Int.bmod_eq_of_le (by omega) (by omega)

theorem bookAt_natCast (manager : OrderBookManagerType2) (bookid : Nat) :
    manager.bookAt bookid = manager.books[bookid]? :=
  if_pos (Int.natCast_nonneg bookid)

theorem Owns.routedTo (owns : Owns sizeHint manager tokens) (proper : token ≠ emptyToken)
    (process : OrderBookType2 → Option (OrderBookType2 × Except String Bool)) :
    RoutedTo manager tokens token process (manager.route token process) := by
  constructor
  · intro bookid book known held
    obtain ⟨it, found, notEnd, index, bound⟩ := owns.find_known known
    simp only [route, found, Option.bind_eq_bind, Option.bind_some, if_neg notEnd, index,
      int16_of_room (bound.trans_le owns.room), bookAt_natCast, held, Int.toNat_natCast]
    cases process book <;> rfl
  · intro unknown
    simp only [route, owns.find_unknown proper unknown, Option.bind_eq_bind, Option.bind_some,
      if_true]
    rfl

/-- The token 0 is not told apart from a subscribed one. -/
theorem Owns.not_routedTo (owns : Owns sizeHint manager tokens) (empty : token = emptyToken)
    {process : OrderBookType2 → Option (OrderBookType2 × Except String Bool)}
    (others : ∀ book next, process book ≠ some (next, .error unknownSecurity)) :
    ¬ RoutedTo manager tokens token process (manager.route token process) := by
  subst empty
  intro routed
  have throws := routed.2 owns.proper
  obtain ⟨it, found, notEnd⟩ := owns.find_emptyToken
  simp only [route, found, Option.bind_eq_bind, Option.bind_some, if_neg notEnd,
    Option.bind_eq_some_iff] at throws
  obtain ⟨book, -, ⟨next, result⟩, processed, returned⟩ := throws
  have text : (result.map fun _ => ()) = .error unknownSecurity :=
    congrArg Prod.snd (Option.some.inj returned)
  cases result with
  | error message =>
    rw [Except.map, Except.error.injEq] at text
    exact others book next (text ▸ processed)
  | ok => cases text

theorem Owns.subscribe_known (owns : Owns sizeHint manager tokens) {bookid : Nat}
    (known : tokens[bookid]? = some token) :
    manager.subscribe token = some (manager, .ok bookid) := by
  obtain ⟨it, found, notEnd, index, bound⟩ := owns.find_known known
  have held := List.getElem?_eq_getElem (owns.books ▸ bound : bookid < manager.books.length)
  simp only [subscribe, found, Option.bind_eq_bind, Option.bind_some, if_pos notEnd, index, held]
  rfl

theorem Owns.subscribe_full (owns : Owns sizeHint manager tokens) (proper : token ≠ emptyToken)
    (unknown : token ∉ tokens) (full : tokens.length = maxSecurities) :
    manager.subscribe token = some (manager, .error tooManySubscriptions) := by
  simp only [subscribe, owns.find_unknown proper unknown, Option.bind_eq_bind, Option.bind_some,
    ne_eq, not_true_eq_false, if_false, owns.books.trans full, if_true]
  rfl

/-- A new token gets the next position. -/
theorem Owns.subscribe_new (owns : Owns sizeHint manager tokens) (proper : token ≠ emptyToken)
    (unknown : token ∉ tokens) (room : tokens.length < maxSecurities)
    (made : BookOver.create sizeHint = some fresh) :
    ∃ symbols, manager.subscribe token =
        some ({ manager with books := manager.books ++ [fresh], symbols := symbols },
          .ok tokens.length) ∧
      Owns sizeHint { manager with books := manager.books ++ [fresh], symbols := symbols }
        (tokens ++ [token]) := by
  have notFull : manager.books.length ≠ maxSecurities := owns.books ▸ room.ne
  have index : (manager.books ++ [fresh]).length - 1 = tokens.length := by
    rw [List.length_append, owns.books]
    rfl
  have small : tokens.length % 2 ^ 16 = tokens.length :=
    Nat.mod_eq_of_lt (room.trans (by decide))
  obtain ⟨result, emplaced, ok⟩ :=
    HashMap.emplace_spec owns.valid tokens.length (owns.emptyKey ▸ proper)
  refine ⟨result.1, ?_, ?_⟩
  · simp only [subscribe, owns.find_unknown proper unknown, Option.bind_eq_bind, Option.bind_some,
      ne_eq, not_true_eq_false, if_false, notFull, owns.sizeHint, made, index, small, emplaced]
    rfl
  · exact {
      valid := ok.valid
      emptyKey := ok.emptyKey.trans owns.emptyKey
      lookup := by
        intro other bookid
        show result.1.lookup other = _ ↔ _
        rw [ok.lookup, owns.lookup_unknown unknown, Option.getD_none]
        by_cases same : other = token
        · rw [same, Function.update_self, Option.some.injEq]
          constructor
          · rintro rfl
            exact List.getElem?_concat_length
          · intro held
            rcases Nat.lt_or_ge bookid tokens.length with before | behind
            · rw [List.getElem?_append_left before] at held
              exact absurd (List.mem_of_getElem? held) unknown
            · have bound := (List.getElem?_eq_some_iff.mp held).1
              rw [List.length_append, List.length_singleton] at bound
              omega
        · rw [Function.update_of_ne same, owns.lookup]
          rcases Nat.lt_or_ge bookid tokens.length with before | behind
          · rw [List.getElem?_append_left before]
          · rw [List.getElem?_eq_none behind, List.getElem?_append_right behind]
            simp [List.getElem?_singleton, Ne.symm same]
      proper := by
        rw [List.mem_append, List.mem_singleton, not_or]
        exact ⟨owns.proper, Ne.symm proper⟩
      distinct := List.nodup_append.mpr ⟨owns.distinct, List.nodup_singleton _, by
        intro other member last inLast
        rw [List.mem_singleton.mp inLast]
        rintro rfl
        exact unknown member⟩
      books := by rw [List.length_append, List.length_append, owns.books]; rfl
      room := by
        rw [List.length_append]
        exact room
      sizeHint := owns.sizeHint }

theorem Owns.routed_iff (owns : Owns sizeHint manager tokens)
    (made : BookOver.create sizeHint = some fresh) (call : Call) :
    Routed fresh manager tokens call ↔ call.token ≠ emptyToken := by
  constructor
  · rintro ⟨-, -, routed⟩ empty
    cases call with
    | subscribe token =>
      obtain rfl : token = emptyToken := empty
      obtain ⟨-, fresh, full⟩ := routed
      obtain ⟨it, found, notEnd⟩ := owns.find_emptyToken
      -- the token is taken for a subscribed one, so no book is added and nothing thrown
      have same (next : OrderBookManagerType2) (result : Except String Nat)
          (returns : manager.subscribe emptyToken = some (next, result)) :
          next = manager ∧ ∃ bookid, result = .ok bookid := by
        simp only [subscribe, found, Option.bind_eq_bind, Option.bind_some, if_pos notEnd,
          Option.bind_eq_some_iff] at returns
        obtain ⟨book, -, returned⟩ := returns
        cases returned
        exact ⟨rfl, _, rfl⟩
      rcases Nat.lt_or_eq_of_le owns.room with room | atCapacity
      · obtain ⟨symbols, returns⟩ := fresh owns.proper room
        have books := congrArg (fun next => next.books.length) (same _ _ returns).1
        simp at books
      · obtain ⟨bookid, text⟩ := (same _ _ (full owns.proper atCapacity)).2
        cases text
    | addOrder order =>
      refine owns.not_routedTo empty (fun book next throws => ?_) routed
      exact absurd (processOrder_error throws) (by decide)
    | addTrade trade =>
      exact owns.not_routedTo empty (fun book next => processTrade_ne_error) routed
  · intro proper
    refine ⟨owns.distinct, owns.books, ?_⟩
    cases call with
    | subscribe token =>
      refine ⟨fun bookid => owns.subscribe_known, fun unknown room => ?_,
        owns.subscribe_full proper⟩
      obtain ⟨symbols, returns, -⟩ := owns.subscribe_new proper unknown room made
      exact ⟨symbols, returns⟩
    | addOrder order => exact owns.routedTo proper _
    | addTrade trade => exact owns.routedTo proper _

/-- Handing a message to a book changes no index. -/
theorem Owns.route (owns : Owns sizeHint manager tokens)
    {process : OrderBookType2 → Option (OrderBookType2 × Except String Bool)}
    {next : OrderBookManagerType2} {result : Except String Unit}
    (returns : manager.route token process = some (next, result)) : Owns sizeHint next tokens := by
  simp only [OrderBookManagerType2.route, Option.bind_eq_bind, Option.bind_eq_some_iff] at returns
  obtain ⟨it, -, returned⟩ := returns
  split_ifs at returned
  · cases returned
    exact owns
  · simp only [Option.bind_eq_some_iff] at returned
    obtain ⟨book, -, processed, -, returned⟩ := returned
    cases returned
    exact { owns with books := by rw [← owns.books]; exact List.length_set }

theorem Owns.call (owns : Owns sizeHint manager tokens)
    (made : BookOver.create sizeHint = some fresh) {call : Call}
    (proper : call.token ≠ emptyToken) {next : OrderBookManagerType2}
    {result : Except String (Option Nat)} (returns : manager.call call = some (next, result)) :
    Owns sizeHint next (subscribed tokens call) := by
  cases call with
  | subscribe token =>
    obtain ⟨⟨after, outcome⟩, returned, equation⟩ := Option.map_eq_some_iff.mp returns
    obtain rfl : after = next := congrArg Prod.fst equation
    have proper : token ≠ emptyToken := proper
    show Owns sizeHint after
      (if token ∈ tokens ∨ tokens.length = maxSecurities then tokens else tokens ++ [token])
    by_cases known : token ∈ tokens
    · obtain ⟨bookid, held⟩ := List.mem_iff_getElem?.mp known
      rw [owns.subscribe_known held] at returned
      cases returned
      rwa [if_pos (.inl known)]
    · rcases Nat.lt_or_eq_of_le owns.room with room | full
      · obtain ⟨symbols, returnsNew, again⟩ := owns.subscribe_new proper known room made
        rw [returnsNew] at returned
        cases returned
        rwa [if_neg (not_or.mpr ⟨known, room.ne⟩)]
      · rw [owns.subscribe_full proper known full] at returned
        cases returned
        rwa [if_pos (.inr full)]
  | addOrder order =>
    obtain ⟨⟨after, outcome⟩, returned, equation⟩ := Option.map_eq_some_iff.mp returns
    obtain rfl : after = next := congrArg Prod.fst equation
    exact owns.route returned
  | addTrade trade =>
    obtain ⟨⟨after, outcome⟩, returned, equation⟩ := Option.map_eq_some_iff.mp returns
    obtain rfl : after = next := congrArg Prod.fst equation
    exact owns.route returned

/-! ### Every run -/

/-- From a new manager, every call of a run is routed exactly when no call that the run reaches
names the token 0. -/
theorem routed_throughout_iff {sizeHint : Nat} {manager : OrderBookManagerType2}
    {fresh : OrderBookType2} (created : create sizeHint = some manager)
    (made : BookOver.create sizeHint = some fresh) (calls : List Call) :
    EachStep (beside call subscribed) (fun state call => Routed fresh state.1 state.2 call)
        (manager, []) calls ↔
      EachStep (beside call subscribed) (fun _ call => call.token ≠ emptyToken)
        (manager, []) calls := by
  have same (state : OrderBookManagerType2 × List TokenId) (call : Call)
      (owns : Owns sizeHint state.1 state.2) := owns.routed_iff made call
  refine eachStep_iff same (fun state call next result owns proper returns => ?_) calls
    (manager, []) (owns_create created)
  obtain ⟨⟨after, outcome⟩, returned, equation⟩ := Option.map_eq_some_iff.mp returns
  obtain rfl := congrArg Prod.fst equation
  exact owns.call made proper returned

/-- Two tokens are subscribed, one of them twice; an order goes to each, and an order for a third
token throws. -/
theorem routed_throughout_example :
    ∃ manager fresh, create 1 = some manager ∧ BookOver.create 1 = some fresh ∧
      EachStep (beside call subscribed) (fun state call => Routed fresh state.1 state.2 call)
        (manager, [])
        [.subscribe 7, .subscribe 9, .subscribe 7,
          .addOrder
            { type := 'N', orderId := 1, tokenId := 7, orderType := 'B', price := 100, qty := 10 },
          .addOrder
            { type := 'N', orderId := 1, tokenId := 9, orderType := 'S', price := 50, qty := 4 },
          .addTrade { buyOrderId := 1, sellOrderId := 0, tokenId := 7, price := 100, qty := 10 },
          .addOrder
            { type := 'N', orderId := 2, tokenId := 8, orderType := 'B', price := 1, qty := 1 }] := by
  obtain ⟨manager, created⟩ := exists_create 1
  have made : BookOver.create 1 = some ⟨.empty, .empty, .empty 1 BookOver.emptyOrderId⟩ := rfl
  refine ⟨manager, _, created, made, (routed_throughout_iff created made _).mpr ?_⟩
  exact eachStep_of_forall (fun _ => by decide) _

/-- After a subscription of another token, an order for the token 0, which never was subscribed:
the manager takes it for a subscribed one and does not throw. -/
theorem order_for_reserved_token_is_accepted :
    ∃ manager fresh, create 1 = some manager ∧ BookOver.create 1 = some fresh ∧
      ¬ EachStep (beside call subscribed) (fun state call => Routed fresh state.1 state.2 call)
        (manager, [])
        [.subscribe 7,
          .addOrder
            { type := 'N', orderId := 1, tokenId := 0, orderType := 'B', price := 100, qty := 10 }] := by
  obtain ⟨manager, created⟩ := exists_create 1
  have made : BookOver.create 1 = some ⟨.empty, .empty, .empty 1 BookOver.emptyOrderId⟩ := rfl
  refine ⟨manager, _, created, made, fun routed => ?_⟩
  have owns := owns_create created
  obtain ⟨symbols, returns, again⟩ := owns.subscribe_new (show (7 : TokenId) ≠ emptyToken by decide)
    List.not_mem_nil (show 0 < maxSecurities by decide) made
  unfold EachStep at routed
  have later := routed.2
  rw [beside, call, returns] at later
  have wrong := ((again.routed_iff made _).mp later.1)
  exact wrong rfl

end OrderBookManagerType2

end ObLib
