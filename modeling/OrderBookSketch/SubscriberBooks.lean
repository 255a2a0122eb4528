/-
This file models `Subscriber` of OrderBookStore with its order books: what it does with
each message that it reads, and what it logs of it.

The constructor subscribes a book for every token of its own capture file. Each order or
trade that is read goes to the book manager; what that throws is caught and printed. Then
one string is logged: the latency, which is measured and so a parameter here, the message,
and the book of the message's token, if there is one. The text is the same whatever was
thrown.

The handler of a body has references to the header and the type that `doReadBody` was
called with, and runs when that call has returned. What it finds through them is a
parameter; the theorems are about handlers that find the header and the type unchanged.
-/

import OrderBookSketch.Subscriber
import OrderBookSketch.OrderGeneratorCopies
import OrderBookSketch.OrderBookManagerRouting

namespace ObLib

open Codecs Loops Runs

/-! ### Messages -/

/-- A `char` on a stream. -/
def charText (byte : UInt8) : String := String.singleton (Char.ofNat byte.toNat)

/-- What the `toString` of an order or a trade adds for the header. -/
def MktDataGlobalHeaderMsg.text (header : MktDataGlobalHeaderMsg) : String :=
  " - H: [ " ++ toString header.len.toInt ++ " " ++ toString header.streamId.toInt ++ " " ++
    toString header.seqNo.toInt ++ " ] "

/-- `SimpleOrder::toString`. -/
def SimpleOrder.text (order : SimpleOrder) : String :=
  order.globalMktDataHeader.text ++ " B: [ " ++ charText order.msgType ++ " " ++
    toString order.timestamp.toInt ++ " " ++ toString order.orderId.toInt ++ " " ++
    toString order.toeknNo.toInt ++ " " ++ charText order.orderType ++ " " ++
    toString order.price.toInt ++ " " ++ toString order.qty.toInt ++ " ] "

/-- `SimpleTrade::toString`. -/
def SimpleTrade.text (trade : SimpleTrade) : String :=
  trade.globalMktDataHeader.text ++ " B: [ " ++ charText trade.msgType ++ " " ++
    toString trade.timestamp.toInt ++ " " ++ toString trade.buyOrderId.toInt ++ " " ++
    toString trade.sellOrderId.toInt ++ " " ++ toString trade.toeknNo.toInt ++ " " ++
    toString trade.price.toInt ++ " " ++ toString trade.qty.toInt ++ " ] "

/-- What the accessors of `Order` return. -/
def SimpleOrder.asOrder (order : SimpleOrder) : Order where
  type := Char.ofNat order.msgType.toNat
  orderId := order.orderId.toInt
  tokenId := order.toeknNo.toInt
  orderType := Char.ofNat order.orderType.toNat
  price := order.price.toInt
  qty := order.qty.toInt

/-- What the accessors of `Trade` return. -/
def SimpleTrade.asTrade (trade : SimpleTrade) : Trade where
  buyOrderId := trade.buyOrderId.toInt
  sellOrderId := trade.sellOrderId.toInt
  tokenId := trade.toeknNo.toInt
  price := trade.price.toInt
  qty := trade.qty.toInt

namespace SimpleMsg

def text : SimpleMsg → String
  | .order simple => simple.text
  | .trade simple => simple.text

/-- The message as the order books see it. -/
def message : SimpleMsg → Message
  | .order simple => .ofOrder simple.asOrder
  | .trade simple => .ofTrade simple.asTrade

/-- The token of the body. -/
def tokenId : SimpleMsg → TokenId
  | .order simple => simple.toeknNo.toInt
  | .trade simple => simple.toeknNo.toInt

end SimpleMsg

/-! ### The book manager -/

namespace OrderBookManagerType2

/-- The subscriptions of `init`, up to the first that throws. -/
def init (manager : OrderBookManagerType2) :
    List TokenId → Option (OrderBookManagerType2 × Except String Unit)
  | [] => some (manager, .ok ())
  | token :: tokens => do
    let (manager, result) ← manager.subscribe token
    match result with
    | .ok _ => manager.init tokens
    | .error what => return (manager, .error what)

/-- What `printOrderBookForSymbol` adds to its argument. -/
def printOrderBookForSymbol (manager : OrderBookManagerType2) (token : TokenId) :
    Option String := do
  let it ← manager.symbols.find hasher token
  if it = manager.symbols.end then return ""
  else
    let book ← manager.books[(manager.symbols.bucket it).2]?
    return book.toString

/-- `addOrder` or `addTrade`, whose exception is caught, and what is printed of the book. -/
def handle (manager : OrderBookManagerType2) (msg : SimpleMsg) :
    Option (OrderBookManagerType2 × String) := do
  let (manager, _) ← match msg with
    | .order order => manager.addOrder order.asOrder
    | .trade trade => manager.addTrade trade.asTrade
  let listing ← manager.printOrderBookForSymbol msg.tokenId
  return (manager, listing)

end OrderBookManagerType2

/-! ### The subscriber -/

structure BookSubscriber where
  orderBookManager : OrderBookManagerType2
  logged : List String := []
  stream : List UInt8

namespace BookSubscriber

/-- The size hint of the constructor's book manager. -/
def sizeHint : Nat := 100000

/-- The book manager behind the constructor, on the lines of a file that is readable, or the text
of the exception. -/
def create (beyond : Beyond) (lines : List (List Char)) :
    Option (Except String OrderBookManagerType2) := do
  let manager ← OrderBookManagerType2.create sizeHint
  match (storeOrderGenerator beyond lines).2 with
  | .error what => return .error what
  | .ok tokens =>
    let (manager, result) ← manager.init (tokens.entries.map Prod.fst)
    return result.map fun _ => manager

/-- The string that is logged for a message, the number of messages before it giving its latency. -/
def logLine (latency : Nat → Nat) (count : Nat) (msg : SimpleMsg) (listing : String) : String :=
  " Lat: " ++ toString (latency count) ++ msg.text ++ listing

def receive (latency : Nat → Nat) (subscriber : BookSubscriber) (msg : SimpleMsg) :
    Option BookSubscriber := do
  let (manager, listing) ← subscriber.orderBookManager.handle msg
  return { subscriber with
    orderBookManager := manager
    logged := subscriber.logged ++ [logLine latency subscriber.logged.length msg listing] }

/-- What the handler of a body finds through its references to a header and a type, the number of
messages before it telling one handler from another. -/
abbrev Seen := Nat → MktDataGlobalHeaderMsg × UInt8 → MktDataGlobalHeaderMsg × UInt8

/-- The variables of `doReadBody` are unchanged until its handler runs. -/
def Intact (seen : Seen) : Prop := ∀ count captured, seen count captured = captured

/-- `doReadHeader` is called again where the message was taken. -/
def goOn : Option BookSubscriber → BookSubscriber ⊕ Option BookSubscriber
  | some next => .inl next
  | none => .inr none

def doReadBody (seen : Seen) (latency : Nat → Nat) (subscriber : BookSubscriber)
    (header : MktDataGlobalHeaderMsg) (msgType : UInt8) : BookSubscriber ⊕ Option BookSubscriber :=
  -- the switch is on the type itself, the handlers have references
  let found := seen subscriber.logged.length (header, msgType)
  if msgType ∈ orderTypes then
    match MktDataOrderMsg.codec.read subscriber.stream with
    | some (body, stream) =>
      goOn ({ subscriber with stream }.receive latency (.order (.create found.1 found.2 body)))
    | none => .inr (some subscriber)
  else if msgType ∈ tradeTypes then
    match MktDataTradeMsg.codec.read subscriber.stream with
    | some (body, stream) =>
      goOn ({ subscriber with stream }.receive latency (.trade (.create found.1 found.2 body)))
    | none => .inr (some subscriber)
  else .inr (some subscriber)

def doReadHeader (seen : Seen) (latency : Nat → Nat) (subscriber : BookSubscriber) :
    BookSubscriber ⊕ Option BookSubscriber :=
  match (MktDataGlobalHeaderMsg.codec.prod byte).read subscriber.stream with
  | some ((header, msgType), stream) =>
    { subscriber with stream }.doReadBody seen latency header msgType
  | none => .inr (some subscriber)

/-- What is read off a stream, every message of which has a byte at least. -/
def read (seen : Seen) (latency : Nat → Nat) (manager : OrderBookManagerType2)
    (stream : List UInt8) : Option BookSubscriber :=
  (loop (doReadHeader seen latency) (stream.length + 1)
    { orderBookManager := manager, stream }).join

/-! ### Reading packets -/

variable {seen : Seen} {latency : Nat → Nat}

/-- Where the reader alone goes on with an object, the subscriber takes that object. -/
theorem doReadHeader_eq (intact : Intact seen) {subscriber : BookSubscriber} {msg : SimpleMsg}
    {rest : List UInt8}
    (reads : Subscriber.doReadHeader { stream := subscriber.stream } =
      .inl { received := [msg], stream := rest }) :
    doReadHeader seen latency subscriber =
      goOn ({ subscriber with stream := rest }.receive latency msg) := by
  unfold Subscriber.doReadHeader at reads
  unfold doReadHeader
  cases front : (MktDataGlobalHeaderMsg.codec.prod byte).read subscriber.stream with
  | none =>
    simp only [front] at reads
    cases reads
  | some result =>
    obtain ⟨⟨header, msgType⟩, stream⟩ := result
    simp only [front, Subscriber.doReadBody] at reads
    simp only [doReadBody, intact _]
    split_ifs at reads ⊢ with order trade
    · cases body : MktDataOrderMsg.codec.read stream with
      | none =>
        simp only [body] at reads
        cases reads
      | some read =>
        simp only [body, Sum.inl.injEq, Subscriber.mk.injEq, List.nil_append,
          List.cons.injEq] at reads
        obtain ⟨⟨rfl, -⟩, rfl⟩ := reads
        rfl
    · cases body : MktDataTradeMsg.codec.read stream with
      | none =>
        simp only [body] at reads
        cases reads
      | some read =>
        simp only [body, Sum.inl.injEq, Subscriber.mk.injEq, List.nil_append,
          List.cons.injEq] at reads
        obtain ⟨⟨rfl, -⟩, rfl⟩ := reads
        rfl

/-- The strings logged for messages with these listings, from a number of messages on. -/
def logLines (latency : Nat → Nat) : Nat → List SimpleMsg → List String → List String
  | count, msg :: msgs, listing :: listings =>
    logLine latency count msg listing :: logLines latency (count + 1) msgs listings
  | _, _, _ => []

/-- The packets of messages are taken one after another, and then the stream is at its end. -/
theorem loop_packets (intact : Intact seen) {mktData : List TypeMktDataPair}
    (wellFormed : ∀ msg ∈ mktData, msg.WellFormed) {manager last : OrderBookManagerType2}
    {listings : List String}
    (returns : run OrderBookManagerType2.handle manager (mktData.map simpleMsg) =
      some (last, listings)) {fuel : Nat} (enough : mktData.length < fuel) (logged : List String) :
    loop (doReadHeader seen latency) fuel
        { orderBookManager := manager, logged, stream := mktData.flatMap Session.packet } =
      some (some
        { orderBookManager := last
          logged := logged ++ logLines latency logged.length (mktData.map simpleMsg) listings
          stream := [] }) := by
  induction mktData generalizing manager logged fuel listings with
  | nil =>
    obtain ⟨rfl, rfl⟩ := Prod.mk.inj (Option.some.inj returns)
    obtain ⟨fuel, rfl⟩ := Nat.exists_eq_succ_of_ne_zero (Nat.ne_of_gt enough)
    have atEnd : doReadHeader seen latency { orderBookManager := manager, logged, stream := [] } =
        .inr (some { orderBookManager := manager, logged, stream := [] }) := by
      unfold doReadHeader
      rw [Codec.read_nil (by decide)]
    rw [List.flatMap_nil, loop_inr _ atEnd]
    simp [logLines]
  | cons msg mktData inductionHypothesis =>
    obtain ⟨wellFormedFirst, wellFormedRest⟩ := List.forall_mem_cons.mp wellFormed
    obtain ⟨next, listing, later, handled, runs, rfl⟩ := exists_of_run_cons returns
    obtain ⟨fuel, rfl⟩ := Nat.exists_eq_succ_of_ne_zero (Nat.ne_of_gt (Nat.zero_lt_of_lt enough))
    have taken : doReadHeader seen latency
        { orderBookManager := manager, logged, stream := (msg :: mktData).flatMap Session.packet } =
        .inl { orderBookManager := next
               logged := logged ++ [logLine latency logged.length (simpleMsg msg) listing]
               stream := mktData.flatMap Session.packet } := by
      rw [doReadHeader_eq intact (Subscriber.doReadHeader_packet wellFormedFirst [] _)]
      simp only [receive, handled]
      rfl
    rw [loop_inl _ taken,
      inductionHypothesis wellFormedRest runs (Nat.lt_of_succ_lt_succ enough), List.append_assoc,
      List.length_append]
    rfl

/-- What a publisher wrote is read to its end: every message goes to the book manager, in order,
and each is logged with what the manager prints for it then. -/
theorem read_packets (intact : Intact seen) {mktData : List TypeMktDataPair}
    (wellFormed : ∀ msg ∈ mktData, msg.WellFormed) {manager last : OrderBookManagerType2}
    {listings : List String}
    (returns : run OrderBookManagerType2.handle manager (mktData.map simpleMsg) =
      some (last, listings)) :
    read seen latency manager (mktData.flatMap Session.packet) = some
      { orderBookManager := last
        logged := logLines latency 0 (mktData.map simpleMsg) listings
        stream := [] } := by
  have enough := Nat.lt_succ_of_le (Subscriber.length_le_packets mktData)
  rw [read, loop_packets intact wellFormed returns enough []]
  rfl

end BookSubscriber

end ObLib
