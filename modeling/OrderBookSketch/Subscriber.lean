/-
This file models how `Subscriber` of OrderBookStore reads the stream of a publisher's
`Session`, and proves that it reads back every message that was written.

`async_read` takes exactly the bytes asked for off the stream, or fails at its end and
closes the socket. `doReadHeader` reads a header and a type, `doReadBody` the body that
the type stands for, and then `doReadHeader` is called again. The buffers, and the
variables that the handlers have references to, are taken to be as they were when a
handler runs.
-/

import OrderBookSketch.Publisher
import Mathlib.Data.List.Forall2

namespace ObLib

open Codecs Loops

inductive SimpleMsg where
  | order (order : SimpleOrder)
  | trade (trade : SimpleTrade)
deriving DecidableEq, Repr

/-- The objects made so far, and the bytes not read yet. -/
structure Subscriber where
  received : List SimpleMsg := []
  stream : List UInt8
deriving DecidableEq, Repr

namespace Subscriber

def doReadBody (subscriber : Subscriber) (header : MktDataGlobalHeaderMsg) (msgType : UInt8) :
    Subscriber ⊕ Subscriber :=
  if msgType ∈ orderTypes then
    match MktDataOrderMsg.codec.read subscriber.stream with
    | some (body, stream) =>
      .inl { received := subscriber.received ++ [.order (.create header msgType body)], stream }
    | none => .inr subscriber
  else if msgType ∈ tradeTypes then
    match MktDataTradeMsg.codec.read subscriber.stream with
    | some (body, stream) =>
      .inl { received := subscriber.received ++ [.trade (.create header msgType body)], stream }
    | none => .inr subscriber
  else .inr subscriber

/-- Calls itself again through `doReadBody`, or leaves. -/
def doReadHeader (subscriber : Subscriber) : Subscriber ⊕ Subscriber :=
  match (MktDataGlobalHeaderMsg.codec.prod byte).read subscriber.stream with
  | some ((header, msgType), stream) => { subscriber with stream }.doReadBody header msgType
  | none => .inr subscriber

/-- What is read off a stream, every message of which has a byte at least. -/
def read (stream : List UInt8) : Option Subscriber :=
  loop doReadHeader (stream.length + 1) { stream }

end Subscriber

/-- The object has every field of the message. -/
def Carries (msg : TypeMktDataPair) (received : SimpleMsg) : Prop :=
  match msg.2, received with
  | .inl (header, type, body), .order order =>
    order.globalMktDataHeader = header ∧ order.msgType = type ∧ order.timestamp = body.timestamp ∧
      order.orderId = body.orderId ∧ order.toeknNo = body.toeknNo ∧
      order.orderType = body.orderType ∧ order.price = body.price ∧ order.qty = body.qty
  | .inr (header, type, body), .trade trade =>
    trade.globalMktDataHeader = header ∧ trade.msgType = type ∧ trade.timestamp = body.timestamp ∧
      trade.buyOrderId = body.buySideOrderId ∧ trade.sellOrderId = body.sellSideOrderId ∧
      trade.toeknNo = body.toeknNo ∧ trade.price = body.price ∧ trade.qty = body.qty
  | _, _ => False

/-- The object made of a message. -/
def simpleMsg (msg : TypeMktDataPair) : SimpleMsg :=
  match msg.2 with
  | .inl (header, type, body) => .order (.create header type body)
  | .inr (header, type, body) => .trade (.create header type body)

theorem carries_simpleMsg (msg : TypeMktDataPair) : Carries msg (simpleMsg msg) := by
  unfold Carries simpleMsg
  rcases msg with ⟨_, ⟨header, type, body⟩ | ⟨header, type, body⟩⟩
  · exact ⟨rfl, rfl, rfl, rfl, rfl, rfl, rfl, rfl⟩
  · exact ⟨rfl, rfl, rfl, rfl, rfl, rfl, rfl, rfl⟩

namespace Subscriber

/-- A header and a type on the stream are read, and then the body behind them. -/
theorem doReadHeader_append (received : List SimpleMsg) (header : MktDataGlobalHeaderMsg)
    (type : UInt8) (rest : List UInt8) :
    doReadHeader ⟨received, MktDataGlobalHeaderMsg.codec.encode header ++ type :: rest⟩ =
      doReadBody ⟨received, rest⟩ header type := by
  have reads : (MktDataGlobalHeaderMsg.codec.prod byte).read
      (MktDataGlobalHeaderMsg.codec.encode header ++ type :: rest) = some ((header, type), rest) := by
    have front := Codec.read_encode_append (MktDataGlobalHeaderMsg.codec.prod byte) (header, type) rest
    rw [show (MktDataGlobalHeaderMsg.codec.prod byte).encode (header, type) =
      MktDataGlobalHeaderMsg.codec.encode header ++ [type] from rfl, List.append_assoc] at front
    exact front
  unfold doReadHeader
  rw [reads]

/-- A message on the stream is read as its object. -/
theorem doReadHeader_packet {msg : TypeMktDataPair} (wellFormed : msg.WellFormed)
    (received : List SimpleMsg) (rest : List UInt8) :
    doReadHeader ⟨received, Session.packet msg ++ rest⟩ =
      .inl ⟨received ++ [simpleMsg msg], rest⟩ := by
  rcases msg with ⟨first, ⟨header, type, body⟩ | ⟨header, type, body⟩⟩
  · have order : type ∈ orderTypes := wellFormed.2
    show doReadHeader ⟨received, (_ ++ type :: _) ++ rest⟩ = _
    rw [List.append_assoc, List.cons_append, doReadHeader_append]
    unfold doReadBody
    rw [if_pos order, Codec.read_encode_append]
    rfl
  · have trade : type ∈ tradeTypes := wellFormed.2
    show doReadHeader ⟨received, (_ ++ type :: _) ++ rest⟩ = _
    rw [List.append_assoc, List.cons_append, doReadHeader_append]
    unfold doReadBody
    rw [if_neg (not_orderType trade), if_pos trade, Codec.read_encode_append]
    rfl

theorem doReadHeader_nil (received : List SimpleMsg) :
    doReadHeader ⟨received, []⟩ = .inr ⟨received, []⟩ := by
  unfold doReadHeader
  rw [Codec.read_nil (by decide)]

/-- There are no more packets than bytes. -/
theorem length_le_packets (mktData : List TypeMktDataPair) :
    mktData.length ≤ (mktData.flatMap Session.packet).length := by
  induction mktData with
  | nil => exact Nat.le_refl _
  | cons msg mktData inductionHypothesis =>
    have some := List.length_pos_iff.mpr (Session.packet_ne_nil msg)
    rw [List.flatMap_cons, List.length_append, List.length_cons]
    omega

/-- The packets of messages are read as their objects. -/
theorem read_packets {mktData : List TypeMktDataPair}
    (wellFormed : ∀ msg ∈ mktData, msg.WellFormed) :
    read (mktData.flatMap Session.packet) =
      some { received := mktData.map simpleMsg, stream := [] } := by
  have takes (msg : TypeMktDataPair) (member : msg ∈ mktData) (read : List TypeMktDataPair)
      (rest : List UInt8) :
      doReadHeader ⟨read.map simpleMsg, Session.packet msg ++ rest⟩ =
        .inl ⟨(read ++ [msg]).map simpleMsg, rest⟩ := by
    rw [doReadHeader_packet (wellFormed msg member), List.map_append]
    rfl
  let reader (read : List TypeMktDataPair) (stream : List UInt8) : Subscriber :=
    ⟨read.map simpleMsg, stream⟩
  have leaves (read : List TypeMktDataPair) : doReadHeader (reader read []) = .inr (reader read []) :=
    doReadHeader_nil _
  exact loop_stream reader leaves mktData takes _ (Nat.lt_succ_of_le (length_le_packets mktData)) []

/-- What the publisher writes for its messages is read back as the same messages, in order, and
nothing is left over. -/
theorem read_written (runForSingleSec : Bool) (mktData : List TypeMktDataPair)
    (wellFormed : ∀ msg ∈ mktData, msg.WellFormed) :
    ∃ written received, Session.doRead runForSingleSec mktData = some written ∧
      read written.flatten = some { received, stream := [] } ∧
      List.Forall₂ Carries (mktData.filter (Session.Published runForSingleSec ·)) received := by
  refine ⟨_, (mktData.filter (Session.Published runForSingleSec ·)).map simpleMsg,
    Session.doRead_eq runForSingleSec wellFormed, ?_, ?_⟩
  · rw [Session.flatten_written]
    exact read_packets fun msg member => wellFormed msg ((List.mem_filter.mp member).1)
  · exact List.forall₂_map_right_iff.mpr (List.forall₂_same.mpr fun msg _ => carries_simpleMsg msg)

/-- A new order and a trade of it. -/
theorem read_written_example :
    ∃ written received,
      Session.doRead false
          [('N'.toUInt8, .inl (⟨38, 1, 7⟩, 'N'.toUInt8, ⟨5, 11, 47958, 'B'.toUInt8, -25, 10⟩)),
            ('T'.toUInt8, .inr (⟨45, 1, 8⟩, 'T'.toUInt8, ⟨6, 11, 0, 47958, -25, 10⟩))] =
        some written ∧
      read written.flatten = some { received, stream := [] } ∧
      List.Forall₂ Carries
        (List.filter (Session.Published false ·)
          [('N'.toUInt8, .inl (⟨38, 1, 7⟩, 'N'.toUInt8, ⟨5, 11, 47958, 'B'.toUInt8, -25, 10⟩)),
            ('T'.toUInt8, .inr (⟨45, 1, 8⟩, 'T'.toUInt8, ⟨6, 11, 0, 47958, -25, 10⟩))]) received :=
  read_written false _ (by decide)

end Subscriber

end ObLib
