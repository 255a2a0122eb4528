/-
This file is the market data as it goes over the wire: the packed structs of Common's
MktDataGlobalHeaderMsg.hpp, MktDataOrderMsg.hpp and MktDataTradeMsg.hpp with their
bytes, and the objects that OrderBookStore's Order.hpp and Trade.hpp make of them.

A `char` is its byte. A struct's bytes are those of its fields, one behind another.
-/

import OrderBookSketch.Library.Codec

namespace ObLib

open Codecs

/-! ### Structs -/

structure MktDataGlobalHeaderMsg where
  len : Int16
  streamId : Int16
  seqNo : Int32
deriving DecidableEq, Repr

structure MktDataOrderMsg where
  timestamp : Int64
  orderId : Int64
  toeknNo : Int32
  orderType : UInt8
  price : Int32
  qty : Int32
deriving DecidableEq, Repr

structure MktDataTradeMsg where
  timestamp : Int64
  buySideOrderId : Int64
  sellSideOrderId : Int64
  toeknNo : Int32
  price : Int32
  qty : Int32
deriving DecidableEq, Repr

def MktDataGlobalHeaderMsg.codec : Codec MktDataGlobalHeaderMsg :=
  (int16.prod (int16.prod int32)).map (fun msg => (msg.len, msg.streamId, msg.seqNo))
    (fun (len, streamId, seqNo) => ⟨len, streamId, seqNo⟩) fun _ => rfl

def MktDataOrderMsg.codec : Codec MktDataOrderMsg :=
  (int64.prod (int64.prod (int32.prod (byte.prod (int32.prod int32))))).map
    (fun msg => (msg.timestamp, msg.orderId, msg.toeknNo, msg.orderType, msg.price, msg.qty))
    (fun (timestamp, orderId, toeknNo, orderType, price, qty) =>
      ⟨timestamp, orderId, toeknNo, orderType, price, qty⟩)
    fun _ => rfl

def MktDataTradeMsg.codec : Codec MktDataTradeMsg :=
  (int64.prod (int64.prod (int64.prod (int32.prod (int32.prod int32))))).map
    (fun msg => (msg.timestamp, msg.buySideOrderId, msg.sellSideOrderId, msg.toeknNo, msg.price,
      msg.qty))
    (fun (timestamp, buySideOrderId, sellSideOrderId, toeknNo, price, qty) =>
      ⟨timestamp, buySideOrderId, sellSideOrderId, toeknNo, price, qty⟩)
    fun _ => rfl

example : MktDataGlobalHeaderMsg.codec.size + 1 = 9 ∧ MktDataOrderMsg.codec.size = 29 ∧
    MktDataTradeMsg.codec.size = 36 := by decide

/-! ### Messages -/

abbrev OrderTuple := MktDataGlobalHeaderMsg × UInt8 × MktDataOrderMsg

abbrev TradeTuple := MktDataGlobalHeaderMsg × UInt8 × MktDataTradeMsg

/-- `OrderGenerator::TypeMktDataPair`. -/
abbrev TypeMktDataPair := UInt8 × (OrderTuple ⊕ TradeTuple)

/-- The cases of the switches that stand for an order. -/
def orderTypes : List UInt8 := ['N', 'M', 'X', 'H', 'G', 'J'].map Char.toUInt8

/-- The cases of the switches that stand for a trade. -/
def tradeTypes : List UInt8 := ['T', 'K'].map Char.toUInt8

theorem not_orderType {type : UInt8} (trade : type ∈ tradeTypes) : type ∉ orderTypes := by
  have apart : tradeTypes.all (fun type => type ∉ orderTypes) = true := by decide
  exact of_decide_eq_true (List.all_eq_true.mp apart type trade)

namespace TypeMktDataPair

def header (msg : TypeMktDataPair) : MktDataGlobalHeaderMsg :=
  match msg.2 with
  | .inl (header, _, _) => header
  | .inr (header, _, _) => header

def toeknNo (msg : TypeMktDataPair) : Int32 :=
  match msg.2 with
  | .inl (_, _, body) => body.toeknNo
  | .inr (_, _, body) => body.toeknNo

/-- The type is the one inside, and says which of the two bodies there is. -/
def WellFormed (msg : TypeMktDataPair) : Prop :=
  match msg.2 with
  | .inl (_, type, _) => msg.1 = type ∧ type ∈ orderTypes
  | .inr (_, type, _) => msg.1 = type ∧ type ∈ tradeTypes

instance (msg : TypeMktDataPair) : Decidable msg.WellFormed := by
  unfold WellFormed
  split <;> infer_instance

end TypeMktDataPair

/-! ### Objects -/

structure SimpleOrder where
  globalMktDataHeader : MktDataGlobalHeaderMsg
  msgType : UInt8
  timestamp : Int64
  orderId : Int64
  toeknNo : Int32
  orderType : UInt8
  price : Int32
  qty : Int32
deriving DecidableEq, Repr

def SimpleOrder.create (header : MktDataGlobalHeaderMsg) (msgType : UInt8) (msg : MktDataOrderMsg) :
    SimpleOrder where
  globalMktDataHeader :=
    { len := header.len
      seqNo := header.seqNo
      streamId := header.streamId }
  msgType := msgType
  timestamp := msg.timestamp
  orderId := msg.orderId
  toeknNo := msg.toeknNo
  orderType := msg.orderType
  price := msg.price
  qty := msg.qty

structure SimpleTrade where
  globalMktDataHeader : MktDataGlobalHeaderMsg
  msgType : UInt8
  timestamp : Int64
  buyOrderId : Int64
  sellOrderId : Int64
  toeknNo : Int32
  price : Int32
  qty : Int32
deriving DecidableEq, Repr

def SimpleTrade.create (header : MktDataGlobalHeaderMsg) (msgType : UInt8) (msg : MktDataTradeMsg) :
    SimpleTrade where
  globalMktDataHeader :=
    { len := header.len
      seqNo := header.seqNo
      streamId := header.streamId }
  msgType := msgType
  timestamp := msg.timestamp
  buyOrderId := msg.buySideOrderId
  sellOrderId := msg.sellSideOrderId
  toeknNo := msg.toeknNo
  price := msg.price
  qty := msg.qty

end ObLib
