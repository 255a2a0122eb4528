/-
This file models what the `Session` of MarketDataPublisher writes to its socket.

`doRead` goes through the messages of an `OrderGenerator` in the order of its
container and writes each in one piece: header, type and body. The type of the pair
chooses the body; a body of the other kind throws (`none`). With `_runForSingleSec`
only the messages of one security are written. The socket stays open.
-/

import OrderBookSketch.MktData

namespace ObLib.Session

/-- The security that `_runForSingleSec` keeps. -/
def singleSec : Int32 := 47958

/-- What is written for a message. -/
def write (runForSingleSec : Bool) (msg : TypeMktDataPair) : Option (List UInt8) :=
  if msg.1 ∈ orderTypes then
    match msg.2 with
    | .inl (header, type, body) =>
      let data :=
        MktDataGlobalHeaderMsg.codec.encode header ++ [type] ++ MktDataOrderMsg.codec.encode body
      if runForSingleSec then some (if body.toeknNo = singleSec then data else []) else some data
    | .inr _ => none
  else if msg.1 ∈ tradeTypes then
    match msg.2 with
    | .inl _ => none
    | .inr (header, type, body) =>
      let data :=
        MktDataGlobalHeaderMsg.codec.encode header ++ [type] ++ MktDataTradeMsg.codec.encode body
      if runForSingleSec then some (if body.toeknNo = singleSec then data else []) else some data
  else some []

def doRead (runForSingleSec : Bool) (mktData : List TypeMktDataPair) : Option (List (List UInt8)) :=
  mktData.mapM (write runForSingleSec)

/-! ### Packets -/

/-- The bytes of a message. -/
def packet (msg : TypeMktDataPair) : List UInt8 :=
  match msg.2 with
  | .inl (header, type, body) =>
    MktDataGlobalHeaderMsg.codec.encode header ++ type :: MktDataOrderMsg.codec.encode body
  | .inr (header, type, body) =>
    MktDataGlobalHeaderMsg.codec.encode header ++ type :: MktDataTradeMsg.codec.encode body

/-- The messages that are written. -/
def Published (runForSingleSec : Bool) (msg : TypeMktDataPair) : Prop :=
  runForSingleSec = true → msg.toeknNo = singleSec

instance (runForSingleSec : Bool) (msg : TypeMktDataPair) :
    Decidable (Published runForSingleSec msg) :=
  inferInstanceAs (Decidable (_ → _))

theorem packet_ne_nil (msg : TypeMktDataPair) : packet msg ≠ [] := by
  unfold packet
  split <;> exact List.append_ne_nil_of_right_ne_nil _ (List.cons_ne_nil _ _)

theorem write_eq (runForSingleSec : Bool) {msg : TypeMktDataPair} (wellFormed : msg.WellFormed) :
    write runForSingleSec msg =
      some (if Published runForSingleSec msg then packet msg else []) := by
  rcases msg with ⟨first, ⟨header, type, body⟩ | ⟨header, type, body⟩⟩
  · obtain ⟨rfl, order⟩ : first = type ∧ type ∈ orderTypes := wellFormed
    simp only [write, if_pos order, packet, List.append_assoc, List.singleton_append]
    cases runForSingleSec with
    | false => exact congrArg some (if_pos nofun).symm
    | true => exact congrArg some (if_congr ⟨fun same _ => same, fun same => same rfl⟩ rfl rfl)
  · obtain ⟨rfl, trade⟩ : first = type ∧ type ∈ tradeTypes := wellFormed
    simp only [write, if_neg (not_orderType trade), if_pos trade, packet, List.append_assoc,
      List.singleton_append]
    cases runForSingleSec with
    | false => exact congrArg some (if_pos nofun).symm
    | true => exact congrArg some (if_congr ⟨fun same _ => same, fun same => same rfl⟩ rfl rfl)

theorem doRead_eq (runForSingleSec : Bool) {mktData : List TypeMktDataPair}
    (wellFormed : ∀ msg ∈ mktData, msg.WellFormed) :
    doRead runForSingleSec mktData = some
      (mktData.map fun msg => if Published runForSingleSec msg then packet msg else []) := by
  unfold doRead
  induction mktData with
  | nil => rfl
  | cons msg mktData inductionHypothesis =>
    obtain ⟨wellFormedFirst, wellFormedRest⟩ := List.forall_mem_cons.mp wellFormed
    rw [List.mapM_cons, write_eq runForSingleSec wellFormedFirst, inductionHypothesis wellFormedRest]
    rfl

/-- The bytes on the wire are those of the messages that are written. -/
theorem flatten_written (runForSingleSec : Bool) (mktData : List TypeMktDataPair) :
    (mktData.map fun msg => if Published runForSingleSec msg then packet msg else []).flatten =
      (mktData.filter (Published runForSingleSec ·)).flatMap packet := by
  induction mktData with
  | nil => rfl
  | cons msg mktData inductionHypothesis =>
    rw [List.map_cons, List.flatten_cons, inductionHypothesis]
    by_cases published : Published runForSingleSec msg
    · rw [if_pos published, List.filter_cons_of_pos (by simpa using published), List.flatMap_cons]
    · rw [if_neg published, List.filter_cons_of_neg (by simpa using published), List.nil_append]

end ObLib.Session
