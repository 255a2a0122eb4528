/-
This file models the queue of incoming messages of OrderManagementSystem's
`NSESession`, with the part of `SeqNumStore` that it reads, and proves when it delivers
messages as it should.

A message that is due is taken from the queue, but the next expected number never moves
on, since nothing calls `incrInSeqNum`; and its handler is looked up under the message
type as a `char`, which is no type that a handler like that of 1001 is registered
under. So the queue is right exactly in the runs in which no message is ever due when
the queue is processed.
-/

import OrderBookSketch.Library.Loop
import OrderBookSketch.Library.OrderedMap
import OrderBookSketch.Library.Run
import Mathlib.Algebra.Group.Nat.Defs
import Mathlib.Algebra.Ring.Int.Defs
import Mathlib.Data.Int.Order.Basic
import Mathlib.Tactic.SplitIfs

namespace Oms

open Containers Loops Runs

/-- `obLib::SeqNo`, an `int32_t`. -/
abbrev SeqNo := Int

/-- An `unsigned long` as a `SeqNo`. -/
def toSeqNo (seqNum : Nat) : SeqNo := Int.bmod seqNum (2 ^ 32)

/-- An `int` as a `char`. -/
def toChar (value : Int) : Int := Int.bmod value 256

structure NSEMessage where
  msgType : Int
  errCode : Int := 0
deriving DecidableEq, Repr

/-- The message handlers of `NSESession`. -/
inductive MessageHandler where
  | processOrderAck
  | processLogonRes
  | processLogoutRes
  | processErrorRes
  | processHeartBeat
  | processTrade
  | processReject
deriving DecidableEq, Repr

/-- The handlers that `inithandlers` registers. -/
def inithandlers (msgType : Int) : Option MessageHandler :=
  if msgType = 1001 then some .processLogonRes else none

/-- The parts of a session that the queue uses, and the handlers it has invoked. -/
structure NSESession where
  nextInSeqNum : Nat := 1
  incomingMsgQ : OrderedMap SeqNo NSEMessage (· < ·) := .empty
  msgHandler : Int → Option MessageHandler
  invoked : List (MessageHandler × NSEMessage) := []

namespace NSESession

def getNextInSeqNum (session : NSESession) : Nat := session.nextInSeqNum

def queueIncomingMsg (session : NSESession) (seqNo : SeqNo) (msg : NSEMessage) : NSESession :=
  { session with
    incomingMsgQ := (session.incomingMsgQ.insert seqNo msg).modify seqNo fun _ => msg }

def retreiveMsgFromIncomingQ (session : NSESession) (seqNo : SeqNo) :
    Option (NSESession × NSEMessage) :=
  match session.incomingMsgQ.get seqNo with
  | some msg => some ({ session with incomingMsgQ := session.incomingMsgQ.erase seqNo }, msg)
  | none => none

/-- One turn of `processIncomingMsgQ`; it leaves with `none` when it calls a handler that is not
there. -/
def turn (session : NSESession) : NSESession ⊕ Option NSESession :=
  match session.retreiveMsgFromIncomingQ (toSeqNo session.getNextInSeqNum) with
  | none => .inr (some session)
  | some (session, msg) =>
    let msgType := toChar msg.msgType
    match session.msgHandler msgType with
    | some handler => .inl { session with invoked := session.invoked ++ [(handler, msg)] }
    | none => .inr none

/-- Each turn takes a message from the queue. -/
def processIncomingMsgQ (session : NSESession) : Option NSESession :=
  (loop turn (session.incomingMsgQ.size + 1) session).join

/-- What happens to the queue. -/
inductive Event where
  | queueIncomingMsg (seqNo : SeqNo) (msg : NSEMessage)
  | processIncomingMsgQ
deriving DecidableEq, Repr

def step (session : NSESession) : Event → Option (NSESession × Unit)
  | .queueIncomingMsg seqNo msg => some (session.queueIncomingMsg seqNo msg, ())
  | .processIncomingMsgQ => session.processIncomingMsgQ.map fun session => (session, ())

end NSESession

/-! ### What the queue is for -/

/-- The next expected number, the messages that wait, and those delivered, in their order. -/
structure Delivery where
  next : Nat
  waiting : OrderedMap SeqNo NSEMessage (· < ·) := .empty
  delivered : List NSEMessage := []

namespace Delivery

/-- Delivers the messages that are due, at most so many. -/
def drain : Nat → Delivery → Delivery
  | 0, delivery => delivery
  | most + 1, delivery =>
    match delivery.waiting.get delivery.next with
    | none => delivery
    | some msg => drain most
        ⟨delivery.next + 1, delivery.waiting.erase delivery.next, delivery.delivered ++ [msg]⟩

def after (delivery : Delivery) : NSESession.Event → Delivery
  | .queueIncomingMsg seqNo msg =>
    { delivery with waiting := (delivery.waiting.insert seqNo msg).modify seqNo fun _ => msg }
  | .processIncomingMsgQ => delivery.drain delivery.waiting.size

/-- The most that are delivered are all that are due. -/
theorem drain_whole (most : Nat) (delivery : Delivery) (enough : delivery.waiting.size ≤ most) :
    (delivery.drain most).waiting.get (delivery.drain most).next = none := by
  induction most generalizing delivery with
  | zero =>
    rw [drain, OrderedMap.get, List.eq_nil_of_length_eq_zero (Nat.le_zero.mp enough)]
    rfl
  | succ most inductionHypothesis =>
    rw [drain]
    cases due : delivery.waiting.get delivery.next with
    | none => exact due
    | some msg =>
      refine inductionHypothesis _ (Nat.le_of_lt_succ ?_)
      exact Nat.lt_of_lt_of_le (OrderedMap.size_erase_lt due) enough

/-- Nothing is delivered that is not due. -/
theorem drain_of_not_due {delivery : Delivery} (notDue : delivery.waiting.get delivery.next = none)
    (most : Nat) : delivery.drain most = delivery := by
  cases most with
  | zero => rfl
  | succ most =>
    rw [drain, notDue]

/-- A message that is due moves the next expected number on. -/
theorem next_lt_drain {delivery : Delivery} {msg : NSEMessage}
    (due : delivery.waiting.get delivery.next = some msg) (most : Nat) :
    delivery.next < (delivery.drain (most + 1)).next := by
  have le (most : Nat) (delivery : Delivery) : delivery.next ≤ (delivery.drain most).next := by
    induction most generalizing delivery with
    | zero => exact Nat.le_refl _
    | succ most inductionHypothesis =>
      rw [drain]
      cases delivery.waiting.get delivery.next with
      | none => exact Nat.le_refl _
      | some msg =>
        have later := inductionHypothesis
          ⟨delivery.next + 1, delivery.waiting.erase delivery.next, delivery.delivered ++ [msg]⟩
        exact Nat.le_of_succ_le later
  rw [drain, due]
  exact le most ⟨delivery.next + 1, delivery.waiting.erase delivery.next, delivery.delivered ++ [msg]⟩

end Delivery

/-! ### Runs -/

/-- A session beside what its queue is for. -/
def follow : NSESession × Delivery → NSESession.Event →
    Option ((NSESession × Delivery) × Unit) := beside NSESession.step Delivery.after

/-- The session expects the next number, keeps the messages that wait, and has invoked the
registered handlers with the delivered messages in their order. -/
def Delivers (state : NSESession × Delivery) : Prop :=
  state.1.nextInSeqNum = state.2.next ∧ state.1.incomingMsgQ = state.2.waiting ∧
    state.1.invoked.map (fun call => (some call.1, call.2)) =
      state.2.delivered.map fun msg => (state.1.msgHandler msg.msgType, msg)

/-- A message arrives that is of a registered type and not before the first expected number. -/
def Allowed (first : Nat) (session : NSESession) : NSESession.Event → Prop
  | .queueIncomingMsg seqNo msg =>
    first ≤ seqNo ∧ seqNo < 2 ^ 31 ∧ (session.msgHandler msg.msgType).isSome
  | .processIncomingMsgQ => True

/-- No message is due when the queue is processed. -/
def NoneDue (session : NSESession) : NSESession.Event → Prop
  | .queueIncomingMsg _ _ => True
  | .processIncomingMsgQ => session.incomingMsgQ.get session.nextInSeqNum = none

/-- The session expects the first number still, and the queue has no message before it. -/
structure Waits (first : Nat) (session : NSESession) : Prop where
  next : session.nextInSeqNum = first
  range : ∀ (seqNo : Int) msg, session.incomingMsgQ.get seqNo = some msg → first ≤ seqNo ∧ seqNo < 2 ^ 31

variable {first : Nat} {session : NSESession}

/-- The code looks the next expected number up as a `SeqNo`. -/
theorem Waits.get_toSeqNo (waits : Waits first session) :
    session.incomingMsgQ.get (toSeqNo session.getNextInSeqNum) =
      session.incomingMsgQ.get session.nextInSeqNum := by
  rw [NSESession.getNextInSeqNum, waits.next]
  by_cases small : first < 2 ^ 31
  · have same : toSeqNo first = first := by
      unfold toSeqNo
      rw [Int.bmod_eq_of_le] <;> omega
    rw [same]
  · have below : Int.bmod first (2 ^ 32) < 2 ^ 31 := by
      have := @Int.bmod_lt first (2 ^ 32) (by decide)
      omega
    cases atNumber : session.incomingMsgQ.get first with
    | some msg =>
      have := waits.range _ _ atNumber
      omega
    | none =>
      cases atSeqNo : session.incomingMsgQ.get (toSeqNo first) with
      | none => rfl
      | some msg =>
        have := waits.range (Int.bmod first (2 ^ 32)) _ atSeqNo
        omega

/-- The next expected number is where it was when the queue has been processed. -/
theorem next_processIncomingMsgQ {next : NSESession}
    (returns : session.processIncomingMsgQ = some next) :
    next.nextInSeqNum = session.nextInSeqNum := by
  have stays (other : NSESession) (same : other.nextInSeqNum = session.nextInSeqNum) :
      TurnOk (fun other => other.nextInSeqNum = session.nextInSeqNum)
        (fun other => other.incomingMsgQ.size)
        (fun result => ∀ last, result = some last → last.nextInSeqNum = session.nextInSeqNum) other
        other.turn := by
    unfold NSESession.turn NSESession.retreiveMsgFromIncomingQ
    cases due : other.incomingMsgQ.get (toSeqNo other.getNextInSeqNum) with
    | none =>
      intro last here
      rw [← Option.some.inj here]
      exact same
    | some msg =>
      cases handled : other.msgHandler (toChar msg.msgType) with
      | none =>
        simp only [handled]
        intro last here
        cases here
      | some handler =>
        simp only [handled]
        exact ⟨same, OrderedMap.size_erase_lt due⟩
  obtain ⟨result, leaves, post⟩ := loop_total NSESession.turn _ _ _ stays
    (session.incomingMsgQ.size + 1) session rfl (Nat.lt_succ_self _)
  rw [NSESession.processIncomingMsgQ, leaves] at returns
  exact post next returns

theorem process_of_noneDue (waits : Waits first session)
    (noneDue : session.incomingMsgQ.get session.nextInSeqNum = none) :
    session.processIncomingMsgQ = some session := by
  have leaves : NSESession.turn session = .inr (some session) := by
    unfold NSESession.turn NSESession.retreiveMsgFromIncomingQ
    rw [waits.get_toSeqNo, noneDue]
  rw [NSESession.processIncomingMsgQ, loop_inr _ leaves]
  rfl

theorem waits_queueIncomingMsg (waits : Waits first session) {seqNo : Int} {msg : NSEMessage}
    (notBefore : first ≤ seqNo) (inRange : seqNo < 2 ^ 31) :
    Waits first (session.queueIncomingMsg seqNo msg) where
  next := waits.next
  range := by
    intro other found held
    rw [NSESession.queueIncomingMsg, OrderedMap.get_modify] at held
    split_ifs at held with here
    · rw [here]
      exact ⟨notBefore, inRange⟩
    · rw [OrderedMap.get_insert, if_neg here] at held
      exact waits.range _ _ held

/-- Where the session has delivered what was due, nothing was due. -/
theorem noneDue_of_delivers {delivery : Delivery} {next : NSESession}
    (delivers : Delivers (session, delivery)) (returns : session.processIncomingMsgQ = some next)
    (after : Delivers (next, delivery.after .processIncomingMsgQ)) :
    session.incomingMsgQ.get session.nextInSeqNum = none := by
  cases due : session.incomingMsgQ.get session.nextInSeqNum with
  | none => rfl
  | some msg =>
    have stays := next_processIncomingMsgQ returns
    have number : session.nextInSeqNum = delivery.next := delivers.1
    have waiting : session.incomingMsgQ = delivery.waiting := delivers.2.1
    rw [waiting, number] at due
    have moves := Delivery.next_lt_drain due (delivery.waiting.size - 1)
    have some := OrderedMap.size_erase_lt due
    rw [Nat.sub_add_cancel (by omega)] at moves
    have expected : next.nextInSeqNum = (delivery.drain delivery.waiting.size).next := after.1
    omega

/-- Over every order of arrival and every placement of the calls that process the queue, the
messages are delivered as they should be exactly when none is due at any of these calls. -/
theorem delivers_throughout_iff (first : Nat) (handlers : Int → Option MessageHandler)
    (events : List NSESession.Event)
    (allowed : EachStep follow (fun state event => Allowed first state.1 event)
      ({ nextInSeqNum := first, msgHandler := handlers }, { next := first }) events) :
    Throughout follow Delivers
        ({ nextInSeqNum := first, msgHandler := handlers }, { next := first }) events ↔
      EachStep follow (fun state event => NoneDue state.1 event)
        ({ nextInSeqNum := first, msgHandler := handlers }, { next := first }) events := by
  refine throughout_iff_of_steps
    (fun state event (waits : Waits first state.1) delivers fits noneDue => ?_)
    (fun state event next output waits delivers fits returns after => ?_)
    (fun state event next output waits _ fits noneDue returns => ?_)
    events _ ⟨rfl, fun seqNo msg held => by cases held⟩ ⟨rfl, rfl, rfl⟩ allowed
  · obtain ⟨session, delivery⟩ := state
    obtain ⟨next, waiting, invoked⟩ := delivers
    cases event with
    | queueIncomingMsg seqNo msg =>
      refine ⟨_, _, rfl, next, ?_, invoked⟩
      exact congrArg (fun queue => (queue.insert seqNo msg).modify seqNo fun _ => msg) waiting
    | processIncomingMsgQ =>
      have same : delivery.after .processIncomingMsgQ = delivery :=
        Delivery.drain_of_not_due (by rw [← next, ← waiting]; exact noneDue) _
      refine ⟨(session, delivery), (), ?_, next, waiting, invoked⟩
      rw [follow, beside, NSESession.step, process_of_noneDue waits noneDue, same]
      rfl
  · obtain ⟨session, delivery⟩ := state
    cases event with
    | queueIncomingMsg seqNo msg => trivial
    | processIncomingMsgQ =>
      obtain ⟨⟨last, _⟩, processes, same⟩ := Option.map_eq_some_iff.mp returns
      obtain ⟨processed, returned, step⟩ := Option.map_eq_some_iff.mp processes
      obtain ⟨rfl, -⟩ := Prod.mk.inj step
      obtain ⟨rfl, -⟩ := Prod.mk.inj same
      exact noneDue_of_delivers delivers returned after
  · obtain ⟨session, delivery⟩ := state
    obtain ⟨⟨last, _⟩, processes, same⟩ := Option.map_eq_some_iff.mp returns
    cases event with
    | queueIncomingMsg seqNo msg =>
      obtain ⟨rfl, -⟩ := Prod.mk.inj (Option.some.inj processes)
      obtain ⟨rfl, -⟩ := Prod.mk.inj same
      exact waits_queueIncomingMsg waits fits.1 fits.2.1
    | processIncomingMsgQ =>
      rw [NSESession.step, process_of_noneDue waits noneDue] at processes
      obtain ⟨rfl, -⟩ := Prod.mk.inj (Option.some.inj processes)
      obtain ⟨rfl, -⟩ := Prod.mk.inj same
      exact waits

/-- Later messages arrive in any order around calls that find nothing due. -/
theorem delivers_throughout_example :
    Throughout follow Delivers ({ nextInSeqNum := 1, msgHandler := inithandlers }, { next := 1 })
      [.queueIncomingMsg 3 ⟨1001, 0⟩, .processIncomingMsgQ, .queueIncomingMsg 2 ⟨1001, 0⟩,
        .processIncomingMsgQ, .queueIncomingMsg 1 ⟨1001, 0⟩] := by
  refine (delivers_throughout_iff 1 inithandlers _ ?_).mpr ?_
  · refine ⟨⟨by decide, by decide, by decide⟩, trivial, ⟨by decide, by decide, by decide⟩, trivial,
      ⟨by decide, by decide, by decide⟩, trivial⟩
  · exact ⟨trivial, rfl, trivial, rfl, trivial, trivial⟩

/-- The first expected message is not handled when it is due. -/
theorem due_message_is_not_handled :
    ¬ ∀ (first : Nat) (handlers : Int → Option MessageHandler) (events : List NSESession.Event),
      EachStep follow (fun state event => Allowed first state.1 event)
        ({ nextInSeqNum := first, msgHandler := handlers }, { next := first }) events →
      Throughout follow Delivers
        ({ nextInSeqNum := first, msgHandler := handlers }, { next := first }) events := by
  intro claim
  have throughout := claim 1 inithandlers
    [.queueIncomingMsg 1 ⟨1001, 0⟩, .processIncomingMsgQ]
    ⟨⟨by decide, by decide, by decide⟩, trivial, trivial⟩
  exact throughout.2.2

end Oms
