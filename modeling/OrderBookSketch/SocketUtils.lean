/-
This file models `SocketUtils::createConnection` and the `init`, `connect` and `disconnect`
of OrderManagementSystem's `ExchangeConnection`, and proves when the connection knows every
descriptor that it has open.

The kernel's side of it is the descriptors that calls of `socket` opened and no call of
`close` closed, and those that were closed though they were not among them: they may have
been opened by others since. What `getaddrinfo`, `socket`, `connect`, `select` and
`getsockopt` come to is given with each call, for as many attempts as there may be. The
options set on a socket change nothing here and are left out.
-/

import OrderBookSketch.Library.Run
import Mathlib.Data.List.Basic
import Mathlib.Tactic.SplitIfs

namespace Oms

open Runs

/-- The descriptors that are open, and those closed that were not. -/
structure Sockets where
  opened : List Int := []
  strays : List Int := []
deriving DecidableEq, Repr

namespace Sockets

def socket (sockets : Sockets) (sd : Int) : Sockets :=
  { sockets with opened := sd :: sockets.opened }

/-- `close`, which fails for -1. -/
def close (sockets : Sockets) (sd : Int) : Sockets :=
  if sd ∈ sockets.opened then { sockets with opened := sockets.opened.erase sd }
  else if sd = -1 then sockets
  else { sockets with strays := sd :: sockets.strays }

end Sockets

/-- What `connect` on a socket comes to: it is done; it goes on, and then `select` says whether the
socket is writable and `getsockopt` whether there is no error; or it fails. -/
inductive ConnectOutcome where
  | accepted
  | inProgress (writable noError : Bool)
  | failed
deriving DecidableEq, Repr

def ConnectOutcome.connects (nonBlock : Bool) : ConnectOutcome → Bool
  | .accepted => true
  | .inProgress writable noError => nonBlock && writable && noError
  | .failed => false

/-- An entry of the list that `getaddrinfo` makes, with what `socket` returns for it. -/
structure AddrInfo where
  sd : Int
  outcome : ConnectOutcome
deriving DecidableEq, Repr

/-- What `getaddrinfo` comes to. -/
inductive AddressLookup where
  | error (text : String)
  | serverInfo (list : List AddrInfo)
deriving DecidableEq, Repr

/-- `SocketUtils::createConnection`, behind `getaddrinfo`. -/
def createConnection (nonBlock : Bool) (sockets : Sockets) : List AddrInfo → Sockets × Int
  | [] => (sockets, -1)
  | p :: serverInfo =>
    if p.sd ≠ -1 then
      if p.outcome.connects nonBlock then (sockets.socket p.sd, p.sd)
      else createConnection nonBlock ((sockets.socket p.sd).close p.sd) serverInfo
    else createConnection nonBlock sockets serverInfo

/-- `ExchangeConnection`, as far as its connection goes, beside the sockets of the process. -/
structure ExchangeConnection where
  nonBlocking : Bool := true
  maxRetries : Int := 3
  socketFileDesc : Int := -1
  sockets : Sockets := {}
deriving DecidableEq, Repr

namespace ExchangeConnection

/-- The constructor. -/
def create : ExchangeConnection where

def init (connection : ExchangeConnection) : ExchangeConnection :=
  { connection with nonBlocking := true, maxRetries := 5, socketFileDesc := -1 }

def isConnected (connection : ExchangeConnection) : Bool := connection.socketFileDesc ≠ -1

/-- The loop of `connect` from an attempt on. It has no result when the lookups run out. -/
def attempt (connection : ExchangeConnection) (retry : Int) :
    List AddressLookup → Option (ExchangeConnection × Except String Bool)
  | [] => none
  | .error text :: _ => some (connection, .error ("Error : " ++ text))
  | .serverInfo list :: lookups =>
    let made := createConnection connection.nonBlocking connection.sockets list
    if made.2 ≠ -1 then
      some ({ connection with sockets := made.1, socketFileDesc := made.2 }, .ok true)
    else if retry + 1 < connection.maxRetries then
      { connection with sockets := made.1 }.attempt (retry + 1) lookups
    else some ({ connection with sockets := made.1 }, .ok false)

/-- Whether it connected, or the text of the exception. -/
def connect (connection : ExchangeConnection) (lookups : List AddressLookup) :
    Option (ExchangeConnection × Except String Bool) := connection.attempt 0 lookups

/-- What `disconnect` does first. -/
def shut (connection : ExchangeConnection) : ExchangeConnection :=
  { connection with
    socketFileDesc := -1
    sockets := connection.sockets.close connection.socketFileDesc }

def disconnect (connection : ExchangeConnection) (reconnect : Bool)
    (lookups : List AddressLookup) : Option (ExchangeConnection × Except String Unit) :=
  if reconnect then
    (connection.shut.connect lookups).map fun result => (result.1, result.2.map fun _ => ())
  else some (connection.shut, .ok ())

/-! ### Calls -/

inductive Call where
  | init
  | connect (lookups : List AddressLookup)
  | disconnect (reconnect : Bool) (lookups : List AddressLookup)
deriving DecidableEq, Repr

/-- One call, with what `connect` returns. -/
def step (connection : ExchangeConnection) :
    Call → Option (ExchangeConnection × Except String (Option Bool))
  | .init => some (connection.init, .ok none)
  | .connect lookups =>
    (connection.connect lookups).map fun result => (result.1, result.2.map some)
  | .disconnect reconnect lookups =>
    (connection.disconnect reconnect lookups).map fun result =>
      (result.1, result.2.map fun _ => none)

/-- The connection keeps the one descriptor that is open, if there is one, and none was closed that
was not open. -/
def KeepsDescriptor (connection : ExchangeConnection) : Prop :=
  connection.sockets =
    { opened := if connection.isConnected then [connection.socketFileDesc] else [], strays := [] }

/-- The number of attempts of `connect`. -/
def attempts (maxRetries : Int) : Nat := max 1 maxRetries.toNat

/-- The first address of a list to accept. -/
def accepted (nonBlock : Bool) (list : List AddrInfo) : Option Int :=
  (list.find? fun p => p.sd ≠ -1 && p.outcome.connects nonBlock).map AddrInfo.sd

/-- The descriptor of the first address that accepts, in so many attempts, unless a lookup fails
before. -/
def firstAccepted (nonBlock : Bool) : Nat → List AddressLookup → Option Int
  | attempts + 1, .serverInfo list :: lookups =>
    (accepted nonBlock list).or (firstAccepted nonBlock attempts lookups)
  | _, _ => none

/-- There is an answer in every attempt that the call may make. -/
def Answered (connection : ExchangeConnection) : Call → Prop
  | .init => True
  | .connect lookups => attempts connection.maxRetries ≤ lookups.length
  | .disconnect reconnect lookups =>
    reconnect = true → attempts connection.maxRetries ≤ lookups.length

/-- Who connects or initialises is not connected, or fails to connect again. -/
def Careful (connection : ExchangeConnection) : Call → Prop
  | .init => connection.isConnected = false
  | .connect lookups => connection.isConnected = false ∨
      firstAccepted connection.nonBlocking (attempts connection.maxRetries) lookups = none
  | .disconnect _ _ => True

instance (connection : ExchangeConnection) : (call : Call) → Decidable (connection.Answered call)
  | .init => inferInstanceAs (Decidable True)
  | .connect _ => inferInstanceAs (Decidable (_ ≤ _))
  | .disconnect _ _ => inferInstanceAs (Decidable (_ → _ ≤ _))

instance (connection : ExchangeConnection) : (call : Call) → Decidable (connection.Careful call)
  | .init => inferInstanceAs (Decidable (_ = _))
  | .connect _ => inferInstanceAs (Decidable (_ ∨ _ = none))
  | .disconnect _ _ => inferInstanceAs (Decidable True)

/-! ### One call of `connect` -/

variable {connection : ExchangeConnection} {sockets : Sockets} {lookups : List AddressLookup}

theorem close_socket (sockets : Sockets) (sd : Int) : (sockets.socket sd).close sd = sockets := by
  unfold Sockets.close Sockets.socket
  rw [if_pos List.mem_cons_self, List.erase_cons_head]

/-- Every socket that does not connect is closed again. -/
theorem createConnection_eq (nonBlock : Bool) (sockets : Sockets) (list : List AddrInfo) :
    createConnection nonBlock sockets list =
      match accepted nonBlock list with
      | some sd => (sockets.socket sd, sd)
      | none => (sockets, -1) := by
  unfold accepted
  induction list with
  | nil => rfl
  | cons p list inductionHypothesis =>
    rw [createConnection, close_socket, List.find?_cons]
    by_cases failed : p.sd = -1
    · simp only [failed, ne_eq, not_true_eq_false, if_false, decide_false, Bool.false_and]
      exact inductionHypothesis
    · by_cases connects : p.outcome.connects nonBlock = true
      · simp [failed, connects]
      · simp only [failed, connects, ne_eq, not_false_eq_true, if_true, decide_true,
          Bool.and_false, Bool.false_eq_true, if_false]
        exact inductionHypothesis

theorem accepted_ne {nonBlock : Bool} {list : List AddrInfo} {sd : Int}
    (found : accepted nonBlock list = some sd) : sd ≠ -1 ∧ ∃ p ∈ list, p.sd = sd := by
  obtain ⟨p, first, rfl⟩ := Option.map_eq_some_iff.mp found
  have accepts := List.find?_some first
  simp only [Bool.and_eq_true, decide_eq_true_eq] at accepts
  exact ⟨accepts.1, p, List.mem_of_find?_eq_some first, rfl⟩

theorem firstAccepted_ne {nonBlock : Bool} {left : Nat} {sd : Int}
    (found : firstAccepted nonBlock left lookups = some sd) : sd ≠ -1 := by
  induction lookups generalizing left with
  | nil => cases left <;> cases found
  | cons lookup lookups inductionHypothesis =>
    cases left with
    | zero => cases found
    | succ left =>
      cases lookup with
      | error => cases found
      | serverInfo list =>
        rcases Option.or_eq_some_iff.mp found with here | ⟨-, later⟩
        · exact (accepted_ne here).1
        · exact inductionHypothesis later

/-- The connection keeps the descriptor of an address that accepted. -/
def onto (connection : ExchangeConnection) : Option Int → ExchangeConnection
  | some sd => { connection with sockets := connection.sockets.socket sd, socketFileDesc := sd }
  | none => connection

/-- The attempts that are left end at the first address that accepts. -/
theorem attempt_eq {left : Nat} {retry : Int}
    (count : left = attempts (connection.maxRetries - retry)) (answered : left ≤ lookups.length) :
    ∃ result, connection.attempt retry lookups =
        some (connection.onto (firstAccepted connection.nonBlocking left lookups), result) ∧
      (result = .ok true ↔ (firstAccepted connection.nonBlocking left lookups).isSome) := by
  induction lookups generalizing left retry with
  | nil =>
    unfold attempts at count
    exact absurd answered (by simp; omega)
  | cons lookup lookups inductionHypothesis =>
    obtain ⟨more, rfl⟩ : ∃ more, left = more + 1 :=
      Nat.exists_eq_succ_of_ne_zero (by unfold attempts at count; omega)
    cases lookup with
    | error text => exact ⟨_, rfl, by simp [firstAccepted]⟩
    | serverInfo list =>
      unfold attempt firstAccepted
      rw [createConnection_eq]
      cases found : accepted connection.nonBlocking list with
      | some sd =>
        dsimp only
        rw [if_pos (accepted_ne found).1, Option.some_or]
        exact ⟨_, rfl, by simp⟩
      | none =>
        dsimp only
        rw [if_neg (by decide), Option.none_or]
        split_ifs with again
        · refine inductionHypothesis ?_ (Nat.le_of_succ_le_succ answered)
          unfold attempts at count ⊢
          omega
        · have last : more = 0 := by
            unfold attempts at count
            omega
          subst last
          cases lookups <;> exact ⟨_, rfl, by simp [firstAccepted]⟩

theorem connect_eq (answered : attempts connection.maxRetries ≤ lookups.length) :
    ∃ result, connection.connect lookups =
        some (connection.onto (firstAccepted connection.nonBlocking
          (attempts connection.maxRetries) lookups), result) ∧
      (result = .ok true ↔ (firstAccepted connection.nonBlocking
        (attempts connection.maxRetries) lookups).isSome) :=
  attempt_eq (by rw [Int.sub_zero]) answered

/-! ### Custody -/

theorem isConnected_onto (unconnected : connection.isConnected = false) {found : Option Int}
    (proper : ∀ sd ∈ found, sd ≠ -1) : (connection.onto found).isConnected = found.isSome := by
  cases found with
  | none => exact unconnected
  | some sd => exact decide_eq_true (proper sd rfl)

theorem KeepsDescriptor.onto (keeps : connection.KeepsDescriptor)
    (unconnected : connection.isConnected = false) {found : Option Int}
    (proper : ∀ sd ∈ found, sd ≠ -1) : (connection.onto found).KeepsDescriptor := by
  cases found with
  | none => exact keeps
  | some sd =>
    have connected : (connection.onto (some sd)).isConnected = true :=
      isConnected_onto unconnected proper
    unfold KeepsDescriptor at keeps ⊢
    rw [connected, ExchangeConnection.onto, keeps, unconnected]
    rfl

theorem KeepsDescriptor.shut (keeps : connection.KeepsDescriptor) :
    connection.shut.KeepsDescriptor ∧ connection.shut.isConnected = false := by
  refine ⟨?_, rfl⟩
  unfold KeepsDescriptor at keeps
  show connection.sockets.close connection.socketFileDesc = { opened := [], strays := [] }
  rw [keeps, Sockets.close]
  by_cases connected : connection.isConnected = true
  · simp [connected]
  · have unconnected : connection.socketFileDesc = -1 := by
      simpa [isConnected] using connected
    simp [connected, unconnected]

/-- A descriptor that is opened beside the kept one is not kept. -/
theorem KeepsDescriptor.onto_iff (keeps : connection.KeepsDescriptor) {found : Option Int}
    (proper : ∀ sd ∈ found, sd ≠ -1) :
    (connection.onto found).KeepsDescriptor ↔ connection.isConnected = false ∨ found = none := by
  constructor
  · intro again
    cases found with
    | none => exact .inr rfl
    | some sd =>
      left
      have connected : (connection.onto (some sd)).isConnected = true :=
        decide_eq_true (proper sd rfl)
      unfold KeepsDescriptor at keeps again
      rw [connected, ExchangeConnection.onto, Sockets.socket, keeps] at again
      simpa using again
  · rintro (unconnected | rfl)
    · exact keeps.onto unconnected proper
    · exact keeps

theorem KeepsDescriptor.init_iff (keeps : connection.KeepsDescriptor) :
    connection.init.KeepsDescriptor ↔ connection.isConnected = false := by
  have unconnected : connection.init.isConnected = false := rfl
  unfold KeepsDescriptor at keeps ⊢
  rw [unconnected, init, keeps]
  cases connection.isConnected <;> simp

theorem step_keeps_iff (keeps : connection.KeepsDescriptor) {call : Call}
    (answered : connection.Answered call) :
    ∃ next result, connection.step call = some (next, result) ∧
      (next.KeepsDescriptor ↔ connection.Careful call) := by
  cases call with
  | init => exact ⟨_, _, rfl, keeps.init_iff⟩
  | connect lookups =>
    obtain ⟨result, connects, -⟩ := connect_eq answered
    refine ⟨_, _, by rw [step, connects]; rfl, ?_⟩
    exact keeps.onto_iff fun sd found => firstAccepted_ne found
  | disconnect reconnect lookups =>
    obtain ⟨shut, unconnected⟩ := keeps.shut
    cases reconnect with
    | false => exact ⟨_, _, rfl, iff_of_true shut trivial⟩
    | true =>
      have enough : attempts connection.shut.maxRetries ≤ lookups.length := answered rfl
      obtain ⟨result, connects, -⟩ := connect_eq enough
      refine ⟨_, _, by rw [step, disconnect, if_pos rfl, connects]; rfl, iff_of_true ?_ trivial⟩
      exact shut.onto unconnected fun sd found => firstAccepted_ne found

/-- Over every run of calls and whatever the kernel answers, the connection keeps the one descriptor
that its sockets have open, if they have any, and closes none that they have not, exactly when it is
never initialised while it is connected, and never connected while it is. -/
theorem keeps_descriptor_iff (calls : List Call) (answered : EachStep step Answered create calls) :
    Throughout step KeepsDescriptor create calls ↔ EachStep step Careful create calls :=
  throughout_iff
    (fun connection call (_ : True) (keeps : connection.KeepsDescriptor) answered => by
      obtain ⟨next, result, returns, kept⟩ := step_keeps_iff keeps answered
      exact ⟨next, result, returns, kept, fun _ => trivial⟩)
    calls create trivial rfl answered

/-- Two attempts until an address accepts, whose socket a `disconnect` closes before it connects
again; and a disconnect of what is not connected. -/
theorem keeps_descriptor_example :
    Throughout step KeepsDescriptor create
      [.init,
        .connect [.serverInfo [⟨-1, .failed⟩, ⟨3, .inProgress true false⟩],
          .serverInfo [⟨3, .failed⟩, ⟨3, .accepted⟩], .serverInfo [], .serverInfo [],
          .serverInfo []],
        .disconnect true [.error "Name or service not known", .serverInfo [], .serverInfo [],
          .serverInfo [], .serverInfo []],
        .disconnect false []] := by
  refine (keeps_descriptor_iff _ ?_).mpr ?_
  · exact ⟨trivial, by decide, by decide, by decide, trivial⟩
  · exact ⟨by decide, by decide, trivial, trivial, trivial⟩

end ExchangeConnection

end Oms
