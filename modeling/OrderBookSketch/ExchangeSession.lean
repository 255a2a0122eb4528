/-
This file models the admin messages and the connection of OrderManagementSystem's
`ExchangeSession`, and proves when its flags and its socket stay in step.

`readThread` is a state machine: at the top of its loop, in `recvMsg`, in the loop that
cuts messages, and in front of its last `checkStatus`. Every other call may come between
any two of its steps. What `connect`, `sendRaw`, `recv`, `select` and `time` return is
given with each step. A subclass sets `_loggedOn` in `processInMessage`, on a logon
response. The loop that cuts messages goes on after it disconnects, so that a response
may be handled when the socket is closed already.
-/

import OrderBookSketch.ReadThread

namespace Oms

open Runs

inductive AdminMsg where
  | logon
  | logout
  | heartbeat
  | testReq
deriving DecidableEq, Repr

/-- Whether the socket is open, and the flags about it. -/
structure Flags where
  connected : Bool := false
  loggedOn : Bool := false
  sentLogon : Bool := false
  sentLogout : Bool := false
deriving DecidableEq, Repr

/-- A message handed to `sendRaw`, with the flags at that time, or a call of `disconnect`, with the
flags that it leaves. -/
inductive Effect where
  | sendRaw (msg : AdminMsg) (flags : Flags)
  | disconnect (flags : Flags)
deriving DecidableEq, Repr

structure ExchangeSession extends Flags where
  logonTimeout : Int := 10
  sendPending : Bool := false
  needTestReq : Bool := false
  disconnectTimeoutOnHBMiss : Int := 3
  heartBeatInterval : Int := 30
  lastSentTime : Int
  lastRecTime : Int
  testReqInterval : Int := 5
  testReqCnt : Int := 0

/-- What a call has done, and whether it returned or threw. -/
structure Called where
  session : ExchangeSession
  effects : List Effect := []
  returns : Bool := true

/-- What follows a call, unless that threw. -/
def Called.andThen (called : Called) (next : ExchangeSession → Called) : Called :=
  if called.returns then
    { next called.session with effects := called.effects ++ (next called.session).effects }
  else called

namespace ExchangeSession

/-! ### Calls -/

def disconnect (session : ExchangeSession) : Called :=
  { session :=
      { session with connected := false, loggedOn := false, sentLogon := false, sentLogout := false }
    effects := [.disconnect {}] }

/-- `sendRaw`, with the time at which it was sent if it was; its callers throw if not. -/
def sendRaw (session : ExchangeSession) (msg : AdminMsg) (sent : Option Int) : Called :=
  { session := { session with lastSentTime := sent.getD session.lastSentTime }
    effects := [.sendRaw msg session.toFlags]
    returns := sent.isSome }

def sendLogon (session : ExchangeSession) (connects : Bool) (sent : Option Int) : Called :=
  if !session.connected && !connects then { session, returns := false }
  else
    let session := { session with connected := true }
    if session.loggedOn then { session }
    else
      ({ session with sentLogon := false }.sendRaw .logon sent).andThen fun session =>
        { session := { session with sentLogon := true } }

def sendLogout (session : ExchangeSession) (sent : Option Int) : Called :=
  if session.sentLogout || !session.loggedOn then { session }
  else
    (session.sendRaw .logout sent).andThen fun session =>
      { session := { session with sentLogout := true } }

def sendHeartbeat (session : ExchangeSession) (sent : Option Int) : Called :=
  if session.sendPending then { session }
  else if !session.loggedOn then { session }
  else session.sendRaw .heartbeat sent

def sendTestReq (session : ExchangeSession) (sent : Option Int) : Called :=
  if !session.loggedOn then { session }
  else session.sendRaw .testReq sent

/-- The part of `checkStatus` that looks at the last receive. -/
def checkReceive (session : ExchangeSession) (now : Int) (sent : AdminMsg → Option Int) : Called :=
  let timeSinceLastRecv := now - session.lastRecTime
  if timeSinceLastRecv ≥ session.disconnectTimeoutOnHBMiss then
    { session with loggedOn := false }.disconnect
  else if session.needTestReq then
    if timeSinceLastRecv ≥ (session.testReqCnt + 1) * session.testReqInterval then
      if session.sendPending then
        (session.sendTestReq (sent .testReq)).andThen fun session =>
          { session := { session with testReqCnt := session.testReqCnt + 1 } }
      else { session }
    else if session.testReqCnt ≠ 0 ∧ timeSinceLastRecv < session.testReqInterval then
      { session := { session with testReqCnt := 0 } }
    else { session }
  else { session }

def checkStatus (session : ExchangeSession) (now : Int) (sent : AdminMsg → Option Int) : Called :=
  let elapsed := now - session.lastSentTime
  if !session.connected || !session.loggedOn then
    if session.connected ∧ session.sentLogon ∧ elapsed > session.logonTimeout then
      session.disconnect
    else { session }
  else
    (session.checkReceive now sent).andThen fun session =>
      if elapsed ≥ session.heartBeatInterval then session.sendHeartbeat (sent .heartbeat)
      else { session }

/-- What the loop that cuts messages does, where the subclass sets `_loggedOn` on a logon
response. -/
def act (logonResponse : List UInt8 → Bool) (now : Int) (session : ExchangeSession) :
    Action → Called
  | .processInMessage message =>
    { session :=
        { session with
          lastRecTime := now
          loggedOn := session.loggedOn || logonResponse message } }
  | .disconnect => session.disconnect

def acts (logonResponse : List UInt8 → Bool) (now : Int) (session : ExchangeSession) :
    List Action → Called
  | [] => { session }
  | action :: actions =>
    (session.act logonResponse now action).andThen fun session =>
      session.acts logonResponse now actions

end ExchangeSession

/-! ### The reader -/

/-- Where `readThread` is. -/
inductive ReadPoint where
  | top
  | recvMsg
  | framing (framing : Framing)
  | checkStatus

/-- The session, with the local variables of its reader. -/
structure Reader where
  session : ExchangeSession
  cursors : Cursors
  point : ReadPoint := .top

/-- What the socket has when `recvMsg` looks at it; no bytes are the peer's disconnect. -/
inductive Socket where
  | notReady
  | bytes (chunk : List UInt8)
  | wouldBlock
  | error

/-- What a step of the reader meets. -/
structure Environment where
  now : Int := 0
  connects : Bool := true
  sent : AdminMsg → Option Int := fun _ => none
  socket : Socket := .notReady

namespace Reader

/-- A call of the reader: what it throws is caught outside its loop's body. -/
def call (reader : Reader) (called : Called) (point : ReadPoint) : Reader × List Effect :=
  ({ reader with session := called.session, point := if called.returns then point else .top },
    called.effects)

/-- `recvMsg` returns false. -/
def notReceived (reader : Reader) : Reader :=
  { reader with cursors := { reader.cursors with currReadBuf := none, totalSize := 0 } }

/-- `recvMsg` returns true. -/
def received (reader : Reader) (buf : Nat) (chunk : List UInt8) : Reader :=
  let cursors := reader.cursors
  let start := cursors.start.getD buf
  let cursors : Cursors :=
    { readBuf := cursors.readBuf.store buf chunk
      totalSize := cursors.totalSize + chunk.length
      start := some start
      currReadBuf := some (buf + chunk.length)
      readBufEnd := if cursors.start.isNone then start + chunk.length else cursors.readBufEnd }
  { reader with cursors, point := .framing ⟨cursors.readBuf, start, cursors.totalSize, []⟩ }

/-- A turn of the loop in `recvMsg`; `init` chose a socket that does not block and does not spin. -/
def recvMsg (reader : Reader) (env : Environment) : Reader × List Effect :=
  let buf := recvAt reader.cursors.currReadBuf
  let reader := { reader with cursors := { reader.cursors with currReadBuf := some buf } }
  if !reader.session.connected then ({ reader.notReceived with point := .top }, [])
  else
    match env.socket with
    | .notReady => reader.call (reader.session.checkStatus env.now env.sent) .recvMsg
    | .bytes [] => reader.notReceived.call reader.session.disconnect .top
    | .bytes chunk => (reader.received buf chunk, [])
    | .wouldBlock => (reader, [])
    | .error => reader.notReceived.call reader.session.disconnect .top

/-- A turn of the loop that cuts messages, at this point of it. -/
def turn (isFullMsg : IsFullMsg) (reader : Reader) (framing : Framing) : Framing ⊕ Framing :=
  { framing with actions := [] }.turn isFullMsg (reader.cursors.start.getD 0)
    reader.cursors.readBufEnd

def readThread (isFullMsg : IsFullMsg) (logonResponse : List UInt8 → Bool) (reader : Reader)
    (env : Environment) : Reader × List Effect :=
  match reader.point with
  | .top =>
    if reader.session.loggedOn then ({ reader with point := .recvMsg }, [])
    else if reader.session.sentLogon then
      reader.call (reader.session.checkStatus env.now env.sent) .recvMsg
    else
      let cursors := { reader.cursors with start := none, currReadBuf := none, readBufEnd := 0 }
      { reader with cursors }.call (reader.session.sendLogon env.connects (env.sent .logon)) .recvMsg
  | .recvMsg => reader.recvMsg env
  | .framing framing =>
    match reader.turn isFullMsg framing with
    | .inl next =>
      reader.call (reader.session.acts logonResponse env.now next.actions) (.framing next)
    | .inr last =>
      let cursors :=
        { reader.cursors with readBuf := last.readBuf, totalSize := last.totalSize }
      { reader with cursors }.call (reader.session.acts logonResponse env.now last.actions)
        .checkStatus
  | .checkStatus => reader.call (reader.session.checkStatus env.now env.sent) .top

end Reader

/-- A step of the reader, or a call from elsewhere. -/
inductive SessionEvent where
  | readThread (env : Environment)
  | checkStatus (now : Int) (sent : AdminMsg → Option Int)
  | sendLogon (connects : Bool) (sent : Option Int)
  | sendLogout (sent : Option Int)
  | sendHeartbeat (sent : Option Int)
  | sendTestReq (sent : Option Int)
  | disconnect

namespace Reader

/-- What a call from elsewhere does, whether it returns or throws. -/
def also (reader : Reader) (called : Called) : Reader × List Effect :=
  ({ reader with session := called.session }, called.effects)

def step (isFullMsg : IsFullMsg) (logonResponse : List UInt8 → Bool) (reader : Reader)
    (event : SessionEvent) : Option (Reader × List Effect) :=
  some <|
    match event with
    | .readThread env => reader.readThread isFullMsg logonResponse env
    | .checkStatus now sent => reader.also (reader.session.checkStatus now sent)
    | .sendLogon connects sent => reader.also (reader.session.sendLogon connects sent)
    | .sendLogout sent => reader.also (reader.session.sendLogout sent)
    | .sendHeartbeat sent => reader.also (reader.session.sendHeartbeat sent)
    | .sendTestReq sent => reader.also (reader.session.sendTestReq sent)
    | .disconnect => reader.also reader.session.disconnect

/-! ### Flags and socket in step -/

end Reader

/-- Whoever is logged on, or waits for it, is connected. -/
def ExchangeSession.Backed (session : ExchangeSession) : Prop :=
  (session.loggedOn = true → session.connected = true) ∧
    (session.sentLogon = true → session.connected = true)

/-- What every step keeps to: the flags and the socket stay in step; a message other than a logon
is handed out only when logged on; the reader hands out a logon only when neither logged on nor
waiting for it; a disconnect leaves no flag and no socket; and after one a call hands out nothing. -/
structure Lawful (reader : Reader) (event : SessionEvent) (effects : List Effect)
    (next : Reader) : Prop where
  backed : next.session.Backed
  loggedOn : ∀ msg flags, .sendRaw msg flags ∈ effects → msg ≠ .logon → flags.loggedOn = true
  logon : ∀ env, event = .readThread env → ∀ flags, .sendRaw .logon flags ∈ effects →
    reader.session.loggedOn = false ∧ reader.session.sentLogon = false
  disconnects : ∀ flags, .disconnect flags ∈ effects → flags = {}
  disconnect : event = .disconnect → next.session.toFlags = {}
  last : effects.Pairwise fun first later =>
    (∃ flags, first = .disconnect flags) → ∀ msg flags, later ≠ .sendRaw msg flags

/-- A logon response that the reader handles without a disconnect in the same turn finds the
socket open. -/
def Answered (isFullMsg : IsFullMsg) (logonResponse : List UInt8 → Bool) (reader : Reader) :
    SessionEvent → Prop
  | .readThread _ =>
    match reader.point with
    | .framing framing =>
      match reader.turn isFullMsg framing with
      | .inl next =>
        ∀ message, next.actions = [.processInMessage message] → logonResponse message = true →
          reader.session.connected = true
      | .inr _ => True
    | _ => True
  | _ => True

/-! ### What a call does -/

/-- A call that leaves the flags and hands out other messages than logons, if logged on. -/
def Talks (session : ExchangeSession) (called : Called) : Prop :=
  called.session.toFlags = session.toFlags ∧
    ∀ effect ∈ called.effects, session.loggedOn = true ∧
      ∃ msg, msg ≠ .logon ∧ effect = .sendRaw msg session.toFlags

/-- A call that disconnects and hands out nothing. -/
def Closes (called : Called) : Prop :=
  called.session.toFlags = {} ∧ called.effects ≠ [] ∧ ∀ effect ∈ called.effects, effect = .disconnect {}

variable {session : ExchangeSession} {called : Called} {next : ExchangeSession → Called}

theorem Talks.silent {after : ExchangeSession} (same : after.toFlags = session.toFlags) :
    Talks session { session := after } :=
  ⟨same, fun _ member => absurd member List.not_mem_nil⟩

theorem Talks.andThen (talks : Talks session called) (nextTalks : ∀ session, Talks session (next session)) :
    Talks session (called.andThen next) := by
  unfold Called.andThen
  split_ifs
  · obtain ⟨same, effects⟩ := nextTalks called.session
    refine ⟨same.trans talks.1, fun effect member => ?_⟩
    rcases List.mem_append.mp member with member | member
    · exact talks.2 effect member
    · obtain ⟨loggedOn, msg, notLogon, rfl⟩ := effects effect member
      have flags := talks.1
      rw [flags]
      refine ⟨?_, msg, notLogon, rfl⟩
      rw [← flags]
      exact loggedOn
  · exact talks

theorem Closes.andThen (closes : Closes called) (nextTalks : ∀ session, Talks session (next session)) :
    Closes (called.andThen next) := by
  unfold Called.andThen
  split_ifs
  · obtain ⟨same, effects⟩ := nextTalks called.session
    have silent : (next called.session).effects = [] := by
      refine List.eq_nil_iff_forall_not_mem.mpr fun effect member => ?_
      have loggedOn := (effects effect member).1
      rw [closes.1] at loggedOn
      cases loggedOn
    rw [silent, List.append_nil]
    exact ⟨same.trans closes.1, closes.2⟩
  · exact closes

variable {reader after : Reader} {event : SessionEvent} {effects : List Effect}

end Oms
