/-
This file proves when a silent session is asked for a sign of life before it is dropped:
what `checkStatus` does about test requests, over every run of its calls.

The session receives nothing, so the time of the last receive stays. `checkStatus` sends
a test request only while a send is pending, and the heartbeat only while none is; no
call sets the flag of a pending send.
-/

import OrderBookSketch.ExchangeSession

namespace Oms

open Runs

/-- A session, whether a call has come when a test request was due, and whether one was sent. -/
structure SilentSession where
  session : ExchangeSession
  due : Bool := false
  requested : Bool := false

/-- A call of `checkStatus`: the time, and when its messages are sent if they are. -/
structure StatusCall where
  now : Int
  sent : AdminMsg → Option Int

/-- How many test requests are handed out. -/
def testReqs (effects : List Effect) : Nat :=
  effects.countP fun effect =>
    match effect with
    | .sendRaw .testReq _ => true
    | _ => false

namespace SilentSession

/-- A test request is due: the session is logged on, and the time since the last receive has come to
the next interval but not to the disconnect. -/
def Due (silent : SilentSession) (call : StatusCall) : Prop :=
  let session := silent.session
  session.connected = true ∧ session.loggedOn = true ∧
    (session.testReqCnt + 1) * session.testReqInterval ≤ call.now - session.lastRecTime ∧
    call.now - session.lastRecTime < session.disconnectTimeoutOnHBMiss

instance : DecidableRel Due := fun silent call =>
  inferInstanceAs (Decidable (silent.session.connected = true ∧ silent.session.loggedOn = true ∧
    (silent.session.testReqCnt + 1) * silent.session.testReqInterval ≤
      call.now - silent.session.lastRecTime ∧
    call.now - silent.session.lastRecTime < silent.session.disconnectTimeoutOnHBMiss))

def step (silent : SilentSession) (call : StatusCall) : Option (SilentSession × List Effect) :=
  let called := silent.session.checkStatus call.now call.sent
  some
    ({ session := called.session
       due := silent.due || decide (silent.Due call)
       requested := silent.requested || (called.returns && decide (testReqs called.effects ≠ 0)) },
      called.effects)

/-- A call that finds a test request due sends one and counts it, and a session is not dropped
without one after a call found one due. -/
structure Asks (silent : SilentSession) (call : StatusCall) (effects : List Effect)
    (next : SilentSession) : Prop where
  one : silent.Due call →
    testReqs effects = 1 ∧ next.session.testReqCnt = silent.session.testReqCnt + 1
  dropped : ∀ flags, .disconnect flags ∈ effects → silent.due = true → silent.requested = true

/-- A call that finds a test request due finds a send pending, and the test request is sent. -/
def Pending (silent : SilentSession) (call : StatusCall) : Prop :=
  silent.Due call → silent.session.sendPending = true ∧ (call.sent .testReq).isSome = true

/-- Test requests are needed, and one was sent if it was due. -/
structure Sound (silent : SilentSession) : Prop where
  needed : silent.session.needTestReq = true
  asked : silent.due = true → silent.requested = true

variable {silent : SilentSession} {call : StatusCall}

/-! ### What a call does -/

theorem needTestReq_andThen {called : Called} {next : ExchangeSession → Called}
    (same : ∀ session, (next session).session.needTestReq = session.needTestReq) :
    (called.andThen next).session.needTestReq = called.session.needTestReq := by
  unfold Called.andThen
  split_ifs
  · exact same called.session
  · rfl

theorem needTestReq_sendHeartbeat (session : ExchangeSession) (sent : Option Int) :
    (session.sendHeartbeat sent).session.needTestReq = session.needTestReq := by
  unfold ExchangeSession.sendHeartbeat
  split_ifs <;> rfl

theorem needTestReq_sendTestReq (session : ExchangeSession) (sent : Option Int) :
    (session.sendTestReq sent).session.needTestReq = session.needTestReq := by
  unfold ExchangeSession.sendTestReq
  split_ifs <;> rfl

theorem needTestReq_checkReceive (session : ExchangeSession) (now : Int)
    (sent : AdminMsg → Option Int) :
    (session.checkReceive now sent).session.needTestReq = session.needTestReq := by
  simp only [ExchangeSession.checkReceive]
  split_ifs
  · rfl
  · exact (needTestReq_andThen fun _ => rfl).trans (needTestReq_sendTestReq ..)
  all_goals rfl

theorem needTestReq_checkStatus (session : ExchangeSession) (now : Int) (sent : AdminMsg → Option Int) :
    (session.checkStatus now sent).session.needTestReq = session.needTestReq := by
  simp only [ExchangeSession.checkStatus]
  split_ifs
  · rfl
  · rfl
  · refine (needTestReq_andThen fun session => ?_).trans (needTestReq_checkReceive ..)
    split_ifs
    · exact needTestReq_sendHeartbeat ..
    · rfl

/-- Where a test request is due, `checkStatus` comes to the part that sends it. -/
theorem checkReceive_due (needed : silent.session.needTestReq = true) (due : silent.Due call) :
    silent.session.checkReceive call.now call.sent =
      if silent.session.sendPending then
        (silent.session.sendRaw .testReq (call.sent .testReq)).andThen fun session =>
          { session := { session with testReqCnt := session.testReqCnt + 1 } }
      else { session := silent.session } := by
  obtain ⟨-, loggedOn, interval, timeout⟩ := due
  simp only [ExchangeSession.checkReceive]
  rw [if_neg (Int.not_le.mpr timeout), if_pos needed, if_pos interval, ExchangeSession.sendTestReq,
    loggedOn]
  rfl

theorem checkStatus_due (due : silent.Due call) :
    silent.session.checkStatus call.now call.sent =
      (silent.session.checkReceive call.now call.sent).andThen fun session =>
        if call.now - silent.session.lastSentTime ≥ session.heartBeatInterval then
          session.sendHeartbeat (call.sent .heartbeat)
        else { session } := by
  obtain ⟨connected, loggedOn, -⟩ := due
  simp only [ExchangeSession.checkStatus, connected, loggedOn]
  rfl

/-- While a send is pending, a heartbeat that is due is left out. -/
theorem andThen_heartbeat {called : Called} (pending : called.session.sendPending = true)
    (elapsed : Int) (sent : Option Int) :
    (called.andThen fun session =>
      if elapsed ≥ session.heartBeatInterval then session.sendHeartbeat sent else { session }) =
      called := by
  obtain ⟨session, effects, returns⟩ := called
  cases returns with
  | false => rfl
  | true =>
    simp only [Called.andThen, if_true, ExchangeSession.sendHeartbeat]
    rw [if_pos pending, ite_self, List.append_nil]

/-- While a send is pending, the test request is handed out, and counted if it is sent. -/
theorem checkStatus_pending (needed : silent.session.needTestReq = true) (due : silent.Due call)
    (pending : silent.session.sendPending = true) :
    let called := silent.session.checkStatus call.now call.sent
    testReqs called.effects = 1 ∧ called.returns = (call.sent .testReq).isSome ∧
      (called.session.testReqCnt = silent.session.testReqCnt + 1 ↔
        (call.sent .testReq).isSome = true) := by
  rw [checkStatus_due due, checkReceive_due needed due, if_pos pending]
  cases sent : call.sent .testReq with
  | none =>
    rw [andThen_heartbeat pending]
    refine ⟨rfl, rfl, iff_of_false (fun same => ?_) nofun⟩
    exact absurd same (Int.ne_of_lt (Int.lt_succ _))
  | some time =>
    rw [andThen_heartbeat pending]
    exact ⟨rfl, rfl, iff_of_true rfl rfl⟩

/-- While no send is pending, no test request is handed out. -/
theorem testReqs_idle (needed : silent.session.needTestReq = true) (due : silent.Due call)
    (idle : silent.session.sendPending = false) :
    testReqs (silent.session.checkStatus call.now call.sent).effects = 0 := by
  rw [checkStatus_due due, checkReceive_due needed due, if_neg (Bool.eq_false_iff.mp idle)]
  simp only [Called.andThen, if_true, ExchangeSession.sendHeartbeat]
  split_ifs <;> rfl

/-! ### Runs -/

/-- A call keeps to the rule exactly when a test request that is due finds a send pending and is
sent. -/
theorem step_asks_iff (sound : silent.Sound) (call : StatusCall) :
    ∃ next effects, silent.step call = some (next, effects) ∧
      (silent.Asks call effects next ↔ silent.Pending call) ∧ (silent.Pending call → next.Sound) := by
  refine ⟨_, _, rfl, ⟨fun asks due => ?_, fun pending => ⟨fun due => ?_, fun _ _ => sound.asked⟩⟩,
    fun pending => ⟨?_, fun dueNext => ?_⟩⟩
  · obtain ⟨one, counted⟩ := asks.one due
    cases idle : silent.session.sendPending with
    | false =>
      rw [testReqs_idle sound.needed due idle] at one
      cases one
    | true => exact ⟨rfl, (checkStatus_pending sound.needed due idle).2.2.mp counted⟩
  · obtain ⟨waiting, sent⟩ := pending due
    obtain ⟨one, -, counted⟩ := checkStatus_pending sound.needed due waiting
    exact ⟨one, counted.mpr sent⟩
  · exact (needTestReq_checkStatus ..).trans sound.needed
  · show (silent.requested || _) = true
    rcases Bool.or_eq_true_iff.mp dueNext with before | now
    · rw [sound.asked before, Bool.true_or]
    · have due := of_decide_eq_true now
      obtain ⟨waiting, sent⟩ := pending due
      obtain ⟨one, returns, -⟩ := checkStatus_pending sound.needed due waiting
      rw [returns, sent, one]
      exact Bool.or_true _

/-- Over every run of `checkStatus` of a session that needs test requests, every call that finds one
due sends one and counts it, and the session is never dropped without one after such a call, exactly
when each of these calls finds a send pending and its test request is sent. -/
theorem asks_iff_pending (session : ExchangeSession) (needed : session.needTestReq = true)
    (calls : List StatusCall) :
    EachReturn step Asks { session } calls ↔ EachStep step Pending { session } calls :=
  eachReturn_iff (fun _ call sound => step_asks_iff sound call) calls _ ⟨needed, nofun⟩

/-- A pending send, a test request at the first interval, and a disconnect after it. -/
theorem asks_iff_pending_example :
    EachReturn step Asks
      { session :=
          { connected := true, loggedOn := true, sendPending := true, needTestReq := true,
            disconnectTimeoutOnHBMiss := 20, lastSentTime := 0, lastRecTime := 0 } }
      [⟨3, fun _ => some 3⟩, ⟨6, fun _ => some 6⟩, ⟨9, fun _ => none⟩, ⟨20, fun _ => some 20⟩] :=
  (asks_iff_pending _ rfl _).mpr
    ⟨fun _ => ⟨rfl, rfl⟩, fun _ => ⟨rfl, rfl⟩, fun due => absurd due (by decide), fun _ => ⟨rfl, rfl⟩,
      trivial⟩

/-- A session that waits for 20 seconds and wants test requests every 5, with no send pending: the
call at 6 sends none, and the call at 20 drops the session. -/
theorem silent_session_is_dropped_unasked :
    let session : ExchangeSession :=
      { connected := true, loggedOn := true, needTestReq := true, disconnectTimeoutOnHBMiss := 20,
        testReqInterval := 5, lastSentTime := 0, lastRecTime := 0 }
    let calls : List StatusCall := [⟨6, fun _ => some 6⟩, ⟨20, fun _ => some 20⟩]
    (run step { session } calls).map (fun result => result.2) = some [[], [.disconnect {}]] ∧
      ¬ EachReturn step Asks { session } calls := by
  intro session calls
  refine ⟨rfl, fun asks => ?_⟩
  have one := (asks.1.one ⟨rfl, rfl, by decide, by decide⟩).1
  cases one

end SilentSession

end Oms
