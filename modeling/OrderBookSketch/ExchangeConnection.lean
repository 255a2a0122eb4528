/-
This file models `ExchangeConnection::writeMsg` and `ExchangeSession::sendMsg`, and proves
that what the kernel takes of a message is a prefix of it.

What the calls of `send` and `select` return is given by a list of outcomes, and a call of
`writeMsg` that is still going on at the end of the list has no result (`none`). Beside
the counter of the loop stand the calls of `send` so far, each with the place in the
message and the number of bytes that it is handed. What the kernel has taken follows from
these calls and their outcomes. An object has fewer than 2^63 bytes, so that its size is
the same signed and unsigned.
-/

import OrderBookSketch.Library.Loop
import Mathlib.Data.List.Infix
import Mathlib.Tactic.SplitIfs

namespace Oms

open Loops

/-- What a call of `send` comes to: it takes some bytes, at least one and at most what it is offered;
it takes none; it fails for now, and then `select` says whether the socket is ready; or it fails. -/
inductive SendOutcome where
  | takes (more : Nat)
  | zero
  | retryable (ready : Bool)
  | fatal
deriving DecidableEq, Repr

namespace SendOutcome

/-- The result of `send` for the number of bytes that it is offered. -/
def send (asked : Nat) : SendOutcome → Int
  | .takes more => min (more + 1) asked
  | .zero => 0
  | .retryable _ => -1
  | .fatal => -1

/-- The error is one to retry after, and the socket is ready for it. -/
def ready : SendOutcome → Bool
  | .retryable ready => ready
  | _ => false

end SendOutcome

/-- A call of `send`: where in the message the bytes begin that it is handed, and how many. -/
structure SendCall where
  offset : Nat
  asked : Nat
deriving DecidableEq, Repr

/-- What the kernel takes over the calls of `send`: of each one, as many of the bytes that it is
handed as the outcome of the call says, from the first on. -/
def accepted (msg : List UInt8) : List SendCall → List SendOutcome → List UInt8
  | call :: calls, outcome :: outcomes =>
    (msg.drop call.offset).take (outcome.send call.asked).toNat ++ accepted msg calls outcomes
  | _, _ => []

/-- Where `writeMsg` is: its counter, the calls of `send` so far, and the outcomes to come. -/
structure Sending where
  bytesSent : Nat
  calls : List SendCall
  outcomes : List SendOutcome
deriving DecidableEq, Repr

namespace Sending

/-- The condition of the loop, which `continue` goes to as well. -/
def again (msg : List UInt8) (sending : Sending) : Sending ⊕ Option (Int × List SendCall) :=
  if sending.bytesSent < msg.length then .inl sending
  else .inr (some (sending.bytesSent, sending.calls))

/-- One turn of the loop. -/
def turn (msg : List UInt8) (sending : Sending) : Sending ⊕ Option (Int × List SendCall) :=
  match sending.outcomes with
  | [] => .inr none
  | outcome :: outcomes =>
    let call : SendCall := ⟨sending.bytesSent, msg.length - sending.bytesSent⟩
    let nbytes := outcome.send call.asked
    let sending := { sending with calls := sending.calls ++ [call], outcomes := outcomes }
    if nbytes = 0 then .inr (some (-1, sending.calls))
    else if nbytes < 0 then
      if outcome.ready then sending.again msg
      else if sending.bytesSent = 0 then .inr (some (-1, sending.calls))
      else .inr (some (sending.bytesSent, sending.calls))
    else { sending with bytesSent := sending.bytesSent + nbytes.toNat }.again msg

end Sending

/-- The result, and the calls of `send`. -/
def writeMsg (msg : List UInt8) (outcomes : List SendOutcome) : Option (Int × List SendCall) :=
  (loop (Sending.turn msg) (outcomes.length + 1) ⟨0, [], outcomes⟩).join

/-- Whether the message was sent, `_lastSentTime`, and the calls of `send`. -/
def sendMsg (msg : List UInt8) (outcomes : List SendOutcome) (now lastSentTime : Int) :
    Option (Bool × Int × List SendCall) :=
  if msg.length ≠ 0 then do
    let (result, calls) ← writeMsg msg outcomes
    if result = msg.length then return (true, now, calls) else return (false, lastSentTime, calls)
  else some (false, lastSentTime, [])

section Accepted

variable {msg : List UInt8} {outcomes : List SendOutcome} {calls : List SendCall}

/-- A further call has the outcome behind those of the calls before it. -/
theorem accepted_append {outcome : SendOutcome} {later : List SendOutcome} (call : SendCall)
    (answers : outcomes.drop calls.length = outcome :: later) :
    accepted msg (calls ++ [call]) outcomes =
      accepted msg calls outcomes ++ (msg.drop call.offset).take (outcome.send call.asked).toNat := by
  induction calls generalizing outcomes with
  | nil =>
    rw [List.length_nil, List.drop_zero] at answers
    subst answers
    cases later <;> simp [accepted]
  | cons first calls inductionHypothesis =>
    cases outcomes with
    | nil => cases answers
    | cons head outcomes =>
      rw [List.cons_append, accepted, accepted, inductionHypothesis answers, List.append_assoc]

end Accepted

namespace Sending

/-- The kernel has taken what is in front of the counter, and every call has had an outcome. -/
structure Sound (msg : List UInt8) (outcomes : List SendOutcome) (sending : Sending) : Prop where
  taken : accepted msg sending.calls outcomes = msg.take sending.bytesSent
  fits : sending.bytesSent ≤ msg.length
  answered : outcomes.drop sending.calls.length = sending.outcomes
  enough : sending.calls.length ≤ outcomes.length

/-- A result of `writeMsg` and its calls: each has an outcome, what the kernel takes over them is a
prefix of the message, which is whole exactly when the result is its size, and a positive result
is the number of bytes taken. -/
structure Reports (msg : List UInt8) (outcomes : List SendOutcome) (result : Int)
    (calls : List SendCall) : Prop where
  enough : calls.length ≤ outcomes.length
  isPrefix : accepted msg calls outcomes <+: msg
  length : 0 < result → result = (accepted msg calls outcomes).length
  whole : result = msg.length ↔ accepted msg calls outcomes = msg

variable {msg : List UInt8} {outcomes : List SendOutcome} {sending : Sending}

theorem Sound.length (sound : Sound msg outcomes sending) :
    (accepted msg sending.calls outcomes).length = sending.bytesSent := by
  rw [sound.taken, List.length_take, Nat.min_eq_left sound.fits]

theorem Sound.isPrefix (sound : Sound msg outcomes sending) :
    accepted msg sending.calls outcomes <+: msg := by
  rw [sound.taken]
  exact List.take_prefix _ _

/-- The counter is a result, when it is not that of the first byte. -/
theorem Sound.reports (sound : Sound msg outcomes sending) :
    Reports msg outcomes sending.bytesSent sending.calls where
  enough := sound.enough
  isPrefix := sound.isPrefix
  length := fun _ => congrArg Nat.cast sound.length.symm
  whole := by
    rw [Int.ofNat_inj, ← sound.length]
    exact ⟨sound.isPrefix.eq_of_length, fun same => congrArg List.length same⟩

/-- So is a failure while a byte is missing. -/
theorem Sound.reports_failure (sound : Sound msg outcomes sending)
    (more : sending.bytesSent < msg.length) : Reports msg outcomes (-1) sending.calls where
  enough := sound.enough
  isPrefix := sound.isPrefix
  length := fun positive => absurd positive (by decide)
  whole := by
    refine ⟨fun same => by omega, fun same => ?_⟩
    have length := sound.length
    rw [same] at length
    omega

theorem Sound.again_inl {next : Sending} (sound : Sound msg outcomes sending)
    (goesOn : sending.again msg = .inl next) :
    Sound msg outcomes next ∧ next.bytesSent < msg.length := by
  unfold again at goesOn
  split_ifs at goesOn with more
  cases goesOn
  exact ⟨sound, more⟩

theorem Sound.again_inr {result : Option (Int × List SendCall)} (sound : Sound msg outcomes sending)
    (leaves : sending.again msg = .inr result) :
    ∀ value calls, result = some (value, calls) → Reports msg outcomes value calls := by
  unfold again at leaves
  split_ifs at leaves
  cases leaves
  rintro value calls ⟨⟩
  exact sound.reports

/-- `send` is called at the counter, so what it takes follows what was taken. -/
theorem Sound.send {outcome : SendOutcome} {later : List SendOutcome} {asked : Nat}
    (sound : Sound msg outcomes sending) (coming : sending.outcomes = outcome :: later)
    (bound : (outcome.send asked).toNat ≤ msg.length - sending.bytesSent) :
    Sound msg outcomes ⟨sending.bytesSent + (outcome.send asked).toNat,
      sending.calls ++ [⟨sending.bytesSent, asked⟩], later⟩ where
  taken := by
    rw [accepted_append _ (sound.answered.trans coming), sound.taken, List.take_add]
  fits := by
    have fits := sound.fits
    show sending.bytesSent + (outcome.send asked).toNat ≤ msg.length
    omega
  answered := by
    show outcomes.drop (sending.calls ++ [_]).length = later
    rw [List.length_append, List.length_singleton, ← List.drop_drop, sound.answered, coming]
    rfl
  enough := by
    show (sending.calls ++ [_]).length ≤ outcomes.length
    have left := congrArg List.length (sound.answered.trans coming)
    rw [List.length_drop, List.length_cons] at left
    rw [List.length_append, List.length_singleton]
    omega

theorem send_le (outcome : SendOutcome) (asked : Nat) : outcome.send asked ≤ asked := by
  cases outcome with
  | takes more => exact Int.min_le_right _ _
  | zero => exact Int.natCast_nonneg asked
  | retryable ready => exact Int.le_trans (by decide : (-1 : Int) ≤ 0) (Int.natCast_nonneg asked)
  | fatal => exact Int.le_trans (by decide : (-1 : Int) ≤ 0) (Int.natCast_nonneg asked)

/-- The queue behind a turn's call of `send`. -/
theorem Sound.called {outcome : SendOutcome} {later : List SendOutcome}
    (sound : Sound msg outcomes sending) (coming : sending.outcomes = outcome :: later)
    (nothing : (outcome.send (msg.length - sending.bytesSent)).toNat = 0) :
    Sound msg outcomes ⟨sending.bytesSent,
      sending.calls ++ [⟨sending.bytesSent, msg.length - sending.bytesSent⟩], later⟩ := by
  have after := sound.send coming (nothing.trans_le (Nat.zero_le _))
  rwa [nothing] at after

/-- A turn stops without a result, fails, gives the counter back, or comes to the condition. -/
theorem Sound.turn_cases (sound : Sound msg outcomes sending) :
    sending.turn msg = .inr none ∨
      ∃ next, Sound msg outcomes next ∧ next.outcomes.length < sending.outcomes.length ∧
        (sending.bytesSent = next.bytesSent ∧ sending.turn msg = .inr (some (-1, next.calls)) ∨
          sending.turn msg = .inr (some (next.bytesSent, next.calls)) ∨
          sending.turn msg = next.again msg) := by
  cases coming : sending.outcomes with
  | nil => exact .inl (by simp only [turn, coming])
  | cons outcome later =>
    have bound := send_le outcome (msg.length - sending.bytesSent)
    have shorter : later.length < (outcome :: later).length := Nat.lt_succ_self _
    refine .inr ?_
    simp only [turn, coming]
    split_ifs with nothing fails ready first
    · exact ⟨_, sound.called coming (by rw [nothing]; rfl), shorter, .inl ⟨rfl, rfl⟩⟩
    · exact ⟨_, sound.called coming (Int.toNat_of_nonpos (Int.le_of_lt fails)), shorter, .inr (.inr rfl)⟩
    · exact ⟨_, sound.called coming (Int.toNat_of_nonpos (Int.le_of_lt fails)), shorter, .inl ⟨rfl, rfl⟩⟩
    · exact ⟨_, sound.called coming (Int.toNat_of_nonpos (Int.le_of_lt fails)), shorter, .inr (.inl rfl)⟩
    · exact ⟨_, sound.send coming (by omega), shorter, .inr (.inr rfl)⟩

/-- A turn that goes on has a byte to send. -/
theorem Sound.turn_inl {next : Sending} (sound : Sound msg outcomes sending)
    (goesOn : sending.turn msg = .inl next) :
    Sound msg outcomes next ∧ next.bytesSent < msg.length ∧
      next.outcomes.length < sending.outcomes.length := by
  rcases sound.turn_cases with stops | ⟨after, soundAfter, shorter, ⟨-, fails⟩ | breaks | same⟩
  · cases stops.symm.trans goesOn
  · cases fails.symm.trans goesOn
  · cases breaks.symm.trans goesOn
  · rw [same] at goesOn
    obtain ⟨soundNext, more⟩ := soundAfter.again_inl goesOn
    unfold again at goesOn
    split_ifs at goesOn
    cases goesOn
    exact ⟨soundNext, more, shorter⟩

theorem Sound.turn_inr {result : Option (Int × List SendCall)} (sound : Sound msg outcomes sending)
    (more : sending.bytesSent < msg.length) (leaves : sending.turn msg = .inr result) :
    ∀ value calls, result = some (value, calls) → Reports msg outcomes value calls := by
  rintro value calls rfl
  rcases sound.turn_cases with stops | ⟨after, soundAfter, -, ⟨here, fails⟩ | breaks | same⟩
  · cases stops.symm.trans leaves
  · cases fails.symm.trans leaves
    exact soundAfter.reports_failure (here ▸ more)
  · cases breaks.symm.trans leaves
    exact soundAfter.reports
  · rw [same] at leaves
    exact soundAfter.again_inr leaves value calls rfl

end Sending

open Sending

variable {msg : List UInt8}

theorem sound_start (msg : List UInt8) (outcomes : List SendOutcome) :
    Sound msg outcomes ⟨0, [], outcomes⟩ where
  taken := rfl
  fits := Nat.zero_le _
  answered := rfl
  enough := Nat.zero_le _

/-- The loop leaves at the end of the outcomes at the latest. -/
theorem writeMsg_leaves (msg : List UInt8) (outcomes : List SendOutcome) :
    ∃ result, loop (turn msg) (outcomes.length + 1) ⟨0, [], outcomes⟩ = some result := by
  have turns : ∀ sending, Sound msg outcomes sending →
      TurnOk (Sound msg outcomes) (fun sending => sending.outcomes.length) (fun _ => True) sending
        (turn msg sending) := by
    intro sending sound
    cases outcome : turn msg sending with
    | inl next =>
      obtain ⟨soundNext, -, shorter⟩ := sound.turn_inl outcome
      exact ⟨soundNext, shorter⟩
    | inr result => trivial
  obtain ⟨result, leaves, -⟩ := loop_total (turn msg) _ _ _ turns (outcomes.length + 1)
    ⟨0, [], outcomes⟩ (sound_start msg outcomes) (Nat.lt_succ_self _)
  exact ⟨result, leaves⟩

theorem writeMsg_reports (some : msg ≠ []) {outcomes : List SendOutcome} {result : Int}
    {calls : List SendCall} (returns : writeMsg msg outcomes = .some (result, calls)) :
    Reports msg outcomes result calls := by
  refine loop_partial (turn msg)
    (fun sending => Sound msg outcomes sending ∧ sending.bytesSent < msg.length)
    (fun left => ∀ value calls, left = .some (value, calls) → Reports msg outcomes value calls)
    (fun sending next ⟨sound, _⟩ goesOn => ?_) (fun sending left ⟨sound, more⟩ leaves => ?_) _ _
    ⟨sound_start msg outcomes, List.length_pos_iff.mpr some⟩ (Option.join_eq_some_iff.mp returns)
    result calls rfl
  · obtain ⟨soundNext, more, -⟩ := sound.turn_inl goesOn
    exact ⟨soundNext, more⟩
  · exact sound.turn_inr more leaves

/-- For every message that is not empty and every behaviour of the kernel, what the kernel takes over
the calls of `send` that `writeMsg` makes is a prefix of the message, a positive result is its
length, and `sendMsg` is successful exactly when it is the whole message. -/
theorem taken_from_front (msg : List UInt8) (some : msg ≠ []) (outcomes : List SendOutcome)
    (now lastSentTime : Int) :
    (∀ result calls, writeMsg msg outcomes = .some (result, calls) →
      calls.length ≤ outcomes.length ∧ accepted msg calls outcomes <+: msg ∧
        (0 < result → result = (accepted msg calls outcomes).length)) ∧
    ∀ success last calls, sendMsg msg outcomes now lastSentTime = .some (success, last, calls) →
      calls.length ≤ outcomes.length ∧ accepted msg calls outcomes <+: msg ∧
        (success = true ↔ accepted msg calls outcomes = msg) := by
  constructor
  · intro result calls returns
    have reports := writeMsg_reports some returns
    exact ⟨reports.enough, reports.isPrefix, reports.length⟩
  · intro success last calls returns
    have size : msg.length ≠ 0 := fun zero => some (List.length_eq_zero_iff.mp zero)
    rw [sendMsg, if_pos size] at returns
    obtain ⟨⟨result, sent⟩, writes, returns⟩ := Option.bind_eq_some_iff.mp returns
    have reports := writeMsg_reports some writes
    dsimp only at returns
    split_ifs at returns with whole
    · cases returns
      exact ⟨reports.enough, reports.isPrefix, iff_of_true rfl (reports.whole.mp whole)⟩
    · cases returns
      exact ⟨reports.enough, reports.isPrefix,
        iff_of_false nofun fun same => whole (reports.whole.mpr same)⟩

/-- Two partial writes with a retry between them: the second call begins where the first one ended. -/
theorem taken_from_front_example :
    ((∀ result calls, writeMsg [1, 2, 3] [.takes 0, .retryable true, .takes 7] =
          .some (result, calls) →
        calls.length ≤ 3 ∧
        accepted [1, 2, 3] calls [.takes 0, .retryable true, .takes 7] <+: [1, 2, 3] ∧
        (0 < result →
          result = (accepted [1, 2, 3] calls [.takes 0, .retryable true, .takes 7]).length)) ∧
      ∀ success last calls, sendMsg [1, 2, 3] [.takes 0, .retryable true, .takes 7] 8 5 =
          .some (success, last, calls) →
        calls.length ≤ 3 ∧
        accepted [1, 2, 3] calls [.takes 0, .retryable true, .takes 7] <+: [1, 2, 3] ∧
        (success = true ↔
          accepted [1, 2, 3] calls [.takes 0, .retryable true, .takes 7] = [1, 2, 3])) ∧
    sendMsg [1, 2, 3] [.takes 0, .retryable true, .takes 7] 8 5 =
      .some (true, 8, [⟨0, 3⟩, ⟨1, 2⟩, ⟨1, 2⟩]) :=
  ⟨taken_from_front [1, 2, 3] (List.cons_ne_nil _ _) _ 8 5, by decide⟩

end Oms
