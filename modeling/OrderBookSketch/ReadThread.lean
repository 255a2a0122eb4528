/-
This file models how `ExchangeSession::readThread` of OrderManagementSystem cuts what it
receives into messages, and proves when it gets every message right.

Pointers are offsets from `_readBuf`. Every receive starts at `_readBuf` again, since
`_msgSize` is 0, and writes over a message that is still incomplete. `readBufEnd` stays
the end of the first chunk, and a message that ends behind it with more to come makes
the session disconnect. So a stream is read right when every chunk is whole messages of
which all but the last are together shorter than the first chunk; among the streams cut
into whole messages, only then.
-/

import OrderBookSketch.Library.Loop
import OrderBookSketch.Library.Run
import Mathlib.Algebra.Ring.Int.Defs
import Mathlib.Data.List.Basic
import Mathlib.Tactic.SplitIfs

namespace Oms

open Loops Runs

/-- The bytes from `_readBuf` on. -/
abbrev Memory := Nat → UInt8

/-- The first bytes from an offset on. -/
def Memory.bytes (memory : Memory) (offset count : Nat) : List UInt8 :=
  (List.range count).map fun idx => memory (offset + idx)

/-- What `recv` writes. -/
def Memory.store (memory : Memory) (offset : Nat) (chunk : List UInt8) : Memory := fun idx =>
  if offset ≤ idx then (chunk[idx - offset]?).getD (memory idx) else memory idx

/-- `memcpy` to the front of what it copies. -/
def Memory.memcpy (memory : Memory) (dest src count : Nat) : Memory := fun idx =>
  if dest ≤ idx ∧ idx < dest + count then memory (src + (idx - dest)) else memory idx

/-- `isFullMsg` of a subclass: the length of the message at the front, if it is complete. -/
abbrev IsFullMsg := Memory → Nat → Option Nat

/-- What the framing does to the rest of the session. -/
inductive Action where
  | processInMessage (message : List UInt8)
  | disconnect
deriving DecidableEq, Repr

/-- The local variables of `readThread`, and the read buffer. -/
structure Cursors where
  readBuf : Memory
  totalSize : Int := 0
  start : Option Nat := none
  currReadBuf : Option Nat := none
  readBufEnd : Nat := 0

/-- `_msgSize`, which the constructor sets and nothing else. -/
def msgSize : Nat := 0

/-- A `ssize_t` as a `size_t`. -/
def sizeT (size : Int) : Nat := (size % 2 ^ 64).toNat

/-- Where `recvMsg` reads to. -/
def recvAt : Option Nat → Nat
  | none => 0
  | some buf => if msgSize ≤ buf then 0 else buf

/-- The state of the inner loop of `readThread`. -/
structure Framing where
  readBuf : Memory
  currMsgBuf : Nat
  totalSize : Int
  actions : List Action

namespace Framing

def disconnectIf (framing : Framing) (condition : Bool) : Framing :=
  { framing with
    actions := if condition then framing.actions ++ [Action.disconnect] else framing.actions }

/-- A turn that has a full message. -/
def take (readBufEnd : Nat) (framing : Framing) (msgLen : Nat) : Framing :=
  let framing :=
    { framing with
      actions := framing.actions ++
        [Action.processInMessage (framing.readBuf.bytes framing.currMsgBuf msgLen)] }
  let framing := framing.disconnectIf (sizeT framing.totalSize < msgLen)
  let framing :=
    { framing with
      currMsgBuf := framing.currMsgBuf + msgLen, totalSize := framing.totalSize - msgLen }
  framing.disconnectIf (readBufEnd ≤ framing.currMsgBuf ∧ framing.totalSize ≠ 0)

/-- The turn that leaves the loop. -/
def leave (start readBufEnd : Nat) (framing : Framing) : Framing :=
  if framing.currMsgBuf ≠ start then
    if readBufEnd ≤ framing.currMsgBuf ∧ framing.totalSize ≠ 0 then framing.disconnectIf true
    else
      { framing with
        readBuf := framing.readBuf.memcpy start framing.currMsgBuf (sizeT framing.totalSize)
        currMsgBuf := start + sizeT framing.totalSize }
  else framing

def turn (isFullMsg : IsFullMsg) (start readBufEnd : Nat) (framing : Framing) : Framing ⊕ Framing :=
  if framing.totalSize ≠ 0 then
    match isFullMsg (fun idx => framing.readBuf (framing.currMsgBuf + idx))
        (sizeT framing.totalSize) with
    | some msgLen => .inl (framing.take readBufEnd msgLen)
    | none => .inr (framing.leave start readBufEnd)
  else .inr (framing.leave start readBufEnd)

end Framing

/-- An iteration of `readThread` whose `recvMsg` returns a chunk: the variables afterwards and
what is done to the session. A turn takes a byte at least, when messages are not empty, so the
inner loop gets one turn for each byte and one to leave. -/
def receive (isFullMsg : IsFullMsg) (cursors : Cursors) (chunk : List UInt8) :
    Option (Cursors × List Action) := do
  let currReadBuf := recvAt cursors.currReadBuf
  let readBuf := cursors.readBuf.store currReadBuf chunk
  let start := cursors.start.getD currReadBuf
  let readBufEnd :=
    if cursors.start.isNone then start + chunk.length else cursors.readBufEnd
  let totalSize := cursors.totalSize + chunk.length
  let framing ← loop (Framing.turn isFullMsg start readBufEnd) (totalSize.toNat + 1)
    ⟨readBuf, start, totalSize, []⟩
  return (⟨framing.readBuf, framing.totalSize, some start, some (currReadBuf + chunk.length),
    readBufEnd⟩, framing.actions)

/-! ### Messages -/

/-- `isFullMsg` gives a length exactly when the bytes start with a complete message of that
length, and no message is empty. -/
structure LengthPrefixed (isFullMsg : IsFullMsg) (Complete : List UInt8 → Prop) : Prop where
  full_iff : ∀ memory total len, isFullMsg memory total = some len ↔
    ∃ message, Complete message ∧ message.length = len ∧ message <+: memory.bytes 0 total
  nonempty : ∀ message, Complete message → message ≠ []

/-- The size of the buffer that `init` allocates. -/
def readBufSize : Nat := 1024

/-- Every message of the stream is handled, each once, in order and unchanged, and the session
does not disconnect. -/
def ReadsRight (isFullMsg : IsFullMsg) (readBuf : Memory) (messages chunks : List (List UInt8)) :
    Prop :=
  ∃ last actions, run (receive isFullMsg) { readBuf := readBuf } chunks = some (last, actions) ∧
    actions.flatten = messages.map Action.processInMessage

/-! ### Bytes -/

namespace Memory

theorem bytes_add (memory : Memory) (offset count more : Nat) :
    memory.bytes offset (count + more) =
      memory.bytes offset count ++ memory.bytes (offset + count) more := by
  unfold bytes
  rw [List.range_add, List.map_append, List.map_map]
  simp only [Function.comp_def, Nat.add_assoc]

@[simp] theorem length_bytes (memory : Memory) (offset count : Nat) :
    (memory.bytes offset count).length = count := by
  rw [bytes, List.length_map, List.length_range]

theorem head?_bytes (memory : Memory) (offset count : Nat) :
    (memory.bytes offset (count + 1)).head? = some (memory offset) := by
  rw [Nat.add_comm, bytes_add]
  rfl

theorem bytes_append {memory : Memory} {offset : Nat} {front back : List UInt8}
    (here : memory.bytes offset (front ++ back).length = front ++ back) :
    memory.bytes offset front.length = front ∧
      memory.bytes (offset + front.length) back.length = back := by
  rw [List.length_append, bytes_add] at here
  exact List.append_inj here (length_bytes ..)

theorem bytes_shift (memory : Memory) (offset count : Nat) :
    Memory.bytes (fun idx => memory (offset + idx)) 0 count = memory.bytes offset count := by
  unfold bytes
  simp only [Nat.zero_add]

theorem bytes_store (memory : Memory) (chunk : List UInt8) :
    (memory.store 0 chunk).bytes 0 chunk.length = chunk := by
  refine List.ext_getElem (length_bytes ..) fun idx _ bound => ?_
  simp [bytes, store, bound]

end Memory

theorem sizeT_natCast {size : Nat} (bound : size ≤ readBufSize) : sizeT size = size := by
  unfold sizeT readBufSize at *
  omega

theorem actions_disconnectIf (framing : Framing) (condition : Bool) :
    (framing.disconnectIf condition).actions =
      framing.actions ++ if condition then [.disconnect] else [] := by
  cases condition with
  | false => exact (List.append_nil _).symm
  | true => rfl

theorem eq_disconnect {condition : Bool} {action : Action}
    (member : action ∈ if condition then [Action.disconnect] else []) : action = .disconnect := by
  cases condition with
  | false => exact absurd member List.not_mem_nil
  | true => exact List.mem_singleton.mp member

/-- A turn that goes on handles the message at the front, and may disconnect; the turn that leaves
the loop may disconnect. -/
theorem turn_actions (isFullMsg : IsFullMsg) (start readBufEnd : Nat) (framing : Framing) :
    match framing.turn isFullMsg start readBufEnd with
    | .inl next => ∃ msgLen disconnects,
        isFullMsg (fun idx => framing.readBuf (framing.currMsgBuf + idx)) (sizeT framing.totalSize) =
          some msgLen ∧
        next.actions = framing.actions ++
          .processInMessage (framing.readBuf.bytes framing.currMsgBuf msgLen) :: disconnects ∧
        ∀ action ∈ disconnects, action = .disconnect
    | .inr last => ∃ disconnects, last.actions = framing.actions ++ disconnects ∧
        ∀ action ∈ disconnects, action = .disconnect := by
  have leaves : ∃ disconnects, (framing.leave start readBufEnd).actions =
      framing.actions ++ disconnects ∧ ∀ action ∈ disconnects, action = .disconnect := by
    unfold Framing.leave
    split_ifs with moved beyond
    · exact ⟨[.disconnect], rfl, fun _ member => List.mem_singleton.mp member⟩
    · exact ⟨[], (List.append_nil _).symm, fun _ member => absurd member List.not_mem_nil⟩
    · exact ⟨[], (List.append_nil _).symm, fun _ member => absurd member List.not_mem_nil⟩
  unfold Framing.turn
  split_ifs with more
  · cases full : isFullMsg (fun idx => framing.readBuf (framing.currMsgBuf + idx))
        (sizeT framing.totalSize) with
    | none => exact leaves
    | some msgLen =>
      simp only [Framing.take, actions_disconnectIf, List.append_assoc, List.singleton_append]
      refine ⟨msgLen, _, rfl, rfl, fun action member => ?_⟩
      rcases List.mem_append.mp member with first | second
      · exact eq_disconnect first
      · exact eq_disconnect second
  · exact leaves

/-! ### One chunk of whole messages -/

/-- What the framing does to the messages of a chunk from an offset on. -/
def framed (readBufEnd : Nat) : Nat → List (List UInt8) → List Action
  | _, [] => []
  | offset, message :: messages =>
    .processInMessage message ::
      ((if readBufEnd ≤ offset + message.length ∧ messages ≠ [] then [.disconnect] else []) ++
        framed readBufEnd (offset + message.length) messages)

variable {isFullMsg : IsFullMsg} {Complete : List UInt8 → Prop} {readBufEnd : Nat}

theorem flatten_eq_nil_iff (prefixed : LengthPrefixed isFullMsg Complete)
    {messages : List (List UInt8)} (complete : ∀ message ∈ messages, Complete message) :
    messages.flatten = [] ↔ messages = [] := by
  constructor
  · intro empty
    refine List.eq_nil_iff_forall_not_mem.mpr fun message member => ?_
    exact prefixed.nonempty message (complete message member)
      (List.flatten_eq_nil_iff.mp empty message member)
  · rintro rfl
    rfl

/-- A turn takes the first message of those in the buffer, which bytes of another may follow. -/
theorem turn_take (prefixed : LengthPrefixed isFullMsg Complete) {message : List UInt8}
    {messages : List (List UInt8)} (complete : ∀ other ∈ message :: messages, Complete other)
    (pending : List UInt8) {readBuf : Memory} {offset : Nat}
    (here : readBuf.bytes offset ((message :: messages).flatten ++ pending).length =
      (message :: messages).flatten ++ pending)
    (bound : ((message :: messages).flatten ++ pending).length ≤ readBufSize)
    (actions : List Action) :
    Framing.turn isFullMsg 0 readBufEnd
        ⟨readBuf, offset, ((message :: messages).flatten ++ pending).length, actions⟩ =
      .inl ⟨readBuf, offset + message.length, (messages.flatten ++ pending).length,
        actions ++ .processInMessage message ::
          if readBufEnd ≤ offset + message.length ∧ messages.flatten ++ pending ≠ [] then
            [.disconnect]
          else []⟩ := by
  have some := prefixed.nonempty message (complete message List.mem_cons_self)
  rw [List.flatten_cons, List.append_assoc] at here bound ⊢
  have total : (message ++ (messages.flatten ++ pending)).length =
      message.length + (messages.flatten ++ pending).length := List.length_append
  have positive := List.length_pos_iff.mpr some
  have full : isFullMsg (fun idx => readBuf (offset + idx))
      (sizeT (message ++ (messages.flatten ++ pending)).length) = .some message.length := by
    rw [sizeT_natCast bound, prefixed.full_iff]
    refine ⟨message, complete message List.mem_cons_self, rfl, ?_⟩
    rw [Memory.bytes_shift, here]
    exact List.prefix_append ..
  have fits : ¬ sizeT (message ++ (messages.flatten ++ pending)).length < message.length := by
    rw [sizeT_natCast bound]
    omega
  have rest : ((message ++ (messages.flatten ++ pending)).length : Int) - message.length =
      (messages.flatten ++ pending).length := by
    rw [total]
    omega
  have more : ((messages.flatten ++ pending).length : Int) ≠ 0 ↔ messages.flatten ++ pending ≠ [] := by
    rw [← List.length_pos_iff]
    omega
  have some : ((message ++ (messages.flatten ++ pending)).length : Int) ≠ 0 := by
    rw [total]
    omega
  unfold Framing.turn
  rw [if_pos some]
  simp only [full, Framing.take, Framing.disconnectIf, fits, rest, more,
    (Memory.bytes_append here).1, decide_false, Bool.false_eq_true, if_false, decide_eq_true_eq]
  split_ifs
  · rw [List.append_assoc]
    rfl
  · rfl

/-- The framing of a chunk of whole messages takes all of them. -/
theorem loop_framed (prefixed : LengthPrefixed isFullMsg Complete)
    (messages : List (List UInt8)) (complete : ∀ message ∈ messages, Complete message)
    (readBuf : Memory) (offset : Nat)
    (here : readBuf.bytes offset messages.flatten.length = messages.flatten)
    (bound : messages.flatten.length ≤ readBufSize) (actions : List Action) (fuel : Nat)
    (enough : messages.flatten.length < fuel) :
    ∃ framing, loop (Framing.turn isFullMsg 0 readBufEnd) fuel
        ⟨readBuf, offset, messages.flatten.length, actions⟩ = some framing ∧
      framing.totalSize = 0 ∧ framing.actions = actions ++ framed readBufEnd offset messages := by
  induction messages generalizing offset actions fuel with
  | nil =>
    obtain ⟨fuel, rfl⟩ : ∃ less, fuel = less + 1 := ⟨fuel - 1, by omega⟩
    refine ⟨_, loop_inr fuel (if_neg (not_not.mpr rfl)), ?_, ?_⟩
    · unfold Framing.leave
      split_ifs <;> rfl
    · unfold Framing.leave
      rw [framed, List.append_nil]
      split_ifs with moved beyond
      · exact absurd rfl beyond.2
      · rfl
      · rfl
  | cons message messages inductionHypothesis =>
    obtain ⟨fuel, rfl⟩ : ∃ less, fuel = less + 1 := ⟨fuel - 1, by omega⟩
    have total : (message :: messages).flatten.length =
        message.length + messages.flatten.length := by
      rw [List.flatten_cons, List.length_append]
    have positive := List.length_pos_iff.mpr
      (prefixed.nonempty message (complete message List.mem_cons_self))
    have completeRest (other : List UInt8) (member : other ∈ messages) : Complete other :=
      complete other (List.mem_cons_of_mem _ member)
    have takes : Framing.turn isFullMsg 0 readBufEnd _ = _ :=
      turn_take prefixed complete [] (by rwa [List.append_nil]) (by rwa [List.append_nil]) actions
    simp only [List.append_nil, ne_eq, flatten_eq_nil_iff prefixed completeRest] at takes
    rw [loop_inl fuel takes]
    obtain ⟨framing, leaves, spent, acted⟩ := inductionHypothesis completeRest
      (offset + message.length) (Memory.bytes_append here).2 (by omega) _ fuel (by omega)
    refine ⟨framing, leaves, spent, ?_⟩
    rw [acted, framed, List.append_assoc]
    rfl

/-- After whole messages nothing is pending, and the end of the first chunk stays. -/
structure Settled (cursors : Cursors) (readBufEnd : Nat) : Prop where
  spent : cursors.totalSize = 0
  start : cursors.start.getD 0 = 0
  notFirst : cursors.start.isNone = false
  readBufEnd : cursors.readBufEnd = readBufEnd

theorem recvAt_eq (buf : Option Nat) : recvAt buf = 0 := by
  cases buf <;> rfl

theorem receive_framed (prefixed : LengthPrefixed isFullMsg Complete) {cursors : Cursors}
    (spent : cursors.totalSize = 0) (start : cursors.start.getD 0 = 0)
    (messages : List (List UInt8)) (complete : ∀ message ∈ messages, Complete message)
    (bound : messages.flatten.length ≤ readBufSize)
    (same : (if cursors.start.isNone then messages.flatten.length else cursors.readBufEnd) =
      readBufEnd) :
    ∃ next, receive isFullMsg cursors messages.flatten =
        some (next, framed readBufEnd 0 messages) ∧ Settled next readBufEnd := by
  obtain ⟨framing, leaves, spentAfter, acted⟩ :=
    loop_framed prefixed messages complete (cursors.readBuf.store 0 messages.flatten) 0
      (Memory.bytes_store ..) bound [] (messages.flatten.length + 1) (Nat.lt_succ_self _)
  unfold receive
  simp only [start, recvAt_eq, spent, Int.zero_add, Nat.zero_add, same, Int.toNat_natCast]
  rw [leaves]
  refine ⟨⟨framing.readBuf, framing.totalSize, some 0, some messages.flatten.length, readBufEnd⟩,
    ?_, spentAfter, rfl, rfl, rfl⟩
  rw [← List.nil_append (framed readBufEnd 0 messages), ← acted]
  rfl

/-! ### The whole stream -/

theorem run_framed (prefixed : LengthPrefixed isFullMsg Complete) {cursors : Cursors}
    (settled : Settled cursors readBufEnd) (groups : List (List (List UInt8)))
    (complete : ∀ group ∈ groups, ∀ message ∈ group, Complete message)
    (bound : ∀ group ∈ groups, group.flatten.length ≤ readBufSize) :
    ∃ last, run (receive isFullMsg) cursors (groups.map List.flatten) =
      some (last, groups.map (framed readBufEnd 0)) ∧ Settled last readBufEnd := by
  induction groups generalizing cursors with
  | nil => exact ⟨cursors, rfl, settled⟩
  | cons group groups inductionHypothesis =>
    have same : (if cursors.start.isNone then group.flatten.length else cursors.readBufEnd) =
        readBufEnd := by
      rw [settled.notFirst]
      exact settled.readBufEnd
    obtain ⟨next, receives, again⟩ := receive_framed prefixed settled.spent settled.start group
      (complete group List.mem_cons_self) (bound group List.mem_cons_self) same
    obtain ⟨last, rest, settledLast⟩ := inductionHypothesis again
      (fun other member => complete other (List.mem_cons_of_mem _ member))
      fun other member => bound other (List.mem_cons_of_mem _ member)
    refine ⟨last, ?_, settledLast⟩
    rw [List.map_cons, run_cons_of_some _ receives, rest]
    rfl

/-- The end of the first chunk, if there is one. -/
def firstEnd (chunks : List (List UInt8)) : Nat := (chunks.head?.map List.length).getD 0

/-- Chunks of whole messages leave nothing pending. -/
theorem run_whole (prefixed : LengthPrefixed isFullMsg Complete) (readBuf : Memory)
    (groups : List (List (List UInt8)))
    (complete : ∀ group ∈ groups, ∀ message ∈ group, Complete message)
    (bound : ∀ group ∈ groups, group.flatten.length ≤ readBufSize) :
    ∃ last, run (receive isFullMsg) { readBuf := readBuf } (groups.map List.flatten) =
        some (last, groups.map (framed (firstEnd (groups.map List.flatten)) 0)) ∧
      last.totalSize = 0 ∧ last.start.getD 0 = 0 := by
  cases groups with
  | nil => exact ⟨{ readBuf := readBuf }, rfl, rfl, rfl⟩
  | cons first rest =>
    obtain ⟨completeFirst, completeRest⟩ := List.forall_mem_cons.mp complete
    obtain ⟨boundFirst, boundRest⟩ := List.forall_mem_cons.mp bound
    obtain ⟨next, receives, settled⟩ :
        ∃ next, receive isFullMsg { readBuf := readBuf } first.flatten =
            some (next, framed first.flatten.length 0 first) ∧ Settled next first.flatten.length :=
      receive_framed prefixed rfl rfl first completeFirst boundFirst rfl
    obtain ⟨last, later, settledLast⟩ := run_framed prefixed settled rest completeRest boundRest
    refine ⟨last, ?_, settledLast.spent, settledLast.start⟩
    rw [List.map_cons, run_cons_of_some _ receives, later]
    rfl

/-- The messages of a chunk are handled, with the disconnects left out. -/
theorem filter_framed (offset : Nat) (messages : List (List UInt8)) :
    (framed readBufEnd offset messages).filter (· ≠ .disconnect) =
      messages.map Action.processInMessage := by
  induction messages generalizing offset with
  | nil => rfl
  | cons message messages inductionHypothesis =>
    rw [framed, List.filter_cons_of_pos (by simp), List.filter_append, inductionHypothesis]
    split_ifs <;> rfl

/-- A chunk is handled without a disconnect when all its messages but the last end in front of the
end of the first chunk. -/
theorem framed_eq_iff (offset : Nat) (message : List UInt8) (messages : List (List UInt8)) :
    framed readBufEnd offset (message :: messages) =
        (message :: messages).map Action.processInMessage ↔
      messages = [] ∨ offset + (message :: messages).dropLast.flatten.length < readBufEnd := by
  induction messages generalizing offset message with
  | nil => simp [framed]
  | cons next messages inductionHypothesis =>
    have later := inductionHypothesis (offset + message.length) next
    have total : offset + (message :: next :: messages).dropLast.flatten.length =
        offset + message.length + (next :: messages).dropLast.flatten.length := by
      rw [List.dropLast_cons_of_ne_nil (List.cons_ne_nil _ _), List.flatten_cons, List.length_append]
      omega
    rw [framed, total]
    by_cases beyond : readBufEnd ≤ offset + message.length
    · rw [if_pos ⟨beyond, List.cons_ne_nil _ _⟩]
      constructor
      · intro same
        cases (List.cons.inj (List.cons.inj same).2).1
      · rintro (none | within)
        · cases none
        · omega
    · rw [if_neg fun both => beyond both.1, List.nil_append, List.map_cons, List.cons.injEq,
        and_iff_right rfl, later]
      constructor
      · rintro (rfl | within)
        · exact .inr (by simpa using beyond)
        · exact .inr within
      · rintro (none | within)
        · cases none
        · exact .inr within

theorem filter_flatten_framed (readBufEnd : Nat) (groups : List (List (List UInt8))) :
    (groups.map (framed readBufEnd 0)).flatten.filter (· ≠ .disconnect) =
      groups.flatten.map Action.processInMessage := by
  rw [List.filter_flatten, List.map_map, List.map_flatten]
  exact congrArg List.flatten (List.map_congr_left fun group _ => filter_framed 0 group)

/-- All chunks are handled without a disconnect exactly when each is. -/
theorem flatten_framed_eq_iff (groups : List (List (List UInt8))) :
    (groups.map (framed readBufEnd 0)).flatten = groups.flatten.map Action.processInMessage ↔
      ∀ group ∈ groups, framed readBufEnd 0 group = group.map Action.processInMessage := by
  constructor
  · intro same group member
    have filtered : (framed readBufEnd 0 group).filter (· ≠ .disconnect) =
        group.map Action.processInMessage := filter_framed 0 group
    rw [← filtered, eq_comm, List.filter_eq_self]
    intro action inGroup
    have inAll : action ∈ groups.flatten.map Action.processInMessage := by
      rw [← same]
      exact List.mem_flatten.mpr ⟨_, List.mem_map.mpr ⟨group, member, rfl⟩, inGroup⟩
    obtain ⟨message, -, rfl⟩ := List.mem_map.mp inAll
    simp
  · intro each
    rw [List.map_congr_left each, List.map_flatten]

/-- A stream that is cut into chunks of whole messages is read right exactly when in every chunk
all the messages but the last are together shorter than the first chunk. -/
theorem readsRight_iff_of_whole (prefixed : LengthPrefixed isFullMsg Complete) (readBuf : Memory)
    {messages chunks : List (List UInt8)} (complete : ∀ message ∈ messages, Complete message)
    (received : ∀ chunk ∈ chunks, chunk ≠ [] ∧ chunk.length ≤ readBufSize)
    {groups : List (List (List UInt8))} (stream : groups.flatten = messages)
    (whole : groups.map List.flatten = chunks) :
    ReadsRight isFullMsg readBuf messages chunks ↔
      ∀ first ∈ chunks.head?, ∀ group ∈ groups, group.dropLast.flatten.length < first.length := by
  subst stream whole
  cases groups with
  | nil => exact ⟨fun _ => by simp, fun _ => ⟨_, _, rfl, rfl⟩⟩
  | cons first rest =>
    have completeGroup (group : List (List UInt8)) (member : group ∈ first :: rest) :
        ∀ message ∈ group, Complete message :=
      fun message inGroup => complete message (List.mem_flatten.mpr ⟨group, member, inGroup⟩)
    have chunk (group : List (List UInt8)) (member : group ∈ first :: rest) :
        group.flatten ≠ [] ∧ group.flatten.length ≤ readBufSize :=
      received _ (List.mem_map.mpr ⟨group, member, rfl⟩)
    have firstLength := List.length_pos_iff.mpr (chunk first List.mem_cons_self).1
    obtain ⟨last, runs, -⟩ := run_whole prefixed readBuf (first :: rest) completeGroup
      fun group member => (chunk group member).2
    change run _ _ _ = some (last, (first :: rest).map (framed first.flatten.length 0)) at runs
    have right : ReadsRight isFullMsg readBuf (first :: rest).flatten
        ((first :: rest).map List.flatten) ↔
          ((first :: rest).map (framed first.flatten.length 0)).flatten =
            (first :: rest).flatten.map Action.processInMessage := by
      constructor
      · rintro ⟨other, actions, returns, same⟩
        obtain ⟨-, rfl⟩ := returns_unique runs returns
        exact same
      · exact fun same => ⟨last, _, runs, same⟩
    rw [right, flatten_framed_eq_iff]
    simp only [List.map_cons, List.head?_cons, Option.mem_some_iff, forall_eq']
    refine forall₂_congr fun group member => ?_
    cases group with
    | nil => exact absurd rfl (chunk [] member).1
    | cons message messages =>
      rw [framed_eq_iff, Nat.zero_add]
      constructor
      · rintro (rfl | within)
        · exact firstLength
        · exact within
      · exact .inr

/-! ### A one-byte prefix -/

/-- Messages whose first byte is their length. -/
def lengthByte : IsFullMsg := fun memory total =>
  if 0 < (memory 0).toNat ∧ (memory 0).toNat ≤ total then some (memory 0).toNat else none

def LengthByte (message : List UInt8) : Prop :=
  message ≠ [] ∧ message.head?.map UInt8.toNat = some message.length

instance (message : List UInt8) : Decidable (LengthByte message) :=
  inferInstanceAs (Decidable (_ ∧ _))

theorem lengthByte_prefixed : LengthPrefixed lengthByte LengthByte where
  full_iff := by
    intro memory total len
    unfold lengthByte
    constructor
    · intro full
      split_ifs at full with fits
      obtain ⟨positive, within⟩ := fits
      obtain rfl := Option.some.inj full
      have front : (memory.bytes 0 (memory 0).toNat).head? = some (memory 0) := by
        rw [← Nat.sub_add_cancel positive]
        exact Memory.head?_bytes ..
      refine ⟨memory.bytes 0 (memory 0).toNat, ⟨?_, ?_⟩, Memory.length_bytes .., ?_⟩
      · exact List.ne_nil_of_length_pos (by rwa [Memory.length_bytes])
      · rw [front, Memory.length_bytes]
        rfl
      · rw [← Nat.add_sub_cancel' within, Memory.bytes_add]
        exact List.prefix_append ..
    · rintro ⟨message, ⟨some, head⟩, rfl, front⟩
      have within := front.length_le
      rw [Memory.length_bytes] at within
      have positive := List.length_pos_iff.mpr some
      have first : message.head? = .some (memory 0) := by
        obtain ⟨rest, same⟩ := front
        obtain ⟨more, rfl⟩ : ∃ more, total = 1 + more := ⟨total - 1, by omega⟩
        rw [Memory.bytes_add] at same
        have heads := congrArg List.head? same
        rw [List.head?_append_of_ne_nil _ some] at heads
        exact heads
      rw [first] at head
      have length : (memory 0).toNat = message.length := Option.some.inj head
      rw [if_pos (by rw [length]; exact ⟨positive, within⟩), length]
  nonempty := fun _ complete => complete.1

/-- A message that comes in two chunks is written over. -/
theorem straddling_message_is_lost :
    ¬ ∀ (isFullMsg : IsFullMsg) (Complete : List UInt8 → Prop), LengthPrefixed isFullMsg Complete →
      ∀ (readBuf : Memory) (messages chunks : List (List UInt8)),
        (∀ message ∈ messages, Complete message) → chunks.flatten = messages.flatten →
        (∀ chunk ∈ chunks, chunk ≠ [] ∧ chunk.length ≤ readBufSize) →
        ReadsRight isFullMsg readBuf messages chunks := by
  intro claim
  obtain ⟨last, actions, returns, same⟩ := claim lengthByte LengthByte lengthByte_prefixed
    (fun _ => 0) [[2, 7]] [[2], [7]] (by decide) (by decide) (by decide)
  have acted := congrArg (Option.map Prod.snd) returns
  rw [show (run (receive lengthByte) { readBuf := fun _ => 0 } [[2], [7]]).map Prod.snd =
    some [[], []] by decide] at acted
  have dropped : [[], []] = actions := Option.some.inj acted
  rw [← dropped] at same
  cases same

end Oms
