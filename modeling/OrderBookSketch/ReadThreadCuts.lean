/-
This file proves which ways to cut a stream `ExchangeSession::readThread` reads right.

A chunk that ends inside a message leaves bytes pending, and the next chunk is written
over them. What the session handles first after that begins with the first byte of a
later chunk. So the message that was cut is lost, unless one of these chunks happens to
begin as it does. Messages can be found where none does, of whatever sizes, and so a
way to cut is right for all streams only if it cuts between messages.
-/

import OrderBookSketch.ReadThread
import Mathlib.Algebra.GroupWithZero.Nat
import Mathlib.Data.List.SplitLengths

namespace Oms

open Loops Runs

variable {isFullMsg : IsFullMsg} {Complete : List UInt8 → Prop}

/-! ### Chunks that end inside a message -/

/-- Once the framing has handled a message, that stays the first of what it does. -/
theorem head?_loop {start readBufEnd fuel : Nat} {framing last : Framing} {first : Action}
    (begins : framing.actions.head? = some first)
    (returns : loop (Framing.turn isFullMsg start readBufEnd) fuel framing = some last) :
    last.actions.head? = some first := by
  have keeps (framing next : Framing) (disconnects : List Action)
      (begins : framing.actions.head? = some first)
      (acted : next.actions = framing.actions ++ disconnects) :
      next.actions.head? = some first := by
    rw [acted, List.head?_append, begins]
    rfl
  refine loop_partial _ (fun framing => framing.actions.head? = some first)
    (fun last => last.actions.head? = some first) (fun framing next begins turns => ?_)
    (fun framing last begins turns => ?_) fuel framing begins returns
  · have actions := turn_actions isFullMsg start readBufEnd framing
    rw [turns] at actions
    obtain ⟨msgLen, disconnects, -, acted, -⟩ := actions
    exact keeps framing next _ begins acted
  · have actions := turn_actions isFullMsg start readBufEnd framing
    rw [turns] at actions
    obtain ⟨disconnects, acted, -⟩ := actions
    exact keeps framing last _ begins acted

/-- The first message that is handled when a chunk is received begins as the chunk does. -/
theorem receive_begins (prefixed : LengthPrefixed isFullMsg Complete) {cursors next : Cursors}
    (start : cursors.start.getD 0 = 0) {chunk : List UInt8} (some : chunk ≠ [])
    {actions : List Action} (returns : receive isFullMsg cursors chunk = .some (next, actions)) :
    next.start.getD 0 = 0 ∧
      ∀ message, actions.head? = .some (.processInMessage message) → message.head? = chunk.head? := by
  obtain ⟨byte, rest, rfl⟩ := List.exists_cons_of_ne_nil some
  obtain ⟨framing, leaves, same⟩ := Option.bind_eq_some_iff.mp returns
  rw [recvAt_eq, start] at leaves same
  obtain ⟨rfl, rfl⟩ := Prod.mk.inj (Option.some.inj same)
  refine ⟨rfl, fun message first => ?_⟩
  have actions := turn_actions isFullMsg 0
    (if cursors.start.isNone then 0 + (byte :: rest).length else cursors.readBufEnd)
    ⟨cursors.readBuf.store 0 (byte :: rest), 0, cursors.totalSize + (byte :: rest).length, []⟩
  generalize turns : Framing.turn isFullMsg 0 _ _ = turned at actions
  cases turned with
  | inl after =>
    obtain ⟨msgLen, disconnects, full, acted, -⟩ := actions
    rw [loop_inl _ turns] at leaves
    have handled := head?_loop (congrArg List.head? acted) leaves
    rw [first] at handled
    obtain rfl := Action.processInMessage.inj (Option.some.inj handled)
    obtain ⟨complete, isComplete, rfl, -⟩ := (prefixed.full_iff ..).mp full
    obtain ⟨front, more, rfl⟩ := List.exists_cons_of_ne_nil (prefixed.nonempty _ isComplete)
    exact Memory.head?_bytes ..
  | inr last =>
    obtain ⟨disconnects, acted, each⟩ := actions
    rw [loop_inr _ turns] at leaves
    obtain rfl := Option.some.inj leaves
    rw [List.nil_append] at acted
    rw [acted] at first
    cases each _ (List.mem_of_head? first)

/-- The first message that is handled in a run begins as some chunk does. -/
theorem run_begins (prefixed : LengthPrefixed isFullMsg Complete) {chunks : List (List UInt8)}
    (some : ∀ chunk ∈ chunks, chunk ≠ []) {cursors last : Cursors}
    (start : cursors.start.getD 0 = 0) {actions : List (List Action)}
    (returns : run (receive isFullMsg) cursors chunks = .some (last, actions)) {message : List UInt8}
    (first : actions.flatten.head? = .some (.processInMessage message)) :
    ∃ chunk ∈ chunks, message.head? = chunk.head? := by
  induction chunks generalizing cursors actions with
  | nil =>
    cases returns
    cases first
  | cons chunk chunks inductionHypothesis =>
    obtain ⟨someFirst, someRest⟩ := List.forall_mem_cons.mp some
    obtain ⟨next, acted, later, receives, runs, rfl⟩ := exists_of_run_cons returns
    obtain ⟨again, begins⟩ := receive_begins prefixed start someFirst receives
    rw [List.flatten_cons, List.head?_append] at first
    cases here : acted.head? with
    | none =>
      rw [here] at first
      obtain ⟨other, member, begun⟩ := inductionHypothesis someRest again runs first
      exact ⟨other, List.mem_cons_of_mem _ member, begun⟩
    | some action =>
      rw [here] at first
      obtain rfl := Option.some.inj first
      exact ⟨chunk, List.mem_cons_self, begins message here⟩

/-- What is handled of whole messages and the bytes of another behind them is the messages. -/
theorem loop_handled (prefixed : LengthPrefixed isFullMsg Complete) {readBufEnd : Nat}
    {pending : List UInt8} (incomplete : ∀ message, Complete message → ¬ message <+: pending)
    (messages : List (List UInt8)) (complete : ∀ message ∈ messages, Complete message)
    (readBuf : Memory) (offset : Nat)
    (here : readBuf.bytes offset (messages.flatten ++ pending).length = messages.flatten ++ pending)
    (bound : (messages.flatten ++ pending).length ≤ readBufSize) (actions : List Action)
    (fuel : Nat) {last : Framing}
    (returns : loop (Framing.turn isFullMsg 0 readBufEnd) fuel
      ⟨readBuf, offset, (messages.flatten ++ pending).length, actions⟩ = some last) :
    last.actions.filter (· ≠ .disconnect) =
      actions.filter (· ≠ .disconnect) ++ messages.map Action.processInMessage := by
  induction messages generalizing offset actions fuel with
  | nil =>
    cases fuel with
    | zero => cases returns
    | succ fuel =>
      have acts := turn_actions isFullMsg 0 readBufEnd
        ⟨readBuf, offset, (([] : List (List UInt8)).flatten ++ pending).length, actions⟩
      generalize turns : Framing.turn isFullMsg 0 readBufEnd _ = turned at acts
      cases turned with
      | inl next =>
        obtain ⟨msgLen, -, full, -, -⟩ := acts
        obtain ⟨message, isComplete, -, front⟩ := (prefixed.full_iff ..).mp full
        rw [sizeT_natCast bound, Memory.bytes_shift, here] at front
        exact absurd front (incomplete message isComplete)
      | inr left =>
        obtain ⟨disconnects, acted, each⟩ := acts
        rw [loop_inr fuel turns] at returns
        rw [← Option.some.inj returns, acted, List.filter_append, List.map_nil]
        exact congrArg _ (List.filter_eq_nil_iff.mpr fun action member => by simp [each action member])
  | cons message messages inductionHypothesis =>
    cases fuel with
    | zero => cases returns
    | succ fuel =>
      have size : ((message :: messages).flatten ++ pending).length =
          message.length + (messages.flatten ++ pending).length := by
        rw [List.flatten_cons, List.append_assoc, List.length_append]
      rw [loop_inl fuel (turn_take prefixed complete pending here bound actions)] at returns
      rw [List.flatten_cons, List.append_assoc] at here
      rw [inductionHypothesis (fun other member => complete other (List.mem_cons_of_mem _ member)) _
        (Memory.bytes_append here).2 (by omega) _ fuel returns, List.filter_append,
        List.filter_cons_of_pos (by simp), List.append_assoc, List.cons_append, List.map_cons]
      split_ifs <;> rfl

theorem receive_handled (prefixed : LengthPrefixed isFullMsg Complete) {cursors next : Cursors}
    (spent : cursors.totalSize = 0) (start : cursors.start.getD 0 = 0) {pending : List UInt8}
    (incomplete : ∀ message, Complete message → ¬ message <+: pending)
    (messages : List (List UInt8)) (complete : ∀ message ∈ messages, Complete message)
    (bound : (messages.flatten ++ pending).length ≤ readBufSize) {actions : List Action}
    (returns : receive isFullMsg cursors (messages.flatten ++ pending) = some (next, actions)) :
    next.start.getD 0 = 0 ∧
      actions.filter (· ≠ .disconnect) = messages.map Action.processInMessage := by
  obtain ⟨framing, leaves, same⟩ := Option.bind_eq_some_iff.mp returns
  rw [recvAt_eq, start] at leaves same
  rw [spent, Int.zero_add] at leaves
  obtain ⟨rfl, rfl⟩ := Prod.mk.inj (Option.some.inj same)
  exact ⟨rfl, loop_handled prefixed incomplete messages complete _ 0 (Memory.bytes_store ..) bound []
    _ leaves⟩

/-- A message that comes in more than one chunk is not handled, unless a later chunk begins with
its first byte. -/
theorem not_readsRight_of_straddles (prefixed : LengthPrefixed isFullMsg Complete) (readBuf : Memory)
    {groups : List (List (List UInt8))} {inChunk more : List (List UInt8)}
    {message pending : List UInt8} {rest : List (List UInt8)}
    (complete : ∀ other ∈ groups.flatten ++ (inChunk ++ message :: more), Complete other)
    (incomplete : ∀ other, Complete other → ¬ other <+: pending)
    (received : ∀ chunk ∈ groups.map List.flatten ++ (inChunk.flatten ++ pending) :: rest,
      chunk ≠ [] ∧ chunk.length ≤ readBufSize)
    (apart : ∀ chunk ∈ rest, message.head? ≠ chunk.head?) :
    ¬ ReadsRight isFullMsg readBuf (groups.flatten ++ (inChunk ++ message :: more))
      (groups.map List.flatten ++ (inChunk.flatten ++ pending) :: rest) := by
  obtain ⟨receivedGroups, receivedLater⟩ := List.forall_mem_append.mp received
  obtain ⟨⟨-, bound⟩, receivedRest⟩ := List.forall_mem_cons.mp receivedLater
  obtain ⟨completeGroups, completeLater⟩ := List.forall_mem_append.mp complete
  obtain ⟨mid, whole, spent, start⟩ := run_whole prefixed readBuf groups
    (fun group member other inGroup => completeGroups other (List.mem_flatten.mpr ⟨group, member, inGroup⟩))
    fun group member => (receivedGroups _ (List.mem_map_of_mem member)).2
  rintro ⟨last, actions, returns, same⟩
  obtain ⟨mid', first, rest', runs, straddles, rfl⟩ := exists_of_run_append returns
  obtain ⟨rfl, rfl⟩ := returns_unique whole runs
  obtain ⟨next, acted, later, receives, runsLater, rfl⟩ := exists_of_run_cons straddles
  obtain ⟨again, handled⟩ := receive_handled prefixed spent start incomplete inChunk
    (fun other member => completeLater other (List.mem_append_left _ member)) bound receives
  rw [List.flatten_append, List.flatten_cons] at same
  have here : ∀ action ∈ (groups.map (framed (firstEnd (groups.map List.flatten)) 0)).flatten ++
      (acted ++ later.flatten), action ≠ .disconnect := by
    intro action member
    rw [same] at member
    obtain ⟨other, -, rfl⟩ := List.mem_map.mp member
    exact nofun
  obtain ⟨eachWhole, eachLater⟩ := List.forall_mem_append.mp here
  have kept (actions : List Action) (each : ∀ action ∈ actions, action ≠ .disconnect) :
      actions.filter (· ≠ .disconnect) = actions :=
    List.filter_eq_self.mpr fun action member => decide_eq_true (each action member)
  have handledWhole := filter_flatten_framed (firstEnd (groups.map List.flatten)) groups
  rw [kept _ eachWhole] at handledWhole
  rw [kept _ (List.forall_mem_append.mp eachLater).1] at handled
  rw [handledWhole, handled, List.map_append, List.map_append, List.append_cancel_left_eq,
    List.append_cancel_left_eq] at same
  obtain ⟨chunk, member, begins⟩ := run_begins prefixed (fun chunk member => (receivedRest chunk member).1)
    again runsLater (by rw [same]; rfl)
  exact apart chunk member begins

/-! ### Messages that end with a one -/

/-- Messages of which none is the front of another have an `isFullMsg`. -/
theorem exists_prefixed (prefixFree : ∀ message other, Complete message → Complete other →
    message <+: other → message = other) (nonempty : ∀ message, Complete message → message ≠ []) :
    ∃ isFullMsg, LengthPrefixed isFullMsg Complete := by
  have full (memory : Memory) (total : Nat) : ∃ result : Option Nat, ∀ len, result = some len ↔
      ∃ message, Complete message ∧ message.length = len ∧ message <+: memory.bytes 0 total := by
    by_cases front : ∃ message, Complete message ∧ message <+: memory.bytes 0 total
    · obtain ⟨message, complete, isPrefix⟩ := front
      refine ⟨some message.length, fun len => ⟨fun same => ?_, ?_⟩⟩
      · exact ⟨message, complete, Option.some.inj same, isPrefix⟩
      · rintro ⟨other, completeOther, rfl, otherPrefix⟩
        rcases List.prefix_or_prefix_of_prefix isPrefix otherPrefix with first | second
        · rw [prefixFree message other complete completeOther first]
        · rw [prefixFree other message completeOther complete second]
    · refine ⟨none, fun len => ⟨nofun, ?_⟩⟩
      rintro ⟨message, complete, -, isPrefix⟩
      exact absurd ⟨message, complete, isPrefix⟩ front
  choose isFullMsg full_iff using full
  exact ⟨isFullMsg, full_iff, nonempty⟩

/-- Zeros and a one. -/
def plain (size : Nat) : List UInt8 := List.replicate (size - 1) 0 ++ [1]

/-- The same behind a two, where there is more than one byte. -/
def marked (size : Nat) : List UInt8 := 2 :: plain (size - 1)

def PlainOrMarked (message : List UInt8) : Prop :=
  ∃ size, message = plain size ∨ message = marked size

theorem length_plain {size : Nat} (positive : 0 < size) : (plain size).length = size := by
  rw [plain, List.length_append, List.length_replicate]
  exact Nat.sub_add_cancel positive

theorem length_marked {size : Nat} (more : 1 < size) : (marked size).length = size := by
  rw [marked, List.length_cons, length_plain (Nat.sub_pos_of_lt more)]
  exact Nat.sub_add_cancel (Nat.le_of_lt more)

theorem plain_ne_nil (size : Nat) : plain size ≠ [] :=
  List.append_ne_nil_of_right_ne_nil _ (List.cons_ne_nil _ _)

theorem two_not_mem_plain (size : Nat) : 2 ∉ plain size := by
  rw [plain, List.mem_append, List.mem_replicate, List.mem_singleton]
  rintro (⟨-, two⟩ | two)
  · exact absurd two (by decide)
  · exact absurd two (by decide)

theorem plain_of_prefix {size other : Nat} (front : plain size <+: plain other) :
    plain size = plain other := by
  rcases List.prefix_concat_iff.mp front with same | short
  · exact same
  · have one := short.mem (List.mem_append_right _ (List.mem_singleton_self 1))
    exact absurd (List.eq_of_mem_replicate one) (by decide)

theorem plainOrMarked_ne_nil {message : List UInt8} (complete : PlainOrMarked message) :
    message ≠ [] := by
  obtain ⟨size, rfl | rfl⟩ := complete
  · exact plain_ne_nil size
  · exact List.cons_ne_nil _ _

theorem eq_of_plainOrMarked {message other : List UInt8} (complete : PlainOrMarked message)
    (completeOther : PlainOrMarked other) (front : message <+: other) : message = other := by
  obtain ⟨size, rfl | rfl⟩ := complete
  · obtain ⟨size', rfl | rfl⟩ := completeOther
    · exact plain_of_prefix front
    · -- a plain message does not begin with a two
      obtain ⟨byte, bytes, begins⟩ := List.exists_cons_of_ne_nil (plain_ne_nil size)
      rw [begins, marked, List.cons_prefix_cons] at front
      have two : 2 ∈ plain size := by rw [begins, front.1]; exact List.mem_cons_self
      exact absurd two (two_not_mem_plain size)
  · obtain ⟨size', rfl | rfl⟩ := completeOther
    · exact absurd (front.mem List.mem_cons_self) (two_not_mem_plain size')
    · rw [marked, marked, plain_of_prefix (List.cons_prefix_cons.mp front).2]

theorem map_length_plain {sizes : List Nat} (positive : ∀ size ∈ sizes, 0 < size) :
    (sizes.map plain).map List.length = sizes := by
  rw [List.map_map]
  exact (List.map_congr_left fun size member => length_plain (positive size member)).trans
    (List.map_id sizes)

theorem length_flatten_plain {sizes : List Nat} (positive : ∀ size ∈ sizes, 0 < size) :
    (sizes.map plain).flatten.length = sizes.sum := by
  rw [List.length_flatten, map_length_plain positive]

theorem two_not_mem_flatten_plain (sizes : List Nat) : 2 ∉ (sizes.map plain).flatten := by
  intro two
  obtain ⟨message, member, here⟩ := List.mem_flatten.mp two
  obtain ⟨size, -, rfl⟩ := List.mem_map.mp member
  exact two_not_mem_plain size here

/-! ### Ways to cut -/

/-- The session reads every stream of messages of these sizes right that it receives in chunks of
those sizes. -/
def ReadsCut (sizes cuts : List Nat) : Prop :=
  ∀ (isFullMsg : IsFullMsg) (Complete : List UInt8 → Prop), LengthPrefixed isFullMsg Complete →
    ∀ (readBuf : Memory) (messages chunks : List (List UInt8)),
      (∀ message ∈ messages, Complete message) → chunks.flatten = messages.flatten →
      messages.map List.length = sizes → chunks.map List.length = cuts →
      ReadsRight isFullMsg readBuf messages chunks

/-- Every chunk is of whole messages, of which all but the last are together shorter than the
first chunk. -/
def CutsBetween (sizes cuts : List Nat) : Prop :=
  ∃ groups : List (List Nat), groups.flatten = sizes ∧ groups.map List.sum = cuts ∧
    ∀ first ∈ cuts.head?, ∀ group ∈ groups, group.dropLast.sum < first

/-- A length is that of whole sizes, or ends inside the next one. -/
theorem cut_cases (sizes : List Nat) (cut : Nat) (within : cut ≤ sizes.sum) :
    ∃ whole later, sizes = whole ++ later ∧ (cut = whole.sum ∨
      ∃ size more pending, later = size :: more ∧ cut = whole.sum + pending ∧ 0 < pending ∧
        pending < size) := by
  induction sizes generalizing cut with
  | nil => exact ⟨[], [], rfl, .inl (Nat.le_zero.mp within)⟩
  | cons size sizes inductionHypothesis =>
    rw [List.sum_cons] at within
    by_cases short : cut < size
    · rcases Nat.eq_zero_or_pos cut with rfl | positive
      · exact ⟨[], size :: sizes, rfl, .inl rfl⟩
      · exact ⟨[], size :: sizes, rfl, .inr ⟨size, sizes, cut, rfl, (Nat.zero_add _).symm, positive, short⟩⟩
    · obtain ⟨whole, later, rfl, ends⟩ := inductionHypothesis (cut - size) (by omega)
      refine ⟨size :: whole, later, rfl, ?_⟩
      rw [List.sum_cons]
      rcases ends with same | ⟨next, more, pending, here, same, bounds⟩
      · exact .inl (by omega)
      · exact .inr ⟨next, more, pending, here, by omega, bounds⟩

/-- The chunks are of whole messages, or one of them is the first that ends inside a message. -/
theorem cuts_cases (cuts sizes : List Nat) (stream : cuts.sum = sizes.sum) :
    (∃ groups : List (List Nat), ∃ later, sizes = groups.flatten ++ later ∧
      groups.map List.sum = cuts ∧ later.sum = 0) ∨
    ∃ (groups : List (List Nat)) (inChunk : List Nat) (size : Nat) (more : List Nat) (pending : Nat)
      (rest : List Nat), sizes = groups.flatten ++ (inChunk ++ size :: more) ∧
        cuts = groups.map List.sum ++ (inChunk.sum + pending) :: rest ∧
        0 < pending ∧ pending < size := by
  induction cuts generalizing sizes with
  | nil => exact .inl ⟨[], sizes, rfl, rfl, stream.symm⟩
  | cons cut cuts inductionHypothesis =>
    rw [List.sum_cons] at stream
    obtain ⟨whole, later, rfl, ends⟩ := cut_cases sizes cut (by omega)
    rcases ends with same | ⟨size, more, pending, rfl, same, positive, short⟩
    · rw [List.sum_append] at stream
      rcases inductionHypothesis later (by omega) with
        ⟨groups, last, rfl, sums, none⟩ | ⟨groups, inChunk, size, more, pending, rest, rfl, rfl, ends⟩
      · refine .inl ⟨whole :: groups, last, ?_, ?_, none⟩
        · rw [List.flatten_cons, List.append_assoc]
        · rw [List.map_cons, sums, same]
      · refine .inr ⟨whole :: groups, inChunk, size, more, pending, rest, ?_, ?_, ends⟩
        · rw [List.flatten_cons, List.append_assoc]
        · rw [List.map_cons, same, List.cons_append]
    · exact .inr ⟨[], whole, size, more, pending, cuts, rfl, by rw [same]; rfl, positive, short⟩

theorem received_of_lengths {chunks : List (List UInt8)}
    (received : ∀ cut ∈ chunks.map List.length, 0 < cut ∧ cut ≤ readBufSize) :
    ∀ chunk ∈ chunks, chunk ≠ [] ∧ chunk.length ≤ readBufSize := by
  intro chunk member
  obtain ⟨some, fits⟩ := received chunk.length (List.mem_map_of_mem member)
  exact ⟨List.length_pos_iff.mp some, fits⟩

/-- The chunks of plain messages in these groups. -/
def plainChunks (groups : List (List Nat)) : List (List UInt8) :=
  (groups.map (List.map plain)).map List.flatten

theorem flatten_plainChunks (groups : List (List Nat)) :
    (plainChunks groups).flatten = (groups.flatten.map plain).flatten := by
  rw [plainChunks, ← List.flatten_flatten, List.map_flatten]

theorem map_length_plainChunks {groups : List (List Nat)}
    (positive : ∀ size ∈ groups.flatten, 0 < size) :
    (plainChunks groups).map List.length = groups.map List.sum := by
  rw [plainChunks, List.map_map, List.map_map]
  refine List.map_congr_left fun group member => ?_
  exact length_flatten_plain fun size inGroup =>
    positive size (List.mem_flatten.mpr ⟨group, member, inGroup⟩)

/-- A way to cut that reads every stream right and is between messages keeps to the first chunk. -/
theorem within_first_of_readsCut {groups : List (List Nat)}
    (positive : ∀ size ∈ groups.flatten, 0 < size)
    (received : ∀ cut ∈ groups.map List.sum, 0 < cut ∧ cut ≤ readBufSize)
    (reads : ReadsCut groups.flatten (groups.map List.sum)) :
    ∀ first ∈ (groups.map List.sum).head?, ∀ group ∈ groups, group.dropLast.sum < first := by
  obtain ⟨isFullMsg, prefixed⟩ :=
    exists_prefixed (fun _ _ => eq_of_plainOrMarked) fun _ => plainOrMarked_ne_nil
  have complete : ∀ message ∈ groups.flatten.map plain, PlainOrMarked message := by
    intro message member
    obtain ⟨size, -, rfl⟩ := List.mem_map.mp member
    exact ⟨size, .inl rfl⟩
  have lengths := map_length_plainChunks positive
  have right := reads isFullMsg _ prefixed (fun _ => 0) _ _ complete (flatten_plainChunks groups)
    (map_length_plain positive) lengths
  rw [← lengths] at received
  rw [readsRight_iff_of_whole prefixed _ complete (received_of_lengths received) List.map_flatten.symm
    rfl] at right
  intro first head group member
  rw [← lengths, List.head?_map] at head
  obtain ⟨chunk, headChunk, rfl⟩ := Option.map_eq_some_iff.mp head
  have within := right chunk headChunk _ (List.mem_map_of_mem member)
  rw [← List.map_dropLast, length_flatten_plain] at within
  · exact within
  · exact fun size inGroup => positive size
      (List.mem_flatten.mpr ⟨group, member, List.dropLast_subset _ inGroup⟩)

/-- A way to cut inside a message does not read every stream right. -/
theorem not_readsCut_of_straddles {groups : List (List Nat)} {inChunk more rest : List Nat}
    {size pending : Nat}
    (positive : ∀ other ∈ groups.flatten ++ (inChunk ++ size :: more), 0 < other)
    (received : ∀ cut ∈ groups.map List.sum ++ (inChunk.sum + pending) :: rest,
      0 < cut ∧ cut ≤ readBufSize)
    (stream : (groups.map List.sum ++ (inChunk.sum + pending) :: rest).sum =
      (groups.flatten ++ (inChunk ++ size :: more)).sum)
    (some : 0 < pending) (short : pending < size) :
    ¬ ReadsCut (groups.flatten ++ (inChunk ++ size :: more))
      (groups.map List.sum ++ (inChunk.sum + pending) :: rest) := by
  intro reads
  obtain ⟨isFullMsg, prefixed⟩ :=
    exists_prefixed (fun _ _ => eq_of_plainOrMarked) fun _ => plainOrMarked_ne_nil
  obtain ⟨positiveGroups, positiveLater⟩ := List.forall_mem_append.mp positive
  obtain ⟨positiveInChunk, positiveRest⟩ := List.forall_mem_append.mp positiveLater
  obtain ⟨-, positiveMore⟩ := List.forall_mem_cons.mp positiveRest
  have length : (marked size).length = size := length_marked (by omega)
  -- all that comes behind the chunk that ends inside the marked message
  let behind := (marked size).drop pending ++ (more.map plain).flatten
  have behindLength : rest.sum = behind.length := by
    rw [List.sum_append, List.sum_append, List.sum_append, List.sum_cons, List.sum_cons,
      List.sum_flatten] at stream
    rw [List.length_append, List.length_drop, length, length_flatten_plain positiveMore]
    omega
  have notBehind : 2 ∉ behind := by
    obtain ⟨less, rfl⟩ := Nat.exists_eq_succ_of_ne_zero some.ne'
    intro two
    rcases List.mem_append.mp two with inMarked | inMore
    · exact two_not_mem_plain _ (List.mem_of_mem_drop inMarked)
    · exact two_not_mem_flatten_plain more inMore
  have complete : ∀ message ∈ groups.flatten.map plain ++ (inChunk.map plain ++ marked size ::
      more.map plain), PlainOrMarked message := by
    intro message member
    simp only [List.mem_append, List.mem_cons, List.mem_map] at member
    rcases member with ⟨other, -, rfl⟩ | ⟨other, -, rfl⟩ | rfl | ⟨other, -, rfl⟩
    · exact ⟨other, .inl rfl⟩
    · exact ⟨other, .inl rfl⟩
    · exact ⟨size, .inr rfl⟩
    · exact ⟨other, .inl rfl⟩
  have incomplete (message : List UInt8) (isComplete : PlainOrMarked message) :
      ¬ message <+: (marked size).take pending := by
    intro front
    have shorter := front.length_le
    rw [eq_of_plainOrMarked isComplete ⟨size, .inr rfl⟩ (front.trans (List.take_prefix ..)),
      List.length_take, length] at shorter
    omega
  have flat : (plainChunks groups ++ ((inChunk.map plain).flatten ++ (marked size).take pending) ::
      rest.splitLengths behind).flatten = (groups.flatten.map plain ++ (inChunk.map plain ++
        marked size :: more.map plain)).flatten := by
    rw [List.flatten_append, List.flatten_cons, List.flatten_splitLengths _ _ behindLength.ge,
      flatten_plainChunks, List.flatten_append, List.flatten_append, List.flatten_cons,
      List.append_assoc, ← List.append_assoc ((marked size).take pending), List.take_append_drop]
  have sizes : (groups.flatten.map plain ++ (inChunk.map plain ++ marked size ::
      more.map plain)).map List.length = groups.flatten ++ (inChunk ++ size :: more) := by
    rw [List.map_append, List.map_append, List.map_cons, map_length_plain positiveGroups,
      map_length_plain positiveInChunk, map_length_plain positiveMore, length]
  have cuts : (plainChunks groups ++ ((inChunk.map plain).flatten ++ (marked size).take pending) ::
      rest.splitLengths behind).map List.length =
        groups.map List.sum ++ (inChunk.sum + pending) :: rest := by
    rw [List.map_append, List.map_cons, map_length_plainChunks positiveGroups,
      List.map_splitLengths_length _ _ behindLength.le, List.length_append,
      length_flatten_plain positiveInChunk, List.length_take_of_le (by omega)]
  have right := reads isFullMsg _ prefixed (fun _ => 0) _ _ complete flat sizes cuts
  rw [← cuts] at received
  rw [List.map_flatten] at complete right
  refine not_readsRight_of_straddles prefixed _ complete incomplete (received_of_lengths received)
    (fun chunk member head => ?_) right
  refine notBehind ?_
  rw [← List.flatten_splitLengths behind rest behindLength.ge]
  exact List.mem_flatten.mpr ⟨chunk, member, List.mem_of_head? (head.symm.trans rfl)⟩

/-- A way to cut between messages is read right. -/
theorem readsCut_of_cutsBetween {sizes cuts : List Nat}
    (received : ∀ cut ∈ cuts, 0 < cut ∧ cut ≤ readBufSize) (between : CutsBetween sizes cuts) :
    ReadsCut sizes cuts := by
  obtain ⟨groups, rfl, rfl, within⟩ := between
  intro isFullMsg Complete prefixed readBuf messages chunks complete stream sizes cuts
  -- the messages in groups of as many as the sizes
  let whole := (groups.map List.length).splitLengths messages
  have count : (groups.map List.length).sum = messages.length := by
    rw [← List.length_flatten, ← sizes, List.length_map]
  have flat : whole.flatten = messages := List.flatten_splitLengths _ _ count.ge
  have grouped : whole.map (List.map List.length) = groups := by
    rw [List.eq_iff_flatten_eq, ← List.map_flatten, flat, List.map_map]
    refine ⟨sizes, ?_⟩
    simp only [Function.comp_def, List.length_map]
    exact List.map_splitLengths_length _ _ count.le
  have chunked : whole.map List.flatten = chunks := by
    rw [List.eq_iff_flatten_eq, ← List.flatten_flatten, flat, stream, cuts, ← grouped]
    refine ⟨rfl, ?_⟩
    simp only [List.map_map, Function.comp_def, List.length_flatten]
  rw [← cuts] at received
  rw [readsRight_iff_of_whole prefixed readBuf complete (received_of_lengths received) flat chunked]
  intro first head group member
  have bound := within first.length (by rw [← cuts, List.head?_map, head]; rfl)
    (group.map List.length) (by rw [← grouped]; exact List.mem_map_of_mem member)
  rw [← List.map_dropLast, ← List.length_flatten] at bound
  exact bound

/-- For all sizes of messages and every way to cut their stream into chunks that fit the read
buffer, the session reads every such stream right exactly when each chunk is of whole messages, of
which all but the last are together shorter than the first chunk. -/
theorem readsCut_iff {sizes cuts : List Nat} (positive : ∀ size ∈ sizes, 0 < size)
    (received : ∀ cut ∈ cuts, 0 < cut ∧ cut ≤ readBufSize) (stream : cuts.sum = sizes.sum) :
    ReadsCut sizes cuts ↔ CutsBetween sizes cuts := by
  refine ⟨fun reads => ?_, readsCut_of_cutsBetween received⟩
  rcases cuts_cases cuts sizes stream with
    ⟨groups, later, rfl, rfl, none⟩ | ⟨groups, inChunk, size, more, pending, rest, rfl, rfl, some, short⟩
  · obtain rfl : later = [] := by
      refine List.eq_nil_iff_forall_not_mem.mpr fun size member => ?_
      have := positive size (List.mem_append_right _ member)
      have := List.sum_eq_zero_iff_forall_eq_nat.mp none size member
      omega
    rw [List.append_nil] at positive reads ⊢
    exact ⟨groups, rfl, rfl, within_first_of_readsCut positive received reads⟩
  · exact absurd reads (not_readsCut_of_straddles positive received stream some short)

/-- Three chunks, the last of them of two messages. -/
theorem readsCut_example : ReadsCut [3, 2, 2, 2] [3, 2, 4] :=
  (readsCut_iff (by decide) (by decide) (by decide)).mpr
    ⟨[[3], [2], [2, 2]], rfl, rfl, by decide⟩

end Oms
