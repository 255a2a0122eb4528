/-
This file models how MarketDataPublisher's `OrderGenerator` reads a capture file, and
proves when all of its messages are published.

A capture is a hex dump with three lines for each message. A line that matches the
expression adds its hex digits; after every third line the digits are made bytes, and
the bytes a message. Digits that make no bytes are skipped; a message of another type
throws and one that is too short is read beyond its end (`none`). The messages are
kept in a map by their sequence number, which every stream has its own of, and a
message whose number is there already is dropped.
-/

import OrderBookSketch.HexString
import OrderBookSketch.Publisher
import OrderBookSketch.Library.OrderedMap
import Mathlib.Algebra.Order.Ring.Int

namespace ObLib

open Codecs Containers

/-! ### Lines -/

/-- `[ \t]`. -/
def isBlank (c : Char) : Bool := c = ' ' || c = '\t'

/-- `([0-9 a-z]+)[ \t]{2}.+`: the longest group that two blanks and more follow. -/
def group : List Char → Option (List Char)
  | [] => none
  | c :: rest =>
    if c.isDigit || c = ' ' || c.isLower then
      match group rest, rest with
      | some more, _ => some (c :: more)
      | none, first :: second :: _ :: _ =>
        if isBlank first && isBlank second then some [c] else none
      | none, _ => none
    else none

/-- `boost::regex_match` with the expression of the constructor, which sees the line as a C string:
the text of its group. -/
def regexMatch (line : List Char) : Option (List Char) :=
  let line := line.takeWhile (· ≠ Char.ofNat 0)
  if (line.takeWhile Char.isDigit).isEmpty then none
  else
    match line.dropWhile Char.isDigit with
    | first :: second :: rest => if isBlank first && isBlank second then group rest else none
    | _ => none

def isspace (c : Char) : Bool := c = ' ' || (9 ≤ c.toNat && c.toNat ≤ 13)

/-- What `hex_to_string` makes of the text of groups, whose characters are bytes. `none` is the
`std::invalid_argument`, which the constructors catch. -/
def toDecimalStr (hexStr : List Char) : Option (List UInt8) :=
  (HexString.hexToString (hexStr.map Char.toUInt8)).toOption

/-- The message of a packet's bytes. -/
def mktDataMsg (decimalStr : List UInt8) : Option TypeMktDataPair :=
  match (MktDataGlobalHeaderMsg.codec.prod byte).read decimalStr with
  | some ((header, msgType), rest) =>
    if msgType ∈ orderTypes then
      (MktDataOrderMsg.codec.read rest).map fun (body, _) => (msgType, .inl (header, msgType, body))
    else if msgType ∈ tradeTypes then
      (MktDataTradeMsg.codec.read rest).map fun (body, _) => (msgType, .inr (header, msgType, body))
    else none
  | none => none

/-! ### The generator -/

structure OrderGenerator where
  orders : List OrderTuple := []
  trades : List TradeTuple := []
  tokens : OrderedMap Int Unit (· < ·) := .empty
  mktDataContainer : OrderedMap Int TypeMktDataPair (· < ·) := .empty

namespace OrderGenerator

def getMktData (generator : OrderGenerator) : List TypeMktDataPair :=
  generator.mktDataContainer.entries.map Prod.snd

/-- The sequence number that a message is kept under. -/
def seqNo (msg : TypeMktDataPair) : Int := msg.header.seqNo.toInt

def add (generator : OrderGenerator) (msg : TypeMktDataPair) : OrderGenerator :=
  let generator :=
    match msg.2 with
    | .inl order => { generator with orders := generator.orders ++ [order] }
    | .inr trade => { generator with trades := generator.trades ++ [trade] }
  { generator with
    mktDataContainer := generator.mktDataContainer.insert (seqNo msg) msg
    tokens := generator.tokens.insert msg.toeknNo.toInt () }

/-- The constructor's loop, between two lines. -/
structure Parse where
  generator : OrderGenerator := {}
  count : Nat := 0
  dataPacketStr : List Char := []

def Parse.line (parse : Parse) (line : List Char) : Option Parse :=
  let parse :=
    { parse with dataPacketStr := parse.dataPacketStr ++ (regexMatch line).getD [] }
  if parse.count + 1 = 3 then
    match toDecimalStr (parse.dataPacketStr.filter fun c => !isspace c) with
    | some decimalStr =>
      (mktDataMsg decimalStr).map fun msg => { generator := parse.generator.add msg }
    | none => some { generator := parse.generator }
  else some { parse with count := parse.count + 1 }

/-- The constructor, on the lines of a file that is readable. -/
def create (lines : List (List Char)) : Option OrderGenerator :=
  (lines.foldlM Parse.line {}).map Parse.generator

end OrderGenerator

/-! ### What is published -/

/-- The message of three lines, as far as they make one. -/
def decode (first second third : List Char) : Option TypeMktDataPair := do
  let hexStr := [first, second, third].flatMap fun line => (regexMatch line).getD []
  let decimalStr ← toDecimalStr (hexStr.filter fun c => !isspace c)
  mktDataMsg decimalStr

/-- A file whose groups of three lines are the messages, with less than a group at its end. -/
inductive Captures : List (List Char) → List TypeMktDataPair → Prop where
  | rest (lines : List (List Char)) (few : lines.length < 3) : Captures lines []
  | group (first second third : List Char) (msg : TypeMktDataPair) (lines : List (List Char))
      (msgs : List TypeMktDataPair) (decodes : decode first second third = some msg)
      (later : Captures lines msgs) : Captures (first :: second :: third :: lines) (msg :: msgs)

/-- The session for a capture writes the messages, in this order. -/
def Publishes (lines : List (List Char)) (published : List TypeMktDataPair) : Prop :=
  ∃ generator, OrderGenerator.create lines = some generator ∧ generator.getMktData = published ∧
    Session.doRead false published = some (published.map Session.packet)

/-- Each message is published once, and those of a stream in the order of their numbers. -/
def EachOnce (msgs published : List TypeMktDataPair) : Prop :=
  published.Perm msgs ∧
    ∀ streamId, (published.filter fun msg => msg.header.streamId = streamId).Pairwise
      fun first later => OrderGenerator.seqNo first ≤ OrderGenerator.seqNo later

namespace OrderGenerator

theorem mktDataMsg_wellFormed {decimalStr : List UInt8} {msg : TypeMktDataPair}
    (decodes : mktDataMsg decimalStr = some msg) : msg.WellFormed := by
  unfold mktDataMsg at decodes
  cases front : (MktDataGlobalHeaderMsg.codec.prod byte).read decimalStr with
  | none =>
    rw [front] at decodes
    cases decodes
  | some read =>
    obtain ⟨⟨header, msgType⟩, rest⟩ := read
    simp only [front] at decodes
    split_ifs at decodes with order trade
    · obtain ⟨body, -, rfl⟩ := Option.map_eq_some_iff.mp decodes
      exact ⟨rfl, order⟩
    · obtain ⟨body, -, rfl⟩ := Option.map_eq_some_iff.mp decodes
      exact ⟨rfl, trade⟩

theorem wellFormed_of_captures {lines : List (List Char)} {msgs : List TypeMktDataPair}
    (captures : Captures lines msgs) : ∀ msg ∈ msgs, msg.WellFormed := by
  induction captures with
  | rest => exact fun _ member => absurd member List.not_mem_nil
  | group first second third msg lines msgs decodes later inductionHypothesis =>
    obtain ⟨hexStr, -, bytes⟩ := Option.bind_eq_some_iff.mp decodes
    exact List.forall_mem_cons.mpr ⟨mktDataMsg_wellFormed bytes, inductionHypothesis⟩

theorem line_of_not_third {parse : Parse} (notThird : parse.count + 1 ≠ 3) (line : List Char) :
    parse.line line = some
      { parse with
        dataPacketStr := parse.dataPacketStr ++ (regexMatch line).getD []
        count := parse.count + 1 } :=
  if_neg notThird

theorem line_of_third {parse : Parse} (third : parse.count + 1 = 3) {line : List Char}
    {decimalStr : List UInt8} {msg : TypeMktDataPair}
    (bytes : toDecimalStr ((parse.dataPacketStr ++ (regexMatch line).getD []).filter
      fun c => !isspace c) = some decimalStr)
    (makes : mktDataMsg decimalStr = some msg) :
    parse.line line = some { generator := parse.generator.add msg } := by
  simp only [Parse.line, if_pos third, bytes, makes]
  rfl

/-- Three lines that make a message add it. -/
theorem foldlM_group {first second third : List Char} {msg : TypeMktDataPair}
    (decodes : decode first second third = some msg) (lines : List (List Char))
    (generator : OrderGenerator) :
    (first :: second :: third :: lines).foldlM Parse.line { generator } =
      lines.foldlM Parse.line { generator := generator.add msg } := by
  obtain ⟨decimalStr, bytes, makes⟩ := Option.bind_eq_some_iff.mp decodes
  have first_ne : (0 : Nat) + 1 ≠ 3 := by decide
  have second_ne : (1 : Nat) + 1 ≠ 3 := by decide
  rw [List.foldlM_cons, line_of_not_third first_ne, Option.bind_eq_bind, Option.bind_some,
    List.foldlM_cons, line_of_not_third second_ne, Option.bind_eq_bind, Option.bind_some,
    List.foldlM_cons, line_of_third rfl (?_ : toDecimalStr _ = some decimalStr) makes,
    Option.bind_eq_bind, Option.bind_some]
  rw [← bytes]
  simp only [List.flatMap_cons, List.flatMap_nil, List.nil_append, List.append_nil,
    List.append_assoc]

/-- The lines of a capture add its messages one after another. -/
theorem foldlM_line {lines : List (List Char)} {msgs : List TypeMktDataPair}
    (captures : Captures lines msgs) (generator : OrderGenerator) :
    (lines.foldlM Parse.line { generator }).map Parse.generator = some (msgs.foldl add generator) := by
  induction captures generalizing generator with
  | rest lines few =>
    match lines with
    | [] => rfl
    | [_] => rfl
    | [_, _] => rfl
  | group first second third msg lines msgs decodes later inductionHypothesis =>
    rw [foldlM_group decodes, inductionHypothesis, List.foldl_cons]

/-! ### The container -/

theorem mktDataContainer_add (generator : OrderGenerator) (msg : TypeMktDataPair) :
    (generator.add msg).mktDataContainer = generator.mktDataContainer.insert (seqNo msg) msg := by
  unfold add
  cases msg.2 <;> rfl

/-- Every message is kept under its own number. -/
def Keyed (generator : OrderGenerator) : Prop :=
  ∀ entry ∈ generator.mktDataContainer.entries, entry.1 = seqNo entry.2

theorem keyed_add {generator : OrderGenerator} (keyed : Keyed generator) (msg : TypeMktDataPair) :
    Keyed (generator.add msg) := by
  intro entry member
  rw [mktDataContainer_add] at member
  rcases OrderedMap.mem_insert member with rfl | before
  · rfl
  · exact keyed entry before

theorem keyed_foldl {generator : OrderGenerator} (keyed : Keyed generator)
    (msgs : List TypeMktDataPair) : Keyed (msgs.foldl add generator) := by
  induction msgs generalizing generator with
  | nil => exact keyed
  | cons msg msgs inductionHypothesis => exact inductionHypothesis (keyed_add keyed msg)

/-- The numbers of the messages kept are the keys. -/
theorem map_seqNo_getMktData {generator : OrderGenerator} (keyed : Keyed generator) :
    generator.getMktData.map seqNo = generator.mktDataContainer.entries.map Prod.fst := by
  unfold getMktData
  rw [List.map_map]
  exact List.map_congr_left fun entry member => (keyed entry member).symm

/-- The messages kept are in the order of their numbers. -/
theorem pairwise_getMktData {generator : OrderGenerator} (keyed : Keyed generator) :
    generator.getMktData.Pairwise fun first later => seqNo first < seqNo later := by
  have sorted : (generator.getMktData.map seqNo).Pairwise (· < ·) := by
    rw [map_seqNo_getMktData keyed, List.pairwise_map]
    exact generator.mktDataContainer.sorted
  exact List.pairwise_map.mp sorted

/-- Only what was added is kept. -/
theorem mem_getMktData {generator : OrderGenerator} {msgs : List TypeMktDataPair}
    {msg : TypeMktDataPair} (member : msg ∈ (msgs.foldl add generator).getMktData) :
    msg ∈ msgs ∨ msg ∈ generator.getMktData := by
  induction msgs generalizing generator with
  | nil => exact .inr member
  | cons first msgs inductionHypothesis =>
    rcases inductionHypothesis member with later | kept
    · exact .inl (List.mem_cons_of_mem _ later)
    · obtain ⟨entry, inContainer, rfl⟩ := List.mem_map.mp kept
      rw [mktDataContainer_add] at inContainer
      rcases OrderedMap.mem_insert inContainer with rfl | before
      · exact .inl List.mem_cons_self
      · exact .inr (List.mem_map_of_mem before)

/-- Messages with numbers of their own are all kept. -/
theorem getMktData_perm {generator : OrderGenerator} (keyed : Keyed generator)
    {msgs : List TypeMktDataPair} (nodup : (msgs.map seqNo).Nodup)
    (fresh : ∀ msg ∈ msgs, seqNo msg ∉ generator.getMktData.map seqNo) :
    (msgs.foldl add generator).getMktData.Perm (msgs ++ generator.getMktData) := by
  induction msgs generalizing generator with
  | nil => exact List.Perm.refl _
  | cons msg msgs inductionHypothesis =>
    obtain ⟨absentRest, nodupRest⟩ := List.nodup_cons.mp nodup
    obtain ⟨absent, freshRest⟩ := List.forall_mem_cons.mp fresh
    have added : (generator.add msg).getMktData.Perm (msg :: generator.getMktData) := by
      rw [map_seqNo_getMktData keyed] at absent
      unfold getMktData
      rw [mktDataContainer_add]
      exact (OrderedMap.insert_perm absent msg).map Prod.snd
    refine (inductionHypothesis (keyed_add keyed msg) nodupRest fun other member present => ?_).trans ?_
    · rw [(added.map seqNo).mem_iff, List.map_cons, List.mem_cons] at present
      rcases present with same | before
      · exact absentRest (same ▸ List.mem_map_of_mem member)
      · exact freshRest other member before
    · exact (added.append_left msgs).trans List.perm_middle

end OrderGenerator

open OrderGenerator

/-- Of a capture whose groups all decode, every message is published once, and those of each stream
in the order of their numbers, exactly when no two messages have the same number. -/
theorem published_iff {lines : List (List Char)} {msgs : List TypeMktDataPair}
    (captures : Captures lines msgs) :
    ∃ published, Publishes lines published ∧
      (EachOnce msgs published ↔ (msgs.map seqNo).Nodup) := by
  have none : Keyed {} := fun _ member => absurd member List.not_mem_nil
  have keyed := keyed_foldl none msgs
  have sorted := pairwise_getMktData keyed
  have wellFormed : ∀ msg ∈ (msgs.foldl add {}).getMktData, msg.WellFormed := fun msg member =>
    wellFormed_of_captures captures msg
      ((mem_getMktData member).resolve_right List.not_mem_nil)
  refine ⟨(msgs.foldl add {}).getMktData, ⟨_, foldlM_line captures {}, rfl, ?_⟩, ?_⟩
  · rw [Session.doRead_eq false wellFormed]
    exact congrArg some (List.map_congr_left fun msg _ => if_pos nofun)
  · constructor
    · rintro ⟨each, -⟩
      refine (each.map seqNo).nodup_iff.mp ?_
      exact List.pairwise_map.mpr (sorted.imp fun {first later} less => Int.ne_of_lt less)
    · intro nodup
      refine ⟨?_, fun streamId => (sorted.imp fun {first later} => Int.le_of_lt).filter _⟩
      have each := getMktData_perm none nodup fun msg _ => List.not_mem_nil
      rwa [show getMktData {} = [] from rfl, List.append_nil] at each

/-- The lines of new orders, which differ in their first ones. -/
def newOrderLines (firsts : List String) : List (List Char) :=
  firsts.flatMap fun first =>
    [first.toList, "0010  00 0b 00 00 00 00 00 00 00 56 bb 00 00 42 e7 ff  ...".toList,
      "0020  ff ff 0a 00 00 00  ...".toList]

def newOrder (streamId : Int16) (seqNo : Int32) : TypeMktDataPair :=
  ('N'.toUInt8, .inl (⟨38, streamId, seqNo⟩, 'N'.toUInt8, ⟨5, 11, 47958, 'B'.toUInt8, -25, 10⟩))

/-- A capture of two new orders, the first of them of stream 1. -/
theorem captures_newOrderLines {second : String} {msg : TypeMktDataPair}
    (decodes : decode second.toList
      "0010  00 0b 00 00 00 00 00 00 00 56 bb 00 00 42 e7 ff  ...".toList
      "0020  ff ff 0a 00 00 00  ...".toList = some msg) :
    Captures
      (newOrderLines ["0000  26 00 01 00 07 00 00 00 4e 05 00 00 00 00 00 00  ...", second])
      [newOrder 1 7, msg] :=
  .group _ _ _ _ _ _ (by decide +kernel) (.group _ _ _ msg _ _ decodes (.rest [] (by decide)))

theorem published_example :
    ∃ published,
      Publishes
        (newOrderLines ["0000  26 00 01 00 07 00 00 00 4e 05 00 00 00 00 00 00  ...",
          "0000  26 00 02 00 08 00 00 00 4e 05 00 00 00 00 00 00  ..."])
        published ∧
      EachOnce [newOrder 1 7, newOrder 2 8] published := by
  have captures : Captures
      (newOrderLines ["0000  26 00 01 00 07 00 00 00 4e 05 00 00 00 00 00 00  ...",
        "0000  26 00 02 00 08 00 00 00 4e 05 00 00 00 00 00 00  ..."])
      [newOrder 1 7, newOrder 2 8] :=
    captures_newOrderLines (by decide +kernel)
  obtain ⟨published, publishes, eachIff⟩ := published_iff captures
  exact ⟨published, publishes, eachIff.mpr (by decide)⟩

/-- Of two streams that are at the same number, one message is dropped. -/
theorem other_stream_is_dropped :
    ¬ ∀ (lines : List (List Char)) (msgs : List TypeMktDataPair), Captures lines msgs →
      ∀ published, Publishes lines published → EachOnce msgs published := by
  intro claim
  have captures : Captures
      (newOrderLines ["0000  26 00 01 00 07 00 00 00 4e 05 00 00 00 00 00 00  ...",
        "0000  26 00 02 00 07 00 00 00 4e 05 00 00 00 00 00 00  ..."])
      [newOrder 1 7, newOrder 2 7] :=
    captures_newOrderLines (by decide +kernel)
  obtain ⟨published, publishes, eachIff⟩ := published_iff captures
  exact absurd (eachIff.mp (claim _ _ captures published publishes)) (by decide)

end ObLib
