/-
This file models the copies that both `OrderGenerator` constructors make of a decoded
group, and proves when they all lie inside of the decoded string.

A copy takes its bytes from an address on, whatever the length of the string; behind
the string lies memory that is not its own. The header and the type are copied before
anything is known of the length, and then the body that the type says, which the type
may say from behind the string as well. The constructor stops at the first group of
another type, so the groups behind that one are not reached.
-/

import OrderBookSketch.OrderGenerator

namespace ObLib

open Codecs Containers

/-! ### Copies -/

/-- A `memcpy` from an offset of a string. -/
structure StringCopy where
  decimalStr : List UInt8
  offset : Nat
  size : Nat
deriving DecidableEq, Repr

/-- What lies behind a string. -/
abbrev Beyond := List UInt8 → Nat → UInt8

namespace StringCopy

/-- Every byte is one of the string. -/
def Inside (copy : StringCopy) : Prop := copy.offset + copy.size ≤ copy.decimalStr.length

instance (copy : StringCopy) : Decidable copy.Inside := inferInstanceAs (Decidable (_ ≤ _))

def bytes (beyond : Beyond) (copy : StringCopy) : List UInt8 :=
  (List.range copy.size).map fun index =>
    copy.decimalStr[copy.offset + index]?.getD (beyond copy.decimalStr (copy.offset + index))

/-- A copy inside of the string is of its bytes. -/
theorem bytes_of_inside {copy : StringCopy} (inside : copy.Inside) (beyond : Beyond) :
    copy.bytes beyond = (copy.decimalStr.drop copy.offset).take copy.size := by
  have bound : copy.offset + copy.size ≤ copy.decimalStr.length := inside
  refine List.ext_getElem? fun index => ?_
  unfold bytes
  rw [List.getElem?_map]
  by_cases small : index < copy.size
  · have here : copy.offset + index < copy.decimalStr.length := by omega
    rw [List.getElem?_range small, List.getElem?_take_of_lt small, List.getElem?_drop,
      Option.map_some, List.getElem?_eq_getElem here, Option.getD_some]
  · have many := Nat.le_of_not_lt small
    rw [List.getElem?_eq_none (by rw [List.length_range]; exact many),
      List.getElem?_take_eq_none many]
    rfl

end StringCopy

/-! ### The constructors -/

/-- The message of a group whose digits are bytes, and the copies that it is made of. -/
def copyMktDataMsg (beyond : Beyond) (decimalStr : List UInt8) :
    List StringCopy × Except String TypeMktDataPair :=
  let headerCopy : StringCopy := ⟨decimalStr, 0, MktDataGlobalHeaderMsg.codec.size⟩
  let typeCopy : StringCopy := ⟨decimalStr, MktDataGlobalHeaderMsg.codec.size, byte.size⟩
  let header := MktDataGlobalHeaderMsg.codec.decode (headerCopy.bytes beyond)
  let msgType := byte.decode (typeCopy.bytes beyond)
  let body := MktDataGlobalHeaderMsg.codec.size + byte.size
  if msgType ∈ orderTypes then
    let bodyCopy : StringCopy := ⟨decimalStr, body, MktDataOrderMsg.codec.size⟩
    ([headerCopy, typeCopy, bodyCopy],
      .ok (msgType, .inl (header, msgType, MktDataOrderMsg.codec.decode (bodyCopy.bytes beyond))))
  else if msgType ∈ tradeTypes then
    let bodyCopy : StringCopy := ⟨decimalStr, body, MktDataTradeMsg.codec.size⟩
    ([headerCopy, typeCopy, bodyCopy],
      .ok (msgType, .inr (header, msgType, MktDataTradeMsg.codec.decode (bodyCopy.bytes beyond))))
  else ([headerCopy, typeCopy], .error " Unsupported MktData message.")

/-- The digits of three lines. -/
def hexStr (lines : List (List Char)) : List Char :=
  (lines.flatMap fun line => (regexMatch line).getD []).filter fun c => !isspace c

/-- The loop of a constructor, between two lines, over what it makes of the messages. -/
structure Reading (Generator : Type) where
  generator : Generator
  count : Nat := 0
  dataPacketStr : List Char := []

namespace Reading

variable {Generator : Type}

/-- One line: the copies, and the loop behind it or the error that is thrown. -/
def line (add : Generator → TypeMktDataPair → Generator) (beyond : Beyond)
    (reading : Reading Generator) (text : List Char) :
    List StringCopy × Except String (Reading Generator) :=
  let reading :=
    { reading with dataPacketStr := reading.dataPacketStr ++ (regexMatch text).getD [] }
  if reading.count + 1 = 3 then
    match toDecimalStr (reading.dataPacketStr.filter fun c => !isspace c) with
    | some decimalStr =>
      ((copyMktDataMsg beyond decimalStr).1,
        (copyMktDataMsg beyond decimalStr).2.map fun msg => { generator := add reading.generator msg })
    | none => ([], .ok { generator := reading.generator })
  else ([], .ok { reading with count := reading.count + 1 })

/-- The lines of a file. -/
def lines (add : Generator → TypeMktDataPair → Generator) (beyond : Beyond)
    (reading : Reading Generator) : List (List Char) → List StringCopy × Except String Generator
  | [] => ([], .ok reading.generator)
  | text :: texts =>
    match reading.line add beyond text with
    | (copies, .error what) => (copies, .error what)
    | (copies, .ok next) => (copies ++ (next.lines add beyond texts).1, (next.lines add beyond texts).2)

end Reading

/-- MarketDataPublisher's constructor, on the lines of a file that is readable. -/
def publisherOrderGenerator (beyond : Beyond) (lines : List (List Char)) :
    List StringCopy × Except String OrderGenerator :=
  Reading.lines OrderGenerator.add beyond { generator := {} } lines

/-- OrderBookStore's constructor, which keeps the tokens and nothing else. -/
def storeOrderGenerator (beyond : Beyond) (lines : List (List Char)) :
    List StringCopy × Except String (OrderedMap Int Unit (· < ·)) :=
  Reading.lines (fun tokens msg => tokens.insert msg.toeknNo.toInt ()) beyond
    { generator := .empty } lines

/-! ### What is long enough -/

/-- The decoded string has a header, a type, and the body of that type. -/
def LongEnough (decimalStr : List UInt8) : Prop :=
  let body := MktDataGlobalHeaderMsg.codec.size + byte.size
  ∃ msgType, decimalStr[MktDataGlobalHeaderMsg.codec.size]? = some msgType ∧
    (msgType ∈ orderTypes → body + MktDataOrderMsg.codec.size ≤ decimalStr.length) ∧
    (msgType ∈ tradeTypes → body + MktDataTradeMsg.codec.size ≤ decimalStr.length)

/-- The type of a decoded string is one of an order or of a trade. -/
def supported (decimalStr : List UInt8) : Bool :=
  decimalStr[MktDataGlobalHeaderMsg.codec.size]?.any fun msgType =>
    msgType ∈ orderTypes || msgType ∈ tradeTypes

/-- The strings of the groups of three lines whose digits are bytes. -/
def decodedStrings : List (List Char) → List (List UInt8)
  | first :: second :: third :: lines =>
    match toDecimalStr (hexStr [first, second, third]) with
    | some decimalStr => decimalStr :: decodedStrings lines
    | none => decodedStrings lines
  | _ => []

/-- Those that are reached: none behind one of another type. -/
def reached : List (List UInt8) → List (List UInt8)
  | [] => []
  | decimalStr :: later => decimalStr :: if supported decimalStr then reached later else []

/-! ### One group -/

section Group

variable (beyond : Beyond) {decimalStr : List UInt8}

/-- The header, and the type behind it. -/
theorem byte_typeCopy {msgType : UInt8}
    (here : decimalStr[MktDataGlobalHeaderMsg.codec.size]? = some msgType) :
    byte.decode (StringCopy.bytes beyond ⟨decimalStr, MktDataGlobalHeaderMsg.codec.size, byte.size⟩) =
      msgType := by
  obtain ⟨inside, -⟩ := List.getElem?_eq_some_iff.mp here
  have typeInside :
      StringCopy.Inside ⟨decimalStr, MktDataGlobalHeaderMsg.codec.size, byte.size⟩ := inside
  have first : decimalStr.drop MktDataGlobalHeaderMsg.codec.size =
      msgType :: decimalStr.drop (MktDataGlobalHeaderMsg.codec.size + 1) := by
    rw [List.drop_eq_getElem_cons inside, ← (List.getElem?_eq_some_iff.mp here).2]
  rw [StringCopy.bytes_of_inside typeInside, first]
  rfl

/-- The copies of a group lie inside of its string exactly when that is long enough. -/
theorem inside_copyMktDataMsg_iff :
    (∀ copy ∈ (copyMktDataMsg beyond decimalStr).1, copy.Inside) ↔ LongEnough decimalStr := by
  cases here : decimalStr[MktDataGlobalHeaderMsg.codec.size]? with
  | none =>
    have short := List.getElem?_eq_none_iff.mp here
    refine iff_of_false (fun inside => ?_) fun ⟨_, typed, _⟩ => ?_
    · have typeInside :
          StringCopy.Inside ⟨decimalStr, MktDataGlobalHeaderMsg.codec.size, byte.size⟩ := by
        refine inside _ ?_
        unfold copyMktDataMsg
        simp only
        split_ifs <;> exact List.mem_cons_of_mem _ List.mem_cons_self
      exact absurd (Nat.lt_of_lt_of_le (Nat.lt_succ_self _) typeInside) (Nat.not_lt.mpr short)
    · rw [here] at typed
      cases typed
  | some msgType =>
    have long := (List.getElem?_eq_some_iff.mp here).1
    have headerInside : StringCopy.Inside ⟨decimalStr, 0, MktDataGlobalHeaderMsg.codec.size⟩ := by
      show 0 + _ ≤ _
      rw [Nat.zero_add]
      exact Nat.le_of_lt long
    have typeInside :
        StringCopy.Inside ⟨decimalStr, MktDataGlobalHeaderMsg.codec.size, byte.size⟩ := long
    have enough : LongEnough decimalStr ↔
        (msgType ∈ orderTypes → StringCopy.Inside ⟨decimalStr,
          MktDataGlobalHeaderMsg.codec.size + byte.size, MktDataOrderMsg.codec.size⟩) ∧
        (msgType ∈ tradeTypes → StringCopy.Inside ⟨decimalStr,
          MktDataGlobalHeaderMsg.codec.size + byte.size, MktDataTradeMsg.codec.size⟩) := by
      refine ⟨fun ⟨other, typed, bodies⟩ => ?_, fun bodies => ⟨msgType, here, bodies⟩⟩
      rw [here] at typed
      cases typed
      exact bodies
    rw [enough]
    unfold copyMktDataMsg
    simp only [byte_typeCopy beyond here]
    split_ifs with order trade
    · rw [List.forall_mem_cons, List.forall_mem_cons, List.forall_mem_singleton]
      exact ⟨fun inside => ⟨fun _ => inside.2.2, fun trade => absurd order (not_orderType trade)⟩,
        fun inside => ⟨headerInside, typeInside, inside.1 order⟩⟩
    · rw [List.forall_mem_cons, List.forall_mem_cons, List.forall_mem_singleton]
      exact ⟨fun inside => ⟨fun isOrder => absurd isOrder order, fun _ => inside.2.2⟩,
        fun inside => ⟨headerInside, typeInside, inside.2 trade⟩⟩
    · rw [List.forall_mem_cons, List.forall_mem_singleton]
      exact iff_of_true ⟨headerInside, typeInside⟩
        ⟨fun isOrder => absurd isOrder order, fun isTrade => absurd isTrade trade⟩

/-- A group that is long enough makes a message exactly when its type is supported. -/
theorem copyMktDataMsg_of_longEnough (enough : LongEnough decimalStr) :
    (supported decimalStr = true ∧ ∃ msg, (copyMktDataMsg beyond decimalStr).2 = .ok msg) ∨
      supported decimalStr = false ∧ ∃ what, (copyMktDataMsg beyond decimalStr).2 = .error what := by
  obtain ⟨msgType, here, -⟩ := enough
  have isSupported : supported decimalStr = (decide (msgType ∈ orderTypes) || msgType ∈ tradeTypes) := by
    unfold supported
    rw [here]
    rfl
  rw [isSupported]
  unfold copyMktDataMsg
  simp only [byte_typeCopy beyond here]
  split_ifs with order trade
  · exact Or.inl ⟨by rw [decide_eq_true order]; rfl, _, rfl⟩
  · exact Or.inl ⟨by rw [decide_eq_true trade, Bool.or_true], _, rfl⟩
  · exact Or.inr ⟨by rw [decide_eq_false order, decide_eq_false trade]; rfl, _, rfl⟩

/-- A value that is copied from inside of a string is read there. -/
theorem read_drop_of_inside {Value : Type} {codec : Codec Value} {offset : Nat}
    (inside : StringCopy.Inside ⟨decimalStr, offset, codec.size⟩) :
    codec.read (decimalStr.drop offset) =
      some (codec.decode (StringCopy.bytes beyond ⟨decimalStr, offset, codec.size⟩),
        (decimalStr.drop offset).drop codec.size) := by
  have bound : offset + codec.size ≤ decimalStr.length := inside
  have fits : codec.size ≤ (decimalStr.drop offset).length := by
    rw [List.length_drop]
    omega
  rw [StringCopy.bytes_of_inside inside]
  exact if_pos fits

/-- A group that is long enough makes the message that is read off the front of its string. -/
theorem toOption_copyMktDataMsg (enough : LongEnough decimalStr) :
    (copyMktDataMsg beyond decimalStr).2.toOption = mktDataMsg decimalStr := by
  have inside := (inside_copyMktDataMsg_iff beyond).mpr enough
  obtain ⟨msgType, here, -⟩ := enough
  obtain ⟨long, -⟩ := List.getElem?_eq_some_iff.mp here
  have front : (MktDataGlobalHeaderMsg.codec.prod byte).read decimalStr =
      some ((MktDataGlobalHeaderMsg.codec.decode
          (StringCopy.bytes beyond ⟨decimalStr, 0, MktDataGlobalHeaderMsg.codec.size⟩), msgType),
        decimalStr.drop (MktDataGlobalHeaderMsg.codec.size + byte.size)) := by
    have headerInside : StringCopy.Inside ⟨decimalStr, 0, MktDataGlobalHeaderMsg.codec.size⟩ := by
      show 0 + _ ≤ _
      rw [Nat.zero_add]
      exact Nat.le_of_lt long
    have typeInside :
        StringCopy.Inside ⟨decimalStr, MktDataGlobalHeaderMsg.codec.size, byte.size⟩ := long
    have typed := byte_typeCopy beyond here
    rw [StringCopy.bytes_of_inside typeInside] at typed
    rw [StringCopy.bytes_of_inside headerInside, ← typed]
    unfold Codec.read
    rw [if_pos (show (MktDataGlobalHeaderMsg.codec.prod byte).size ≤ _ from long)]
    simp only [Codec.prod, List.take_take, List.drop_take, List.drop_zero]
    rfl
  unfold mktDataMsg
  rw [front]
  unfold copyMktDataMsg at inside ⊢
  simp only [byte_typeCopy beyond here] at inside ⊢
  split_ifs at inside ⊢ with order trade
  · have bodyInside := inside _ (List.mem_cons_of_mem _ (List.mem_cons_of_mem _ List.mem_cons_self))
    rw [read_drop_of_inside beyond bodyInside]
    rfl
  · have bodyInside := inside _ (List.mem_cons_of_mem _ (List.mem_cons_of_mem _ List.mem_cons_self))
    rw [read_drop_of_inside beyond bodyInside]
    rfl
  · rfl

end Group

/-! ### Files -/

/-- The digits of three lines, as the loop collects them. -/
theorem hexStr_three (first second third : List Char) :
    hexStr [first, second, third] =
      ((([] ++ (regexMatch first).getD []) ++ (regexMatch second).getD []) ++
        (regexMatch third).getD []).filter fun c => !isspace c := by
  unfold hexStr
  simp only [List.flatMap_cons, List.flatMap_nil, List.nil_append, List.append_nil,
    List.append_assoc]

section Files

variable {Generator : Type} (add : Generator → TypeMktDataPair → Generator) (beyond : Beyond)

/-- A line that does not end a group adds its digits. -/
theorem lines_of_not_third {reading : Reading Generator} (notThird : reading.count + 1 ≠ 3)
    (text : List Char) (texts : List (List Char)) :
    reading.lines add beyond (text :: texts) =
      Reading.lines add beyond
        { reading with
          dataPacketStr := reading.dataPacketStr ++ (regexMatch text).getD []
          count := reading.count + 1 } texts := by
  rw [Reading.lines, Reading.line]
  simp only [if_neg notThird, List.nil_append]

/-- What three lines come to: the copies of their group and of the lines behind it. -/
theorem lines_group (generator : Generator) (first second third : List Char)
    (texts : List (List Char)) :
    Reading.lines add beyond { generator } (first :: second :: third :: texts) =
      match toDecimalStr (hexStr [first, second, third]) with
      | some decimalStr =>
        match (copyMktDataMsg beyond decimalStr).2 with
        | .error what => ((copyMktDataMsg beyond decimalStr).1, .error what)
        | .ok msg =>
          ((copyMktDataMsg beyond decimalStr).1 ++
              (Reading.lines add beyond { generator := add generator msg } texts).1,
            (Reading.lines add beyond { generator := add generator msg } texts).2)
      | none => Reading.lines add beyond { generator } texts := by
  have first_ne : (0 : Nat) + 1 ≠ 3 := by decide
  have second_ne : (1 : Nat) + 1 ≠ 3 := by decide
  rw [lines_of_not_third add beyond first_ne, lines_of_not_third add beyond second_ne, Reading.lines,
    Reading.line, hexStr_three]
  simp only [if_pos]
  cases toDecimalStr _ with
  | none => rfl
  | some decimalStr =>
    dsimp only
    cases (copyMktDataMsg beyond decimalStr).2 <;> rfl

/-- The copies of a file all lie inside of their strings exactly when every group that is reached is
long enough. -/
theorem inside_lines_iff (texts : List (List Char)) (generator : Generator) :
    (∀ copy ∈ (Reading.lines add beyond { generator } texts).1, copy.Inside) ↔
      ∀ decimalStr ∈ reached (decodedStrings texts), LongEnough decimalStr := by
  induction texts using decodedStrings.induct generalizing generator with
  | case1 first second third texts decimalStr bytes inductionHypothesis =>
    rw [lines_group, decodedStrings, bytes]
    simp only [reached]
    rw [List.forall_mem_cons, ← inside_copyMktDataMsg_iff beyond]
    by_cases enough : ∀ copy ∈ (copyMktDataMsg beyond decimalStr).1, copy.Inside
    · rcases copyMktDataMsg_of_longEnough beyond ((inside_copyMktDataMsg_iff beyond).mp enough) with
        ⟨typed, msg, makes⟩ | ⟨other, what, throws⟩
      · rw [makes, if_pos typed]
        simp only [List.forall_mem_append, inductionHypothesis]
      · rw [throws, if_neg (by rw [other]; decide)]
        exact iff_of_true enough ⟨enough, nofun⟩
    · refine iff_of_false (fun inside => enough fun copy member => inside copy ?_) fun both => enough both.1
      cases (copyMktDataMsg beyond decimalStr).2 with
      | error => exact member
      | ok => exact List.mem_append_left _ member
  | case2 first second third texts skipped inductionHypothesis =>
    rw [lines_group, decodedStrings, skipped]
    exact inductionHypothesis generator
  | case3 texts few =>
    match texts with
    | [] | [_] | [_, _] => exact iff_of_true nofun nofun
    | first :: second :: third :: rest => exact absurd rfl (few first second third rest)

end Files

/-! ### The publisher's messages -/

/-- Three lines that are read off the front of their string. -/
theorem foldlM_lines (generator : OrderGenerator) (first second third : List Char)
    (texts : List (List Char)) :
    (first :: second :: third :: texts).foldlM OrderGenerator.Parse.line { generator } =
      match toDecimalStr (hexStr [first, second, third]) with
      | some decimalStr =>
        (mktDataMsg decimalStr).bind fun msg =>
          texts.foldlM OrderGenerator.Parse.line { generator := generator.add msg }
      | none => texts.foldlM OrderGenerator.Parse.line { generator } := by
  have first_ne : (0 : Nat) + 1 ≠ 3 := by decide
  have second_ne : (1 : Nat) + 1 ≠ 3 := by decide
  rw [List.foldlM_cons, OrderGenerator.line_of_not_third first_ne, Option.bind_eq_bind,
    Option.bind_some, List.foldlM_cons, OrderGenerator.line_of_not_third second_ne,
    Option.bind_eq_bind, Option.bind_some, List.foldlM_cons, OrderGenerator.Parse.line,
    hexStr_three]
  simp only [if_pos]
  cases toDecimalStr _ with
  | none => rfl
  | some decimalStr =>
    dsimp only
    cases mktDataMsg decimalStr <;> rfl

/-- Where every group is long enough, the generator is the one of the messages read off the front. -/
theorem toOption_publisherOrderGenerator (beyond : Beyond) {texts : List (List Char)}
    (enough : ∀ decimalStr ∈ reached (decodedStrings texts), LongEnough decimalStr)
    (generator : OrderGenerator) :
    (Reading.lines OrderGenerator.add beyond { generator } texts).2.toOption =
      (texts.foldlM OrderGenerator.Parse.line { generator }).map OrderGenerator.Parse.generator := by
  induction texts using decodedStrings.induct generalizing generator with
  | case1 first second third texts decimalStr bytes inductionHypothesis =>
    rw [decodedStrings, bytes] at enough
    obtain ⟨here, later⟩ := List.forall_mem_cons.mp enough
    rw [lines_group, foldlM_lines, bytes]
    dsimp only
    rw [← toOption_copyMktDataMsg beyond here]
    rcases copyMktDataMsg_of_longEnough beyond here with ⟨typed, msg, makes⟩ | ⟨-, what, throws⟩
    · rw [if_pos typed] at later
      rw [makes]
      exact inductionHypothesis later _
    · rw [throws]
      rfl
  | case2 first second third texts skipped inductionHypothesis =>
    rw [decodedStrings, skipped] at enough
    rw [lines_group, foldlM_lines, skipped]
    exact inductionHypothesis enough generator
  | case3 texts few =>
    match texts with
    | [] | [_] | [_, _] => rfl
    | first :: second :: third :: rest => exact absurd rfl (few first second third rest)

/-- Both constructors copy from inside of the decoded strings only exactly when every group that is
reached decodes to a header, a type and the body of that type. -/
theorem copies_inside_iff (beyond : Beyond) (lines : List (List Char)) :
    ((∀ copy ∈ (storeOrderGenerator beyond lines).1, copy.Inside) ↔
      ∀ decimalStr ∈ reached (decodedStrings lines), LongEnough decimalStr) ∧
    ((∀ copy ∈ (publisherOrderGenerator beyond lines).1, copy.Inside) ↔
      ∀ decimalStr ∈ reached (decodedStrings lines), LongEnough decimalStr) :=
  ⟨inside_lines_iff _ beyond lines _, inside_lines_iff _ beyond lines _⟩

/-- Three lines without digits decode to the empty string, and eight bytes of it are copied. -/
theorem empty_group_is_copied :
    ¬ ∀ (beyond : Beyond) (lines : List (List Char)),
      (∀ copy ∈ (storeOrderGenerator beyond lines).1, copy.Inside) ∧
        ∀ copy ∈ (publisherOrderGenerator beyond lines).1, copy.Inside := by
  intro claim
  have long := (inside_lines_iff _ (fun _ _ => 0) [[], [], []] _).mp (claim _ _).1
  obtain ⟨msgType, here, -⟩ := long [] (by decide +kernel)
  cases here

end ObLib
