/-
This file is about singly linked chains of nodes in a memory: a head, a link from each
node to the next and no link from the last one.

The memory is a function from addresses to links, so a write is an update of it. What
such a chain holds is the list of its nodes; the list is determined by the head, and
no node comes twice in it, as the chain would not end otherwise. A queue also has a
pointer to its last node, behind which nodes are appended.
-/

import Mathlib.Data.List.Basic
import Mathlib.Logic.Function.Basic

namespace Chains

variable {Address : Type} {next other : Address → Option Address} {head : Option Address}
  {nodes : List Address} {node last : Address}

/-- The links lead from the head over the nodes and then to nothing. -/
def Linked (next : Address → Option Address) : Option Address → List Address → Prop
  | head, [] => head = none
  | head, node :: nodes => head = some node ∧ Linked next (next node) nodes

/-- The nodes that the links lead to in the given number of steps. -/
def follow (next : Address → Option Address) : Nat → Option Address → List Address
  | 0, _ => []
  | _ + 1, none => []
  | steps + 1, some node => node :: follow next steps (next node)

/-! ### The nodes of a chain -/

theorem Linked.follow_eq (linked : Linked next head nodes) {steps : Nat}
    (enough : nodes.length ≤ steps) : follow next steps head = nodes := by
  induction nodes generalizing head steps with
  | nil =>
    obtain rfl := linked
    cases steps <;> rfl
  | cons node nodes inductionHypothesis =>
    obtain ⟨rfl, rest⟩ := linked
    cases steps with
    | zero => cases enough
    | succ steps =>
      rw [follow, inductionHypothesis rest (Nat.le_of_succ_le_succ enough)]

/-- A head has one chain. -/
theorem Linked.unique {others : List Address} (linked : Linked next head nodes)
    (linkedOther : Linked next head others) : nodes = others := by
  have followed := linked.follow_eq (Nat.le_max_left nodes.length others.length)
  have followedOther := linkedOther.follow_eq (Nat.le_max_right nodes.length others.length)
  exact followed.symm.trans followedOther

theorem Linked.head_eq (linked : Linked next head nodes) : head = nodes.head? := by
  cases nodes with
  | nil => exact linked
  | cons => exact linked.1

/-- The chain of a node in a chain is what is left of it. -/
theorem Linked.suffix {front : List Address} (linked : Linked next head (front ++ nodes)) :
    Linked next nodes.head? nodes := by
  induction front generalizing head with
  | nil =>
    have start := linked.head_eq
    exact start ▸ linked
  | cons first front inductionHypothesis => exact inductionHypothesis linked.2

/-- No node comes twice. -/
theorem Linked.nodup (linked : Linked next head nodes) : nodes.Nodup := by
  induction nodes generalizing head with
  | nil => exact .nil
  | cons node nodes inductionHypothesis =>
    refine List.nodup_cons.mpr ⟨fun again => ?_, inductionHypothesis linked.2⟩
    -- the chain behind the node would be a part of itself
    obtain ⟨front, back, rfl⟩ := List.append_of_mem again
    have behind : Linked next (next node) back := linked.2.suffix.2
    have lengths := congrArg List.length (linked.2.unique behind)
    rw [List.length_append, List.length_cons] at lengths
    omega

theorem Linked.next_last (linked : Linked next head nodes) (isLast : nodes.getLast? = some last) :
    next last = none := by
  obtain ⟨front, rfl⟩ := List.getLast?_eq_some_iff.mp isLast
  exact linked.suffix.2

/-- A link of a node in a chain leads to a node in it. -/
theorem Linked.next_mem {after : Address} (linked : Linked next head nodes) (member : node ∈ nodes)
    (isNext : next node = some after) : after ∈ nodes := by
  obtain ⟨front, back, rfl⟩ := List.append_of_mem member
  have behind : Linked next (next node) back := linked.suffix.2
  rw [isNext] at behind
  match back, behind with
  | [], behind => cases behind
  | _ :: _, behind =>
    obtain rfl := Option.some.inj behind.1
    exact List.mem_append_right _ (List.mem_cons_of_mem _ List.mem_cons_self)

/-- The link of a node leads to the one behind it in the chain. -/
theorem Linked.next_eq_getElem? {index : Nat} (linked : Linked next head nodes)
    (isThere : nodes[index]? = some node) : next node = nodes[index + 1]? := by
  induction nodes generalizing head index with
  | nil => cases isThere
  | cons first nodes inductionHypothesis =>
    cases index with
    | zero =>
      obtain rfl := Option.some.inj isThere
      rw [List.getElem?_cons_succ, ← List.head?_eq_getElem?]
      exact linked.2.head_eq
    | succ index => exact inductionHypothesis linked.2 isThere

/-- What is written in the one memory is written in the other. -/
def Extends {Content : Type} (memory other : Address → Option Content) : Prop :=
  ∀ address content, memory address = some content → other address = some content

theorem Extends.refl {Content : Type} (memory : Address → Option Content) :
    Extends memory memory := fun _ _ same => same

/-- A write where nothing is written. -/
theorem Extends.update [DecidableEq Address] {Content : Type} {memory : Address → Option Content}
    {address : Address} (unset : memory address = none) (content : Option Content) :
    Extends memory (Function.update memory address content) := by
  intro other stored same
  have different : other ≠ address := fun isHere => by
    rw [isHere, unset] at same
    cases same
  rwa [Function.update_of_ne different]

/-! ### Writes -/

/-- A chain does not depend on the links of other nodes. -/
theorem Linked.congr (linked : Linked next head nodes)
    (same : ∀ node ∈ nodes, other node = next node) : Linked other head nodes := by
  induction nodes generalizing head with
  | nil => exact linked
  | cons node nodes inductionHypothesis =>
    refine ⟨linked.1, ?_⟩
    rw [same node List.mem_cons_self]
    exact inductionHypothesis linked.2 fun node member => same node (List.mem_cons_of_mem _ member)

theorem Linked.update [DecidableEq Address] (linked : Linked next head nodes)
    (absent : node ∉ nodes) (after : Option Address) :
    Linked (Function.update next node after) head nodes :=
  linked.congr fun _ member =>
    Function.update_of_ne (ne_of_mem_of_not_mem member absent) after next

/-- A node is appended by a link from the last one. -/
theorem Linked.append (linked : Linked next head nodes) (isLast : nodes.getLast? = some last)
    (joins : other last = some node) (ends : other node = none)
    (same : ∀ member ∈ nodes, member ≠ last → other member = next member) :
    Linked other head (nodes ++ [node]) := by
  have distinct := linked.nodup
  obtain ⟨front, rfl⟩ := List.getLast?_eq_some_iff.mp isLast
  induction front generalizing head with
  | nil => exact ⟨linked.1, joins, ends⟩
  | cons first front inductionHypothesis =>
    obtain ⟨absent, distinct⟩ := List.nodup_cons.mp distinct
    have notLast : first ≠ last := fun isLast => absent (by simp [isLast])
    refine ⟨linked.1, ?_⟩
    rw [same first List.mem_cons_self notLast]
    exact inductionHypothesis linked.2 (by simp)
      (fun member inRest => same member (List.mem_cons_of_mem _ inRest)) distinct

/-- A node that is linked in the place of the last one leaves a chain as long as it was. -/
theorem Linked.replace_last {before : Address} (linked : Linked next head nodes)
    (isNext : next before = some last) (isLast : next last = none) (joins : other before = some node)
    (ends : other node = none) (same : ∀ member ∈ nodes, member ≠ before → other member = next member) :
    ∃ others, Linked other head others ∧ others.length = nodes.length := by
  induction nodes generalizing head with
  | nil => exact ⟨[], linked, rfl⟩
  | cons first rest inductionHypothesis =>
    obtain ⟨isHead, behind⟩ := linked
    by_cases here : first = before
    · subst here
      have single : Linked next (next first) [last] := ⟨isNext, isLast⟩
      obtain rfl := behind.unique single
      exact ⟨[first, node], ⟨isHead, joins, ends⟩, rfl⟩
    · obtain ⟨others, linkedOther, long⟩ := inductionHypothesis behind fun member inRest =>
        same member (List.mem_cons_of_mem _ inRest)
      refine ⟨first :: others, ⟨isHead, ?_⟩, congrArg Nat.succ long⟩
      rwa [same first List.mem_cons_self here]

/-! ### Queues -/

/-- A chain with a pointer to its last node. -/
structure Queue (next : Address → Option Address) (head tail : Option Address)
    (nodes : List Address) : Prop where
  linked : Linked next head nodes
  last : nodes.getLast? = tail

namespace Queue

variable {tail : Option Address} {first second : Address}

theorem congr (queue : Queue next head tail nodes)
    (same : ∀ node ∈ nodes, other node = next node) : Queue other head tail nodes :=
  ⟨queue.linked.congr same, queue.last⟩

/-- The tail of a chain with nodes is one of them. -/
theorem exists_last (queue : Queue next head tail nodes) (some : nodes ≠ []) :
    ∃ last ∈ nodes, tail = .some last :=
  ⟨nodes.getLast some, List.getLast_mem some,
    queue.last.symm.trans (List.getLast?_eq_some_getLast some)⟩

theorem append (queue : Queue next head (some last) nodes) (joins : other last = some node)
    (ends : other node = none)
    (same : ∀ member ∈ nodes, member ≠ last → other member = next member) :
    Queue other head (some node) (nodes ++ [node]) :=
  ⟨queue.linked.append queue.last joins ends same, by simp⟩

/-- The first of two or more nodes is taken off. -/
theorem tail_of_cons (queue : Queue next head tail (first :: second :: nodes)) :
    Queue next (next first) tail (second :: nodes) :=
  ⟨queue.linked.2, by rw [← queue.last, List.getLast?_cons_cons]⟩

end Queue

/-! ### Values -/

section Values

variable {Value : Type} {value other : Address → Option Value} {vals : List Value} {val : Value}

/-- The nodes carry the values, in their order. -/
def Carries (value : Address → Option Value) (nodes : List Address) (vals : List Value) : Prop :=
  nodes.map value = vals.map some

theorem Carries.length_eq (carries : Carries value nodes vals) : nodes.length = vals.length := by
  have lengths := congrArg List.length carries
  rwa [List.length_map, List.length_map] at lengths

/-- What other nodes carry does not matter. -/
theorem Carries.congr (carries : Carries value nodes vals)
    (same : ∀ node ∈ nodes, other node = value node) : Carries other nodes vals :=
  (List.map_congr_left same).trans carries

/-- A node with a value is appended. -/
theorem Carries.append (carries : Carries value nodes vals) (stored : value node = some val) :
    Carries value (nodes ++ [node]) (vals ++ [val]) := by
  unfold Carries
  rw [List.map_append, List.map_append, carries, List.map_singleton, stored, List.map_singleton]

theorem Carries.of_cons (carries : Carries value (node :: nodes) (val :: vals)) :
    value node = some val ∧ Carries value nodes vals := List.cons.inj carries

/-- A node carries the value at its place. -/
theorem Carries.value_eq_getElem? {index : Nat} (carries : Carries value nodes vals)
    (isThere : nodes[index]? = some node) : value node = vals[index]? := by
  have same := congrArg (fun list : List (Option Value) => list[index]?) carries
  simp only [List.getElem?_map, isThere, Option.map_some] at same
  cases found : vals[index]? with
  | none => rw [found] at same; cases same
  | some val =>
    rw [found] at same
    exact Option.some.inj same

end Values

end Chains
