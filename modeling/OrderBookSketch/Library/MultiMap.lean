/-
This file is a multimap kept as a list of nodes in the order of their keys: what the
ordered multimap of C++ is to the code that keeps iterators into it.

A node has a handle, which an iterator to it holds and which no other node gets; a new
node is placed behind the nodes with its key. So nodes are in the order of their keys,
and nodes with one key in the order they were made. An iterator to an erased node
reaches nothing, and what is done with it has no result.
-/

import OrderBookSketch.Library.Ledger
import Mathlib.Order.RelClasses

namespace Containers

open Ledgers

/-- A node of a multimap. -/
structure Node (Key Value : Type) where
  handle : Nat
  key : Key
  value : Value
deriving DecidableEq, Repr

/-- A node is in front of another when its key is, or when they share a key and it is older. -/
def Node.InFront {Key Value : Type} (before : Key → Key → Prop) (first second : Node Key Value) :
    Prop :=
  before first.key second.key ∨ first.key = second.key ∧ first.handle < second.handle

/-- A list of nodes in order, and the handle of the next node. -/
structure MultiMap (Key Value : Type) (before : Key → Key → Prop) where
  nodes : List (Node Key Value)
  fresh : Nat
  sorted : nodes.Pairwise (Node.InFront before)
  older : ∀ node ∈ nodes, node.handle < fresh
  distinct : Distinct Node.handle nodes

namespace MultiMap

variable {Key Value : Type} {before : Key → Key → Prop}

/-- The map with no nodes. -/
def empty : MultiMap Key Value before where
  nodes := []
  fresh := 0
  sorted := .nil
  older := by simp
  distinct := List.nodup_nil

/-! ### Operations -/

/-- The value an iterator points to. -/
def find (map : MultiMap Key Value before) (handle : Nat) : Option Value :=
  (recordOf Node.handle map.nodes handle).map Node.value

/-- Removes the node an iterator points to. -/
def erase (map : MultiMap Key Value before) (handle : Nat) : Option (MultiMap Key Value before) :=
  match recordOf Node.handle map.nodes handle with
  | none => none
  | some _ =>
    some
      { nodes := without Node.handle map.nodes handle
        fresh := map.fresh
        sorted := map.sorted.filter _
        older := fun node member => map.older node (List.mem_filter.mp member).1
        distinct := distinct_without map.distinct handle }

/-- Rewrites the value an iterator points to. -/
def write (map : MultiMap Key Value before) (handle : Nat) (value : Value) :
    MultiMap Key Value before where
  nodes := map.nodes.map fun node =>
    if node.handle = handle then { node with value := value } else node
  fresh := map.fresh
  sorted := by
    refine List.pairwise_map.mpr (map.sorted.imp fun {first second} inFront => ?_)
    split_ifs <;> exact inFront
  older := by
    intro node member
    obtain ⟨old, inMap, rfl⟩ := List.mem_map.mp member
    have bound := map.older old inMap
    split_ifs <;> exact bound
  distinct := by
    have same : (map.nodes.map fun node =>
        if node.handle = handle then { node with value := value } else node).map Node.handle =
          map.nodes.map Node.handle := by
      rw [List.map_map]
      refine List.map_congr_left fun node _ => ?_
      show Node.handle (if _ then _ else _) = _
      split_ifs <;> rfl
    unfold Distinct
    rw [same]
    exact map.distinct

/-! ### Iterators to a node of the map -/

section Iterators

variable {map : MultiMap Key Value before}

theorem find_eq_some {node : Node Key Value} (member : node ∈ map.nodes) :
    map.find node.handle = some node.value := by
  rw [find, (recordOf_eq_some_iff map.distinct).mpr ⟨member, rfl⟩]
  rfl

theorem erase_eq_some {node : Node Key Value} (member : node ∈ map.nodes) :
    ∃ erased, map.erase node.handle = some erased ∧ erased.fresh = map.fresh ∧
      map.nodes.Perm (node :: erased.nodes) := by
  have found := (recordOf_eq_some_iff map.distinct).mpr ⟨member, rfl⟩
  unfold erase
  rw [found]
  exact ⟨_, rfl, rfl, perm_cons_without map.distinct found⟩

theorem write_perm {node : Node Key Value} (member : node ∈ map.nodes) (value : Value) :
    ∃ others, map.nodes.Perm (node :: others) ∧
      (map.write node.handle value).nodes.Perm ({ node with value := value } :: others) := by
  have found := (recordOf_eq_some_iff map.distinct).mpr ⟨member, rfl⟩
  refine ⟨_, perm_cons_without map.distinct found, ?_⟩
  refine (List.Perm.of_eq ?_).trans
    (perm_map_replace map.distinct found { node with value := value })
  refine List.map_congr_left fun other otherMember => ?_
  by_cases same : other.handle = node.handle
  · rw [if_pos same, if_pos same,
      List.inj_on_of_nodup_map map.distinct otherMember member same]
  · rw [if_neg same, if_neg same]

theorem ext_nodes {other : MultiMap Key Value before} (nodes : map.nodes = other.nodes)
    (fresh : map.fresh = other.fresh) : map = other := by
  cases map
  cases other
  congr

theorem find_write {node : Node Key Value} (member : node ∈ map.nodes) (value : Value) :
    (map.write node.handle value).find node.handle = some value := by
  have written : { node with value := value } ∈ (map.write node.handle value).nodes :=
    List.mem_map.mpr ⟨node, member, if_pos rfl⟩
  exact find_eq_some written

/-- Writing the value that is there changes nothing. -/
theorem write_self {node : Node Key Value} (member : node ∈ map.nodes) :
    map.write node.handle node.value = map := by
  refine ext_nodes ((List.map_congr_left fun other otherMember => ?_).trans (List.map_id _)) rfl
  show _ = other
  split_ifs with same
  · have one := find_eq_some otherMember
    rw [same, find_eq_some member] at one
    rw [Option.some.inj one]
  · rfl

end Iterators

/-! ### New nodes -/

variable [DecidableRel before]

/-- The nodes with a new one, behind every node whose key is not after its key. -/
def place (nodes : List (Node Key Value)) (node : Node Key Value)
    (before : Key → Key → Prop) [DecidableRel before] : List (Node Key Value) :=
  nodes.filter (fun other => ¬ before node.key other.key) ++
    node :: nodes.filter fun other => before node.key other.key

theorem place_perm (nodes : List (Node Key Value)) (node : Node Key Value) :
    (place nodes node before).Perm (node :: nodes) := by
  refine List.perm_middle.trans (List.Perm.cons _ ?_)
  have halves := List.filter_append_perm (fun other => decide (¬ before node.key other.key)) nodes
  simpa using halves

/-- The nodes from the first whose key is after the given one. -/
def upperBound (map : MultiMap Key Value before) (key : Key) : List (Node Key Value) :=
  map.nodes.dropWhile fun node => ¬ before key node.key

/-- The nodes with the given key: those from the first whose key is not before it. -/
def equalRange (map : MultiMap Key Value before) (key : Key) : List (Node Key Value) :=
  (map.nodes.dropWhile fun node => before node.key key).takeWhile fun node => ¬ before key node.key

variable [IsStrictTotalOrder Key before]

/-- Adds a node; the iterator to it is its handle. -/
def emplace (map : MultiMap Key Value before) (key : Key) (value : Value) :
    MultiMap Key Value before × Nat :=
  ({ nodes := place map.nodes ⟨map.fresh, key, value⟩ before
     fresh := map.fresh + 1
     sorted := by
      have notAfter {other : Node Key Value} (later : ¬ before key other.key) :
          before other.key key ∨ other.key = key := by
        rcases trichotomous_of before key other.key with after | same | earlier
        · exact absurd after later
        · exact .inr same.symm
        · exact .inl earlier
      refine List.pairwise_append.mpr ⟨map.sorted.filter _,
        List.pairwise_cons.mpr ⟨?_, map.sorted.filter _⟩, ?_⟩
      · intro other member
        exact .inl (by simpa using (List.mem_filter.mp member).2)
      · intro first firstMember second secondMember
        obtain ⟨inMap, later⟩ := List.mem_filter.mp firstMember
        have firstNotAfter := notAfter (by simpa using later)
        rcases List.mem_cons.mp secondMember with rfl | afterwards
        · exact firstNotAfter.imp_right fun same => ⟨same, map.older first inMap⟩
        · have secondAfter : before key second.key := by
            simpa using (List.mem_filter.mp afterwards).2
          rcases firstNotAfter with earlier | same
          · exact .inl (trans_of before earlier secondAfter)
          · exact .inl (same ▸ secondAfter)
     older := by
      intro node member
      rcases List.mem_cons.mp ((place_perm ..).mem_iff.mp member) with rfl | old
      · exact Nat.lt_succ_self _
      · exact Nat.lt_succ_of_lt (map.older node old)
     distinct := by
      refine (List.Perm.nodup_iff ((place_perm ..).map _)).mpr (distinct_cons map.distinct ?_)
      exact recordOf_eq_none_iff.mpr fun node member => Nat.ne_of_lt (map.older node member) },
    map.fresh)

theorem emplace_perm (map : MultiMap Key Value before) (key : Key) (value : Value) :
    (map.emplace key value).1.nodes.Perm (⟨map.fresh, key, value⟩ :: map.nodes) :=
  place_perm ..

/-! ### Ranges of keys -/

/-- On a list in which a property never comes back once it is lost, the first elements with the
property are all the elements with it. -/
theorem takeWhile_eq_filter {Element : Type} {property : Element → Bool} {elements : List Element}
    (lost : elements.Pairwise fun first second => property second → property first) :
    elements.takeWhile property = elements.filter property := by
  induction elements with
  | nil => rfl
  | cons first rest inductionHypothesis =>
    obtain ⟨head, tail⟩ := List.pairwise_cons.mp lost
    by_cases here : property first
    · rw [List.takeWhile_cons_of_pos here, List.filter_cons_of_pos here, inductionHypothesis tail]
    · rw [List.takeWhile_cons_of_neg here, List.filter_cons_of_neg here]
      exact (List.filter_eq_nil_iff.mpr fun second member held => here (head second member held)).symm

theorem dropWhile_eq_filter {Element : Type} {property : Element → Bool} {elements : List Element}
    (lost : elements.Pairwise fun first second => property second → property first) :
    elements.dropWhile property = elements.filter fun element => !property element := by
  induction elements with
  | nil => rfl
  | cons first rest inductionHypothesis =>
    obtain ⟨head, tail⟩ := List.pairwise_cons.mp lost
    by_cases here : property first
    · rw [List.dropWhile_cons_of_pos here, List.filter_cons_of_neg (by simp [here]),
        inductionHypothesis tail]
    · rw [List.dropWhile_cons_of_neg here]
      refine (List.filter_eq_self.mpr fun second member => ?_).symm
      rcases List.mem_cons.mp member with rfl | later
      · simpa using here
      · simpa using fun held => here (head second later held)

theorem upperBound_eq (map : MultiMap Key Value before) (key : Key) :
    map.upperBound key = map.nodes.filter fun node => before key node.key := by
  rw [upperBound, dropWhile_eq_filter]
  · simp
  · refine map.sorted.imp fun {first second} inFront notAfter => ?_
    simp only [decide_eq_true_eq] at notAfter ⊢
    rcases inFront with earlier | ⟨same, -⟩
    · exact fun after => notAfter (trans_of before after earlier)
    · exact same ▸ notAfter

theorem equalRange_eq [DecidableEq Key] (map : MultiMap Key Value before) (key : Key) :
    map.equalRange key = map.nodes.filter fun node => node.key = key := by
  have sameKey (node : Node Key Value) :
      (¬ before key node.key ∧ ¬ before node.key key) ↔ node.key = key := by
    constructor
    · rintro ⟨notAfter, notBefore⟩
      rcases trichotomous_of before key node.key with after | same | earlier
      · exact absurd after notAfter
      · exact same.symm
      · exact absurd earlier notBefore
    · rintro rfl
      exact ⟨irrefl_of before _, irrefl_of before _⟩
  rw [equalRange, dropWhile_eq_filter, takeWhile_eq_filter, List.filter_filter]
  · refine List.filter_congr fun node _ => ?_
    simp [← sameKey]
  · refine (map.sorted.filter _).imp fun {first second} inFront notAfter => ?_
    simp only [decide_eq_true_eq] at notAfter ⊢
    rcases inFront with earlier | ⟨same, -⟩
    · exact fun after => notAfter (trans_of before after earlier)
    · exact same ▸ notAfter
  · refine map.sorted.imp fun {first second} inFront isBefore => ?_
    simp only [decide_eq_true_eq] at isBefore ⊢
    rcases inFront with earlier | ⟨same, -⟩
    · exact trans_of before earlier isBefore
    · exact same ▸ isBefore

/-! ### The ranges of several keys -/

omit [DecidableRel before] in
/-- The nodes at the first of some keys in order are in front of those at the others. -/
theorem filter_mem_cons [DecidableEq Key] {nodes : List (Node Key Value)}
    (sorted : nodes.Pairwise (Node.InFront before)) {key : Key} {later : List Key}
    (behind : ∀ other ∈ later, before key other) :
    (nodes.filter fun node => node.key ∈ key :: later) =
      (nodes.filter fun node => node.key = key) ++ nodes.filter fun node => node.key ∈ later := by
  induction nodes with
  | nil => rfl
  | cons node nodes inductionHypothesis =>
    obtain ⟨inFront, sorted⟩ := List.pairwise_cons.mp sorted
    by_cases here : node.key = key
    · have gone : node.key ∉ later := fun known => irrefl_of before key (behind key (here ▸ known))
      rw [List.filter_cons_of_pos (by simp [here]), List.filter_cons_of_pos (by simp [here]),
        List.filter_cons_of_neg (by simpa using gone), inductionHypothesis sorted, List.cons_append]
    · by_cases known : node.key ∈ later
      · -- no node behind one at a later key is at the first key
        have after : before key node.key := behind node.key known
        have none : (nodes.filter fun other => other.key = key) = [] := by
          refine List.filter_eq_nil_iff.mpr fun other member same => ?_
          have sameKey : other.key = key := by simpa using same
          rcases inFront other member with earlier | ⟨equal, -⟩
          · exact asymm_of before after (sameKey ▸ earlier)
          · exact here (equal.trans sameKey)
        rw [List.filter_cons_of_pos (by simp [known]), List.filter_cons_of_neg (by simpa using here),
          List.filter_cons_of_pos (by simpa using known), inductionHypothesis sorted, none]
        rfl
      · rw [List.filter_cons_of_neg (by simp [here, known]),
          List.filter_cons_of_neg (by simpa using here),
          List.filter_cons_of_neg (by simpa using known), inductionHypothesis sorted]

/-- The equal ranges of some keys in order are all the nodes at these keys. -/
theorem flatMap_equalRange [DecidableEq Key] (map : MultiMap Key Value before) {keys : List Key}
    (sorted : keys.Pairwise before) :
    keys.flatMap map.equalRange = map.nodes.filter fun node => node.key ∈ keys := by
  induction keys with
  | nil => simp
  | cons key later inductionHypothesis =>
    obtain ⟨behind, sorted⟩ := List.pairwise_cons.mp sorted
    rw [List.flatMap_cons, inductionHypothesis sorted, equalRange_eq, filter_mem_cons map.sorted behind]

end MultiMap

end Containers
