/-
This file is about chains of nodes whose links are not all written yet.

A thread that appends a node takes the tail in one step and writes the link from the old
tail in a later one, and between the two steps others may append more nodes or take the
first ones. So the order of the nodes is that of the tails, and between two neighbours
there is either a link or a gap, which is the pair of nodes that a thread has yet to
link. The last node has no link.
-/

import OrderBookSketch.Library.Chain
import Mathlib.Data.Multiset.AddSub

namespace Chains

variable {Address : Type} {next other : Address → Option Address} {node after last : Address}
  {nodes : List Address} {gaps : Multiset (Address × Address)}

/-- The nodes are linked in their order except for the gaps. -/
inductive Gapped (next : Address → Option Address) :
    Multiset (Address × Address) → List Address → Prop
  | last {node : Address} (ends : next node = none) : Gapped next 0 [node]
  | link {gaps : Multiset (Address × Address)} {node after : Address} {nodes : List Address}
      (joins : next node = some after) (rest : Gapped next gaps (after :: nodes)) :
      Gapped next gaps (node :: after :: nodes)
  | gap {gaps : Multiset (Address × Address)} {node after : Address} {nodes : List Address}
      (ends : next node = none) (rest : Gapped next gaps (after :: nodes)) :
      Gapped next ((node, after) ::ₘ gaps) (node :: after :: nodes)

namespace Gapped

/-- Without gaps the nodes are a chain. -/
theorem linked (gapped : Gapped next 0 nodes) : Linked next nodes.head? nodes := by
  generalize none : (0 : Multiset (Address × Address)) = gaps at gapped
  induction gapped with
  | last ends => exact ⟨rfl, ends⟩
  | link joins rest inductionHypothesis => exact ⟨rfl, joins ▸ inductionHypothesis none⟩
  | gap => exact (Multiset.zero_ne_cons none).elim

theorem of_linked {first : Address} (linked : Linked next (some first) (first :: nodes)) :
    Gapped next 0 (first :: nodes) := by
  induction nodes generalizing first with
  | nil => exact .last linked.2
  | cons second nodes inductionHypothesis =>
    have joins : next first = some second := linked.2.1
    exact .link joins (inductionHypothesis (joins ▸ linked.2))

/-- The links of other nodes do not matter. -/
theorem congr (gapped : Gapped next gaps nodes) (same : ∀ node ∈ nodes, other node = next node) :
    Gapped other gaps nodes := by
  induction gapped with
  | last ends => exact .last ((same _ List.mem_cons_self).trans ends)
  | link joins rest inductionHypothesis =>
    exact .link ((same _ List.mem_cons_self).trans joins)
      (inductionHypothesis fun node member => same node (List.mem_cons_of_mem _ member))
  | gap ends rest inductionHypothesis =>
    exact .gap ((same _ List.mem_cons_self).trans ends)
      (inductionHypothesis fun node member => same node (List.mem_cons_of_mem _ member))

theorem update [DecidableEq Address] (gapped : Gapped next gaps nodes) (absent : node ∉ nodes)
    (link : Option Address) : Gapped (Function.update next node link) gaps nodes :=
  gapped.congr fun _ member => Function.update_of_ne (ne_of_mem_of_not_mem member absent) link next

/-- A first node with a link leads to the second one. -/
theorem of_joins (gapped : Gapped next gaps (node :: nodes)) (joins : next node = some after) :
    ∃ rest, nodes = after :: rest ∧ Gapped next gaps (after :: rest) := by
  cases gapped with
  | last ends => exact absurd (ends.symm.trans joins) nofun
  | link isNext rest =>
    obtain rfl := Option.some.inj (isNext.symm.trans joins)
    exact ⟨_, rfl, rest⟩
  | gap ends => exact absurd (ends.symm.trans joins) nofun

/-- A node behind the last one is a gap at first. -/
theorem append (gapped : Gapped next gaps nodes) (isLast : nodes.getLast? = some last)
    (ends : next node = none) : Gapped next ((last, node) ::ₘ gaps) (nodes ++ [node]) := by
  induction gapped with
  | last ends' =>
    obtain rfl := Option.some.inj isLast
    exact .gap ends' (.last ends)
  | link joins rest inductionHypothesis =>
    rw [List.getLast?_cons_cons] at isLast
    exact .link joins (inductionHypothesis isLast)
  | gap ends' rest inductionHypothesis =>
    rw [List.getLast?_cons_cons] at isLast
    rw [Multiset.cons_swap]
    exact .gap ends' (inductionHypothesis isLast)

/-- The node in front of a gap is one of the nodes, and it has no link. -/
theorem of_mem_gaps (gapped : Gapped next gaps nodes) (isGap : (node, after) ∈ gaps) :
    node ∈ nodes ∧ next node = none := by
  induction gapped with
  | last => exact absurd isGap (Multiset.notMem_zero _)
  | link joins rest inductionHypothesis =>
    obtain ⟨member, ends⟩ := inductionHypothesis isGap
    exact ⟨List.mem_cons_of_mem _ member, ends⟩
  | gap ends rest inductionHypothesis =>
    rcases Multiset.mem_cons.mp isGap with here | later
    · obtain ⟨rfl, rfl⟩ := Prod.mk.inj here
      exact ⟨List.mem_cons_self, ends⟩
    · obtain ⟨member, ends⟩ := inductionHypothesis later
      exact ⟨List.mem_cons_of_mem _ member, ends⟩

/-- A gap is closed by its link. -/
theorem join [DecidableEq Address] (gapped : Gapped next ((node, after) ::ₘ gaps) nodes)
    (distinct : nodes.Nodup) : Gapped (Function.update next node (some after)) gaps nodes := by
  generalize all : (node, after) ::ₘ gaps = opened at gapped
  induction gapped generalizing gaps with
  | last => exact (Multiset.cons_ne_zero all).elim
  | @link _ first second rest joins gapped inductionHypothesis =>
    obtain ⟨absent, distinct⟩ := List.nodup_cons.mp distinct
    have inRest := (gapped.of_mem_gaps (all ▸ Multiset.mem_cons_self (node, after) gaps)).1
    have other : first ≠ node := (ne_of_mem_of_not_mem inRest absent).symm
    exact .link ((Function.update_of_ne other ..).trans joins) (inductionHypothesis distinct all)
  | @gap others first second rest ends gapped inductionHypothesis =>
    obtain ⟨absent, distinct⟩ := List.nodup_cons.mp distinct
    by_cases here : first = node
    · subst here
      have isGap : (first, after) ∈ (first, second) ::ₘ others :=
        all ▸ Multiset.mem_cons_self (first, after) gaps
      have same : (first, after) = (first, second) := (Multiset.mem_cons.mp isGap).resolve_right
        fun later => absent (gapped.of_mem_gaps later).1
      obtain rfl := (Prod.mk.inj same).2
      obtain rfl := (Multiset.cons_inj_right _).mp all
      exact .link (Function.update_self ..) (gapped.update absent _)
    · have isGap : (node, after) ∈ others :=
        (Multiset.mem_cons.mp (all ▸ Multiset.mem_cons_self (node, after) gaps)).resolve_left
          fun same => here (Prod.mk.inj same).1.symm
      obtain ⟨left, rfl⟩ := Multiset.exists_cons_of_mem isGap
      rw [Multiset.cons_swap, Multiset.cons_inj_right] at all
      rw [all]
      exact .gap ((Function.update_of_ne here ..).trans ends) (inductionHypothesis distinct rfl)

end Gapped

end Chains
