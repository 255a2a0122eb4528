/-
This file proves that a `LocklessQ` is a first-in-first-out queue however the accesses of
its threads interleave, as long as no two calls of `enqueue` overlap, and says exactly
when it is.

Any number of threads may be in `dequeue`. A value is in the queue from when its node is
linked, and taken when an exchange of `_head` moves it there; in between a thread reads
only nodes of the chain, whose links stay once they are set. What can go wrong is in
`enqueue`: after an exchange of `_tmpAtomic` that fails, the one of `_tail` may set it to
null, and one of `_tmpAtomic` that finds there what an earlier one has left in
`_emptyNode` succeeds behind a node that is not the last, whose link is overwritten.
-/

import OrderBookSketch.LocklessQThreads
import Mathlib.Tactic.Ring

namespace ObLib

open Runs Chains Interleaving

/-! ### What the places rely on -/

namespace LocklessPlace

variable {T : Type} {place : LocklessPlace T} {next next' : Nat → Option Nat}
  {data data' : Nat → Option T}

theorem pending_eq_none (enqueues : place.enqueues = 1) : place.pending next data = none := by
  cases place <;> first | rfl | cases enqueues

theorem lags_eq_zero (free : place.enqueues = 0) : place.lags = 0 := by
  cases place <;> first | rfl | cases free

end LocklessPlace

namespace LocklessQThreads

variable {T Thread : Type}

section Knows

variable {state state' : LocklessQThreads T Thread} {nodes nodes' : List Nat}
  {place : LocklessPlace T}

/-- A memory in which more is written, a longer chain and a head that is further on. -/
theorem KnowsChain.extend (knows : state.KnowsChain nodes place)
    (links : Extends state.next state'.next) (vals : Extends state.data state'.data)
    (longer : nodes <+: nodes') (further : state.taken.length ≤ state'.taken.length) :
    state'.KnowsChain nodes' place := by
  cases place with
  | checksLink tmp =>
    obtain ⟨index, node, passed, isThere, rfl⟩ := knows
    obtain ⟨more, rfl⟩ := longer
    refine ⟨index, node, passed.trans further, ?_, rfl⟩
    rw [List.getElem?_append_left (List.getElem?_eq_some_iff.mp isThere).1, isThere]
  | readsNext tmp =>
    obtain ⟨node, isNext⟩ := knows
    exact ⟨node, links tmp node isNext⟩
  | movesHead tmp link =>
    obtain ⟨node, rfl, isNext⟩ := knows
    exact ⟨node, rfl, links tmp node isNext⟩
  | readsTaken tmp =>
    obtain ⟨node, val, isNext, carries⟩ := knows
    exact ⟨node, val, links tmp node isNext, vals node val carries⟩
  | readsData link =>
    obtain ⟨node, val, rfl, carries⟩ := knows
    exact ⟨node, val, rfl, vals node val carries⟩
  | countsDown data => exact knows
  | _ => trivial

/-- What a thread has taken stays the same. -/
theorem KnowsChain.pending_eq {next : Nat → Option Nat} {data : Nat → Option T}
    (knows : state.KnowsChain nodes place) (links : Extends state.next next)
    (vals : Extends state.data data) :
    place.pending next data = place.pending state.next state.data := by
  cases place with
  | readsTaken tmp =>
    obtain ⟨node, val, isNext, carries⟩ := knows
    rw [LocklessPlace.pending, LocklessPlace.pending, isNext, links tmp node isNext]
    exact (vals node val carries).trans carries.symm
  | readsData link =>
    obtain ⟨node, val, rfl, carries⟩ := knows
    exact (vals node val carries).trans carries.symm
  | _ => rfl

/-- A thread in no `enqueue` relies on nothing at the tail. -/
theorem knowsTail_of_free (free : place.enqueues = 0) : state.KnowsTail nodes place := by
  cases place <;> trivial

/-- A thread in an `enqueue` relies on nothing at the head. -/
theorem knowsChain_of_enqueues (enqueues : place.enqueues = 1) : state.KnowsChain nodes place := by
  cases place <;> trivial

/-- The fields have no part in what is known of the chain. -/
theorem knowsChain_with (state : LocklessQThreads T Thread) (nodes : List Nat)
    (place : LocklessPlace T) (head tail : Option Nat) (size : BitVec 64)
    (tmpAtomic emptyNode : Option Nat) (threads : Thread → LocklessPlace T) (put : List T)
    (returned : List (Thread × T)) :
    { state with head, tail, size, tmpAtomic, emptyNode, threads, put, returned }.KnowsChain nodes
      place ↔ state.KnowsChain nodes place := by
  cases place <;> rfl

/-- The head, the count and what is said of the calls have no part in what is known at the tail. -/
theorem knowsTail_with (state : LocklessQThreads T Thread) (nodes : List Nat)
    (place : LocklessPlace T) (head : Option Nat) (size : BitVec 64)
    (threads : Thread → LocklessPlace T) (put : List T) (taken returned : List (Thread × T)) :
    { state with head, size, threads, put, taken, returned }.KnowsTail nodes place ↔
      state.KnowsTail nodes place := by
  cases place <;> rfl

end Knows

section Values

variable [DecidableEq Thread] {thread other : Thread}

theorem valuesOf_append (thread : Thread) (first second : List (Thread × T)) :
    valuesOf thread (first ++ second) = valuesOf thread first ++ valuesOf thread second := by
  rw [valuesOf, List.filter_append, List.map_append]
  rfl

theorem valuesOf_own (thread : Thread) (vals : List T) :
    valuesOf thread (vals.map (thread, ·)) = vals := by
  simp [valuesOf, List.filter_map, Function.comp_def]

theorem valuesOf_other (different : other ≠ thread) (vals : List T) :
    valuesOf other (vals.map (thread, ·)) = [] := by
  simp [valuesOf, List.filter_map, Function.comp_def, different.symm]

end Values

/-! ### Steps that keep the chain -/

variable [Fintype Thread] [DecidableEq Thread] {size : BitVec 64}
  {state : LocklessQThreads T Thread} {rest : List Nat} {vals : List T} {thread : Thread}
  {place before : LocklessPlace T}

namespace Keeps

/-- The `enqueue` of this thread is the only one. -/
theorem others_free (keeps : Keeps size state rest vals) (here : state.threads thread = before)
    (enqueues : before.enqueues = 1) {other : Thread} (different : other ≠ thread) :
    (state.threads other).enqueues = 0 :=
  eq_zero_of_held_le_one keeps.one (here ▸ enqueues) different

/-- An amount that is the same at the new place. -/
theorem still {Amount : Type} [AddCommMonoid Amount] (amount : LocklessPlace T → Amount)
    (here : state.threads thread = before) (place : LocklessPlace T)
    (same : amount place = amount before) :
    held amount state.threads = held amount (Function.update state.threads thread place) :=
  (held_update_of_eq (same.trans (congrArg amount here.symm))).symm

/-- What was taken is what was returned and what the threads have yet to return, where the thread
has as much to return at its new place. -/
theorem each_update {next : Nat → Option Nat} {data : Nat → Option T}
    (keeps : Keeps size state rest vals) (here : state.threads thread = before)
    (links : Extends state.next next) (contents : Extends state.data data)
    (same : place.pending next data = before.pending state.next state.data) (other : Thread) :
    valuesOf other state.taken = valuesOf other state.returned ++
      ((Function.update state.threads thread place other).pending next data).toList := by
  by_cases isHere : other = thread
  · rw [isHere, Function.update_self, same, ← here]
    exact keeps.each thread
  · rw [Function.update_of_ne isHere, (keeps.knowsChain other).pending_eq links contents]
    exact keeps.each other

/-- The count is right where the thread owes as much more as the queue holds more. -/
theorem size_update (keeps : Keeps size state rest vals) (here : state.threads thread = before)
    {linked taken : Nat} (counts : (linked - taken - place.owes : Int) =
      vals.length - state.taken.length - before.owes) :
    state.size = size + ((linked - taken - held LocklessPlace.owes
      (Function.update state.threads thread place) : Int) : BitVec 64) := by
  have moved := held_update LocklessPlace.owes state.threads thread place
  rw [here] at moved
  have same : (linked - taken - held LocklessPlace.owes
      (Function.update state.threads thread place) : Int) =
      vals.length - state.taken.length - held LocklessPlace.owes state.threads := by
    omega
  rw [same]
  exact keeps.size

/-- A thread moves to a place that holds the same. -/
theorem goTo (keeps : Keeps size state rest vals) (here : state.threads thread = before)
    (sameEnqueues : place.enqueues = before.enqueues) (sameWay : place.onItsWay = before.onItsWay)
    (sameOwes : place.owes = before.owes)
    (samePending : place.pending state.next state.data = before.pending state.next state.data)
    (knowsChain : state.KnowsChain (0 :: rest) place)
    (knowsTail : state.KnowsTail (0 :: rest) place) :
    Keeps size (state.goTo thread place) rest vals where
  chain := keeps.chain
  values := keeps.values
  put := still LocklessPlace.onItsWay here place sameWay ▸ keeps.put
  taken := keeps.taken
  head := keeps.head
  each := keeps.each_update here (.refl _) (.refl _) samePending
  tail := keeps.tail
  size := still LocklessPlace.owes here place sameOwes ▸ keeps.size
  made := keeps.made
  unmade := keeps.unmade
  expected := keeps.expected
  one := still LocklessPlace.enqueues here place sameEnqueues ▸ keeps.one
  knowsChain := (Function.forall_update_iff _ fun _ (place : LocklessPlace T) =>
    KnowsChain _ _ place).mpr ⟨(knowsChain_with ..).mpr knowsChain,
      fun other _ => (knowsChain_with ..).mpr (keeps.knowsChain other)⟩
  knowsTail := (Function.forall_update_iff _ fun _ (place : LocklessPlace T) =>
    KnowsTail _ _ place).mpr ⟨(knowsTail_with ..).mpr knowsTail,
      fun other _ => (knowsTail_with ..).mpr (keeps.knowsTail other)⟩

/-! ### `enqueue` -/

/-- What one thread changes at the tail is relied on by no other. -/
theorem onTail (keeps : Keeps size state rest vals) (here : state.threads thread = before)
    (enqueues : before.enqueues = 1) {tail tmpAtomic emptyNode : Option Nat}
    (atEnd : ∃ tmp last, tail = some tmp ∧ (0 :: rest).getLast? = some last ∧
      (tmp = last ∨ state.next tmp = some last))
    (expected : emptyNode = none ∨ emptyNode = (0 :: rest).getLast?)
    (again : place.enqueues = 1) (sameWay : place.onItsWay = before.onItsWay)
    (sameOwes : place.owes = before.owes)
    (knows : { state with tail, tmpAtomic, emptyNode }.KnowsTail (0 :: rest) place) :
    Keeps size ({ state with tail, tmpAtomic, emptyNode }.goTo thread place) rest vals where
  chain := keeps.chain
  values := keeps.values
  put := still LocklessPlace.onItsWay here place sameWay ▸ keeps.put
  taken := keeps.taken
  head := keeps.head
  each := keeps.each_update here (.refl _) (.refl _)
    ((LocklessPlace.pending_eq_none again).trans (LocklessPlace.pending_eq_none enqueues).symm)
  tail := atEnd
  size := still LocklessPlace.owes here place sameOwes ▸ keeps.size
  made := keeps.made
  unmade := keeps.unmade
  expected := expected
  one := still LocklessPlace.enqueues here place (again.trans enqueues.symm) ▸ keeps.one
  knowsChain := (Function.forall_update_iff _ fun _ (place : LocklessPlace T) =>
    KnowsChain _ _ place).mpr ⟨knowsChain_of_enqueues again, fun other _ =>
      (knowsChain_with ..).mpr (keeps.knowsChain other)⟩
  knowsTail := (Function.forall_update_iff _ fun _ (place : LocklessPlace T) =>
    KnowsTail _ _ place).mpr ⟨(knowsTail_with ..).mpr knows, fun _ different =>
      knowsTail_of_free (keeps.others_free here enqueues different)⟩

/-- A thread that is in no call begins an `enqueue`. -/
theorem enqueue (keeps : Keeps size state rest vals) (idle : state.threads thread = .idle)
    (apart : ∀ other, (state.threads other).enqueues = 0) (data : T) :
    Keeps size ({ state with put := state.put ++ [data] }.goTo thread (.makesNode data)) rest
      vals where
  chain := keeps.chain
  values := keeps.values
  put := by
    obtain ⟨way, isWay, isPut⟩ := keeps.put
    have nothing : held LocklessPlace.onItsWay state.threads = 0 :=
      held_eq_zero fun other => LocklessPlace.onItsWay_eq_zero (apart other)
    have moved := held_update LocklessPlace.onItsWay state.threads thread (.makesNode data)
    rw [idle, nothing, zero_add] at moved
    obtain rfl := (Multiset.coe_eq_zero _).mp (isWay.trans nothing)
    exact ⟨[data], ((add_zero _).symm.trans moved).symm,
      congrArg (· ++ [data]) (isPut.trans (List.append_nil _))⟩
  taken := keeps.taken
  head := keeps.head
  each := keeps.each_update idle (.refl _) (.refl _) rfl
  tail := keeps.tail
  size := still LocklessPlace.owes idle (.makesNode data) rfl ▸ keeps.size
  made := keeps.made
  unmade := keeps.unmade
  expected := keeps.expected
  one := by
    have moved := held_update LocklessPlace.enqueues state.threads thread (.makesNode data)
    rw [idle, held_eq_zero apart] at moved
    exact moved.le
  knowsChain := (Function.forall_update_iff _ fun _ (place : LocklessPlace T) =>
    KnowsChain _ _ place).mpr ⟨trivial, fun other _ =>
      (knowsChain_with ..).mpr (keeps.knowsChain other)⟩
  knowsTail := (Function.forall_update_iff _ fun _ (place : LocklessPlace T) =>
    KnowsTail _ _ place).mpr ⟨trivial, fun other _ => knowsTail_of_free (apart other)⟩

/-- The node is made behind all others. -/
theorem makesNode (keeps : Keeps size state rest vals) {data : T}
    (here : state.threads thread = .makesNode data) :
    Keeps size ({ state with
      next := Function.update state.next state.made none
      data := Function.update state.data state.made (some data)
      made := state.made + 1 }.goTo thread (.readsTail data state.made)) rest vals := by
  have older {node : Nat} (member : node ∈ 0 :: rest) : node ≠ state.made :=
    Nat.ne_of_lt (keeps.made node member)
  have links : Extends state.next (Function.update state.next state.made none) :=
    .update (keeps.unmade _ le_rfl).1 none
  have contents : Extends state.data (Function.update state.data state.made (some data)) :=
    .update (keeps.unmade _ le_rfl).2 (some data)
  obtain ⟨tmp, last, isTail, isLast, place⟩ := keeps.tail
  exact {
    chain := keeps.chain.update (fun member => older member rfl) none
    values := keeps.values.congr fun node inRest =>
      Function.update_of_ne (older (List.mem_cons_of_mem _ inRest)) ..
    put := still LocklessPlace.onItsWay here (.readsTail data state.made) rfl ▸ keeps.put
    taken := keeps.taken
    head := keeps.head
    each := keeps.each_update here links contents rfl
    tail := ⟨tmp, last, isTail, isLast, place.imp_right (links tmp last)⟩
    size := still LocklessPlace.owes here (.readsTail data state.made) rfl ▸ keeps.size
    made := fun node member => Nat.lt_succ_of_lt (keeps.made node member)
    unmade := fun node later => by
      have notMade : node ≠ state.made := Nat.ne_of_gt later
      obtain ⟨noLink, noData⟩ := keeps.unmade node (Nat.le_of_succ_le later)
      exact ⟨(Function.update_of_ne notMade ..).trans noLink,
        (Function.update_of_ne notMade ..).trans noData⟩
    expected := keeps.expected
    one := still LocklessPlace.enqueues here (.readsTail data state.made) rfl ▸ keeps.one
    knowsChain := (Function.forall_update_iff _ fun _ (place : LocklessPlace T) =>
      KnowsChain _ _ place).mpr ⟨trivial, fun other _ =>
        (keeps.knowsChain other).extend links contents (List.prefix_refl _) le_rfl⟩
    knowsTail := (Function.forall_update_iff _ fun _ (place : LocklessPlace T) =>
      KnowsTail _ _ place).mpr ⟨⟨fun member => older member rfl, Nat.lt_succ_self _,
        Function.update_self .., Function.update_self ..⟩,
        fun other different => knowsTail_of_free (keeps.others_free here rfl different)⟩ }

/-- The node is linked behind the last one. -/
theorem writesLink (keeps : Keeps size state rest vals) {data : T} {newNode tmp : Nat}
    (here : state.threads thread = .writesLink data newNode tmp true (some newNode))
    (unset : state.next tmp = none) :
    Keeps size ({ state with next := Function.update state.next tmp (some newNode) }.goTo thread
      (.exchangesTail newNode tmp)) (rest ++ [newNode]) (vals ++ [data]) := by
  have knows := keeps.knowsTail thread
  rw [here] at knows
  obtain ⟨⟨apart, isMade, ends, carries⟩, isTail, known, -⟩ := knows
  obtain ⟨before, last, isBefore, isLast, place⟩ := keeps.tail
  obtain rfl := Option.some.inj (isTail.symm.trans isBefore)
  -- a tail without a link is the last node
  obtain rfl : tmp = last := place.resolve_right fun isNext => by
    rw [unset] at isNext
    cases isNext
  have member : tmp ∈ 0 :: rest := List.mem_of_getLast? isLast
  have different : newNode ≠ tmp := (ne_of_mem_of_not_mem member apart).symm
  have linked : Function.update state.next tmp (some newNode) tmp = some newNode :=
    Function.update_self ..
  have links : Extends state.next (Function.update state.next tmp (some newNode)) :=
    .update unset (some newNode)
  have long : rest.length = vals.length := keeps.values.length_eq
  exact {
    chain := keeps.chain.append isLast linked ((Function.update_of_ne different ..).trans ends)
      fun node _ other => Function.update_of_ne other ..
    values := keeps.values.append carries
    put := by
      obtain ⟨way, isWay, isPut⟩ := keeps.put
      have moved : held LocklessPlace.onItsWay state.threads = data ::ₘ
          held LocklessPlace.onItsWay
            (Function.update state.threads thread (.exchangesTail newNode tmp)) :=
        held_eq_cons_update (by rw [here]; rfl)
      have none : held LocklessPlace.onItsWay
          (Function.update state.threads thread (.exchangesTail newNode tmp)) = 0 :=
        held_eq_zero ((Function.forall_update_iff _ fun _ (place : LocklessPlace T) =>
          place.onItsWay = 0).mpr ⟨rfl, fun other different =>
            LocklessPlace.onItsWay_eq_zero (keeps.others_free here rfl different)⟩)
      rw [moved, none] at isWay
      obtain rfl := Multiset.coe_eq_singleton.mp isWay
      exact ⟨[], none.symm, isPut.trans (List.append_nil _).symm⟩
    taken := keeps.taken.trans
      (List.take_append_of_le_length (keeps.head.1.trans long.le)).symm
    head := by
      refine ⟨keeps.head.1.trans (by simp), keeps.head.2.trans ?_⟩
      rw [← List.cons_append, List.getElem?_append_left (Nat.lt_succ_of_le keeps.head.1)]
      rfl
    each := keeps.each_update here links (.refl _) rfl
    tail := ⟨tmp, newNode, isTail, by rw [← List.cons_append, List.getLast?_concat], .inr linked⟩
    size := keeps.size_update here (by
      show ((vals ++ [data]).length - state.taken.length - 1 : Int) = _ - _ - 0
      rw [List.length_append, List.length_singleton]
      push_cast
      omega)
    made := fun node inChain => by
      rcases List.mem_append.mp (show node ∈ (0 :: rest) ++ [newNode] from inChain) with old | new
      · exact keeps.made node old
      · exact List.mem_singleton.mp new ▸ isMade
    unmade := fun node later => by
      have notTmp : node ≠ tmp := Nat.ne_of_gt ((keeps.made tmp member).trans_le later)
      exact ⟨(Function.update_of_ne notTmp ..).trans (keeps.unmade node later).1,
        (keeps.unmade node later).2⟩
    expected := .inl (known.trans unset)
    one := still LocklessPlace.enqueues here (.exchangesTail newNode tmp) rfl ▸ keeps.one
    knowsChain := (Function.forall_update_iff _ fun _ (place : LocklessPlace T) =>
      KnowsChain _ _ place).mpr ⟨trivial, fun other _ => (keeps.knowsChain other).extend links
        (.refl _) ⟨[newNode], rfl⟩ le_rfl⟩
    knowsTail := (Function.forall_update_iff _ fun _ (place : LocklessPlace T) =>
      KnowsTail _ _ place).mpr ⟨⟨isTail, linked, by rw [← List.cons_append, List.getLast?_concat]⟩,
        fun other different => knowsTail_of_free (keeps.others_free here rfl different)⟩ }

/-- The value is counted. -/
theorem countsUp (keeps : Keeps size state rest vals) (here : state.threads thread = .countsUp) :
    Keeps size ({ state with size := state.size + 1 }.goTo thread .idle) rest vals where
  chain := keeps.chain
  values := keeps.values
  put := still LocklessPlace.onItsWay here .idle rfl ▸ keeps.put
  taken := keeps.taken
  head := keeps.head
  each := keeps.each_update here (.refl _) (.refl _) rfl
  tail := keeps.tail
  size := by
    have moved := held_update LocklessPlace.owes state.threads thread .idle
    rw [here] at moved
    have owes : held LocklessPlace.owes state.threads =
        held LocklessPlace.owes (Function.update state.threads thread .idle) + 1 :=
      (add_zero _).symm.trans moved.symm
    show state.size + 1 = _
    rw [keeps.size, owes]
    show _ = size + ((vals.length - state.taken.length - held LocklessPlace.owes
      (Function.update state.threads thread .idle) : Int) : BitVec 64)
    push_cast
    ring
  made := keeps.made
  unmade := keeps.unmade
  expected := keeps.expected
  one := by
    have moved := held_update LocklessPlace.enqueues state.threads thread .idle
    rw [here] at moved
    exact (Nat.le_of_add_right_le moved.le).trans keeps.one
  knowsChain := (Function.forall_update_iff _ fun _ (place : LocklessPlace T) =>
    KnowsChain _ _ place).mpr ⟨trivial, fun other _ =>
      (knowsChain_with ..).mpr (keeps.knowsChain other)⟩
  knowsTail := (Function.forall_update_iff _ fun _ (place : LocklessPlace T) =>
    KnowsTail _ _ place).mpr ⟨trivial, fun other different =>
      knowsTail_of_free (keeps.others_free here rfl different)⟩

/-! ### `dequeue` -/

/-- The head is moved to the node behind it, whose value the thread has taken. -/
theorem movesHead (keeps : Keeps size state rest vals) {tmp : Nat} {link : Option Nat}
    (here : state.threads thread = .movesHead tmp link) (isHead : state.head = some tmp) :
    Keeps size ({ state with
      head := link
      taken := state.taken ++ (link.bind state.data).toList.map (thread, ·) }.goTo thread
        (.readsTaken tmp)) rest vals := by
  have knows := keeps.knowsChain thread
  rw [here] at knows
  obtain ⟨node, rfl, isNext⟩ := knows
  have place : (0 :: rest)[state.taken.length]? = some tmp := keeps.head.2.symm.trans isHead
  have behind : (some node : Option Nat) = rest[state.taken.length]? :=
    isNext.symm.trans (keeps.chain.next_eq_getElem? place)
  have long : rest.length = vals.length := keeps.values.length_eq
  have more : state.taken.length < rest.length :=
    (List.getElem?_eq_some_iff.mp behind.symm).1
  obtain ⟨val, isVal⟩ : ∃ val, vals[state.taken.length]? = some val :=
    ⟨_, List.getElem?_eq_getElem (long ▸ more)⟩
  have carries : state.data node = some val :=
    (keeps.values.value_eq_getElem? behind.symm).trans isVal
  have took : ((some node : Option Nat).bind state.data).toList.map (thread, ·) =
      [(thread, val)] := by
    show (state.data node).toList.map (thread, ·) = _
    rw [carries]
    rfl
  rw [took]
  exact {
    chain := keeps.chain
    values := keeps.values
    put := still LocklessPlace.onItsWay here (.readsTaken tmp) rfl ▸ keeps.put
    taken := by
      show (state.taken ++ [(thread, val)]).map Prod.snd =
        vals.take (state.taken ++ [(thread, val)]).length
      rw [List.map_append, keeps.taken, List.length_append, List.length_singleton,
        List.take_add_one, isVal]
      rfl
    head := by
      show (state.taken ++ [(thread, val)]).length ≤ rest.length ∧
        some node = (0 :: rest)[(state.taken ++ [(thread, val)]).length]?
      rw [List.length_append, List.length_singleton, List.getElem?_cons_succ]
      exact ⟨more, behind⟩
    each := (Function.forall_update_iff _ fun other (place : LocklessPlace T) =>
      valuesOf other (state.taken ++ [(thread, val)]) = valuesOf other state.returned ++
        (place.pending state.next state.data).toList).mpr
      ⟨by
        have each := keeps.each thread
        rw [here] at each
        have now : (LocklessPlace.readsTaken tmp).pending state.next state.data = some val := by
          rw [LocklessPlace.pending, isNext]
          exact carries
        rw [valuesOf_append, each, now]
        show valuesOf thread state.returned ++ [] ++ valuesOf thread ([val].map (thread, ·)) = _
        rw [valuesOf_own, List.append_nil]
        rfl, fun other different => by
        rw [valuesOf_append, keeps.each other]
        show _ ++ valuesOf other ([val].map (thread, ·)) = _
        rw [valuesOf_other different, List.append_nil]⟩
    tail := keeps.tail
    size := keeps.size_update here (by
      show (vals.length - (state.taken ++ [(thread, val)]).length - -1 : Int) = _ - _ - 0
      rw [List.length_append, List.length_singleton]
      push_cast
      omega)
    made := keeps.made
    unmade := keeps.unmade
    expected := keeps.expected
    one := still LocklessPlace.enqueues here (.readsTaken tmp) rfl ▸ keeps.one
    knowsChain := (Function.forall_update_iff _ fun _ (place : LocklessPlace T) =>
      KnowsChain _ _ place).mpr ⟨⟨node, val, isNext, carries⟩, fun other _ =>
        (keeps.knowsChain other).extend (.refl _) (.refl _)
          (List.prefix_refl _) (List.prefix_append _ [(thread, val)]).length_le⟩
    knowsTail := (Function.forall_update_iff _ fun _ (place : LocklessPlace T) =>
      KnowsTail _ _ place).mpr ⟨trivial, fun other _ =>
        (knowsTail_with ..).mpr (keeps.knowsTail other)⟩ }

/-- The value is counted off and returned. -/
theorem countsDown (keeps : Keeps size state rest vals) {data : Option T}
    (here : state.threads thread = .countsDown data) :
    Keeps size ({ state with
      size := state.size - 1
      returned := state.returned ++ data.toList.map (thread, ·) }.goTo thread .idle) rest vals where
  chain := keeps.chain
  values := keeps.values
  put := still LocklessPlace.onItsWay here .idle rfl ▸ keeps.put
  taken := keeps.taken
  head := keeps.head
  each := (Function.forall_update_iff _ fun other (place : LocklessPlace T) =>
    valuesOf other state.taken =
      valuesOf other (state.returned ++ data.toList.map (thread, ·)) ++
        (place.pending state.next state.data).toList).mpr
    ⟨by
      have each := keeps.each thread
      rw [here] at each
      rw [valuesOf_append, valuesOf_own, each]
      exact (List.append_nil _).symm, fun other different => by
      rw [valuesOf_append, valuesOf_other different, List.append_nil]
      exact keeps.each other⟩
  tail := keeps.tail
  size := by
    have moved := held_update LocklessPlace.owes state.threads thread .idle
    rw [here] at moved
    have owes : held LocklessPlace.owes (Function.update state.threads thread .idle) =
        held LocklessPlace.owes state.threads + 1 := by
      have lowered : _ + -1 = held LocklessPlace.owes state.threads + 0 := moved
      omega
    show state.size - 1 = size + ((vals.length - state.taken.length - held LocklessPlace.owes
      (Function.update state.threads thread .idle) : Int) : BitVec 64)
    rw [keeps.size, owes]
    push_cast
    ring
  made := keeps.made
  unmade := keeps.unmade
  expected := keeps.expected
  one := still LocklessPlace.enqueues here .idle rfl ▸ keeps.one
  knowsChain := (Function.forall_update_iff _ fun _ (place : LocklessPlace T) =>
    KnowsChain _ _ place).mpr ⟨trivial, fun other _ =>
      (knowsChain_with ..).mpr (keeps.knowsChain other)⟩
  knowsTail := (Function.forall_update_iff _ fun _ (place : LocklessPlace T) =>
    KnowsTail _ _ place).mpr ⟨trivial, fun other _ =>
      (knowsTail_with ..).mpr (keeps.knowsTail other)⟩

/-! ### A step -/

/-- The link of the tail is null, where it is the last node, or leads to the last node. -/
theorem next_of_tail (keeps : Keeps size state rest vals) {tmp : Nat}
    (isTail : state.tail = some tmp) : ∃ last, (0 :: rest).getLast? = some last ∧
      (tmp = last ∧ state.next tmp = none ∨ state.next tmp = some last) := by
  obtain ⟨other, last, isOther, isLast, place⟩ := keeps.tail
  obtain rfl := Option.some.inj (isTail.symm.trans isOther)
  refine ⟨last, isLast, place.imp_left fun same => ⟨same, ?_⟩⟩
  exact keeps.chain.next_last (same ▸ isLast)

/-- A null link at a node that the head has reached: everything is taken. -/
theorem drained (keeps : Keeps size state rest vals) {index node : Nat}
    (passed : index ≤ state.taken.length) (isThere : (0 :: rest)[index]? = some node)
    (isEnd : state.next node = none) : state.Drained := by
  have behind : (0 :: rest)[index + 1]? = none :=
    (keeps.chain.next_eq_getElem? isThere).symm.trans isEnd
  have short : rest.length ≤ index := by
    rw [List.getElem?_cons_succ] at behind
    exact List.getElem?_eq_none_iff.mp behind
  obtain ⟨way, isWay, isPut⟩ := keeps.put
  refine ⟨way, isWay, ?_⟩
  rw [isPut, keeps.taken, List.take_of_length_le]
  exact keeps.values.length_eq.symm.trans_le (short.trans passed)

end Keeps

section Cases

variable {next : LocklessQThreads T Thread} {event : Option (LocklessEvent T)} {sound : Prop}

/-- A sound access after which the queue is as it should be. -/
theorem decides_of_keeps (keeps : Keeps size next rest vals) (lawful : Lawful next event)
    (meets : sound) : (Lawful next event ∧ Fifo size next ↔ sound) ∧
      (sound → ∃ rest vals, Keeps size next rest vals) :=
  ⟨iff_of_true ⟨lawful, rest, vals, keeps.toAccount⟩ meets, fun _ => ⟨rest, vals, keeps⟩⟩

/-- An access that is not sound and spoils the queue. -/
theorem decides_of_spoils (spoils : ¬ Fifo size next) (fails : ¬ sound) :
    (Lawful next event ∧ Fifo size next ↔ sound) ∧
      (sound → ∃ rest vals, Keeps size next rest vals) :=
  ⟨iff_of_false (fun both => spoils both.2) fails, fun meets => absurd meets fails⟩

end Cases

namespace Keeps

/-- A node that is linked in the place of the last one drops the value of that. -/
theorem spoils_of_relink (keeps : Keeps size state rest vals) {data : T} {newNode tmp last : Nat}
    (here : state.threads thread = .writesLink data newNode tmp true (some newNode))
    (isLast : (0 :: rest).getLast? = some last) (isNext : state.next tmp = some last) :
    ¬ Fifo size ({ state with next := Function.update state.next tmp (some newNode) }.goTo thread
      (.exchangesTail newNode tmp)) := by
  rintro ⟨otherRest, otherVals, account⟩
  have knows := keeps.knowsTail thread
  rw [here] at knows
  obtain ⟨⟨-, -, ends, -⟩, -⟩ := knows
  have different : newNode ≠ tmp := fun same => by
    rw [same, isNext] at ends
    cases ends
  obtain ⟨others, linked, long⟩ := keeps.chain.replace_last isNext (keeps.chain.next_last isLast)
    (Function.update_self tmp (some newNode) state.next)
    ((Function.update_of_ne different ..).trans ends)
    fun node _ other => Function.update_of_ne other ..
  obtain rfl := linked.unique account.chain
  obtain ⟨way, isWay, isPut⟩ := keeps.put
  obtain ⟨otherWay, isOther, isSame⟩ := account.put
  -- the value is no longer on its way, and the chain is as long as it was
  have moved : held LocklessPlace.onItsWay state.threads = data ::ₘ held LocklessPlace.onItsWay
      (Function.update state.threads thread (.exchangesTail newNode tmp)) :=
    held_eq_cons_update (by rw [here]; rfl)
  have counts : way.length = otherWay.length + 1 := by
    rw [← Multiset.coe_card, isWay, moved, Multiset.card_cons]
    exact congrArg (· + 1) (congrArg Multiset.card isOther).symm
  have lengths := congrArg List.length (isPut.symm.trans isSame)
  rw [List.length_append, List.length_append] at lengths
  have before := keeps.values.length_eq
  have after := account.values.length_eq
  rw [List.length_cons, List.length_cons] at long
  omega

/-- The exchange of `_tmpAtomic`: it sets it to the new node where the link of the tail is what
`_emptyNode` expects. -/
theorem exchangesLink (keeps : Keeps size state rest vals) {data : T} {newNode tmp : Nat}
    (here : state.threads thread = .exchangesLink data newNode tmp) (fails : Bool) :
    ∃ tmpAtomic emptyNode succ,
      exchangeWeak [fails] state.tmpAtomic state.emptyNode (some newNode) =
        (tmpAtomic, emptyNode, succ) ∧
      Keeps size ({ state with tmpAtomic, emptyNode }.goTo thread
        (.loadsLink data newNode tmp succ)) rest vals := by
  have knows := keeps.knowsTail thread
  rw [here] at knows
  obtain ⟨prepared, isTail, isLink⟩ := knows
  by_cases succeeds : state.tmpAtomic = state.emptyNode ∧ fails = false
  · obtain ⟨same, rfl⟩ := succeeds
    refine ⟨some newNode, state.emptyNode, true, ?_, keeps.onTail here rfl keeps.tail keeps.expected
      rfl rfl rfl ⟨prepared, isTail, same.symm.trans isLink, rfl⟩⟩
    rw [same]
    exact exchangeWeak_succeeds rfl ..
  · refine ⟨state.tmpAtomic, state.tmpAtomic, false, exchangeWeak_fails ?_ _,
      keeps.onTail here rfl keeps.tail ?_ rfl rfl rfl ⟨prepared, isTail, isLink, isLink⟩⟩
    · rw [← Bool.not_eq_false, ← not_and_or]
      exact succeeds
    · obtain ⟨last, isLast, place⟩ := keeps.next_of_tail isTail
      rw [isLink, isLast]
      exact place.imp_left And.right

/-- The exchange of `_tail` in the loop: what it moves on to must not be null. -/
theorem movesTail (keeps : Keeps size state rest vals) {data : T} {newNode tmp : Nat}
    {link : Option Nat} (here : state.threads thread = .movesTail data newNode tmp link)
    (fails : Bool) :
    ∃ tail expected succ, exchangeWeak [fails] state.tail (some tmp) link = (tail, expected, succ) ∧
      (Lawful ({ state with tail }.goTo thread (.readsTail data newNode)) none ∧
        Fifo size ({ state with tail }.goTo thread (.readsTail data newNode)) ↔
          state.SoundAt fails (.movesTail data newNode tmp link)) ∧
      (state.SoundAt fails (.movesTail data newNode tmp link) → ∃ rest vals,
        Keeps size ({ state with tail }.goTo thread (.readsTail data newNode)) rest vals) := by
  have knows := keeps.knowsTail thread
  rw [here] at knows
  obtain ⟨prepared, isTail, rfl⟩ := knows
  obtain ⟨last, isLast, place⟩ := keeps.next_of_tail isTail
  cases fails with
  | true =>
    exact ⟨state.tail, state.tail, false, exchangeWeak_fails (.inr rfl) _, decides_of_keeps
      (keeps.onTail here rfl keeps.tail keeps.expected rfl rfl rfl prepared) trivial
      fun _ sure => nomatch sure⟩
  | false =>
    refine ⟨state.next tmp, some tmp, true, isTail ▸ exchangeWeak_succeeds rfl .., ?_⟩
    rcases place with ⟨-, isEnd⟩ | isNext
    · refine decides_of_spoils ?_ fun sound => sound isTail rfl isEnd
      rintro ⟨_, _, account⟩
      obtain ⟨_, _, isSome, -⟩ := account.tail
      exact absurd (isEnd.symm.trans isSome) nofun
    · refine decides_of_keeps (keeps.onTail here rfl ⟨last, last, isNext, isLast, .inl rfl⟩
        keeps.expected rfl rfl rfl prepared) trivial fun _ _ isEnd => ?_
      exact absurd (isEnd.symm.trans isNext) nofun

/-- The exchange of `_tail` behind the loop moves it to the new node or leaves it one behind. -/
theorem exchangesTail (keeps : Keeps size state rest vals) {newNode tmp : Nat}
    (here : state.threads thread = .exchangesTail newNode tmp) (fails : Bool) :
    ∃ tail expected succ,
      exchangeWeak [fails] state.tail (some tmp) (some newNode) = (tail, expected, succ) ∧
      Keeps size ({ state with tail }.goTo thread .countsUp) rest vals := by
  have knows := keeps.knowsTail thread
  rw [here] at knows
  obtain ⟨isTail, isNext, isLast⟩ := knows
  cases fails with
  | true =>
    exact ⟨state.tail, state.tail, false, exchangeWeak_fails (.inr rfl) _,
      keeps.onTail here rfl keeps.tail keeps.expected rfl rfl rfl trivial⟩
  | false =>
    exact ⟨some newNode, some tmp, true, isTail ▸ exchangeWeak_succeeds rfl ..,
      keeps.onTail here rfl ⟨newNode, newNode, rfl, isLast, .inl rfl⟩ keeps.expected rfl rfl rfl
        trivial⟩

/-- An access returns, and is followed by a queue as it should be exactly when it is sound. -/
theorem access (keeps : Keeps size state rest vals) (thread : Thread) (fails : Bool) :
    ∃ next event, LocklessQThreads.access state thread fails = some (next, event) ∧
      (Lawful next event ∧ Fifo size next ↔ state.SoundAt fails (state.threads thread)) ∧
      (state.SoundAt fails (state.threads thread) → ∃ rest vals, Keeps size next rest vals) := by
  have knowsTail := keeps.knowsTail thread
  have knowsChain := keeps.knowsChain thread
  unfold LocklessQThreads.access
  cases here : state.threads thread <;> rw [here] at knowsTail knowsChain
  case idle => exact ⟨state, none, rfl, decides_of_keeps keeps trivial trivial⟩
  case makesNode data =>
    exact ⟨_, none, rfl, decides_of_keeps (keeps.makesNode here) trivial trivial⟩
  case readsTail data newNode =>
    exact ⟨_, none, rfl, decides_of_keeps
      (keeps.goTo here rfl rfl rfl rfl trivial ⟨knowsTail, rfl⟩) trivial trivial⟩
  case readsLink data newNode tmp =>
    obtain ⟨prepared, isTail⟩ := knowsTail
    obtain ⟨tmp, last, isSome, -⟩ := keeps.tail
    obtain rfl := isTail.symm.trans isSome
    exact ⟨_, none, rfl, decides_of_keeps
      (keeps.goTo here rfl rfl rfl rfl trivial ⟨prepared, isTail, rfl⟩) trivial trivial⟩
  case storesLink data newNode tmp link =>
    obtain ⟨prepared, isTail, rfl⟩ := knowsTail
    exact ⟨_, none, rfl, decides_of_keeps (keeps.onTail here rfl keeps.tail keeps.expected rfl rfl
      rfl ⟨prepared, isTail, rfl⟩) trivial trivial⟩
  case exchangesLink data newNode tmp =>
    obtain ⟨tmpAtomic, emptyNode, succ, exchanged, again⟩ := keeps.exchangesLink here fails
    simp only [exchanged]
    exact ⟨_, none, rfl, decides_of_keeps again trivial trivial⟩
  case loadsLink data newNode tmp succ =>
    exact ⟨_, none, rfl, decides_of_keeps
      (keeps.goTo here rfl rfl rfl rfl trivial knowsTail) trivial trivial⟩
  case writesLink data newNode tmp succ link =>
    obtain ⟨prepared, isTail, known, isLink⟩ := knowsTail
    cases succ with
    | false =>
      obtain rfl : link = state.next tmp := isLink
      refine ⟨_, none, rfl, ?_⟩
      rw [Function.update_eq_self]
      exact decides_of_keeps (keeps.goTo here rfl rfl rfl rfl trivial ⟨prepared, isTail⟩) trivial
        (.inr rfl)
    | true =>
      obtain rfl : link = some newNode := isLink
      refine ⟨_, none, rfl, ?_⟩
      obtain ⟨last, isLast, ⟨-, isEnd⟩ | isNext⟩ := keeps.next_of_tail isTail
      · exact decides_of_keeps (keeps.writesLink here isEnd) trivial (.inl isEnd)
      · refine decides_of_spoils (keeps.spoils_of_relink here isLast isNext) ?_
        rintro (isEnd | same)
        · exact absurd (isEnd.symm.trans isNext) nofun
        · obtain rfl := Option.some.inj (isNext.symm.trans same)
          exact prepared.1 (List.mem_of_getLast? isLast)
  case readsLinkAgain data newNode tmp =>
    obtain ⟨prepared, isTail⟩ := knowsTail
    exact ⟨_, none, rfl, decides_of_keeps
      (keeps.goTo here rfl rfl rfl rfl trivial ⟨prepared, isTail, rfl⟩) trivial trivial⟩
  case movesTail data newNode tmp link =>
    obtain ⟨tail, expected, succ, exchanged, decides⟩ := keeps.movesTail here fails
    simp only [exchanged]
    exact ⟨_, none, rfl, decides⟩
  case exchangesTail newNode tmp =>
    obtain ⟨tail, expected, succ, exchanged, again⟩ := keeps.exchangesTail here fails
    simp only [exchanged]
    exact ⟨_, none, rfl, decides_of_keeps again trivial trivial⟩
  case countsUp => exact ⟨_, _, rfl, decides_of_keeps (keeps.countsUp here) trivial trivial⟩
  case readsHead =>
    obtain ⟨node, isThere⟩ : ∃ node, (0 :: rest)[state.taken.length]? = some node :=
      ⟨_, List.getElem?_eq_getElem (Nat.lt_succ_of_le keeps.head.1)⟩
    exact ⟨_, none, rfl, decides_of_keeps (keeps.goTo here rfl rfl rfl rfl
      ⟨state.taken.length, node, le_rfl, isThere, keeps.head.2.trans isThere⟩ trivial) trivial
      trivial⟩
  case checksLink tmp =>
    obtain ⟨index, node, passed, isThere, rfl⟩ := knowsChain
    cases isNext : state.next node with
    | none =>
      have again : Keeps size (state.goTo thread .idle) rest vals :=
        keeps.goTo here rfl rfl rfl rfl trivial trivial
      refine ⟨state.goTo thread .idle, some .foundNothing, ?_, decides_of_keeps again
        (again.drained passed isThere isNext) trivial⟩
      simp [isNext]
    | some after =>
      have again : Keeps size (state.goTo thread (.readsNext node)) rest vals :=
        keeps.goTo here rfl rfl rfl rfl ⟨after, isNext⟩ trivial
      refine ⟨state.goTo thread (.readsNext node), none, ?_, decides_of_keeps again trivial trivial⟩
      simp [isNext]
  case readsNext tmp =>
    obtain ⟨node, isNext⟩ := knowsChain
    exact ⟨_, none, rfl, decides_of_keeps
      (keeps.goTo here rfl rfl rfl rfl ⟨node, isNext, isNext⟩ trivial) trivial trivial⟩
  case movesHead tmp link =>
    by_cases succeeds : state.head = some tmp ∧ fails = false
    · obtain ⟨isHead, rfl⟩ := succeeds
      have exchanged : exchangeWeak [false] state.head (some tmp) link = (link, some tmp, true) :=
        isHead ▸ exchangeWeak_succeeds rfl ..
      simp only [exchanged]
      exact ⟨_, none, rfl, decides_of_keeps (keeps.movesHead here isHead) trivial trivial⟩
    · have exchanged : exchangeWeak [fails] state.head (some tmp) link =
          (state.head, state.head, false) := by
        refine exchangeWeak_fails ?_ _
        rw [← Bool.not_eq_false, ← not_and_or]
        exact succeeds
      simp only [exchanged]
      exact ⟨_, none, rfl, decides_of_keeps
        (keeps.goTo here rfl rfl rfl rfl trivial trivial) trivial trivial⟩
  case readsTaken tmp =>
    exact ⟨_, none, rfl, decides_of_keeps
      (keeps.goTo here rfl rfl rfl rfl knowsChain trivial) trivial trivial⟩
  case readsData link =>
    obtain ⟨node, val, rfl, carries⟩ := knowsChain
    refine ⟨_, none, rfl, decides_of_keeps
      (keeps.goTo here rfl rfl rfl rfl (fun nothing => ?_) trivial) trivial trivial⟩
    exact absurd (nothing.symm.trans carries) nofun
  case countsDown data =>
    exact ⟨_, _, rfl, decides_of_keeps (keeps.countsDown here)
      (Option.isSome_iff_ne_none.mpr knowsChain) trivial⟩

/-- So it is with a turn, where no `enqueue` begins while another runs. -/
theorem step (keeps : Keeps size state rest vals) {turn : LocklessTurn T Thread}
    (apart : state.Apart turn) :
    ∃ next event, LocklessQThreads.step state turn = some (next, event) ∧
      (Lawful next event ∧ Fifo size next ↔ state.Sound turn) ∧
      (state.Sound turn → ∃ rest vals, Keeps size next rest vals) := by
  unfold LocklessQThreads.step
  cases turn with
  | enqueue thread data =>
    dsimp only
    split
    · rename_i idle
      exact ⟨_, none, rfl, decides_of_keeps
        (keeps.enqueue (LocklessPlace.eq_idle idle) apart data) trivial trivial⟩
    · exact ⟨state, none, rfl, decides_of_keeps keeps trivial trivial⟩
  | dequeue thread =>
    dsimp only
    split
    · rename_i idle
      exact ⟨_, none, rfl, decides_of_keeps (keeps.goTo (LocklessPlace.eq_idle idle) rfl rfl rfl rfl
        trivial trivial) trivial trivial⟩
    · exact ⟨state, none, rfl, decides_of_keeps keeps trivial trivial⟩
  | access thread fails => exact keeps.access thread fails

end Keeps

/-! ### Every interleaving -/

theorem keeps_create (size : BitVec 64) :
    Keeps size (create size : LocklessQThreads T Thread) [] [] where
  chain := ⟨rfl, rfl⟩
  values := rfl
  put := ⟨[], (held_eq_zero fun _ => rfl).symm, rfl⟩
  taken := rfl
  head := ⟨le_rfl, rfl⟩
  each := fun _ => rfl
  tail := ⟨0, 0, rfl, rfl, .inl rfl⟩
  size := by
    have nothing : held LocklessPlace.owes
        (fun _ : Thread => (LocklessPlace.idle : LocklessPlace T)) = 0 := held_eq_zero fun _ => rfl
    show size = size + ((0 - 0 - held LocklessPlace.owes
      (fun _ : Thread => (LocklessPlace.idle : LocklessPlace T)) : Int) : BitVec 64)
    rw [nothing, sub_zero, sub_zero, Int.cast_zero, add_zero]
  made := fun _ member => List.mem_singleton.mp member ▸ Nat.one_pos
  unmade := fun _ _ => ⟨rfl, rfl⟩
  expected := .inl rfl
  one := (held_eq_zero fun _ => rfl).trans_le (Nat.zero_le 1)
  knowsChain := fun _ => trivial
  knowsTail := fun _ => trivial

/-- From the constructor on, however the accesses of any number of threads interleave and whichever
weak exchanges fail without a reason, as long as no two calls of `enqueue` overlap, two things say
the same. One is that no null pointer is followed, the chain carries the values that were put but
for those on their way, in the order in which they were put, values are taken from it in that order,
each once and by the thread that returns it, the head is as far as what was taken, a `dequeue` that
returns false leaves nothing to take and one that returns true has a value, the tail is the last
node or the one in front of it, and `_size` has counted what was linked and taken but for what the
threads owe. The other is that no link that is set is written over and the tail is never set to
null. -/
theorem fifo_iff_sound (size : BitVec 64) (turns : List (LocklessTurn T Thread))
    (apart : EachStep step Apart (create size) turns) :
    EachReturn step (fun _ _ event next => Lawful next event ∧ Fifo size next) (create size) turns ↔
      EachStep step Sound (create size) turns := by
  refine eachReturn_iff_of_allowed
    (fun state turn (kept : ∃ rest vals, Keeps size state rest vals) apart => ?_) turns _
    ⟨[], [], keeps_create size⟩ apart
  obtain ⟨rest, vals, keeps⟩ := kept
  exact keeps.step apart

/-- Two threads take while a third has yet to move the tail, and one of them finds nothing. -/
theorem fifo_iff_sound_example :
    EachReturn step (fun _ _ event next => Lawful next event ∧ Fifo 0 next)
      (create 0 : LocklessQThreads String (Fin 3))
      ([.enqueue 0 "a"] ++ List.replicate 7 (.access 0 false) ++ [.dequeue 1, .dequeue 2] ++
        [.access 1 false, .access 2 false, .access 1 false, .access 2 false, .access 1 false,
          .access 2 false, .access 1 true, .access 2 false, .access 1 false, .access 1 false] ++
        List.replicate 3 (.access 2 false) ++ List.replicate 2 (.access 0 false)) :=
  (fifo_iff_sound 0 _ (by decide)).mpr (by decide)

/-! ### Exchanges that do not fail without a reason -/

/-- No exchange of an `enqueue` fails without a reason. -/
def Firm (state : LocklessQThreads T Thread) : LocklessTurn T Thread → Prop
  | .access thread fails => (state.threads thread).enqueues = 1 → fails = false
  | _ => True

instance : DecidableRel (Firm : LocklessQThreads T Thread → LocklessTurn T Thread → Prop)
  | state, .access thread fails =>
    inferInstanceAs (Decidable ((state.threads thread).enqueues = 1 → fails = false))
  | _, .enqueue _ _ => .isTrue trivial
  | _, .dequeue _ => .isTrue trivial

/-- The first exchange of `_tmpAtomic` succeeds. -/
def Steady : LocklessPlace T → Prop
  | .loadsLink _ _ _ succ | .writesLink _ _ _ succ _ => succ = true
  | .readsLinkAgain .. | .movesTail .. => False
  | _ => True

/-- `_emptyNode` is null, and the tail is the last node unless a thread has yet to move it. -/
structure Calm (state : LocklessQThreads T Thread) : Prop where
  expected : state.emptyNode = none
  tail : held LocklessPlace.lags state.threads = 0 → state.tail.bind state.next = none
  steady : ∀ thread, Steady (state.threads thread)

omit [Fintype Thread] in
theorem steady_update {threads : Thread → LocklessPlace T}
    (steady : ∀ thread, Steady (threads thread)) (thread : Thread) (there : Steady place)
    (other : Thread) : Steady (Function.update threads thread place other) :=
  (Function.forall_update_iff _ fun _ place => Steady place).mpr
    ⟨there, fun other _ => steady other⟩ other

/-- A thread moves to a place where it lags no more and no less. -/
theorem Calm.goTo (calm : Calm state) (here : state.threads thread = before)
    (sameLags : place.lags = before.lags) (steady : Steady place) :
    Calm (state.goTo thread place) where
  expected := calm.expected
  tail := Keeps.still LocklessPlace.lags here place sameLags ▸ calm.tail
  steady := steady_update calm.steady thread steady

namespace Keeps

/-- The link of the tail is null for a thread in an `enqueue` that does not lag. -/
theorem next_of_calm (keeps : Keeps size state rest vals) (calm : Calm state)
    (here : state.threads thread = before) (enqueues : before.enqueues = 1)
    (current : before.lags = 0) {tmp : Nat} (isTail : state.tail = some tmp) :
    state.next tmp = none := by
  have isEnd := calm.tail <| held_eq_zero fun other => by
    by_cases same : other = thread
    · rw [same, here, current]
    · exact LocklessPlace.lags_eq_zero (keeps.others_free here enqueues same)
  rwa [isTail] at isEnd

/-- An access of which the exchange does not fail without a reason is sound and keeps the calm. -/
theorem access_calm (keeps : Keeps size state rest vals) (calm : Calm state) {thread : Thread}
    {fails : Bool} (firm : (state.threads thread).enqueues = 1 → fails = false)
    {next : LocklessQThreads T Thread} {event : Option (LocklessEvent T)}
    (returns : LocklessQThreads.access state thread fails = some (next, event)) :
    state.SoundAt fails (state.threads thread) ∧ Calm next := by
  have knowsTail := keeps.knowsTail thread
  have steady := calm.steady thread
  unfold LocklessQThreads.access at returns
  cases here : state.threads thread <;> rw [here] at knowsTail steady firm <;>
    simp only [here] at returns
  case idle => cases returns; exact ⟨trivial, calm⟩
  case makesNode data =>
    cases returns
    refine ⟨trivial, Calm.goTo ⟨calm.expected, fun current => ?_, calm.steady⟩ here rfl trivial⟩
    obtain ⟨tmp, last, isTail, -⟩ := keeps.tail
    have isEnd := calm.tail current
    rw [isTail] at isEnd
    show state.tail.bind (Function.update state.next state.made none) = none
    rw [isTail]
    show Function.update state.next state.made none tmp = none
    by_cases same : tmp = state.made
    · rw [same, Function.update_self]
    · exact (Function.update_of_ne same ..).trans isEnd
  case readsTail data newNode => cases returns; exact ⟨trivial, calm.goTo here rfl trivial⟩
  case readsLink data newNode tmp =>
    obtain ⟨tmp, rfl, same⟩ := Option.bind_eq_some_iff.mp returns
    cases same
    exact ⟨trivial, calm.goTo here rfl trivial⟩
  case storesLink data newNode tmp link =>
    cases returns
    exact ⟨trivial, Calm.goTo ⟨calm.expected, calm.tail, calm.steady⟩ here rfl trivial⟩
  case exchangesLink data newNode tmp =>
    obtain ⟨-, isTail, isLink⟩ := knowsTail
    obtain rfl := firm rfl
    have unset : state.tmpAtomic = state.emptyNode :=
      (isLink.trans (keeps.next_of_calm calm here rfl rfl isTail)).trans calm.expected.symm
    rw [unset, exchangeWeak_succeeds rfl] at returns
    cases returns
    exact ⟨trivial, Calm.goTo ⟨calm.expected, calm.tail, calm.steady⟩ here rfl rfl⟩
  case loadsLink data newNode tmp succ => cases returns; exact ⟨trivial, calm.goTo here rfl steady⟩
  case writesLink data newNode tmp succ link =>
    obtain ⟨-, isTail, -⟩ := knowsTail
    obtain rfl : succ = true := steady
    cases returns
    refine ⟨.inl (keeps.next_of_calm calm here rfl rfl isTail), calm.expected, fun current => ?_,
      steady_update calm.steady thread trivial⟩
    have lags := le_held LocklessPlace.lags
      (Function.update state.threads thread (.exchangesTail newNode tmp)) thread
    rw [Function.update_self] at lags
    exact absurd (lags.trans (Nat.le_of_eq current)) (Nat.not_succ_le_zero 0)
  case readsLinkAgain => exact steady.elim
  case movesTail => exact steady.elim
  case exchangesTail newNode tmp =>
    obtain ⟨isTail, -, isLast⟩ := knowsTail
    obtain rfl := firm rfl
    rw [isTail, exchangeWeak_succeeds rfl] at returns
    cases returns
    exact ⟨trivial, calm.expected, fun _ => keeps.chain.next_last isLast,
      steady_update calm.steady thread trivial⟩
  case countsUp =>
    cases returns
    exact ⟨trivial, Calm.goTo ⟨calm.expected, calm.tail, calm.steady⟩ here rfl trivial⟩
  case readsHead => cases returns; exact ⟨trivial, calm.goTo here rfl trivial⟩
  case checksLink tmp =>
    obtain ⟨tmp, rfl, same⟩ := Option.bind_eq_some_iff.mp returns
    refine ⟨trivial, ?_⟩
    split at same <;> cases same <;> exact calm.goTo here rfl trivial
  case readsNext tmp => cases returns; exact ⟨trivial, calm.goTo here rfl trivial⟩
  case movesHead tmp link =>
    refine ⟨trivial, ?_⟩
    split at returns <;> cases returns <;>
      exact Calm.goTo ⟨calm.expected, calm.tail, calm.steady⟩ here rfl trivial
  case readsTaken tmp => cases returns; exact ⟨trivial, calm.goTo here rfl trivial⟩
  case readsData link =>
    obtain ⟨node, rfl, same⟩ := Option.bind_eq_some_iff.mp returns
    cases same
    exact ⟨trivial, calm.goTo here rfl trivial⟩
  case countsDown data =>
    cases returns
    exact ⟨trivial, Calm.goTo ⟨calm.expected, calm.tail, calm.steady⟩ here rfl trivial⟩

end Keeps

omit [DecidableEq Thread] in
theorem calm_create (size : BitVec 64) : Calm (create size : LocklessQThreads T Thread) where
  expected := rfl
  tail := fun _ => rfl
  steady := fun _ => trivial

/-- A turn of which the exchange does not fail without a reason is sound and keeps the calm. -/
theorem Keeps.step_calm (keeps : Keeps size state rest vals) (calm : Calm state)
    {turn : LocklessTurn T Thread} (firm : state.Firm turn)
    {next : LocklessQThreads T Thread} {event : Option (LocklessEvent T)}
    (returns : LocklessQThreads.step state turn = some (next, event)) :
    state.Sound turn ∧ Calm next := by
  unfold LocklessQThreads.step at returns
  cases turn with
  | enqueue thread data =>
    refine ⟨trivial, ?_⟩
    dsimp only at returns
    split at returns <;> cases returns
    · rename_i idle
      exact Calm.goTo ⟨calm.expected, calm.tail, calm.steady⟩ (LocklessPlace.eq_idle idle) rfl
        trivial
    · exact calm
  | dequeue thread =>
    refine ⟨trivial, ?_⟩
    dsimp only at returns
    split at returns <;> cases returns
    · rename_i idle
      exact calm.goTo (LocklessPlace.eq_idle idle) rfl trivial
    · exact calm
  | access thread fails => exact keeps.access_calm calm firm returns

/-- Where the exchanges of `enqueue` fail only on other values, the queue is first in, first out in
every interleaving in which no two calls of `enqueue` overlap, whichever exchanges of `dequeue` fail
without a reason. -/
theorem fifo_of_firm (size : BitVec 64) (turns : List (LocklessTurn T Thread))
    (fits : EachStep step (fun state turn => Apart state turn ∧ Firm state turn) (create size)
      turns) :
    EachReturn step (fun _ _ event next => Lawful next event ∧ Fifo size next) (create size)
      turns := by
  refine eachReturn_of_keeps (fun state turn
    (kept : (∃ rest vals, Keeps size state rest vals) ∧ Calm state) fits => ?_) turns _
    ⟨⟨[], [], keeps_create size⟩, calm_create size⟩ fits
  obtain ⟨⟨rest, vals, keeps⟩, calm⟩ := kept
  obtain ⟨next, event, returns, decides, again⟩ := keeps.step fits.1
  obtain ⟨sound, stillCalm⟩ := keeps.step_calm calm fits.2 returns
  exact ⟨next, event, returns, decides.mpr sound, again sound, stillCalm⟩

/-- A consumer takes a value between two accesses of the call that puts it, and an exchange of its
own fails once. -/
theorem fifo_of_firm_example :
    EachReturn step (fun _ _ event next => Lawful next event ∧ Fifo 0 next)
      (create 0 : LocklessQThreads String (Fin 2))
      ([.enqueue 0 "a"] ++ List.replicate 7 (.access 0 false) ++ [.dequeue 1] ++
        [.access 1 false, .access 1 false, .access 1 false, .access 1 true] ++
        List.replicate 7 (.access 1 false) ++ List.replicate 2 (.access 0 false) ++
        [.enqueue 1 "b"] ++ List.replicate 9 (.access 1 false)) :=
  fifo_of_firm 0 _ (by decide)

/-- Two calls of `enqueue` that overlap: the first value is lost, and the tail is at a node that is
not in the chain. -/
example : (run step (create 0 : LocklessQThreads String (Fin 2))
    ([.enqueue 0 "a", .enqueue 1 "b"] ++ List.replicate 5 (.access 0 false) ++
      List.replicate 5 (.access 1 false) ++ List.replicate 4 (.access 0 false) ++
      List.replicate 4 (.access 1 false))).map
    (fun result => (follow result.1.next 3 (some 0), result.1.tail, result.1.size)) =
      some ([0, 2], some 1, 2) := rfl

end LocklessQThreads

end ObLib
