/-
This file models the calls of `FreeListBase` in Common/include/containers/allocator.hpp
when any number of threads make them at once, one access to shared memory a step, and
proves that no node is lost, handed out twice or touched after it was deleted.

The two ends of the list are taken by exchanges: a thread that exchanges the head with a
null pointer keeps all others waiting until it writes a head back, and a thread that
exchanges the tail appends its element at once but links it a step later. `getElement`
takes no node that has no link yet, so the node that a thread still has to link is never
handed out before. The exchange is one of pointers, and the steps of the threads
interleave as they would under one memory.
-/

import OrderBookSketch.FreeListSync
import OrderBookSketch.Library.ChainGaps
import OrderBookSketch.Library.Interleaving

namespace ObLib

open Runs Chains Interleaving

/-- Where a thread is in a call: the access that it makes next, with its local variables. -/
inductive ListPlace where
  | idle
  -- `getElement`: the outer loop, the inner loop and the exchange of the head
  | countsFree
  | waits
  | takesHead
  | readsNext (msg : Nat)
  | countsSpare (msg : Nat)
  | givesBack (msg : Nat) (spins : Bool)
  | allocates
  | countsDown (msg tmp : Nat)
  | clearsNext (msg tmp : Nat)
  | givesNext (msg tmp : Nat)
  -- `releaseElement`
  | countsRoom (velement : Nat)
  | clearsElement (velement : Nat)
  | takesTail (velement : Nat)
  | linksTail (oldTail : Option Nat) (velement : Nat)
  | countsUp
  | deletes (velement : Nat)
  | throws
deriving DecidableEq, Repr

/-- What a call returns to its caller. -/
inductive ListEvent where
  | returned (elem : Nat)
  | threw (text : String)
deriving DecidableEq, Repr

/-- A call that a thread begins, or its next access, with the address that `new` would return. -/
inductive ListTurn (Thread : Type) where
  | getElement (thread : Thread)
  | releaseElement (thread : Thread) (element : Option Nat)
  | access (thread : Thread) (fresh : Nat)
deriving DecidableEq, Repr

/-- The fields of the list and its threads, the nodes that exist and those that callers have, and
the nodes that came to the end of the list and left its front, as they came and left. -/
structure ListThreads (Thread : Type) where
  list : FreeList
  threads : Thread → ListPlace
  live : List Nat
  out : List Nat
  joined : List Nat
  left : List Nat

namespace ListThreads

variable {Thread : Type} [DecidableEq Thread]

def goTo (state : ListThreads Thread) (thread : Thread) (place : ListPlace) : ListThreads Thread :=
  { state with threads := Function.update state.threads thread place }

/-- `node->_next`, of a node that exists. -/
def readNext (state : ListThreads Thread) (node : Nat) : Option (Option Nat) :=
  if node ∈ state.live then some (state.list.next node) else none

/-- `node->_next = link`, of a node that exists. -/
def writeNext (state : ListThreads Thread) (node : Nat) (link : Option Nat) :
    Option (ListThreads Thread) :=
  if node ∈ state.live then
    let next := Function.update state.list.next node link
    some { state with list := { state.list with next } }
  else none

/-- The next access of a thread that is in a call. -/
def access (state : ListThreads Thread) (thread : Thread) (fresh : Nat) :
    Option (ListThreads Thread × Option ListEvent) :=
  match state.threads thread with
  | .idle => some (state, none)
  | .countsFree =>
    if state.list.freeListSize > state.list.lowWaterMark then some (state.goTo thread .waits, none)
    else some (state.goTo thread .allocates, none)
  | .waits =>
    if state.list.freeHead = none then some (state, none)
    else some (state.goTo thread .takesHead, none)
  | .takesHead =>
    let taken := { state with list := { state.list with freeHead := none } }
    match state.list.freeHead with
    | some msg => some (taken.goTo thread (.readsNext msg), none)
    | none => some (taken.goTo thread .countsFree, none)
  | .readsNext msg => do
    match ← state.readNext msg with
    | none => return (state.goTo thread (.countsSpare msg), none)
    | some tmp => return (state.goTo thread (.countsDown msg tmp), none)
  | .countsSpare msg =>
    if state.list.freeListSize > state.list.highWaterMark then
      some (state.goTo thread (.givesBack msg true), none)
    else some (state.goTo thread (.givesBack msg false), none)
  | .givesBack msg spins =>
    let given := { state with list := { state.list with freeHead := some msg } }
    some (given.goTo thread (if spins then .countsFree else .allocates), none)
  | .allocates =>
    let made := { state with
      list := state.list.allocNewElement fresh
      live := fresh :: state.live
      out := fresh :: state.out }
    some (made.goTo thread .idle, some (.returned fresh))
  | .countsDown msg tmp =>
    let fewer := { state with
      list := { state.list with freeListSize := state.list.freeListSize - 1 }
      left := state.left ++ [msg] }
    some (fewer.goTo thread (.clearsNext msg tmp), none)
  | .clearsNext msg tmp => do
    let cleared ← state.writeNext msg none
    return (cleared.goTo thread (.givesNext msg tmp), none)
  | .givesNext msg tmp =>
    let given := { state with
      list := { state.list with freeHead := some tmp }
      out := msg :: state.out }
    some (given.goTo thread .idle, some (.returned msg))
  | .countsRoom velement =>
    if state.list.freeListSize < state.list.highWaterMark then
      some (state.goTo thread (.clearsElement velement), none)
    else some (state.goTo thread (.deletes velement), none)
  | .clearsElement velement => do
    let cleared ← state.writeNext velement none
    return (cleared.goTo thread (.takesTail velement), none)
  | .takesTail velement =>
    let taken := { state with
      list := { state.list with freeTail := some velement }
      joined := state.joined ++ [velement] }
    some (taken.goTo thread (.linksTail state.list.freeTail velement), none)
  | .linksTail oldTail velement => do
    let tail ← oldTail
    let linked ← state.writeNext tail (some velement)
    return (linked.goTo thread .countsUp, none)
  | .countsUp =>
    let more := { state with
      list := { state.list with freeListSize := state.list.freeListSize + 1 } }
    some (more.goTo thread .throws, none)
  | .deletes velement =>
    -- `delete` of a node that does not exist has no defined behaviour
    if velement ∈ state.live then
      some ({ state with live := state.live.erase velement }.goTo thread .throws, none)
    else none
  | .throws => some (state.goTo thread .idle, some (.threw " Empty element to release."))

/-- A thread that is in a call begins no other. -/
def step (state : ListThreads Thread) :
    ListTurn Thread → Option (ListThreads Thread × Option ListEvent)
  | .getElement thread =>
    if state.threads thread = .idle then some (state.goTo thread .countsFree, none)
    else some (state, none)
  | .releaseElement thread element =>
    if state.threads thread = .idle then
      match element with
      | some velement =>
        let taken := { state with out := state.out.erase velement }
        some (taken.goTo thread (.countsRoom velement), none)
      | none => some (state.goTo thread .throws, none)
    else some (state, none)
  | .access thread fresh => state.access thread fresh

/-- Callers release only elements that they have, and `new` returns the address of no node that
exists. -/
def Proper (state : ListThreads Thread) : ListTurn Thread → Prop
  | .getElement _ => True
  | .releaseElement thread (some elem) => state.threads thread = .idle → elem ∈ state.out
  | .releaseElement _ none => True
  | .access thread fresh => state.threads thread = .allocates → fresh ∉ state.live

instance : DecidableRel (@Proper Thread)
  | _, .getElement _ => .isTrue trivial
  | state, .releaseElement thread (some elem) =>
    inferInstanceAs (Decidable (state.threads thread = .idle → elem ∈ state.out))
  | _, .releaseElement _ none => .isTrue trivial
  | state, .access thread fresh =>
    inferInstanceAs (Decidable (state.threads thread = .allocates → fresh ∉ state.live))

/-- The list behind its `init`, with no call running. -/
def start (list : FreeList) (new : Nat → Nat) : ListThreads Thread where
  list := list
  threads := fun _ => .idle
  live := (List.range (list.highWaterMark.toNat + 1)).map new
  out := []
  joined := (List.range (list.highWaterMark.toNat + 1)).map new
  left := []

end ListThreads

/-! ### What a place holds -/

namespace ListPlace

/-- The node that no other thread and no caller may touch. -/
def hand : ListPlace → Multiset Nat
  | .clearsNext msg _ | .givesNext msg _ => {msg}
  | .countsRoom velement | .clearsElement velement | .takesTail velement | .deletes velement =>
    {velement}
  | _ => 0

/-- The head of the list, while the thread has it and the list has none. -/
def head : ListPlace → Multiset Nat
  | .readsNext msg | .countsSpare msg | .givesBack msg _ | .countsDown msg _ => {msg}
  | .clearsNext _ tmp | .givesNext _ tmp => {tmp}
  | _ => 0

/-- The link that the thread has yet to write. -/
def gap : ListPlace → Multiset (Nat × Nat)
  | .linksTail (some oldTail) velement => {(oldTail, velement)}
  | _ => 0

/-- Whether the thread has appended a node that is not counted yet. -/
def uncounted : ListPlace → Nat
  | .linksTail .. | .countsUp => 1
  | _ => 0

/-- Whether the thread has seen room for a node that is not counted yet. -/
def admitted : ListPlace → Nat
  | .clearsElement _ | .takesTail _ | .linksTail .. | .countsUp => 1
  | _ => 0

/-- What the thread relies on that it has read or written before. -/
def Knows (next : Nat → Option Nat) : ListPlace → Prop
  | .countsDown msg tmp => next msg = some tmp
  | .takesTail velement => next velement = none
  | .linksTail oldTail _ => oldTail ≠ none
  | _ => True

theorem uncounted_le_admitted (place : ListPlace) : place.uncounted ≤ place.admitted := by
  cases place <;> simp [uncounted, admitted]

theorem admitted_le_one (place : ListPlace) : place.admitted ≤ 1 := by
  cases place <;> simp [admitted]

/-- A write to a node that the thread does not rely on. -/
theorem Knows.update {next : Nat → Option Nat} {place : ListPlace} (knows : place.Knows next)
    {node : Nat} (notHand : node ∉ place.hand) (notHead : node ∈ place.head → next node = none)
    (link : Option Nat) : place.Knows (Function.update next node link) := by
  cases place with
  | countsDown msg tmp =>
    have other : msg ≠ node := by
      rintro rfl
      exact absurd (knows.symm.trans (notHead (Multiset.mem_singleton_self msg))) nofun
    exact (Function.update_of_ne other ..).trans knows
  | takesTail velement =>
    have other : velement ≠ node := fun same => notHand (Multiset.mem_singleton.mpr same.symm)
    exact (Function.update_of_ne other ..).trans knows
  | linksTail => exact knows
  | _ => trivial

end ListPlace

namespace ListThreads

variable {Thread : Type} [Fintype Thread]

/-- The free nodes are linked except for the links that threads have yet to write, and one thread or
the list has the first of them; every node that exists is free, in the hand of one thread or with
the callers, and only there; the nodes leave in the order in which they came; and the count lacks
only the nodes of threads that have not counted yet. -/
structure Keeps (highWaterMark : Int) (state : ListThreads Thread) (first : Nat) (rest : List Nat) :
    Prop where
  high : state.list.highWaterMark = highWaterMark
  chain : Gapped state.list.next (held ListPlace.gap state.threads) (first :: rest)
  tail : (first :: rest).getLast? = state.list.freeTail
  head : (state.list.freeHead.toList : Multiset Nat) + held ListPlace.head state.threads = {first}
  account : (state.live : Multiset Nat) =
    (first :: rest : List Nat) + held ListPlace.hand state.threads + (state.out : Multiset Nat)
  distinct : state.live.Nodup
  order : state.joined = state.left ++ first :: rest
  count : state.list.freeListSize + 1 + (held ListPlace.uncounted state.threads : Nat) =
    (first :: rest).length
  room : state.list.freeListSize + (held ListPlace.admitted state.threads : Nat) <
    highWaterMark + Fintype.card Thread
  knows : ∀ thread, (state.threads thread).Knows state.list.next

namespace Keeps

variable {highWaterMark : Int} {state : ListThreads Thread} {first : Nat} {rest : List Nat}
  {thread : Thread} {place : ListPlace}

theorem apart (keeps : Keeps highWaterMark state first rest) :
    ((first :: rest : List Nat) + held ListPlace.hand state.threads +
      (state.out : Multiset Nat)).Nodup :=
  keeps.account ▸ Multiset.coe_nodup.mpr keeps.distinct

theorem nodup_free (keeps : Keeps highWaterMark state first rest) : (first :: rest).Nodup :=
  Multiset.coe_nodup.mp (Multiset.nodup_add.mp (Multiset.nodup_add.mp keeps.apart).1).1

theorem nodup_hands (keeps : Keeps highWaterMark state first rest) :
    (held ListPlace.hand state.threads).Nodup :=
  (Multiset.nodup_add.mp (Multiset.nodup_add.mp keeps.apart).1).2.1

theorem live_of_free (keeps : Keeps highWaterMark state first rest) {node : Nat}
    (inFree : node ∈ first :: rest) : node ∈ state.live := by
  rw [← Multiset.mem_coe, keeps.account]
  exact Multiset.mem_add.mpr (.inl (Multiset.mem_add.mpr (.inl (Multiset.mem_coe.mpr inFree))))

theorem live_of_out (keeps : Keeps highWaterMark state first rest) {node : Nat}
    (isOut : node ∈ state.out) : node ∈ state.live := by
  rw [← Multiset.mem_coe, keeps.account]
  exact Multiset.mem_add.mpr (.inr (Multiset.mem_coe.mpr isOut))

variable [DecidableEq Thread]

/-- A free node is in no hand. -/
theorem not_free_of_hand (keeps : Keeps highWaterMark state first rest) {node : Nat}
    (inHand : node ∈ (state.threads thread).hand) : node ∉ first :: rest := by
  have disjoint := (Multiset.nodup_add.mp (Multiset.nodup_add.mp keeps.apart).1).2.2
  exact fun inFree => Multiset.disjoint_left.mp disjoint (Multiset.mem_coe.mpr inFree)
    (mem_held inHand)

/-- What is in a hand is not with the callers. -/
theorem not_out_of_hand (keeps : Keeps highWaterMark state first rest) {node : Nat}
    (inHand : node ∈ (state.threads thread).hand) : node ∉ state.out := by
  have disjoint := (Multiset.nodup_add.mp keeps.apart).2.2
  exact fun isOut => Multiset.disjoint_left.mp disjoint
    (Multiset.mem_add.mpr (.inr (mem_held inHand))) (Multiset.mem_coe.mpr isOut)

theorem live_of_hand (keeps : Keeps highWaterMark state first rest) {node : Nat}
    (inHand : node ∈ (state.threads thread).hand) : node ∈ state.live := by
  rw [← Multiset.mem_coe, keeps.account]
  exact Multiset.mem_add.mpr (.inl (Multiset.mem_add.mpr (.inr (mem_held inHand))))

omit [Fintype Thread] [DecidableEq Thread] in
theorem hand_of_place {before : ListPlace} {node : Nat} (here : state.threads thread = before)
    (isHand : before.hand = {node}) : node ∈ (state.threads thread).hand := by
  rw [here, isHand]
  exact Multiset.mem_singleton_self node

/-- A thread that has the head has it alone, and it is the first node. -/
theorem head_of_place (keeps : Keeps highWaterMark state first rest) {before : ListPlace}
    {node : Nat} (here : state.threads thread = before) (isHead : before.head = {node}) :
    node = first ∧ state.list.freeHead = none ∧ held ListPlace.head state.threads = {node} := by
  have isHere : node ∈ (state.threads thread).head := by
    rw [here, isHead]
    exact Multiset.mem_singleton_self node
  obtain ⟨isFirst, none, all⟩ := held_eq_of_single keeps.head isHere
  refine ⟨isFirst, ?_, all⟩
  rw [Multiset.coe_eq_zero, Option.toList_eq_nil_iff] at none
  exact none

/-- What a thread has as the head is free. -/
theorem free_of_head (keeps : Keeps highWaterMark state first rest) {node : Nat}
    (isHead : node ∈ (state.threads thread).head) : node ∈ first :: rest := by
  have inAll : node ∈ (state.list.freeHead.toList : Multiset Nat) +
      held ListPlace.head state.threads := Multiset.mem_add.mpr (.inr (mem_held isHead))
  rw [keeps.head, Multiset.mem_singleton] at inAll
  exact inAll ▸ List.mem_cons_self

/-- A node in the hand of a thread is relied on by no other thread. -/
theorem knows_of_hand (keeps : Keeps highWaterMark state first rest) {node : Nat}
    (inHand : node ∈ (state.threads thread).hand) (link : Option Nat) {other : Thread}
    (different : other ≠ thread) :
    (state.threads other).Knows (Function.update state.list.next node link) := by
  refine (keeps.knows other).update (fun isThere => ?_) (fun isHead => ?_) link
  · exact different (eq_of_mem_held keeps.nodup_hands inHand isThere)
  · exact absurd (keeps.free_of_head isHead) (keeps.not_free_of_hand inHand)

omit [Fintype Thread] in
/-- The other threads know what they knew, and the thread knows what its new place asks for. -/
theorem knows_goTo {threads : Thread → ListPlace} {next : Nat → Option Nat}
    (others : ∀ other, other ≠ thread → (threads other).Knows next) (here : place.Knows next) :
    ∀ other, (Function.update threads thread place other).Knows next := by
  intro other
  by_cases same : other = thread
  · rw [same, Function.update_self]
    exact here
  · rw [Function.update_of_ne same]
    exact others other same

/-- A thread moves to a place that holds the same. -/
theorem goTo (keeps : Keeps highWaterMark state first rest)
    (sameHand : place.hand = (state.threads thread).hand)
    (sameHead : place.head = (state.threads thread).head)
    (sameGap : place.gap = (state.threads thread).gap)
    (sameUncounted : place.uncounted = (state.threads thread).uncounted)
    (sameAdmitted : place.admitted = (state.threads thread).admitted)
    (knows : place.Knows state.list.next) :
    Keeps highWaterMark (state.goTo thread place) first rest where
  high := keeps.high
  chain := (held_update_of_eq sameGap).symm ▸ keeps.chain
  tail := keeps.tail
  head := (held_update_of_eq sameHead).symm ▸ keeps.head
  account := (held_update_of_eq sameHand).symm ▸ keeps.account
  distinct := keeps.distinct
  order := keeps.order
  count := (held_update_of_eq sameUncounted).symm ▸ keeps.count
  room := (held_update_of_eq sameAdmitted).symm ▸ keeps.room
  knows := knows_goTo (fun other _ => keeps.knows other) knows

/-- An amount that is the same at the new place. -/
theorem still {Amount : Type} [AddCommMonoid Amount] (amount : ListPlace → Amount)
    {before : ListPlace} (here : state.threads thread = before) (place : ListPlace)
    (same : amount place = amount before) :
    held amount state.threads = held amount (Function.update state.threads thread place) :=
  (held_update_of_eq (same.trans (congrArg amount here.symm))).symm

/-! ### `getElement` -/

/-- The head is taken out of the list. -/
theorem takesHead (keeps : Keeps highWaterMark state first rest)
    (here : state.threads thread = .takesHead) {msg : Nat}
    (isHead : state.list.freeHead = some msg) :
    Keeps highWaterMark ({ state with
        list := { state.list with freeHead := none } }.goTo thread (.readsNext msg)) first
      rest where
  high := keeps.high
  chain := still ListPlace.gap here (.readsNext msg) rfl ▸ keeps.chain
  tail := keeps.tail
  head := by
    have head := keeps.head
    rw [isHead] at head
    obtain ⟨isFirst, none⟩ := held_eq_zero_of_shared head
    have added : held ListPlace.head (Function.update state.threads thread (.readsNext msg)) =
        msg ::ₘ held ListPlace.head state.threads := held_update_cons (by rw [here]; rfl)
    show 0 + held ListPlace.head (Function.update state.threads thread (.readsNext msg)) = _
    rw [added, none, isFirst]
    rfl
  account := still ListPlace.hand here (.readsNext msg) rfl ▸ keeps.account
  distinct := keeps.distinct
  order := keeps.order
  count := still ListPlace.uncounted here (.readsNext msg) rfl ▸ keeps.count
  room := still ListPlace.admitted here (.readsNext msg) rfl ▸ keeps.room
  knows := knows_goTo (fun other _ => keeps.knows other) trivial

/-- The head is given back. -/
theorem givesBack (keeps : Keeps highWaterMark state first rest) {msg : Nat} {spins : Bool}
    (here : state.threads thread = .givesBack msg spins)
    (isPlace : place = if spins then .countsFree else .allocates) :
    Keeps highWaterMark ({ state with
        list := { state.list with freeHead := some msg } }.goTo thread place) first rest where
  high := keeps.high
  chain := still ListPlace.gap here place (by subst isPlace; cases spins <;> rfl) ▸ keeps.chain
  tail := keeps.tail
  head := by
    obtain ⟨isFirst, -, all⟩ := keeps.head_of_place here rfl
    have gone : held ListPlace.head (Function.update state.threads thread place) = place.head :=
      held_update_of_single all (by rw [here]; rfl)
    show {msg} + held ListPlace.head (Function.update state.threads thread place) = _
    rw [gone, isFirst, isPlace]
    cases spins <;> rfl
  account := still ListPlace.hand here place (by subst isPlace; cases spins <;> rfl) ▸ keeps.account
  distinct := keeps.distinct
  order := keeps.order
  count := still ListPlace.uncounted here place (by subst isPlace; cases spins <;> rfl) ▸
    keeps.count
  room := still ListPlace.admitted here place (by subst isPlace; cases spins <;> rfl) ▸ keeps.room
  knows := knows_goTo (fun other _ => keeps.knows other) (by subst isPlace; cases spins <;> trivial)

/-- The first node leaves the list for the hand of the thread, and the second is the head. -/
theorem countsDown (keeps : Keeps highWaterMark state first rest) {msg tmp : Nat}
    (here : state.threads thread = .countsDown msg tmp) :
    ∃ second later, rest = second :: later ∧
      Keeps highWaterMark ({ state with
        list := { state.list with freeListSize := state.list.freeListSize - 1 }
        left := state.left ++ [msg] }.goTo thread (.clearsNext msg tmp)) second later := by
  obtain ⟨isFirst, noHead, all⟩ := keeps.head_of_place here rfl
  have joins : state.list.next first = some tmp := by
    have knows := keeps.knows thread
    rw [here] at knows
    exact isFirst ▸ knows
  obtain ⟨later, rfl, chain⟩ := keeps.chain.of_joins joins
  have count := keeps.count
  refine ⟨tmp, later, rfl, ?_⟩
  exact {
    high := keeps.high
    chain := still ListPlace.gap here (.clearsNext msg tmp) rfl ▸ chain
    tail := by
      rw [← List.getLast?_cons_cons (a := first)]
      exact keeps.tail
    head := by
      have moved : held ListPlace.head
          (Function.update state.threads thread (.clearsNext msg tmp)) = {tmp} :=
        held_update_of_single all (by rw [here]; rfl)
      show (state.list.freeHead.toList : Multiset Nat) +
        held ListPlace.head (Function.update state.threads thread (.clearsNext msg tmp)) = _
      rw [moved, noHead]
      rfl
    account := by
      have added : held ListPlace.hand
          (Function.update state.threads thread (.clearsNext msg tmp)) =
          msg ::ₘ held ListPlace.hand state.threads := held_update_cons (by rw [here]; rfl)
      show (state.live : Multiset Nat) = (tmp :: later : List Nat) +
        held ListPlace.hand (Function.update state.threads thread (.clearsNext msg tmp)) +
        (state.out : Multiset Nat)
      rw [added, isFirst, keeps.account, Multiset.add_cons, ← Multiset.cons_coe, Multiset.cons_add]
    distinct := keeps.distinct
    order := by
      show state.joined = (state.left ++ [msg]) ++ tmp :: later
      rw [keeps.order, isFirst, List.append_assoc]
      rfl
    count := by
      have same := still ListPlace.uncounted here (.clearsNext msg tmp) rfl
      rw [List.length_cons] at count
      show state.list.freeListSize - 1 + 1 + ((held ListPlace.uncounted
        (Function.update state.threads thread (.clearsNext msg tmp)) : Nat) : Int) = _
      rw [← same]
      omega
    room := by
      have same := still ListPlace.admitted here (.clearsNext msg tmp) rfl
      have room := keeps.room
      show state.list.freeListSize - 1 + ((held ListPlace.admitted
        (Function.update state.threads thread (.clearsNext msg tmp)) : Nat) : Int) < _
      rw [← same]
      exact lt_of_le_of_lt (by omega) room
    knows := knows_goTo (fun other _ => keeps.knows other) trivial }

/-- The link of the node in the hand of the thread is taken away. -/
theorem clearsNext (keeps : Keeps highWaterMark state first rest) {msg tmp : Nat}
    (here : state.threads thread = .clearsNext msg tmp) :
    ∃ cleared, state.writeNext msg none = some cleared ∧
      Keeps highWaterMark (cleared.goTo thread (.givesNext msg tmp)) first rest := by
  have inHand : msg ∈ (state.threads thread).hand := hand_of_place here rfl
  refine ⟨_, if_pos (keeps.live_of_hand inHand), ?_⟩
  exact {
    high := keeps.high
    chain := still ListPlace.gap here (.givesNext msg tmp) rfl ▸
      keeps.chain.update (keeps.not_free_of_hand inHand) none
    tail := keeps.tail
    head := still ListPlace.head here (.givesNext msg tmp) rfl ▸ keeps.head
    account := still ListPlace.hand here (.givesNext msg tmp) rfl ▸ keeps.account
    distinct := keeps.distinct
    order := keeps.order
    count := still ListPlace.uncounted here (.givesNext msg tmp) rfl ▸ keeps.count
    room := still ListPlace.admitted here (.givesNext msg tmp) rfl ▸ keeps.room
    knows := knows_goTo (fun _ different => keeps.knows_of_hand inHand none different) trivial }

/-- The list gets its next head, and the caller the node. -/
theorem givesNext (keeps : Keeps highWaterMark state first rest) {msg tmp : Nat}
    (here : state.threads thread = .givesNext msg tmp) :
    msg ∉ state.out ∧ Keeps highWaterMark ({ state with
        list := { state.list with freeHead := some tmp }
        out := msg :: state.out }.goTo thread .idle) first rest := by
  obtain ⟨isFirst, -, all⟩ := keeps.head_of_place here rfl
  have inHand : msg ∈ (state.threads thread).hand := hand_of_place here rfl
  have hands : held ListPlace.hand state.threads =
      msg ::ₘ held ListPlace.hand (Function.update state.threads thread .idle) :=
    held_eq_cons_update (by rw [here]; rfl)
  refine ⟨keeps.not_out_of_hand inHand, ?_⟩
  exact {
    high := keeps.high
    chain := still ListPlace.gap here .idle rfl ▸ keeps.chain
    tail := keeps.tail
    head := by
      have gone : held ListPlace.head (Function.update state.threads thread .idle) = 0 :=
        held_update_of_single all (by rw [here]; rfl)
      show {tmp} + held ListPlace.head (Function.update state.threads thread .idle) = _
      rw [gone, isFirst]
      rfl
    account := by
      show (state.live : Multiset Nat) = (first :: rest : List Nat) +
        held ListPlace.hand (Function.update state.threads thread .idle) +
        (msg :: state.out : List Nat)
      rw [keeps.account, hands, ← Multiset.cons_coe msg, Multiset.add_cons, Multiset.add_cons,
        Multiset.cons_add]
    distinct := keeps.distinct
    order := keeps.order
    count := still ListPlace.uncounted here .idle rfl ▸ keeps.count
    room := still ListPlace.admitted here .idle rfl ▸ keeps.room
    knows := knows_goTo (fun other _ => keeps.knows other) trivial }

/-- A new element goes to the caller at once. -/
theorem allocates (keeps : Keeps highWaterMark state first rest)
    (here : state.threads thread = .allocates) {fresh : Nat} (isNew : fresh ∉ state.live) :
    fresh ∉ state.out ∧ Keeps highWaterMark ({ state with
        list := state.list.allocNewElement fresh
        live := fresh :: state.live
        out := fresh :: state.out }.goTo thread .idle) first rest := by
  have notFree : fresh ∉ first :: rest := fun inFree => isNew (keeps.live_of_free inFree)
  refine ⟨fun isOut => isNew (keeps.live_of_out isOut), ?_⟩
  exact {
    high := keeps.high
    chain := still ListPlace.gap here .idle rfl ▸ keeps.chain.update notFree none
    tail := keeps.tail
    head := still ListPlace.head here .idle rfl ▸ keeps.head
    account := by
      show ((fresh :: state.live : List Nat) : Multiset Nat) = (first :: rest : List Nat) +
        held ListPlace.hand (Function.update state.threads thread .idle) +
        (fresh :: state.out : List Nat)
      rw [← still ListPlace.hand here .idle rfl, ← Multiset.cons_coe fresh, keeps.account,
        ← Multiset.cons_coe fresh, Multiset.add_cons]
    distinct := List.nodup_cons.mpr ⟨isNew, keeps.distinct⟩
    order := keeps.order
    count := still ListPlace.uncounted here .idle rfl ▸ keeps.count
    room := still ListPlace.admitted here .idle rfl ▸ keeps.room
    knows := by
      refine knows_goTo (fun other _ => (keeps.knows other).update (fun inHand => ?_)
        (fun isHead => ?_) none) trivial
      · exact isNew (keeps.live_of_hand inHand)
      · exact absurd (keeps.free_of_head isHead) notFree }

/-! ### `releaseElement` -/

/-- An element of the callers comes into the hand of the thread. -/
theorem releases (keeps : Keeps highWaterMark state first rest)
    (here : state.threads thread = .idle) {velement : Nat} (isOut : velement ∈ state.out) :
    Keeps highWaterMark ({ state with
        out := state.out.erase velement }.goTo thread (.countsRoom velement)) first rest where
  high := keeps.high
  chain := still ListPlace.gap here (.countsRoom velement) rfl ▸ keeps.chain
  tail := keeps.tail
  head := still ListPlace.head here (.countsRoom velement) rfl ▸ keeps.head
  account := by
    have added : held ListPlace.hand (Function.update state.threads thread (.countsRoom velement)) =
        velement ::ₘ held ListPlace.hand state.threads := held_update_cons (by rw [here]; rfl)
    show (state.live : Multiset Nat) = (first :: rest : List Nat) +
      held ListPlace.hand (Function.update state.threads thread (.countsRoom velement)) +
      (state.out.erase velement : List Nat)
    rw [keeps.account, added, ← Multiset.coe_erase, Multiset.add_cons, Multiset.cons_add,
      ← Multiset.add_cons, Multiset.cons_erase (Multiset.mem_coe.mpr isOut)]
  distinct := keeps.distinct
  order := keeps.order
  count := still ListPlace.uncounted here (.countsRoom velement) rfl ▸ keeps.count
  room := still ListPlace.admitted here (.countsRoom velement) rfl ▸ keeps.room
  knows := knows_goTo (fun other _ => keeps.knows other) trivial

/-- Where there is room, at most as many threads as there are have seen it. -/
theorem countsRoom (keeps : Keeps highWaterMark state first rest) {velement : Nat}
    (here : state.threads thread = .countsRoom velement)
    (hasRoom : state.list.freeListSize < state.list.highWaterMark) :
    Keeps highWaterMark (state.goTo thread (.clearsElement velement)) first rest where
  high := keeps.high
  chain := still ListPlace.gap here (.clearsElement velement) rfl ▸ keeps.chain
  tail := keeps.tail
  head := still ListPlace.head here (.clearsElement velement) rfl ▸ keeps.head
  account := still ListPlace.hand here (.clearsElement velement) rfl ▸ keeps.account
  distinct := keeps.distinct
  order := keeps.order
  count := still ListPlace.uncounted here (.clearsElement velement) rfl ▸ keeps.count
  room := by
    have most : held ListPlace.admitted (state.goTo thread (.clearsElement velement)).threads ≤
        Fintype.card Thread * 1 := held_le_card ListPlace.admitted_le_one
    rw [mul_one] at most
    exact add_lt_add_of_lt_of_le (hasRoom.trans_eq keeps.high) (Int.ofNat_le.mpr most)
  knows := knows_goTo (fun other _ => keeps.knows other) trivial

/-- An element for which there is no room is deleted. -/
theorem deletes (keeps : Keeps highWaterMark state first rest) {velement : Nat}
    (here : state.threads thread = .deletes velement) :
    velement ∈ state.live ∧ Keeps highWaterMark ({ state with
        live := state.live.erase velement }.goTo thread .throws) first rest := by
  have inHand : velement ∈ (state.threads thread).hand := hand_of_place here rfl
  have hands : held ListPlace.hand state.threads =
      velement ::ₘ held ListPlace.hand (Function.update state.threads thread .throws) :=
    held_eq_cons_update (by rw [here]; rfl)
  refine ⟨keeps.live_of_hand inHand, ?_⟩
  exact {
    high := keeps.high
    chain := still ListPlace.gap here .throws rfl ▸ keeps.chain
    tail := keeps.tail
    head := still ListPlace.head here .throws rfl ▸ keeps.head
    account := by
      show (state.live.erase velement : Multiset Nat) = (first :: rest : List Nat) +
        held ListPlace.hand (Function.update state.threads thread .throws) +
        (state.out : Multiset Nat)
      rw [← Multiset.coe_erase, keeps.account, hands, Multiset.add_cons, Multiset.cons_add,
        Multiset.erase_cons_head]
    distinct := keeps.distinct.erase velement
    order := keeps.order
    count := still ListPlace.uncounted here .throws rfl ▸ keeps.count
    room := still ListPlace.admitted here .throws rfl ▸ keeps.room
    knows := knows_goTo (fun other _ => keeps.knows other) trivial }

/-- The link of the element is taken away before the element is appended. -/
theorem clearsElement (keeps : Keeps highWaterMark state first rest) {velement : Nat}
    (here : state.threads thread = .clearsElement velement) :
    ∃ cleared, state.writeNext velement none = some cleared ∧
      Keeps highWaterMark (cleared.goTo thread (.takesTail velement)) first rest := by
  have inHand : velement ∈ (state.threads thread).hand := hand_of_place here rfl
  refine ⟨_, if_pos (keeps.live_of_hand inHand), ?_⟩
  exact {
    high := keeps.high
    chain := still ListPlace.gap here (.takesTail velement) rfl ▸
      keeps.chain.update (keeps.not_free_of_hand inHand) none
    tail := keeps.tail
    head := still ListPlace.head here (.takesTail velement) rfl ▸ keeps.head
    account := still ListPlace.hand here (.takesTail velement) rfl ▸ keeps.account
    distinct := keeps.distinct
    order := keeps.order
    count := still ListPlace.uncounted here (.takesTail velement) rfl ▸ keeps.count
    room := still ListPlace.admitted here (.takesTail velement) rfl ▸ keeps.room
    knows := knows_goTo (fun _ different => keeps.knows_of_hand inHand none different)
      (Function.update_self ..) }

/-- The element is the last one from here on, with a gap in front of it. -/
theorem takesTail (keeps : Keeps highWaterMark state first rest) {velement : Nat}
    (here : state.threads thread = .takesTail velement) :
    Keeps highWaterMark ({ state with
        list := { state.list with freeTail := some velement }
        joined := state.joined ++ [velement]
      }.goTo thread (.linksTail state.list.freeTail velement)) first (rest ++ [velement]) := by
  obtain ⟨last, isLast⟩ : ∃ last, state.list.freeTail = some last :=
    ⟨_, keeps.tail.symm.trans (List.getLast?_eq_some_getLast (List.cons_ne_nil _ _))⟩
  have ends : state.list.next velement = none := by
    have knows := keeps.knows thread
    rw [here] at knows
    exact knows
  have hands : held ListPlace.hand state.threads = velement ::ₘ held ListPlace.hand
      (Function.update state.threads thread (.linksTail state.list.freeTail velement)) :=
    held_eq_cons_update (by rw [here]; rfl)
  have gaps : held ListPlace.gap
        (Function.update state.threads thread (.linksTail state.list.freeTail velement)) =
      (last, velement) ::ₘ held ListPlace.gap state.threads :=
    held_update_cons (by rw [here, isLast]; rfl)
  have uncounted : held ListPlace.uncounted
      (Function.update state.threads thread (.linksTail state.list.freeTail velement)) =
      held ListPlace.uncounted state.threads + 1 := by
    have moved := held_update ListPlace.uncounted state.threads thread
      (.linksTail state.list.freeTail velement)
    rwa [here] at moved
  exact {
    high := keeps.high
    chain := gaps ▸ keeps.chain.append (keeps.tail.trans isLast) ends
    tail := by
      rw [← List.cons_append]
      exact List.getLast?_concat ..
    head := still ListPlace.head here (.linksTail state.list.freeTail velement) rfl ▸ keeps.head
    account := by
      show (state.live : Multiset Nat) = ((first :: rest) ++ [velement] : List Nat) +
        held ListPlace.hand
          (Function.update state.threads thread (.linksTail state.list.freeTail velement)) +
        (state.out : Multiset Nat)
      rw [keeps.account, hands, ← Multiset.coe_add, Multiset.coe_singleton, Multiset.add_cons,
        Multiset.add_assoc, Multiset.add_assoc, Multiset.singleton_add, Multiset.add_cons,
        Multiset.cons_add, Multiset.add_assoc]
    distinct := keeps.distinct
    order := by
      show state.joined ++ [velement] = state.left ++ first :: (rest ++ [velement])
      rw [keeps.order, List.append_assoc, List.cons_append]
    count := by
      have count := keeps.count
      show state.list.freeListSize + 1 + ((held ListPlace.uncounted (Function.update state.threads
        thread (.linksTail state.list.freeTail velement)) : Nat) : Int) =
        ((first :: rest) ++ [velement]).length
      rw [uncounted, List.length_append, Int.natCast_add, Int.natCast_add, ← count, ← add_assoc]
      rfl
    room := still ListPlace.admitted here (.linksTail state.list.freeTail velement) rfl ▸ keeps.room
    knows := knows_goTo (fun other _ => keeps.knows other) (isLast ▸ nofun) }

/-- The gap in front of the element is closed. -/
theorem linksTail (keeps : Keeps highWaterMark state first rest) {oldTail : Option Nat}
    {velement : Nat} (here : state.threads thread = .linksTail oldTail velement) :
    ∃ tail linked, oldTail = some tail ∧ state.writeNext tail (some velement) = some linked ∧
      Keeps highWaterMark (linked.goTo thread .countsUp) first rest := by
  obtain ⟨tail, rfl⟩ : ∃ tail, oldTail = some tail := by
    have knows := keeps.knows thread
    rw [here] at knows
    exact Option.ne_none_iff_exists'.mp knows
  have gaps : held ListPlace.gap state.threads =
      (tail, velement) ::ₘ held ListPlace.gap (Function.update state.threads thread .countsUp) :=
    held_eq_cons_update (by rw [here]; rfl)
  obtain ⟨inFree, ends⟩ := keeps.chain.of_mem_gaps (gaps ▸ Multiset.mem_cons_self ..)
  refine ⟨tail, _, rfl, if_pos (keeps.live_of_free inFree), ?_⟩
  exact {
    high := keeps.high
    chain := (gaps ▸ keeps.chain).join keeps.nodup_free
    tail := keeps.tail
    head := still ListPlace.head here .countsUp rfl ▸ keeps.head
    account := still ListPlace.hand here .countsUp rfl ▸ keeps.account
    distinct := keeps.distinct
    order := keeps.order
    count := still ListPlace.uncounted here .countsUp rfl ▸ keeps.count
    room := still ListPlace.admitted here .countsUp rfl ▸ keeps.room
    knows := knows_goTo (fun other _ => (keeps.knows other).update
      (fun inHand => keeps.not_free_of_hand inHand inFree) (fun _ => ends) _) trivial }

theorem countsUp (keeps : Keeps highWaterMark state first rest)
    (here : state.threads thread = .countsUp) :
    Keeps highWaterMark ({ state with
        list := { state.list with freeListSize := state.list.freeListSize + 1 }
      }.goTo thread .throws) first rest where
  high := keeps.high
  chain := still ListPlace.gap here .throws rfl ▸ keeps.chain
  tail := keeps.tail
  head := still ListPlace.head here .throws rfl ▸ keeps.head
  account := still ListPlace.hand here .throws rfl ▸ keeps.account
  distinct := keeps.distinct
  order := keeps.order
  count := by
    have uncounted : held ListPlace.uncounted (Function.update state.threads thread .throws) + 1 =
        held ListPlace.uncounted state.threads := by
      have moved := held_update ListPlace.uncounted state.threads thread .throws
      rwa [here] at moved
    show state.list.freeListSize + 1 + 1 +
      ((held ListPlace.uncounted (Function.update state.threads thread .throws) : Nat) : Int) = _
    rw [← keeps.count, ← uncounted, Int.natCast_add, Int.natCast_one, add_assoc _ 1,
      add_comm 1 (Nat.cast _)]
  room := by
    have admitted : held ListPlace.admitted (Function.update state.threads thread .throws) + 1 =
        held ListPlace.admitted state.threads := by
      have moved := held_update ListPlace.admitted state.threads thread .throws
      rwa [here] at moved
    have room := keeps.room
    show state.list.freeListSize + 1 +
      ((held ListPlace.admitted (Function.update state.threads thread .throws) : Nat) : Int) < _
    rw [← admitted, Int.natCast_add, Int.natCast_one, add_comm (Nat.cast _) 1, ← add_assoc] at room
    exact room
  knows := knows_goTo (fun other _ => keeps.knows other) trivial

end Keeps

end ListThreads

end ObLib
