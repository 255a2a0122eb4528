/-
This file proves that a `MsgList` is a first-in-first-out queue however the calls of its
threads interleave, and says exactly when its `_size` is right.

The two locks let one `put` and one `get` touch the list at a time. A `get` that takes
the node that a `put` has just linked gives back the node to which the tail still points;
nobody reads through the tail before the `put` has moved it on, so no access is to a node
that was deleted. A `peek` is the exception, as it takes no lock. The count is not under
one lock, and what one side writes undoes what the other wrote since it read it.
-/

import OrderBookSketch.MsgListThreads

namespace ObLib

open Runs Chains Interleaving

namespace MsgListThreads

variable {Val Thread : Type} [Fintype Thread]

namespace Keeps

variable {state : MsgListThreads Val Thread} {vals : List Val} {rest : List Nat} {thread : Thread}
  {place before : QueuePlace Val}

theorem apart (keeps : Keeps state vals rest) :
    ((state.head :: rest : List Nat) + held QueuePlace.hand state.threads).Nodup :=
  keeps.account ▸ Multiset.coe_nodup.mpr keeps.distinct

theorem live_of_node (keeps : Keeps state vals rest) {node : Nat}
    (inQueue : node ∈ state.head :: rest) : node ∈ state.live := by
  rw [← Multiset.mem_coe, keeps.account]
  exact Multiset.mem_add.mpr (.inl (Multiset.mem_coe.mpr inQueue))

/-- The node behind the head is in the queue. -/
theorem next_mem (keeps : Keeps state vals rest) {newHead : Nat}
    (isNext : state.next state.head = some newHead) : ∃ later, rest = newHead :: later := by
  have linked := keeps.chain.2
  match rest, linked with
  | [], linked => exact absurd (linked.symm.trans isNext) nofun
  | node :: later, linked => exact ⟨later, by rw [Option.some.inj (linked.1.symm.trans isNext)]⟩

/-- The count has no part in this. -/
theorem withSize (keeps : Keeps state vals rest) (size : Int) :
    Keeps { state with size } vals rest where
  chain := keeps.chain
  values := keeps.values
  tail := keeps.tail
  lockTail := keeps.lockTail
  lockHead := keeps.lockHead
  account := keeps.account
  distinct := keeps.distinct
  order := keeps.order
  knows := keeps.knows

variable [DecidableEq Thread]

theorem live_of_hand (keeps : Keeps state vals rest) {node : Nat}
    (inHand : node ∈ (state.threads thread).hand) : node ∈ state.live := by
  rw [← Multiset.mem_coe, keeps.account]
  exact Multiset.mem_add.mpr (.inr (mem_held inHand))

/-- A node of the queue is in no hand. -/
theorem not_node_of_hand (keeps : Keeps state vals rest) {node : Nat}
    (inHand : node ∈ (state.threads thread).hand) : node ∉ state.head :: rest :=
  fun inQueue => Multiset.disjoint_left.mp (Multiset.nodup_add.mp keeps.apart).2.2
    (Multiset.mem_coe.mpr inQueue) (mem_held inHand)

/-- A node is in one hand only. -/
theorem not_hand_of_hand (keeps : Keeps state vals rest) {node : Nat}
    (inHand : node ∈ (state.threads thread).hand) {other : Thread} (different : other ≠ thread) :
    node ∉ (state.threads other).hand := fun isThere =>
  different (eq_of_mem_held (Multiset.nodup_add.mp keeps.apart).2.1 inHand isThere)

/-- The lock of the tail has one holder. -/
theorem others_tail (keeps : Keeps state vals rest) (here : (state.threads thread).holdsTail = 1)
    {other : Thread} (different : other ≠ thread) : (state.threads other).holdsTail = 0 := by
  refine eq_zero_of_held_le_one ?_ here different
  rw [keeps.lockTail]
  split_ifs <;> decide

/-- The lock of the head has one holder. -/
theorem others_head (keeps : Keeps state vals rest) (here : (state.threads thread).holdsHead = 1)
    {other : Thread} (different : other ≠ thread) : (state.threads other).holdsHead = 0 := by
  refine eq_zero_of_held_le_one ?_ here different
  rw [keeps.lockHead]
  split_ifs <;> decide

/-- What is written to a node in a hand is relied on by no other thread. -/
theorem knows_of_write (keeps : Keeps state vals rest) {node : Nat}
    (inHand : node ∈ (state.threads thread).hand) {other : Thread} (different : other ≠ thread)
    (val : Option Val) :
    (state.threads other).Knows state.next (Function.update state.value node val) state.head
      (state.head :: rest).getLast? state.live := by
  refine (keeps.knows other).congr (fun member inOther => ⟨rfl, ?_⟩) (fun _ => rfl)
    (fun _ => ⟨rfl, fun newHead isNext => ⟨isNext, ?_⟩⟩) (fun _ _ isLive => isLive)
  · exact Function.update_of_ne
      (ne_of_mem_of_not_mem inOther (keeps.not_hand_of_hand inHand different)) ..
  · obtain ⟨later, rfl⟩ := keeps.next_mem isNext
    exact Function.update_of_ne (ne_of_mem_of_not_mem
      (List.mem_cons_of_mem _ List.mem_cons_self) (keeps.not_node_of_hand inHand)) ..

/-- An amount that is the same at the new place. -/
theorem still {Amount : Type} [AddCommMonoid Amount] (amount : QueuePlace Val → Amount)
    (here : state.threads thread = before) (place : QueuePlace Val)
    (same : amount place = amount before) :
    held amount state.threads = held amount (Function.update state.threads thread place) :=
  (held_update_of_eq (same.trans (congrArg amount here.symm))).symm

/-- A thread moves to a place that holds the same. -/
theorem goTo (keeps : Keeps state vals rest) (here : state.threads thread = before)
    (sameHand : place.hand = before.hand) (sameTail : place.holdsTail = before.holdsTail)
    (sameHead : place.holdsHead = before.holdsHead) (sameLags : place.lags = before.lags)
    (sameTaken : place.taken = before.taken)
    (knows : place.Knows state.next state.value state.head (state.head :: rest).getLast?
      state.live) :
    Keeps (state.goTo thread place) vals rest where
  chain := keeps.chain
  values := keeps.values
  tail := still QueuePlace.lags here place sameLags ▸ keeps.tail
  lockTail := still QueuePlace.holdsTail here place sameTail ▸ keeps.lockTail
  lockHead := still QueuePlace.holdsHead here place sameHead ▸ keeps.lockHead
  account := still QueuePlace.hand here place sameHand ▸ keeps.account
  distinct := keeps.distinct
  order := still QueuePlace.taken here place sameTaken ▸ keeps.order
  knows := (Function.forall_update_iff _ fun _ (place : QueuePlace Val) => place.Knows ..).mpr
    ⟨knows, fun other _ => keeps.knows other⟩

/-! ### `put` -/

/-- The node comes into the hand of the thread. -/
theorem getsElement (keeps : Keeps state vals rest) {val : Val}
    (here : state.threads thread = .getsElement val) {fresh : Nat} (isNew : fresh ∉ state.live) :
    Keeps ({ state with
      next := Function.update state.next fresh none
      value := Function.update state.value fresh none
      live := fresh :: state.live }.goTo thread (.storesValue val fresh)) vals rest := by
  have notNode {node : Nat} (inQueue : node ∈ state.head :: rest) : node ≠ fresh :=
    ne_of_mem_of_not_mem (keeps.live_of_node inQueue) isNew
  exact {
    chain := keeps.chain.update (fun inQueue => notNode inQueue rfl) none
    values := keeps.values.congr fun node inRest =>
      Function.update_of_ne (notNode (List.mem_cons_of_mem _ inRest)) ..
    tail := still QueuePlace.lags here (.storesValue val fresh) rfl ▸ keeps.tail
    lockTail := still QueuePlace.holdsTail here (.storesValue val fresh) rfl ▸ keeps.lockTail
    lockHead := still QueuePlace.holdsHead here (.storesValue val fresh) rfl ▸ keeps.lockHead
    account := by
      have added : held QueuePlace.hand
          (Function.update state.threads thread (.storesValue val fresh)) =
          fresh ::ₘ held QueuePlace.hand state.threads := held_update_cons (by rw [here]; rfl)
      show ((fresh :: state.live : List Nat) : Multiset Nat) = (state.head :: rest : List Nat) +
        held QueuePlace.hand (Function.update state.threads thread (.storesValue val fresh))
      rw [added, ← Multiset.cons_coe, keeps.account, Multiset.add_cons]
    distinct := List.nodup_cons.mpr ⟨isNew, keeps.distinct⟩
    order := still QueuePlace.taken here (.storesValue val fresh) rfl ▸ keeps.order
    knows := by
      refine (Function.forall_update_iff _ fun _ (place : QueuePlace Val) => place.Knows ..).mpr
        ⟨Function.update_self .., fun other _ => (keeps.knows other).congr (fun node inHand => ?_)
          (fun _ => rfl) (fun _ => ⟨rfl, fun newHead isNext => ?_⟩)
          (fun node _ isLive => List.mem_cons_of_mem _ isLive)⟩
      · have notFresh := ne_of_mem_of_not_mem (keeps.live_of_hand inHand) isNew
        exact ⟨Function.update_of_ne notFresh .., Function.update_of_ne notFresh ..⟩
      · obtain ⟨later, rfl⟩ := keeps.next_mem isNext
        have notFresh := notNode (List.mem_cons_of_mem _ List.mem_cons_self)
        exact ⟨(Function.update_of_ne (notNode List.mem_cons_self) ..).trans isNext,
          Function.update_of_ne notFresh ..⟩ }

/-- The value is written to the node in the hand of the thread. -/
theorem storesValue (keeps : Keeps state vals rest) {val : Val} {msg : Nat}
    (here : state.threads thread = .storesValue val msg) :
    msg ∈ state.live ∧ Keeps ({ state with
      value := Function.update state.value msg (some val) }.goTo thread (.locksTail val msg))
      vals rest := by
  have inHand : msg ∈ (state.threads thread).hand := by
    rw [here]
    exact Multiset.mem_singleton_self msg
  have ends : state.next msg = none := by
    have knows := keeps.knows thread
    rw [here] at knows
    exact knows
  have notNode := keeps.not_node_of_hand inHand
  refine ⟨keeps.live_of_hand inHand, ?_⟩
  exact {
    chain := keeps.chain
    values := keeps.values.congr fun node inRest =>
      Function.update_of_ne (ne_of_mem_of_not_mem (List.mem_cons_of_mem _ inRest) notNode) ..
    tail := still QueuePlace.lags here (.locksTail val msg) rfl ▸ keeps.tail
    lockTail := still QueuePlace.holdsTail here (.locksTail val msg) rfl ▸ keeps.lockTail
    lockHead := still QueuePlace.holdsHead here (.locksTail val msg) rfl ▸ keeps.lockHead
    account := still QueuePlace.hand here (.locksTail val msg) rfl ▸ keeps.account
    distinct := keeps.distinct
    order := still QueuePlace.taken here (.locksTail val msg) rfl ▸ keeps.order
    knows := (Function.forall_update_iff _ fun _ (place : QueuePlace Val) => place.Knows ..).mpr
      ⟨⟨ends, Function.update_self ..⟩,
        fun other different => keeps.knows_of_write inHand different _⟩ }

/-- The lock of the tail is taken. -/
theorem locksTail (keeps : Keeps state vals rest) {val : Val} {msg : Nat}
    (here : state.threads thread = .locksTail val msg) (unlocked : state.lockedTail = false) :
    Keeps ({ state with lockedTail := true }.goTo thread (.readsTail val msg)) vals rest where
  chain := keeps.chain
  values := keeps.values
  tail := still QueuePlace.lags here (.readsTail val msg) rfl ▸ keeps.tail
  lockTail := held_of_lock keeps.lockTail unlocked (by rw [here]; rfl) rfl
  lockHead := still QueuePlace.holdsHead here (.readsTail val msg) rfl ▸ keeps.lockHead
  account := still QueuePlace.hand here (.readsTail val msg) rfl ▸ keeps.account
  distinct := keeps.distinct
  order := still QueuePlace.taken here (.readsTail val msg) rfl ▸ keeps.order
  knows := by
    have knows := keeps.knows thread
    rw [here] at knows
    exact (Function.forall_update_iff _ fun _ (place : QueuePlace Val) => place.Knows ..).mpr
      ⟨knows, fun other _ => keeps.knows other⟩

/-- A holder of the lock of the tail that does not lag reads the last node. -/
theorem tail_of_holder (keeps : Keeps state vals rest) (here : state.threads thread = before)
    (holds : before.holdsTail = 1) (current : before.lags = 0) :
    (state.head :: rest).getLast? = some state.tail := by
  refine keeps.tail (held_eq_zero fun other => ?_)
  by_cases same : other = thread
  · rw [same, here, current]
  · exact Nat.le_zero.mp ((QueuePlace.lags_le_holdsTail _).trans
      (keeps.others_tail (here ▸ holds) same).le)

/-- The node is the last one of the queue, and its value the last one. -/
theorem linksTail (keeps : Keeps state vals rest) {val : Val} {msg tail : Nat}
    (here : state.threads thread = .linksTail val msg tail) :
    tail ∈ state.live ∧ Keeps ({ state with
      next := Function.update state.next tail (some msg)
      linked := state.linked ++ [val] }.goTo thread (.movesTail msg)) (vals ++ [val])
      (rest ++ [msg]) := by
  have inHand : msg ∈ (state.threads thread).hand := by
    rw [here]
    exact Multiset.mem_singleton_self msg
  obtain ⟨⟨ends, carries⟩, isLast⟩ : (state.next msg = none ∧ state.value msg = some val) ∧
      (state.head :: rest).getLast? = some tail := by
    have knows := keeps.knows thread
    rw [here] at knows
    exact knows
  have inQueue : tail ∈ state.head :: rest := List.mem_of_getLast? isLast
  have noLink : state.next tail = none := keeps.chain.next_last isLast
  have different : msg ≠ tail := (ne_of_mem_of_not_mem inQueue (keeps.not_node_of_hand inHand)).symm
  have hands : held QueuePlace.hand state.threads =
      msg ::ₘ held QueuePlace.hand (Function.update state.threads thread (.movesTail msg)) :=
    held_eq_cons_update (by rw [here]; rfl)
  refine ⟨keeps.live_of_node inQueue, ?_⟩
  exact {
    chain := keeps.chain.append isLast (Function.update_self ..)
      ((Function.update_of_ne different ..).trans ends)
      fun node _ other => Function.update_of_ne other ..
    values := keeps.values.append carries
    tail := fun none => by
      have lags := le_held QueuePlace.lags
        (Function.update state.threads thread (.movesTail msg)) thread
      rw [Function.update_self] at lags
      exact absurd (lags.trans (Nat.le_of_eq none)) (Nat.not_succ_le_zero 0)
    lockTail := still QueuePlace.holdsTail here (.movesTail msg) rfl ▸ keeps.lockTail
    lockHead := still QueuePlace.holdsHead here (.movesTail msg) rfl ▸ keeps.lockHead
    account := by
      show (state.live : Multiset Nat) = ((state.head :: rest) ++ [msg] : List Nat) +
        held QueuePlace.hand (Function.update state.threads thread (.movesTail msg))
      rw [keeps.account, hands, ← Multiset.coe_add, Multiset.coe_singleton, Multiset.add_cons,
        Multiset.add_assoc, Multiset.singleton_add, Multiset.add_cons]
    distinct := keeps.distinct
    order := by
      obtain ⟨inHand, isTaken, order⟩ := keeps.order
      refine ⟨inHand, isTaken.trans (still QueuePlace.taken here (.movesTail msg) rfl), ?_⟩
      show state.linked ++ [val] = state.returned ++ inHand ++ (vals ++ [val])
      rw [order, List.append_assoc _ vals]
    knows := by
      refine (Function.forall_update_iff _ fun _ (place : QueuePlace Val) => place.Knows ..).mpr
        ⟨?_, fun other different => (keeps.knows other).congr (fun node inOther => ⟨?_, rfl⟩)
          (fun holds => ?_) (fun _ => ⟨rfl, fun newHead isNext => ⟨?_, rfl⟩⟩)
          (fun _ _ isLive => isLive)⟩
      · show ((state.head :: rest) ++ [msg]).getLast? = some msg
        exact List.getLast?_concat ..
      · exact Function.update_of_ne
          (ne_of_mem_of_not_mem inQueue (keeps.not_node_of_hand inOther)).symm ..
      · have locks : (state.threads thread).holdsTail = 1 := by rw [here]; rfl
        have free := keeps.others_tail locks different
        rw [free] at holds
        cases holds
      · have notTail : state.head ≠ tail := by
          rintro same
          rw [same, noLink] at isNext
          cases isNext
        exact (Function.update_of_ne notTail ..).trans isNext }

/-- The tail is moved to the node that was linked. -/
theorem movesTail (keeps : Keeps state vals rest) {msg : Nat}
    (here : state.threads thread = .movesTail msg) :
    Keeps ({ state with tail := msg }.goTo thread .readsUp) vals rest where
  chain := keeps.chain
  values := keeps.values
  tail := by
    have knows := keeps.knows thread
    rw [here] at knows
    exact fun _ => knows
  lockTail := still QueuePlace.holdsTail here .readsUp rfl ▸ keeps.lockTail
  lockHead := still QueuePlace.holdsHead here .readsUp rfl ▸ keeps.lockHead
  account := still QueuePlace.hand here .readsUp rfl ▸ keeps.account
  distinct := keeps.distinct
  order := still QueuePlace.taken here .readsUp rfl ▸ keeps.order
  knows := (Function.forall_update_iff _ fun _ (place : QueuePlace Val) => place.Knows ..).mpr
    ⟨trivial, fun other _ => keeps.knows other⟩

theorem unlocksTail (keeps : Keeps state vals rest) {size : Int}
    (here : state.threads thread = .unlocksTail size) :
    Keeps ({ state with lockedTail := false }.goTo thread .idle) vals rest where
  chain := keeps.chain
  values := keeps.values
  tail := still QueuePlace.lags here .idle rfl ▸ keeps.tail
  lockTail := held_of_unlock keeps.lockTail (by rw [here]; rfl) rfl
  lockHead := still QueuePlace.holdsHead here .idle rfl ▸ keeps.lockHead
  account := still QueuePlace.hand here .idle rfl ▸ keeps.account
  distinct := keeps.distinct
  order := still QueuePlace.taken here .idle rfl ▸ keeps.order
  knows := (Function.forall_update_iff _ fun _ (place : QueuePlace Val) => place.Knows ..).mpr
    ⟨trivial, fun other _ => keeps.knows other⟩

/-! ### `get` -/

/-- The lock of the head is taken. -/
theorem locksHead (keeps : Keeps state vals rest) (here : state.threads thread = .locksHead)
    (unlocked : state.lockedHead = false) :
    Keeps ({ state with lockedHead := true }.goTo thread .readsHead) vals rest where
  chain := keeps.chain
  values := keeps.values
  tail := still QueuePlace.lags here .readsHead rfl ▸ keeps.tail
  lockTail := still QueuePlace.holdsTail here .readsHead rfl ▸ keeps.lockTail
  lockHead := held_of_lock keeps.lockHead unlocked (by rw [here]; rfl) rfl
  account := still QueuePlace.hand here .readsHead rfl ▸ keeps.account
  distinct := keeps.distinct
  order := still QueuePlace.taken here .readsHead rfl ▸ keeps.order
  knows := (Function.forall_update_iff _ fun _ (place : QueuePlace Val) => place.Knows ..).mpr
    ⟨trivial, fun other _ => keeps.knows other⟩

/-- The holder of the lock of the head has all values that were taken and not returned. -/
theorem taken_of_holder (keeps : Keeps state vals rest) (here : state.threads thread = before)
    (holds : before.holdsHead = 1) : held QueuePlace.taken state.threads = before.taken := by
  rw [held_eq_of_others fun other different => ?_, here]
  exact QueuePlace.taken_eq_zero (keeps.others_head (here ▸ holds) different)

/-- The node behind the head becomes the head, and its value is taken out of the queue. -/
theorem movesHead (keeps : Keeps state vals rest) {msg newHead : Nat} {size : Int}
    {elem : Option Val} (here : state.threads thread = .movesHead msg newHead size elem) :
    ∃ val later valsLater, elem = some val ∧ rest = newHead :: later ∧ vals = val :: valsLater ∧
      Keeps ({ state with head := newHead }.goTo thread (.clearsValue msg size val)) valsLater
        later := by
  obtain ⟨⟨isHead, isNext⟩, isElem⟩ :
      (msg = state.head ∧ state.next msg = some newHead) ∧ elem = state.value newHead := by
    have knows := keeps.knows thread
    rw [here] at knows
    exact knows
  subst isHead
  obtain ⟨later, rfl⟩ := keeps.next_mem isNext
  have values := keeps.values
  cases vals with
  | nil => cases values.length_eq
  | cons val valsLater =>
    obtain ⟨carries, valuesLater⟩ := values.of_cons
    have holds : (state.threads thread).holdsHead = 1 := by rw [here]; rfl
    have sameLast : (newHead :: later).getLast? = (state.head :: newHead :: later).getLast? :=
      (List.getLast?_cons_cons ..).symm
    refine ⟨val, later, valsLater, isElem.trans carries, rfl, rfl, ?_⟩
    exact {
      chain := isNext ▸ keeps.chain.2
      values := valuesLater
      tail := fun none => sameLast.trans
        (keeps.tail ((still QueuePlace.lags here (.clearsValue _ size val) rfl).trans none))
      lockTail := still QueuePlace.holdsTail here (.clearsValue _ size val) rfl ▸ keeps.lockTail
      lockHead := still QueuePlace.holdsHead here (.clearsValue _ size val) rfl ▸ keeps.lockHead
      account := by
        have added : held QueuePlace.hand
            (Function.update state.threads thread (.clearsValue state.head size val)) =
            state.head ::ₘ held QueuePlace.hand state.threads :=
          held_update_cons (by rw [here]; rfl)
        show (state.live : Multiset Nat) = (newHead :: later : List Nat) + held QueuePlace.hand
          (Function.update state.threads thread (.clearsValue state.head size val))
        rw [added, keeps.account, Multiset.add_cons, ← Multiset.cons_coe state.head,
          Multiset.cons_add]
      distinct := keeps.distinct
      order := by
        obtain ⟨inHand, isTaken, order⟩ := keeps.order
        rw [keeps.taken_of_holder here rfl] at isTaken
        obtain rfl := (Multiset.coe_eq_zero _).mp isTaken
        refine ⟨[val], ?_, by rw [order, List.append_nil, List.append_assoc]; rfl⟩
        have added : held QueuePlace.taken
            (Function.update state.threads thread (.clearsValue state.head size val)) =
            val ::ₘ held QueuePlace.taken state.threads := held_update_cons (by rw [here]; rfl)
        rw [keeps.taken_of_holder here rfl] at added
        exact added.symm
      knows := (Function.forall_update_iff _ fun _ (place : QueuePlace Val) => place.Knows ..).mpr
        ⟨isNext, fun other different => (keeps.knows other).congr (fun _ _ => ⟨rfl, rfl⟩)
          (fun _ => sameLast)
          (fun holdsToo => absurd (keeps.others_head holds different) (by rw [holdsToo]; decide))
          (fun _ _ isLive => isLive)⟩ }

/-- The value of the old head is taken away. -/
theorem clearsValue (keeps : Keeps state vals rest) {msg : Nat} {size : Int} {elem : Val}
    (here : state.threads thread = .clearsValue msg size elem) :
    msg ∈ state.live ∧ Keeps ({ state with
      value := Function.update state.value msg none }.goTo thread (.releases msg size elem))
      vals rest := by
  have inHand : msg ∈ (state.threads thread).hand := by
    rw [here]
    exact Multiset.mem_singleton_self msg
  have knows := keeps.knows thread
  rw [here] at knows
  refine ⟨keeps.live_of_hand inHand, ?_⟩
  exact {
    chain := keeps.chain
    values := keeps.values.congr fun node inRest => Function.update_of_ne
      (ne_of_mem_of_not_mem (List.mem_cons_of_mem _ inRest) (keeps.not_node_of_hand inHand)) ..
    tail := still QueuePlace.lags here (.releases msg size elem) rfl ▸ keeps.tail
    lockTail := still QueuePlace.holdsTail here (.releases msg size elem) rfl ▸ keeps.lockTail
    lockHead := still QueuePlace.holdsHead here (.releases msg size elem) rfl ▸ keeps.lockHead
    account := still QueuePlace.hand here (.releases msg size elem) rfl ▸ keeps.account
    distinct := keeps.distinct
    order := still QueuePlace.taken here (.releases msg size elem) rfl ▸ keeps.order
    knows := (Function.forall_update_iff _ fun _ (place : QueuePlace Val) => place.Knows ..).mpr
      ⟨knows, fun other different => keeps.knows_of_write inHand different _⟩ }

/-- The old head is deleted, which no `peek` is about to read. -/
theorem releases (keeps : Keeps state vals rest) {msg : Nat} {size : Int} {elem : Val}
    (here : state.threads thread = .releases msg size elem)
    (unseen : ∀ other, (state.threads other).peeks ≠ some msg) :
    msg ∈ state.live ∧ Keeps ({ state with
      live := state.live.erase msg }.goTo thread (.unlocksHead size (some elem))) vals rest := by
  have inHand : msg ∈ (state.threads thread).hand := by
    rw [here]
    exact Multiset.mem_singleton_self msg
  have hands : held QueuePlace.hand state.threads = msg ::ₘ held QueuePlace.hand
      (Function.update state.threads thread (.unlocksHead size (some elem))) :=
    held_eq_cons_update (by rw [here]; rfl)
  refine ⟨keeps.live_of_hand inHand, ?_⟩
  exact {
    chain := keeps.chain
    values := keeps.values
    tail := still QueuePlace.lags here (.unlocksHead size (some elem)) rfl ▸ keeps.tail
    lockTail := still QueuePlace.holdsTail here (.unlocksHead size (some elem)) rfl ▸ keeps.lockTail
    lockHead := still QueuePlace.holdsHead here (.unlocksHead size (some elem)) rfl ▸ keeps.lockHead
    account := by
      show (state.live.erase msg : Multiset Nat) = (state.head :: rest : List Nat) +
        held QueuePlace.hand (Function.update state.threads thread (.unlocksHead size (some elem)))
      rw [← Multiset.coe_erase, keeps.account, hands, Multiset.add_cons, Multiset.erase_cons_head]
    distinct := keeps.distinct.erase msg
    order := still QueuePlace.taken here (.unlocksHead size (some elem)) rfl ▸ keeps.order
    knows := (Function.forall_update_iff _ fun _ (place : QueuePlace Val) => place.Knows ..).mpr
      ⟨trivial, fun other _ => (keeps.knows other).congr (fun _ _ => ⟨rfl, rfl⟩) (fun _ => rfl)
        (fun _ => ⟨rfl, fun _ isNext => ⟨isNext, rfl⟩⟩) fun node isPeek isLive =>
          (List.mem_erase_of_ne (by rintro rfl; exact unseen other isPeek)).mpr isLive⟩ }

/-- The lock of the head is freed, and the value returned. -/
theorem unlocksHead (keeps : Keeps state vals rest) {size : Int} {elem : Option Val}
    (here : state.threads thread = .unlocksHead size elem) :
    Keeps ({ state with
      lockedHead := false
      returned := state.returned ++ elem.toList }.goTo thread .idle) vals rest where
  chain := keeps.chain
  values := keeps.values
  tail := still QueuePlace.lags here .idle rfl ▸ keeps.tail
  lockTail := still QueuePlace.holdsTail here .idle rfl ▸ keeps.lockTail
  lockHead := held_of_unlock keeps.lockHead (by rw [here]; rfl) rfl
  account := still QueuePlace.hand here .idle rfl ▸ keeps.account
  distinct := keeps.distinct
  order := by
    obtain ⟨inHand, isTaken, order⟩ := keeps.order
    rw [keeps.taken_of_holder here rfl] at isTaken
    have isElem : inHand = elem.toList := by
      cases elem with
      | none => exact (Multiset.coe_eq_zero _).mp isTaken
      | some val => exact Multiset.coe_eq_singleton.mp isTaken
    have moved := held_update QueuePlace.taken state.threads thread .idle
    rw [keeps.taken_of_holder here rfl, here, add_comm] at moved
    refine ⟨[], (add_left_cancel moved).symm, ?_⟩
    show state.linked = state.returned ++ elem.toList ++ [] ++ vals
    rw [order, isElem, List.append_nil]
  knows := (Function.forall_update_iff _ fun _ (place : QueuePlace Val) => place.Knows ..).mpr
    ⟨trivial, fun other _ => keeps.knows other⟩

end Keeps

/-! ### Every step -/

variable [DecidableEq Thread] {state : MsgListThreads Val Thread} {vals : List Val}
  {rest : List Nat} {thread : Thread}

/-- A `get` that reads no link finds every value returned that was linked, and only a `get` that
returns a value adds it to them. -/
def Lawful (state next : MsgListThreads Val Thread) : Option (QueueEvent Val) → Prop
  | some .foundNothing => state.linked = state.returned ∧ next.returned = state.returned
  | some (.got _ elem) => next.returned = state.returned ++ elem.toList
  | _ => next.returned = state.returned

omit [Fintype Thread] [DecidableEq Thread] in
theorem onNode_eq_some {Result : Type} {node : Nat} (isLive : node ∈ state.live) (result : Result) :
    state.onNode node result = some result := if_pos isLive

/-- A `get` reads no link where the queue is empty. -/
theorem Keeps.linked_eq_returned (keeps : Keeps state vals rest)
    (here : state.threads thread = .readsNext state.head) (ends : state.next state.head = none) :
    state.linked = state.returned := by
  obtain ⟨inHand, isTaken, order⟩ := keeps.order
  rw [keeps.taken_of_holder here rfl] at isTaken
  obtain rfl := (Multiset.coe_eq_zero _).mp isTaken
  have linked := keeps.chain.2
  rw [ends] at linked
  have values := keeps.values.length_eq
  match rest, linked with
  | [], _ =>
    obtain rfl := List.eq_nil_of_length_eq_zero values.symm
    rw [order, List.append_nil, List.append_nil]
  | _ :: _, linked => exact absurd linked.1 nofun

omit [DecidableEq Thread] in
/-- The link of a node that exists leads to one that exists. -/
theorem Keeps.live_of_next (keeps : Keeps state vals rest) {node after : Nat}
    (isLive : node ∈ state.live) (isNext : state.next node = some after) : after ∈ state.live := by
  rw [← Multiset.mem_coe, keeps.account] at isLive
  rcases Multiset.mem_add.mp isLive with inQueue | inHand
  · exact keeps.live_of_node (keeps.chain.next_mem (Multiset.mem_coe.mp inQueue) isNext)
  · obtain ⟨holder, isHere⟩ := exists_of_mem_held inHand
    rcases QueuePlace.next_of_hand (keeps.knows holder) isHere with ends | isHead
    · exact absurd (ends.symm.trans isNext) nofun
    · obtain rfl := Option.some.inj (isHead.symm.trans isNext)
      exact keeps.live_of_node List.mem_cons_self

/-- Every linked value is counted, returned or on its way in a call. -/
def Counts (state : MsgListThreads Val Thread) : Prop :=
  (state.linked.length : Int) =
    state.returned.length + state.size + (held QueuePlace.owed state.threads : Nat)

/-- A count that is written is one more or less than the count is. -/
def Current (state : MsgListThreads Val Thread) : QueueTurn Val Thread → Prop
  | .access thread _ => ∀ size ∈ (state.threads thread).readSize, size = state.size
  | _ => True

instance : DecidableRel (Current : MsgListThreads Val Thread → QueueTurn Val Thread → Prop)
  | state, .access thread _ =>
    inferInstanceAs (Decidable (∀ size ∈ (state.threads thread).readSize, size = state.size))
  | _, .put .. => .isTrue trivial
  | _, .get _ => .isTrue trivial
  | _, .peek _ => .isTrue trivial

/-- What a turn does: the list stays a queue, and where the count is right it stays right exactly
when it is written over the one that was read. -/
structure Sound (state : MsgListThreads Val Thread) (turn : QueueTurn Val Thread)
    (event : Option (QueueEvent Val)) (next : MsgListThreads Val Thread) : Prop where
  lawful : Lawful state next event
  counts : Counts state → (Counts next ↔ Current state turn)
  keeps : ∃ vals rest, Keeps next vals rest

/-- How the count fares when a thread moves on. -/
theorem counts_goTo_iff {after : MsgListThreads Val Thread} {place before : QueuePlace Val}
    (counts : Counts state) (here : state.threads thread = before)
    (threads : after.threads = state.threads) :
    Counts (after.goTo thread place) ↔
      (after.linked.length : Int) + state.returned.length + state.size + before.owed =
        state.linked.length + after.returned.length + after.size + place.owed := by
  have moved := held_update QueuePlace.owed state.threads thread place
  rw [here] at moved
  unfold Counts at counts ⊢
  show (after.linked.length : Int) = after.returned.length + after.size +
    (held QueuePlace.owed (Function.update after.threads thread place) : Nat) ↔ _
  rw [threads]
  omega

omit [Fintype Thread] [DecidableEq Thread] in
theorem current_of_none {before : QueuePlace Val} (here : state.threads thread = before)
    (reads : before.readSize = none) (fresh : Nat) : Current state (.access thread fresh) := by
  show ∀ size ∈ (state.threads thread).readSize, size = state.size
  rw [here, reads]
  exact nofun

/-- A thread moves on without writing the count. -/
theorem Keeps.sound_goTo {after : MsgListThreads Val Thread} {place before : QueuePlace Val}
    (keeps : Keeps (after.goTo thread place) vals rest) (here : state.threads thread = before)
    (threads : after.threads = state.threads) (returned : after.returned = state.returned)
    (reads : before.readSize = none) {fresh : Nat}
    (lengths : (after.linked.length : Int) + state.returned.length + state.size + before.owed =
      state.linked.length + after.returned.length + after.size + place.owed) :
    Sound state (.access thread fresh) none (after.goTo thread place) where
  lawful := returned
  counts counts :=
    iff_of_true ((counts_goTo_iff counts here threads).mpr lengths)
      (current_of_none here reads fresh)
  keeps := ⟨vals, rest, keeps⟩

/-- A thread moves to a place that holds the same. -/
theorem Keeps.sound_moves (keeps : Keeps state vals rest) {before : QueuePlace Val}
    (here : state.threads thread = before) (place : QueuePlace Val)
    (sameHand : place.hand = before.hand) (sameTail : place.holdsTail = before.holdsTail)
    (sameHead : place.holdsHead = before.holdsHead) (sameLags : place.lags = before.lags)
    (sameTaken : place.taken = before.taken) (sameOwed : place.owed = before.owed)
    (reads : before.readSize = none) {fresh : Nat}
    (knows : place.Knows state.next state.value state.head (state.head :: rest).getLast?
      state.live) :
    Sound state (.access thread fresh) none (state.goTo thread place) :=
  (keeps.goTo here sameHand sameTail sameHead sameLags sameTaken knows).sound_goTo here rfl rfl
    reads (by rw [sameOwed])

omit [DecidableEq Thread] in
/-- A thread writes nothing and stays where it is. -/
theorem Keeps.sound_stays (keeps : Keeps state vals rest) {before : QueuePlace Val}
    (here : state.threads thread = before) (reads : before.readSize = none) {fresh : Nat} :
    Sound state (.access thread fresh) none state where
  lawful := rfl
  counts counts := iff_of_true counts (current_of_none here reads fresh)
  keeps := ⟨vals, rest, keeps⟩

/-- A thread writes the count. -/
theorem Keeps.sound_writes {place before : QueuePlace Val} {size written : Int}
    (keeps : Keeps ({ state with size := written }.goTo thread place) vals rest)
    (here : state.threads thread = before) (reads : before.readSize = some size) {fresh : Nat}
    (changes : written + place.owed = size + before.owed) :
    Sound state (.access thread fresh) none ({ state with size := written }.goTo thread place) where
  lawful := rfl
  counts counts := by
    have counted : Counts ({ state with size := written }.goTo thread place) ↔ _ :=
      counts_goTo_iff counts here rfl
    have current : Current state (.access thread fresh) ↔ size = state.size := by
      show (∀ other ∈ (state.threads thread).readSize, other = state.size) ↔ _
      rw [here, reads]
      exact ⟨fun all => all size rfl, fun same other isOther => Option.some.inj isOther ▸ same⟩
    rw [counted, current]
    show (state.linked.length : Int) + state.returned.length + state.size + before.owed =
      state.linked.length + state.returned.length + written + place.owed ↔ _
    omega
  keeps := ⟨vals, rest, keeps⟩

/-- The next access of any thread is to a node that exists. -/
theorem Keeps.access (keeps : Keeps state vals rest) {fresh : Nat}
    (proper : Proper state (.access thread fresh)) :
    ∃ next event, state.access thread fresh = some (next, event) ∧
      Sound state (.access thread fresh) event next := by
  have knows := keeps.knows thread
  unfold MsgListThreads.access
  obtain ⟨isNew, unseen⟩ : ((state.threads thread).makes → fresh ∉ state.live) ∧
    ∀ other, (state.threads thread).deletes ≠ none →
      (state.threads other).peeks ≠ (state.threads thread).deletes := proper
  cases here : state.threads thread with
  | idle => exact ⟨state, none, rfl, keeps.sound_stays here rfl⟩
  | getsElement val =>
    have again := keeps.getsElement here (isNew (by rw [here]; rfl))
    exact ⟨_, _, rfl, again.sound_goTo here rfl rfl rfl rfl⟩
  | storesValue val msg =>
    obtain ⟨isLive, again⟩ := keeps.storesValue here
    simp only [onNode_eq_some isLive, Option.bind_eq_bind, Option.bind_some]
    exact ⟨_, _, rfl, again.sound_goTo here rfl rfl rfl rfl⟩
  | locksTail val msg =>
    rw [here] at knows
    cases locked : state.lockedTail with
    | true =>
      exact ⟨_, _, rfl,
        keeps.sound_moves here (.spinsTail val msg) rfl rfl rfl rfl rfl rfl rfl knows⟩
    | false => exact ⟨_, _, rfl, (keeps.locksTail here locked).sound_goTo here rfl rfl rfl rfl⟩
  | spinsTail val msg =>
    rw [here] at knows
    cases locked : state.lockedTail with
    | true => exact ⟨_, _, rfl, keeps.sound_stays here rfl⟩
    | false =>
      exact ⟨_, _, rfl,
        keeps.sound_moves here (.locksTail val msg) rfl rfl rfl rfl rfl rfl rfl knows⟩
  | readsTail val msg =>
    rw [here] at knows
    exact ⟨_, _, rfl, keeps.sound_moves here (.linksTail val msg state.tail) rfl rfl rfl rfl rfl rfl
      rfl ⟨knows, keeps.tail_of_holder here rfl rfl⟩⟩
  | linksTail val msg tail =>
    obtain ⟨isLive, again⟩ := keeps.linksTail here
    simp only [onNode_eq_some isLive, Option.bind_eq_bind, Option.bind_some]
    refine ⟨_, _, rfl, again.sound_goTo here rfl rfl rfl ?_⟩
    show ((state.linked ++ [val]).length : Int) + state.returned.length + state.size + 0 =
      state.linked.length + state.returned.length + state.size + 1
    rw [List.length_append, List.length_singleton]
    omega
  | movesTail msg => exact ⟨_, _, rfl, (keeps.movesTail here).sound_goTo here rfl rfl rfl rfl⟩
  | readsUp =>
    exact ⟨_, _, rfl,
      keeps.sound_moves here (.writesUp state.size) rfl rfl rfl rfl rfl rfl rfl trivial⟩
  | writesUp size =>
    have again : Keeps ({ state with size := size + 1 }.goTo thread (.unlocksTail (size + 1))) vals
        rest := (keeps.withSize (size + 1)).goTo here rfl rfl rfl rfl rfl trivial
    exact ⟨_, _, rfl, again.sound_writes here rfl (Int.add_zero _)⟩
  | unlocksTail size =>
    obtain ⟨-, counts, kept⟩ : Sound state (.access thread fresh) none _ :=
      (keeps.unlocksTail here).sound_goTo here rfl rfl rfl rfl
    exact ⟨_, _, rfl, rfl, counts, kept⟩
  | locksHead =>
    cases locked : state.lockedHead with
    | true =>
      exact ⟨_, _, rfl, keeps.sound_moves here .spinsHead rfl rfl rfl rfl rfl rfl rfl trivial⟩
    | false => exact ⟨_, _, rfl, (keeps.locksHead here locked).sound_goTo here rfl rfl rfl rfl⟩
  | spinsHead =>
    cases locked : state.lockedHead with
    | true => exact ⟨_, _, rfl, keeps.sound_stays here rfl⟩
    | false =>
      exact ⟨_, _, rfl, keeps.sound_moves here .locksHead rfl rfl rfl rfl rfl rfl rfl trivial⟩
  | readsHead =>
    exact ⟨_, _, rfl,
      keeps.sound_moves here (.readsNext state.head) rfl rfl rfl rfl rfl rfl rfl rfl⟩
  | readsNext msg =>
    rw [here] at knows
    obtain rfl : msg = state.head := knows
    have isLive := keeps.live_of_node List.mem_cons_self
    simp only [onNode_eq_some isLive, Option.bind_eq_bind, Option.bind_some]
    cases isNext : state.next state.head with
    | none =>
      obtain ⟨lawful, counts, kept⟩ : Sound state (.access thread fresh) none _ :=
        keeps.sound_moves here (.unlocksHead 0 none) rfl rfl rfl rfl rfl rfl rfl trivial
      exact ⟨_, _, rfl, ⟨keeps.linked_eq_returned here isNext, lawful⟩, counts, kept⟩
    | some newHead =>
      exact ⟨_, _, rfl, keeps.sound_moves here (.readsDown state.head newHead) rfl rfl rfl rfl rfl
        rfl rfl ⟨rfl, isNext⟩⟩
  | readsDown msg newHead =>
    rw [here] at knows
    exact ⟨_, _, rfl, keeps.sound_moves here (.writesDown msg newHead state.size) rfl rfl rfl rfl
      rfl rfl rfl knows⟩
  | writesDown msg newHead size =>
    rw [here] at knows
    have again : Keeps ({ state with
        size := size - 1 }.goTo thread (.readsValue msg newHead (size - 1))) vals rest :=
      (keeps.withSize (size - 1)).goTo here rfl rfl rfl rfl rfl knows
    exact ⟨_, _, rfl, again.sound_writes here rfl (by show size - 1 + 1 = size + 0; omega)⟩
  | readsValue msg newHead size =>
    rw [here] at knows
    obtain ⟨rfl, isNext⟩ : msg = state.head ∧ state.next msg = some newHead := knows
    obtain ⟨later, rfl⟩ := keeps.next_mem isNext
    have isLive := keeps.live_of_node (List.mem_cons_of_mem _ List.mem_cons_self)
    simp only [onNode_eq_some isLive, Option.bind_eq_bind, Option.bind_some]
    exact ⟨_, _, rfl, keeps.sound_moves here
      (.movesHead state.head newHead size (state.value newHead)) rfl rfl rfl rfl rfl rfl rfl
      ⟨⟨rfl, isNext⟩, rfl⟩⟩
  | movesHead msg newHead size elem =>
    obtain ⟨val, later, valsLater, rfl, -, -, again⟩ := keeps.movesHead here
    exact ⟨_, _, rfl, again.sound_goTo here rfl rfl rfl rfl⟩
  | clearsValue msg size elem =>
    obtain ⟨isLive, again⟩ := keeps.clearsValue here
    simp only [onNode_eq_some isLive, Option.bind_eq_bind, Option.bind_some]
    exact ⟨_, _, rfl, again.sound_goTo here rfl rfl rfl rfl⟩
  | releases msg size elem =>
    rw [here] at unseen
    obtain ⟨isLive, again⟩ := keeps.releases here fun other => unseen other nofun
    simp only [onNode_eq_some isLive, Option.bind_eq_bind, Option.bind_some]
    exact ⟨_, _, rfl, again.sound_goTo here rfl rfl rfl rfl⟩
  | unlocksHead size elem =>
    have lengths : (state.linked.length : Int) + state.returned.length + state.size +
        (QueuePlace.unlocksHead size elem).owed = state.linked.length +
        (state.returned ++ elem.toList).length + state.size + (0 : Nat) := by
      rw [List.length_append]
      cases elem with
      | none => rfl
      | some val =>
        show _ + (1 : Int) = _ + ((state.returned.length + 1 : Nat) : Int) + _ + (0 : Int)
        omega
    refine ⟨_, _, rfl, rfl, fun counts => ?_, vals, rest, keeps.unlocksHead here⟩
    have counted : Counts ({ state with
        lockedHead := false
        returned := state.returned ++ elem.toList }.goTo thread .idle) ↔ _ :=
      counts_goTo_iff counts here rfl
    exact iff_of_true (counted.mpr lengths) (current_of_none here rfl fresh)
  | peeksHead =>
    exact ⟨_, _, rfl, keeps.sound_moves here (.peeksNext state.head) rfl rfl rfl rfl rfl rfl rfl
      (keeps.live_of_node List.mem_cons_self)⟩
  | peeksNext msg =>
    rw [here] at knows
    have isLive : msg ∈ state.live := knows
    simp only [onNode_eq_some isLive, Option.bind_eq_bind, Option.bind_some]
    cases isNext : state.next msg with
    | none =>
      exact ⟨_, _, rfl,
        keeps.sound_moves here (.peeksSize none) rfl rfl rfl rfl rfl rfl rfl trivial⟩
    | some newHead =>
      exact ⟨_, _, rfl, keeps.sound_moves here (.peeksValue newHead) rfl rfl rfl rfl rfl rfl rfl
        (keeps.live_of_next isLive isNext)⟩
  | peeksValue newHead =>
    rw [here] at knows
    have isLive : newHead ∈ state.live := knows
    simp only [onNode_eq_some isLive, Option.bind_eq_bind, Option.bind_some]
    exact ⟨_, _, rfl, keeps.sound_moves here (.peeksSize _) rfl rfl rfl rfl rfl rfl rfl trivial⟩
  | peeksSize elem =>
    obtain ⟨-, counts, kept⟩ : Sound state (.access thread fresh) none _ :=
      keeps.sound_moves here .idle rfl rfl rfl rfl rfl rfl rfl trivial
    exact ⟨_, _, rfl, rfl, counts, kept⟩

/-- A thread that begins a call. -/
theorem Keeps.sound_begins (keeps : Keeps state vals rest) (idle : (state.threads thread).isIdle)
    {turn : QueueTurn Val Thread} (place : QueuePlace Val) (noHand : place.hand = 0)
    (noTail : place.holdsTail = 0) (noHead : place.holdsHead = 0) (noLag : place.lags = 0)
    (noTaken : place.taken = 0) (noOwed : place.owed = 0) (begins : Current state turn)
    (knows : place.Knows state.next state.value state.head (state.head :: rest).getLast?
      state.live) :
    Sound state turn none (state.goTo thread place) where
  lawful := rfl
  counts counts := by
    have here := QueuePlace.eq_idle idle
    have counted : Counts (state.goTo thread place) ↔ _ := counts_goTo_iff counts here rfl
    exact iff_of_true (counted.mpr (by rw [noOwed]; rfl)) begins
  keeps :=
    ⟨vals, rest, keeps.goTo (QueuePlace.eq_idle idle) noHand noTail noHead noLag noTaken knows⟩

/-- So is every turn of a thread. -/
theorem Keeps.step (keeps : Keeps state vals rest) {turn : QueueTurn Val Thread}
    (proper : Proper state turn) :
    ∃ next event, state.step turn = some (next, event) ∧ Sound state turn event next := by
  match turn with
  | .access thread fresh => exact keeps.access proper
  | .put thread val =>
    by_cases idle : (state.threads thread).isIdle
    · cases val with
      | none =>
        exact ⟨_, _, if_pos idle, rfl, fun counts => iff_of_true counts trivial, vals, rest, keeps⟩
      | some val =>
        exact ⟨_, _, if_pos idle, keeps.sound_begins idle (.getsElement val) rfl rfl rfl rfl rfl rfl
          trivial trivial⟩
    · exact ⟨_, _, if_neg idle, rfl, fun counts => iff_of_true counts trivial, vals, rest, keeps⟩
  | .get thread =>
    by_cases idle : (state.threads thread).isIdle
    · exact ⟨_, _, if_pos idle, keeps.sound_begins idle .locksHead rfl rfl rfl rfl rfl rfl trivial
        trivial⟩
    · exact ⟨_, _, if_neg idle, rfl, fun counts => iff_of_true counts trivial, vals, rest, keeps⟩
  | .peek thread =>
    by_cases idle : (state.threads thread).isIdle
    · exact ⟨_, _, if_pos idle, keeps.sound_begins idle .peeksHead rfl rfl rfl rfl rfl rfl trivial
        trivial⟩
    · exact ⟨_, _, if_neg idle, rfl, fun counts => iff_of_true counts trivial, vals, rest, keeps⟩

/-! ### Every interleaving -/

/-- The values whose nodes were linked are those that `get` returned, the one that a `get` is about
to return and those in the queue, in this order; every node that exists is in the queue or in the
hand of one thread, and only there; when no call runs, the list is a queue of the values that were
put and not returned. -/
def Fifo (state : MsgListThreads Val Thread) : Prop :=
  ∃ vals inHand : List Val, ∃ rest : List Nat,
    state.linked = state.returned ++ inHand ++ vals ∧
    (inHand : Multiset Val) = held QueuePlace.taken state.threads ∧
    (state.live : Multiset Nat) =
      (state.head :: rest : List Nat) + held QueuePlace.hand state.threads ∧
    state.live.Nodup ∧ Linked state.next (some state.head) (state.head :: rest) ∧
    Carries state.value rest vals ∧
    ((∀ thread, state.threads thread = .idle) →
      Queue state.next (some state.head) (some state.tail) (state.head :: rest) ∧ inHand = [])

omit [DecidableEq Thread] in
theorem Keeps.fifo (keeps : Keeps state vals rest) : Fifo state := by
  obtain ⟨inHand, isTaken, order⟩ := keeps.order
  refine ⟨vals, inHand, rest, order, isTaken, keeps.account, keeps.distinct, keeps.chain,
    keeps.values, fun quiet => ⟨⟨keeps.chain, ?_⟩, ?_⟩⟩
  · exact keeps.tail (held_eq_zero fun thread => by rw [quiet thread]; rfl)
  · rw [held_eq_zero fun thread => by rw [quiet thread]; rfl] at isTaken
    exact (Multiset.coe_eq_zero _).mp isTaken

omit [DecidableEq Thread] in
theorem keeps_create (msg : Nat) : Keeps (create msg : MsgListThreads Val Thread) [] [] where
  chain := ⟨rfl, rfl⟩
  values := rfl
  tail := fun _ => rfl
  lockTail := held_eq_zero fun _ => rfl
  lockHead := held_eq_zero fun _ => rfl
  account := by
    have none : held QueuePlace.hand (fun _ : Thread => (QueuePlace.idle : QueuePlace Val)) = 0 :=
      held_eq_zero fun _ => rfl
    show (([msg] : List Nat) : Multiset Nat) = ([msg] : List Nat) +
      held QueuePlace.hand (fun _ : Thread => (QueuePlace.idle : QueuePlace Val))
    rw [none, add_zero]
  distinct := List.nodup_singleton msg
  order := ⟨[], (held_eq_zero fun _ => rfl).symm, rfl⟩
  knows := fun _ => trivial

/-- From the constructor on, however the accesses of any number of threads interleave, as long as no
node is deleted that a `peek` is about to read: no access is to a node that was deleted, values
come out in the order in which they went in, each once, and a `get` that finds nothing finds every
value returned. -/
theorem fifo_of_interleaving (msg : Nat) (turns : List (QueueTurn Val Thread))
    (fits : EachStep step Proper (create msg) turns) :
    EachReturn step (fun state _ event next => Lawful state next event ∧ Fifo next) (create msg)
      turns := by
  refine eachReturn_of_keeps
    (fun state turn (kept : ∃ vals rest, Keeps state vals rest) proper => ?_) turns _
    ⟨[], [], keeps_create msg⟩ fits
  obtain ⟨vals, rest, keeps⟩ := kept
  obtain ⟨next, event, returns, lawful, -, vals, rest, again⟩ := keeps.step proper
  exact ⟨next, event, returns, ⟨lawful, again.fifo⟩, vals, rest, again⟩

/-- A `get` takes the node that a `put` has linked before the tail is moved, and deletes the old
one; its address is used again, and the queue goes on. -/
theorem fifo_of_interleaving_example :
    EachReturn step (fun state _ event next => Lawful state next event ∧ Fifo next)
      (create 0 : MsgListThreads String (Fin 2))
      ([.put 0 (some "a")] ++ List.replicate 5 (.access 0 1) ++ [.get 1] ++
        List.replicate 10 (.access 1 0) ++ List.replicate 4 (.access 0 0) ++ [.put 1 (some "b")] ++
        List.replicate 9 (.access 1 0) ++ [.get 0] ++ List.replicate 10 (.access 0 0)) :=
  fifo_of_interleaving 0 _ (by decide)

/-- A `peek` reads the link of a node that a `get` has deleted since. -/
example : run step (create 0 : MsgListThreads String (Fin 2))
    ([.put 0 (some "a")] ++ List.replicate 10 (.access 0 1) ++ [.peek 0, .access 0 0, .get 1] ++
      List.replicate 10 (.access 1 0) ++ [.access 0 0]) = none := rfl

/-- From the constructor on, in whatever order the accesses of the threads come, as long as no `get`
deletes the node that a `peek` is about to read: every linked value is counted, returned or on its
way in a call, in every state that is reached, exactly when every count that is written is one more
or less than the count still is. -/
theorem counts_iff_current (msg : Nat) (turns : List (QueueTurn Val Thread))
    (fits : EachStep step Proper (create msg) turns) :
    Throughout step Counts (create msg) turns ↔ EachStep step Current (create msg) turns := by
  have start : Counts (create msg : MsgListThreads Val Thread) := by
    have none : held QueuePlace.owed (fun _ : Thread => (QueuePlace.idle : QueuePlace Val)) = 0 :=
      held_eq_zero fun _ => rfl
    show (0 : Int) = 0 + 0 +
      (held QueuePlace.owed (fun _ : Thread => (QueuePlace.idle : QueuePlace Val)) : Nat)
    rw [none]
    rfl
  refine throughout_iff
    (fun state turn (kept : ∃ vals rest, Keeps state vals rest) counts proper => ?_) turns _
    ⟨[], [], keeps_create msg⟩ start fits
  obtain ⟨vals, rest, keeps⟩ := kept
  obtain ⟨next, event, returns, -, same, again⟩ := keeps.step proper
  exact ⟨next, event, returns, same counts, fun _ => again⟩

/-- The `get` of a value whose `put` has not counted it yet writes between the two accesses of the
other's count, and the empty list counts one value. -/
theorem counts_iff_current_example :
    ¬ Throughout step Counts (create 0 : MsgListThreads String (Fin 2))
      ([.put 0 (some "a")] ++ List.replicate 7 (.access 0 1) ++ [.get 1] ++
        List.replicate 10 (.access 1 0) ++ List.replicate 2 (.access 0 0)) := by
  rw [counts_iff_current 0 _ (by decide)]
  decide

end MsgListThreads

end ObLib
