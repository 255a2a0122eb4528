/-
This file proves that a `FreeListBase` stays sound however the calls of its threads
interleave.

Every access of a thread keeps the account of the nodes, so each access is to a node
that exists; the theorem about a run follows by induction on its turns. The free nodes
may exceed the high water mark, as the count is compared in one step and raised in a
later one: each thread can have seen the room for one node more.
-/

import OrderBookSketch.FreeListThreads

namespace ObLib

open Runs Chains Interleaving Loops

namespace ListThreads

variable {Thread : Type} [Fintype Thread]

/-! ### Every step -/

namespace Keeps

variable [DecidableEq Thread] {highWaterMark : Int} {state : ListThreads Thread} {first : Nat}
  {rest : List Nat} {thread : Thread} {place : ListPlace}

/-- A thread moves on without writing. -/
theorem quiet (keeps : Keeps highWaterMark state first rest) {before : ListPlace}
    (here : state.threads thread = before) (sameHand : place.hand = before.hand)
    (sameHead : place.head = before.head) (sameGap : place.gap = before.gap)
    (sameUncounted : place.uncounted = before.uncounted)
    (sameAdmitted : place.admitted = before.admitted) (knows : place.Knows state.list.next) :
    Keeps highWaterMark (state.goTo thread place) first rest :=
  keeps.goTo (here ▸ sameHand) (here ▸ sameHead) (here ▸ sameGap) (here ▸ sameUncounted)
    (here ▸ sameAdmitted) knows

end Keeps

/-- Only a call that returns an element hands one out, and it was not out before. -/
def HandsOut (state next : ListThreads Thread) : Option ListEvent → Prop
  | some (.returned elem) => elem ∉ state.out ∧ next.out = elem :: state.out
  | _ => ∀ elem ∈ next.out, elem ∈ state.out

variable [DecidableEq Thread] {highWaterMark : Int} {state : ListThreads Thread} {first : Nat}
  {rest : List Nat}

omit [Fintype Thread] [DecidableEq Thread] in
theorem handsOut_of_same {next : ListThreads Thread} (same : next.out = state.out) :
    HandsOut state next none := fun _ member => same ▸ member

omit [Fintype Thread] in
theorem handsOut_of_writes {next : ListThreads Thread} {node : Nat} {link : Option Nat}
    (writes : state.writeNext node link = some next) (thread : Thread) (place : ListPlace) :
    HandsOut state (next.goTo thread place) none := by
  obtain ⟨-, same⟩ := Option.ite_none_right_eq_some.mp writes
  obtain rfl := Option.some.inj same
  exact handsOut_of_same rfl

/-- The next access of any thread is to a node that exists, and the list stays sound. -/
theorem Keeps.access (keeps : Keeps highWaterMark state first rest) {thread : Thread} {fresh : Nat}
    (proper : Proper state (.access thread fresh)) :
    ∃ next event, state.access thread fresh = some (next, event) ∧ HandsOut state next event ∧
      ∃ first rest, Keeps highWaterMark next first rest := by
  unfold ListThreads.access
  cases here : state.threads thread with
  | idle => exact ⟨state, none, rfl, handsOut_of_same rfl, first, rest, keeps⟩
  | countsFree =>
    by_cases more : state.list.freeListSize > state.list.lowWaterMark
    · exact ⟨_, _, if_pos more, handsOut_of_same rfl, first, rest,
        keeps.quiet here rfl rfl rfl rfl rfl trivial⟩
    · exact ⟨_, _, if_neg more, handsOut_of_same rfl, first, rest,
        keeps.quiet here rfl rfl rfl rfl rfl trivial⟩
  | waits =>
    by_cases gone : state.list.freeHead = none
    · exact ⟨_, _, if_pos gone, handsOut_of_same rfl, first, rest, keeps⟩
    · exact ⟨_, _, if_neg gone, handsOut_of_same rfl, first, rest,
        keeps.quiet here rfl rfl rfl rfl rfl trivial⟩
  | takesHead =>
    cases isHead : state.list.freeHead with
    | none =>
      refine ⟨_, _, rfl, handsOut_of_same rfl, first, rest, ?_⟩
      have same : { state with list := { state.list with freeHead := none } } = state := by
        rw [← isHead]
      rw [same]
      exact keeps.quiet here rfl rfl rfl rfl rfl trivial
    | some msg => exact ⟨_, _, rfl, handsOut_of_same rfl, first, rest, keeps.takesHead here isHead⟩
  | readsNext msg =>
    obtain ⟨isFirst, -, -⟩ := keeps.head_of_place here rfl
    have reads : state.readNext msg = some (state.list.next msg) :=
      if_pos (keeps.live_of_free (isFirst ▸ List.mem_cons_self))
    simp only [reads, Option.bind_eq_bind, Option.bind_some]
    cases isNext : state.list.next msg with
    | none => exact ⟨_, _, rfl, handsOut_of_same rfl, first, rest,
        keeps.quiet here rfl rfl rfl rfl rfl trivial⟩
    | some tmp => exact ⟨_, _, rfl, handsOut_of_same rfl, first, rest,
        keeps.quiet here rfl rfl rfl rfl rfl isNext⟩
  | countsSpare msg =>
    by_cases more : state.list.freeListSize > state.list.highWaterMark
    · exact ⟨_, _, if_pos more, handsOut_of_same rfl, first, rest,
        keeps.quiet here rfl rfl rfl rfl rfl trivial⟩
    · exact ⟨_, _, if_neg more, handsOut_of_same rfl, first, rest,
        keeps.quiet here rfl rfl rfl rfl rfl trivial⟩
  | givesBack msg spins =>
    exact ⟨_, _, rfl, handsOut_of_same rfl, first, rest, keeps.givesBack here rfl⟩
  | allocates =>
    obtain ⟨notOut, again⟩ := keeps.allocates here (proper here)
    exact ⟨_, _, rfl, ⟨notOut, rfl⟩, first, rest, again⟩
  | countsDown msg tmp =>
    obtain ⟨second, later, -, again⟩ := keeps.countsDown here
    exact ⟨_, _, rfl, handsOut_of_same rfl, second, later, again⟩
  | clearsNext msg tmp =>
    obtain ⟨cleared, writes, again⟩ := keeps.clearsNext here
    simp only [writes, Option.bind_eq_bind, Option.bind_some]
    exact ⟨_, _, rfl, handsOut_of_writes writes _ _, first, rest, again⟩
  | givesNext msg tmp =>
    obtain ⟨notOut, again⟩ := keeps.givesNext here
    exact ⟨_, _, rfl, ⟨notOut, rfl⟩, first, rest, again⟩
  | countsRoom velement =>
    by_cases hasRoom : state.list.freeListSize < state.list.highWaterMark
    · exact ⟨_, _, if_pos hasRoom, handsOut_of_same rfl, first, rest, keeps.countsRoom here hasRoom⟩
    · exact ⟨_, _, if_neg hasRoom, handsOut_of_same rfl, first, rest,
        keeps.quiet here rfl rfl rfl rfl rfl trivial⟩
  | clearsElement velement =>
    obtain ⟨cleared, writes, again⟩ := keeps.clearsElement here
    simp only [writes, Option.bind_eq_bind, Option.bind_some]
    exact ⟨_, _, rfl, handsOut_of_writes writes _ _, first, rest, again⟩
  | takesTail velement =>
    exact ⟨_, _, rfl, handsOut_of_same rfl, first, _, keeps.takesTail here⟩
  | linksTail oldTail velement =>
    obtain ⟨tail, linked, rfl, writes, again⟩ := keeps.linksTail here
    simp only [writes, Option.bind_eq_bind, Option.bind_some]
    exact ⟨_, _, rfl, handsOut_of_writes writes _ _, first, rest, again⟩
  | countsUp => exact ⟨_, _, rfl, handsOut_of_same rfl, first, rest, keeps.countsUp here⟩
  | deletes velement =>
    obtain ⟨isLive, again⟩ := keeps.deletes here
    exact ⟨_, _, if_pos isLive, handsOut_of_same rfl, first, rest, again⟩
  | throws =>
    exact ⟨_, _, rfl, fun _ member => member, first, rest,
      keeps.quiet here rfl rfl rfl rfl rfl trivial⟩

/-- So is every turn of a thread. -/
theorem Keeps.step (keeps : Keeps highWaterMark state first rest) {turn : ListTurn Thread}
    (proper : Proper state turn) :
    ∃ next event, state.step turn = some (next, event) ∧ HandsOut state next event ∧
      ∃ first rest, Keeps highWaterMark next first rest := by
  match turn with
  | .access thread fresh => exact keeps.access proper
  | .getElement thread =>
    by_cases here : state.threads thread = .idle
    · exact ⟨_, _, if_pos here, handsOut_of_same rfl, first, rest,
        keeps.quiet here rfl rfl rfl rfl rfl trivial⟩
    · exact ⟨state, none, if_neg here, handsOut_of_same rfl, first, rest, keeps⟩
  | .releaseElement thread none =>
    by_cases here : state.threads thread = .idle
    · exact ⟨_, _, if_pos here, handsOut_of_same rfl, first, rest,
        keeps.quiet here rfl rfl rfl rfl rfl trivial⟩
    · exact ⟨state, none, if_neg here, handsOut_of_same rfl, first, rest, keeps⟩
  | .releaseElement thread (some velement) =>
    by_cases here : state.threads thread = .idle
    · exact ⟨_, _, if_pos here, fun _ member => List.mem_of_mem_erase member, first, rest,
        keeps.releases here (proper here)⟩
    · exact ⟨state, none, if_neg here, handsOut_of_same rfl, first, rest, keeps⟩

/-! ### Every interleaving -/

/-- Every node that exists is free, in the hand of one thread or with the callers, and only there;
the nodes leave the list in the order in which they came; and there are at most as many free ones as
the high water mark and the threads together. When no call runs, the list is a queue of the free
nodes with one node more than it counts. -/
def Safe (highWaterMark : Int) (state : ListThreads Thread) : Prop :=
  ∃ free : List Nat,
    (state.live : Multiset Nat) =
      (free : Multiset Nat) + held ListPlace.hand state.threads + (state.out : Multiset Nat) ∧
    state.live.Nodup ∧ state.joined = state.left ++ free ∧
    (free.length : Int) ≤ highWaterMark + Fintype.card Thread ∧
    ((∀ thread, state.threads thread = .idle) →
      Queue state.list.next state.list.freeHead state.list.freeTail free ∧
        (free.length : Int) = state.list.freeListSize + 1)

omit [DecidableEq Thread] in
/-- When no call runs, the threads hold nothing. -/
theorem held_of_quiet {Amount : Type} [AddCommMonoid Amount]
    (quiet : ∀ thread, state.threads thread = .idle) (amount : ListPlace → Amount)
    (zero : amount .idle = 0) : held amount state.threads = 0 :=
  held_eq_zero fun thread => (quiet thread).symm ▸ zero

omit [DecidableEq Thread] in
/-- When no call runs, the list is a queue of the free nodes with one node more than it counts. -/
theorem Keeps.queue_of_quiet (keeps : Keeps highWaterMark state first rest)
    (quiet : ∀ thread, state.threads thread = .idle) :
    Queue state.list.next state.list.freeHead state.list.freeTail (first :: rest) ∧
      ((first :: rest).length : Int) = state.list.freeListSize + 1 := by
  have chain := keeps.chain
  have head := keeps.head
  have count := keeps.count
  rw [held_of_quiet quiet ListPlace.gap rfl] at chain
  rw [held_of_quiet quiet ListPlace.head rfl, add_zero, Multiset.coe_eq_singleton] at head
  rw [held_of_quiet quiet ListPlace.uncounted rfl, Int.natCast_zero, add_zero] at count
  have isHead : state.list.freeHead = some first := by
    cases given : state.list.freeHead with
    | none => rw [given] at head; cases head
    | some node => rw [given] at head; exact congrArg some (List.singleton_inj.mp head)
  exact ⟨⟨isHead ▸ chain.linked, keeps.tail⟩, count.symm⟩

omit [DecidableEq Thread] in
theorem Keeps.safe (keeps : Keeps highWaterMark state first rest) : Safe highWaterMark state := by
  refine ⟨first :: rest, keeps.account, keeps.distinct, keeps.order, ?_, keeps.queue_of_quiet⟩
  have counted : held ListPlace.uncounted state.threads ≤ held ListPlace.admitted state.threads :=
    held_mono ListPlace.uncounted_le_admitted
  have room := keeps.room
  rw [← keeps.count]
  omega

omit [DecidableEq Thread] in
/-- Behind `init`, with no call running, the list is sound. -/
theorem exists_keeps_start [Nonempty Thread] {highWaterMark : Int} (highNonneg : 0 ≤ highWaterMark)
    (lowWaterMark : Int) {new : Nat → Nat}
    (distinct : ((List.range (highWaterMark.toNat + 1)).map new).Nodup) :
    ∃ list, (FreeList.create highWaterMark lowWaterMark).init new = some list ∧
      ∃ first rest, Keeps highWaterMark (start list new : ListThreads Thread) first rest := by
  obtain ⟨list, inits, keeps⟩ := NodeCustody.keeps_start highNonneg lowWaterMark distinct
  have none {Amount : Type} [AddCommMonoid Amount] (amount : ListPlace → Amount)
      (zero : amount .idle = 0) : held amount (fun _ : Thread => ListPlace.idle) = 0 :=
    held_eq_zero fun _ => zero
  have some : 0 < Fintype.card Thread := Fintype.card_pos
  rw [List.range_succ_eq_map, List.map_cons] at keeps
  have isHead : list.freeHead = Option.some (new 0) := keeps.queue.linked.1
  have isHigh : list.highWaterMark = highWaterMark := keeps.high
  have nodes : (List.range (list.highWaterMark.toNat + 1)).map new =
      new 0 :: ((List.range highWaterMark.toNat).map Nat.succ).map new := by
    rw [isHigh, List.range_succ_eq_map, List.map_cons]
  refine ⟨list, inits, new 0, ((List.range highWaterMark.toNat).map Nat.succ).map new, ?_⟩
  exact {
    high := keeps.high
    chain := (none ListPlace.gap rfl).symm ▸ .of_linked (isHead ▸ keeps.queue.linked)
    tail := keeps.queue.last
    head := by
      show (list.freeHead.toList : Multiset Nat) + held ListPlace.head (fun _ : Thread => .idle) = _
      rw [none ListPlace.head rfl, isHead]
      rfl
    account := by
      show (((List.range (list.highWaterMark.toNat + 1)).map new : List Nat) : Multiset Nat) = _ +
        held ListPlace.hand (fun _ : Thread => .idle) + 0
      rw [none ListPlace.hand rfl, nodes, add_zero, add_zero]
    distinct := by
      show ((List.range (list.highWaterMark.toNat + 1)).map new).Nodup
      rw [isHigh]
      exact distinct
    order := nodes
    count := by
      show list.freeListSize + 1 +
        ((held ListPlace.uncounted (fun _ : Thread => ListPlace.idle) : Nat) : Int) = _
      rw [none ListPlace.uncounted rfl, Int.natCast_zero, add_zero]
      exact keeps.length.symm
    room := by
      show list.freeListSize +
        ((held ListPlace.admitted (fun _ : Thread => ListPlace.idle) : Nat) : Int) <
        highWaterMark + Fintype.card Thread
      have below : list.freeListSize ≤ highWaterMark := keeps.below
      rw [none ListPlace.admitted rfl]
      omega
    knows := fun _ => trivial }

theorem throughout_keeps {state : ListThreads Thread} (turns : List (ListTurn Thread))
    (kept : ∃ first rest, Keeps highWaterMark state first rest)
    (fits : EachStep step Proper state turns) :
    Throughout step (fun state => ∃ first rest, Keeps highWaterMark state first rest) state
      turns := by
  refine throughout_of_keeps (fun _ kept => kept) (fun state turn kept proper => ?_) turns state
    kept fits
  obtain ⟨first, rest, keeps⟩ := kept
  obtain ⟨next, event, returns, -, again⟩ := keeps.step proper
  exact ⟨next, event, returns, again⟩

/-- From the constructor on, however the accesses of any number of threads interleave: as long as
callers release only elements that they have, no access is to a node that was deleted or through a
null pointer, no element is handed out that is out already, and no node is lost. -/
theorem safe_of_interleaving [Nonempty Thread] {highWaterMark : Int}
    (highNonneg : 0 ≤ highWaterMark) (lowWaterMark : Int) {new : Nat → Nat}
    (distinct : ((List.range (highWaterMark.toNat + 1)).map new).Nodup) :
    ∃ list, (FreeList.create highWaterMark lowWaterMark).init new = some list ∧
      ∀ turns, EachStep step Proper (start list new : ListThreads Thread) turns →
        EachReturn step
          (fun state _ event next => HandsOut state next event ∧ Safe highWaterMark next)
          (start list new) turns := by
  obtain ⟨list, inits, keepsStart⟩ :=
    @exists_keeps_start Thread _ _ highWaterMark highNonneg lowWaterMark new distinct
  refine ⟨list, inits, fun turns fits => eachReturn_of_keeps
    (fun state _ (kept : ∃ first rest, Keeps highWaterMark state first rest) proper => ?_) turns _
    keepsStart fits⟩
  obtain ⟨first, rest, keeps⟩ := kept
  obtain ⟨next, event, returns, hands, first, rest, again⟩ := keeps.step proper
  exact ⟨next, event, returns, ⟨hands, again.safe⟩, first, rest, again⟩

/-- Two threads share two nodes: one waits while the other has the head, and when that one has
appended its node but not linked it yet, finds no link behind the other node and makes a new one. -/
theorem safe_of_interleaving_example :
    ∃ list, (FreeList.create 1 (-1)).init id = some list ∧
      EachReturn step (fun state _ event next => HandsOut state next event ∧ Safe 1 next)
        (start list id : ListThreads (Fin 2))
        ([.getElement 0, .getElement 1] ++ List.replicate 3 (.access 0 9) ++
          List.replicate 2 (.access 1 9) ++ List.replicate 4 (.access 0 9) ++
          [.releaseElement 0 (some 0)] ++ List.replicate 3 (.access 0 9) ++
          List.replicate 6 (.access 1 9) ++ List.replicate 3 (.access 0 9)) := by
  obtain ⟨list, inits, safe⟩ :=
    @safe_of_interleaving (Fin 2) _ _ _ 1 (by decide) (-1) id (by decide)
  refine ⟨list, inits, safe _ ?_⟩
  obtain rfl := Option.some.inj (show some _ = some list from inits)
  decide

/-! ### One thread alone -/

section Alone

variable {state : ListThreads Thread} {thread : Thread}

/-- The accesses of one thread until its call returns, at most as many as given. -/
def alone (thread : Thread) (fresh : Nat) :
    Nat → ListThreads Thread → Option (ListThreads Thread × ListEvent)
  | 0, _ => none
  | count + 1, state => do
    match ← state.access thread fresh with
    | (next, some event) => return (next, event)
    | (next, none) => alone thread fresh count next

/-- The list with the nodes that exist and those that callers have. -/
def custody (state : ListThreads Thread) : NodeCustody := ⟨state.list, state.live, state.out⟩

/-- A thread begins a call. -/
def begin (state : ListThreads Thread) (thread : Thread) : FreeListCall → ListThreads Thread
  | .getElement _ => state.goTo thread .countsFree
  | .releaseElement elem =>
    { state with out := state.out.erase elem }.goTo thread (.countsRoom elem)

def fresh : FreeListCall → Nat
  | .getElement fresh => fresh
  | .releaseElement elem => elem

section Paths

omit [Fintype Thread]

variable {first elem tail tmp new : Nat} (count : Nat)

/-- The head is taken, as it is not the last node. -/
theorem alone_taken (more : state.list.freeListSize > state.list.lowWaterMark)
    (isHead : state.list.freeHead = some first) (isNext : state.list.next first = some tmp)
    (isLive : first ∈ state.live) :
    alone thread new (count + 7) (state.goTo thread .countsFree) = some ({ state with
      list := { state.list with
        freeListSize := state.list.freeListSize - 1
        next := Function.update state.list.next first none
        freeHead := some tmp }
      out := first :: state.out
      left := state.left ++ [first]
      threads := Function.update state.threads thread .idle }, .returned first) := by
  simp [alone, access, goTo, more, isHead, isNext, readNext, isLive, writeNext]

/-- The head is put back, as it is the last node. -/
theorem alone_last (more : state.list.freeListSize > state.list.lowWaterMark)
    (isHead : state.list.freeHead = some first) (isLast : state.list.next first = none)
    (isLive : first ∈ state.live) (few : ¬ state.list.freeListSize > state.list.highWaterMark) :
    alone thread new (count + 7) (state.goTo thread .countsFree) = some ({ state with
      list := state.list.allocNewElement new
      live := new :: state.live
      out := new :: state.out
      threads := Function.update state.threads thread .idle }, .returned new) := by
  simp [alone, access, goTo, more, isHead, isLast, readNext, isLive, few, FreeList.allocNewElement]

theorem alone_allocated (few : ¬ state.list.freeListSize > state.list.lowWaterMark) :
    alone thread new (count + 7) (state.goTo thread .countsFree) = some ({ state with
      list := state.list.allocNewElement new
      live := new :: state.live
      out := new :: state.out
      threads := Function.update state.threads thread .idle }, .returned new) := by
  simp [alone, access, goTo, few, FreeList.allocNewElement]

theorem alone_kept (room : state.list.freeListSize < state.list.highWaterMark)
    (isTail : state.list.freeTail = some tail) (tailLive : tail ∈ state.live)
    (elemLive : elem ∈ state.live) :
    alone thread new (count + 7) (state.goTo thread (.countsRoom elem)) = some ({ state with
      list := { state.list with
        next := Function.update (Function.update state.list.next elem none) tail (some elem)
        freeTail := some elem
        freeListSize := state.list.freeListSize + 1 }
      joined := state.joined ++ [elem]
      threads := Function.update state.threads thread .idle },
      .threw " Empty element to release.") := by
  simp [alone, access, goTo, room, isTail, tailLive, elemLive, writeNext]

theorem alone_deleted (full : ¬ state.list.freeListSize < state.list.highWaterMark)
    (elemLive : elem ∈ state.live) :
    alone thread new (count + 7) (state.goTo thread (.countsRoom elem)) = some ({ state with
      live := state.live.erase elem
      threads := Function.update state.threads thread .idle },
      .threw " Empty element to release.") := by
  simp [alone, access, goTo, full, elemLive]

end Paths

omit [DecidableEq Thread] in
/-- With no call running, a node that is the last of the list is the only one, so the count is not
above the high water mark. -/
theorem Keeps.few_of_last {highWaterMark : Int} {first : Nat} {rest : List Nat}
    (keeps : Keeps highWaterMark state first rest) (quiet : ∀ thread, state.threads thread = .idle)
    (highNonneg : 0 ≤ highWaterMark) (isLast : state.list.next first = none) :
    ¬ state.list.freeListSize > state.list.highWaterMark := by
  obtain ⟨queue, length⟩ := keeps.queue_of_quiet quiet
  have noRest : rest = [] := List.head?_eq_none_iff.mp (queue.linked.2.head_eq ▸ isLast)
  have isHigh := keeps.high
  rw [noRest, List.length_singleton] at length
  omega

/-- A call of `getElement` that runs alone returns, and does what the model of one thread says. -/
theorem Keeps.getElement_alone {highWaterMark : Int} {first : Nat} {rest : List Nat}
    (keeps : Keeps highWaterMark state first rest) (quiet : ∀ thread, state.threads thread = .idle)
    (highNonneg : 0 ≤ highWaterMark) (turns count new : Nat) :
    ∃ list outcome next event,
      FreeListBase.getElement (turns + 1) state.list new = some (list, outcome) ∧
      alone thread new (count + 7) (state.goTo thread .countsFree) = some (next, event) ∧
      next.custody = state.custody.after list (.getElement new) outcome ∧
      next.threads = Function.update state.threads thread .idle := by
  have isHead : state.list.freeHead = some first := (keeps.queue_of_quiet quiet).1.linked.1
  have isLive : first ∈ state.live := keeps.live_of_free List.mem_cons_self
  by_cases more : state.list.freeListSize > state.list.lowWaterMark
  · cases isNext : state.list.next first with
    | none =>
      -- a thread waits for the link of the last node only above the high water mark
      have few := keeps.few_of_last quiet highNonneg isNext
      have turn : FreeListBase.getElementTurn new state.list =
          .inr (state.list.allocNewElement new, .allocated new) := by
        simp only [FreeListBase.getElementTurn, if_pos more, isHead, isNext, if_neg few]
        rw [← isHead]
      exact ⟨_, _, _, _, loop_inr turns turn, alone_last count more isHead isNext isLive few,
        rfl, rfl⟩
    | some tmp =>
      have turn : FreeListBase.getElementTurn new state.list = .inr ({ state.list with
          freeListSize := state.list.freeListSize - 1
          next := Function.update state.list.next first none
          freeHead := some tmp }, .taken first) := by
        simp only [FreeListBase.getElementTurn, if_pos more, isHead, isNext]
      exact ⟨_, _, _, _, loop_inr turns turn, alone_taken count more isHead isNext isLive,
        rfl, rfl⟩
  · have turn : FreeListBase.getElementTurn new state.list =
        .inr (state.list.allocNewElement new, .allocated new) := if_neg more
    exact ⟨_, _, _, _, loop_inr turns turn, alone_allocated count more, rfl, rfl⟩

/-- So does a call of `releaseElement`. -/
theorem Keeps.releaseElement_alone {highWaterMark : Int} {first : Nat} {rest : List Nat}
    (keeps : Keeps highWaterMark state first rest) (count : Nat) {elem new : Nat}
    (isOut : elem ∈ state.out) :
    ∃ list done result next event,
      FreeListBase.releaseElement state.list (some elem) = some (list, some done, result) ∧
      alone thread new (count + 7)
        ({ state with out := state.out.erase elem }.goTo thread (.countsRoom elem)) =
          some (next, event) ∧
      next.custody = state.custody.after list (.releaseElement elem) done ∧
      next.threads = Function.update state.threads thread .idle := by
  have elemLive : elem ∈ state.live := keeps.live_of_out isOut
  by_cases room : state.list.freeListSize < state.list.highWaterMark
  · obtain ⟨tail, isTail⟩ : ∃ tail, state.list.freeTail = some tail :=
      ⟨_, keeps.tail.symm.trans (List.getLast?_eq_some_getLast (List.cons_ne_nil _ _))⟩
    have tailLive : tail ∈ state.live :=
      keeps.live_of_free (List.mem_of_getLast? (keeps.tail.trans isTail))
    have releases : FreeListBase.releaseElement state.list (some elem) = some ({ state.list with
        next := Function.update (Function.update state.list.next elem none) tail (some elem)
        freeTail := some elem
        freeListSize := state.list.freeListSize + 1 },
        some .kept, .error " Empty element to release.") := by
      simp only [FreeListBase.releaseElement, if_pos room, isTail]
      rfl
    exact ⟨_, _, _, _, _, releases, alone_kept count room isTail tailLive elemLive, rfl, rfl⟩
  · have releases : FreeListBase.releaseElement state.list (some elem) =
        some (state.list, some .deleted, .error " Empty element to release.") := by
      simp only [FreeListBase.releaseElement, if_neg room]
      rfl
    exact ⟨_, _, _, _, _, releases, alone_deleted count room elemLive, rfl, rfl⟩

/-- A call that no other interleaves with returns, and does what the model of one thread says. -/
theorem Keeps.alone_of_syncStep {highWaterMark : Int} {first : Nat} {rest : List Nat}
    (keeps : Keeps highWaterMark state first rest) (quiet : ∀ thread, state.threads thread = .idle)
    (highNonneg : 0 ≤ highWaterMark) (thread : Thread) (turns count : Nat) {call : FreeListCall}
    (proper : state.custody.Proper call) :
    ∃ custody returned next event,
      state.custody.syncStep (turns + 1) call = some (custody, returned) ∧
      alone thread (fresh call) (count + 7) (state.begin thread call) = some (next, event) ∧
      next.custody = custody ∧ next.threads = state.threads := by
  have same : Function.update state.threads thread .idle = state.threads :=
    Function.update_eq_self_iff.mpr (quiet thread).symm
  cases call with
  | getElement new =>
    obtain ⟨list, outcome, next, event, gets, ends, custody, threads⟩ :=
      keeps.getElement_alone quiet highNonneg turns count new
    exact ⟨_, _, next, event, Option.map_eq_some_iff.mpr ⟨_, gets, rfl⟩, ends, custody,
      threads.trans same⟩
  | releaseElement elem =>
    obtain ⟨list, done, result, next, event, releases, ends, custody, threads⟩ :=
      keeps.releaseElement_alone count proper
    exact ⟨_, _, next, event, Option.map_eq_some_iff.mpr ⟨_, releases, rfl⟩, ends, custody,
      threads.trans same⟩

/-- Whenever no call runs, whatever interleavings came before, a call returns in the model of one
thread, even with one turn of the loop. A call that runs alone returns too, after at most seven
accesses, with the list, the nodes that exist and those that callers have as that model gives
them. -/
theorem alone_behind_interleaving [Nonempty Thread] {highWaterMark lowWaterMark : Int}
    (highNonneg : 0 ≤ highWaterMark) {new : Nat → Nat}
    (distinct : ((List.range (highWaterMark.toNat + 1)).map new).Nodup) {list : FreeList}
    (inits : (FreeList.create highWaterMark lowWaterMark).init new = some list)
    {turns : List (ListTurn Thread)} (fits : EachStep step Proper (start list new) turns)
    {events : List (Option ListEvent)}
    (runs : run step (start list new) turns = some (state, events))
    (quiet : ∀ thread, state.threads thread = .idle) (thread : Thread) (fuel : Nat)
    {call : FreeListCall} (proper : state.custody.Proper call) :
    ∃ custody returned next event,
      state.custody.syncStep (fuel + 1) call = some (custody, returned) ∧
      alone thread (fresh call) 7 (state.begin thread call) = some (next, event) ∧
      next.custody = custody ∧ ∀ thread, next.threads thread = .idle := by
  obtain ⟨made, again, keepsStart⟩ :=
    @exists_keeps_start Thread _ _ highWaterMark highNonneg lowWaterMark new distinct
  obtain rfl := Option.some.inj (inits.symm.trans again)
  obtain ⟨first, rest, keeps⟩ := (throughout_keeps turns keepsStart fits).last runs
  obtain ⟨custody, returned, next, event, returns, ends, same, threads⟩ :=
    keeps.alone_of_syncStep quiet highNonneg thread fuel 0 proper
  exact ⟨custody, returned, next, event, returns, ends, same, threads ▸ quiet⟩

/-- Behind the calls of two threads that wait for each other, a third call gives a node back. -/
theorem alone_behind_interleaving_example :
    ∃ list state events, (FreeList.create 1 (-1)).init id = some list ∧
      run step (start list id : ListThreads (Fin 2))
        ([.getElement 0, .getElement 1] ++ List.replicate 3 (.access 0 9) ++
          List.replicate 2 (.access 1 9) ++ List.replicate 4 (.access 0 9) ++
          List.replicate 6 (.access 1 9)) = some (state, events) ∧
      ∃ custody returned next event,
        state.custody.syncStep 1 (.releaseElement 0) = some (custody, returned) ∧
        alone 1 0 7 (state.begin 1 (.releaseElement 0)) = some (next, event) ∧
        next.custody = custody ∧ ∀ thread, next.threads thread = .idle := by
  refine ⟨_, _, _, rfl, rfl, ?_⟩
  exact @alone_behind_interleaving (Fin 2) _ _ _ ⟨0⟩ 1 (-1) (by decide) id (by decide) _ rfl
    ([.getElement 0, .getElement 1] ++ List.replicate 3 (.access 0 9) ++
      List.replicate 2 (.access 1 9) ++ List.replicate 4 (.access 0 9) ++
      List.replicate 6 (.access 1 9)) (by decide) _ rfl (by decide) 1 0 (.releaseElement 0)
    (by decide)

end Alone

end ListThreads

end ObLib
