/-
This file proves what a `MsgQ` does however the calls of its threads interleave.

Values come out in the order in which they went in, each once. A `wait` that finds the
queue empty and has time left takes the lock and then, in the `get` inside, waits for it
to be freed, which nobody else can do. From there on no value goes in or comes out, and
the code behind that `get` is never reached: no wait on the condition, no signal, no
timeout. Where no thread has gone that far, the thread in the critical section frees the
lock with its next accesses.
-/

import OrderBookSketch.MsgQThreads

namespace ObLib

open Runs Interleaving

namespace MsgQThreads

variable {Val Thread : Type} [Fintype Thread] {variant : MsgQVariant}

namespace Keeps

variable {state : MsgQThreads Val Thread} {thread : Thread} {place before : MsgQPlace Val}

theorem held_le_one (keeps : Keeps state) : held MsgQPlace.holds state.threads ≤ 1 := by
  rw [keeps.lock]
  split_ifs <;> decide

/-- Some thread is in a critical section where the lock is taken. -/
theorem exists_holder (keeps : Keeps state) (locked : state.mutexH = true) :
    ∃ thread, (state.threads thread).holds = 1 := by
  by_contra none
  have zero : held MsgQPlace.holds state.threads = 0 := held_eq_zero fun thread => by
    by_contra some
    exact none ⟨thread, MsgQPlace.holds_eq_one some⟩
  rw [keeps.lock, if_pos locked] at zero
  exact absurd zero (by decide)

variable [DecidableEq Thread]

/-- A thread in a critical section has locked. -/
theorem locked_of_holder (keeps : Keeps state) (here : (state.threads thread).holds = 1) :
    state.mutexH = true := by
  have some := le_held MsgQPlace.holds state.threads thread
  rw [here, keeps.lock] at some
  by_contra free
  rw [if_neg free] at some
  exact absurd some (by decide)

/-- No other thread is in a critical section. -/
theorem others (keeps : Keeps state) (here : (state.threads thread).holds = 1) {other : Thread}
    (different : other ≠ thread) : (state.threads other).holds = 0 :=
  eq_zero_of_held_le_one keeps.held_le_one here different

/-- What only a thread in a critical section has is what the one that is there has. -/
theorem held_of_holder {Amount : Type} [AddCommMonoid Amount] (keeps : Keeps state)
    (here : (state.threads thread).holds = 1) {amount : MsgQPlace Val → Amount}
    (none : ∀ {place : MsgQPlace Val}, place.holds = 0 → amount place = 0) :
    held amount state.threads = amount (state.threads thread) :=
  held_eq_of_others fun _ different => none (keeps.others here different)

/-- The thread in a critical section moves. -/
theorem held_update_of_holder {Amount : Type} [AddCommMonoid Amount] (keeps : Keeps state)
    (here : (state.threads thread).holds = 1) {amount : MsgQPlace Val → Amount}
    (none : ∀ {place : MsgQPlace Val}, place.holds = 0 → amount place = 0)
    (place : MsgQPlace Val) :
    held amount (Function.update state.threads thread place) = amount place := by
  rw [held_eq_of_others fun other different => ?_, Function.update_self]
  rw [Function.update_of_ne different]
  exact none (keeps.others here different)

/-- Where the lock is free, no thread is in a critical section. -/
theorem holds_of_free (keeps : Keeps state) (free : state.mutexH = false) (thread : Thread) :
    (state.threads thread).holds = 0 := by
  have none := le_held MsgQPlace.holds state.threads thread
  rw [keeps.lock, if_neg (by rw [free]; decide)] at none
  exact Nat.le_zero.mp none

/-- An amount that is the same at the new place. -/
theorem still {Amount : Type} [AddCommMonoid Amount] (amount : MsgQPlace Val → Amount)
    (here : state.threads thread = before) (place : MsgQPlace Val)
    (same : amount place = amount before) :
    held amount (Function.update state.threads thread place) = held amount state.threads :=
  held_update_of_eq (same.trans (congrArg amount here.symm))

theorem near_update (keeps : Keeps state) (near : place.beyond = false) :
    ∀ other, (Function.update state.threads thread place other).beyond = false :=
  (Function.forall_update_iff _ fun _ (place : MsgQPlace Val) => place.beyond = false).mpr
    ⟨near, fun other _ => keeps.near other⟩

theorem timed_update (keeps : Keeps state) (timed : place.time ≠ some 0) :
    ∀ other, (Function.update state.threads thread place other).time ≠ some 0 :=
  (Function.forall_update_iff _ fun _ (place : MsgQPlace Val) => place.time ≠ some 0).mpr
    ⟨timed, fun other _ => keeps.timed other⟩

/-- A thread moves to a place that holds the same. -/
theorem goTo (keeps : Keeps state) (here : state.threads thread = before)
    (sameHolds : place.holds = before.holds) (sameTaken : place.taken = before.taken)
    (sameWaits : place.waits = before.waits) (near : place.beyond = false)
    (timed : place.time ≠ some 0) : Keeps (state.goTo thread place) where
  lock := (still MsgQPlace.holds here place sameHolds).trans keeps.lock
  order := by
    obtain ⟨inHand, isTaken, order⟩ := keeps.order
    exact ⟨inHand, isTaken.trans (still MsgQPlace.taken here place sameTaken).symm, order⟩
  waiting := keeps.waiting.trans
    (congrArg Nat.cast (still MsgQPlace.waits here place sameWaits).symm)
  near := keeps.near_update near
  timed := keeps.timed_update timed

/-! ### The lock -/

/-- The exchange of a thread that is in no critical section. -/
theorem exchange (keeps : Keeps state) {spins locked : MsgQPlace Val}
    (here : state.threads thread = before) (outside : before.holds = 0)
    (spinsOutside : spins.Outside) (inside : locked.Inside) :
    Keeps (state.exchange thread spins locked) := by
  unfold MsgQThreads.exchange
  split_ifs with locks
  · exact keeps.goTo here (spinsOutside.holds.trans outside.symm)
      ((MsgQPlace.taken_eq_zero spinsOutside.holds).trans (MsgQPlace.taken_eq_zero outside).symm)
      ((MsgQPlace.waits_eq_zero spinsOutside.holds).trans (MsgQPlace.waits_eq_zero outside).symm)
      spinsOutside.near spinsOutside.timed
  · have free : state.mutexH = false := Bool.eq_false_iff.mpr locks
    obtain ⟨inHand, isTaken, order⟩ := keeps.order
    have sameTaken : locked.taken = before.taken :=
      inside.taken.trans (MsgQPlace.taken_eq_zero outside).symm
    have sameWaits : locked.waits = before.waits :=
      inside.waits.trans (MsgQPlace.waits_eq_zero outside).symm
    exact {
      lock := held_of_lock keeps.lock free (by rw [here]; exact outside) inside.holds
      order := ⟨inHand, isTaken.trans (still MsgQPlace.taken here locked sameTaken).symm, order⟩
      waiting := keeps.waiting.trans
        (congrArg Nat.cast (still MsgQPlace.waits here locked sameWaits).symm)
      near := keeps.near_update inside.near
      timed := keeps.timed_update inside.timed }

/-- A look at the lock of a thread that is in no critical section. -/
theorem spin (keeps : Keeps state) {locks : MsgQPlace Val} (here : state.threads thread = before)
    (outside : before.holds = 0) (locksOutside : locks.Outside) :
    Keeps (state.spin thread locks) := by
  unfold MsgQThreads.spin
  split_ifs
  · exact keeps
  · exact keeps.goTo here (locksOutside.holds.trans outside.symm)
      ((MsgQPlace.taken_eq_zero locksOutside.holds).trans (MsgQPlace.taken_eq_zero outside).symm)
      ((MsgQPlace.waits_eq_zero locksOutside.holds).trans (MsgQPlace.waits_eq_zero outside).symm)
      locksOutside.near locksOutside.timed

/-- The value in the hand of the thread in the critical section is the next to come out. -/
theorem linked_of_holder (keeps : Keeps state) (here : state.threads thread = before)
    (inside : before.holds = 1) (out : Option Val)
    (isTaken : before.taken = (out.toList : Multiset Val)) :
    state.linked = state.returned ++ out.toList ++ state.queue.entries.map Prod.fst := by
  obtain ⟨inHand, isHand, order⟩ := keeps.order
  rw [keeps.held_of_holder (here ▸ inside) MsgQPlace.taken_eq_zero, here, isTaken] at isHand
  have same : inHand = out.toList := by
    have perm := Multiset.coe_eq_coe.mp isHand
    cases out with
    | none => exact perm.eq_nil
    | some val => exact perm.eq_singleton
  rw [order, same]

/-- The thread in the critical section leaves it, with what it returns. -/
theorem freesLock (keeps : Keeps state) (here : state.threads thread = before)
    (inside : before.holds = 1) (out : Option Val)
    (isTaken : before.taken = (out.toList : Multiset Val)) (noWait : before.waits = 0)
    {returned : List Val} (returns : returned = state.returned ++ out.toList)
    (outside : place.Outside) :
    Keeps ({ state.unlock with returned := returned }.goTo thread place) where
  lock := (keeps.held_update_of_holder (here ▸ inside) id place).trans outside.holds
  order := by
    refine ⟨[], ?_, ?_⟩
    · exact ((keeps.held_update_of_holder (here ▸ inside) MsgQPlace.taken_eq_zero place).trans
        (MsgQPlace.taken_eq_zero outside.holds)).symm
    · show state.linked = returned ++ [] ++ state.queue.entries.map Prod.fst
      rw [List.append_nil, returns, ← keeps.linked_of_holder here inside out isTaken]
  waiting := by
    have none : held MsgQPlace.waits state.threads = 0 := by
      rw [keeps.held_of_holder (here ▸ inside) MsgQPlace.waits_eq_zero, here, noWait]
    have noneAfter := (keeps.held_update_of_holder (here ▸ inside) MsgQPlace.waits_eq_zero
      place).trans (MsgQPlace.waits_eq_zero outside.holds)
    exact keeps.waiting.trans (congrArg Nat.cast (none.trans noneAfter.symm))
  near := keeps.near_update outside.near
  timed := keeps.timed_update outside.timed

/-! ### In the critical section -/

/-- `post` links its value. -/
theorem links (keeps : Keeps state) {val : Val} {key : Nat}
    (here : state.threads thread = .links val key) :
    Keeps ({ state with
      queue := { state.queue with entries := state.queue.entries ++ [(val, key)] }
      linked := state.linked ++ [val] }.goTo thread .readsWaiting) where
  lock := (still MsgQPlace.holds here .readsWaiting rfl).trans keeps.lock
  order := by
    obtain ⟨inHand, isHand, order⟩ := keeps.order
    refine ⟨inHand, isHand.trans (still MsgQPlace.taken here .readsWaiting rfl).symm, ?_⟩
    show state.linked ++ [val] = _ ++ (state.queue.entries ++ [(val, key)]).map Prod.fst
    rw [order, List.map_append, List.append_assoc _ _ [val]]
    rfl
  waiting := keeps.waiting.trans
    (congrArg Nat.cast (still MsgQPlace.waits here .readsWaiting rfl).symm)
  near := keeps.near_update rfl
  timed := keeps.timed_update nofun

/-- `get` takes the first value. -/
theorem takes (keeps : Keeps state) {timeout : Int}
    (here : state.threads thread = .takes timeout) :
    Keeps ((state.takeFirst variant).1.goTo thread
      (.unlocksGet timeout (state.takeFirst variant).2)) := by
  have holder : (state.threads thread).holds = 1 := by rw [here]; rfl
  have all := keeps.linked_of_holder here rfl none rfl
  unfold takeFirst
  cases entries : state.queue.entries with
  | nil => exact keeps.goTo here rfl rfl rfl rfl nofun
  | cons entry rest =>
    obtain ⟨val, key⟩ := entry
    let place : MsgQPlace Val := .unlocksGet timeout (some val)
    refine ⟨(still MsgQPlace.holds here place rfl).trans keeps.lock, ⟨[val], ?_, ?_⟩, ?_,
      keeps.near_update rfl, keeps.timed_update nofun⟩
    · exact (keeps.held_update_of_holder holder MsgQPlace.taken_eq_zero place).symm
    · rw [entries] at all
      show state.linked = state.returned ++ [val] ++ rest.map Prod.fst
      rw [all, Option.toList_none, List.append_nil, List.append_assoc]
      rfl
    · exact keeps.waiting.trans (congrArg Nat.cast (still MsgQPlace.waits here place rfl).symm)

/-- A `wait` counts itself, before it calls `get` with the lock in its hands. -/
theorem countsUp (keeps : Keeps state) {timeout : Int}
    (here : state.threads thread = .countsUp timeout) :
    Keeps ((state.changeWaiting 1).goTo thread (.locksAgain timeout)) where
  lock := (still MsgQPlace.holds here (.locksAgain timeout) rfl).trans keeps.lock
  order := by
    obtain ⟨inHand, isHand, order⟩ := keeps.order
    exact ⟨inHand, isHand.trans (still MsgQPlace.taken here (.locksAgain timeout) rfl).symm, order⟩
  waiting := by
    have moved := held_update MsgQPlace.waits state.threads thread (.locksAgain timeout)
    rw [here] at moved
    show state.queue.waitingForTake + 1 = _
    rw [keeps.waiting]
    exact_mod_cast moved.symm
  near := keeps.near_update rfl
  timed := keeps.timed_update fun zero => keeps.timed thread (by rw [here]; exact zero)

end Keeps

/-! ### Every access -/

variable [DecidableEq Thread]

/-- A `wait` returns the value that it took, or nothing where it has no time; a `get` that finds
nothing finds every value returned; nobody signals, and nobody waits on the condition. -/
def Lawful (state next : MsgQThreads Val Thread) : Option (MsgQEvent Val) → Prop
  | none => next.returned = state.returned
  | some (.posted _) => next.returned = state.returned
  | some .foundNothing => next.returned = state.returned ∧ state.linked = state.returned
  | some (.waited timeout code data) =>
    (code = 0 ∧ ∃ val, data = some val ∧ next.returned = state.returned ++ [val]) ∨
      (code = -1 ∧ data = none ∧ timeout = 0 ∧ next.returned = state.returned)
  | some .signalOne => False
  | some .condWait => False

variable {state : MsgQThreads Val Thread} {thread : Thread}

omit [Fintype Thread] in
theorem returned_exchange (spins locked : MsgQPlace Val) :
    (state.exchange thread spins locked).returned = state.returned := by
  unfold exchange
  split_ifs <;> rfl

omit [Fintype Thread] in
theorem returned_spin (locks : MsgQPlace Val) :
    (state.spin thread locks).returned = state.returned := by
  unfold spin
  split_ifs <;> rfl

/-- Every access of a thread is lawful, and keeps the queue. -/
theorem Keeps.access (keeps : Keeps state) (variant : MsgQVariant) (thread : Thread) :
    Lawful state (state.access variant thread).1 (state.access variant thread).2 ∧
      Keeps (state.access variant thread).1 := by
  have near := keeps.near thread
  have timed := keeps.timed thread
  unfold MsgQThreads.access
  cases here : state.threads thread with
  | idle => exact ⟨rfl, keeps⟩
  | locksPost val key =>
    exact ⟨returned_exchange .., keeps.exchange here rfl ⟨rfl, rfl, nofun⟩
      ⟨rfl, rfl, rfl, rfl, nofun⟩⟩
  | spinsPost val key => exact ⟨returned_spin _, keeps.spin here rfl ⟨rfl, rfl, nofun⟩⟩
  | links val key => exact ⟨rfl, keeps.links here⟩
  | readsWaiting =>
    -- whoever is counted as waiting has the lock
    have none : state.queue.waitingForTake = 0 := by
      have holder : (state.threads thread).holds = 1 := by rw [here]; rfl
      rw [keeps.waiting, keeps.held_of_holder holder MsgQPlace.waits_eq_zero, here]
      rfl
    simp only [none, lt_self_iff_false, if_false]
    exact ⟨rfl, keeps.goTo here rfl rfl rfl rfl nofun⟩
  | unlocksPost =>
    exact ⟨rfl, keeps.freesLock here rfl none rfl rfl (List.append_nil _).symm
      ⟨rfl, rfl, nofun⟩⟩
  | locksGet timeout =>
    exact ⟨returned_exchange .., keeps.exchange here rfl ⟨rfl, rfl, nofun⟩
      ⟨rfl, rfl, rfl, rfl, nofun⟩⟩
  | spinsGet timeout => exact ⟨returned_spin _, keeps.spin here rfl ⟨rfl, rfl, nofun⟩⟩
  | takes timeout =>
    refine ⟨?_, keeps.takes here⟩
    have all := keeps.linked_of_holder here rfl none rfl
    rw [Option.toList_none, List.append_nil] at all
    unfold takeFirst
    cases entries : state.queue.entries with
    | nil =>
      rw [entries, List.map_nil, List.append_nil] at all
      exact ⟨rfl, all⟩
    | cons entry rest => exact rfl
  | unlocksGet timeout data =>
    cases data with
    | some val =>
      exact ⟨.inl ⟨rfl, val, rfl, rfl⟩, keeps.freesLock here rfl (some val) rfl rfl rfl
        ⟨rfl, rfl, nofun⟩⟩
    | none =>
      by_cases zero : timeout = 0
      · simp only [zero, if_true]
        exact ⟨.inr ⟨rfl, rfl, rfl, rfl⟩, keeps.freesLock here rfl none rfl rfl
          (List.append_nil _).symm ⟨rfl, rfl, nofun⟩⟩
      · simp only [zero, if_false]
        exact ⟨rfl, keeps.freesLock here rfl none rfl rfl (List.append_nil _).symm
          ⟨rfl, rfl, fun some => zero (Option.some.inj some)⟩⟩
  | locksWait timeout =>
    rw [here] at timed
    exact ⟨returned_exchange .., keeps.exchange here rfl ⟨rfl, rfl, timed⟩
      ⟨rfl, rfl, rfl, rfl, timed⟩⟩
  | spinsWait timeout =>
    rw [here] at timed
    exact ⟨returned_spin _, keeps.spin here rfl ⟨rfl, rfl, timed⟩⟩
  | countsUp timeout => exact ⟨rfl, keeps.countsUp here⟩
  | locksAgain timeout =>
    rw [here] at timed
    have inside : (state.threads thread).holds = 1 := by rw [here]; rfl
    have locked := keeps.locked_of_holder inside
    simp only [MsgQThreads.exchange, locked, if_true]
    exact ⟨rfl, keeps.goTo here rfl rfl rfl rfl timed⟩
  | spinsAgain timeout =>
    have inside : (state.threads thread).holds = 1 := by rw [here]; rfl
    have locked := keeps.locked_of_holder inside
    simp only [MsgQThreads.spin, locked, if_true]
    exact ⟨rfl, keeps⟩
  | _ =>
    rw [here] at near
    cases near

/-- So is every turn. -/
theorem Keeps.step (keeps : Keeps state) (variant : MsgQVariant) (turn : MsgQTurn Val Thread) :
    ∃ next event, step variant state turn = some (next, event) ∧ Lawful state next event ∧
      Keeps next := by
  match turn with
  | .access thread => exact ⟨_, _, rfl, keeps.access variant thread⟩
  | .post thread val key =>
    by_cases idle : (state.threads thread).isIdle
    · cases val with
      | none => exact ⟨_, _, if_pos idle, rfl, keeps⟩
      | some val =>
        exact ⟨_, _, if_pos idle, rfl,
          keeps.goTo (MsgQPlace.eq_idle idle) rfl rfl rfl rfl nofun⟩
    · exact ⟨_, _, if_neg idle, rfl, keeps⟩
  | .wait thread timeout =>
    by_cases idle : (state.threads thread).isIdle
    · exact ⟨_, _, if_pos idle, rfl, keeps.goTo (MsgQPlace.eq_idle idle) rfl rfl rfl rfl nofun⟩
    · exact ⟨_, _, if_neg idle, rfl, keeps⟩

/-- The values that were linked are those that were returned, at most one in the hand of the thread
in the critical section, and those in the queue, in this order; and no thread is behind the lock
that it had. -/
def Fifo (state : MsgQThreads Val Thread) : Prop :=
  (∃ inHand : Option Val,
    state.linked = state.returned ++ inHand.toList ++ state.queue.entries.map Prod.fst) ∧
    held MsgQPlace.holds state.threads = (if state.mutexH then 1 else 0) ∧
    ∀ thread, (state.threads thread).beyond = false

theorem Keeps.fifo (keeps : Keeps state) : Fifo state := by
  refine ⟨?_, keeps.lock, keeps.near⟩
  cases locked : state.mutexH with
  | true =>
    obtain ⟨holder, inside⟩ := keeps.exists_holder locked
    obtain ⟨out, isTaken⟩ := (state.threads holder).exists_taken
    exact ⟨out, keeps.linked_of_holder rfl inside out isTaken⟩
  | false =>
    obtain ⟨inHand, isHand, order⟩ := keeps.order
    rw [held_eq_zero fun thread => MsgQPlace.taken_eq_zero (keeps.holds_of_free locked thread)]
      at isHand
    rw [(Multiset.coe_eq_zero _).mp isHand] at order
    exact ⟨none, order⟩

omit [DecidableEq Thread] in
theorem keeps_create : Keeps (create : MsgQThreads Val Thread) where
  lock := held_eq_zero fun _ => rfl
  order := ⟨[], (held_eq_zero fun _ => rfl).symm, rfl⟩
  waiting := (congrArg Nat.cast (held_eq_zero fun _ => rfl)).symm
  near := fun _ => rfl
  timed := fun _ => nofun

/-- However the calls of any number of threads interleave, values come out in the order in which
they went in, each once; a `wait` returns nothing only where it has no time; a `get` that finds
nothing finds every value returned; and what `wait` does behind the `get` that it calls with the
lock in its hands is never reached, nor does `post` ever signal. -/
theorem values_in_order (variant : MsgQVariant) (turns : List (MsgQTurn Val Thread)) :
    EachReturn (step variant) (fun state _ event next => Lawful state next event ∧ Fifo next) create
      turns := by
  refine eachReturn_of_keeps (fun state turn (keeps : Keeps state) (_ : True) => ?_) turns _
    keeps_create (eachStep_of_forall (fun _ _ _ => trivial) _)
  obtain ⟨next, event, returns, lawful, again⟩ := keeps.step variant turn
  exact ⟨next, event, returns, ⟨lawful, again.fifo⟩, again⟩

/-! ### The lock that is never free again -/

/-- The access of the thread that has locked in order to wait. -/
theorem Keeps.access_doomed (keeps : Keeps state) (variant : MsgQVariant)
    (doomed : (state.threads thread).doomed) :
    ∃ place change,
      (state.access variant thread).1 = (state.changeWaiting change).goTo thread place ∧
        place.doomed := by
  have locked := keeps.locked_of_holder (MsgQPlace.holds_of_doomed doomed)
  have stays : state.goTo thread (state.threads thread) = state := by
    unfold MsgQThreads.goTo
    rw [Function.update_eq_self]
  have same : state.changeWaiting 0 = state := by
    unfold changeWaiting
    rw [add_zero]
  unfold MsgQThreads.access
  cases here : state.threads thread with
  | countsUp timeout => exact ⟨.locksAgain timeout, 1, rfl, rfl⟩
  | locksAgain timeout =>
    refine ⟨.spinsAgain timeout, 0, ?_, rfl⟩
    rw [same]
    exact if_pos locked
  | spinsAgain timeout =>
    have stay : (state.changeWaiting 0).goTo thread (.spinsAgain timeout) = state := by
      rw [same, ← here]
      exact stays
    exact ⟨.spinsAgain timeout, 0, (if_pos locked).trans stay.symm, rfl⟩
  | _ =>
    rw [here] at doomed
    cases doomed

/-- Where the lock is taken, a thread outside goes no further than to it. -/
theorem Keeps.access_outside (keeps : Keeps state) (variant : MsgQVariant)
    (locked : state.mutexH = true) (outside : (state.threads thread).holds = 0) :
    ∃ place, (state.access variant thread).1 = state.goTo thread place := by
  have near := keeps.near thread
  have stays : state = state.goTo thread (state.threads thread) := by
    unfold MsgQThreads.goTo
    rw [Function.update_eq_self]
  unfold MsgQThreads.access
  cases here : state.threads thread with
  | idle => exact ⟨_, stays⟩
  | locksPost | locksGet | locksWait => exact ⟨_, if_pos locked⟩
  | spinsPost | spinsGet | spinsWait => exact ⟨_, (if_pos locked).trans stays⟩
  | links | readsWaiting | unlocksPost | takes | unlocksGet | countsUp | locksAgain | spinsAgain =>
    rw [here] at outside
    cases outside
  | _ =>
    rw [here] at near
    cases near

/-- A thread that has locked in order to wait keeps the lock, and nothing goes in or out. -/
theorem Keeps.stuck (keeps : Keeps state) (variant : MsgQVariant) {waiter : Thread}
    (doomed : (state.threads waiter).doomed) (turn : MsgQTurn Val Thread) :
    ∃ next event, MsgQThreads.step variant state turn = some (next, event) ∧
      (Keeps next ∧ (next.threads waiter).doomed) ∧
      (next.linked = state.linked ∧ next.returned = state.returned) := by
  have inside := MsgQPlace.holds_of_doomed doomed
  have kept (thread : Thread) (different : thread ≠ waiter) (place : MsgQPlace Val) :
      ((state.goTo thread place).threads waiter).doomed := by
    show (Function.update state.threads thread place waiter).doomed
    rw [Function.update_of_ne different.symm]
    exact doomed
  have busy (thread : Thread) (idle : (state.threads thread).isIdle) : thread ≠ waiter := by
    rintro rfl
    rw [MsgQPlace.eq_idle idle] at inside
    cases inside
  match turn with
  | .access thread =>
    have again := (keeps.access variant thread).2
    refine ⟨(state.access variant thread).1, (state.access variant thread).2, rfl, ?_⟩
    by_cases same : thread = waiter
    · subst same
      obtain ⟨place, change, goes, still⟩ := keeps.access_doomed variant doomed
      rw [goes] at again ⊢
      refine ⟨⟨again, ?_⟩, rfl, rfl⟩
      show (Function.update state.threads thread place thread).doomed
      rw [Function.update_self]
      exact still
    · obtain ⟨place, goes⟩ := keeps.access_outside variant
        (keeps.locked_of_holder inside) (keeps.others inside same)
      rw [goes] at again ⊢
      exact ⟨⟨again, kept thread same place⟩, rfl, rfl⟩
  | .post thread val key =>
    by_cases idle : (state.threads thread).isIdle
    · cases val with
      | none => exact ⟨_, _, if_pos idle, ⟨keeps, doomed⟩, rfl, rfl⟩
      | some val =>
        exact ⟨_, _, if_pos idle, ⟨keeps.goTo (MsgQPlace.eq_idle idle) rfl rfl rfl rfl nofun,
          kept thread (busy thread idle) _⟩, rfl, rfl⟩
    · exact ⟨_, _, if_neg idle, ⟨keeps, doomed⟩, rfl, rfl⟩
  | .wait thread timeout =>
    by_cases idle : (state.threads thread).isIdle
    · exact ⟨_, _, if_pos idle, ⟨keeps.goTo (MsgQPlace.eq_idle idle) rfl rfl rfl rfl nofun,
        kept thread (busy thread idle) _⟩, rfl, rfl⟩
    · exact ⟨_, _, if_neg idle, ⟨keeps, doomed⟩, rfl, rfl⟩

/-! ### The lock that is freed again -/

/-- Some accesses free the lock. -/
def CanFree (variant : MsgQVariant) (state : MsgQThreads Val Thread) : Prop :=
  ∃ more last events, run (step variant) state more = some (last, events) ∧ last.mutexH = false

omit [Fintype Thread] in
theorem canFree_of_access (thread : Thread)
    (frees : CanFree variant (state.access variant thread).1) : CanFree variant state := by
  obtain ⟨more, last, events, runs, free⟩ := frees
  have accesses : step variant state (.access thread) =
      some ((state.access variant thread).1, (state.access variant thread).2) := rfl
  refine ⟨.access thread :: more, last, (state.access variant thread).2 :: events, ?_, free⟩
  rw [run_cons_of_some more accesses, runs]
  rfl

omit [Fintype Thread] in
theorem canFree_of_free (free : state.mutexH = false) : CanFree variant state :=
  ⟨[], state, [], rfl, free⟩

omit [Fintype Thread] in
theorem canFree_unlocksPost (here : state.threads thread = .unlocksPost) :
    CanFree variant state := by
  refine canFree_of_access thread (canFree_of_free ?_)
  rw [access, here]
  rfl

omit [Fintype Thread] in
theorem canFree_readsWaiting (here : state.threads thread = .readsWaiting) :
    CanFree variant state := by
  have goes : (state.access variant thread).1.threads thread = .unlocksPost := by
    rw [access, here]
    exact Function.update_self ..
  exact canFree_of_access thread (canFree_unlocksPost goes)

omit [Fintype Thread] in
theorem canFree_links {val : Val} {key : Nat} (here : state.threads thread = .links val key) :
    CanFree variant state := by
  have goes : (state.access variant thread).1.threads thread = .readsWaiting := by
    rw [access, here]
    exact Function.update_self ..
  exact canFree_of_access thread (canFree_readsWaiting goes)

omit [Fintype Thread] in
theorem canFree_unlocksGet {timeout : Int} {data : Option Val}
    (here : state.threads thread = .unlocksGet timeout data) : CanFree variant state := by
  refine canFree_of_access thread (canFree_of_free ?_)
  rw [access, here]
  cases data with
  | some val => rfl
  | none =>
    simp only
    split_ifs <;> rfl

omit [Fintype Thread] in
theorem canFree_takes {timeout : Int} (here : state.threads thread = .takes timeout) :
    CanFree variant state := by
  have goes : (state.access variant thread).1.threads thread =
      .unlocksGet timeout (state.takeFirst variant).2 := by
    rw [access, here]
    exact Function.update_self ..
  exact canFree_of_access thread (canFree_unlocksGet goes)

/-- Where no thread has locked in order to wait, the thread in the critical section leaves it. -/
theorem Keeps.canFree (keeps : Keeps state) (variant : MsgQVariant)
    (none : ∀ thread, (state.threads thread).doomed = false) :
    CanFree variant state := by
  cases locked : state.mutexH with
  | false => exact canFree_of_free locked
  | true =>
    obtain ⟨holder, inside⟩ := keeps.exists_holder locked
    have alive := none holder
    cases here : state.threads holder with
    | unlocksPost => exact canFree_unlocksPost here
    | readsWaiting => exact canFree_readsWaiting here
    | links => exact canFree_links here
    | unlocksGet => exact canFree_unlocksGet here
    | takes => exact canFree_takes here
    | countsUp | locksAgain | spinsAgain =>
      rw [here] at alive
      cases alive
    | _ =>
      rw [here] at inside
      cases inside

/-- After any interleaving of calls, the lock is never free again and no value goes in or out any
more exactly when a thread has locked in order to wait: one whose `wait` has time and found the
queue empty. -/
theorem stuck_iff {turns : List (MsgQTurn Val Thread)} {events : List (Option (MsgQEvent Val))}
    (reached : run (step variant) create turns = some (state, events)) :
    (∀ more last later, run (step variant) state more = some (last, later) →
      last.mutexH = true ∧ last.linked = state.linked ∧ last.returned = state.returned) ↔
      ∃ thread, (state.threads thread).doomed ∧ (state.threads thread).time ≠ some 0 := by
  have keeps : Keeps state := by
    have all : Throughout (step variant) Keeps create turns := by
      refine throughout_of_keeps (fun _ keeps => keeps)
        (fun state turn keeps (_ : True) => ?_) turns _ keeps_create
        (eachStep_of_forall (fun _ _ _ => trivial) _)
      obtain ⟨next, event, returns, -, again⟩ := keeps.step variant turn
      exact ⟨next, event, returns, again⟩
    exact all.last reached
  constructor
  · intro never
    by_contra none
    have alive (thread : Thread) : (state.threads thread).doomed = false := by
      by_contra doomed
      exact none ⟨thread, eq_true_of_ne_false doomed, keeps.timed thread⟩
    obtain ⟨more, last, later, runs, free⟩ := keeps.canFree variant alive
    rw [(never more last later runs).1] at free
    cases free
  · rintro ⟨waiter, doomed, -⟩ more last later runs
    have stays (before : MsgQThreads Val Thread) (turn : MsgQTurn Val Thread)
        (kept : Keeps before ∧ (before.threads waiter).doomed) (_ : True) :=
      kept.1.stuck variant kept.2 turn
    obtain ⟨final, outputs, returns, ⟨again, still⟩, same⟩ :=
      run_relates (fun _ => ⟨rfl, rfl⟩)
        (fun _ _ _ first second => ⟨second.1.trans first.1, second.2.trans first.2⟩) stays more
        (fun _ _ => trivial) state ⟨keeps, doomed⟩
    obtain ⟨rfl, -⟩ := returns_unique returns runs
    exact ⟨again.locked_of_holder (MsgQPlace.holds_of_doomed still), same⟩

/-- A `wait` for five units of time on the empty queue, until it spins on its own lock; the value
that the other thread posts then is never linked. -/
theorem stuck_iff_example :
    ∃ (state : MsgQThreads String (Fin 2)) (events : List (Option (MsgQEvent String))),
      run (step .plain) create ([.wait 0 5] ++ List.replicate 6 (.access 0) ++
        [.post 1 (some "a") 7]) = some (state, events) ∧
      ∀ more last later, run (step .plain) state more = some (last, later) →
        last.mutexH = true ∧ last.linked = state.linked ∧ last.returned = state.returned := by
  have reached : run (step .plain) (create : MsgQThreads String (Fin 2))
      ([.wait 0 5] ++ List.replicate 6 (.access 0) ++ [.post 1 (some "a") 7]) = some (_, _) := rfl
  exact ⟨_, _, reached, (stuck_iff reached).mpr ⟨0, rfl, by decide⟩⟩

end MsgQThreads

end ObLib
