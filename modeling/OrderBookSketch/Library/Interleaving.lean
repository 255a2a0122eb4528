/-
This file is about what the threads of a program hold while their steps interleave.

Every thread is at a place of its code. A place holds an amount in a commutative monoid:
a number of things to do, or the multiset of the objects that only this thread may
touch. A step moves one thread to another place, so what all threads hold changes by the
difference of the two places. Ownership is stated as one equation between what all
threads hold and what the shared memory holds: that two threads never own one object, and
that a lock has one holder, are read off from it.
-/

import Mathlib.Algebra.BigOperators.Group.Finset.Piecewise
import Mathlib.Algebra.Order.BigOperators.Group.Finset
import Mathlib.Algebra.Order.Group.Multiset

namespace Interleaving

variable {Thread Place Amount Object : Type} [Fintype Thread]

section Amounts

variable [AddCommMonoid Amount]

/-- What all threads hold. -/
def held (amount : Place → Amount) (threads : Thread → Place) : Amount :=
  ∑ thread, amount (threads thread)

variable {amount : Place → Amount} {threads : Thread → Place} {thread : Thread}

/-- Threads at places that hold nothing hold nothing. -/
theorem held_eq_zero (none : ∀ thread, amount (threads thread) = 0) : held amount threads = 0 :=
  Finset.sum_eq_zero fun thread _ => none thread

/-- What one thread holds is all that is held where the others hold nothing. -/
theorem held_eq_of_others (none : ∀ other, other ≠ thread → amount (threads other) = 0) :
    held amount threads = amount (threads thread) :=
  Finset.sum_eq_single thread (fun other _ different => none other different)
    fun absent => absurd (Finset.mem_univ thread) absent

variable [DecidableEq Thread]

/-- What a thread holds is taken out of what all threads hold. -/
theorem held_eq_add_erase (amount : Place → Amount) (threads : Thread → Place) (thread : Thread) :
    held amount threads =
      amount (threads thread) + ∑ other ∈ Finset.univ.erase thread, amount (threads other) :=
  (Finset.add_sum_erase Finset.univ _ (Finset.mem_univ thread)).symm

/-- A thread that moves gives back what it held and takes what its new place holds. -/
theorem held_update (amount : Place → Amount) (threads : Thread → Place) (thread : Thread)
    (place : Place) :
    held amount (Function.update threads thread place) + amount (threads thread) =
      held amount threads + amount place := by
  have others : ∀ other ∈ Finset.univ.erase thread,
      amount (Function.update threads thread place other) = amount (threads other) :=
    fun other member => by rw [Function.update_of_ne (Finset.ne_of_mem_erase member)]
  rw [held_eq_add_erase amount _ thread, held_eq_add_erase amount threads thread,
    Finset.sum_congr rfl others, Function.update_self, add_right_comm, add_comm (amount place),
    add_right_comm]

/-- A move between places that hold the same changes nothing. -/
theorem held_update_of_eq {place : Place} (same : amount place = amount (threads thread)) :
    held amount (Function.update threads thread place) = held amount threads := by
  unfold held
  refine Finset.sum_congr rfl fun other _ => ?_
  by_cases here : other = thread
  · rw [here, Function.update_self, same]
  · rw [Function.update_of_ne here]

end Amounts

/-! ### Numbers -/

section Numbers

variable {amount : Place → Nat} {threads : Thread → Place}

/-- A number that no place exceeds is exceeded by all threads at most once each. -/
theorem held_le_card {bound : Nat} (each : ∀ place, amount place ≤ bound) :
    held amount threads ≤ Fintype.card Thread * bound :=
  Finset.sum_le_card_nsmul _ _ _ fun thread _ => each (threads thread)

/-- Where one is held in all and this thread holds it, no other thread does. -/
theorem eq_zero_of_held_le_one [DecidableEq Thread] {thread other : Thread}
    (one : held amount threads ≤ 1) (here : amount (threads thread) = 1)
    (different : other ≠ thread) : amount (threads other) = 0 := by
  rw [held_eq_add_erase amount threads thread, here] at one
  have none : ∑ other ∈ Finset.univ.erase thread, amount (threads other) = 0 := by omega
  exact Finset.sum_eq_zero_iff.mp none other (Finset.mem_erase.mpr ⟨different, Finset.mem_univ _⟩)

theorem held_mono {more : Place → Nat} (each : ∀ place, amount place ≤ more place) :
    held amount threads ≤ held more threads :=
  Finset.sum_le_sum fun thread _ => each (threads thread)

theorem le_held [DecidableEq Thread] (amount : Place → Nat) (threads : Thread → Place)
    (thread : Thread) : amount (threads thread) ≤ held amount threads := by
  rw [held_eq_add_erase amount threads thread]
  exact Nat.le_add_right ..

/-- A lock that is free is taken by a thread. -/
theorem held_of_lock [DecidableEq Thread] {thread : Thread} {place : Place} {locked : Bool}
    (lock : held amount threads = if locked then 1 else 0) (free : locked = false)
    (here : amount (threads thread) = 0) (there : amount place = 1) :
    held amount (Function.update threads thread place) = 1 := by
  have moved := held_update amount threads thread place
  rwa [here, there, lock, free] at moved

/-- The holder of a lock frees it. -/
theorem held_of_unlock [DecidableEq Thread] {thread : Thread} {place : Place} {locked : Bool}
    (lock : held amount threads = if locked then 1 else 0)
    (here : amount (threads thread) = 1) (there : amount place = 0) :
    held amount (Function.update threads thread place) = 0 := by
  have moved := held_update amount threads thread place
  have most : held amount threads ≤ 1 := by
    rw [lock]
    split_ifs <;> decide
  omega

end Numbers

/-! ### Objects -/

section Objects

variable {objects : Place → Multiset Object} {threads : Thread → Place} {thread : Thread}
  {object : Object}

/-- Whatever is held is held by a thread. -/
theorem exists_of_mem_held (isHeld : object ∈ held objects threads) :
    ∃ thread, object ∈ objects (threads thread) := by
  obtain ⟨thread, -, isHere⟩ := Multiset.mem_sum.mp isHeld
  exact ⟨thread, isHere⟩

/-- Where the one object is shared, no thread holds one. -/
theorem held_eq_zero_of_shared {only : Object}
    (one : {object} + held objects threads = ({only} : Multiset Object)) :
    object = only ∧ held objects threads = 0 := by
  have isOnly : object ∈ ({only} : Multiset Object) :=
    one ▸ Multiset.mem_add.mpr (.inl (Multiset.mem_singleton_self object))
  obtain rfl := Multiset.mem_singleton.mp isOnly
  exact ⟨rfl, add_eq_left.mp one⟩

variable [DecidableEq Thread]

theorem mem_held (isHere : object ∈ objects (threads thread)) : object ∈ held objects threads := by
  rw [held_eq_add_erase objects threads thread]
  exact Multiset.mem_add.mpr (.inl isHere)

/-- Where all that is held is distinct, two threads hold nothing in common. -/
theorem eq_of_mem_held (distinct : (held objects threads).Nodup) {other : Thread}
    (isHere : object ∈ objects (threads thread)) (isThere : object ∈ objects (threads other)) :
    other = thread := by
  by_contra different
  rw [held_eq_add_erase objects threads thread] at distinct
  refine Multiset.disjoint_left.mp (Multiset.nodup_add.mp distinct).2.2 isHere ?_
  exact Multiset.mem_sum.mpr ⟨other, Finset.mem_erase.mpr ⟨different, Finset.mem_univ _⟩, isThere⟩

/-- A thread lets go of an object. -/
theorem held_eq_cons_update {place : Place}
    (here : objects (threads thread) = object ::ₘ objects place) :
    held objects threads = object ::ₘ held objects (Function.update threads thread place) := by
  have moved := held_update objects threads thread place
  rw [here, Multiset.add_cons, ← Multiset.cons_add] at moved
  exact (add_right_cancel moved).symm

/-- A thread takes an object. -/
theorem held_update_cons {place : Place}
    (there : objects place = object ::ₘ objects (threads thread)) :
    held objects (Function.update threads thread place) = object ::ₘ held objects threads := by
  have moved := held_update objects threads thread place
  rw [there, Multiset.add_cons, ← Multiset.cons_add] at moved
  exact add_right_cancel moved

/-- The one object that there is, is held by this thread: the others hold none. -/
theorem held_eq_of_single {shared : Multiset Object} {only : Object}
    (one : shared + held objects threads = {only}) (isHere : object ∈ objects (threads thread)) :
    object = only ∧ shared = 0 ∧ held objects threads = {object} := by
  have inAll : object ∈ shared + held objects threads :=
    Multiset.mem_add.mpr (.inr (mem_held isHere))
  have isOnly : object = only := Multiset.mem_singleton.mp (one ▸ inAll)
  have counts := congrArg Multiset.card one
  rw [Multiset.card_add, Multiset.card_singleton] at counts
  have some : 0 < Multiset.card (held objects threads) :=
    Multiset.card_pos_iff_exists_mem.mpr ⟨object, mem_held isHere⟩
  have none : shared = 0 := Multiset.card_eq_zero.mp (by omega)
  rw [none, zero_add] at one
  exact ⟨isOnly, none, isOnly ▸ one⟩

/-- What one thread holds alone is replaced by what its new place holds. -/
theorem held_update_of_single {place : Place} (all : held objects threads = {object})
    (here : objects (threads thread) = {object}) :
    held objects (Function.update threads thread place) = objects place := by
  have moved := held_update objects threads thread place
  rw [here, all, add_comm] at moved
  exact add_left_cancel moved

end Objects

end Interleaving
