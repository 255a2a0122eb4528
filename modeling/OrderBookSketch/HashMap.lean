/-
This file models Common/include/HashMap.h, the open-addressing hash map that the
order books keep their orders in and the book manager its tokens.

The buckets are one vector of key and value pairs whose length is a power of two,
and a reserved key marks the empty ones. An iterator is the bucket index it holds,
`end()` is the bucket count, and `T()` is the default value of the value type. The
unbounded loops are runs of `Loops.loop` with one turn for each bucket, so a result
`none` says that a loop has not stopped within that many turns.

Sizes of containers in memory are exact. The bucket counts a caller passes are
`size_t` values, and the loop that rounds them up works on a 64-bit register.
-/

import OrderBookSketch.Library.Loop
import Mathlib.Algebra.Group.Nat.Defs

namespace ObLib

open Loops

/-- `HashMap<Key, T, Hash>`; the hash function is a parameter of the operations. -/
structure HashMap (Key T : Type) where
  emptyKey : Key
  buckets : List (Key × T)
  size : Nat
deriving Repr, DecidableEq

namespace HashMap

variable {Key T : Type} [DecidableEq Key] [Inhabited T]

/-! ### Construction -/

/-- `while (pow2 < bucket_count) pow2 <<= 1`, on a register of 64 bits. -/
def pow2Loop (bucketCount : Nat) : Nat → Nat → Option Nat :=
  loop fun pow2 => if pow2 < bucketCount then .inl (pow2 * 2 % 2 ^ 64) else .inr pow2

/-- `buckets_.resize(pow2, std::make_pair(empty_key_, T()))` on a new map. -/
def empty (pow2 : Nat) (emptyKey : Key) : HashMap Key T :=
  { emptyKey := emptyKey, buckets := List.replicate pow2 (emptyKey, default), size := 0 }

/-- `HashMap(bucket_count, empty_key)`. The 64th shift of the register leaves 0, which no
further shift changes, so 65 turns decide whether the rounding loop ever stops. -/
def create (bucketCount : Nat) (emptyKey : Key) : Option (HashMap Key T) := do
  let pow2 ← pow2Loop bucketCount 65 1
  return empty pow2 emptyKey

/-! ### Buckets and iterators -/

def bucketCount (map : HashMap Key T) : Nat := map.buckets.length

/-- `buckets_[idx]`. -/
def bucket (map : HashMap Key T) (idx : Nat) : Key × T :=
  map.buckets.getD idx (map.emptyKey, default)

/-- `buckets_[idx] = entry`. -/
def setBucket (map : HashMap Key T) (idx : Nat) (entry : Key × T) : HashMap Key T :=
  { map with buckets := map.buckets.set idx entry }

/-- `end()`. -/
def «end» (map : HashMap Key T) : Nat := map.bucketCount

/-- `advance_past_empty`, for at most the given number of turns. -/
def advancePastEmpty (map : HashMap Key T) : Nat → Nat → Nat
  | 0, idx => idx
  | fuel + 1, idx =>
    if idx < map.bucketCount ∧ (map.bucket idx).1 = map.emptyKey then
      advancePastEmpty map fuel (idx + 1)
    else idx

/-- `begin()`. -/
def begin (map : HashMap Key T) : Nat := map.advancePastEmpty map.bucketCount 0

/-- `operator++`. -/
def increment (map : HashMap Key T) (it : Nat) : Nat :=
  map.advancePastEmpty map.bucketCount (it + 1)

/-- The entries that `for (it = first; it != end(); ++it)` visits, in order. -/
def visitFrom (map : HashMap Key T) : Nat → Nat → List (Key × T)
  | 0, _ => []
  | fuel + 1, it =>
    if it = map.end then [] else map.bucket it :: visitFrom map fuel (map.increment it)

/-- The entries that iteration from `begin()` to `end()` visits, in order. -/
def visited (map : HashMap Key T) : List (Key × T) :=
  map.visitFrom (map.bucketCount + 1) map.begin

/-- `empty()`. -/
def isEmpty (map : HashMap Key T) : Bool := map.size = 0

/-- The loop of `clear` from an iterator on. -/
def clearFrom : Nat → HashMap Key T → Nat → HashMap Key T
  | 0, map, _ => map
  | fuel + 1, map, it =>
    if it = map.end then map
    else
      let map := map.setBucket it (map.emptyKey, (map.bucket it).2)
      clearFrom fuel map (map.increment it)

/-- `clear()`, which leaves `size_` as it is. -/
def clear (map : HashMap Key T) : HashMap Key T := clearFrom (map.bucketCount + 1) map map.begin

section Hasher

variable (hasher : Key → Nat)

/-! ### Hash policy -/

def keyToIdx (map : HashMap Key T) (key : Key) : Nat :=
  hasher key &&& (map.bucketCount - 1)

def probeNext (map : HashMap Key T) (idx : Nat) : Nat :=
  (idx + 1) &&& (map.bucketCount - 1)

/-- The source computes `buckets_.size() + (a - b)` in `size_t`, where the difference may wrap;
no difference of two bucket indices exceeds the bucket count, so the sum is this one. -/
def diff (map : HashMap Key T) (a b : Nat) : Nat :=
  (map.bucketCount + a - b) &&& (map.bucketCount - 1)

/-! ### Lookup -/

/-- One turn of the probe loop of `find`. -/
def findTurn (map : HashMap Key T) (key : Key) (idx : Nat) : Nat ⊕ Nat :=
  if (map.bucket idx).1 = key then .inr idx
  else if (map.bucket idx).1 = map.emptyKey then .inr map.end
  else .inl (map.probeNext idx)

def find (map : HashMap Key T) (key : Key) : Option Nat :=
  loop (map.findTurn key) map.bucketCount (map.keyToIdx hasher key)

/-! ### Modifiers -/

/-- One turn of the probe loop of `emplace`. -/
def emplaceTurn (map : HashMap Key T) (key : Key) (value : T) (idx : Nat) :
    Nat ⊕ (HashMap Key T × Nat × Bool) :=
  if (map.bucket idx).1 = map.emptyKey then
    .inr ({ map.setBucket idx (key, value) with size := map.size + 1 }, idx, true)
  else if (map.bucket idx).1 = key then .inr (map, idx, false)
  else .inl (map.probeNext idx)

/-- The probe loop of `emplace`. -/
def emplaceLoop (map : HashMap Key T) (key : Key) (value : T) :
    Option (HashMap Key T × Nat × Bool) :=
  loop (map.emplaceTurn key value) map.bucketCount (map.keyToIdx hasher key)

/-- `reserve` on a map that grows as `grow` says, with the doubled count already taken. -/
def reserveWith (grow : HashMap Key T → Option (HashMap Key T)) (map : HashMap Key T)
    (doubled : Nat) : Option (HashMap Key T) :=
  if doubled > map.bucketCount then grow map else some map

/-- `emplace` on a map that grows as `grow` says. -/
def emplaceWith (grow : HashMap Key T → Option (HashMap Key T)) (map : HashMap Key T)
    (key : Key) (value : T) : Option (HashMap Key T × Nat × Bool) := do
  let map ← map.reserveWith grow ((map.size + 1) * 2)
  map.emplaceLoop hasher key value

/-- The loop of the copying constructor: `insert(*it)` for every entry of the other map. -/
def insertAll (grow : HashMap Key T → Option (HashMap Key T)) :
    List (Key × T) → HashMap Key T → Option (HashMap Key T)
  | [], map => some map
  | entry :: entries, map => do
    let (map, _, _) ← map.emplaceWith hasher grow entry.1 entry.2
    insertAll grow entries map

/-- `HashMap other(*this, buckets_.size() * 2); swap(other);`. The bucket count is a power of
two, which the rounding loop of the constructor leaves as it is. Inserting into the new map
reserves room in it, which may grow that one in turn; `depth` bounds how far growths nest. -/
def grow : Nat → HashMap Key T → Option (HashMap Key T)
  | 0, _ => none
  | depth + 1, map =>
    insertAll hasher (grow depth) map.visited (empty (map.bucketCount * 2) map.emptyKey)

/-- How deep growths may nest; one level is all a map of the invariant needs. -/
def growthDepth : Nat := 64

/-- `reserve(count)`: the caller's count is a `size_t`, and its double wraps. -/
def reserve (map : HashMap Key T) (count : Nat) : Option (HashMap Key T) :=
  map.reserveWith (grow hasher growthDepth) (count * 2 % 2 ^ 64)

/-- `emplace`: the iterator to the entry of the key, and whether it was inserted. -/
def emplace (map : HashMap Key T) (key : Key) (value : T) :
    Option (HashMap Key T × Nat × Bool) :=
  map.emplaceWith hasher (grow hasher growthDepth) key value

def insert (map : HashMap Key T) (entry : Key × T) :
    Option (HashMap Key T × Nat × Bool) :=
  map.emplace hasher entry.1 entry.2

/-- `rehash(count)`, through the constructor that copies into `count` buckets. -/
def rehash (map : HashMap Key T) (count : Nat) : Option (HashMap Key T) := do
  let pow2 ← pow2Loop (max count (map.size * 2)) 65 1
  insertAll hasher (grow hasher growthDepth) map.visited (empty pow2 map.emptyKey)

/-- One turn of the loop of `erase`: the map, the hole and the bucket looked at. -/
def eraseTurn : HashMap Key T × Nat × Nat → (HashMap Key T × Nat × Nat) ⊕ HashMap Key T
  | (map, bucket, idx) =>
    if (map.bucket idx).1 = map.emptyKey then
      .inr { map.setBucket bucket (map.emptyKey, (map.bucket bucket).2) with size := map.size - 1 }
    else
      let ideal := map.keyToIdx hasher (map.bucket idx).1
      if map.diff bucket ideal < map.diff idx ideal then
        .inl (map.setBucket bucket (map.bucket idx), idx, map.probeNext idx)
      else .inl (map, bucket, map.probeNext idx)

def erase (map : HashMap Key T) (it : Nat) : Option (HashMap Key T) :=
  loop (eraseTurn hasher) map.bucketCount (map, it, map.probeNext it)

end Hasher

end HashMap

end ObLib
