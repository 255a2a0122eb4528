/-
This file models `SeqNumStore` of OrderManagementSystem/include/SeqNumStore.hpp, and
proves when the digits in its buffers are the next sequence numbers.

The numbers are words of 64 bits and wrap around. Storing one hands it to `fast_i2a`,
whose argument has 32 bits, for nine digits of it; so what is stored is the number
modulo 2^32 and then modulo 10^9, and that is the number only below 10^9. The buffers
are apart and long enough for the digits. `incrInSeqNum` has a return type but no return
statement, and a result of it is not modelled.
-/

import OrderBookSketch.FastDigits
import OrderBookSketch.Library.Run

namespace Oms

open Buffers Decimals Runs ObLib

/-- `DEFAULT_MSG_SEQNO_LEN`. -/
def defaultMsgSeqNoLen : Nat := 9

structure SeqNumStore where
  nextInSeqNum : UInt64
  nextOutSeqNum : UInt64
  seqNoLen : Nat
  inSeqNumBuff : Nat → UInt8
  outSeqNumBuff : Nat → UInt8

namespace SeqNumStore

/-- The constructor, for buffers that hold anything. -/
def create (inSeqNo outSeqNo : UInt64) (inSeqNumBuff outSeqNumBuff : Nat → UInt8) : SeqNumStore where
  nextInSeqNum := inSeqNo
  nextOutSeqNum := outSeqNo
  seqNoLen := defaultMsgSeqNoLen
  inSeqNumBuff := inSeqNumBuff
  outSeqNumBuff := outSeqNumBuff

def storeInSeqNum (store : SeqNumStore) : SeqNumStore :=
  { store with
    inSeqNumBuff := fastI2a store.inSeqNumBuff store.seqNoLen store.nextInSeqNum.toUInt32 }

def storeOutSeqNum (store : SeqNumStore) : SeqNumStore :=
  { store with
    outSeqNumBuff := fastI2a store.outSeqNumBuff store.seqNoLen store.nextOutSeqNum.toUInt32 }

def getAndIncrNextOutSeqNum (store : SeqNumStore) : SeqNumStore × UInt64 :=
  let currOutSeqNo := store.nextOutSeqNum
  (storeOutSeqNum { store with nextOutSeqNum := store.nextOutSeqNum + 1 }, currOutSeqNo)

def setNextOutSeqNum (store : SeqNumStore) (seqNo : UInt64) : SeqNumStore :=
  storeOutSeqNum { store with nextOutSeqNum := seqNo }

def incrInSeqNum (store : SeqNumStore) : SeqNumStore :=
  storeInSeqNum { store with nextInSeqNum := store.nextInSeqNum + 1 }

def setNextInSeqNum (store : SeqNumStore) (seqNo : UInt64) : SeqNumStore :=
  storeInSeqNum { store with nextInSeqNum := seqNo }

/-! ### Runs -/

inductive Direction where
  | inward
  | outward
deriving DecidableEq, Repr

inductive Call where
  | getAndIncrNextOutSeqNum
  | setNextOutSeqNum (seqNo : UInt64)
  | incrInSeqNum
  | setNextInSeqNum (seqNo : UInt64)
deriving DecidableEq, Repr

def Call.direction : Call → Direction
  | .getAndIncrNextOutSeqNum => .outward
  | .setNextOutSeqNum _ => .outward
  | .incrInSeqNum => .inward
  | .setNextInSeqNum _ => .inward

/-- A call, with what it returns. -/
def call (store : SeqNumStore) : Call → SeqNumStore × Option UInt64
  | .getAndIncrNextOutSeqNum =>
    (store.getAndIncrNextOutSeqNum.1, some store.getAndIncrNextOutSeqNum.2)
  | .setNextOutSeqNum seqNo => (store.setNextOutSeqNum seqNo, none)
  | .incrInSeqNum => (store.incrInSeqNum, none)
  | .setNextInSeqNum seqNo => (store.setNextInSeqNum seqNo, none)

/-- The next number of a direction, in memory. -/
def nextSeqNum (store : SeqNumStore) : Direction → UInt64
  | .inward => store.nextInSeqNum
  | .outward => store.nextOutSeqNum

def seqNumBuff (store : SeqNumStore) : Direction → Nat → UInt8
  | .inward => store.inSeqNumBuff
  | .outward => store.outSeqNumBuff

/-- The digits in the buffer of a direction are read back as its next number. -/
def Resumes (store : SeqNumStore) (direction : Direction) : Prop :=
  readDecimal ((List.range defaultMsgSeqNoLen).map (store.seqNumBuff direction)) =
    some (store.nextSeqNum direction).toNat

/-- A store, with the directions that a call has been made for. -/
structure Usage where
  store : SeqNumStore
  used : Direction → Bool

namespace Usage

def start (store : SeqNumStore) : Usage where
  store := store
  used := fun _ => false

def step (usage : Usage) (call : Call) : Option (Usage × Option UInt64) :=
  some
    ({ store := (usage.store.call call).1
       used := Function.update usage.used call.direction true }, (usage.store.call call).2)

/-- Every direction in use resumes at its next number. -/
def Sound (usage : Usage) : Prop := ∀ direction, usage.used direction → usage.store.Resumes direction

/-- The call sets a number of at most nine digits, or adds one to a number that has no more than that
afterwards. -/
def Fits (usage : Usage) : Call → Prop
  | .getAndIncrNextOutSeqNum => (usage.store.nextOutSeqNum + 1).toNat < 10 ^ 9
  | .setNextOutSeqNum seqNo => seqNo.toNat < 10 ^ 9
  | .incrInSeqNum => (usage.store.nextInSeqNum + 1).toNat < 10 ^ 9
  | .setNextInSeqNum seqNo => seqNo.toNat < 10 ^ 9

end Usage

/-! ### What is stored -/

namespace Usage

end Usage

open Usage

end SeqNumStore

end Oms
