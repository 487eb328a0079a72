import Mathlib.Logic.Function.Basic
import Netspy.Framework.Machine
import Netspy.Impl.Downloader

/-!
# Which shard a thread uses

`_effective_concurrency` and `_shard_counter` of `network/downloader/_common.py`, which
all downloaders of a process share. A thread draws its number at the first call of
`shard_index` for more than one shard, and keeps it in `_shard_ids`. No lock is held while
`set_effective_concurrency` looks at the value, reads it and writes the larger one.

`threads` are the threads that have a number, in its order, and `told` what the
schedulers have told. No step depends on them. `SPIDER_THREAD_COUNT` does not change.
-/

namespace Netspy

/-- Where a call of `set_effective_concurrency` is: the value was not `None` when it
looked, or it is about to write. -/
inductive ConcurrencyCall where
  | known (n : Int)
  | writing (n : Int)
  deriving Repr, DecidableEq

structure Shards where
  SPIDER_THREAD_COUNT : Int
  /-- `_effective_concurrency`. -/
  concurrency : Option Int := none
  /-- What each thread is at that sets it. -/
  setting : Nat → Option ConcurrencyCall := fun _ => none
  /-- The next number of `_shard_counter`. -/
  counter : Nat := 0
  /-- `_shard_ids.idx` of each thread. -/
  idx : Nat → Option Nat := fun _ => none
  threads : List Nat := []
  told : List Int := []

inductive ShardAct where
  /-- `set_effective_concurrency(None)`. -/
  | reset
  | setEffectiveConcurrency (i : Nat) (n : Int)
  | readConcurrency (i : Nat)
  | writeConcurrency (i : Nat)
  | shardIndex (i : Nat) (shards : Nat)
  deriving DecidableEq

namespace Shards

/-- `effective_concurrency`. -/
def effectiveConcurrency (s : Shards) : Nat := (max (s.concurrency.getD s.SPIDER_THREAD_COUNT) 1).toNat

def setCall (s : Shards) (i : Nat) (call : Option ConcurrencyCall) : Shards :=
  { s with setting := Function.update s.setting i call }

/-- It looks whether the value is `None`. -/
def setEffectiveConcurrency (s : Shards) (i : Nat) (n : Int) : Option Shards :=
  match s.setting i with
  | some _ => none
  | none =>
    let n := max n 1
    let call := if s.concurrency.isNone then .writing n else .known n
    some { s.setCall i (some call) with told := s.told ++ [n] }

/-- It reads the value; the comparison with `None` raises. -/
def readConcurrency (s : Shards) (i : Nat) : Option Shards :=
  match s.setting i, s.concurrency with
  | some (.known n), some m => some (s.setCall i (some (.writing (max m n))))
  | some (.known _), none => some (s.setCall i none)
  | _, _ => none

def writeConcurrency (s : Shards) (i : Nat) : Option Shards :=
  match s.setting i with
  | some (.writing n) => some { s.setCall i none with concurrency := some n }
  | _ => none

/-- What a call of `shard_index` does to the numbers. -/
def draw (s : Shards) (i : Nat) (shards : Nat) : Shards :=
  if shards ≤ 1 then s
  else
    match s.idx i with
    | some _ => s
    | none =>
      { s with
        idx := Function.update s.idx i (some s.counter)
        counter := s.counter + 1
        threads := s.threads ++ [i] }

/-- What `shard_index` returns to a thread that has drawn its number. -/
def shardOf (s : Shards) (i shards : Nat) : Nat := Netspy.shardIndex ((s.idx i).getD 0) shards

/-- The threads that use the shard `c`. -/
def onShard (s : Shards) (shards c : Nat) : List Nat := s.threads.filter fun i => s.shardOf i shards = c

def step (s : Shards) : ShardAct → Option Shards
  | .reset => some { s with concurrency := none }
  | .setEffectiveConcurrency i n => s.setEffectiveConcurrency i n
  | .readConcurrency i => s.readConcurrency i
  | .writeConcurrency i => s.writeConcurrency i
  | .shardIndex i shards => some (s.draw i shards)

def machine : Machine Shards ShardAct where
  start s := s = { SPIDER_THREAD_COUNT := s.SPIDER_THREAD_COUNT }
  step := step

end Shards

end Netspy
