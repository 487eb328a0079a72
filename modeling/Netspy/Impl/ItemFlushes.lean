import Mathlib.Logic.Function.Basic
import Netspy.Framework.Machine
import Netspy.Impl.ItemBuffer

/-!
# Item filter and concurrent flushes

The item buffer of threads that put and flush at the same time, with an exact
filter that never fails and pipelines that always succeed. A flush swaps the
batch, looks the fingerprints up one by one, writes its groups, and records the
fingerprints of a group after it is written; each of these is a step.

The owners of items and what `flush` does for them are left out; so is the cache
of pipelines. An object that cannot be normalised ends the flush.
-/

namespace Netspy

/-- How far a thread has come with a flush: the objects to be looked up, the groups
to be written, and the rows to be recorded before them. -/
inductive DedupFlush where
  | idle
  | sifting (todo : List Obj) (acc : ItemBuffer.Sifted)
  | writing (todo : List (GroupKey × List Norm))
  | recording (rows : List Norm) (todo : List (GroupKey × List Norm))

structure ItemFlushes where
  pending : List Obj := []
  /-- The fingerprints in the filter. -/
  filter : List String := []
  flushes : Nat → DedupFlush := fun _ => .idle
  /-- All objects that were put, and the rows that the pipelines were given. -/
  puts : List Obj := []
  written : List Norm := []

inductive DedupAct where
  | put (obj : Obj)
  | swap (i : Nat)
  | lookup (i : Nat)
  /-- From the last lookup to the groups, or from the last group to the end. -/
  | next (i : Nat)
  | write (i : Nat)
  | record (i : Nat)

namespace ItemFlushes

def setFlush (s : ItemFlushes) (i : Nat) (f : DedupFlush) : ItemFlushes :=
  { s with flushes := Function.update s.flushes i f }

/-- The calls of a flush: all succeed, and a lookup tells what is in the filter. -/
def exactFilter (s : ItemFlushes) : Turnout where
  lookup _ fp := .ok (decide (fp ∈ s.filter))

def step (lib : Stdlib) (st : Setting) (s : ItemFlushes) : DedupAct → Option ItemFlushes
  | .put obj => some { s with pending := s.pending ++ [obj], puts := s.puts ++ [obj] }
  | .swap i =>
    match s.flushes i with
    | .idle =>
      some ({ s with pending := [] }.setFlush i (if s.pending.isEmpty then .idle else .sifting s.pending {}))
    | _ => none
  | .lookup i =>
    match s.flushes i with
    | .sifting (obj :: todo) acc =>
      match normalize lib st obj with
      | .error _ => some (s.setFlush i .idle)
      | .ok norm => some (s.setFlush i (.sifting todo (ItemBuffer.siftOne st s.exactFilter 0 norm acc)))
    | _ => none
  | .next i =>
    match s.flushes i with
    | .sifting [] acc => some (s.setFlush i (.writing acc.groups.entries))
    | .writing [] => some (s.setFlush i .idle)
    | _ => none
  | .write i =>
    match s.flushes i with
    | .writing ((_, rows) :: todo) =>
      some ({ s with written := s.written ++ rows }.setFlush i (.recording rows todo))
    | _ => none
  | .record i =>
    match s.flushes i with
    | .recording rows todo =>
      some ({ s with filter := s.filter ++ rows.filterMap Norm.fingerprint }.setFlush i (.writing todo))
    | _ => none

end ItemFlushes

/-- The threads of an item buffer that starts empty, with an empty filter. -/
def itemFlushMachine (lib : Stdlib) (st : Setting) : Machine ItemFlushes DedupAct where
  start s := s = {}
  step := ItemFlushes.step lib st

end Netspy
