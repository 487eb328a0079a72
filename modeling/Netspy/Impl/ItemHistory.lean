import Netspy.Framework.Fields
import Netspy.Framework.Machine
import Netspy.Impl.ItemBuffer

/-!
# The history of an item buffer

The batches that one thread takes through `_persist`, one after the other, with an
exact filter: a lookup tells what is in the filter, unless it raises. What the other
calls of a batch return or raise comes with the batch. A call to the filter that
raises has had no effect.

`past` only records what happens. An `ItemWrite` is what the writing of an item is
known by: where it goes, as what, and the fields that its fingerprint is made of; and
which of these the fingerprint shows.
-/

namespace Netspy

/-- A call of `_persist` that is over. -/
structure HistoryCall where
  batch : List Obj
  report : Report

structure ItemHistory where
  /-- The fingerprints in the filter. -/
  known : List String := []
  /-- `_pipeline_cache`. -/
  cache : List (List String) := []
  past : List HistoryCall := []

namespace ItemHistory

/-- The calls of a batch: a lookup that does not raise tells what is in the filter. -/
def answers (s : ItemHistory) (out : Turnout) : Turnout :=
  { out with lookup := fun i fp => (out.lookup i fp).map fun _ => decide (fp ∈ s.known) }

def persist (lib : Stdlib) (st : Setting) (defaults : List String) (s : ItemHistory) (batch : List Obj)
    (out : Turnout) : ItemHistory :=
  let (_, cache, report) := ItemBuffer.persist lib st (s.answers out) defaults s.cache batch
  { known := s.known ++ report.recorded, cache, past := s.past ++ [⟨batch, report⟩] }

/-- The buffer starts with an empty filter. -/
def machine (lib : Stdlib) (st : Setting) (defaults : List String) : Machine ItemHistory (List Obj × Turnout) where
  start s := s = {}
  step s a := some (s.persist lib st defaults a.1 a.2)

end ItemHistory

structure ItemWrite where
  table : String
  isUpdate : Bool
  /-- The pipelines it goes to. -/
  pipelines : List String
  /-- The fingerprint fields, with what the item has under each of them. -/
  fields : List (String × Option PyVal)
  shown : List (String × PyVal)
  deriving Repr, DecidableEq

/-- The same table, kind and pipelines, and equal values on the fingerprint fields. -/
structure ItemWrite.Same (w w' : ItemWrite) : Prop where
  table : w.table = w'.table
  isUpdate : w.isUpdate = w'.isUpdate
  pipelines : w.pipelines = w'.pipelines
  fields : w.fields = w'.fields

namespace Item

/-- The keys of the fingerprint: those the class names, or all. -/
def fingerprintNames (keys : Option (List String)) (data : Dict) : List String :=
  match keys with
  | some (k :: ks) => k :: ks
  | _ => data.map Prod.fst

/-- The fields of these keys; if all of them are blank, all fields. -/
def fingerprintFields (keys : Option (List String)) (data : Dict) : List (String × Option PyVal) :=
  let names := sortedStrings (fingerprintNames keys data)
  if names.all fun k => (data.get k).blank then
    (data.insertionSort fun a b => a.1 ≤ b.1).map fun kv => (kv.1, some kv.2)
  else names.map fun k => (k, data.lookup k)

/-- What the fingerprint shows of them: blank ones are left out, unless all are. -/
def shownFields (keys : Option (List String)) (data : Dict) : List (String × PyVal) :=
  let shown := ((sortedStrings (fingerprintNames keys data)).filter fun k => !(data.get k).blank).map
    fun k => (k, data.get k)
  if shown.isEmpty then data.insertionSort fun a b => a.1 ≤ b.1 else shown

def write (lib : Stdlib) (defaults : List String) (it : Item) : ItemWrite where
  table := it.tableName lib
  isUpdate := it.cls.isUpdate
  pipelines := ItemBuffer.pipelineKey defaults (orElse it.pipelines none)
  fields := fingerprintFields it.fingerprintKeys it.toDict
  shown := shownFields it.fingerprintKeys it.toDict

end Item

/-- The write of an object of a batch, if it is an item that its `pre_to_db` leaves. -/
def writeOf (lib : Stdlib) (defaults : List String) : Obj → Option ItemWrite
  | .item it =>
    match it.cls.preToDb it.inst with
    | .ok inst => some (Item.write lib defaults ⟨it.cls, inst⟩)
    | .error _ => none
  | .dict _ => none
  | .other _ => none

namespace ItemWrite

variable (lib : Stdlib)

/-- A field as the fingerprint shows it. -/
def entry (kv : String × PyVal) : String := kv.1 ++ "=" ++ lib.repr kv.2

/-- What the fingerprint is made of: the table and the fields shown. -/
def entries (w : ItemWrite) : List String := w.table :: w.shown.map (entry lib)

/-- What the filter knows an item by. -/
def mark (w : ItemWrite) : String := lib.md5 ("|".intercalate (w.entries lib))

/-- `Item.fingerprint` is the mark of the write. -/
theorem fingerprint_eq_mark (defaults : List String) (it : Item) :
    it.fingerprint lib = .ok ((it.write lib defaults).mark lib) := by
  have hparts : Item.fingerprintParts lib it.fingerprintKeys it.toDict =
      (it.write lib defaults).shown.map (entry lib) := by
    unfold Item.fingerprintParts
    simp only [Item.write, Item.shownFields, List.isEmpty_map, apply_ite (List.map (entry lib)), List.map_map]
    rfl
  rw [Item.fingerprint_eq, hparts]
  rfl

/-- How two writes that are not the same come to have the same mark. -/
inductive Confused (w w' : ItemWrite) : Prop
  /-- The texts differ and have the same hash. -/
  | hash (h : "|".intercalate (w.entries lib) ≠ "|".intercalate (w'.entries lib)) (hmark : w.mark lib = w'.mark lib)
  /-- The entries differ, and their bars cut them into the same pieces. -/
  | bars (h : w.entries lib ≠ w'.entries lib)
      (hcut : Fields.fields '|' ((w.entries lib).map String.toList) =
        Fields.fields '|' ((w'.entries lib).map String.toList))
  /-- The fields shown differ and print alike. -/
  | prints (htable : w.table = w'.table) (h : w.shown ≠ w'.shown)
      (hprint : w.shown.map (entry lib) = w'.shown.map (entry lib))
  /-- They differ in what is left out for being blank. -/
  | blanks (htable : w.table = w'.table) (hshown : w.shown = w'.shown) (h : w.fields ≠ w'.fields)
  /-- One is a save and the other an update, or they go to different pipelines. -/
  | goes (htable : w.table = w'.table) (hshown : w.shown = w'.shown)
      (h : w.isUpdate ≠ w'.isUpdate ∨ w.pipelines ≠ w'.pipelines)

end ItemWrite

end Netspy
