import Mathlib.Logic.Function.Basic
import Netspy.Impl.Request

/-!
# `update_items` of `pipelines/elasticsearch.py`, `mongo.py` and `_sql.py`

Which records the updates of a batch address. An index of Elasticsearch maps ids to
documents, a collection of MongoDB and a table of a database are lists; what their
servers compare and merge with is a parameter. A record is a `Dict` of which the first
entry of a key counts. The texts of the statements and of the log are left out.
-/

namespace Netspy

/-- An item addressed a record: what the record held, or was created with. -/
structure Touch (κ : Type) where
  id : κ
  item : Dict
  record : Dict
  deriving Repr

/-- What an update leaves, the records it addressed, and whether it counts as done. -/
structure Updated (σ κ : Type) where
  store : σ
  touches : List (Touch κ)
  ok : Bool := true

/-- One item after the other. -/
def updateAll {σ κ : Type} (update : σ → Dict → Updated σ κ) (s : σ) : List Dict → Updated σ κ
  | [] => { store := s, touches := [] }
  | item :: items =>
    let first := update s item
    let rest := updateAll update first.store items
    { store := rest.store, touches := first.touches ++ rest.touches, ok := first.ok && rest.ok }

/-- `{**old, **new}`. -/
def Dict.merged (old new : Dict) : Dict := new ++ old

namespace ElasticsearchPipeline

variable (str : PyVal → String) (merge : Dict → Dict → Dict) (updateKeys : List String)

/-- `"_".join(str(item.get(k, "")) for k in update_keys)`. -/
def docId (item : Dict) : String :=
  "_".intercalate (updateKeys.map fun k => str ((item.lookup k).getD (.str "")))

/-- An `update` action with `doc_as_upsert`; `merge` is how the server merges a partial
document. -/
def update (index : String → Option Dict) (item : Dict) : Updated (String → Option Dict) String :=
  let id := docId str updateKeys item
  match index id with
  | some doc =>
    { store := Function.update index id (some (merge doc item)), touches := [⟨id, item, doc⟩] }
  | none => { store := Function.update index id (some item), touches := [⟨id, item, item⟩] }

def updateItems := updateAll (update str merge updateKeys)

end ElasticsearchPipeline

namespace MongoPipeline

variable (matchesValue : Option PyVal → PyVal → Bool) (updateKeys : List String)

/-- `{k: item[k] for k in update_keys if k in item} or dict(item)`. -/
def flt (item : Dict) : Dict :=
  match updateKeys.filterMap fun k => (item.lookup k).map (k, ·) with
  | [] => item
  | kvs => kvs

def matchesDoc (flt doc : Dict) : Bool :=
  (flt.map Prod.fst).all fun k => matchesValue (doc.lookup k) (flt.get k)

/-- `update_one(flt, {"$set": item}, upsert=True)`; `matchesValue` is how the server
compares the field of a document with the value in a filter. -/
def update (docs : List Dict) (item : Dict) : Updated (List Dict) Nat :=
  let flt := flt updateKeys item
  match docs.findIdx? (matchesDoc matchesValue flt) with
  | some i =>
    { store := docs.modify i (Dict.merged · item), touches := [⟨i, item, docs.getD i []⟩] }
  | none =>
    { store := docs ++ [flt.merged item], touches := [⟨docs.length, item, flt.merged item⟩] }

def updateItems := updateAll (update matchesValue updateKeys)

end MongoPipeline

namespace SqlPipeline

variable (eq : PyVal → PyVal → Bool) (updateKeys : List String)

def setCols (item : Dict) : List String := (item.map Prod.fst).filter (· ∉ updateKeys)

/-- Whether `WHERE` holds of a row; `eq` is the `=` of the database. `NULL` is equal to
nothing. -/
def matchesRow (item row : Dict) : Bool :=
  updateKeys.all fun k => row.get k != .none && item.get k != .none && eq (row.get k) (item.get k)

/-- `UPDATE ... SET ... WHERE ...`, unless there is nothing to set. -/
def update (rows : List Dict) (item : Dict) : Updated (List Dict) Nat :=
  if setCols updateKeys item = [] then { store := rows, touches := [] }
  else
    let set : Dict := (setCols updateKeys item).map fun c => (c, item.get c)
    let hit := rows.zipIdx.filter fun r => matchesRow eq updateKeys item r.1
    { store := rows.map fun row => if matchesRow eq updateKeys item row then row.merged set else row
      touches := hit.map fun r => ⟨r.2, item, r.1⟩
      ok := !hit.isEmpty }

def updateItems := updateAll (update eq updateKeys)

end SqlPipeline

end Netspy
