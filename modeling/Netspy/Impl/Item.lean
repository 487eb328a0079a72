import Netspy.Impl.Request
import Netspy.Impl.Setting

/-!
# `network/item.py`, `_normalize` of `buffer/item_buffer.py`

An item is an instance of a class the user wrote: `ItemClass` is what the
class declares (its hook `pre_to_db` included), `ItemAttrs` what the instance
holds. `normalize` turns what a callback yielded into a row for the buffer.
-/

namespace Netspy

/-- The attributes of an instance: the two private ones, and the rest of its
`__dict__` in order. -/
structure ItemAttrs where
  tableName : Option String := none
  pipelines : Option (List String) := none
  attrs : Dict := []
  deriving Repr, DecidableEq

structure ItemClass where
  name : String
  tableName : Option String := none
  uniqueKey : Option (List String) := none
  pipelines : Option (List String) := none
  /-- Whether it is a subclass of `UpdateItem`. -/
  isUpdate : Bool := false
  updateKey : Option (List String) := none
  preToDb : ItemAttrs → Except Exn ItemAttrs := .ok

structure Item where
  cls : ItemClass
  inst : ItemAttrs

def sortedStrings (keys : List String) : List String := keys.insertionSort (· ≤ ·)

/-- `re.sub(r"(?<!^)(?=[A-Z])", "_", name).lower()`. -/
def toSnake (lib : Stdlib) (name : String) : String :=
  lib.lower (String.ofList (go true name.toList))
where
  go (atStart : Bool) : List Char → List Char
    | [] => []
    | c :: cs =>
      if !atStart && 'A' ≤ c && c ≤ 'Z' then '_' :: c :: go false cs else c :: go false cs

namespace Item

/-- `xs or ys`, where `None` and the empty list are false. -/
def orElse : Option (List String) → Option (List String) → Option (List String)
  | some (k :: ks), _ => some (k :: ks)
  | _, other => other

def tableName (lib : Stdlib) (it : Item) : String :=
  let ofClass : String :=
    match it.cls.tableName with
    | none => ""
    | some t => t
  let explicit : String :=
    match it.inst.tableName with
    | none => ofClass
    | some t => if t = "" then ofClass else t
  if explicit ≠ "" then explicit
  else
    let snake := (toSnake lib it.cls.name).toList
    String.ofList (if "_item".toList <:+ snake then snake.take (snake.length - 5) else snake)

def pipelines (it : Item) : Option (List String) :=
  match it.inst.pipelines with
  | some ps => some ps
  | none => it.cls.pipelines

/-- The fields: no private attributes, no callables. -/
def toDict (it : Item) : Dict :=
  it.inst.attrs.filter fun kv => kv.1.toList.head? ≠ some '_' && !kv.2.isCallable

def updateKey (it : Item) : List String := (orElse it.cls.updateKey it.cls.uniqueKey).getD []

/-- `_fingerprint_keys`: an `UpdateItem` always uses all fields. -/
def fingerprintKeys (it : Item) : Option (List String) :=
  if it.cls.isUpdate then none else it.cls.uniqueKey

/-- The parts of the fingerprint after the table name. -/
def fingerprintParts (lib : Stdlib) (keys : Option (List String)) (data : Dict) : List String :=
  let keys :=
    match keys with
    | some (k :: ks) => k :: ks
    | _ => data.map Prod.fst
  let parts := ((sortedStrings keys).filter fun k => !(data.get k).blank).map fun k =>
    k ++ "=" ++ lib.repr (data.get k)
  if parts.isEmpty then
    (data.insertionSort fun a b => a.1 ≤ b.1).map fun kv => kv.1 ++ "=" ++ lib.repr kv.2
  else parts

def fingerprint (lib : Stdlib) (it : Item) : Except Exn String :=
  getFingerprint lib
    (.str (it.tableName lib) :: (fingerprintParts lib it.fingerprintKeys it.toDict).map .str)

theorem fingerprint_eq (lib : Stdlib) (it : Item) :
    it.fingerprint lib = .ok (lib.md5 ("|".intercalate
      (it.tableName lib :: fingerprintParts lib it.fingerprintKeys it.toDict))) := by
  rw [← getFingerprint_str]
  rfl

end Item

/-- What a callback may yield for the item buffer. -/
inductive Obj where
  | item (it : Item)
  | dict (d : Dict)
  | other (type : String)

/-- `_Norm`. -/
structure Norm where
  table : String
  isUpdate : Bool
  data : Dict
  fingerprint : Option String
  updateKeys : List String
  pipelines : Option (List String)
  deriving Repr, DecidableEq

def normalize (lib : Stdlib) (st : Setting) : Obj → Except Exn Norm
  | .item it => do
    let inst ← it.cls.preToDb it.inst
    let it : Item := ⟨it.cls, inst⟩
    let keys := if it.cls.isUpdate then it.updateKey else []
    let fp ← if st.ITEM_FILTER_ENABLE then (it.fingerprint lib).map some else .ok none
    let pipes :=
      match it.pipelines with
      | some (p :: ps) => some (p :: ps)
      | _ => none
    return ⟨it.tableName lib, it.cls.isUpdate, it.toDict, fp, keys, pipes⟩
  | .dict d => .ok ⟨st.ITEM_DEFAULT_TABLE, false, d, none, [], none⟩
  | .other _ => .error "ItemError"

end Netspy
