import Netspy.Framework.Json.Sorted
import Netspy.Impl.Dedup

/-!
# `dedup/__init__.py`: `Dedup`

The filters behind one facade, which takes strings and other values that JSON can hold. A
value that is no string counts as its JSON text with the keys sorted. `md5` is
`tools.md5`.
-/

namespace Netspy

structure Dedup (φ : Type) where
  toMd5 : Bool
  filter : φ

namespace Dedup

/-- `value if isinstance(value, str) else tools.dumps_json(value, sort_keys=True)` -/
def text : Json → String
  | .str s => s
  | value => value.sortKeys.dumps

variable {φ : Type} [Filter φ] (md5 : String → String)

/-- `_key`. -/
def key (d : Dedup φ) (value : Json) : String :=
  let text := text value
  if d.toMd5 then md5 text else text

def add (d : Dedup φ) (value : Json) : Bool × Dedup φ :=
  let (new, filter) := Filter.add d.filter (d.key md5 value)
  (new, { d with filter })

/-- `get`, and `in`. -/
def get (d : Dedup φ) (value : Json) : Bool := Filter.contains d.filter (d.key md5 value)

/-- After some values have been added. -/
def addAll (d : Dedup φ) (values : List Json) : Dedup φ := values.foldl (fun d value => (d.add md5 value).2) d

end Dedup

end Netspy
