import Mathlib.Tactic.Common

/-!
# Python values

The values that a crawl carries about without looking into them: item
fields, keyword arguments of a request, entries of a task. Floats and
objects of other classes are kept as the text they print as. Equality is
decidable, so that runs on concrete values can be evaluated.
-/

namespace Netspy

inductive PyVal where
  | none
  | bool (b : Bool)
  | int (i : Int)
  | float (text : String)
  | str (s : String)
  | list (xs : List PyVal)
  | dict (kvs : List (PyVal × PyVal))
  | callable (name : String)
  | obj (text : String)
  deriving Repr, Inhabited

namespace PyVal

mutual

/-- Whether two values are the same. -/
def same : PyVal → PyVal → Bool
  | .none, .none => true
  | .bool a, .bool b => a == b
  | .int a, .int b => a == b
  | .float a, .float b => a == b
  | .str a, .str b => a == b
  | .list as, .list bs => sameList as bs
  | .dict as, .dict bs => samePairs as bs
  | .callable a, .callable b => a == b
  | .obj a, .obj b => a == b
  | _, _ => false

def sameList : List PyVal → List PyVal → Bool
  | [], [] => true
  | a :: as, b :: bs => same a b && sameList as bs
  | _, _ => false

def samePairs : List (PyVal × PyVal) → List (PyVal × PyVal) → Bool
  | [], [] => true
  | (a, a') :: as, (b, b') :: bs => same a b && same a' b' && samePairs as bs
  | _, _ => false

end

mutual

theorem same_iff : ∀ a b : PyVal, same a b = true ↔ a = b
  | .none, b => by cases b <;> simp [same]
  | .bool a, b => by cases b <;> simp [same]
  | .int a, b => by cases b <;> simp [same]
  | .float a, b => by cases b <;> simp [same]
  | .str a, b => by cases b <;> simp [same]
  | .list as, b => by
    cases b with
    | list bs => simpa [same] using sameList_iff as bs
    | _ => simp [same]
  | .dict as, b => by
    cases b with
    | dict bs => simpa [same] using samePairs_iff as bs
    | _ => simp [same]
  | .callable a, b => by cases b <;> simp [same]
  | .obj a, b => by cases b <;> simp [same]

theorem sameList_iff : ∀ as bs : List PyVal, sameList as bs = true ↔ as = bs
  | [], bs => by cases bs <;> simp [sameList]
  | a :: as, bs => by
    cases bs with
    | nil => simp [sameList]
    | cons b bs => simp [sameList, same_iff a b, sameList_iff as bs]

theorem samePairs_iff : ∀ as bs : List (PyVal × PyVal), samePairs as bs = true ↔ as = bs
  | [], bs => by cases bs <;> simp [samePairs]
  | (a, a') :: as, bs => by
    cases bs with
    | nil => simp [samePairs]
    | cons b bs =>
      obtain ⟨b, b'⟩ := b
      simp [samePairs, same_iff a b, same_iff a' b', samePairs_iff as bs]

end

instance : DecidableEq PyVal := fun a b => decidable_of_iff _ (same_iff a b)

/-- `bool(value)`: what `or` and `if` look at. -/
def truthy : PyVal → Bool
  | .none => false
  | .bool b => b
  | .int i => i != 0
  | .float text => text != "0.0" && text != "-0.0"
  | .str s => s != ""
  | .list xs => !xs.isEmpty
  | .dict kvs => !kvs.isEmpty
  | .callable _ => true
  | .obj _ => true

def isCallable : PyVal → Bool
  | .callable _ => true
  | _ => false

/-- `value in (None, "")`. -/
def blank (v : PyVal) : Bool := v == .none || v == .str ""

end PyVal

/-- A Python dict with string keys, in insertion order. -/
abbrev Dict := List (String × PyVal)

/-- `d.get(key)`. -/
def Dict.get (d : Dict) (key : String) : PyVal := (d.lookup key).getD .none

/-- `d.setdefault(key, value)`. -/
def Dict.setdefault (d : Dict) (key : String) (value : PyVal) : Dict :=
  if (d.lookup key).isSome then d else d ++ [(key, value)]

end Netspy
