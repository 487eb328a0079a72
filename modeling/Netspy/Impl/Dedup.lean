import Mathlib.Data.List.Basic

/-!
# `dedup/`

The protocol of a filter (`Filter` in `dedup/__init__.py`), `LiteFilter`, the
exact one, `MemoryBloomFilter`, the default, and the two that are kept in
Redis, whose calls are atomic.
-/

namespace Netspy

class Filter (φ : Type) where
  /-- Adds a key; `true` if it was new. -/
  add : φ → String → Bool × φ
  contains : φ → String → Bool

/-- A key that the filter does not contain is new to it. -/
class LawfulFilter (φ : Type) [Filter φ] : Prop where
  add_fst : ∀ (f : φ) (key : String), Filter.contains f key = false → (Filter.add f key).1 = true

/-- A filter contains what was added to it. -/
class RecordingFilter (φ : Type) [Filter φ] : Prop where
  contains_add : ∀ (f : φ) (key : String), Filter.contains (Filter.add f key).2 key = true
  contains_mono : ∀ (f : φ) (key k : String),
    Filter.contains f k = true → Filter.contains (Filter.add f key).2 k = true

structure LiteFilter where
  seen : List String := []
  deriving Repr, DecidableEq

namespace LiteFilter

def add (f : LiteFilter) (key : String) : Bool × LiteFilter :=
  if key ∈ f.seen then (false, f) else (true, ⟨key :: f.seen⟩)

def contains (f : LiteFilter) (key : String) : Bool := key ∈ f.seen

instance : Filter LiteFilter := ⟨add, contains⟩

instance : LawfulFilter LiteFilter where
  add_fst f key h := by
    show (f.add key).1 = true
    unfold add
    rw [if_neg (by simpa [Filter.contains, contains] using h)]

/-- An exact filter calls a key new exactly when it does not contain it. -/
theorem add_fst (f : LiteFilter) (key : String) : (f.add key).1 = !f.contains key := by
  unfold add contains
  split <;> simp_all

theorem mem_add (f : LiteFilter) (key k : String) :
    k ∈ (f.add key).2.seen ↔ k = key ∨ k ∈ f.seen := by
  unfold add
  split
  · exact ⟨.inr, fun h => h.elim (fun e => e ▸ ‹_›) id⟩
  · exact List.mem_cons

end LiteFilter

/-- `MemoryBloomFilter`: which bits are set, and `bit_positions` of a key. -/
structure MemoryBloomFilter where
  bits : List Nat := []
  count : Nat := 0
  positions : String → List Nat

namespace MemoryBloomFilter

def contains (f : MemoryBloomFilter) (key : String) : Bool := (f.positions key).all (· ∈ f.bits)

def add (f : MemoryBloomFilter) (key : String) : Bool × MemoryBloomFilter :=
  if f.contains key then (false, f)
  else (true, { f with bits := f.positions key ++ f.bits, count := f.count + 1 })

instance : Filter MemoryBloomFilter := ⟨add, contains⟩

instance : LawfulFilter MemoryBloomFilter where
  add_fst f key h := by
    show (f.add key).1 = true
    unfold add
    rw [show f.contains key = false from h]
    rfl

end MemoryBloomFilter

/-- `RedisSetFilter`: the members of its SET. -/
structure RedisSetFilter where
  members : List String := []
  deriving Repr, DecidableEq

namespace RedisSetFilter

/-- `SADD`. -/
def add (f : RedisSetFilter) (key : String) : Bool × RedisSetFilter :=
  if key ∈ f.members then (false, f) else (true, ⟨key :: f.members⟩)

/-- `SISMEMBER`. -/
def contains (f : RedisSetFilter) (key : String) : Bool := key ∈ f.members

instance : Filter RedisSetFilter := ⟨add, contains⟩

theorem mem_add {f : RedisSetFilter} {key k : String} : k ∈ (f.add key).2.members ↔ k = key ∨ k ∈ f.members := by
  unfold add
  split
  · exact ⟨.inr, fun h => h.elim (fun e => e ▸ ‹_›) id⟩
  · exact List.mem_cons

theorem add_fst {f : RedisSetFilter} {key : String} : (f.add key).1 = true ↔ key ∉ f.members := by
  unfold add
  split <;> simp_all

instance : RecordingFilter RedisSetFilter where
  contains_add _ _ := decide_eq_true (mem_add.mpr (.inl rfl))
  contains_mono _ _ _ h := decide_eq_true (mem_add.mpr (.inr (of_decide_eq_true h)))

end RedisSetFilter

/-- One layer of a `RedisBloomFilter`: its bits that are set, `bit_positions` of a
key, and its share of `_cumulative`. -/
structure BloomLayer where
  bits : List Nat := []
  positions : String → List Nat
  cumulative : Nat

namespace BloomLayer

def holds (l : BloomLayer) (key : String) : Bool := (l.positions key).all (· ∈ l.bits)

def setBits (key : String) (l : BloomLayer) : BloomLayer := { l with bits := l.positions key ++ l.bits }

theorem holds_setBits (l : BloomLayer) (key : String) : (setBits key l).holds key = true :=
  List.all_eq_true.mpr fun _ hp => decide_eq_true (List.mem_append_left _ hp)

theorem holds_mono {l : BloomLayer} {key k : String} (h : l.holds k = true) : (setBits key l).holds k = true := by
  refine List.all_eq_true.mpr fun p hp => decide_eq_true (List.mem_append_right _ ?_)
  exact of_decide_eq_true (List.all_eq_true.mp h p hp)

end BloomLayer

/-- `RedisBloomFilter`: its layers, the lowest first, and the counter. -/
structure RedisBloomFilter where
  layers : List BloomLayer
  count : Nat := 0
  nonempty : layers ≠ []

namespace RedisBloomFilter

/-- The layer that `_ADD_LUA` writes to: the first that the counter has not
filled, or the last. -/
def top (f : RedisBloomFilter) : Nat :=
  min (f.layers.findIdx fun l => decide (f.count < l.cumulative)) (f.layers.length - 1)

/-- `_ADD_LUA`. -/
def add (f : RedisBloomFilter) (key : String) : Bool × RedisBloomFilter :=
  if (f.layers.take (f.top + 1)).any (·.holds key) then (false, f)
  else
    (true, {
      layers := f.layers.modify f.top (BloomLayer.setBits key)
      count := f.count + 1
      nonempty := fun h => f.nonempty (List.length_eq_zero_iff.mp (by simpa using congrArg List.length h)) })

def contains (f : RedisBloomFilter) (key : String) : Bool := f.layers.any (·.holds key)

instance : Filter RedisBloomFilter := ⟨add, contains⟩

theorem top_lt (f : RedisBloomFilter) : f.top < f.layers.length := by
  have hpos := List.length_pos_iff.mpr f.nonempty
  have hle : f.top ≤ f.layers.length - 1 := Nat.min_le_right ..
  omega

instance : RecordingFilter RedisBloomFilter where
  contains_add f key := by
    show (f.add key).2.contains key = true
    unfold add contains
    split
    · rename_i h
      obtain ⟨l, hl, hk⟩ := List.any_eq_true.mp h
      exact List.any_eq_true.mpr ⟨l, List.mem_of_mem_take hl, hk⟩
    · have htop := f.top_lt
      refine List.any_eq_true.mpr ⟨BloomLayer.setBits key f.layers[f.top], ?_, BloomLayer.holds_setBits _ key⟩
      refine List.mem_iff_getElem.mpr ⟨f.top, by simpa using f.top_lt, ?_⟩
      rw [List.getElem_modify_eq]
  contains_mono f key k h := by
    show (f.add key).2.contains k = true
    unfold add
    split
    · exact h
    · obtain ⟨l, hl, hk⟩ := List.any_eq_true.mp h
      obtain ⟨i, hi, rfl⟩ := List.mem_iff_getElem.mp hl
      have hi' : i < (f.layers.modify f.top (BloomLayer.setBits key)).length := by simpa using hi
      refine List.any_eq_true.mpr ⟨(f.layers.modify f.top (BloomLayer.setBits key))[i], List.getElem_mem _, ?_⟩
      rw [List.getElem_modify]
      split
      · exact BloomLayer.holds_mono hk
      · exact hk

end RedisBloomFilter

end Netspy
