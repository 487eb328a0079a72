import Mathlib.Algebra.GroupWithZero.Nat
import Mathlib.Logic.Function.Basic
import Netspy.Impl.Dedup
import Netspy.Impl.Request

/-!
# `dedup/bloom_filter.py`, `dedup/redis_filter.py`: the layered filters

`ScalableBloomFilter`, whose layers are `MemoryBloomFilter`s of one process,
and `RedisBloomFilter`, whose layers are bitmaps that any number of instances
share. What the constructors and the hash compute in floating point or with
`hashlib` is given by a `BloomMath`; a value of `R` is an error rate or a ratio
that the constructors accept, one of `G` a growth.

Redis keeps a bitmap in a string of at most 512 MB: `GETBIT` and `SETBIT`
answer an offset of 2³² or more with an error. The warnings, and the flags that
they are given once, are left out.
-/

namespace Netspy

structure BloomMath (R G : Type) where
  layerParams : (index capacity : Nat) → (errorRate : R) → (growth : G) → (ratio : R) → Nat × R
  optimalSize : (capacity : Nat) → (errorRate : R) → Nat
  optimalHashes : (size capacity : Nat) → Nat
  bitPositions : (key : String) → (size numHashes : Nat) → List Nat
  one_le_capacity : ∀ i c e g r, 1 ≤ (layerParams i c e g r).1
  one_le_hashes : ∀ s c, 1 ≤ optimalHashes s c
  length_bitPositions : ∀ key s n, (bitPositions key s n).length = n

/-- The arguments of the constructors. -/
structure BloomArgs (R G : Type) where
  capacity : Int
  errorRate : R
  maxLayers : Int
  growth : G
  ratio : R

namespace BloomArgs

variable {R G : Type} (b : BloomMath R G) (a : BloomArgs R G)

/-- `self.base_capacity`. -/
def baseCapacity : Nat := (max 1 a.capacity).toNat

/-- `self.max_layers`. -/
def layerCount : Nat := (max 1 a.maxLayers).toNat

def params (i : Nat) : Nat × R := b.layerParams i a.baseCapacity a.errorRate a.growth a.ratio

def capacityOf (i : Nat) : Nat := (a.params b i).1

/-- The shape of a layer: its size and its number of hashes. -/
def shape (i : Nat) : Nat × Nat :=
  let (cap, err) := a.params b i
  let size := b.optimalSize cap err
  (size, b.optimalHashes size cap)

/-- The bits of a key in a layer. -/
def positions (i : Nat) (key : String) : List Nat := b.bitPositions key (a.shape b i).1 (a.shape b i).2

/-- `total` after the layers below `k`. -/
def total (k : Nat) : Nat := ((List.range k).map (a.capacityOf b)).sum

theorem layerCount_pos : 0 < a.layerCount := by
  unfold layerCount
  omega

theorem capacityOf_pos (i : Nat) : 0 < a.capacityOf b i := b.one_le_capacity ..

theorem positions_ne_nil (i : Nat) (key : String) : a.positions b i key ≠ [] := by
  have hlen : (a.positions b i key).length = (a.shape b i).2 := b.length_bitPositions ..
  have hpos : 1 ≤ (a.shape b i).2 := b.one_le_hashes ..
  exact List.ne_nil_of_length_pos (by omega)

theorem total_succ (k : Nat) : a.total b (k + 1) = a.total b k + a.capacityOf b k := by
  simp [total, List.range_succ]

theorem total_mono {j k : Nat} (h : j ≤ k) : a.total b j ≤ a.total b k := by
  induction h with
  | refl => exact Nat.le_refl _
  | step _ ih =>
    rw [Nat.succ_eq_add_one, total_succ]
    omega

end BloomArgs

/-! ## In the process -/

/-- A layer: a `MemoryBloomFilter` with its `capacity`. -/
structure MemoryLayer where
  capacity : Nat
  filter : MemoryBloomFilter

/-- `ScalableBloomFilter`: its layers, the last of which is `top`. -/
structure ScalableBloomFilter where
  below : List MemoryLayer := []
  top : MemoryLayer

namespace ScalableBloomFilter

variable {R G : Type} (b : BloomMath R G) (a : BloomArgs R G)

def layers (f : ScalableBloomFilter) : List MemoryLayer := f.below ++ [f.top]

/-- The constructor of `MemoryBloomFilter`. -/
def newLayer (capacity : Nat) (errorRate : R) : MemoryLayer :=
  let capacity := max 1 capacity
  let size := b.optimalSize capacity errorRate
  let numHashes := b.optimalHashes size capacity
  { capacity, filter := { positions := fun key => b.bitPositions key size numHashes } }

def makeLayer (index : Nat) : MemoryLayer :=
  let (cap, err) := a.params b index
  newLayer b cap err

theorem makeLayer_eq (index : Nat) :
    makeLayer b a index = ⟨a.capacityOf b index, { positions := a.positions b index }⟩ := by
  have hcap : max 1 (a.params b index).1 = (a.params b index).1 := max_eq_right (a.capacityOf_pos b index)
  simp only [makeLayer, newLayer, hcap]
  rfl

def new : ScalableBloomFilter where
  top := makeLayer b a 0

def count (f : ScalableBloomFilter) : Nat := (f.layers.map (·.filter.count)).sum

def contains (f : ScalableBloomFilter) (key : String) : Bool := f.layers.any (·.filter.contains key)

/-- The layer that `add` writes to, with those below it. -/
def grow (f : ScalableBloomFilter) : ScalableBloomFilter :=
  if f.top.capacity ≤ f.top.filter.count ∧ f.layers.length < a.layerCount then
    { below := f.layers, top := makeLayer b a f.layers.length }
  else f

def add (f : ScalableBloomFilter) (key : String) : Bool × ScalableBloomFilter :=
  if f.contains key then (false, f)
  else
    let f := f.grow b a
    (true, { f with top := { f.top with filter := (f.top.filter.add key).2 } })

end ScalableBloomFilter

/-! ## In Redis -/

/-- The bits of a bitmap that are set. -/
abbrev Bitmap := List Nat

namespace Bitmap

/-- The offsets that a string of 512 MB has. -/
def offsets : Nat := 2 ^ 32

/-- `GETBIT`. -/
def getbit (bits : Bitmap) (offset : Nat) : Except Exn Bool :=
  if offset < offsets then .ok (decide (offset ∈ bits)) else .error "ResponseError"

/-- The loop of the script that looks for a bit that is not set. -/
def holds (bits : Bitmap) : List Nat → Except Exn Bool
  | [] => .ok true
  | p :: ps =>
    match getbit bits p with
    | .error e => .error e
    | .ok false => .ok false
    | .ok true => holds bits ps

/-- The loop of `SETBIT`s; what it has set before an error stays. -/
def setAll (bits : Bitmap) : List Nat → Except Exn Unit × Bitmap
  | [] => (.ok (), bits)
  | p :: ps =>
    if p < offsets then
      let (res, bits) := setAll bits ps
      (res, p :: bits)
    else (.error "ResponseError", bits)

end Bitmap

/-- The keys of a layered filter in Redis. -/
structure BloomKeys where
  count : Nat := 0
  bits : Nat → Bitmap := fun _ => []

namespace BloomKeys

/-- The loop of the script over the layers from `l` on. -/
def holdsFrom (k : BloomKeys) : (l : Nat) → List (List Nat) → Except Exn Bool
  | _, [] => .ok false
  | l, ps :: rest =>
    match (k.bits l).holds ps with
    | .error e => .error e
    | .ok true => .ok true
    | .ok false => holdsFrom k (l + 1) rest

/-- `_ADD_LUA`, given the cumulative capacity and the positions of each layer:
whether the key was new, and the counter. -/
def addLua (k : BloomKeys) (args : List (Nat × List Nat)) : Except Exn (Bool × Nat) × BloomKeys :=
  let top := min (args.findIdx fun l => decide (k.count < l.1)) (args.length - 1)
  match k.holdsFrom 0 ((args.take (top + 1)).map Prod.snd) with
  | .error e => (.error e, k)
  | .ok true => (.ok (false, k.count), k)
  | .ok false =>
    match (k.bits top).setAll (args.getD top (0, [])).2 with
    | (.error e, bits) => (.error e, { k with bits := Function.update k.bits top bits })
    | (.ok (), bits) =>
      (.ok (true, k.count + 1), { count := k.count + 1, bits := Function.update k.bits top bits })

end BloomKeys

/-- A `RedisBloomFilter`, as its constructor has made it. -/
structure RedisBloomInstance where
  layerShape : List (Nat × Nat)
  cumulative : List Nat

namespace RedisBloomInstance

variable {R G : Type} (b : BloomMath R G) (a : BloomArgs R G)

def new : RedisBloomInstance where
  layerShape := (List.range a.layerCount).map (a.shape b)
  cumulative := (List.range a.layerCount).map fun i => a.total b (i + 1)

/-- `_args`: the cumulative capacity and the positions of each layer. -/
def args (i : RedisBloomInstance) (key : String) : List (Nat × List Nat) :=
  i.cumulative.zip (i.layerShape.map fun (size, numHashes) => b.bitPositions key size numHashes)

def add (i : RedisBloomInstance) (k : BloomKeys) (key : String) : Except Exn Bool × BloomKeys :=
  let (res, k) := k.addLua (i.args b key)
  (res.map Prod.fst, k)

/-- The loop of `__contains__` over the results of the pipeline. -/
def anySlice : List (Nat × Nat) → List Bool → Bool
  | [], _ => false
  | (_, numHashes) :: shapes, results =>
    if (results.take numHashes).all id then true else anySlice shapes (results.drop numHashes)

/-- `__contains__`: all layers are asked in one transaction. -/
def contains (i : RedisBloomInstance) (k : BloomKeys) (key : String) : Except Exn Bool := do
  let results ← i.layerShape.zipIdx.mapM fun ((size, numHashes), l) =>
    (b.bitPositions key size numHashes).mapM (k.bits l).getbit
  return anySlice i.layerShape results.flatten

end RedisBloomInstance

/-! ## Calls -/

inductive FilterCall where
  | add (key : String)
  | contains (key : String)
  | count
  deriving Repr, DecidableEq

inductive FilterReply where
  | bool (v : Bool)
  | number (n : Nat)
  deriving Repr, DecidableEq

namespace ScalableBloomFilter

variable {R G : Type} (b : BloomMath R G) (a : BloomArgs R G)

def call (f : ScalableBloomFilter) : FilterCall → Except Exn FilterReply × ScalableBloomFilter
  | .add key =>
    let (fresh, f) := f.add b a key
    (.ok (.bool fresh), f)
  | .contains key => (.ok (.bool (f.contains key)), f)
  | .count => (.ok (.number f.count), f)

end ScalableBloomFilter

namespace RedisBloomInstance

variable {R G : Type} (b : BloomMath R G)

def call (i : RedisBloomInstance) (k : BloomKeys) : FilterCall → Except Exn FilterReply × BloomKeys
  | .add key =>
    let (res, k) := i.add b k key
    (res.map .bool, k)
  | .contains key => ((i.contains b k key).map .bool, k)
  | .count => (.ok (.number k.count), k)

end RedisBloomInstance

/-- The atomic calls of any filter. -/
inductive KeyCall where
  | add (key : String)
  | contains (key : String)
  deriving Repr, DecidableEq

namespace KeyCall

def key : KeyCall → String
  | .add key | .contains key => key

/-- A call of a filter that does not raise. -/
def run {φ : Type} (add : φ → String → Bool × φ) (contains : φ → String → Bool) (f : φ) :
    KeyCall → Except Exn Bool × φ
  | .add key =>
    let (fresh, f) := add f key
    (.ok fresh, f)
  | .contains key => (.ok (contains f key), f)

variable {R G : Type} (b : BloomMath R G)

def runRedis (i : RedisBloomInstance) (k : BloomKeys) : KeyCall → Except Exn Bool × BloomKeys
  | .add key => i.add b k key
  | .contains key => (i.contains b k key, k)

end KeyCall

end Netspy
