import Mathlib.Data.List.Range
import Netspy.Framework.Server
import Netspy.Framework.Traverse
import Netspy.Impl.BloomFilter

/-!
# The two layered Bloom filters

A `RedisBloomFilter` answers as a `ScalableBloomFilter` of the same arguments
does, whichever of its instances is called, exactly if no key has a bit that a
bitmap of Redis cannot hold (`replies_eq_iff`).

`Layered` says how the two states go together: the layers below the top are
full, so the counter of Redis is what they hold and what the top holds; the top
layer by the counter is the one that `grow` ends at (`top_eq`).
-/

namespace Netspy

/-- Whether Redis has all bits of a key in the layers. -/
def BloomArgs.Fits {R G : Type} (b : BloomMath R G) (a : BloomArgs R G) (key : String) : Prop :=
  ∀ i < a.layerCount, ∀ p ∈ a.positions b i key, p < Bitmap.offsets

instance {R G : Type} (b : BloomMath R G) (a : BloomArgs R G) (key : String) : Decidable (a.Fits b key) :=
  inferInstanceAs (Decidable (∀ i < a.layerCount, ∀ p ∈ a.positions b i key, p < Bitmap.offsets))

namespace Bitmap

theorem getbit_eq {bits : Bitmap} {p : Nat} (h : p < offsets) : bits.getbit p = .ok (decide (p ∈ bits)) := if_pos h

theorem holds_eq {bits : Bitmap} {ps : List Nat} (h : ∀ p ∈ ps, p < offsets) :
    bits.holds ps = .ok (ps.all (· ∈ bits)) := by
  induction ps with
  | nil => rfl
  | cons p ps ih =>
    have ih := ih fun q hq => h q (List.mem_cons_of_mem p hq)
    unfold holds
    rw [getbit_eq (h p List.mem_cons_self)]
    by_cases hp : p ∈ bits <;> simp [hp, ih]

theorem setAll_eq {bits : Bitmap} {ps : List Nat} (h : ∀ p ∈ ps, p < offsets) :
    bits.setAll ps = (.ok (), ps ++ bits) := by
  induction ps with
  | nil => rfl
  | cons p ps ih =>
    unfold setAll
    rw [if_pos (h p List.mem_cons_self), ih fun q hq => h q (List.mem_cons_of_mem p hq)]
    rfl

end Bitmap

section
variable {R G : Type} (b : BloomMath R G) (a : BloomArgs R G)

theorem MemoryBloomFilter.add_snd {f : MemoryBloomFilter} {key : String} (h : f.contains key = false) :
    (f.add key).2 = { f with bits := f.positions key ++ f.bits, count := f.count + 1 } := by
  unfold add
  rw [h]
  rfl

/-! ## One instance on the keys -/

namespace BloomKeys

/-- The filter that an instance and the keys are together. -/
def view (k : BloomKeys) : RedisBloomFilter where
  layers := (List.range a.layerCount).map fun i => ⟨k.bits i, a.positions b i, a.total b (i + 1)⟩
  count := k.count
  nonempty h := by
    have hpos := a.layerCount_pos
    have hlen := congrArg List.length h
    simp only [List.length_map, List.length_range, List.length_nil] at hlen
    omega

theorem holdsFrom_range (k : BloomKeys) {f : Nat → List Nat} {l m : Nat}
    (h : ∀ i, i < l + m → ∀ p ∈ f i, p < Bitmap.offsets) :
    k.holdsFrom l ((List.range' l m).map f) =
      .ok ((List.range' l m).any fun i => (f i).all (· ∈ k.bits i)) := by
  induction m generalizing l with
  | zero => rfl
  | succ m ih =>
    have hl : (k.bits l).holds (f l) = .ok ((f l).all (· ∈ k.bits l)) := Bitmap.holds_eq (h l (by omega))
    rw [List.range'_succ, List.map_cons, holdsFrom, hl, List.any_cons, ih fun i hi => h i (by omega)]
    cases (f l).all (· ∈ k.bits l) <;> rfl

end BloomKeys

namespace RedisBloomInstance

theorem args_new (key : String) :
    (new b a).args b key = (List.range a.layerCount).map fun i => (a.total b (i + 1), a.positions b i key) := by
  simp only [args, new, List.map_map, List.zip_map']
  rfl

theorem view_top (k : BloomKeys) (key : String) :
    min (((new b a).args b key).findIdx fun l => decide (k.count < l.1)) (((new b a).args b key).length - 1) =
      (k.view b a).top := by
  rw [args_new]
  simp only [RedisBloomFilter.top, BloomKeys.view, List.findIdx_map, List.length_map]
  rfl

theorem view_top_lt (k : BloomKeys) : (k.view b a).top < a.layerCount := by
  simpa [BloomKeys.view] using (k.view b a).top_lt

theorem take_args (key : String) {m : Nat} (hm : m ≤ a.layerCount) :
    (((new b a).args b key).take m).map Prod.snd = (List.range' 0 m).map (a.positions b · key) := by
  rw [args_new, ← List.map_take, List.map_map, List.take_range, Nat.min_eq_left hm, List.range_eq_range']
  rfl

theorem any_take_view (k : BloomKeys) (key : String) {m : Nat} (hm : m ≤ a.layerCount) :
    ((k.view b a).layers.take m).any (·.holds key) =
      (List.range' 0 m).any fun i => (a.positions b i key).all (· ∈ k.bits i) := by
  unfold BloomKeys.view
  rw [← List.map_take, List.take_range, Nat.min_eq_left hm, List.any_map, List.range_eq_range']
  rfl

/-- The script sets the bits of a key in layer `j`. -/
theorem modify_view (k : BloomKeys) (key : String) (j : Nat) :
    (k.view b a).layers.modify j (BloomLayer.setBits key) =
      (BloomKeys.view b a ⟨k.count + 1, Function.update k.bits j (a.positions b j key ++ k.bits j)⟩).layers := by
  refine List.ext_getElem (by simp [BloomKeys.view]) fun i hi hi' => ?_
  rw [List.getElem_modify]
  simp only [BloomKeys.view, List.getElem_map, List.getElem_range]
  split
  · rename_i hij
    subst hij
    rw [Function.update_self]
    rfl
  · rename_i hij
    rw [Function.update_of_ne fun he => hij he.symm]

/-- In range, the script sets the bits of a key that no layer up to the top one holds. -/
theorem add_new {k : BloomKeys} {key : String}
    (h : a.Fits b key) :
    (new b a).add b k key =
      if ((k.view b a).layers.take ((k.view b a).top + 1)).any (·.holds key) then (.ok false, k)
      else (.ok true, ⟨k.count + 1, Function.update k.bits (k.view b a).top
        (a.positions b (k.view b a).top key ++ k.bits (k.view b a).top)⟩) := by
  have htop := view_top_lt b a k
  have hholds : k.holdsFrom 0 ((((new b a).args b key).take ((k.view b a).top + 1)).map Prod.snd) =
      .ok (((k.view b a).layers.take ((k.view b a).top + 1)).any (·.holds key)) := by
    rw [take_args b a key htop, any_take_view b a k key htop]
    exact k.holdsFrom_range fun i hi => h i (by omega)
  have hget : (((new b a).args b key).getD (k.view b a).top (0, [])).2 = a.positions b (k.view b a).top key := by
    simp [args_new, List.getD_eq_getElem?_getD, htop]
  unfold add BloomKeys.addLua
  simp only [view_top, hholds, hget, Bitmap.setAll_eq (h _ htop)]
  cases ((k.view b a).layers.take ((k.view b a).top + 1)).any (·.holds key) <;> rfl

/-- In range, the script is what the filter of the keys does. -/
theorem add_view {k : BloomKeys} {key : String}
    (h : a.Fits b key) :
    ((new b a).add b k key).1 = .ok ((k.view b a).add key).1 ∧
      ((new b a).add b k key).2.view b a = ((k.view b a).add key).2 := by
  rw [add_new b a h]
  unfold RedisBloomFilter.add
  split
  · exact ⟨rfl, rfl⟩
  · have hlayers := modify_view b a k key (k.view b a).top
    refine ⟨rfl, ?_⟩
    unfold BloomKeys.view at hlayers ⊢
    simp only [RedisBloomFilter.mk.injEq]
    exact ⟨hlayers.symm, trivial⟩

theorem zipIdx_new : (new b a).layerShape.zipIdx = (List.range a.layerCount).map fun i => (a.shape b i, i) := by
  refine List.ext_getElem (by simp [new]) fun i hi hi' => ?_
  simp [new]

/-- What the pipeline of a membership query returns for one layer. -/
def slice (k : BloomKeys) (key : String) (x : (Nat × Nat) × Nat) : List Bool :=
  (b.bitPositions key x.1.1 x.1.2).map fun p => decide (p ∈ k.bits x.2)

theorem anySlice_eq (k : BloomKeys) (key : String) (shapes : List (Nat × Nat)) (l : Nat) :
    anySlice shapes ((shapes.zipIdx l).map (slice b k key)).flatten =
      (shapes.zipIdx l).any fun x => (slice b k key x).all id := by
  induction shapes generalizing l with
  | nil => rfl
  | cons shape shapes ih =>
    have hlen : (slice b k key (shape, l)).length = shape.2 := by
      rw [slice, List.length_map, b.length_bitPositions]
    rw [List.zipIdx_cons, List.map_cons, List.flatten_cons, List.any_cons, ← ih, anySlice, List.take_left' hlen,
      List.drop_left' hlen]
    cases (slice b k key (shape, l)).all id <;> rfl

/-- In range, the membership query of the filter of the keys. -/
theorem contains_new {k : BloomKeys} {key : String}
    (h : a.Fits b key) :
    (new b a).contains b k key = .ok ((k.view b a).contains key) := by
  have hmap : ((new b a).layerShape.zipIdx.mapM fun x =>
      (b.bitPositions key x.1.1 x.1.2).mapM (k.bits x.2).getbit) =
        .ok ((new b a).layerShape.zipIdx.map (slice b k key)) := by
    refine Except.mapM_ok fun x hx => Except.mapM_ok fun p hp => Bitmap.getbit_eq ?_
    rw [zipIdx_new] at hx
    obtain ⟨i, hi, rfl⟩ := List.mem_map.mp hx
    exact h i (List.mem_range.mp hi) p hp
  show (((new b a).layerShape.zipIdx.mapM fun x => (b.bitPositions key x.1.1 x.1.2).mapM (k.bits x.2).getbit).bind
    fun results => .ok (anySlice (new b a).layerShape results.flatten)) = _
  rw [hmap]
  show Except.ok _ = Except.ok _
  rw [anySlice_eq, zipIdx_new]
  simp only [slice, List.any_map, BloomKeys.view, RedisBloomFilter.contains, List.all_map]
  rfl

/-- An offset that Redis does not have makes a membership query raise. -/
theorem contains_raises {k : BloomKeys} {key : String} {i p : Nat} (hi : i < a.layerCount)
    (hp : p ∈ a.positions b i key) (hout : Bitmap.offsets ≤ p) :
    (new b a).contains b k key = .error "ResponseError" := by
  have hget (bits : Bitmap) (q : Nat) : bits.getbit q = .error "ResponseError" ∨ ∃ v, bits.getbit q = .ok v := by
    unfold Bitmap.getbit
    split
    · exact .inr ⟨_, rfl⟩
    · exact .inl rfl
  have hout : (k.bits i).getbit p = .error "ResponseError" := if_neg (by omega)
  have hrow (x : (Nat × Nat) × Nat) :
      (b.bitPositions key x.1.1 x.1.2).mapM (k.bits x.2).getbit = .error "ResponseError" ∨
        ∃ v, (b.bitPositions key x.1.1 x.1.2).mapM (k.bits x.2).getbit = .ok v := by
    by_cases hx : ∃ q ∈ b.bitPositions key x.1.1 x.1.2, (k.bits x.2).getbit q = .error "ResponseError"
    · obtain ⟨q, hq, he⟩ := hx
      exact .inl (Except.mapM_error hq (fun y _ => hget _ y) he)
    · refine .inr ⟨_, Except.mapM_ok (g := fun q => decide (q ∈ k.bits x.2)) fun q hq => Bitmap.getbit_eq ?_⟩
      by_contra hq'
      exact hx ⟨q, hq, if_neg hq'⟩
  have hmem : (a.shape b i, i) ∈ (new b a).layerShape.zipIdx := by
    rw [zipIdx_new]
    exact List.mem_map.mpr ⟨i, List.mem_range.mpr hi, rfl⟩
  have hfails : ((new b a).layerShape.zipIdx.mapM fun x =>
      (b.bitPositions key x.1.1 x.1.2).mapM (k.bits x.2).getbit) = .error "ResponseError" :=
    Except.mapM_error hmem (fun x _ => hrow x) (Except.mapM_error hp (fun y _ => hget _ y) hout)
  show (((new b a).layerShape.zipIdx.mapM fun x => (b.bitPositions key x.1.1 x.1.2).mapM (k.bits x.2).getbit).bind
    fun results => .ok (anySlice (new b a).layerShape results.flatten)) = _
  rw [hfails]
  rfl

end RedisBloomInstance

/-! ## The layers of both -/

/-- The filter in the process is at layer `j`, which holds `t` keys. -/
structure Layered (k : BloomKeys) (f : ScalableBloomFilter) (j t : Nat) : Prop where
  lt : j < a.layerCount
  below : f.below = (List.range j).map fun i =>
    ⟨a.capacityOf b i, { bits := k.bits i, count := a.capacityOf b i, positions := a.positions b i }⟩
  top : f.top = ⟨a.capacityOf b j, { bits := k.bits j, count := t, positions := a.positions b j }⟩
  empty : ∀ i, j < i → k.bits i = []
  count : k.count = a.total b j + t
  room : t ≤ a.capacityOf b j ∨ j + 1 = a.layerCount

namespace Layered

variable {b a} {k : BloomKeys} {f : ScalableBloomFilter} {j t : Nat}

theorem new : Layered b a {} (ScalableBloomFilter.new b a) 0 0 where
  lt := a.layerCount_pos
  below := rfl
  top := by rw [ScalableBloomFilter.new, ScalableBloomFilter.makeLayer_eq]
  empty _ _ := rfl
  count := rfl
  room := .inl (Nat.zero_le _)

theorem length_layers (h : Layered b a k f j t) : f.layers.length = j + 1 := by
  simp [ScalableBloomFilter.layers, h.below]

theorem count_eq (h : Layered b a k f j t) : f.count = k.count := by
  rw [h.count]
  simp only [ScalableBloomFilter.count, ScalableBloomFilter.layers, h.below, h.top, List.map_append, List.map_map,
    List.sum_append, List.map_cons, List.map_nil, List.sum_singleton]
  rfl

theorem contains_eq (h : Layered b a k f j t) (key : String) :
    f.contains key = (List.range' 0 (j + 1)).any fun i => (a.positions b i key).all (· ∈ k.bits i) := by
  simp only [ScalableBloomFilter.contains, ScalableBloomFilter.layers, h.below, h.top, List.any_append, List.any_map,
    ← List.range_eq_range', List.range_succ, List.any_cons, List.any_nil, Bool.or_false]
  rfl

/-- No layer above the top holds a key. -/
theorem any_above (h : Layered b a k f j t) (key : String) {m : Nat} (hm : j < m) :
    (List.range' 0 m).any (fun i => (a.positions b i key).all (· ∈ k.bits i)) = f.contains key := by
  rw [h.contains_eq, Bool.eq_iff_iff]
  simp only [List.any_eq_true, List.mem_range'_1]
  refine ⟨fun ⟨i, hi, hall⟩ => ⟨i, ?_, hall⟩, fun ⟨i, hi, hall⟩ => ⟨i, by omega, hall⟩⟩
  by_contra hlt
  have hne := a.positions_ne_nil b i key
  rw [h.empty i (by omega)] at hall
  obtain ⟨p, hp⟩ := List.exists_mem_of_ne_nil _ hne
  have := List.all_eq_true.mp hall p hp
  simp at this

/-- The layer that the filter in the process grows to. -/
theorem grow (h : Layered b a k f j t) :
    ∃ j' t', Layered b a k (f.grow b a) j' t' ∧ j ≤ j' ∧ (t' < a.capacityOf b j' ∨ j' + 1 = a.layerCount) := by
  unfold ScalableBloomFilter.grow
  rw [h.length_layers, h.top]
  split
  · rename_i hfull
    obtain ⟨hfull, hlt⟩ := hfull
    have ht : t = a.capacityOf b j := by
      have := h.room
      simp only at hfull
      omega
    refine ⟨j + 1, 0, ⟨hlt, ?_, ?_, fun i hi => h.empty i (by omega), ?_, .inl (Nat.zero_le _)⟩, by omega,
      .inl (a.capacityOf_pos b (j + 1))⟩
    · simp [ScalableBloomFilter.layers, h.below, h.top, List.range_succ, ht]
    · rw [ScalableBloomFilter.makeLayer_eq, h.empty (j + 1) (by omega)]
    · rw [h.count, ht, a.total_succ, Nat.add_zero]
  · rename_i hroom
    refine ⟨j, t, h, Nat.le_refl j, ?_⟩
    have := h.lt
    simp only at hroom
    omega

/-- The top layer by the counter. -/
theorem top_eq (h : Layered b a k f j t) (hroom : t < a.capacityOf b j ∨ j + 1 = a.layerCount) :
    (k.view b a).top = j := by
  have hlt : j < (k.view b a).layers.length := by simpa [BloomKeys.view] using h.lt
  have hlen : (k.view b a).layers.length = a.layerCount := by simp [BloomKeys.view]
  have hbelow (i : Nat) (hi : i < j) : decide (k.count < a.total b (i + 1)) = false := by
    have hle := a.total_mono b (show i + 1 ≤ j by omega)
    have hcount := h.count
    simp only [decide_eq_false_iff_not]
    omega
  have hidx : j ≤ (k.view b a).layers.findIdx fun l => decide (k.count < l.cumulative) := by
    refine List.le_findIdx_of_not hlt fun i hi => ?_
    simp only [BloomKeys.view, List.getElem_map, List.getElem_range]
    exact hbelow i hi
  show min ((k.view b a).layers.findIdx fun l => decide (k.count < l.cumulative)) _ = j
  rcases hroom with ht | hlast
  · have hat : (k.view b a).layers.findIdx (fun l => decide (k.count < l.cumulative)) = j := by
      refine (List.findIdx_eq hlt).mpr ⟨?_, fun i hi => ?_⟩
      · simp only [BloomKeys.view, List.getElem_map, List.getElem_range, decide_eq_true_eq, h.count, a.total_succ]
        omega
      · simp only [BloomKeys.view, List.getElem_map, List.getElem_range]
        exact hbelow i hi
    omega
  · omega

/-- A key goes to the top layer. -/
theorem put (h : Layered b a k f j t) (hroom : t < a.capacityOf b j ∨ j + 1 = a.layerCount) {key : String}
    (hnew : f.contains key = false) :
    Layered b a ⟨k.count + 1, Function.update k.bits j (a.positions b j key ++ k.bits j)⟩
      { f with top := { f.top with filter := (f.top.filter.add key).2 } } j (t + 1) where
  lt := h.lt
  below := by
    rw [h.below]
    refine List.map_congr_left fun i hi => ?_
    simp only [Function.update_of_ne (Nat.ne_of_lt (List.mem_range.mp hi))]
  top := by
    have htop : f.top.filter.contains key = false := by
      have := (List.any_eq_false.mp hnew) f.top (by simp [ScalableBloomFilter.layers])
      simpa using this
    rw [h.top] at htop
    simp only [h.top, Function.update_self, MemoryBloomFilter.add_snd htop]
  empty i hi := by simp only [Function.update_of_ne (Nat.ne_of_gt hi), h.empty i hi]
  count := by rw [h.count, Nat.add_assoc]
  room := by omega

/-- Both filters add a key, with the same answer. -/
theorem add (h : Layered b a k f j t) {key : String} (hfits : a.Fits b key) :
    ((RedisBloomInstance.new b a).add b k key).1 = .ok (f.add b a key).1 ∧
      ∃ j t, Layered b a ((RedisBloomInstance.new b a).add b k key).2 (f.add b a key).2 j t := by
  obtain ⟨j', t', hgrow, hle, hroom⟩ := h.grow
  have htop := hgrow.top_eq hroom
  have hsame : (f.grow b a).contains key = f.contains key := by
    rw [← hgrow.any_above key (Nat.lt_succ_self j'), ← h.any_above key (Nat.lt_succ_of_le hle)]
  have hseen : ((k.view b a).layers.take ((k.view b a).top + 1)).any (·.holds key) = f.contains key := by
    rw [htop, RedisBloomInstance.any_take_view b a k key hgrow.lt]
    exact h.any_above key (Nat.lt_succ_of_le hle)
  rw [RedisBloomInstance.add_new b a hfits, hseen, htop]
  unfold ScalableBloomFilter.add
  split
  · exact ⟨rfl, j, t, h⟩
  · rename_i hnew
    rw [Bool.not_eq_true] at hnew
    exact ⟨rfl, j', t' + 1, hgrow.put hroom (hsame.trans hnew)⟩

theorem contains (h : Layered b a k f j t) {key : String} (hfits : a.Fits b key) :
    (RedisBloomInstance.new b a).contains b k key = .ok (f.contains key) := by
  have hall : (k.view b a).contains key =
      (List.range' 0 a.layerCount).any fun i => (a.positions b i key).all (· ∈ k.bits i) := by
    rw [← RedisBloomInstance.any_take_view b a k key (Nat.le_refl _), List.take_of_length_le (by simp [BloomKeys.view])]
    rfl
  rw [RedisBloomInstance.contains_new b a hfits, hall, h.any_above key h.lt]

/-- Both filters answer a call alike. -/
theorem call (h : Layered b a k f j t) (hfits : ∀ key, a.Fits b key) (c : FilterCall) :
    ((RedisBloomInstance.new b a).call b k c).1 = (f.call b a c).1 ∧
      ∃ j t, Layered b a ((RedisBloomInstance.new b a).call b k c).2 (f.call b a c).2 j t := by
  cases c with
  | add key =>
    obtain ⟨hres, hnext⟩ := h.add (hfits key)
    refine ⟨?_, hnext⟩
    show ((RedisBloomInstance.new b a).add b k key).1.map FilterReply.bool = .ok (.bool (f.add b a key).1)
    rw [hres]
    rfl
  | contains key =>
    refine ⟨?_, j, t, h⟩
    show ((RedisBloomInstance.new b a).contains b k key).map FilterReply.bool = .ok (.bool (f.contains key))
    rw [h.contains (hfits key)]
    rfl
  | count => exact ⟨by rw [RedisBloomInstance.call, ScalableBloomFilter.call, h.count_eq], j, t, h⟩

end Layered

/-- Whichever instance is called: the filter in Redis returns for every sequence
of calls what the one in the process does, if and only if Redis has all bits. -/
theorem replies_eq_iff :
    (∀ (ι : Type) (calls : List (ι × FilterCall)),
      Server.replies (fun k c => (RedisBloomInstance.new b a).call b k c.2) {} calls =
        Server.replies (fun f c => f.call b a c.2) (ScalableBloomFilter.new b a) calls) ↔ ∀ key, a.Fits b key := by
  refine ⟨fun h key i hi p hp => ?_, fun hfits ι calls => ?_⟩
  · by_contra hout
    have hraises := RedisBloomInstance.contains_raises b a (k := {}) hi hp (Nat.le_of_not_lt hout)
    have hreply := h Unit [((), .contains key)]
    simp [Server.replies, RedisBloomInstance.call, ScalableBloomFilter.call, hraises, Except.map] at hreply
  · have hstep (k : BloomKeys) (f : ScalableBloomFilter) (c : ι × FilterCall) (_ : True)
        (h : ∃ j t, Layered b a k f j t) := h.elim fun _ h => h.elim fun _ h => h.call hfits c.2
    exact Server.replies_congr hstep ⟨0, 0, Layered.new⟩ fun _ _ => trivial

end

/-- The capacity, size and hashes of the layers that the defaults give, and the
digests of the key `u`. -/
def layerTable : List (Nat × Nat × Nat) :=
  [(1000000, 28755176, 20), (2000000, 60395741, 21), (4000000, 126562261, 22),
    (8000000, 264666083, 23), (16000000, 552415285, 24), (32000000, 1150996811, 25),
    (64000000, 2394326105, 26), (128000000, 4973317174, 27)]

def tableMath : BloomMath Unit Unit where
  layerParams i c _ _ _ := (max 1 (c * 2 ^ i), ())
  optimalSize c _ := ((layerTable.lookup c).map Prod.fst).getD 8
  optimalHashes _ c := max 1 (((layerTable.lookup c).map Prod.snd).getD 1)
  bitPositions _ size n := (List.range n).map fun i =>
    (164114529109600808371696498605782324044 + i * 467570714808761801325845111979043276921561197773) % size
  one_le_capacity _ _ _ _ _ := Nat.le_max_left ..
  one_le_hashes _ _ := Nat.le_max_left ..
  length_bitPositions _ _ _ := by simp

def eightLayers : BloomArgs Unit Unit where
  capacity := 1000000
  errorRate := ()
  maxLayers := 8
  growth := ()
  ratio := ()

/-- Eight layers from the default capacity: the last one does not fit into a bitmap. -/
theorem replies_eightLayers :
    Server.replies (fun k c => (RedisBloomInstance.new tableMath eightLayers).call tableMath k c) {} [.contains "u"] =
        [.error "ResponseError"] ∧
      Server.replies (fun f c => f.call tableMath eightLayers c) (ScalableBloomFilter.new tableMath eightLayers)
        [.contains "u"] = [.ok (.bool false)] := by
  have hraises := @RedisBloomInstance.contains_raises Unit Unit tableMath eightLayers {} "u" 7 4585220633
    (by decide) (by decide) (by decide)
  refine ⟨?_, rfl⟩
  show [((RedisBloomInstance.new tableMath eightLayers).contains tableMath {} "u").map FilterReply.bool] = _
  rw [hraises]
  rfl

end Netspy
