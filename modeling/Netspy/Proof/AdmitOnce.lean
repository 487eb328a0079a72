import Netspy.Proof.BloomFilter

/-!
# Filters admit a key once and never forget it

What any threads or nodes are told by a filter, in the order in which their
calls take effect: an `add` of a key is new at most once, and once one has
returned, later ones are not new and queries find the key
(`filters_admit_once`). A filter contains what was added to it, and what it
contains is not new; that is all it takes (`admitsOnce_run`).

A `RedisBloomFilter` keeps to this for the keys whose bits Redis has: there it
answers as a `ScalableBloomFilter` does.
-/

namespace Netspy

variable {ι : Type}

/-- What a call returned, and who made it. -/
abbrev FilterEntry (ι : Type) := (ι × KeyCall) × Except Exn Bool

/-- Whether it is an `add` of a key that was new. -/
def admits (key : String) : FilterEntry ι → Bool
  | ((_, .add k), .ok true) => k == key
  | _ => false

/-- After an `add` of a key has returned, an `add` of it is not new, and a query
finds it. -/
def Remembered (x y : FilterEntry ι) : Prop :=
  ∀ key v, x.1.2 = .add key → x.2 = .ok v →
    (y.1.2 = .add key → y.2 = .ok false) ∧ (y.1.2 = .contains key → y.2 = .ok true)

structure AdmitsOnce (log : List (FilterEntry ι)) : Prop where
  once : ∀ key, log.countP (admits key) ≤ 1
  remembered : log.Pairwise Remembered

theorem admits_iff {key : String} {x : FilterEntry ι} :
    admits key x = true ↔ x.1.2 = .add key ∧ x.2 = .ok true := by
  unfold admits
  split
  · simp
  · rename_i hne
    simp only [Bool.false_eq_true, false_iff, not_and]
    intro hadd hok
    obtain ⟨⟨i, c⟩, r⟩ := x
    exact hne i key (by simp only at hadd hok; rw [hadd, hok])

theorem AdmitsOnce.of_remembered {log : List (FilterEntry ι)} (h : log.Pairwise Remembered) : AdmitsOnce log where
  remembered := h
  once key := by
    rw [List.countP_eq_length_filter]
    have hsub := h.sublist (List.filter_sublist (p := admits key))
    have hall : ∀ x ∈ log.filter (admits key), admits key x = true := fun x hx => (List.mem_filter.mp hx).2
    rcases hlog : log.filter (admits key) with _ | ⟨x, _ | ⟨y, rest⟩⟩
    · exact Nat.zero_le 1
    · exact Nat.le_refl 1
    · rw [hlog] at hsub hall
      obtain ⟨hx, hxv⟩ := admits_iff.mp (hall x (by simp))
      obtain ⟨hy, hyv⟩ := admits_iff.mp (hall y (by simp))
      have hfalse := (List.rel_of_pairwise_cons hsub List.mem_cons_self key true hx hxv).1 hy
      rw [hyv] at hfalse
      cases hfalse

/-- A filter that contains what was added, and to which that is not new. -/
theorem admitsOnce_run {φ : Type} {add : φ → String → Bool × φ} {contains : φ → String → Bool}
    (hadd : ∀ f key, contains (add f key).2 key = true)
    (hmono : ∀ f key k, contains f k = true → contains (add f key).2 k = true)
    (hseen : ∀ f key, contains f key = true → (add f key).1 = false) (f : φ) (calls : List (ι × KeyCall)) :
    AdmitsOnce (Server.record (fun f c => KeyCall.run add contains f c.2) f calls) := by
  let Knows (f : φ) (x : FilterEntry ι) : Prop := ∀ key v, x.1.2 = .add key → x.2 = .ok v → contains f key = true
  refine .of_remembered (@Server.record_pairwise _ _ _ _ Knows _ ?_ ?_ ?_ f calls)
  · rintro f ⟨i, c⟩ key v (rfl : c = .add key) _
    exact hadd f key
  · rintro f x ⟨i, c⟩ hx key v hk hv
    cases c with
    | add k => exact hmono f k key (hx key v hk hv)
    | contains k => exact hx key v hk hv
  · rintro f x ⟨i, c⟩ hx key v hk hv
    refine ⟨?_, ?_⟩
    · rintro (rfl : c = .add key)
      exact congrArg Except.ok (hseen f key (hx key v hk hv))
    · rintro (rfl : c = .contains key)
      exact congrArg Except.ok (hx key v hk hv)

/-! ## The filters -/

theorem LiteFilter.contains_iff {f : LiteFilter} {key : String} : f.contains key = true ↔ key ∈ f.seen :=
  decide_eq_true_iff

namespace MemoryBloomFilter

theorem contains_iff {f : MemoryBloomFilter} {key : String} :
    f.contains key = true ↔ ∀ p ∈ f.positions key, p ∈ f.bits := by
  simp [contains]

theorem add_fst {f : MemoryBloomFilter} {key : String} (h : f.contains key = true) : (f.add key).1 = false := by
  rw [add, if_pos h]

theorem contains_add (f : MemoryBloomFilter) (key : String) : (f.add key).2.contains key = true := by
  by_cases h : f.contains key = true
  · rwa [add, if_pos h]
  · rw [add_snd (Bool.not_eq_true _ ▸ h), contains_iff]
    exact fun p hp => List.mem_append_left _ hp

theorem contains_mono (f : MemoryBloomFilter) (key k : String) (hk : f.contains k = true) :
    (f.add key).2.contains k = true := by
  by_cases h : f.contains key = true
  · rwa [add, if_pos h]
  · rw [add_snd (Bool.not_eq_true _ ▸ h), contains_iff]
    exact fun p hp => List.mem_append_right _ (contains_iff.mp hk p hp)

end MemoryBloomFilter

namespace ScalableBloomFilter

variable {R G : Type} (b : BloomMath R G) (a : BloomArgs R G)

theorem contains_iff {f : ScalableBloomFilter} {key : String} :
    f.contains key = true ↔ f.below.any (·.filter.contains key) = true ∨ f.top.filter.contains key = true := by
  simp [contains, layers, List.any_append]

theorem contains_grow {f : ScalableBloomFilter} {key : String} (h : f.contains key = true) :
    (f.grow b a).contains key = true := by
  unfold grow
  split
  · exact contains_iff.mpr (.inl h)
  · exact h

theorem add_fst {f : ScalableBloomFilter} {key : String} (h : f.contains key = true) : (f.add b a key).1 = false := by
  rw [add, if_pos h]

theorem contains_add (f : ScalableBloomFilter) (key : String) : (f.add b a key).2.contains key = true := by
  unfold add
  split
  · assumption
  · exact contains_iff.mpr (.inr (MemoryBloomFilter.contains_add _ key))

theorem contains_mono (f : ScalableBloomFilter) (key k : String) (hk : f.contains k = true) :
    (f.add b a key).2.contains k = true := by
  unfold add
  split
  · exact hk
  · rcases contains_iff.mp (contains_grow b a hk) with hbelow | htop
    · exact contains_iff.mpr (.inl hbelow)
    · exact contains_iff.mpr (.inr (MemoryBloomFilter.contains_mono _ key k htop))

end ScalableBloomFilter

section
variable {R G : Type} (b : BloomMath R G) (a : BloomArgs R G)

/-- For keys whose bits Redis has, an instance answers as the filter in the
process does. -/
theorem replies_keyCalls {calls : List (ι × KeyCall)} (hfits : ∀ c ∈ calls, a.Fits b c.2.key) :
    Server.replies (fun k c => KeyCall.runRedis b (RedisBloomInstance.new b a) k c.2) {} calls =
      Server.replies (fun f c => KeyCall.run (ScalableBloomFilter.add b a) ScalableBloomFilter.contains f c.2)
        (ScalableBloomFilter.new b a) calls := by
  refine @Server.replies_congr _ _ _ _ _ _ (fun k f => ∃ j t, Layered b a k f j t) _ ?_ _ _ ⟨0, 0, Layered.new⟩ _ hfits
  rintro k f ⟨i, c⟩ hc ⟨j, t, h⟩
  cases c with
  | add key => exact h.add hc
  | contains key => exact ⟨h.contains hc, j, t, h⟩

/-- No filter is new to a key twice, or forgets it; the one whose layers are in
Redis as long as it has the bits. -/
theorem filters_admit_once (calls : List (ι × KeyCall)) :
    (∀ f, AdmitsOnce (Server.record (fun f c => KeyCall.run LiteFilter.add LiteFilter.contains f c.2) f calls)) ∧
      (∀ f, AdmitsOnce
        (Server.record (fun f c => KeyCall.run MemoryBloomFilter.add MemoryBloomFilter.contains f c.2) f calls)) ∧
      (∀ f, AdmitsOnce (Server.record
        (fun f c => KeyCall.run (ScalableBloomFilter.add b a) ScalableBloomFilter.contains f c.2) f calls)) ∧
      (∀ f, AdmitsOnce
        (Server.record (fun f c => KeyCall.run RedisSetFilter.add RedisSetFilter.contains f c.2) f calls)) ∧
      ((∀ c ∈ calls, a.Fits b c.2.key) → AdmitsOnce (Server.record
        (fun k c => KeyCall.runRedis b (RedisBloomInstance.new b a) k c.2) {} calls)) := by
  have hscalable (f : ScalableBloomFilter) := admitsOnce_run (ScalableBloomFilter.contains_add b a)
    (ScalableBloomFilter.contains_mono b a) (fun f _ => ScalableBloomFilter.add_fst b a) f calls
  refine ⟨?_, ?_, hscalable, ?_, fun hfits => ?_⟩
  · refine fun f => admitsOnce_run (fun f key => ?_) (fun f key k hk => ?_) (fun f key h => ?_) f calls
    · exact LiteFilter.contains_iff.mpr ((f.mem_add key key).mpr (.inl rfl))
    · exact LiteFilter.contains_iff.mpr ((f.mem_add key k).mpr (.inr (LiteFilter.contains_iff.mp hk)))
    · rw [f.add_fst, h]
      rfl
  · exact fun f => admitsOnce_run MemoryBloomFilter.contains_add MemoryBloomFilter.contains_mono
      (fun f _ => MemoryBloomFilter.add_fst) f calls
  · refine fun f => admitsOnce_run RecordingFilter.contains_add RecordingFilter.contains_mono (fun f key h => ?_) f calls
    rw [← Bool.not_eq_true]
    exact fun hnew => RedisSetFilter.add_fst.mp hnew (of_decide_eq_true h)
  · rw [Server.record_eq_zip, replies_keyCalls b a hfits, ← Server.record_eq_zip]
    exact hscalable _

end

/-- Eight layers: a key that was added, and that cannot be asked for. -/
theorem eightLayers_forgets :
    ¬ AdmitsOnce (Server.record
      (fun k c => KeyCall.runRedis tableMath (RedisBloomInstance.new tableMath eightLayers) k c.2) {}
      [((), .add "u"), ((), .contains "u")]) := by
  intro h
  have hadd : ((RedisBloomInstance.new tableMath eightLayers).add tableMath {} "u").1 = .ok true := rfl
  have hfound := (List.rel_of_pairwise_cons h.remembered List.mem_cons_self "u" true rfl hadd).2 rfl
  have hraises := @RedisBloomInstance.contains_raises Unit Unit tableMath eightLayers
    ((RedisBloomInstance.new tableMath eightLayers).add tableMath {} "u").2 "u" 7 4585220633 (by decide) (by decide)
      (by decide)
  exact absurd (hraises.symm.trans hfound) nofun

/-- The four layers of the defaults. -/
def fourLayers : BloomArgs Unit Unit := { eightLayers with maxLayers := 4 }

theorem filters_admit_once_fourLayers :
    AdmitsOnce (Server.record
      (fun k c => KeyCall.runRedis tableMath (RedisBloomInstance.new tableMath fourLayers) k c.2) {}
      [(0, .add "u"), (1, .add "u"), (1, .contains "u")]) :=
  (filters_admit_once tableMath fourLayers _).2.2.2.2 (by decide)

end Netspy
