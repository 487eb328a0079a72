import Mathlib.Data.Int.CardIntervalMod
import Netspy.Impl.Shards

/-!
# The threads are spread evenly over the shards

The thread that drew the number `k` is the `k`-th of those that have one (`Numbered`), so
the numbers of all are `0, 1, …`, and each remainder has its share of them, whatever the
number of shards is. No shard is used by more threads than one is meant for while there
are no more threads than are counted on.
-/

namespace Netspy

/-- How often a remainder occurs below `n`. -/
theorem countP_range_mod {k c : Nat} (hc : c < k) (n : Nat) :
    (List.range n).countP (fun i => i % k = c) = n / k + if c < n % k then 1 else 0 := by
  have h := Nat.count_modEq_card n (Nat.zero_lt_of_lt hc) c
  rw [Nat.mod_eq_of_lt hc] at h
  rw [← h, Nat.count]
  refine List.countP_congr fun i _ => ?_
  simp only [decide_eq_true_eq, Nat.ModEq, Nat.mod_eq_of_lt hc]

namespace Shards

variable {s t : Shards} {a : ShardAct}

structure Numbered (s : Shards) : Prop where
  counter : s.counter = s.threads.length
  idx : ∀ i k, s.idx i = some k ↔ s.threads[k]? = some i
  nodup : s.threads.Nodup

/-- A thread without a number is not among those that have one. -/
theorem Numbered.notMem (h : Numbered s) {i : Nat} (hi : s.idx i = none) : i ∉ s.threads := fun hm => by
  obtain ⟨k, hk⟩ := List.mem_iff_getElem?.mp hm
  rw [(h.idx i k).mpr hk] at hi
  cases hi

theorem Numbered.draw (h : Numbered s) (i shards : Nat) : Numbered (s.draw i shards) := by
  unfold Shards.draw
  split
  next => exact h
  split
  next => exact h
  next hi =>
    refine { counter := ?_, idx := ?_, nodup := ?_ }
    · rw [List.length_append, h.counter, List.length_singleton]
    · intro j k
      show Function.update s.idx i (some s.counter) j = some k ↔ (s.threads ++ [i])[k]? = some j
      by_cases hj : j = i
      · subst hj
        rw [Function.update_self, h.counter, Option.some.injEq]
        refine ⟨fun hk => hk ▸ List.getElem?_concat_length, fun hk => ?_⟩
        rcases Nat.lt_or_ge k s.threads.length with hlt | hge
        · rw [List.getElem?_append_left hlt] at hk
          exact absurd (List.mem_of_getElem? hk) (h.notMem hi)
        · have hlt := (List.getElem?_eq_some_iff.mp hk).1
          rw [List.length_append, List.length_singleton] at hlt
          omega
      · rw [Function.update_of_ne hj, h.idx]
        rcases Nat.lt_or_ge k s.threads.length with hlt | hge
        · rw [List.getElem?_append_left hlt]
        · rw [List.getElem?_eq_none hge, List.getElem?_append_right hge]
          refine ⟨fun hk => absurd hk (by simp), fun hk => ?_⟩
          exact absurd (List.mem_singleton.mp (List.mem_of_getElem? hk)) hj
    · refine List.nodup_append.mpr ⟨h.nodup, List.nodup_singleton i, fun j hj j' hj' he => ?_⟩
      rw [List.mem_singleton] at hj'
      rw [he, hj'] at hj
      exact h.notMem hi hj

/-- What is counted on, or is about to be, was told. -/
structure Told (s : Shards) : Prop where
  value : ∀ n ∈ s.concurrency, n ∈ s.told
  calls : ∀ i n, s.setting i = some (.known n) ∨ s.setting i = some (.writing n) → n ∈ s.told

/-- What a step of `set_effective_concurrency` does. -/
theorem setting_cases (h : machine.step s a = some t) :
    (∃ i shards, a = .shardIndex i shards ∧ t = s.draw i shards) ∨
      t.counter = s.counter ∧ t.idx = s.idx ∧ t.threads = s.threads ∧ (Told s → Told t) := by
  cases a with
  | shardIndex i shards =>
    cases h
    exact .inl ⟨i, shards, rfl, rfl⟩
  | reset =>
    cases h
    exact .inr ⟨rfl, rfl, rfl, fun ht => ⟨nofun, ht.calls⟩⟩
  | setEffectiveConcurrency i n =>
    refine .inr ?_
    simp only [machine, step, Shards.setEffectiveConcurrency] at h
    split at h
    · cases h
    · cases h
      refine ⟨rfl, rfl, rfl, fun ht => ⟨fun m hm => List.mem_append_left _ (ht.value m hm), fun j m hj => ?_⟩⟩
      by_cases hji : j = i
      · subst hji
        refine List.mem_append_right _ ?_
        simp only [setCall, Function.update_self, Option.some.injEq] at hj
        split at hj
        · simpa [eq_comm] using hj
        · simpa [eq_comm] using hj
      · simp only [setCall, Function.update_of_ne hji] at hj
        exact List.mem_append_left _ (ht.calls j m hj)
  | readConcurrency i =>
    refine .inr ?_
    simp only [machine, step, Shards.readConcurrency] at h
    split at h
    · rename_i n m hi hm
      cases h
      refine ⟨rfl, rfl, rfl, fun ht => ⟨ht.value, fun j k hj => ?_⟩⟩
      by_cases hji : j = i
      · subst hji
        simp only [setCall, Function.update_self, Option.some.injEq, ConcurrencyCall.writing.injEq, reduceCtorEq,
          false_or] at hj
        show k ∈ s.told
        rw [← hj]
        rcases max_choice m n with he | he
        · rw [he]
          exact ht.value m hm
        · rw [he]
          exact ht.calls j n (.inl hi)
      · simp only [setCall, Function.update_of_ne hji] at hj
        exact ht.calls j k hj
    · cases h
      refine ⟨rfl, rfl, rfl, fun ht => ⟨ht.value, fun j k hj => ?_⟩⟩
      by_cases hji : j = i
      · subst hji
        simp [setCall] at hj
      · simp only [setCall, Function.update_of_ne hji] at hj
        exact ht.calls j k hj
    · cases h
  | writeConcurrency i =>
    refine .inr ?_
    simp only [machine, step, Shards.writeConcurrency] at h
    split at h
    · rename_i n hi
      cases h
      refine ⟨rfl, rfl, rfl, fun ht => ⟨fun m hm => ?_, fun j k hj => ?_⟩⟩
      · cases hm
        exact ht.calls i n (.inr hi)
      · by_cases hji : j = i
        · subst hji
          simp [setCall] at hj
        · simp only [setCall, Function.update_of_ne hji] at hj
          exact ht.calls j k hj
    · cases h

theorem told_draw (h : Told s) (i shards : Nat) : Told (s.draw i shards) := by
  unfold Shards.draw
  split
  next => exact h
  split
  next => exact h
  next => exact ⟨h.value, h.calls⟩

theorem numbered (h : machine.Reachable s) : Numbered s ∧ Told s := by
  refine Machine.Within.induct (I := fun s => Numbered s ∧ Told s) (fun s hs => ?_) (fun s a t hs _ ht => ?_) h
  · rw [show s = _ from hs]
    exact ⟨⟨rfl, by simp, List.nodup_nil⟩, ⟨nofun, by simp⟩⟩
  · obtain ⟨hn, ht'⟩ := hs
    rcases setting_cases ht with ⟨i, shards, -, rfl⟩ | ⟨hcounter, hidx, hthreads, htold⟩
    · exact ⟨hn.draw i shards, told_draw ht' i shards⟩
    · exact ⟨⟨by rw [hcounter, hthreads, hn.counter], by rw [hidx, hthreads]; exact hn.idx, hthreads ▸ hn.nodup⟩, htold ht'⟩

/-- A thread keeps its number. -/
theorem idx_step {i k : Nat} (hi : s.idx i = some k) (h : machine.step s a = some t) : t.idx i = some k := by
  rcases setting_cases h with ⟨j, shards, -, rfl⟩ | ⟨-, hidx, -, -⟩
  · unfold draw
    split
    next => exact hi
    split
    next => exact hi
    next hj =>
      have hne : i ≠ j := by
        rintro rfl
        rw [hi] at hj
        cases hj
      show Function.update s.idx j (some s.counter) i = some k
      rw [Function.update_of_ne hne, hi]
  · rwa [hidx]

theorem idx_exec {i k : Nat} (hi : s.idx i = some k) {as : List ShardAct} (h : machine.exec s as = some t) :
    t.idx i = some k := by
  induction as generalizing s with
  | nil =>
    cases h
    exact hi
  | cons a as ih =>
    obtain ⟨u, hu, h⟩ := Option.bind_eq_some_iff.mp h
    exact ih (idx_step hi hu) h

theorem Numbered.map_idx (h : Numbered s) : (s.threads.map fun i => (s.idx i).getD 0) = List.range s.threads.length := by
  refine List.ext_getElem? fun k => ?_
  rw [List.getElem?_map]
  rcases Nat.lt_or_ge k s.threads.length with hlt | hge
  · rw [List.getElem?_range hlt, List.getElem?_eq_getElem hlt, Option.map_some,
      (h.idx _ k).mpr (List.getElem?_eq_getElem hlt), Option.getD_some]
  · rw [List.getElem?_eq_none hge, List.getElem?_eq_none (by simpa using hge), Option.map_none]

/-- Each shard has its share of the threads. -/
theorem Numbered.length_onShard (h : Numbered s) {shards c : Nat} (hc : c < shards) :
    (s.onShard shards c).length = s.threads.length / shards + if c < s.threads.length % shards then 1 else 0 := by
  rw [← countP_range_mod hc, ← h.map_idx, List.countP_map, onShard, ← List.countP_eq_length_filter]
  refine List.countP_congr fun i _ => ?_
  simp only [shardOf, Netspy.shardIndex, decide_eq_true_eq, Function.comp_apply]
  split
  next hle =>
    obtain rfl : shards = 1 := by omega
    rw [Nat.mod_one, decide_eq_true_eq]
  next => rw [decide_eq_true_eq]

/-- With so many shards there is room for all threads. -/
theorem le_mul_shardCount {n perShard : Nat} (hp : 0 < perShard) : max n 1 ≤ perShard * shardCount n perShard := by
  rw [shardCount, if_neg hp.ne']
  refine le_trans ?_ (Nat.mul_le_mul_left perShard (le_max_right 1 _))
  have h := Nat.div_add_mod (max n 1 + perShard - 1) perShard
  have hlt := Nat.mod_lt (max n 1 + perShard - 1) hp
  omega

theorem shardOf_lt (s : Shards) (i : Nat) {shards : Nat} (h : 1 ≤ shards) : s.shardOf i shards < shards := by
  unfold shardOf Netspy.shardIndex
  split
  next => exact h
  next => exact Nat.mod_lt _ h

/-- No share is above the average, rounded up. -/
theorem Numbered.length_onShard_le (h : Numbered s) {shards bound : Nat} (hone : 1 ≤ shards)
    (hle : s.threads.length ≤ bound * shards) (c : Nat) : (s.onShard shards c).length ≤ bound := by
  rcases Nat.lt_or_ge c shards with hc | hc
  · rw [h.length_onShard hc]
    split
    next hlt =>
      have hne : s.threads.length ≠ bound * shards := fun he => by
        rw [he, Nat.mul_mod_left] at hlt
        exact Nat.not_lt_zero c hlt
      exact Nat.succ_le_of_lt ((Nat.div_lt_iff_lt_mul hone).mpr (lt_of_le_of_ne hle hne))
    next => exact Nat.div_le_of_le_mul (by rwa [Nat.mul_comm] at hle)
  · have hnil : s.onShard shards c = [] := by
      refine List.filter_eq_nil_iff.mpr fun i _ => ?_
      have hlt := s.shardOf_lt i hone
      simp only [decide_eq_true_eq]
      omega
    rw [hnil]
    exact Nat.zero_le bound

/-- In every run a thread keeps its number, and with it its shard as long as it asks for
one of as many, and of all threads that ever asked for a shard each one of `shards` has its
share. What is counted on is a number that a scheduler told, or the setting. While there
are at most `m` times so many threads, no shard has more than `m` times those that it is
meant for. -/
theorem shards_even {s : Shards} (h : machine.Reachable s) :
    (∀ i k as t, s.idx i = some k → machine.exec s as = some t →
        t.idx i = some k ∧ ∀ shards, t.shardOf i shards = s.shardOf i shards) ∧
      (∀ shards c, c < shards → (s.onShard shards c).length =
        s.threads.length / shards + if c < s.threads.length % shards then 1 else 0) ∧
      (s.concurrency = none ∨ ∃ n ∈ s.told, s.concurrency = some n) ∧
      ∀ perShard m c, 0 < perShard → s.threads.length ≤ m * s.effectiveConcurrency →
        (s.onShard (shardCount s.effectiveConcurrency perShard) c).length ≤ m * perShard := by
  obtain ⟨hn, ht⟩ := numbered h
  refine ⟨fun i k as t hi he => ?_, fun shards c hc => hn.length_onShard hc, ?_, fun perShard m c hp hle => ?_⟩
  · have hk := idx_exec hi he
    exact ⟨hk, fun shards => by rw [shardOf, shardOf, hk, hi]⟩
  · cases hc : s.concurrency with
    | none => exact .inl rfl
    | some n => exact .inr ⟨n, ht.value n hc, rfl⟩
  · have hone : 1 ≤ shardCount s.effectiveConcurrency perShard := by
      rw [shardCount, if_neg hp.ne']
      exact le_max_left 1 _
    refine hn.length_onShard_le hone ?_ c
    calc s.threads.length ≤ m * s.effectiveConcurrency := hle
      _ ≤ m * (perShard * shardCount s.effectiveConcurrency perShard) :=
        Nat.mul_le_mul_left m ((le_max_left _ 1).trans (le_mul_shardCount hp))
      _ = m * perShard * shardCount s.effectiveConcurrency perShard := (Nat.mul_assoc m perShard _).symm

/-- Five workers of a spider that was told to have them, with two for each shard. Another
one tells of three at the same time. -/
def fiveWorkers : List ShardAct :=
  [.setEffectiveConcurrency 0 5, .setEffectiveConcurrency 1 3, .writeConcurrency 1, .writeConcurrency 0,
    .setEffectiveConcurrency 1 4, .readConcurrency 1, .writeConcurrency 1, .shardIndex 10 3, .shardIndex 11 3,
    .shardIndex 10 3, .shardIndex 12 3, .shardIndex 13 3, .shardIndex 14 3]

theorem fiveWorkers_ran : (machine.exec { SPIDER_THREAD_COUNT := 4 } fiveWorkers).map (fun s =>
    (s.threads, s.onShard 3 0, s.effectiveConcurrency)) = some ([10, 11, 12, 13, 14], [10, 13], 5) := by
  decide

theorem shards_even_fiveWorkers : ∃ s, machine.exec { SPIDER_THREAD_COUNT := 4 } fiveWorkers = some s ∧
    (s.onShard (shardCount s.effectiveConcurrency 2) 1).length ≤ 1 * 2 := by
  obtain ⟨s, he, hs⟩ := Option.map_eq_some_iff.mp fiveWorkers_ran
  have hr : machine.Reachable s :=
    Machine.Reachable.exec (.start (show machine.start { SPIDER_THREAD_COUNT := 4 } from rfl)) he
  have hthreads : s.threads = [10, 11, 12, 13, 14] := congrArg Prod.fst hs
  have hconc : s.effectiveConcurrency = 5 := congrArg (fun x => x.2.2) hs
  exact ⟨s, he, (shards_even hr).2.2.2 2 1 1 (by decide) (by rw [hthreads, hconc]; decide)⟩

end Shards

end Netspy
