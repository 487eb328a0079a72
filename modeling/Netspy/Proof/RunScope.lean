import Netspy.Framework.Past
import Netspy.Impl.RunScope

/-!
# Which keys of a run expire

When the last node has left through `_on_shutdown`, all keys that are there have a TTL, but
for two kinds: the staging list of a node that was killed while it had one without a TTL,
and the heartbeats, if the `EXPIRE` after the `HSET` that made them has not come
(`keysExpire_iff`). While a node beats at intervals below `RUN_TTL`, those three keys may
expire that are not touched: heartbeats, a seed lock that nobody has touched yet, and the
staging list of a killed node.

What a step does to a key is stated first, for each kind of key. `Placed` says which
filters and staging lists there are, `Dated` what each deadline was computed from.
-/

namespace Netspy

variable {ν : Type} {st : RunSetting}

/-- The keys that the threads write. -/
def RunKey.isData : RunKey ν → Prop
  | .queue | .inflight | .failed | .filter _ => True
  | _ => False

/-- The phases after `_on_start`. -/
def RunPhase.started : RunPhase → Bool
  | running | stopped | pushingBack | left | gone => true
  | _ => false

namespace RunSetting

theorem addedKeys_subset {name : String} {top : Nat} (h : top < st.maxLayers) :
    st.addedKeys name top ⊆ st.redisKeys name := by
  unfold addedKeys redisKeys
  split
  · exact List.Subset.refl _
  · exact List.Subset.refl _
  · intro key hkey
    simp only [List.mem_cons, List.not_mem_nil, or_false] at hkey
    rcases hkey with rfl | rfl
    · exact List.mem_cons_of_mem _ (List.mem_map_of_mem (List.mem_range.mpr h))
    · exact List.mem_cons_self
  · exact List.Subset.refl _

theorem heartbeat_not_mem (n : ν) : RunKey.heartbeat ∉ st.runKeys n := by simp [runKeys]

theorem staging_mem {m n : ν} : RunKey.staging m ∈ st.runKeys n ↔ m = n := by simp [runKeys]

theorem filter_mem {n : ν} {name : String} :
    RunKey.filter name ∈ st.runKeys n ↔ name ∈ st.dedups.flatMap st.redisKeys := by
  simp [runKeys]

theorem seedLock_mem (n : ν) : RunKey.seedLock ∈ st.runKeys n := by simp [runKeys]

end RunSetting

namespace RunWork

variable {ks : Keyspace (RunKey ν)} {k : RunKey ν} {w : RunWork}

theorem isData_of_mem_adds (h : k ∈ w.adds st) : k.isData := by
  cases w with
  | add dedup top =>
    obtain ⟨name, -, rfl⟩ := List.mem_map.mp h
    trivial
  | pop | done => exact absurd h List.not_mem_nil
  | put | take | lease | reclaimExpired | onFailedRequest =>
    obtain rfl := List.mem_singleton.mp h
    trivial

theorem isData_of_empties (h : w.empties = some k) : k.isData := by
  unfold empties at h
  split at h <;> cases h <;> trivial

variable [DecidableEq ν]

theorem call_of_empties {k' : RunKey ν} (h : w.empties = some k') : w.call st ks = (ks.write (w.adds st)).delete k' := by
  unfold call
  rw [h]

theorem call_of_not_empties (h : (w.empties : Option (RunKey ν)) = none) : w.call st ks = ks.write (w.adds st) := by
  unfold call
  rw [h]

theorem call_of_not_isData (h : ¬ k.isData) : w.call st ks k = ks k := by
  have hadds : k ∉ w.adds st := fun hk => h (isData_of_mem_adds hk)
  cases he : (w.empties : Option (RunKey ν)) with
  | none => rw [call_of_not_empties he, Keyspace.write_of_not_mem hadds]
  | some k' =>
    have hne : k ≠ k' := fun hk => h (hk ▸ isData_of_empties he)
    rw [call_of_empties he, Keyspace.delete_of_ne hne, Keyspace.write_of_not_mem hadds]

/-- What is there after a call was written. -/
theorem write_of_call {x : Option Nat} (h : w.call st ks k = some x) : ks.write (w.adds st) k = some x := by
  cases he : (w.empties : Option (RunKey ν)) with
  | none => rwa [call_of_not_empties he] at h
  | some k' =>
    rw [call_of_empties he] at h
    exact (Keyspace.delete_eq_some.mp h).2

/-- No such call makes a deadline. -/
theorem call_deadline {t : Nat} (h : w.call st ks k = some (some t)) : ks k = some (some t) :=
  Keyspace.write_deadline.mp (write_of_call h)

omit [DecidableEq ν] in
/-- The keys of filters that a call writes are those of `redis_keys`. -/
theorem filter_of_mem_adds {name : String} (hw : w.possible st ks = true)
    (h : (RunKey.filter name : RunKey ν) ∈ w.adds st) : name ∈ st.dedups.flatMap st.redisKeys := by
  cases w with
  | add dedup top =>
    obtain ⟨hd, ht⟩ := of_decide_eq_true hw
    obtain ⟨_, hn, ⟨⟩⟩ := List.mem_map.mp h
    exact List.mem_flatMap.mpr ⟨dedup, hd, RunSetting.addedKeys_subset ht hn⟩
  | put | take | pop | lease | done | reclaimExpired | onFailedRequest => simp [adds] at h

end RunWork

namespace RunScope

variable [DecidableEq ν] {s t u : RunScope ν} {m n : ν} {a : NodeStep}

theorem step_act_iff :
    step st s (.act n a) = some t ↔ (s.nodes n).main ≠ .gone ∧ ∃ nd, s.next st (s.nodes n) a = some nd ∧
      t = { s with
        keys := s.call st n a, beating := s.fields n a
        nodes := Function.update s.nodes n nd, times := s.record n a } := by
  simp only [step]
  split
  · simp_all
  · simp_all [eq_comm]

/-! ## What a step does to the keys -/

theorem touch_of_ne (h : st.RUN_ID ≠ "") : s.touch st n = s.keys.expire (st.runKeys n) (s.now + st.RUN_TTL) :=
  if_neg h

theorem touch_of_not_mem {k : RunKey ν} (h : k ∉ st.runKeys n) : s.touch st n k = s.keys k := by
  unfold touch
  split
  · rfl
  · exact Keyspace.expire_of_not_mem h

theorem touch_eq_none {k : RunKey ν} : s.touch st n k = none ↔ s.keys k = none := by
  unfold touch
  split
  · rfl
  · exact Keyspace.expire_eq_none

/-- The keys that no step but those for them concerns. -/
theorem call_frame {k : RunKey ν} (hdata : ¬ k.isData) (hlock : k ≠ .seedLock) (hst : k ≠ .staging n)
    (hset : a = .hset → k ≠ .heartbeat) (hexp : a = .expire → k ≠ .heartbeat)
    (hdel : a = .hdel → k ≠ .heartbeat) : s.call st n a k = s.keys k := by
  have hfailed : k ≠ .failed := fun he => hdata (he ▸ trivial)
  cases a with
  | acquireOnce => exact Keyspace.setNx_of_ne hlock
  | rename =>
    rw [call]
    split
    · exact Keyspace.rename_of_ne hfailed hst
    · rfl
  | deleteStaging => exact Keyspace.delete_of_ne hst
  | onStart | touch | leave =>
    apply touch_of_not_mem
    cases k with
    | heartbeat => exact RunSetting.heartbeat_not_mem n
    | staging m => exact fun hm => hst (RunSetting.staging_mem.mp hm ▸ rfl)
    | seedLock => exact absurd rfl hlock
    | _ => exact absurd trivial hdata
  | hset => exact Keyspace.write_of_not_mem (by simpa using hset rfl)
  | expire => exact Keyspace.expire_of_not_mem (by simpa using hexp rfl)
  | hdel =>
    rw [call]
    split
    · exact Keyspace.delete_of_ne (hdel rfl)
    · rfl
  | work w => exact RunWork.call_of_not_isData hdata
  | checkQueue | seedNothing | wake | stopBeat | kill => rfl

/-- A node leaves the staging lists of the others. -/
theorem call_staging_of_ne (h : m ≠ n) : s.call st n a (.staging m) = s.keys (.staging m) :=
  call_frame (by simp [RunKey.isData]) (by simp) (by simpa) (by simp) (by simp) (by simp)

/-- The keys that a step makes. -/
def Makes (st : RunSetting) (s : RunScope ν) (n : ν) : NodeStep → RunKey ν → Prop
  | .acquireOnce, k => k = .seedLock
  | .rename, k => s.hasFailed = true ∧ k = .staging n
  | .hset, k => k = .heartbeat
  | .work w, k => k ∈ w.adds st
  | _, _ => False

theorem call_ne_none {k : RunKey ν} (h : s.call st n a k ≠ none) : s.keys k ≠ none ∨ Makes st s n a k := by
  rw [or_iff_not_imp_right]
  intro hmake
  cases a with
  | acquireOnce => rwa [call, Keyspace.setNx_of_ne hmake] at h
  | rename =>
    rw [call] at h
    split at h
    · rename_i hf
      have hst : k ≠ .staging n := fun hk => hmake ⟨hf, hk⟩
      by_cases hk : k = .failed
      · subst hk
        exact absurd (Keyspace.rename_self hst).1 h
      · rwa [Keyspace.rename_of_ne hk hst] at h
    · exact h
  | deleteStaging =>
    obtain ⟨x, hx⟩ := Option.ne_none_iff_exists'.mp h
    rw [(Keyspace.delete_eq_some.mp hx).2]
    exact Option.some_ne_none x
  | onStart | touch | leave => exact fun hn => h (touch_eq_none.mpr hn)
  | hset => exact fun hn => h (Keyspace.write_eq_none.mpr ⟨fun hk => hmake (List.mem_singleton.mp hk), hn⟩)
  | expire => exact fun hn => h (Keyspace.expire_eq_none.mpr hn)
  | hdel =>
    rw [call] at h
    split at h
    · obtain ⟨x, hx⟩ := Option.ne_none_iff_exists'.mp h
      rw [(Keyspace.delete_eq_some.mp hx).2]
      exact Option.some_ne_none x
    · exact h
  | work w =>
    obtain ⟨x, hx⟩ := Option.ne_none_iff_exists'.mp h
    have hwrite := RunWork.write_of_call hx
    rw [Keyspace.write_of_not_mem hmake] at hwrite
    rw [hwrite]
    exact Option.some_ne_none x
  | checkQueue | seedNothing | wake | stopBeat | kill => exact h

omit [DecidableEq ν] in
theorem tick_untimed {d : Nat} {k : RunKey ν} : (s.tick d).keys k = some none ↔ s.keys k = some none := by
  simp [tick, Keyspace.elapse_eq_some]

/-! ## The heartbeats -/

/-- An `HSET` makes the heartbeats. -/
def MakesBeats (s : RunScope ν) (a : RunAct ν) : Prop := ∃ n, a = .act n .hset ∧ s.keys .heartbeat = none

/-- The `EXPIRE` of a beat, or the `HDEL` of the last field. -/
def SettlesBeats (s : RunScope ν) (a : RunAct ν) : Prop :=
  ∃ n, a = .act n .expire ∨ a = .act n .hdel ∧ s.beating.erase n = []

theorem call_heartbeat : s.call st n a .heartbeat = some none ↔
    MakesBeats s (.act n a) ∨ s.keys .heartbeat = some none ∧ ¬ SettlesBeats s (.act n a) := by
  by_cases hset : a = .hset
  · subst hset
    rw [call, Keyspace.write_of_mem (List.mem_singleton.mpr rfl)]
    cases hk : s.keys .heartbeat with
    | none => simp [MakesBeats, hk]
    | some x => simp [MakesBeats, SettlesBeats, hk]
  by_cases hexp : a = .expire
  · subst hexp
    rw [call, Keyspace.expire_of_mem (List.mem_singleton.mpr rfl)]
    simp [MakesBeats, SettlesBeats]
  by_cases hdel : a = .hdel
  · subst hdel
    have hsettles : SettlesBeats s (.act n .hdel) ↔ s.beating.erase n = [] := by
      constructor
      · rintro ⟨m, h | ⟨h, hnil⟩⟩
        · cases h
        · cases h
          exact hnil
      · exact fun hnil => ⟨n, .inr ⟨rfl, hnil⟩⟩
    rw [call, hsettles]
    split
    · rw [Keyspace.delete_self]
      simp [MakesBeats, *]
    · simp only [MakesBeats, *]
      simp
  have hframe : s.call st n a .heartbeat = s.keys .heartbeat :=
    call_frame (by simp [RunKey.isData]) (by simp) (by simp) (absurd · hset) (absurd · hexp) (absurd · hdel)
  simp [MakesBeats, SettlesBeats, hframe, hset, hexp, hdel]

/-- Heartbeats without a TTL were made by an `HSET` whose `EXPIRE` has not come. -/
theorem heartbeat_iff {as : List (RunAct ν)} (he : (machine st).exec {} as = some u) :
    (machine st).Since MakesBeats SettlesBeats {} as ↔ u.keys .heartbeat = some none := by
  apply Machine.since_iff_of_step (I := fun s : RunScope ν => s.keys .heartbeat = some none) (by simp) _ he
  intro s a t hst
  cases a with
  | tick d =>
    cases hst
    simp [tick_untimed, MakesBeats, SettlesBeats]
  | act n a =>
    obtain ⟨-, nd, -, rfl⟩ := step_act_iff.mp hst
    exact call_heartbeat

/-! ## The staging lists -/

/-- A process that is killed has no staging list without a TTL. -/
def StagingTimed (s : RunScope ν) (a : RunAct ν) : Prop := ∀ n, a = .act n .kill → s.keys (.staging n) ≠ some none

omit [DecidableEq ν] in
theorem next_gone {nd nd' : RunNode} (hn : nd.main ≠ .gone) (h : s.next st nd a = some nd') :
    nd'.main = .gone ↔ a = .kill := by
  cases a <;> simp only [next] at h <;> split at h <;> cases h <;> simp [hn]
  all_goals split <;> simp

theorem staging_iff {as : List (RunAct ν)} (he : (machine st).exec {} as = some u) :
    (machine st).Meets StagingTimed {} as ↔ ∀ n, (u.nodes n).main = .gone → u.keys (.staging n) ≠ some none := by
  apply Machine.meets_iff_of_step
    (I := fun s : RunScope ν => ∀ n, (s.nodes n).main = .gone → s.keys (.staging n) ≠ some none) (by simp) _ he
  intro s a t hst
  cases a with
  | tick d =>
    cases hst
    simp only [StagingTimed, reduceCtorEq, false_implies, implies_true, and_true]
    exact forall_congr' fun n => imp_congr_right fun _ => not_congr tick_untimed
  | act n a =>
    obtain ⟨hn, nd, hnext, rfl⟩ := step_act_iff.mp hst
    have hgone := next_gone hn hnext
    constructor
    · intro h
      constructor
      · intro m hm
        have hmn : m ≠ n := fun he => hn (he ▸ hm)
        have hm' := h m
        dsimp only at hm'
        rw [Function.update_of_ne hmn, call_staging_of_ne hmn] at hm'
        exact hm' hm
      · rintro _ ⟨⟩
        have hn' := h n
        dsimp only at hn'
        rw [Function.update_self] at hn'
        exact hn' (hgone.mpr rfl)
    · rintro ⟨h, hkill⟩ m hm
      dsimp only at hm ⊢
      by_cases hmn : m = n
      · subst hmn
        rw [Function.update_self] at hm
        obtain rfl := hgone.mp hm
        exact hkill m rfl
      · rw [Function.update_of_ne hmn] at hm
        rw [call_staging_of_ne hmn]
        exact h m hm

/-! ## Which filters and staging lists there are -/

structure Placed (st : RunSetting) (s : RunScope ν) : Prop where
  filter : ∀ {name}, s.keys (.filter name) ≠ none → name ∈ st.dedups.flatMap st.redisKeys
  staging : ∀ {n}, s.keys (.staging n) ≠ none → (∃ k, (s.nodes n).main = .replaying k) ∨ (s.nodes n).main = .gone
  beat : ∀ {n}, (s.nodes n).beat ≠ .off → (s.nodes n).main.started = true

omit [DecidableEq ν] in
theorem Placed.init : Placed st ({} : RunScope ν) :=
  ⟨fun h => absurd rfl h, fun h => absurd rfl h, fun h => absurd rfl h⟩

omit [DecidableEq ν] in
theorem Placed.tick (h : Placed st s) (d : Nat) : Placed st (s.tick d) := by
  have hkey {k : RunKey ν} (hk : (s.tick d).keys k ≠ none) : s.keys k ≠ none := by
    obtain ⟨x, hx⟩ := Option.ne_none_iff_exists'.mp hk
    rw [(Keyspace.elapse_eq_some.mp hx).1]
    exact Option.some_ne_none x
  exact ⟨fun hk => h.filter (hkey hk), fun hk => h.staging (hkey hk), h.beat⟩

omit [DecidableEq ν] in
theorem next_beat {nd nd' : RunNode} (hnext : s.next st nd a = some nd')
    (h : nd.beat ≠ .off → nd.main.started = true) (hb : nd'.beat ≠ .off) : nd'.main.started = true := by
  cases a with
  | acquireOnce | checkQueue | seedNothing | rename | deleteStaging | onStart | wake | hset | expire | touch
  | stopBeat | hdel | leave | kill | work =>
    simp only [next] at hnext
    split at hnext
    all_goals cases hnext
    all_goals simp_all [RunPhase.started]

omit [DecidableEq ν] in
/-- While it replays, a node has no other threads. -/
theorem next_replaying {nd nd' : RunNode} {k : Nat} (hnext : s.next st nd a = some nd') (hm : nd.main = .replaying k)
    (hb : nd.beat = .off) : a = .deleteStaging ∨ nd'.main = .replaying k ∨ nd'.main = .gone := by
  cases a with
  | deleteStaging => exact .inl rfl
  | kill =>
    obtain rfl : { nd with main := .gone } = nd' := by simpa [next, hm] using hnext
    exact .inr (.inr rfl)
  | work w =>
    obtain ⟨-, rfl⟩ : _ ∧ nd = nd' := by simpa [next] using hnext
    exact .inr (.inl hm)
  | acquireOnce | checkQueue | seedNothing | rename | onStart | wake | hset | expire | touch | stopBeat | hdel | leave =>
    simp [next, hm, hb] at hnext

omit [DecidableEq ν] in
theorem Placed.beat_off (h : Placed st s) {k : Nat} (hm : (s.nodes n).main = .replaying k) :
    (s.nodes n).beat = .off := by
  by_contra hb
  have hphase := h.beat hb
  simp [hm, RunPhase.started] at hphase

theorem Placed.step (h : Placed st s) {b : RunAct ν} (hst : step st s b = some t) : Placed st t := by
  cases b with
  | tick d =>
    cases hst
    exact h.tick d
  | act n a =>
    obtain ⟨hn, nd, hnext, rfl⟩ := step_act_iff.mp hst
    refine ⟨?_, ?_, ?_⟩
    · intro name hk
      rcases call_ne_none hk with hk | hk
      · exact h.filter hk
      · cases a with
        | work w =>
          simp only [next] at hnext
          split at hnext
          · rename_i hw
            exact RunWork.filter_of_mem_adds (Bool.and_eq_true_iff.mp hw).2 hk
          · cases hnext
        | rename => cases hk.2
        | _ => cases hk
    · intro m hk
      dsimp only at hk ⊢
      by_cases hmn : m = n
      · subst hmn
        rw [Function.update_self]
        rcases call_ne_none hk with hold | hnew
        · obtain ⟨k, hm⟩ := (h.staging hold).resolve_right hn
          rcases next_replaying hnext hm (h.beat_off hm) with rfl | hr | hg
          · exact absurd Keyspace.delete_self hk
          · exact .inl ⟨k, hr⟩
          · exact .inr hg
        · have hrename : a = .rename ∧ s.hasFailed = true := by
            cases a with
            | rename => exact ⟨rfl, hnew.1⟩
            | work w => exact (RunWork.isData_of_mem_adds hnew).elim
            | _ => cases hnew
          obtain ⟨rfl, hf⟩ := hrename
          simp only [next, hf] at hnext
          split at hnext
          · cases hnext
            exact .inl ⟨_, rfl⟩
          · cases hnext
      · rw [call_staging_of_ne hmn] at hk
        rw [Function.update_of_ne hmn]
        exact h.staging hk
    · intro m
      dsimp only
      by_cases hmn : m = n
      · subst hmn
        rw [Function.update_self]
        exact next_beat hnext h.beat
      · rw [Function.update_of_ne hmn]
        exact h.beat

/-! ## What the deadlines were computed from -/

structure Dated (st : RunSetting) (now : Nat) (keys : Keyspace (RunKey ν)) (times : RunTimes ν) : Prop where
  data : ∀ {k t}, k.isData → keys k = some (some t) → t = times.touchedAt + st.RUN_TTL
  lock : ∀ {x}, keys .seedLock = some x → x = some (match times.lockedAt with
    | some τ => τ + st.SPIDER_SEED_LOCK_TTL
    | none => times.touchedAt + st.RUN_TTL)
  heartbeat : ∀ {t}, keys .heartbeat = some (some t) → t = times.beatAt + st.beatTtl
  staging : ∀ {n t}, keys (.staging n) = some (some t) → t = times.stagedAt n + st.RUN_TTL
  touchedBy : ∀ {n τ}, times.touchedBy n = some τ → τ ≤ times.touchedAt
  touchedAt : times.touchedAt ≤ now

omit [DecidableEq ν] in
theorem Dated.init : Dated st 0 (fun _ => none : Keyspace (RunKey ν)) {} :=
  ⟨nofun, nofun, nofun, nofun, nofun, Nat.le_refl 0⟩

omit [DecidableEq ν] in
theorem Dated.tick (h : Dated st s.now s.keys s.times) (d : Nat) :
    Dated st (s.now + d) (s.keys.elapse (s.now + d)) s.times where
  data hk ht := h.data hk (Keyspace.elapse_eq_some.mp ht).1
  lock ht := h.lock (Keyspace.elapse_eq_some.mp ht).1
  heartbeat ht := h.heartbeat (Keyspace.elapse_eq_some.mp ht).1
  staging ht := h.staging (Keyspace.elapse_eq_some.mp ht).1
  touchedBy := h.touchedBy
  touchedAt := Nat.le_trans h.touchedAt (Nat.le_add_right ..)

omit [DecidableEq ν] in
/-- Other keys, none of which has a new deadline. -/
theorem Dated.of_keys {now : Nat} {ks ks' : Keyspace (RunKey ν)} {times : RunTimes ν} (h : Dated st now ks times)
    (hdead : ∀ k d, ks' k = some (some d) → ks k = some (some d)) (hlock : ks' .seedLock = ks .seedLock) :
    Dated st now ks' times where
  data hk ht := h.data hk (hdead _ _ ht)
  lock ht := h.lock (hlock ▸ ht)
  heartbeat ht := h.heartbeat (hdead _ _ ht)
  staging ht := h.staging (hdead _ _ ht)
  touchedBy := h.touchedBy
  touchedAt := h.touchedAt

theorem touch_of_mem {k : RunKey ν} {x : Option Nat} (hid : st.RUN_ID ≠ "") (hk : k ∈ st.runKeys n)
    (h : s.touch st n k = some x) : x = some (s.now + st.RUN_TTL) := by
  rw [touch_of_ne hid, Keyspace.expire_of_mem hk] at h
  obtain ⟨_, -, rfl⟩ := Option.map_eq_some_iff.mp h
  rfl

/-- A touch gives its deadline to all keys of threads. -/
theorem Placed.touch_data (h : Placed st s) (hid : st.RUN_ID ≠ "") {k : RunKey ν} {x : Option Nat} (hk : k.isData)
    (ht : s.touch st n k = some x) : x = some (s.now + st.RUN_TTL) := by
  apply touch_of_mem hid _ ht
  cases k with
  | filter name =>
    apply RunSetting.filter_mem.mpr
    apply h.filter
    intro hnone
    rw [touch_eq_none.mpr hnone] at ht
    cases ht
  | queue | inflight | failed => simp [RunSetting.runKeys]
  | seedLock | staging | heartbeat => exact hk.elim

omit [DecidableEq ν] in
/-- A node that touches has no staging list. -/
theorem Placed.no_staging (h : Placed st s) {nd : RunNode} (hn : (s.nodes n).main ≠ .gone)
    (hnext : s.next st (s.nodes n) a = some nd) (ha : a = .onStart ∨ a = .touch ∨ a = .leave) :
    s.keys (.staging n) = none := by
  by_contra hst
  obtain ⟨k, hm⟩ := (h.staging hst).resolve_right hn
  have hb := h.beat_off hm
  rcases ha with rfl | rfl | rfl <;> simp [next, hm, hb] at hnext

theorem Dated.touch (h : Dated st s.now s.keys s.times) (hp : Placed st s) (hid : st.RUN_ID ≠ "")
    (hst : s.keys (.staging n) = none) : Dated st s.now (s.touch st n) (s.record n .touch) where
  data hk ht := Option.some.inj (hp.touch_data hid hk ht)
  lock ht := touch_of_mem hid (RunSetting.seedLock_mem n) ht
  heartbeat ht := by
    rw [touch_of_not_mem (RunSetting.heartbeat_not_mem n)] at ht
    exact h.heartbeat ht
  staging {m} _ ht := by
    have hmn : m ≠ n := by
      rintro rfl
      rw [touch_eq_none.mpr hst] at ht
      cases ht
    rw [touch_of_not_mem (fun hm => hmn (RunSetting.staging_mem.mp hm))] at ht
    exact h.staging ht
  touchedBy {m τ} ht := by
    simp only [record] at ht ⊢
    by_cases hmn : m = n
    · subst hmn
      rw [Function.update_self] at ht
      cases ht
      exact Nat.le_refl _
    · rw [Function.update_of_ne hmn] at ht
      exact Nat.le_trans (h.touchedBy ht) h.touchedAt
  touchedAt := Nat.le_refl _

theorem Dated.acquireOnce (h : Dated st s.now s.keys s.times) :
    Dated st s.now (s.call st n .acquireOnce) (s.record n .acquireOnce) := by
  rw [call, record]
  split
  · rename_i hfree
    have hother {k : RunKey ν} (hk : k ≠ .seedLock) :
        s.keys.setNx .seedLock (s.now + st.SPIDER_SEED_LOCK_TTL) k = s.keys k := Keyspace.setNx_of_ne hk
    constructor
    · intro k t hk ht
      rw [hother (by rintro rfl; exact hk)] at ht
      exact h.data hk ht
    · intro x ht
      rw [Keyspace.setNx_self, if_pos hfree] at ht
      exact (Option.some.inj ht).symm
    · intro t ht
      rw [hother (by simp)] at ht
      exact h.heartbeat ht
    · intro m t ht
      rw [hother (by simp)] at ht
      exact h.staging ht
    · exact h.touchedBy
    · exact h.touchedAt
  · rename_i hheld
    rw [Keyspace.setNx, if_neg hheld]
    exact h

theorem Dated.rename (h : Dated st s.now s.keys s.times) :
    Dated st s.now (s.call st n .rename) (s.record n .rename) := by
  rw [call, record]
  split
  · have hother {k : RunKey ν} (hk : k ≠ .failed) (hst : k ≠ .staging n) :
        s.keys.rename .failed (.staging n) k = s.keys k := Keyspace.rename_of_ne hk hst
    have hself : s.keys.rename .failed (.staging n) .failed = none ∧
        s.keys.rename .failed (.staging n) (.staging n) = s.keys .failed := Keyspace.rename_self (by simp)
    constructor
    · intro k t hk ht
      have hfailed : k ≠ .failed := by
        rintro rfl
        rw [hself.1] at ht
        cases ht
      rw [hother hfailed (by rintro rfl; exact hk)] at ht
      exact h.data hk ht
    · intro x ht
      rw [hother (by simp) (by simp)] at ht
      exact h.lock ht
    · intro t ht
      rw [hother (by simp) (by simp)] at ht
      exact h.heartbeat ht
    · intro m t ht
      dsimp only
      by_cases hmn : m = n
      · subst hmn
        rw [hself.2] at ht
        rw [Function.update_self]
        exact h.data (k := .failed) trivial ht
      · rw [hother (by simp) (by simpa using hmn)] at ht
        rw [Function.update_of_ne hmn]
        exact h.staging ht
    · exact h.touchedBy
    · exact h.touchedAt
  · exact h

theorem Dated.expire (h : Dated st s.now s.keys s.times) :
    Dated st s.now (s.call st n .expire) (s.record n .expire) := by
  have hother {k : RunKey ν} (hk : k ≠ .heartbeat) : s.call st n .expire k = s.keys k :=
    Keyspace.expire_of_not_mem (by simpa using hk)
  constructor
  · intro k t hk ht
    rw [hother (by rintro rfl; exact hk)] at ht
    exact h.data hk ht
  · intro x ht
    rw [hother (by simp)] at ht
    exact h.lock ht
  · intro t ht
    rw [call, Keyspace.expire_of_mem List.mem_cons_self] at ht
    obtain ⟨_, -, ht⟩ := Option.map_eq_some_iff.mp ht
    exact (Option.some.inj ht).symm
  · intro m t ht
    rw [hother (by simp)] at ht
    exact h.staging ht
  · exact h.touchedBy
  · exact h.touchedAt

theorem Dated.call (h : Dated st s.now s.keys s.times) (hp : Placed st s) (hid : st.RUN_ID ≠ "") {nd : RunNode}
    (hn : (s.nodes n).main ≠ .gone) (hnext : s.next st (s.nodes n) a = some nd) :
    Dated st s.now (s.call st n a) (s.record n a) := by
  cases a with
  | onStart | touch | leave => exact h.touch hp hid (hp.no_staging hn hnext (by simp))
  | acquireOnce => exact h.acquireOnce
  | rename => exact h.rename
  | expire => exact h.expire
  | checkQueue | seedNothing | wake | stopBeat | kill => exact h
  | deleteStaging =>
    exact h.of_keys (fun _ _ hd => (Keyspace.delete_eq_some.mp hd).2) (Keyspace.delete_of_ne (by simp))
  | hset => exact h.of_keys (fun _ _ => Keyspace.write_deadline.mp) (Keyspace.write_of_not_mem (by simp))
  | work w =>
    exact h.of_keys (fun _ _ => RunWork.call_deadline) (RunWork.call_of_not_isData (by simp [RunKey.isData]))
  | hdel =>
    rw [RunScope.call]
    split
    · exact h.of_keys (fun _ _ hd => (Keyspace.delete_eq_some.mp hd).2) (Keyspace.delete_of_ne (by simp))
    · exact h

/-! ## The whole run -/

/-- A running node touched the keys less than `RUN_TTL` before. -/
def KeepsBeating (st : RunSetting) (s : RunScope ν) (b : RunAct ν) : Prop :=
  ∀ d, b = .tick d → ∃ n τ, (s.nodes n).main = .running ∧ s.times.touchedBy n = some τ ∧ s.now + d < τ + st.RUN_TTL

def NothingExpires (s : RunScope ν) (b : RunAct ν) : Prop :=
  ∀ d, b = .tick d → ∀ k, s.keys k ≠ none → (s.tick d).keys k ≠ none

/-- The keys that are not touched are there for less than their TTL. -/
def InTime (st : RunSetting) (s : RunScope ν) (b : RunAct ν) : Prop :=
  ∀ d, b = .tick d →
    (s.keys.Timed .heartbeat → s.now + d < s.times.beatAt + st.beatTtl) ∧
    (∀ τ, s.times.lockedAt = some τ → s.keys .seedLock ≠ none → s.now + d < τ + st.SPIDER_SEED_LOCK_TTL) ∧
    ∀ n, s.keys.Timed (.staging n) → s.now + d < s.times.stagedAt n + st.RUN_TTL

theorem sound_step (hid : st.RUN_ID ≠ "") {b : RunAct ν} (h : Placed st s ∧ Dated st s.now s.keys s.times)
    (hst : step st s b = some t) : Placed st t ∧ Dated st t.now t.keys t.times := by
  obtain ⟨hp, hd⟩ := h
  refine ⟨hp.step hst, ?_⟩
  cases b with
  | tick d =>
    cases hst
    exact hd.tick d
  | act n a =>
    obtain ⟨hn, nd, hnext, rfl⟩ := step_act_iff.mp hst
    exact hd.call hp hid hn hnext

theorem sound {as : List (RunAct ν)} (hid : st.RUN_ID ≠ "") (he : (machine st).exec {} as = some u) :
    Placed st u ∧ Dated st u.now u.keys u.times := by
  apply Machine.exec_induct (I := fun _ v => Placed st v ∧ Dated st v.now v.keys v.times) _ _ he
  · exact ⟨Placed.init, Dated.init⟩
  · intro _ b v w _ h hst
    exact sound_step hid h hst

omit [DecidableEq ν] in
theorem nothingExpires_iff {b : RunAct ν} (h : Dated st s.now s.keys s.times) (hbeat : KeepsBeating st s b) :
    NothingExpires s b ↔ InTime st s b := by
  refine forall_congr' fun d => imp_congr_right fun hb => ?_
  obtain ⟨n, τ, -, hτ, hlt⟩ := hbeat d hb
  have htouched : s.now + d < s.times.touchedAt + st.RUN_TTL :=
    Nat.lt_of_lt_of_le hlt (Nat.add_le_add_right (h.touchedBy hτ) _)
  have hstays {k : RunKey ν} (hk : s.keys k ≠ none) : (s.tick d).keys k ≠ none ↔
      ∀ t, s.keys k = some (some t) → s.now + d < t := Keyspace.elapse_ne_none hk
  constructor
  · intro hall
    have hdead {k : RunKey ν} {t : Nat} (hk : s.keys k = some (some t)) : s.now + d < t := by
      have hne : s.keys k ≠ none := by simp [hk]
      exact (hstays hne).mp (hall k hne) t hk
    refine ⟨?_, ?_, ?_⟩
    · rintro ⟨t, ht⟩
      exact h.heartbeat ht ▸ hdead ht
    · intro τ hτ hne
      obtain ⟨x, hx⟩ := Option.ne_none_iff_exists'.mp hne
      have hlock := h.lock hx
      rw [hτ] at hlock
      subst hlock
      exact hdead hx
    · rintro m ⟨t, ht⟩
      exact h.staging ht ▸ hdead ht
  · rintro ⟨hheart, hlock, hstaging⟩ k hk
    refine (hstays hk).mpr fun t ht => ?_
    cases k with
    | heartbeat => exact h.heartbeat ht ▸ hheart ⟨t, ht⟩
    | staging m => exact h.staging ht ▸ hstaging m ⟨t, ht⟩
    | seedLock =>
      have hx := Option.some.inj (h.lock ht)
      cases hτ : s.times.lockedAt with
      | none =>
        rw [hτ] at hx
        exact hx ▸ htouched
      | some τ =>
        rw [hτ] at hx
        exact hx ▸ hlock τ hτ hk
    | queue | inflight | failed | filter => exact h.data (by trivial) ht ▸ htouched

/-- The last node's touch gives a TTL to all keys but the heartbeats and the staging lists of
other nodes. -/
theorem left_timed_iff {as : List (RunAct ν)} (hid : st.RUN_ID ≠ "") (he : (machine st).exec {} as = some u)
    (hst : step st u (.act n .leave) = some t) (hout : t.AllOut) :
    (∀ k, t.keys k ≠ none → t.keys.Timed k) ↔
      (∀ m, (u.nodes m).main = .gone → u.keys (.staging m) ≠ some none) ∧ u.keys .heartbeat ≠ some none := by
  have hp := (sound hid he).1
  have hp' := hp.step hst
  obtain ⟨hn, nd, hnext, rfl⟩ := step_act_iff.mp hst
  have hheart : u.touch st n .heartbeat = u.keys .heartbeat := touch_of_not_mem (RunSetting.heartbeat_not_mem n)
  have hother {m : ν} (hm : m ≠ n) : u.touch st n (.staging m) = u.keys (.staging m) :=
    call_staging_of_ne (a := .leave) hm
  constructor
  · intro hall
    have huntimed (k : RunKey ν) : u.touch st n k ≠ some none := by
      intro hk
      have htimed := Keyspace.timed_iff.mp (hall k (by simp [RunScope.call, hk]))
      exact htimed.2 hk
    constructor
    · intro m hm
      have hmn : m ≠ n := fun he => hn (he ▸ hm)
      exact hother hmn ▸ huntimed (.staging m)
    · exact hheart ▸ huntimed .heartbeat
  · rintro ⟨hstaging, hbeats⟩ k hk
    refine Keyspace.timed_iff.mpr ⟨hk, fun huntimed => ?_⟩
    cases k with
    | heartbeat => exact hbeats (hheart ▸ huntimed)
    | staging m =>
      have hmn : m ≠ n := by
        rintro rfl
        exact hk (touch_eq_none.mpr (hp.no_staging hn hnext (by simp)))
      have hgone : (u.nodes m).main = .gone := by
        have hm := hp'.staging hk
        have hm' := hout m
        dsimp only at hm hm'
        rw [Function.update_of_ne hmn] at hm hm'
        rcases hm with ⟨k, hm⟩ | hm
        · simp [hm] at hm'
        · exact hm
      exact hstaging m hgone (hother hmn ▸ huntimed)
    | seedLock => cases touch_of_mem hid (RunSetting.seedLock_mem n) huntimed
    | queue | inflight | failed | filter => cases hp.touch_data hid (by trivial) huntimed

/-- The keys of a finished run expire, and those of a run that goes on do not, but for those
that are not touched. -/
theorem keysExpire_iff {as : List (RunAct ν)} (hid : st.RUN_ID ≠ "") (he : (machine st).exec {} as = some u) :
    (∀ n t, step st u (.act n .leave) = some t → t.AllOut →
      ((∀ k, t.keys k ≠ none → t.keys.Timed k) ↔
        (machine st).Meets StagingTimed {} as ∧ ¬ (machine st).Since MakesBeats SettlesBeats {} as)) ∧
    ∀ bs, (machine st).Meets (KeepsBeating st) u bs →
      ((machine st).Meets NothingExpires u bs ↔ (machine st).Meets (InTime st) u bs) := by
  constructor
  · intro n t hst hout
    rw [staging_iff he, heartbeat_iff he]
    exact left_timed_iff hid he hst hout
  · intro bs hbeat
    apply Machine.Meets.congr (I := fun v => Placed st v ∧ Dated st v.now v.keys v.times) _ _ hbeat (sound hid he)
    · intro v b w h hst
      exact sound_step hid h hst
    · intro v b h hb
      exact nothingExpires_iff h.2 hb

def replaying : RunSetting := { RUN_ID := "1", jobNs := "netspy:books", RETRY_FAILED_ON_START := true }

/-- A node crawls, another one starts and is killed, and the first one shuts down. -/
def joined : List (RunAct (Fin 2)) :=
  [.act 0 .acquireOnce, .act 0 .checkQueue, .act 0 .rename, .act 0 .rename, .act 0 (.work .put), .act 0 .onStart,
   .act 0 .hset, .act 0 .expire, .act 0 .touch, .act 0 (.work (.take true)), .act 0 (.work (.done true)),
   .act 1 .acquireOnce, .act 1 .rename, .act 1 .kill, .tick 5, .act 0 .stopBeat, .act 0 .hdel]

theorem joined_expires : ∃ u t, (machine replaying).exec {} joined = some u ∧
    step replaying u (.act 0 .leave) = some t ∧ t.keys .seedLock ≠ none ∧ ∀ k, t.keys k ≠ none → t.keys.Timed k := by
  have hrun : ((machine replaying).exec {} joined).map (fun u =>
      (u.keys (.staging 0), u.keys (.staging 1), u.keys .heartbeat,
        (step replaying u (.act 0 .leave)).map fun t => ((t.nodes 0).main, (t.nodes 1).main, t.keys .seedLock))) =
      some (none, none, none, some (.left, .gone, some (some 604800000005))) := by
    rfl
  obtain ⟨u, hu, hu'⟩ := Option.map_eq_some_iff.mp hrun
  simp only [Prod.mk.injEq] at hu'
  obtain ⟨h0, h1, hbeats, ht'⟩ := hu'
  obtain ⟨t, ht, ht'⟩ := Option.map_eq_some_iff.mp ht'
  simp only [Prod.mk.injEq] at ht'
  obtain ⟨hm0, hm1, hlock⟩ := ht'
  have hout : t.AllOut := Fin.forall_fin_two.mpr ⟨.inr (.inl hm0), .inr (.inr hm1)⟩
  refine ⟨u, t, hu, ht, by simp [hlock], ?_⟩
  apply ((keysExpire_iff (by simp [replaying]) hu).1 0 t ht hout).mpr
  rw [staging_iff hu, heartbeat_iff hu, Fin.forall_fin_two, h0, h1, hbeats]
  simp

/-- As `joined`, but there is a failed request when the second node starts. -/
def cutReplay : List (RunAct (Fin 2)) :=
  [.act 0 .acquireOnce, .act 0 .checkQueue, .act 0 .rename, .act 0 .rename, .act 0 (.work .put), .act 0 .onStart,
   .act 0 .hset, .act 0 .expire, .act 0 .touch, .act 0 (.work (.take true)), .act 0 (.work .onFailedRequest),
   .act 0 (.work (.done true)), .act 1 .acquireOnce, .act 1 .rename, .act 1 .kill, .tick 5, .act 0 .stopBeat,
   .act 0 .hdel]

theorem cutReplay_untimed : ∃ u t, (machine replaying).exec {} cutReplay = some u ∧
    step replaying u (.act 0 .leave) = some t ∧ t.AllOut ∧ t.keys (.staging 1) = some none :=
  ⟨_, _, rfl, rfl, Fin.forall_fin_two.mpr ⟨.inr (.inl rfl), .inr (.inr rfl)⟩, rfl⟩

end RunScope

end Netspy
