import Mathlib.Data.List.Chain
import Mathlib.Tactic.Linarith
import Netspy.Proof.ProxyPool

/-!
# Back-off of a dead proxy

The count of a proxy's failures goes up with every report, as long as no report
comes more than `PROXY_BAN_MAX_SECONDS` after the one before; then it starts again,
whether `_prune` has taken it out before or not (`Counted`). So the cooldowns climb to
the longest one and stay there if and only if there is no such report, or the first
cooldown is the longest one already, and the count never comes to where `_ban_seconds`
raises (`climbs_iff`). The time from one report to the
next has the cooldown in it. So at the longest one, a proxy that is reported when it is
handed out again starts again at once.
-/

namespace Netspy

namespace PoolThreads

open ApiProxyPool (banSeconds strike)

variable {st : Setting} {api : Bool} {s t : PoolThreads} {a : PoolAct} {raw : String}

/-- The moment of a report of a proxy, in whichever spelling, and the cooldown that came
of it. -/
def report (raw : String) : PoolEvent → Option (ℚ × Option (WithTop ℚ))
  | .bad proxy moment cooldown => if rawProxy proxy = raw then some (moment, cooldown) else none
  | _ => none

/-- The reports of a proxy, the last first. -/
def reports (raw : String) (log : List PoolEvent) : List (ℚ × Option (WithTop ℚ)) := log.filterMap (report raw)

/-- No step clears the counts of a proxy, as without `report_good` of it. -/
abbrev NeverGood (raw : String) (s : PoolThreads) (a : PoolAct) : Prop :=
  ∀ i, a = .clear i → s.tasks i ≠ .clearing raw

/-- How many reports there are since the last one that came a long time after the one
before. -/
def streak (longest : ℚ) : List ℚ → Nat
  | moment :: last :: rest => if longest < moment - last then 1 else streak longest (last :: rest) + 1
  | [_] => 1
  | [] => 0

/-- The cooldown of a proxy with so many reports before. -/
def rung (st : Setting) (i : Nat) : WithTop ℚ := ↑(min (st.PROXY_BAN_SECONDS * 2 ^ i) st.PROXY_BAN_MAX_SECONDS)

/-- Every report has its cooldown, and they do not fall: they double until they have
come to the longest one, and stay there. -/
def Climbs (st : Setting) (cooldowns : List (Option (WithTop ℚ))) : Prop :=
  ∃ given : List (WithTop ℚ), cooldowns = given.map some ∧ given.Pairwise (· ≤ ·) ∧
    given = (List.range given.length).map (rung st)

/-- No report comes too late after the one before. -/
def Close (st : Setting) (moments : List ℚ) : Prop :=
  moments.IsChain fun moment last => moment - last ≤ st.PROXY_BAN_MAX_SECONDS

/-- There are never more reports than the limit each of which comes in time after the one
before. -/
def Short (st : Setting) (moments : List ℚ) : Prop :=
  ∀ newer moment older, moments = newer ++ moment :: older →
    streak st.PROXY_BAN_MAX_SECONDS (moment :: older) ≤ ApiProxyPool.floatLimit

theorem streak_pos (longest : ℚ) (moment : ℚ) (rest : List ℚ) : 0 < streak longest (moment :: rest) := by
  cases rest with
  | nil => exact Nat.one_pos
  | cons last rest =>
    rw [streak]
    split
    · exact Nat.one_pos
    · exact Nat.succ_pos _

theorem streak_eq_length {moments : List ℚ} (h : Close st moments) :
    streak st.PROXY_BAN_MAX_SECONDS moments = moments.length := by
  induction moments with
  | nil => rfl
  | cons moment rest ih =>
    cases rest with
    | nil => rfl
    | cons last rest =>
      obtain ⟨hle, hrest⟩ := List.isChain_cons_cons.mp h
      rw [streak, if_neg (not_lt.mpr hle), ih hrest]
      rfl

theorem rung_mono (h : 0 < st.PROXY_BAN_SECONDS) {i j : Nat} (hij : i ≤ j) : rung st i ≤ rung st j := by
  refine WithTop.coe_le_coe.mpr (min_le_min_right _ ?_)
  exact mul_le_mul_of_nonneg_left (pow_le_pow_right₀ one_le_two hij) h.le

theorem banSeconds_succ (h : 0 < st.PROXY_BAN_SECONDS) {n : Nat} (hn : n < ApiProxyPool.floatLimit) :
    banSeconds st (n + 1) = some (rung st n) := by
  simp only [banSeconds, rung]
  rw [if_neg (not_le.mpr h), Nat.add_sub_cancel, if_neg (Nat.not_le.mpr hn)]

theorem banSeconds_eq_none (h : 0 < st.PROXY_BAN_SECONDS) {n : Nat} (hn : ApiProxyPool.floatLimit ≤ n) :
    banSeconds st (n + 1) = none := by
  simp only [banSeconds]
  rw [if_neg (not_le.mpr h), Nat.add_sub_cancel, if_pos hn]

theorem rung_of_le (h : 0 < st.PROXY_BAN_SECONDS) (hm : st.PROXY_BAN_MAX_SECONDS ≤ st.PROXY_BAN_SECONDS) (i : Nat) :
    rung st i = ↑st.PROXY_BAN_MAX_SECONDS := by
  have hle : st.PROXY_BAN_SECONDS ≤ st.PROXY_BAN_SECONDS * 2 ^ i := le_mul_of_one_le_right h.le (one_le_pow₀ one_le_two)
  rw [rung, min_eq_right (hm.trans hle)]

/-- The second rung is above the first, if that one is not the last. -/
theorem rung_zero_lt (h : 0 < st.PROXY_BAN_SECONDS) (hm : st.PROXY_BAN_SECONDS < st.PROXY_BAN_MAX_SECONDS) (i : Nat) :
    rung st 0 < rung st (i + 1) := by
  have hpow : (1 : ℚ) < 2 ^ (i + 1) := one_lt_pow₀ one_lt_two (Nat.succ_ne_zero i)
  refine WithTop.coe_lt_coe.mpr ?_
  rw [pow_zero, mul_one, min_eq_left hm.le]
  exact lt_min (lt_mul_of_one_lt_right h hpow) hm

/-! ## The count of failures -/

/-- The count on record is that of the reports, or it is too old to count. -/
structure Counted (st : Setting) (raw : String) (s : PoolThreads) : Prop where
  now : 0 < s.now
  moments : ∀ x ∈ reports raw s.log, 0 < x.1
  cooldowns : ∀ newer x older, reports raw s.log = newer ++ x :: older →
    x.2 = banSeconds st (streak st.PROXY_BAN_MAX_SECONDS (x.1 :: older.map Prod.fst))
  unreported : reports raw s.log = [] → s.pool.fails raw = none
  reported : ∀ x older, reports raw s.log = x :: older →
    s.pool.fails raw = some (streak st.PROXY_BAN_MAX_SECONDS (x.1 :: older.map Prod.fst), x.1) ∨
      s.pool.fails raw = none ∧ st.PROXY_BAN_MAX_SECONDS < s.now - x.1

/-- A report now comes with the count of all of them. -/
theorem Counted.strike (hs : Counted st raw s) : strike st (s.pool.fails raw) s.now =
    streak st.PROXY_BAN_MAX_SECONDS (s.now :: (reports raw s.log).map Prod.fst) := by
  cases hr : reports raw s.log with
  | nil =>
    rw [hs.unreported hr]
    simp [ApiProxyPool.strike, streak]
  | cons x older =>
    have hpos : x.1 ≠ 0 := (hs.moments x (by rw [hr]; exact List.mem_cons_self)).ne'
    rw [List.map_cons, streak]
    rcases hs.reported x older hr with hf | ⟨hf, hold⟩
    · rw [hf]
      by_cases hlt : st.PROXY_BAN_MAX_SECONDS < s.now - x.1
      · rw [if_pos hlt]
        simp only [ApiProxyPool.strike, Option.getD_some]
        rw [if_pos ⟨hpos, hlt⟩]
      · rw [if_neg hlt]
        simp only [ApiProxyPool.strike, Option.getD_some]
        rw [if_neg fun h => hlt h.2]
    · rw [hf, if_pos hold]
      simp [ApiProxyPool.strike]

/-- A step that reports nothing about the proxy, and at most loses a count that is too
old. -/
theorem Counted.kept (hs : Counted st raw s) (hnow : s.now ≤ t.now) (hr : reports raw t.log = reports raw s.log)
    (hf : t.pool.fails raw = s.pool.fails raw ∨
      ∃ n last, s.pool.fails raw = some (n, last) ∧ st.PROXY_BAN_MAX_SECONDS < t.now - last ∧ t.pool.fails raw = none) :
    Counted st raw t := by
  refine ⟨hs.now.trans_le hnow, hr ▸ hs.moments, hr ▸ hs.cooldowns, fun he => ?_, fun x older he => ?_⟩
  · rcases hf with hf | ⟨n, last, hf, -⟩
    · exact hf.trans (hs.unreported (hr ▸ he))
    · cases hf.symm.trans (hs.unreported (hr ▸ he))
  · rcases hf with hf | ⟨n, last, hf, hlt, hnone⟩
    · rw [hf]
      exact (hs.reported x older (hr ▸ he)).imp_right fun ⟨hn, hlt⟩ => ⟨hn, by linarith⟩
    · rcases hs.reported x older (hr ▸ he) with hx | ⟨hx, -⟩
      · cases hf.symm.trans hx
        exact .inr ⟨hnone, hlt⟩
      · cases hf.symm.trans hx

theorem Counted.step (hnd : s.pool.pool.Nodup) (hs : Counted st raw s) (hg : NeverGood raw s a)
    (h : step st api s a = some t) : Counted st raw t := by
  cases did hnd h with
  | quiet hk hlog => exact hs.kept hk.now (by rw [hlog]) (hk.fails raw)
  | nothing i checks hk hlog => exact hs.kept hk.now (by rw [hlog]; rfl) (hk.fails raw)
  | returned i checks proxy check hk _ _ _ hlog => exact hs.kept hk.now (by rw [hlog]; rfl) (hk.fails raw)
  | clear i raw' hw ht =>
    subst ht
    have hne : raw ≠ raw' := fun he => hg i rfl (he ▸ hw)
    exact hs.kept (le_refl _) rfl (.inl (Function.update_of_ne hne ..))
  | bad i proxy ht =>
    subst ht
    by_cases hraw : rawProxy proxy = raw
    · have hr : reports raw ((s.setTask i .idle).bad st proxy).log =
          (s.now, banSeconds st (ApiProxyPool.strike st (s.pool.fails raw) s.now)) :: reports raw s.log := by
        subst hraw
        exact List.filterMap_cons_some (if_pos rfl)
      rw [hs.strike] at hr
      refine ⟨hs.now, fun x hx => ?_, fun newer x older he => ?_, fun he => ?_, fun x older he => ?_⟩
      · rw [hr] at hx
        rcases List.mem_cons.mp hx with rfl | hx
        · exact hs.now
        · exact hs.moments x hx
      · rw [hr] at he
        cases newer with
        | nil =>
          obtain ⟨rfl, rfl⟩ := List.cons.inj he
          rfl
        | cons y newer => exact hs.cooldowns newer x older (List.cons.inj he).2
      · cases hr.symm.trans he
      · obtain ⟨rfl, rfl⟩ := List.cons.inj (hr.symm.trans he)
        refine .inl ?_
        have hf : ((s.setTask i .idle).bad st proxy).pool.fails = _ := ApiProxyPool.fails_reportBad st s.pool proxy s.now
        rw [hf, ← hs.strike, ← hraw]
        exact Function.update_self ..
    · have hf : ((s.setTask i .idle).bad st proxy).pool.fails = _ := ApiProxyPool.fails_reportBad st s.pool proxy s.now
      refine hs.kept (le_refl _) ?_ (.inl (by rw [hf, Function.update_of_ne (Ne.symm hraw)]))
      exact List.filterMap_cons_none (if_neg hraw)

theorem counted (h : (poolMachine st api).Within (NeverGood raw) s) : Counted st raw s := by
  refine h.induct_with (fun s hw => reachable_nodup hw.reachable) ?_ fun s a t hnd hs hg hstep => hs.step hnd hg hstep
  rintro s ⟨now, hnow, rfl⟩
  exact ⟨hnow, fun _ hx => absurd hx List.not_mem_nil, fun newer x older he => by simp [reports] at he, fun _ => rfl,
    fun _ _ => nofun⟩

/-! ## Climbing -/

/-- The cooldowns of a proxy's reports, the first one first. -/
def cooldowns (raw : String) (log : List PoolEvent) : List (Option (WithTop ℚ)) := ((reports raw log).map Prod.snd).reverse

/-- The moments of its reports, the last one first. -/
def moments (raw : String) (log : List PoolEvent) : List ℚ := (reports raw log).map Prod.fst

/-- A list climbs if every entry is the rung of its place. -/
theorem climbs_reverse_iff (h : 0 < st.PROXY_BAN_SECONDS) (rs : List (ℚ × Option (WithTop ℚ))) :
    Climbs st (rs.map Prod.snd).reverse ↔ ∀ newer x older, rs = newer ++ x :: older → x.2 = some (rung st older.length) := by
  have hmap : (rs.map Prod.snd).reverse = ((List.range rs.length).map (rung st)).map some ↔
      ∀ newer x older, rs = newer ++ x :: older → x.2 = some (rung st older.length) := by
    induction rs with
    | nil => simp
    | cons y rs ih =>
      rw [List.map_cons, List.reverse_cons, List.length_cons, List.range_succ, List.map_append, List.map_append,
        List.map_singleton, List.map_singleton, List.append_singleton_inj, ih]
      refine ⟨fun ⟨hall, hy⟩ newer x older he => ?_, fun hall => ⟨fun newer x older he => ?_, ?_⟩⟩
      · cases newer with
        | nil =>
          obtain ⟨rfl, rfl⟩ := List.cons.inj he
          exact hy
        | cons z newer => exact hall newer x older (List.cons.inj he).2
      · exact hall (y :: newer) x older (by rw [he]; rfl)
      · exact hall [] y rs rfl
  rw [← hmap]
  constructor
  · rintro ⟨given, hgiven, -, hrungs⟩
    have hlen := congrArg List.length hgiven
    rw [List.length_reverse, List.length_map, List.length_map] at hlen
    rw [hgiven, hlen, ← hrungs]
  · intro he
    refine ⟨_, he, List.pairwise_map.mpr (List.pairwise_lt_range.imp fun hlt => rung_mono h hlt.le), ?_⟩
    rw [List.length_map, List.length_range]

/-- What a report gets that has so many before it without a long time between. -/
theorem cooldown_eq (hst : 0 < st.PROXY_BAN_SECONDS) (hs : Counted st raw s) {newer older : List (ℚ × Option (WithTop ℚ))}
    {x : ℚ × Option (WithTop ℚ)} (he : reports raw s.log = newer ++ x :: older) :
    ∃ n, streak st.PROXY_BAN_MAX_SECONDS (x.1 :: older.map Prod.fst) = n + 1 ∧
      x.2 = if n < ApiProxyPool.floatLimit then some (rung st n) else none := by
  obtain ⟨n, hn⟩ := Nat.exists_eq_add_one.mpr (streak_pos st.PROXY_BAN_MAX_SECONDS x.1 (older.map Prod.fst))
  refine ⟨n, hn, ?_⟩
  rw [hs.cooldowns newer x older he, hn]
  split
  next hlt => exact banSeconds_succ hst hlt
  next hge => exact banSeconds_eq_none hst (Nat.le_of_not_lt hge)

/-- The cooldowns of a proxy that is never reported good climb to the longest one and
stay there, exactly if no report comes later after the one before than the longest
cooldown is, or no cooldown is longer than the first; and if there are never so many
reports without a long time between that `_ban_seconds` raises. -/
theorem climbs_iff (st : Setting) (api : Bool) (raw : String) (hst : 0 < st.PROXY_BAN_SECONDS) {s : PoolThreads}
    (h : (poolMachine st api).Within (NeverGood raw) s) :
    Climbs st (cooldowns raw s.log) ↔
      (st.PROXY_BAN_MAX_SECONDS ≤ st.PROXY_BAN_SECONDS ∨ Close st (moments raw s.log)) ∧ Short st (moments raw s.log) := by
  have hs := counted h
  rw [cooldowns, climbs_reverse_iff hst]
  constructor
  · refine fun hall => ⟨or_iff_not_imp_left.mpr fun hm => ?_, fun newer moment older he => ?_⟩
    · rw [moments, Close, List.isChain_map, List.isChain_iff_forall_rel_of_append_cons_cons]
      intro x y newer older he
      by_contra hlate
      -- the report starts the count again, although it is not the first one
      obtain ⟨n, hn, hx⟩ := cooldown_eq hst hs he
      rw [List.map_cons, streak, if_pos (not_le.mp hlate)] at hn
      obtain rfl : n = 0 := by omega
      rw [if_pos (by decide), hall newer x (y :: older) he] at hx
      exact (rung_zero_lt hst (not_le.mp hm) older.length).ne' (Option.some.inj hx)
    · obtain ⟨newer, rest, hr, rfl, hrest⟩ := List.map_eq_append_iff.mp he
      obtain ⟨x, older, rfl, rfl, rfl⟩ := List.map_eq_cons_iff.mp hrest
      obtain ⟨n, hn, hx⟩ := cooldown_eq hst hs hr
      rw [hall newer x older hr] at hx
      split at hx
      next hlt => rw [hn]; exact hlt
      next => cases hx
  · rintro ⟨hor, hshort⟩ newer x older he
    obtain ⟨n, hn, hx⟩ := cooldown_eq hst hs he
    have hmap : moments raw s.log = newer.map Prod.fst ++ x.1 :: older.map Prod.fst := by
      rw [moments, he, List.map_append, List.map_cons]
    have hlt : n < ApiProxyPool.floatLimit := by
      have := hshort _ _ _ hmap
      omega
    rw [hx, if_pos hlt]
    rcases hor with hm | hclose
    · rw [rung_of_le hst hm, rung_of_le hst hm]
    · have hsuffix : Close st (x.1 :: older.map Prod.fst) := by
        rw [hmap] at hclose
        exact hclose.right_of_append
      rw [streak_eq_length hsuffix, List.length_cons, List.length_map] at hn
      rw [Nat.succ.inj hn]

/-- The proxy is handed out at a moment and reported at once. -/
def handOut (moment : ℚ) : List PoolAct :=
  [.tick moment, .look 0, .fetch 0, .fetched 0 (some [("1.1.1.1:80", moment)]), .choose 0 [moment],
    .reportBad 0 "http://1.1.1.1:80"]

/-- A dead proxy, handed out each time that its cooldown is over. -/
def sixReports : List PoolAct := [1, 60000001, 180000001, 420000001, 900000001, 1800000002].flatMap handOut

theorem sixReports_ran : ∃ s, (poolMachine {} true).exec { now := 1 } sixReports = some s ∧
    reports "1.1.1.1:80" s.log = [(1800000002, some ↑(60000000 : ℚ)), (900000001, some ↑(900000000 : ℚ)),
      (420000001, some ↑(480000000 : ℚ)), (180000001, some ↑(240000000 : ℚ)), (60000001, some ↑(120000000 : ℚ)),
      (1, some ↑(60000000 : ℚ))] :=
  Option.map_eq_some_iff.mp (by decide +kernel)

theorem sixReports_within {s : PoolThreads} (h : (poolMachine {} true).exec { now := 1 } sixReports = some s) :
    (poolMachine {} true).Within (NeverGood "1.1.1.1:80") s := by
  refine (Machine.Within.start (M := poolMachine {} true) ⟨1, one_pos, rfl⟩).exec (.of_forall ?_ _) h
  rintro a ha s i rfl
  simp [sixReports, handOut] at ha

theorem climbs_iff_sixReports : ∃ s, (poolMachine {} true).exec { now := 1 } sixReports = some s ∧
    (Climbs {} (cooldowns "1.1.1.1:80" s.log) ↔
      (({} : Setting).PROXY_BAN_MAX_SECONDS ≤ ({} : Setting).PROXY_BAN_SECONDS ∨ Close {} (moments "1.1.1.1:80" s.log)) ∧
        Short {} (moments "1.1.1.1:80" s.log)) := by
  obtain ⟨s, he, -⟩ := sixReports_ran
  exact ⟨s, he, climbs_iff {} true "1.1.1.1:80" (by norm_num) (sixReports_within he)⟩

/-- Every report comes when the cooldown before is over, and not more than the first
cooldown later. -/
def Prompt (st : Setting) (rs : List (ℚ × Option (WithTop ℚ))) : Prop :=
  rs.IsChain fun x last => ∃ cooldown, last.2 = some cooldown ∧
    (last.1 : WithTop ℚ) + cooldown ≤ x.1 ∧ (x.1 : WithTop ℚ) ≤ last.1 + cooldown + st.PROXY_BAN_SECONDS

/-- From the longest cooldown it falls back to the first. -/
theorem sixReports_falls : ∃ s, (poolMachine {} true).Within (NeverGood "1.1.1.1:80") s ∧
    Prompt {} (reports "1.1.1.1:80" s.log) ∧ ¬ Climbs {} (cooldowns "1.1.1.1:80" s.log) := by
  obtain ⟨s, he, hr⟩ := sixReports_ran
  refine ⟨s, sixReports_within he, ?_, fun hclimbs => ?_⟩
  · rw [hr]
    simp only [Prompt, List.isChain_cons_cons, List.isChain_singleton, Option.some.injEq, exists_eq_left']
    norm_cast
  · rw [cooldowns, hr] at hclimbs
    obtain ⟨given, hgiven, hmono, -⟩ := hclimbs
    have he : [((60000000 : ℚ) : WithTop ℚ), ↑(120000000 : ℚ), ↑(240000000 : ℚ), ↑(480000000 : ℚ), ↑(900000000 : ℚ),
        ↑(60000000 : ℚ)] = given := List.map_injective_iff.mpr (Option.some_injective _) hgiven
    have hle : ((900000000 : ℚ) : WithTop ℚ) ≤ ↑(60000000 : ℚ) :=
      List.rel_of_pairwise_cons ((he ▸ hmono).drop (i := 4)) List.mem_cons_self
    norm_cast at hle

end PoolThreads

end Netspy
