import Mathlib.Algebra.Order.Group.Defs
import Mathlib.Data.List.Nodup
import Mathlib.Data.List.Perm.Basic
import Netspy.Impl.ProxyPool

/-!
# Banned proxies rest

A cooldown stays on record until it is over, under both spellings of its proxy: no
operation takes an entry out that still runs (`Kept`), and only `report_bad` puts
another one in its place. So as long as none comes that would end earlier, no one
gets the proxy before its end (`banned_rests`).

The loop of `get_proxy` looks at every proxy in the pool once, as those that are
banned are dropped right after they were moved to the end (`scan_spec`).
-/

namespace Netspy

/-! ## Spellings -/

theorem afterScheme_http (proxy : List Char) : afterScheme ("http://".toList ++ proxy) = some proxy := by
  rfl

/-- What a caller gets is the proxy as the pool has it, or that one is its raw
spelling. -/
theorem eq_or_eq_rawProxy {proxy u : String} (h : normalizeProxy proxy = u) : proxy = rawProxy u ∨ proxy = u := by
  unfold normalizeProxy at h
  split at h
  · exact .inr h
  · refine .inl ?_
    rw [← h, rawProxy, String.toList_append, afterScheme_http, Option.getD_some, String.ofList_toList]

namespace ApiProxyPool

variable {st : Setting} {p p' : ApiProxyPool} {proxy : String} {now : ℚ}

/-! ## Operations -/

theorem isBanned_iff : (p.isBanned proxy now).1 = true ↔ ∃ till, p.banned proxy = some till ∧ ↑now < till := by
  unfold isBanned
  cases h : p.banned proxy with
  | none => simp
  | some till => by_cases hlt : ↑now < till <;> simp [hlt]

/-- It only takes out what is over. -/
theorem isBanned_snd (p : ApiProxyPool) (proxy : String) (now : ℚ) : ∃ banned, (p.isBanned proxy now).2 = { p with banned } ∧
    ∀ k till, p.banned k = some till → ↑now < till → banned k = some till := by
  unfold isBanned
  cases h : p.banned proxy with
  | none => exact ⟨p.banned, rfl, fun k till hk _ => hk⟩
  | some till =>
    by_cases hlt : ↑now < till
    · exact ⟨p.banned, by simp [hlt], fun k till hk _ => hk⟩
    · refine ⟨Function.update p.banned proxy none, by simp [hlt], fun k till' hk hlt' => ?_⟩
      refine (Function.update_of_ne ?_ ..).trans hk
      rintro rfl
      cases h.symm.trans hk
      exact hlt hlt'

theorem banned_prune (st : Setting) (p : ApiProxyPool) (now : ℚ) (k : String) (till : WithTop ℚ)
    (hk : p.banned k = some till) (hlt : ↑now < till) : (p.prune st now).banned k = some till := by
  show (p.banned k).filter _ = _
  rw [hk, Option.filter_some, if_pos]
  simpa using hlt

theorem fails_prune (st : Setting) (p : ApiProxyPool) (now : ℚ) (raw : String) :
    (p.prune st now).fails raw = p.fails raw ∨
      ∃ n last, p.fails raw = some (n, last) ∧ st.PROXY_BAN_MAX_SECONDS < now - last ∧ (p.prune st now).fails raw = none := by
  have hp : (p.prune st now).fails raw =
      (p.fails raw).filter fun entry => !decide (st.PROXY_BAN_MAX_SECONDS < now - entry.2) := rfl
  rw [hp]
  rcases p.fails raw with _ | ⟨n, last⟩
  · exact .inl rfl
  · rw [Option.filter_some]
    by_cases hold : st.PROXY_BAN_MAX_SECONDS < now - last
    · exact .inr ⟨n, last, rfl, hold, if_neg (by rw [decide_eq_true hold]; decide)⟩
    · exact .inl (if_pos (by rw [decide_eq_false hold]; decide))

theorem reportSuspect_snd (st : Setting) (p : ApiProxyPool) (proxy : String) (now : ℚ) :
    ∃ suspects, (p.reportSuspect st proxy now).2 = { p with suspects } := by
  unfold reportSuspect
  dsimp only
  split
  · exact ⟨_, rfl⟩
  · exact ⟨_, rfl⟩

theorem reportBad_none (h : banSeconds st (strike st (p.fails (rawProxy proxy)) now) = none) :
    p.reportBad st proxy now = { p with
      fails := Function.update p.fails (rawProxy proxy) (some (strike st (p.fails (rawProxy proxy)) now, now))
      suspects := Function.update p.suspects (rawProxy proxy) none } := by
  unfold reportBad
  dsimp only
  rw [h]

theorem reportBad_some {seconds : WithTop ℚ} (h : banSeconds st (strike st (p.fails (rawProxy proxy)) now) = some seconds) :
    p.reportBad st proxy now = { p with
      fails := Function.update p.fails (rawProxy proxy) (some (strike st (p.fails (rawProxy proxy)) now, now))
      suspects := Function.update p.suspects (rawProxy proxy) none
      banned := Function.update (Function.update p.banned (rawProxy proxy) (some (now + seconds)))
        proxy (some (now + seconds))
      pool := p.pool.erase (rawProxy proxy) } := by
  unfold reportBad
  dsimp only
  rw [h]
  rfl

/-- The failure is counted, whether there is a cooldown for it or not. -/
theorem fails_reportBad (st : Setting) (p : ApiProxyPool) (proxy : String) (now : ℚ) : (p.reportBad st proxy now).fails =
    Function.update p.fails (rawProxy proxy) (some (strike st (p.fails (rawProxy proxy)) now, now)) := by
  cases h : banSeconds st (strike st (p.fails (rawProxy proxy)) now) with
  | none => rw [reportBad_none h]
  | some seconds => rw [reportBad_some h]

theorem useCount_reportBad (st : Setting) (p : ApiProxyPool) (proxy : String) (now : ℚ) :
    (p.reportBad st proxy now).useCount = p.useCount := by
  cases h : banSeconds st (strike st (p.fails (rawProxy proxy)) now) with
  | none => rw [reportBad_none h]
  | some seconds => rw [reportBad_some h]

theorem pool_reportBad (st : Setting) (p : ApiProxyPool) (proxy : String) (now : ℚ) :
    (p.reportBad st proxy now).pool = p.pool ∨ (p.reportBad st proxy now).pool = p.pool.erase (rawProxy proxy) := by
  cases h : banSeconds st (strike st (p.fails (rawProxy proxy)) now) with
  | none => exact .inl (by rw [reportBad_none h])
  | some seconds => exact .inr (by rw [reportBad_some h])

theorem nodup_reportBad (hnd : p.pool.Nodup) : (p.reportBad st proxy now).pool.Nodup := by
  rcases pool_reportBad st p proxy now with h | h
  · exact h ▸ hnd
  · exact h ▸ hnd.erase _

theorem banned_reportBad {seconds : WithTop ℚ} (hs : banSeconds st (strike st (p.fails (rawProxy proxy)) now) = some seconds)
    {k : String} (h : k = rawProxy proxy ∨ k = proxy) : (p.reportBad st proxy now).banned k = some (↑now + seconds) := by
  rw [reportBad_some hs]
  show Function.update (Function.update _ _ _) proxy _ k = _
  rcases h with rfl | rfl
  · by_cases hraw : rawProxy proxy = proxy
    · rw [hraw, Function.update_self]
    · rw [Function.update_of_ne hraw, Function.update_self]
  · rw [Function.update_self]

/-- Other spellings keep what they have, and these two as well, if there is no cooldown. -/
theorem banned_reportBad_of_not {k : String}
    (h : ¬(k = rawProxy proxy ∨ k = proxy) ∨ banSeconds st (strike st (p.fails (rawProxy proxy)) now) = none) :
    (p.reportBad st proxy now).banned k = p.banned k := by
  cases hs : banSeconds st (strike st (p.fails (rawProxy proxy)) now) with
  | none => rw [reportBad_none hs]
  | some seconds =>
    rw [hs] at h
    obtain ⟨hraw, hproxy⟩ := not_or.mp (h.resolve_right nofun)
    rw [reportBad_some hs]
    exact (Function.update_of_ne hproxy ..).trans (Function.update_of_ne hraw ..)

theorem isBanned_of_isBanned (h : (p.isBanned proxy now).1 = true) : (p.isBanned proxy now).2 = p := by
  obtain ⟨till, hk, hlt⟩ := isBanned_iff.mp h
  simp [isBanned, hk, hlt]

theorem isBanned_pool (p : ApiProxyPool) (pool : List String) :
    ({ p with pool } : ApiProxyPool).isBanned proxy now =
      ((p.isBanned proxy now).1, { (p.isBanned proxy now).2 with pool }) := by
  unfold isBanned
  cases p.banned proxy with
  | none => rfl
  | some till => by_cases hlt : ↑now < till <;> simp [hlt]

theorem isBanned_pool_fst (p : ApiProxyPool) (pool : List String) :
    (({ p with pool } : ApiProxyPool).isBanned proxy now).1 = (p.isBanned proxy now).1 := by
  rw [isBanned_pool]

/-- What the loop makes of the proxies in the pool and the moments of its checks: it drops
those that are banned, and stops at the first that is not. -/
inductive Turned (st : Setting) (p : ApiProxyPool) : List String → List ℚ → Option (String × ℚ) → ApiProxyPool → Prop
  | nothing (checks : List ℚ) : Turned st p [] checks none { p with pool := [] }
  | banned {proxy : String} {now : ℚ} {rest : List String} {checks : List ℚ} {result : Option (String × ℚ)}
      {p' : ApiProxyPool}
      (hban : (p.isBanned proxy now).1 = true) (ht : Turned st p rest checks result p') :
      Turned st p (proxy :: rest) (now :: checks) result p'
  | found {proxy : String} {now : ℚ} {rest : List String} {checks : List ℚ} (hf : (p.isBanned proxy now).1 = false) :
      Turned st p (proxy :: rest) (now :: checks) (some (normalizeProxy proxy, now))
        ({ (p.isBanned proxy now).2 with pool := rest ++ [proxy] }.use st proxy)

theorem turned_of_scan {pool : List String} {checks : List ℚ} {result : Option (String × ℚ)} (hnd : pool.Nodup)
    (h : scan st pool.length checks { p with pool } = some (result, p')) : Turned st p pool checks result p' := by
  induction pool generalizing checks with
  | nil =>
    cases h
    exact .nothing checks
  | cons proxy rest ih =>
    cases checks with
    | nil => cases h
    | cons now checks =>
      obtain ⟨hnot, hrest⟩ := List.nodup_cons.mp hnd
      simp only [List.length_cons, scan, isBanned_pool] at h
      cases hban : (p.isBanned proxy now).1 with
      | false =>
        rw [hban] at h
        cases h
        exact .found hban
      | true =>
        have hdrop : (rest ++ [proxy]).erase proxy = rest := by
          rw [List.erase_append_right _ hnot, List.erase_cons_head, List.append_nil]
        rw [hban, isBanned_of_isBanned hban, if_pos rfl, drop] at h
        simp only [hdrop] at h
        exact .banned hban (ih hrest h)

/-- What a caller gets, and the pool that is left: nothing if all are banned, else
the proxy of a pool that was turned until that one came. -/
inductive Scanned (st : Setting) (p : ApiProxyPool) (checks : List ℚ) : Option (String × ℚ) → ApiProxyPool → Prop
  | nothing (h : ∀ proxy ∈ p.pool, ∃ now ∈ checks, (p.isBanned proxy now).1 = true) :
      Scanned st p checks none { p with pool := [] }
  | found (proxy : String) (rest : List String) (now : ℚ) (hc : now ∈ checks)
      (hf : (p.isBanned proxy now).1 = false) (hnd : (rest ++ [proxy]).Nodup) :
      Scanned st p checks (some (normalizeProxy proxy, now))
        ({ (p.isBanned proxy now).2 with pool := rest ++ [proxy] }.use st proxy)

theorem Turned.scanned {pool : List String} {checks : List ℚ} {result : Option (String × ℚ)}
    (h : Turned st p pool checks result p')
    (hnd : pool.Nodup) : Scanned st { p with pool } checks result p' := by
  induction h with
  | nothing checks => exact .nothing fun _ hq => absurd hq List.not_mem_nil
  | @banned q now rest checks _ _ hban _ ih =>
    cases ih (List.nodup_cons.mp hnd).2 with
    | nothing hall =>
      refine .nothing fun proxy hmem => ?_
      rcases List.mem_cons.mp hmem with rfl | hmem
      · exact ⟨now, List.mem_cons_self, (isBanned_pool_fst p _).trans hban⟩
      · obtain ⟨c, hc, hbc⟩ := hall proxy hmem
        exact ⟨c, List.mem_cons_of_mem now hc, (isBanned_pool_fst p _).trans ((isBanned_pool_fst p _).symm.trans hbc)⟩
    | found proxy rest' c hc hf hnd' =>
      have hs : Scanned st { p with pool := q :: rest } (now :: checks) _ _ :=
        .found proxy rest' c (List.mem_cons_of_mem now hc)
          ((isBanned_pool_fst p _).trans ((isBanned_pool_fst p _).symm.trans hf)) hnd'
      rw [isBanned_pool] at hs ⊢
      exact hs
  | @found q now rest checks hf =>
    have hs : Scanned st { p with pool := q :: rest } (now :: checks) _ _ :=
      .found q rest now List.mem_cons_self ((isBanned_pool_fst p _).trans hf)
        ((List.perm_append_singleton q rest).nodup_iff.mpr hnd)
    rw [isBanned_pool] at hs
    exact hs

theorem scan_spec {checks : List ℚ} {result : Option (String × ℚ)} (hnd : p.pool.Nodup)
    (h : p.scan st p.pool.length checks = some (result, p')) : Scanned st p checks result p' :=
  (turned_of_scan hnd h).scanned hnd

theorem refill_spec (p : ApiProxyPool) {found : List (String × ℚ)} {last : ℚ} (hl : ∀ x ∈ found, x.2 ≤ last)
    (hnd : p.pool.Nodup) :
    ∃ pool banned, p.refill found = { p with pool, banned } ∧ pool.Nodup ∧
      ∀ k till, p.banned k = some till → ↑last < till → banned k = some till := by
  induction found generalizing p with
  | nil => exact ⟨p.pool, p.banned, rfl, hnd, fun k till hk _ => hk⟩
  | cons x found ih =>
    obtain ⟨proxy, now⟩ := x
    have hnow : now ≤ last := hl (proxy, now) List.mem_cons_self
    obtain ⟨banned, he, hkept⟩ := p.isBanned_snd proxy now
    simp only [refill, he]
    have hadd : ∀ pool : List String, pool.Nodup → ∃ pool' banned',
        refill found { p with pool, banned } = { p with pool := pool', banned := banned' } ∧ pool'.Nodup ∧
          ∀ k till, p.banned k = some till → ↑last < till → banned' k = some till := by
      intro pool hpool
      obtain ⟨pool', banned', he', hnd', hkept'⟩ := ih { p with pool, banned }
          (fun x hx => hl x (List.mem_cons_of_mem _ hx)) hpool
      refine ⟨pool', banned', he', hnd', fun k till hk hlt => hkept' k till (hkept k till hk ?_) hlt⟩
      exact lt_of_le_of_lt (WithTop.coe_le_coe.mpr hnow) hlt
    split
    · rename_i hnew
      refine hadd _ ?_
      have hnot : proxy ∉ p.pool := by simpa using (Bool.and_eq_true_iff.mp hnew).2
      exact (List.perm_append_singleton proxy p.pool).nodup_iff.mpr (List.nodup_cons.mpr ⟨hnot, hnd⟩)
    · exact hadd p.pool hnd

theorem nodup_drop (p : ApiProxyPool) (proxy : String) (hnd : p.pool.Nodup) : (p.drop proxy).pool.Nodup := hnd.erase proxy

theorem use_spec (st : Setting) (p : ApiProxyPool) (proxy : String) (hnd : p.pool.Nodup) :
    (p.use st proxy).pool.Nodup ∧ (p.use st proxy).banned = p.banned ∧ (p.use st proxy).fails = p.fails := by
  unfold use
  dsimp only
  split
  · exact ⟨nodup_drop _ proxy hnd, rfl, rfl⟩
  · exact ⟨hnd, rfl, rfl⟩

end ApiProxyPool

/-! ## What a step can do -/

namespace PoolThreads

open ApiProxyPool (banSeconds strike)

variable {st : Setting} {api : Bool} {s t : PoolThreads} {a : PoolAct}

/-- The entries that still count stay. -/
structure Kept (st : Setting) (s t : PoolThreads) : Prop where
  now : s.now ≤ t.now
  nodup : t.pool.pool.Nodup
  banned : ∀ k till, s.pool.banned k = some till → ↑t.now < till → t.pool.banned k = some till
  fails : ∀ raw, t.pool.fails raw = s.pool.fails raw ∨
    ∃ n last, s.pool.fails raw = some (n, last) ∧ st.PROXY_BAN_MAX_SECONDS < t.now - last ∧ t.pool.fails raw = none

/-- Everything a step can do. -/
inductive Did (st : Setting) (s t : PoolThreads) : PoolAct → Prop
  | quiet {a : PoolAct} (hk : Kept st s t) (hlog : t.log = s.log) : Did st s t a
  | nothing (i : Nat) (checks : List ℚ) (hk : Kept st s t) (hlog : t.log = .returned none [] :: s.log) :
      Did st s t (.choose i checks)
  | returned (i : Nat) (checks : List ℚ) (proxy : String) (moment : ℚ) (hk : Kept st s t) (hafter : s.now ≤ moment)
      (hbefore : moment ≤ t.now) (hf : (s.pool.isBanned proxy moment).1 = false)
      (hlog : t.log = .returned (some (normalizeProxy proxy, moment)) s.free :: s.log) : Did st s t (.choose i checks)
  | clear (i : Nat) (raw : String) (hw : s.tasks i = .clearing raw)
      (ht : t = { s.setTask i .idle with pool := s.pool.clear raw }) : Did st s t (.clear i)
  | bad (i : Nat) (proxy : String) (ht : t = (s.setTask i .idle).bad st proxy) : Did st s t (.reportBad i proxy)

theorem lastOf_spec {moments : List ℚ} (h : s.inOrder moments = true) :
    s.now ≤ s.lastOf moments ∧ ∀ moment ∈ moments, s.now ≤ moment ∧ moment ≤ s.lastOf moments := by
  obtain ⟨hfirst, hsorted⟩ := List.pairwise_cons.mp (of_decide_eq_true h)
  rcases List.eq_nil_or_concat moments with rfl | ⟨front, last, rfl⟩
  · exact ⟨le_refl _, fun _ hm => absurd hm List.not_mem_nil⟩
  · rw [List.concat_eq_append] at hfirst hsorted ⊢
    have hlast : s.lastOf (front ++ [last]) = last := by simp [lastOf]
    rw [hlast]
    refine ⟨hfirst last (by simp), fun moment hm => ⟨hfirst moment hm, ?_⟩⟩
    rcases List.mem_append.mp hm with hm | hm
    · exact (List.pairwise_append.mp hsorted).2.2 moment hm last (List.mem_singleton_self last)
    · exact (List.mem_singleton.mp hm).le

theorem Kept.same (hnd : s.pool.pool.Nodup) (hnow : s.now ≤ t.now) (hp : t.pool = s.pool) : Kept st s t :=
  ⟨hnow, hp ▸ hnd, fun _ _ hk _ => hp ▸ hk, fun _ => .inl (hp ▸ rfl)⟩

/-- Nothing is on record that was not before, and the proxies that were free were
looked at. -/
theorem free_eq_nil {checks : List ℚ} (hall : ∀ proxy ∈ s.pool.pool, ∃ now ∈ checks, (s.pool.isBanned proxy now).1 = true)
    (h : s.inOrder checks = true) : s.free = [] := by
  refine List.filter_eq_nil_iff.mpr fun proxy hmem => ?_
  obtain ⟨moment, hc, hban⟩ := hall proxy hmem
  obtain ⟨till, hk, hlt⟩ := ApiProxyPool.isBanned_iff.mp hban
  have hnow : (s.pool.isBanned proxy s.now).1 = true :=
    ApiProxyPool.isBanned_iff.mpr ⟨till, hk, lt_of_le_of_lt (WithTop.coe_le_coe.mpr ((lastOf_spec h).2 moment hc).1) hlt⟩
  simp [hnow]

/-- What each step sets, but for the tasks of the threads. -/
inductive Ran (st : Setting) (s t : PoolThreads) : PoolAct → Prop
  | task {a : PoolAct} (hchoose : ∀ i checks, a ≠ .choose i checks) (hbad : ∀ i proxy, a ≠ .reportBad i proxy)
      (hnow : s.now ≤ t.now) (hpool : t.pool = s.pool) (hlog : t.log = s.log) : Ran st s t a
  | pruned (i : Nat) (hnow : t.now = s.now) (hpool : t.pool = { s.pool with lastFetch := some s.now }.prune st s.now)
      (hlog : t.log = s.log) : Ran st s t (.fetch i)
  | refilled (i : Nat) (found : List (String × ℚ)) (horder : s.inOrder (found.map Prod.snd) = true)
      (hnow : t.now = s.lastOf (found.map Prod.snd)) (hpool : t.pool = s.pool.refill found) (hlog : t.log = s.log) :
      Ran st s t (.fetched i (some found))
  | chose (i : Nat) (checks : List ℚ) (result : Option (String × ℚ)) (horder : s.inOrder checks = true)
      (hscan : s.pool.scan st s.pool.pool.length checks = some (result, t.pool)) (hnow : t.now = s.lastOf checks)
      (hlog : t.log = .returned result s.free :: s.log) : Ran st s t (.choose i checks)
  | cleared (i : Nat) (raw : String) (hw : s.tasks i = .clearing raw)
      (ht : t = { s.setTask i .idle with pool := s.pool.clear raw }) : Ran st s t (.clear i)
  | suspected (i : Nat) (proxy : String) (suspects : String → Option (Nat × ℚ)) (hnow : t.now = s.now)
      (hpool : t.pool = { s.pool with suspects }) (hlog : t.log = s.log) : Ran st s t (.reportSuspect i proxy)
  | reported (i : Nat) (proxy : String) (ht : t = (s.setTask i .idle).bad st proxy) : Ran st s t (.reportBad i proxy)

theorem ran (h : step st api s a = some t) : Ran st s t a := by
  cases a with
  | tick now =>
    obtain ⟨hle, ht⟩ := Option.ite_none_right_eq_some.mp h
    cases ht
    exact .task (by simp) (by simp) hle rfl rfl
  | look i =>
    obtain ⟨-, ht⟩ := Option.ite_none_right_eq_some.mp h
    cases ht
    exact .task (by simp) (by simp) (le_refl _) rfl rfl
  | fetch i =>
    simp only [step] at h
    split at h
    · split at h
      · cases h
        exact .task (by simp) (by simp) (le_refl _) rfl rfl
      · split at h
        · cases h
        · split at h
          · cases h
            exact .task (by simp) (by simp) (le_refl _) rfl rfl
          · cases h
            exact .pruned i rfl rfl rfl
    · cases h
  | fetched i found =>
    obtain ⟨-, ht⟩ := Option.ite_none_right_eq_some.mp h
    cases found with
    | none =>
      cases ht
      exact .task (by simp) (by simp) (le_refl _) rfl rfl
    | some found =>
      obtain ⟨horder, ht⟩ := Option.ite_none_right_eq_some.mp ht
      cases ht
      exact .refilled i found horder rfl rfl rfl
  | choose i checks =>
    obtain ⟨⟨-, horder⟩, ht⟩ := Option.ite_none_right_eq_some.mp h
    obtain ⟨⟨result, p'⟩, hscan, rfl⟩ := Option.map_eq_some_iff.mp ht
    exact .chose i checks result horder hscan rfl rfl
  | reportGood i proxy =>
    obtain ⟨-, ht⟩ := Option.ite_none_right_eq_some.mp h
    cases ht
    split
    · exact .task (by simp) (by simp) (le_refl _) rfl rfl
    · exact .task (by simp) (by simp) (le_refl _) rfl rfl
  | clear i =>
    simp only [step] at h
    split at h
    · rename_i raw hw
      cases h
      exact .cleared i raw hw rfl
    · cases h
  | reportSuspect i proxy =>
    obtain ⟨-, ht⟩ := Option.ite_none_right_eq_some.mp h
    obtain ⟨suspects, he⟩ := ApiProxyPool.reportSuspect_snd st s.pool proxy s.now
    cases ht
    exact .suspected i proxy suspects rfl he rfl
  | reportBad i proxy =>
    obtain ⟨-, ht⟩ := Option.ite_none_right_eq_some.mp h
    cases ht
    exact .reported i proxy rfl

theorem did (hnd : s.pool.pool.Nodup) (h : step st api s a = some t) : Did st s t a := by
  cases ran h with
  | task _ _ hnow hpool hlog => exact .quiet (.same hnd hnow hpool) hlog
  | pruned i hnow hpool hlog =>
    refine .quiet ⟨hnow.ge, hpool ▸ hnd, ?_, ?_⟩ hlog
    · rw [hpool, hnow]
      exact ApiProxyPool.banned_prune st { s.pool with lastFetch := some s.now } s.now
    · rw [hpool, hnow]
      exact ApiProxyPool.fails_prune st { s.pool with lastFetch := some s.now } s.now
  | refilled i found horder hnow hpool hlog =>
    obtain ⟨hle, hlast⟩ := lastOf_spec horder
    obtain ⟨pool, banned, he, hnd', hkept⟩ := s.pool.refill_spec
      (fun x hx => (hlast x.2 (List.mem_map_of_mem hx)).2) hnd
    rw [he] at hpool
    refine .quiet ⟨hnow ▸ hle, hpool ▸ hnd', ?_, fun raw => .inl (by rw [hpool])⟩ hlog
    rw [hpool, hnow]
    exact hkept
  | chose i checks result horder hscan hnow hlog =>
    obtain ⟨hle, hlast⟩ := lastOf_spec horder
    have hs := ApiProxyPool.scan_spec hnd hscan
    generalize hpool : t.pool = p' at hs
    cases hs with
    | nothing hall =>
      refine .nothing i checks ⟨hnow ▸ hle, hpool ▸ List.nodup_nil, ?_, fun _ => .inl (by rw [hpool])⟩ ?_
      · rw [hpool]
        exact fun _ _ hk _ => hk
      · rw [hlog, free_eq_nil hall horder]
    | found proxy rest moment hc hf hnd' =>
      obtain ⟨hfrom, huntil⟩ := hlast moment hc
      obtain ⟨banned, he, hkept⟩ := s.pool.isBanned_snd proxy moment
      obtain ⟨hu1, hu2, hu3⟩ := ApiProxyPool.use_spec st { s.pool with banned, pool := rest ++ [proxy] } proxy hnd'
      rw [he] at hpool
      rw [← hpool] at hu1 hu2 hu3
      refine .returned i checks proxy moment ⟨hnow ▸ hle, hu1, fun k till hk hlt => ?_, fun raw => .inl (by rw [hu3])⟩ hfrom
        (hnow ▸ huntil) hf hlog
      rw [hu2]
      rw [hnow] at hlt
      exact hkept k till hk (lt_of_le_of_lt (WithTop.coe_le_coe.mpr huntil) hlt)
  | cleared i raw hw ht => exact .clear i raw hw ht
  | suspected i proxy suspects hnow hpool hlog =>
    refine .quiet ⟨hnow.ge, hpool ▸ hnd, ?_, fun _ => .inl (by rw [hpool])⟩ hlog
    rw [hpool]
    exact fun _ _ hk _ => hk
  | reported i proxy ht => exact .bad i proxy ht

theorem reachable_nodup (h : (poolMachine st api).Reachable s) : s.pool.pool.Nodup := by
  refine h.induct (I := fun s => s.pool.pool.Nodup) ?_ fun s a t hnd _ hstep => ?_
  · rintro s ⟨now, -, rfl⟩
    exact List.nodup_nil
  · cases did hnd hstep with
    | quiet hk | nothing _ _ hk | returned _ _ _ _ hk => exact hk.nodup
    | clear i raw _ ht => exact ht ▸ hnd
    | bad i proxy ht =>
      subst ht
      exact ApiProxyPool.nodup_reportBad hnd

/-! ## Cooldowns -/

/-- No one gets a proxy before the end of a cooldown that it got earlier. -/
def Rested : PoolEvent → PoolEvent → Prop
  | .returned (some (u, check)) _, .bad proxy moment (some cooldown) => u = proxy → ↑moment + cooldown ≤ ↑check
  | _, _ => True

/-- A report does not come with a cooldown that ends before one which is still on
record for one of the two spellings of its proxy. -/
def LongEnough (st : Setting) (s : PoolThreads) : PoolAct → Prop
  | .reportBad _ proxy => ∀ k till seconds, k = rawProxy proxy ∨ k = proxy → s.pool.banned k = some till →
      banSeconds st (strike st (s.pool.fails (rawProxy proxy)) s.now) = some seconds → till ≤ ↑s.now + seconds
  | _ => True

/-- A spelling is banned until then, or it is later already. -/
def Held (s : PoolThreads) (k : String) (bound : WithTop ℚ) : Prop :=
  bound ≤ ↑s.now ∨ ∃ till, s.pool.banned k = some till ∧ bound ≤ till

theorem Kept.held {k : String} {bound : WithTop ℚ} (hk : Kept st s t) (h : Held s k bound) : Held t k bound := by
  have hnow : (s.now : WithTop ℚ) ≤ t.now := WithTop.coe_le_coe.mpr hk.now
  rcases h with hle | ⟨till, hb, hle⟩
  · exact .inl (hle.trans hnow)
  · rcases lt_or_ge (t.now : WithTop ℚ) till with hlt | hge
    · exact .inr ⟨till, hk.banned k till hb hlt, hle⟩
    · exact .inl (hle.trans hge)

/-- A spelling that is not banned at a later moment is held no longer than until
then. -/
theorem Held.le {k : String} {bound : WithTop ℚ} {check : ℚ} (h : Held s k bound) (hc : s.now ≤ check)
    (hf : (s.pool.isBanned k check).1 = false) : bound ≤ ↑check := by
  rcases h with hle | ⟨till, hb, hle⟩
  · exact hle.trans (WithTop.coe_le_coe.mpr hc)
  · refine hle.trans (not_lt.mp fun hlt => ?_)
    rw [ApiProxyPool.isBanned_iff.mpr ⟨till, hb, hlt⟩] at hf
    cases hf

/-- What every cooldown of before still holds back. -/
structure Resting (s : PoolThreads) : Prop where
  nodup : s.pool.pool.Nodup
  held : ∀ proxy moment cooldown, .bad proxy moment (some cooldown) ∈ s.log →
    ∀ k, k = rawProxy proxy ∨ k = proxy → Held s k (↑moment + cooldown)
  rests : s.log.Pairwise Rested

theorem Resting.step (hs : Resting s) (hg : LongEnough st s a) (h : step st api s a = some t) : Resting t := by
  cases did hs.nodup h with
  | quiet hk hlog => exact ⟨hk.nodup, fun proxy m c hm k hkey => hk.held (hs.held proxy m c (hlog ▸ hm) k hkey),
      hlog ▸ hs.rests⟩
  | nothing i checks hk hlog =>
    refine ⟨hk.nodup, fun proxy m c hm k hkey => ?_, hlog ▸ List.pairwise_cons.mpr ⟨fun _ _ => trivial, hs.rests⟩⟩
    rw [hlog] at hm
    exact hk.held (hs.held proxy m c ((List.mem_cons.mp hm).resolve_left nofun) k hkey)
  | returned i checks proxy check hk hafter _ hf hlog =>
    have hold {e : PoolEvent} (hm : e ∈ t.log) (hne : ∀ r f, e ≠ .returned r f) : e ∈ s.log := by
      rw [hlog] at hm
      exact (List.mem_cons.mp hm).resolve_left (hne _ _)
    refine ⟨hk.nodup, fun u m c hm k hkey => hk.held (hs.held u m c (hold hm nofun) k hkey), ?_⟩
    rw [hlog]
    refine List.pairwise_cons.mpr ⟨fun e he => ?_, hs.rests⟩
    cases e with
    | returned => trivial
    | bad u m c =>
      cases c with
      | none => trivial
      | some c =>
        intro hu
        exact (hs.held u m c he proxy (eq_or_eq_rawProxy hu)).le hafter hf
  | clear i raw _ ht =>
    subst ht
    exact ⟨hs.nodup, hs.held, hs.rests⟩
  | bad i proxy ht =>
    subst ht
    refine ⟨ApiProxyPool.nodup_reportBad hs.nodup, fun u m c hm k hkey => ?_,
      List.pairwise_cons.mpr ⟨fun _ _ => trivial, hs.rests⟩⟩
    rcases List.mem_cons.mp hm with he | hm
    · obtain ⟨rfl, rfl, hc⟩ := PoolEvent.bad.inj he
      exact .inr ⟨_, ApiProxyPool.banned_reportBad hc.symm hkey, le_refl _⟩
    · rcases hs.held u m c hm k hkey with hle | ⟨till, hb, hle⟩
      · exact .inl hle
      · cases hc : banSeconds st (strike st (s.pool.fails (rawProxy proxy)) s.now) with
        | none => exact .inr ⟨till, (ApiProxyPool.banned_reportBad_of_not (.inr hc)).trans hb, hle⟩
        | some seconds =>
          by_cases hk : k = rawProxy proxy ∨ k = proxy
          · exact .inr ⟨_, ApiProxyPool.banned_reportBad hc hk, hle.trans (hg k till seconds hk hb hc)⟩
          · exact .inr ⟨till, (ApiProxyPool.banned_reportBad_of_not (.inl hk)).trans hb, hle⟩

/-- As long as no report ends a cooldown early, no one gets a proxy that rests; and
who gets none has found no proxy in the pool that was not banned. -/
theorem banned_rests (st : Setting) (api : Bool) :
    (∀ s, (poolMachine st api).Within (LongEnough st) s → s.log.Pairwise Rested) ∧
      ∀ s, (poolMachine st api).Reachable s → ∀ free, .returned none free ∈ s.log → free = [] := by
  constructor
  · intro s h
    have hs : Resting s := by
      refine h.induct ?_ fun s a t hs hg ht => hs.step hg ht
      rintro s ⟨now, -, rfl⟩
      exact ⟨List.nodup_nil, fun _ _ _ hm => absurd hm List.not_mem_nil, .nil⟩
    exact hs.rests
  · intro s h
    refine h.induct_with (fun s hr => reachable_nodup hr) (I := fun s => ∀ free, .returned none free ∈ s.log → free = [])
      ?_ (fun s a t hnd hs _ hstep free hm => ?_)
    · rintro s ⟨now, -, rfl⟩ free hm
      exact absurd hm List.not_mem_nil
    · cases did hnd hstep with
      | quiet _ hlog => exact hs free (hlog ▸ hm)
      | nothing i checks _ hlog =>
        rw [hlog] at hm
        rcases List.mem_cons.mp hm with he | hm
        · exact (PoolEvent.returned.inj he).2
        · exact hs free hm
      | returned i checks proxy check _ _ _ _ hlog =>
        rw [hlog] at hm
        exact hs free ((List.mem_cons.mp hm).resolve_left nofun)
      | clear i raw _ ht =>
        subst ht
        exact hs free hm
      | bad i proxy ht =>
        subst ht
        exact hs free ((List.mem_cons.mp hm).resolve_left nofun)

/-- Four threads get the same proxy. With the first two it fails; the third succeeds
and clears the count, and the fourth fails again. -/
def clearedBetween : List PoolAct :=
  let proxy := "http://1.1.1.1:80"
  [.look 0, .fetch 0, .fetched 0 (some [("1.1.1.1:80", 1)]), .choose 0 [1], .look 1, .choose 1 [1],
    .look 2, .choose 2 [1], .look 3, .choose 3 [1],
    .reportBad 0 proxy, .reportBad 1 proxy, .reportGood 2 proxy, .clear 2, .reportBad 3 proxy,
    .tick 60000001, .look 0, .fetch 0, .fetched 0 (some [("1.1.1.1:80", 60000001)]), .choose 0 [60000001]]

/-- The proxy that rests for two minutes comes back after one. -/
theorem clearedBetween_comes_back : ∃ s, (poolMachine {} true).Reachable s ∧ ¬ s.log.Pairwise Rested := by
  have hran : ∃ s, (poolMachine {} true).exec { now := 1 } clearedBetween = some s ∧
      s.log.take 3 = [.returned (some ("http://1.1.1.1:80", 60000001)) ["1.1.1.1:80"],
        .bad "http://1.1.1.1:80" 1 (some ↑(60000000 : ℚ)), .bad "http://1.1.1.1:80" 1 (some ↑(120000000 : ℚ))] :=
    Option.map_eq_some_iff.mp (by decide +kernel)
  obtain ⟨s, he, hlog⟩ := hran
  refine ⟨s, Machine.Reachable.exec (.start ⟨1, one_pos, rfl⟩) he, fun hp => ?_⟩
  have hp := hp.sublist (List.take_sublist 3 s.log)
  rw [hlog] at hp
  have hle : ((1 : ℚ) : WithTop ℚ) + ↑(120000000 : ℚ) ≤ ↑(60000001 : ℚ) :=
    List.rel_of_pairwise_cons hp (List.mem_cons_of_mem _ List.mem_cons_self) rfl
  norm_cast at hle

end PoolThreads

end Netspy
