import Netspy.Framework.Past
import Netspy.Impl.ProxyQuota
import Netspy.Proof.ProxyPool

/-!
# The quota of a stay

While a proxy is in the pool its count goes up by one each time it is returned, and
nothing else changes it (`ProxyEffect`). So a stay that nobody ends by a report ends with as
many returns as are left of the count that it began with (`Stay.Counts`): all of them,
if the count was cleared. But `_prune` clears it before the request to the provider, and
keeps it where a ban still runs.
-/

namespace Netspy

namespace ApiProxyPool

variable {st : Setting} {p p' : ApiProxyPool} {proxy q : String} {now : ℚ} {found : List (String × ℚ)}

theorem isBanned_banned_ne (h : q ≠ proxy) (p : ApiProxyPool) (now : ℚ) : (p.isBanned proxy now).2.banned q = p.banned q := by
  unfold isBanned
  split
  · rfl
  · split
    · rfl
    · exact Function.update_of_ne h ..

theorem isBanned_congr (h : p'.banned q = p.banned q) (now : ℚ) : (p'.isBanned q now).1 = (p.isBanned q now).1 := by
  rw [Bool.eq_iff_iff, isBanned_iff, isBanned_iff, h]

theorem isBanned_false (h : (p.isBanned proxy now).1 = false) : (p.isBanned proxy now).2.banned proxy = none := by
  unfold isBanned at h ⊢
  split
  · assumption
  · split
    · simp_all
    · exact Function.update_self ..

theorem picked_cons_free {rest : List String} {checks : List ℚ} (hban : (p.isBanned q now).1 = false) :
    ({ p with pool := q :: rest } : ApiProxyPool).picked (now :: checks) = some q := by
  rw [picked, List.zip_cons_cons, List.find?_cons_of_pos]
  · rfl
  · rw [isBanned_pool_fst, hban]
    rfl

theorem picked_cons_banned {rest : List String} {checks : List ℚ} (hban : (p.isBanned q now).1 = true) :
    ({ p with pool := q :: rest } : ApiProxyPool).picked (now :: checks) =
      ({ p with pool := rest } : ApiProxyPool).picked checks := by
  rw [picked, List.zip_cons_cons, List.find?_cons_of_neg]
  · simp only [picked, isBanned_pool]
  · simp [isBanned_pool_fst, hban]

theorem banned_isSome (h : (p.isBanned q now).1 = true) : (p.banned q).isSome := by
  obtain ⟨till, htill, -⟩ := isBanned_iff.mp h
  rw [htill]
  rfl

theorem Turned.picked {pool : List String} {checks : List ℚ} {result : Option (String × ℚ)}
    (h : Turned st p pool checks result p') (hnd : pool.Nodup) :
    ({ p with pool } : ApiProxyPool).picked checks = none ∧ (∀ q ∈ pool, (p.banned q).isSome) ∧ p' = { p with pool := [] } ∨
      ∃ proxy now kept, ({ p with pool } : ApiProxyPool).picked checks = some proxy ∧ proxy ∈ kept ∧ kept ⊆ pool ∧
        kept.Nodup ∧
        (p.isBanned proxy now).1 = false ∧ (∀ q ∈ pool, q ∈ kept ∨ (p.banned q).isSome) ∧
        p' = { (p.isBanned proxy now).2 with pool := kept }.use st proxy := by
  induction h with
  | nothing checks => exact .inl ⟨rfl, fun q hq => absurd hq List.not_mem_nil, rfl⟩
  | @banned q now rest checks _ _ hban _ ih =>
    rw [picked_cons_banned hban]
    have hq := banned_isSome hban
    rcases ih (List.nodup_cons.mp hnd).2 with
      ⟨hnone, hbanned, rfl⟩ | ⟨proxy, moment, kept, hpicked, hmem, hsub, hkept, hfree, hall, rfl⟩
    · exact .inl ⟨hnone, List.forall_mem_cons.mpr ⟨hq, hbanned⟩, rfl⟩
    · exact .inr ⟨proxy, moment, kept, hpicked, hmem, fun k hk => List.mem_cons_of_mem q (hsub hk), hkept, hfree,
        List.forall_mem_cons.mpr ⟨.inr hq, hall⟩, rfl⟩
  | @found q now rest checks hf =>
    have hperm : (rest ++ [q]).Perm (q :: rest) := List.perm_append_singleton q rest
    exact .inr ⟨q, now, rest ++ [q], picked_cons_free hf, by simp, hperm.subset, hperm.nodup_iff.mpr hnd, hf,
      fun k hk => .inl (hperm.mem_iff.mpr hk), rfl⟩

/-- The loop of `get_proxy` drops what is banned, and hands out the first that is not. -/
theorem scan_picked {checks : List ℚ} {result : Option (String × ℚ)} (hnd : p.pool.Nodup)
    (h : p.scan st p.pool.length checks = some (result, p')) :
    p.picked checks = none ∧ (∀ q ∈ p.pool, (p.banned q).isSome) ∧ p' = { p with pool := [] } ∨
      ∃ proxy now pool, p.picked checks = some proxy ∧ proxy ∈ pool ∧ pool ⊆ p.pool ∧ pool.Nodup ∧
        (p.isBanned proxy now).1 = false ∧ (∀ q ∈ p.pool, q ∈ pool ∨ (p.banned q).isSome) ∧
        p' = { (p.isBanned proxy now).2 with pool }.use st proxy :=
  (turned_of_scan hnd h).picked hnd

/-- What is appended was not banned when it was looked at, and is not after that. -/
theorem refill_begun (p : ApiProxyPool) (found : List (String × ℚ)) :
    ∃ pool banned, p.refill found = { p with pool, banned } ∧ p.pool ⊆ pool ∧
      (∀ k, banned k = none ∨ banned k = p.banned k) ∧
      ∀ q ∈ pool, q ∉ p.pool → banned q = none ∧ ∃ now, (q, now) ∈ found ∧ (p.isBanned q now).1 = false := by
  induction found generalizing p with
  | nil => exact ⟨p.pool, p.banned, rfl, List.Subset.refl _, fun _ => .inr rfl, fun q hq hnot => absurd hq hnot⟩
  | cons entry found ih =>
    obtain ⟨proxy, now⟩ := entry
    cases hban : (p.isBanned proxy now).1 with
    | true =>
      obtain ⟨pool, banned, he, hsub, hb, hnew⟩ := ih p
      refine ⟨pool, banned, ?_, hsub, hb, fun q hq hnot => ?_⟩
      · simp only [refill, hban, isBanned_of_isBanned hban]
        exact he
      · obtain ⟨hnone, moment, hmem, hfree⟩ := hnew q hq hnot
        exact ⟨hnone, moment, List.mem_cons_of_mem _ hmem, hfree⟩
    | false =>
      obtain ⟨b, hb, -⟩ := p.isBanned_snd proxy now
      have hnone : b proxy = none := by
        have h := isBanned_false hban
        rwa [hb] at h
      have hsame (k : String) (hk : k ≠ proxy) : b k = p.banned k := by
        have h := isBanned_banned_ne hk p now
        rwa [hb] at h
      have hkeep (k : String) : b k = none ∨ b k = p.banned k := by
        by_cases hk : k = proxy
        · exact .inl (hk ▸ hnone)
        · exact .inr (hsame k hk)
      obtain ⟨pool, banned, he, hsub, hb', hnew⟩ :=
        ih { p with pool := if proxy ∉ p.pool then p.pool ++ [proxy] else p.pool, banned := b }
      refine ⟨pool, banned, ?_, fun k hk => hsub ?_, fun k => ?_, fun q hq hnot => ?_⟩
      · simp only [refill, hban, hb, Bool.not_false, Bool.true_and, decide_eq_true_eq]
        rw [← he]
        congr 1
        split
        · rfl
        · rfl
      · show k ∈ if proxy ∉ p.pool then p.pool ++ [proxy] else p.pool
        split
        · exact List.mem_append_left _ hk
        · exact hk
      · rcases hb' k with h | h
        · exact .inl h
        · rw [h]
          exact hkeep k
      · by_cases hqp : q = proxy
        · subst hqp
          refine ⟨?_, now, List.mem_cons_self, hban⟩
          rcases hb' q with h | h
          · exact h
          · exact h.trans hnone
        · obtain ⟨hgone, moment, hmem, hfree⟩ := hnew q hq (by
            show q ∉ if proxy ∉ p.pool then p.pool ++ [proxy] else p.pool
            split
            · simpa using ⟨hnot, hqp⟩
            · exact hnot)
          exact ⟨hgone, moment, List.mem_cons_of_mem _ hmem, (isBanned_congr (hsame q hqp) moment).symm.trans hfree⟩

theorem use_pool (st : Setting) (p : ApiProxyPool) (proxy : String) :
    (p.use st proxy).pool =
      if st.PROXY_MAX_USE_TIMES ≤ ((p.useCount proxy).getD 0 + 1 : Nat) then p.pool.erase proxy else p.pool := by
  unfold use
  dsimp only
  split
  · rfl
  · rfl

theorem use_useCount (st : Setting) (p : ApiProxyPool) (proxy : String) :
    (p.use st proxy).useCount = Function.update p.useCount proxy (some ((p.useCount proxy).getD 0 + 1)) := by
  unfold use
  dsimp only
  split
  · rfl
  · rfl

end ApiProxyPool

/-! ## What a step does to a proxy in the pool -/

open ApiProxyPool (picked)

/-- Everything that a step can do to a proxy that is in the pool. -/
inductive ProxyEffect (st : Setting) (p p' : ApiProxyPool) (q : String) (handed : Option String) (bans : Bool) : Prop
  | stays (hh : handed ≠ some q) (hbans : bans = false) (hmem : q ∈ p'.pool)
      (hcount : (p'.useCount q).getD 0 = (p.useCount q).getD 0) (hb : p.banned q = none → p'.banned q = none)
  | handed (hh : handed = some q) (hbans : bans = false) (hcount : (p'.useCount q).getD 0 = (p.useCount q).getD 0 + 1)
      (hmem : q ∈ p'.pool ↔ ¬ st.PROXY_MAX_USE_TIMES ≤ ((p.useCount q).getD 0 + 1 : Nat))
      (hb : p.banned q = none → p'.banned q = none)
  | dropped (hh : handed ≠ some q) (hbans : bans = false) (hmem : q ∉ p'.pool) (hb : (p.banned q).isSome)
  | reported (hh : handed ≠ some q) (hbans : bans = true) (hcount : (p'.useCount q).getD 0 = (p.useCount q).getD 0)

namespace PoolThreads

variable {st : Setting} {api : Bool} {s t : PoolThreads} {a : PoolAct} {q : String}

/-- The end of `get_proxy`, which hands out `proxy` and drops it if it is used up. -/
theorem effect_use {checks : List ℚ} {proxy : String} {now : ℚ} {pool : List String} {i : Nat}
    (hpicked : s.pool.picked checks = some proxy) (hmem : proxy ∈ pool) (hpool : pool.Nodup)
    (hfree : (s.pool.isBanned proxy now).1 = false) (hall : q ∈ pool ∨ (s.pool.banned q).isSome) :
    ProxyEffect st s.pool ({ (s.pool.isBanned proxy now).2 with pool }.use st proxy) q
      (PoolAct.handed s (.choose i checks)) false := by
  obtain ⟨b, hb, -⟩ := s.pool.isBanned_snd proxy now
  have hproxy : b proxy = none := by
    have h := ApiProxyPool.isBanned_false hfree
    rwa [hb] at h
  have hother (hqp : q ≠ proxy) : b q = s.pool.banned q := by
    have h := ApiProxyPool.isBanned_banned_ne hqp s.pool now
    rwa [hb] at h
  have hbanned := (ApiProxyPool.use_spec st { s.pool with banned := b, pool } proxy hpool).2.1
  have hcount := ApiProxyPool.use_useCount st { s.pool with banned := b, pool } proxy
  have hin := ApiProxyPool.use_pool st { s.pool with banned := b, pool } proxy
  rw [hb]
  by_cases hqp : q = proxy
  · subst hqp
    refine .handed hpicked rfl ?_ ?_ fun _ => ?_
    · rw [hcount, Function.update_self]
      rfl
    · rw [hin]
      split
      next hle => exact iff_of_false hpool.not_mem_erase (not_not_intro hle)
      next hlt => exact iff_of_true hmem hlt
    · rw [hbanned]
      exact hproxy
  · have hnot : s.pool.picked checks ≠ some q := by
      rw [hpicked]
      exact fun h => hqp (Option.some.inj h).symm
    by_cases hq : q ∈ pool
    · refine .stays hnot rfl ?_ ?_ fun hnone => ?_
      · rw [hin]
        split
        · exact (List.mem_erase_of_ne hqp).mpr hq
        · exact hq
      · rw [hcount, Function.update_of_ne hqp]
      · rw [hbanned]
        exact (hother hqp).trans hnone
    · refine .dropped hnot rfl ?_ (hall.resolve_left hq)
      rw [hin]
      split
      · exact fun h => hq (List.mem_of_mem_erase h)
      · exact hq

/-- Everything that a step can do to the pool. -/
inductive Moved (st : Setting) (s : PoolThreads) (p : ApiProxyPool) : PoolAct → Prop
  | same {a : PoolAct} (hh : a.handed s = none) (hbans : ∀ q, a.bans q = false) (hpool : p.pool = s.pool.pool)
      (hcount : p.useCount = s.pool.useCount) (hb : p.banned = s.pool.banned) : Moved st s p a
  | pruned (i : Nat) (hp : p = { s.pool with lastFetch := some s.now }.prune st s.now) : Moved st s p (.fetch i)
  | refilled (i : Nat) (found : List (String × ℚ)) (hp : p = s.pool.refill found) : Moved st s p (.fetched i (some found))
  | chose (i : Nat) (checks : List ℚ) (result : Option (String × ℚ))
      (hscan : s.pool.scan st s.pool.pool.length checks = some (result, p)) : Moved st s p (.choose i checks)
  | reported (i : Nat) (proxy : String) (hp : p = s.pool.reportBad st proxy s.now) : Moved st s p (.reportBad i proxy)

theorem moved (h : s.step st api a = some t) : Moved st s t.pool a := by
  cases ran h with
  | task hchoose hbad _ hpool _ =>
    have hhanded : a.handed s = none := by
      cases a with
      | choose i checks => exact absurd rfl (hchoose i checks)
      | _ => rfl
    have hbans (q : String) : a.bans q = false := by
      cases a with
      | reportBad i proxy => exact absurd rfl (hbad i proxy)
      | _ => rfl
    exact .same hhanded hbans (by rw [hpool]) (by rw [hpool]) (by rw [hpool])
  | pruned i _ hpool _ => exact .pruned i hpool
  | refilled i found _ _ hpool _ => exact .refilled i found hpool
  | chose i checks result _ hscan _ _ => exact .chose i checks result hscan
  | cleared i raw _ ht =>
    rw [ht]
    exact .same rfl (fun _ => rfl) rfl rfl rfl
  | suspected i proxy suspects _ hpool _ => exact .same rfl (fun _ => rfl) (by rw [hpool]) (by rw [hpool]) (by rw [hpool])
  | reported i proxy ht =>
    rw [ht]
    exact .reported i proxy rfl

theorem effect {p : ApiProxyPool} (hnd : s.pool.pool.Nodup) (hq : q ∈ s.pool.pool) (h : Moved st s p a) :
    ProxyEffect st s.pool p q (a.handed s) (a.bans q) := by
  cases h with
  | same hh hbans hpool hcount hb =>
    refine .stays ?_ (hbans q) (hpool ▸ hq) (by rw [hcount]) fun hnone => by rwa [hb]
    rw [hh]
    nofun
  | pruned i hp =>
    subst hp
    refine .stays nofun rfl hq ?_ fun hnone => ?_
    · show (if q ∈ s.pool.pool ∨ _ then s.pool.useCount q else none).getD 0 = _
      rw [if_pos (.inl hq)]
    · show (s.pool.banned q).filter _ = none
      rw [hnone]
      rfl
  | refilled i found hp =>
    subst hp
    obtain ⟨pool, banned, he, hsub, hb, -⟩ := s.pool.refill_begun found
    rw [he]
    refine .stays nofun rfl (hsub hq) rfl fun hnone => ?_
    rcases hb q with h | h
    · exact h
    · exact h.trans hnone
  | chose i checks result hscan =>
    rcases ApiProxyPool.scan_picked hnd hscan with
      ⟨hnone, hall, rfl⟩ | ⟨proxy, now, pool, hpicked, hmem, -, hpool, hfree, hall, rfl⟩
    · refine .dropped ?_ rfl List.not_mem_nil (hall q hq)
      rw [PoolAct.handed, hnone]
      nofun
    · exact effect_use hpicked hmem hpool hfree (hall q hq)
  | reported i proxy hp =>
    subst hp
    have hcount := congrFun (ApiProxyPool.useCount_reportBad st s.pool proxy s.now) q
    by_cases hbans : q = rawProxy proxy ∨ q = proxy
    · exact .reported nofun (decide_eq_true hbans) (by rw [hcount])
    · refine .stays nofun (decide_eq_false hbans) ?_ (by rw [hcount]) fun hb => ?_
      · rcases ApiProxyPool.pool_reportBad st s.pool proxy s.now with hpool | hpool
        · exact hpool ▸ hq
        · exact hpool ▸ (List.mem_erase_of_ne (not_or.mp hbans).1).mpr hq
      · exact (ApiProxyPool.banned_reportBad_of_not (.inl hbans)).trans hb

/-- A proxy that is in the pool after a step, and was not before, has just been
appended. -/
theorem appended {p : ApiProxyPool} (hnd : s.pool.pool.Nodup) (hq : q ∈ p.pool) (hnot : q ∉ s.pool.pool)
    (h : Moved st s p a) :
    p.useCount = s.pool.useCount ∧ p.banned q = none ∧
      ∃ i found now, a = .fetched i (some found) ∧ (q, now) ∈ found ∧ (s.pool.isBanned q now).1 = false := by
  cases h with
  | same _ _ hpool => exact absurd (hpool ▸ hq) hnot
  | pruned i hp =>
    subst hp
    exact absurd hq hnot
  | refilled i found hp =>
    subst hp
    obtain ⟨pool, banned, he, -, -, hnew⟩ := s.pool.refill_begun found
    rw [he] at hq ⊢
    obtain ⟨hnone, now, hmem, hfree⟩ := hnew q hq hnot
    exact ⟨rfl, hnone, i, found, now, rfl, hmem, hfree⟩
  | chose i checks result hscan =>
    rcases ApiProxyPool.scan_picked hnd hscan with ⟨-, -, rfl⟩ | ⟨proxy, now, pool, -, -, hsub, -, -, -, rfl⟩
    · cases hq
    · refine absurd (hsub ?_) hnot
      rw [ApiProxyPool.use_pool] at hq
      split at hq
      · exact List.mem_of_mem_erase hq
      · exact hq
  | reported i proxy hp =>
    subst hp
    rcases ApiProxyPool.pool_reportBad st s.pool proxy s.now with hpool | hpool
    · exact absurd (hpool ▸ hq) hnot
    · exact absurd (List.mem_of_mem_erase (hpool ▸ hq)) hnot

end PoolThreads

/-! ## What a step does to a stay -/

/-- The count of a proxy goes on from what it was when the stay began; a stay ends when
it is used up, or after a report. -/
structure Stay.Counts (st : Setting) (p : ApiProxyPool) (x : Stay) : Prop where
  going : x.ended = false → x.proxy ∈ p.pool ∧ (p.useCount x.proxy).getD 0 = x.before + x.returned ∧
    (x.returned = 0 ∨ (↑(x.before + x.returned) : Int) < st.PROXY_MAX_USE_TIMES) ∧
    (x.reportedBad = false → p.banned x.proxy = none)
  most : (x.returned : Int) ≤ max 1 (st.PROXY_MAX_USE_TIMES - x.before)
  usedUp : x.ended = true → x.reportedBad = false → (x.returned : Int) = max 1 (st.PROXY_MAX_USE_TIMES - x.before)

namespace PoolStays

variable {st : Setting} {api : Bool} {p p' : ApiProxyPool} {handed : Option String} {bans : String → Bool} {x : Stay}
  {s t : PoolStays} {a : PoolAct} {as : List PoolAct}

theorem goOn_ended (h : x.ended = true) (pool : List String) : goOn handed bans pool x = x := by
  rw [goOn, if_pos h]

theorem goOn_going (h : x.ended = false) (pool : List String) :
    goOn handed bans pool x = { x with
      returned := if handed = some x.proxy then x.returned + 1 else x.returned
      reportedBad := x.reportedBad || bans x.proxy
      ended := x.proxy ∉ pool } := by
  rw [goOn, h, if_neg Bool.false_ne_true]

theorem counts_goOn (h : x.Counts st p)
    (he : x.proxy ∈ p.pool → ProxyEffect st p p' x.proxy handed (bans x.proxy)) :
      (goOn handed bans p'.pool x).Counts st p' := by
  cases hended : x.ended with
  | true =>
    rw [goOn_ended hended]
    refine ⟨fun hgo => ?_, h.most, h.usedUp⟩
    rw [hended] at hgo
    cases hgo
  | false =>
    obtain ⟨hmem, hcount, hleft, hfree⟩ := h.going hended
    rw [goOn_going hended]
    cases he hmem with
    | stays hh hbans hmem' hcount' hb =>
      rw [if_neg hh, hbans, Bool.or_false]
      refine ⟨fun _ => ⟨hmem', hcount'.trans hcount, hleft, fun hbad => hb (hfree hbad)⟩, h.most, fun hover => ?_⟩
      simp [hmem'] at hover
    | handed hh hbans hcount' hmem' hb =>
      rw [if_pos hh, hbans, Bool.or_false]
      rw [hcount] at hcount' hmem'
      refine ⟨fun hgo => ?_, ?_, fun hover _ => ?_⟩
      · have hin : x.proxy ∈ p'.pool := by simpa using hgo
        have hlt := hmem'.mp hin
        exact ⟨hin, hcount', .inr (by push_cast at hlt ⊢; omega), fun hbad => hb (hfree hbad)⟩
      · push_cast
        omega
      · have hout : x.proxy ∉ p'.pool := by simpa using hover
        have hle := not_not.mp (mt hmem'.mpr hout)
        push_cast at hle ⊢
        omega
    | dropped hh hbans hmem' hb =>
      rw [if_neg hh, hbans, Bool.or_false]
      refine ⟨fun hgo => ?_, h.most, fun _ hbad => ?_⟩
      · exact absurd hmem' (by simpa using hgo)
      · rw [hfree hbad] at hb
        cases hb
    | reported hh hbans hcount' =>
      rw [if_neg hh, hbans, Bool.or_true]
      refine ⟨fun hgo => ⟨by simpa using hgo, hcount'.trans hcount, hleft, nofun⟩, h.most, nofun⟩

/-- All stays count, and so does what began now. -/
theorem counts_step (hnd : s.threads.pool.pool.Nodup) (hs : ∀ x ∈ s.stays, x.Counts st s.threads.pool)
    (h : step st api s a = some t) : ∀ x ∈ t.stays, x.Counts st t.threads.pool := by
  obtain ⟨threads, hstep, rfl⟩ := Option.map_eq_some_iff.mp h
  have hmoved := PoolThreads.moved hstep
  intro x hx
  rcases List.mem_append.mp hx with hx | hx
  · obtain ⟨y, hy, rfl⟩ := List.mem_map.mp hx
    exact counts_goOn (hs y hy) fun hmem => PoolThreads.effect hnd hmem hmoved
  · obtain ⟨q, hq, rfl⟩ := List.mem_map.mp hx
    obtain ⟨hmem, hnot⟩ := List.mem_filter.mp hq
    obtain ⟨hcount, hfree, -⟩ := PoolThreads.appended hnd hmem (of_decide_eq_true hnot) hmoved
    refine ⟨fun _ => ⟨hmem, by rw [hcount]; rfl, .inl rfl, fun _ => hfree⟩, ?_, nofun⟩
    show ((0 : Nat) : Int) ≤ _
    omega

theorem reachable_threads (h : (stayMachine st api).Reachable s) : (poolMachine st api).Reachable s.threads := by
  refine h.map PoolStays.threads ?_ fun s a t ht => ?_
  · rintro s ⟨now, hnow, rfl⟩
    exact ⟨now, hnow, rfl⟩
  · obtain ⟨threads, hstep, rfl⟩ := Option.map_eq_some_iff.mp ht
    exact .inr ⟨a, hstep⟩

theorem counts (h : (stayMachine st api).Reachable s) : ∀ x ∈ s.stays, x.Counts st s.threads.pool := by
  refine h.induct_with (J := fun s => s.threads.pool.pool.Nodup)
    (I := fun s => ∀ x ∈ s.stays, x.Counts st s.threads.pool) ?_ ?_ ?_
  · exact fun s hs => PoolThreads.reachable_nodup (reachable_threads hs)
  · rintro s ⟨now, -, rfl⟩
    nofun
  · exact fun s a t hnd hs _ ht => counts_step hnd hs ht

/-- A stay that ended without a report is as long as the count allows that it began with,
and so it is as long as it is to be if and only if that was cleared, or one use is all. -/
theorem keepsQuota_iff (hm : 1 ≤ st.PROXY_MAX_USE_TIMES) (h : (stayMachine st api).Reachable s) (hx : x ∈ s.stays) :
    x.Keeps st ↔ (x.ended = true → x.reportedBad = false → st.PROXY_MAX_USE_TIMES = 1 ∨ x.before = 0) := by
  have hc := counts h x hx
  have hmost := hc.most
  constructor
  · rintro ⟨-, hexact⟩ hover hbad
    have heq := hc.usedUp hover hbad
    have hM := hexact hover hbad
    omega
  · intro hfresh
    refine ⟨by omega, fun hover hbad => ?_⟩
    have heq := hc.usedUp hover hbad
    rcases hfresh hover hbad with h | h
    · omega
    · omega

/-- What `Fresh` says of the stays. -/
theorem fresh_step (hs : ∀ x ∈ s.stays, st.PROXY_MAX_USE_TIMES = 1 ∨ x.before = 0) (hnd : s.threads.pool.pool.Nodup)
    (hg : Fresh st s a) (h : step st api s a = some t) : ∀ x ∈ t.stays, st.PROXY_MAX_USE_TIMES = 1 ∨ x.before = 0 := by
  obtain ⟨threads, hstep, rfl⟩ := Option.map_eq_some_iff.mp h
  intro x hx
  rcases List.mem_append.mp hx with hx | hx
  · obtain ⟨y, hy, rfl⟩ := List.mem_map.mp hx
    have hbefore : (goOn (a.handed s.threads) (fun proxy => a.bans proxy) threads.pool.pool y).before = y.before := by
      unfold goOn
      split
      · rfl
      · rfl
    rw [hbefore]
    exact hs y hy
  · obtain ⟨q, hq, rfl⟩ := List.mem_map.mp hx
    obtain ⟨hmem, hnot⟩ := List.mem_filter.mp hq
    have hnew := of_decide_eq_true hnot
    obtain ⟨-, -, i, found, now, rfl, hfound, hfree⟩ := PoolThreads.appended hnd hmem hnew (PoolThreads.moved hstep)
    refine hg.imp id fun hall => ?_
    rcases hall (q, now) hfound with hin | hban | hzero
    · exact absurd hin hnew
    · rw [hfree] at hban
      cases hban
    · exact hzero

/-- In a run in which what `_fetch` appends has no use count, each stay keeps its
quota. -/
theorem quota (hm : 1 ≤ st.PROXY_MAX_USE_TIMES) (hs : (stayMachine st api).start s)
    (hg : (stayMachine st api).Meets (Fresh st) s as) (he : (stayMachine st api).exec s as = some t) :
    ∀ x ∈ t.stays, x.Keeps st := by
  have hw := Machine.Within.exec (.start hs) hg he
  have hfresh : ∀ x ∈ t.stays, st.PROXY_MAX_USE_TIMES = 1 ∨ x.before = 0 := by
    refine hw.induct_with (J := fun s => s.threads.pool.pool.Nodup)
      (I := fun s => ∀ x ∈ s.stays, st.PROXY_MAX_USE_TIMES = 1 ∨ x.before = 0) ?_ ?_ ?_
    · exact fun s hs => PoolThreads.reachable_nodup (reachable_threads hs.reachable)
    · rintro s ⟨now, -, rfl⟩
      nofun
    · exact fun s a t hnd hs hg ht => fresh_step hs hnd hg ht
  exact fun x hx => (keepsQuota_iff hm hw.reachable hx).mpr fun _ _ => hfresh x hx

def twice : Setting := { PROXY_MAX_USE_TIMES := 2 }

/-- The pool is empty, and is filled with one proxy. -/
def fill (request answer : ℚ) : List PoolAct :=
  [.tick request, .look 0, .fetch 0, .tick answer, .fetched 0 (some [("1.1.1.1:80", answer)])]

/-- A proxy is used up. -/
def usedUp : List PoolAct := fill 1 2 ++ [PoolAct.choose 0 [3], .look 0, .choose 0 [4]]

theorem quota_usedUp : ∃ t, (stayMachine twice true).exec { threads := { now := 1 } } usedUp = some t ∧
    ∀ x ∈ t.stays, x.Keeps twice := by
  have h : ((stayMachine twice true).exec { threads := { now := 1 } } usedUp).isSome := by decide +kernel
  obtain ⟨t, ht⟩ := Option.isSome_iff_exists.mp h
  exact ⟨t, ht, quota (by decide) ⟨1, by decide, rfl⟩ (by decide +kernel) ht⟩

/-- A proxy is used once and reported bad; its ban of a minute runs when the provider is
asked, and is over when the answer comes. -/
def banOver : List PoolAct :=
  fill 1 2 ++ [PoolAct.choose 0 [3], .reportBad 0 "http://1.1.1.1:80"] ++ fill 60000002 60000004 ++
    [PoolAct.choose 0 [60000005]]

/-- In its second stay it is returned once. -/
theorem banOver_once : ∃ t, (stayMachine twice true).exec { threads := { now := 1 } } banOver = some t ∧
    ∃ x ∈ t.stays, x.ended = true ∧ x.reportedBad = false ∧ x.returned = 1 ∧ ¬ x.Keeps twice := by
  have h : ((stayMachine twice true).exec { threads := { now := 1 } } banOver).map PoolStays.stays =
      some [⟨"1.1.1.1:80", 0, 1, true, true⟩, ⟨"1.1.1.1:80", 1, 1, false, true⟩] := by
    decide +kernel
  obtain ⟨t, ht, hstays⟩ := Option.map_eq_some_iff.mp h
  refine ⟨t, ht, ⟨"1.1.1.1:80", 1, 1, false, true⟩, ?_, by decide⟩
  rw [hstays]
  exact List.mem_cons_of_mem _ (List.mem_singleton_self _)

end PoolStays

end Netspy
