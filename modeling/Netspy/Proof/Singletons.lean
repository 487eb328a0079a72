import Netspy.Impl.Singletons

/-!
# What the singletons give out

Of every call that returns, the object was made for its key and was still in the dict
when the call began (`Once.Kept.returns`). So nobody gets what was closed before he
asked, and of the objects that are not yet taken out each key has one.

`defaultKey_eq_iff`: two calls have one key if and only if they want the same.
-/

namespace Netspy

/-! ## `get_default_downloader` -/

/-- What a request needs: a browser, the imitation of one, an event loop, or `httpx`. -/
def suited (st : DownloaderSetting) (request : Request) : DefaultDownloader :=
  if request.render then .playwright
  else if (resolveImpersonate st request).isSome then .curl (wantsSession st request) none
  else if st.DOWNLOADER_ASYNC then .asyncHttpx
  else .httpx (wantsSession st request)

theorem buildDownloader_defaultKey (st : DownloaderSetting) (request : Request) :
    buildDownloader st (defaultKey st request) request = suited st request := by
  unfold defaultKey suited
  cases request.render <;> cases (resolveImpersonate st request).isSome <;> cases st.DOWNLOADER_ASYNC <;>
    cases hw : wantsSession st request <;> simp [buildDownloader, hw]

theorem defaultKey_eq_iff {st : DownloaderSetting} {x y : Request} :
    defaultKey st x = defaultKey st y ↔ suited st x = suited st y := by
  unfold defaultKey suited
  cases x.render <;> cases (resolveImpersonate st x).isSome <;> cases st.DOWNLOADER_ASYNC <;>
    cases wantsSession st x <;> cases y.render <;> cases (resolveImpersonate st y).isSome <;>
    cases wantsSession st y <;> simp

/-- It imitates the browser that the request asks for. -/
theorem impersonates_suited (st : DownloaderSetting) (request : Request) :
    (suited st request).impersonates st request = if request.render then none else resolveImpersonate st request := by
  unfold suited
  cases request.render with
  | true => rfl
  | false =>
    cases hi : resolveImpersonate st request with
    | some browser => exact hi
    | none => cases st.DOWNLOADER_ASYNC <;> rfl

/-- Every request gets a downloader of the kind that it needs, though another one's may
have built it, which imitates the browser that the request asks for, and none that
`close_default_downloaders` had taken out before. There is one of each kind at a time,
and none is closed twice. -/
theorem default_downloader_suits {st : DownloaderSetting} {s : Once Request DefaultKey}
    (h : (defaultDownloaders st).Reachable s) :
    (∀ r ∈ s.returned, downloaderAt st s r.object = some (suited st r.arg) ∧
        (downloaderAt st s r.object).map (·.impersonates st r.arg) =
          some (if r.arg.render then none else resolveImpersonate st r.arg) ∧ ¬ s.Stale r) ∧
      (∀ r ∈ s.returned, ∀ r' ∈ s.returned, suited st r.arg = suited st r'.arg → ¬ s.Gone r.object →
        ¬ s.Gone r'.object → r.object = r'.object) ∧
      s.closed.Nodup ∧ ∀ object ∈ s.closed, s.Gone object := by
  have hk := Once.kept h
  have hc := Once.closes h
  refine ⟨fun r hr => ?_, fun r hr r' hr' he => hk.same hr hr' (defaultKey_eq_iff.mpr he), hc.nodup, hc.closed⟩
  obtain ⟨-, ⟨arg, hmade, hkey⟩, hs⟩ := hk.returns r hr
  have hat : downloaderAt st s r.object = some (suited st r.arg) := by
    rw [downloaderAt, hmade, Option.map_some, buildDownloader_defaultKey, defaultKey_eq_iff.mp hkey]
  exact ⟨hat, by rw [hat, Option.map_some, impersonates_suited], hs⟩

/-- Two threads ask for the same session, and get one downloader. It is closed while a
third thread builds the next one. -/
def twoSessions : List (OnceAct Request) :=
  [.get 0 { url := "a", useSession := some true }, .get 1 { url := "b", useSession := some true }, .enter 1,
    .make 1 false, .enter 0, .take 3, .get 2 { url := "c", useSession := some true }, .enter 2, .close 3 false,
    .make 2 false, .finish 3]

theorem twoSessions_ran : ((defaultDownloaders {}).exec {} twoSessions).map (fun s =>
    (s.returned.map OnceReturn.object, s.taken, s.closed)) = some ([0, 0, 1], [[0]], [0]) := by
  decide

theorem default_downloader_suits_twoSessions : ∃ s, (defaultDownloaders {}).exec {} twoSessions = some s ∧
    s.returned.map OnceReturn.object = [0, 0, 1] ∧
    ∀ r ∈ s.returned, downloaderAt {} s r.object = some (suited {} r.arg) ∧
      (downloaderAt {} s r.object).map (·.impersonates {} r.arg) =
        some (if r.arg.render then none else resolveImpersonate {} r.arg) ∧ ¬ s.Stale r := by
  obtain ⟨s, he, hs⟩ := Option.map_eq_some_iff.mp twoSessions_ran
  have hr : (defaultDownloaders {}).Reachable s := Machine.Reachable.exec (.start rfl) he
  exact ⟨s, he, congrArg Prod.fst hs, (default_downloader_suits hr).1⟩

/-! ## `get_proxy_pool` -/

/-- A pool that `get_proxy_pool` returns was not yet taken out by `close_proxy_pool` when
it was called. At most one pool is not taken out, and none is closed twice. -/
theorem proxy_pool_current {s : Once Unit Unit} (h : proxyPools.Reachable s) :
    (∀ r ∈ s.returned, ¬ s.Stale r) ∧
      (∀ r ∈ s.returned, ∀ r' ∈ s.returned, ¬ s.Gone r.object → ¬ s.Gone r'.object → r.object = r'.object) ∧
      s.made.length ≤ s.taken.flatten.length + 1 ∧ s.closed.Nodup ∧ ∀ object ∈ s.closed, s.Gone object := by
  have hk := Once.kept h
  have hc := Once.closes h
  refine ⟨fun r hr => (hk.returns r hr).2.2, fun r hr r' hr' => hk.same hr hr' rfl, ?_, hc.nodup, hc.closed⟩
  have hlen := hk.places.length_eq
  have hone : s.items.length ≤ 1 := by
    have hkeys := hk.keys
    rcases he : s.items with _ | ⟨e, _ | ⟨e', items⟩⟩
    · simp
    · simp
    · simp [he] at hkeys
  rw [List.length_append, List.length_map, List.length_range] at hlen
  omega

/-- While one thread closes the pool, another one loads the next. -/
def reopened : List (OnceAct Unit) :=
  [.get 0 (), .enter 0, .make 0 false, .get 1 (), .take 2, .get 0 (), .enter 0, .make 0 false, .close 2 false,
    .finish 2, .get 1 ()]

theorem reopened_ran : (proxyPools.exec {} reopened).map (fun s => (s.returned.map OnceReturn.object, s.closed)) =
    some ([0, 0, 1, 1], [0]) := by
  decide

theorem proxy_pool_current_reopened : ∃ s, proxyPools.exec {} reopened = some s ∧
    s.returned.map OnceReturn.object = [0, 0, 1, 1] ∧ ∀ r ∈ s.returned, ¬ s.Stale r := by
  obtain ⟨s, he, hs⟩ := Option.map_eq_some_iff.mp reopened_ran
  have hr : proxyPools.Reachable s := Machine.Reachable.exec (.start rfl) he
  exact ⟨s, he, congrArg Prod.fst hs, (proxy_pool_current hr).1⟩

/-! ## `get_redis` -/

/-- `get_redis` returns a client for its URL that was not yet taken out when it was
called. What `close_redis` takes out is closed once, or is about to be, whatever the
`close` of the clients before it raises. -/
theorem redis_clients_closed {REDIS_URL : String} {s : Once (Option String) String}
    (h : (redisClients REDIS_URL).Reachable s) :
    (∀ r ∈ s.returned, (s.made[r.object]?).map (redisKey REDIS_URL) = some (redisKey REDIS_URL r.arg) ∧ ¬ s.Stale r) ∧
      s.closed.Nodup ∧
      ∀ object, s.Gone object → object ∈ s.closed ∨ ∃ i left, s.calls i = some (.closing left) ∧ object ∈ left := by
  refine ⟨fun r hr => ?_, (Once.closes h).nodup, Once.ended h⟩
  obtain ⟨-, ⟨url, hmade, hkey⟩, hs⟩ := (Once.kept h).returns r hr
  exact ⟨by rw [hmade, Option.map_some, hkey], hs⟩

/-- Of three clients the first two cannot be closed. -/
def brokenClients : List (OnceAct (Option String)) :=
  [.get 0 none, .enter 0, .make 0 false, .get 0 (some "b"), .enter 0, .make 0 false, .get 1 (some ""),
    .get 0 (some "c"), .enter 0, .make 0 false, .take 1, .close 1 true, .close 1 true, .close 1 false, .finish 1]

theorem brokenClients_ran : ((redisClients "a").exec {} brokenClients).map (fun s =>
    (s.returned.map OnceReturn.object, s.taken, s.closed)) = some ([0, 1, 0, 2], [[0, 1, 2]], [0, 1, 2]) := by
  decide

theorem redis_clients_closed_brokenClients : ∃ s, (redisClients "a").exec {} brokenClients = some s ∧
    ∀ object, s.Gone object → object ∈ s.closed ∨ ∃ i left, s.calls i = some (.closing left) ∧ object ∈ left := by
  obtain ⟨s, he, -⟩ := Option.map_eq_some_iff.mp brokenClients_ran
  have hr : (redisClients "a").Reachable s := Machine.Reachable.exec (.start rfl) he
  exact ⟨s, he, (redis_clients_closed hr).2.2⟩

/-! ## `ssl_context_for` -/

theorem sslContexts_once {s : Once CachedVerify (Option String)} (h : sslContexts.Reachable s) :
    (Once.machine sslKey true).Reachable s ∧ s.taken = [] := by
  induction h with
  | start h => exact ⟨.start h, by cases h; rfl⟩
  | @step s t a _ _ ht ih =>
    have hstep : s.step sslKey true a.once = some t := by
      simp only [sslContexts] at ht
      split at ht
      · split at ht
        · exact ht
        · cases ht
      · exact ht
    have hne : ∀ i, a.once ≠ .take i := fun i => by cases a <;> simp [SslAct.once]
    exact ⟨ih.1.step trivial hstep, (Once.taken_of_step (Once.step_cases hstep) hne).trans ih.2⟩

/-- Two calls that get a context get one if and only if they have one key, and for each
key one context is made in the life of the process. -/
theorem ssl_contexts_refine {s : Once CachedVerify (Option String)} (h : sslContexts.Reachable s) :
    (∀ r ∈ s.returned, ∀ r' ∈ s.returned, r.object = r'.object ↔ sslKey r.arg = sslKey r'.arg) ∧
      (s.made.map sslKey).Nodup := by
  obtain ⟨hr, ht⟩ := sslContexts_once h
  have hk := Once.kept hr
  have hgone : ∀ object, ¬ s.Gone object := fun object => by simp [Once.Gone, ht]
  refine ⟨fun r hr r' hr' => ⟨fun he => ?_, fun he => hk.same hr hr' he (hgone _) (hgone _)⟩, ?_⟩
  · obtain ⟨-, ⟨v, hmade, hkey⟩, -⟩ := hk.returns r hr
    obtain ⟨-, ⟨v', hmade', hkey'⟩, -⟩ := hk.returns r' hr'
    rw [he] at hmade
    cases hmade.symm.trans hmade'
    exact hkey.symm.trans hkey'
  · refine List.nodup_iff_injective_get.mpr fun i j he => Fin.ext ?_
    simp only [List.get_eq_getElem, List.getElem_map] at he
    have hi : i.1 < s.made.length := by simpa using i.2
    have hj : j.1 < s.made.length := by simpa using j.2
    exact hk.unique (List.getElem?_eq_getElem hi) (List.getElem?_eq_getElem hj) (hgone _) (hgone _) he

/-- Two threads load the default bundle at the same time, after a call with `None` of
which nothing is made, and one its own. -/
def threeContexts : List SslAct :=
  [.sslContextFor 0 .other, .enter 0, .sslContextFor 1 .true, .create 0 .nothing, .sslContextFor 0 .true,
    .sslContextFor 2 (.path "ca.pem"), .enter 1, .create 1 .raised, .enter 0, .create 0 .context, .enter 2,
    .create 2 .context, .sslContextFor 1 .other]

theorem threeContexts_ran : (sslContexts.exec {} threeContexts).map (fun s => s.returned.map OnceReturn.object) =
    some [0, 1, 0] := by
  decide

theorem ssl_contexts_refine_threeContexts : ∃ s, sslContexts.exec {} threeContexts = some s ∧
    s.returned.map OnceReturn.object = [0, 1, 0] ∧ (s.made.map sslKey).Nodup := by
  obtain ⟨s, he, hs⟩ := Option.map_eq_some_iff.mp threeContexts_ran
  have hr : sslContexts.Reachable s := Machine.Reachable.exec (.start rfl) he
  exact ⟨s, he, hs, (ssl_contexts_refine hr).2⟩

end Netspy
