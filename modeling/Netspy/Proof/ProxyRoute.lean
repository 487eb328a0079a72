import Netspy.Impl.ProxyRoute
import Netspy.Proof.CookieJars
import Netspy.Proof.Downloader

/-!
# No silent direct connection

With a pool of proxies and without `PROXY_ALLOW_DIRECT`, whatever is picked for a
download is a true value that it may leave through (`May`), as a pool that has been
closed is made anew and never passed over. Every downloader takes it to an exit of
just that name: what is cached under a proxy was built for it (`Router.Built`), the
default client of an event loop is never asked for, and a browser that cannot change
its exit raises (`no_direct`).
-/

namespace Netspy

theorem truthy_eq_some {s : Option String} {u : String} : truthy s = some u ↔ s = some u ∧ u ≠ "" := by
  unfold truthy
  rw [Option.filter_eq_some_iff, decide_eq_true_iff]

/-! ## What is cached under a proxy -/

/-- The client of a session key was built for the proxy of the key. -/
def SessionDownloader.Built (d : SessionDownloader) : Prop :=
  ∀ e ∈ d.clients, ∃ u thread, e.1 = sessionKey (some u) thread d.shards ∧ e.2.proxy = some u

theorem SessionDownloader.built_clientFor {d : SessionDownloader} (h : d.Built) {x : Download} {u : String}
    (hu : x.proxy = some u) : (d.clientFor x).1.proxy = some u ∧ (d.clientFor x).2.Built := by
  unfold clientFor
  dsimp only
  split
  · unfold sessionClient
    rw [hu]
    have hnew : (makeClient (some u) d.verify).proxy = some u := rfl
    obtain ⟨⟨v, thread, hkey, hv⟩, hkept⟩ := ProxyClientCache.getOrCreate_built
      (P := fun k c => ∃ v thread, k = sessionKey (some v) thread d.shards ∧ Client.proxy c = some v) h
      ⟨u, x.thread, rfl, hnew⟩ d.capacity
    have huv : u = v := (sessionKey_inj hkey).1
    refine ⟨?_, hkept⟩
    rw [huv] at hv ⊢
    exact hv
  · exact ⟨hu, h⟩

/-- Every loop's clients were built for the proxies that they are kept under. -/
def AsyncHttpxDownloader.Built (d : AsyncHttpxDownloader) : Prop :=
  ∀ i, ∀ e ∈ (d.shards i).proxied, e.2.proxy = some e.1

theorem AsyncHttpxDownloader.built_download {d : AsyncHttpxDownloader} (h : d.Built) {x : Download} {u : String}
    (hu : x.proxy = some u) : (d.download x).1.proxy = some u ∧ (d.download x).2.Built := by
  unfold download
  dsimp only
  split
  · exact ⟨hu, h⟩
  · simp only [hu]
    have hnew : ({ proxy := some u, verify := x.effective d.verify } : Client).proxy = some u := rfl
    have hbuilt := ProxyClientCache.getOrCreate_built (P := fun k c => Client.proxy c = some k)
      (h (shardIndex x.thread d.loops)) hnew d.capacity
    refine ⟨hbuilt.1, fun i => ?_⟩
    unfold clientForProxy
    by_cases hi : i = shardIndex x.thread d.loops
    · subst hi
      simp only [Function.update_self]
      exact hbuilt.2
    · simp only [Function.update_of_ne hi]
      exact h i

namespace RenderWorker

variable {config : RenderConfig} {w : RenderWorker}

/-- The contexts leave through the proxies that they are kept under, the default one
through that of the launch. -/
structure Built (config : RenderConfig) (w : RenderWorker) : Prop where
  context : ∀ context, w.context = some context → context.proxy = defaultProxy config
  proxyContexts : ∀ e ∈ w.proxyContexts, e.2.proxy = some e.1

theorem newContext_some (config : RenderConfig) (u : String) : (newContext config (some u)).proxy = some u := by
  unfold newContext
  dsimp only
  split
  · rfl
  · rename_i h
    by_contra hne
    exact h ⟨rfl, Ne.symm hne⟩

theorem Built.ensureBrowser (h : Built config w) : Built config (w.ensureBrowser config) := by
  unfold RenderWorker.ensureBrowser
  split
  · exact h
  · refine ⟨fun context hc => ?_, h.proxyContexts⟩
    cases hc
    rfl

/-- A page is opened in a context of just the proxy that was picked. -/
theorem Built.render (h : Built config w) (st : Setting) (cookies : Bool) (u : String) :
    (∀ context, (w.render st config cookies (some u)).1 = some context → context.proxy = some u) ∧
      Built config (w.render st config cookies (some u)).2 := by
  have he := h.ensureBrowser
  unfold RenderWorker.render
  dsimp only
  split
  · refine ⟨fun context hc => ?_, he⟩
    cases hc
    exact newContext_some config u
  · unfold contextFor
    split
    · rename_i hdefault
      exact ⟨fun context hc => (he.context context hc).trans hdefault.symm, he⟩
    · dsimp only
      split
      · exact ⟨fun _ => nofun, he⟩
      · obtain ⟨hgot, hkept⟩ := ProxyClientCache.getOrCreate_built (P := fun k c => BrowserContext.proxy c = some k)
          he.proxyContexts (newContext_some config u) st.SESSION_CACHE_SIZE
        refine ⟨fun context hc => ?_, he.context, hkept⟩
        cases hc
        exact hgot

end RenderWorker

namespace Router

/-- What it has kept leaves through what it is kept under. -/
def Built : Router → Prop
  | session _ d => d.Built
  | async d => d.Built
  | playwright config workers => ∀ w, (workers w).Built config

theorem Fresh.built {r : Router} (h : r.Fresh) : r.Built := by
  cases r with
  | session fixed d => exact fun e he => absurd (h ▸ he) List.not_mem_nil
  | async d => exact fun i e he => absurd (h i ▸ he) List.not_mem_nil
  | playwright config workers =>
    intro w
    rw [h w]
    exact ⟨fun _ => nofun, fun _ he => absurd he List.not_mem_nil⟩

end Router

/-! ## Downloads -/

/-- A proxy that a download may leave through. -/
def RouteRun.May (run : RouteRun) (fixed : Option String) (u : String) : Prop :=
  u ≠ "" ∧ (run.request.proxy = some u ∨ run.request.proxies = some u ∨ fixed = some u ∨ some u ∈ run.returned)

/-- The exit of a download, once it is picked. -/
def Stage.exit : Stage → Option (Option String)
  | .picked proxy | .queued proxy | .connected proxy => some proxy
  | _ => none

namespace Routes

variable {st : Setting} {s t : Routes} {a : RouteAct} {n : Nat} {run : RouteRun} {u : String}

/-- A download whose exit is picked, if it is, and may be what it is. -/
def Safe (s : Routes) (run : RouteRun) : Prop :=
  ∀ exit, run.stage.exit = some exit → ∃ u, exit = some u ∧ run.May (s.routers run.router).fixed u

structure Protected (s : Routes) : Prop where
  built : ∀ k, (s.routers k).Built
  safe : ∀ n run, s.runs n = some run → s.Safe run

/-- A step that changes one download, and at most what is cached. -/
theorem Protected.update (hs : Protected s) (hb : ∀ k, (t.routers k).Built)
    (hf : ∀ k, (t.routers k).fixed = (s.routers k).fixed) (ht : t.runs = Function.update s.runs n (some run))
    (hrun : s.Safe run) : Protected t := by
  have hsafe {r : RouteRun} (h : s.Safe r) : t.Safe r := by
    intro exit he
    obtain ⟨u, rfl, hmay⟩ := h exit he
    exact ⟨u, rfl, (hf r.router).symm ▸ hmay⟩
  refine ⟨hb, fun m r hr => hsafe ?_⟩
  rw [ht] at hr
  by_cases hm : m = n
  · subst hm
    cases (Function.update_self ..).symm.trans hr
    exact hrun
  · exact hs.safe m r ((Function.update_of_ne hm ..).symm.trans hr)

theorem Protected.setRun (hs : Protected s) (hrun : s.Safe run) : Protected (s.setRun n run) :=
  hs.update hs.built (fun _ => rfl) rfl hrun

theorem Protected.setRouter (hs : Protected s) {k : Nat} {router : Router} (hb : router.Built)
    (hf : router.fixed = (s.routers k).fixed) (hrun : s.Safe run) : Protected ((s.setRouter k router).setRun n run) := by
  refine hs.update (fun j => ?_) (fun j => ?_) rfl hrun
  · show (Function.update s.routers k router j).Built
    by_cases hj : j = k
    · rw [hj, Function.update_self]
      exact hb
    · rw [Function.update_of_ne hj]
      exact hs.built j
  · show (Function.update s.routers k router j).fixed = _
    by_cases hj : j = k
    · rw [hj, Function.update_self]
      exact hf
    · rw [Function.update_of_ne hj]

/-- A stage without an exit. -/
theorem safe_of_exit (h : run.stage.exit = none) : s.Safe run := fun exit he => by
  rw [h] at he
  cases he

/-- What `_attempt_proxy` takes without a pool. -/
theorem safe_attempt (hst : st.PROXY_ENABLE = true) (s : Routes) (run : RouteRun) (deadline : Option ℚ) :
    s.Safe { run with stage := s.attempt st run deadline } := by
  intro exit he
  unfold attempt at he
  dsimp only at he
  split at he
  · rename_i u hu
    cases he
    refine ⟨u, rfl, ?_⟩
    rcases Option.or_eq_some_iff.mp hu with hu | ⟨-, hu⟩
    · rcases Option.or_eq_some_iff.mp hu with hu | ⟨-, hu⟩
      · exact ⟨(truthy_eq_some.mp hu).2, .inl (truthy_eq_some.mp hu).1⟩
      · exact ⟨(truthy_eq_some.mp hu).2, .inr (.inl (truthy_eq_some.mp hu).1)⟩
    · obtain ⟨hu, hne⟩ := truthy_eq_some.mp hu
      refine ⟨hne, ?_⟩
      cases hr : s.routers run.router with
      | session fixed d =>
        rw [hr] at hu
        exact .inr (.inr (.inl hu))
      | async d =>
        rw [hr] at hu
        cases hu
      | playwright config workers =>
        rw [hr] at hu
        rcases Option.or_eq_some_iff.mp hu with hu | ⟨-, hu⟩
        · rcases Option.or_eq_some_iff.mp hu with hu | ⟨-, hu⟩
          · exact .inl (truthy_eq_some.mp hu).1
          · exact .inr (.inl (truthy_eq_some.mp hu).1)
        · exact .inr (.inr (.inl (truthy_eq_some.mp hu).1))
  · rw [hst] at he
    simp only [Bool.not_true, Bool.false_eq_true, if_false] at he
    split at he
    · cases he
    · cases he

/-- A download that ends where its stage before has told. -/
theorem Safe.of_exit {stage : Stage} (hrun : s.Safe run) {exit : Option String} (hold : run.stage.exit = some exit)
    (hnew : stage.exit = none ∨ stage.exit = some exit) : s.Safe { run with stage } := by
  intro exit' he
  rcases hnew with hnew | hnew
  · cases hnew.symm.trans he
  · cases hnew.symm.trans he
    exact hrun exit hold

theorem Protected.carry (hs : Protected s) {proxy : Option String} (hr : s.runs n = some run)
    (hp : run.stage = .picked proxy) : Protected (s.carry n run proxy) := by
  have hrun := hs.safe n run hr
  have hexit : run.stage.exit = some proxy := by rw [hp]; rfl
  obtain ⟨u, rfl, hmay⟩ := hrun proxy hexit
  have hbuilt := hs.built run.router
  have htrue {client : Client} (hu : client.proxy = some u) : truthy client.proxy = some u :=
    truthy_eq_some.mpr ⟨hu, hmay.1⟩
  unfold Routes.carry
  dsimp only
  split
  · rename_i fixed d hk
    rw [hk] at hbuilt
    obtain ⟨hu, hb⟩ := SessionDownloader.built_clientFor hbuilt (x := run.request.via (some u)) rfl
    refine hs.setRouter hb (hk ▸ rfl) (hrun.of_exit hexit (.inr ?_))
    exact congrArg some (htrue hu)
  · rename_i d hk
    rw [hk] at hbuilt
    obtain ⟨hu, hb⟩ := AsyncHttpxDownloader.built_download hbuilt (x := run.request.via (some u)) rfl
    refine hs.setRouter hb (hk ▸ rfl) (hrun.of_exit hexit (.inr ?_))
    exact congrArg some (htrue hu)
  · exact hs.setRun (hrun.of_exit hexit (.inr rfl))

theorem Protected.step (hpool : st.PROXY_ENABLE = true) (hdirect : st.PROXY_ALLOW_DIRECT = false) (hs : Protected s)
    (h : step st s a = some t) : Protected t := by
  cases a with
  | tick now =>
    simp only [Routes.step] at h
    split at h
    · cases h
      exact ⟨hs.built, hs.safe⟩
    · cases h
  | closePool =>
    cases h
    exact ⟨hs.built, hs.safe⟩
  | start n request router =>
    simp only [Routes.step] at h
    split at h
    · cases h
    · cases h
      exact hs.setRun (safe_of_exit rfl)
  | attempt n =>
    obtain ⟨run, hr, h⟩ := Option.bind_eq_some_iff.mp h
    split at h
    · cases h
      exact hs.setRun (safe_attempt hpool s run _)
    · cases h
  | lock n =>
    obtain ⟨run, hr, h⟩ := Option.bind_eq_some_iff.mp h
    split at h
    · cases h
      exact hs.setRun (safe_of_exit rfl)
    · cases h
      exact hs.update hs.built (fun _ => rfl) rfl (safe_of_exit rfl)
    · cases h
  | ask n proxy =>
    obtain ⟨run, hr, h⟩ := Option.bind_eq_some_iff.mp h
    split at h
    · cases h
      refine hs.setRun ?_
      rw [hdirect, Bool.or_false]
      cases hp : truthy proxy with
      | none => exact safe_of_exit rfl
      | some u =>
        obtain ⟨rfl, hne⟩ := truthy_eq_some.mp hp
        rintro exit ⟨⟩
        exact ⟨u, rfl, hne, .inr (.inr (.inr List.mem_cons_self))⟩
    · cases h
  | setDeadline n =>
    obtain ⟨run, hr, h⟩ := Option.bind_eq_some_iff.mp h
    split at h
    · cases h
      exact hs.setRun (safe_of_exit rfl)
    · cases h
  | check n =>
    obtain ⟨run, hr, h⟩ := Option.bind_eq_some_iff.mp h
    split at h
    · cases h
      refine hs.setRun (safe_of_exit ?_)
      dsimp only
      split
      · rfl
      · rfl
    · cases h
  | carry n =>
    obtain ⟨run, hr, h⟩ := Option.bind_eq_some_iff.mp h
    split at h
    · rename_i proxy hp
      cases h
      exact hs.carry hr hp
    · cases h
  | render n w =>
    obtain ⟨run, hr, h⟩ := Option.bind_eq_some_iff.mp h
    split at h
    · rename_i proxy config workers hp hk
      cases h
      have hrun := hs.safe n run hr
      have hexit : run.stage.exit = some proxy := by rw [hp]; rfl
      obtain ⟨u, rfl, -⟩ := hrun proxy hexit
      have hbuilt := hs.built run.router
      rw [hk] at hbuilt
      obtain ⟨hcontext, hworker⟩ := (hbuilt w).render st run.request.cookies u
      refine hs.setRouter (fun v => ?_) (hk ▸ rfl) (hrun.of_exit hexit ?_)
      · by_cases hv : v = w
        · rw [hv, Function.update_self]
          exact hworker
        · rw [Function.update_of_ne hv]
          exact hbuilt v
      · split
        · rename_i context hc
          exact .inr (congrArg some (hcontext context hc))
        · exact .inl rfl
    · cases h
  | giveUp n =>
    obtain ⟨run, hr, h⟩ := Option.bind_eq_some_iff.mp h
    split at h
    · cases h
      exact hs.setRun (hs.safe n run hr)
    · cases h
  | fail n =>
    obtain ⟨run, hr, h⟩ := Option.bind_eq_some_iff.mp h
    split at h
    · cases h
    · cases h
      exact hs.setRun (safe_of_exit rfl)

theorem protected_of_reachable (hpool : st.PROXY_ENABLE = true) (hdirect : st.PROXY_ALLOW_DIRECT = false)
    (h : (routeMachine st).Reachable s) : Protected s := by
  refine h.induct (fun s hs => ?_) fun s a t hs _ ht => hs.step hpool hdirect ht
  refine ⟨fun k => (hs.1 k).built, fun n run hr => ?_⟩
  rw [hs.2 n] at hr
  cases hr

theorem runs_carry (s : Routes) (n : Nat) (run : RouteRun) (proxy : Option String) :
    ∃ run', (s.carry n run proxy).runs = Function.update s.runs n (some run') := by
  unfold Routes.carry
  dsimp only
  split
  · exact ⟨_, rfl⟩
  · exact ⟨_, rfl⟩
  · exact ⟨_, rfl⟩

/-- A step changes at most one download, and none that has ended. -/
theorem runs_eq (h : step st s a = some t) :
    t.runs = s.runs ∨ ∃ m run, t.runs = Function.update s.runs m (some run) ∧
      ∀ r, s.runs m = some r → r.stage.ended = false := by
  have hset {m : Nat} {run run' : RouteRun} (hr : s.runs m = some run) (he : run.stage.ended = false)
      (ht : t.runs = Function.update s.runs m (some run')) : t.runs = s.runs ∨ ∃ m run,
        t.runs = Function.update s.runs m (some run) ∧ ∀ r, s.runs m = some r → r.stage.ended = false := by
    refine .inr ⟨m, run', ht, fun r hr' => ?_⟩
    cases hr.symm.trans hr'
    exact he
  cases a with
  | tick now =>
    simp only [Routes.step] at h
    split at h
    · cases h
      exact .inl rfl
    · cases h
  | closePool =>
    cases h
    exact .inl rfl
  | start n request router =>
    simp only [Routes.step] at h
    split at h
    · cases h
    · rename_i hnone
      cases h
      refine .inr ⟨n, _, rfl, fun r hr => ?_⟩
      rw [hr] at hnone
      exact absurd rfl hnone
  | fail n =>
    obtain ⟨run, hr, h⟩ := Option.bind_eq_some_iff.mp h
    split at h
    · cases h
    · rename_i he
      cases h
      exact hset hr (Bool.eq_false_iff.mpr he) rfl
  | carry n =>
    obtain ⟨run, hr, h⟩ := Option.bind_eq_some_iff.mp h
    split at h
    · rename_i proxy hp
      cases h
      obtain ⟨run', hcarry⟩ := s.runs_carry n run proxy
      exact hset hr (by rw [hp]; rfl) hcarry
    · cases h
  | attempt n | lock n | ask n proxy | setDeadline n | check n | render n w | giveUp n =>
    obtain ⟨run, hr, h⟩ := Option.bind_eq_some_iff.mp h
    split at h
    all_goals first
      | cases h
        exact hset hr (by simp only [*]; rfl) rfl
      | cases h

/-- With a pool of proxies and no direct connections allowed, a download that
connects leaves through a proxy that is the request's or the downloader's, or that a
pool has returned for it; and what has ended, with a connection or an exception, has
no other. A job whose caller has given up has not ended. -/
theorem no_direct (st : Setting) (hpool : st.PROXY_ENABLE = true) (hdirect : st.PROXY_ALLOW_DIRECT = false) {s : Routes}
    (h : (routeMachine st).Reachable s) {n : Nat} {run : RouteRun} (hr : s.runs n = some run) :
    (∀ exit, run.stage = .connected exit → ∃ u, exit = some u ∧ run.May (s.routers run.router).fixed u) ∧
      (run.stage.ended = true → ∀ a t, (routeMachine st).step s a = some t → t.runs n = some run) := by
  refine ⟨fun exit he => ?_, fun he a t ht => ?_⟩
  · exact (protected_of_reachable hpool hdirect h).safe n run hr exit (by rw [he]; rfl)
  · rcases runs_eq ht with hsame | ⟨m, run', hm, hopen⟩
    · rw [hsame, hr]
    · rw [hm, Function.update_of_ne, hr]
      rintro rfl
      rw [hopen run hr] at he
      cases he

/-- The pool is closed and returns nothing, then an empty text, and at last a proxy; the
page is rendered when its caller has given up. -/
def renderAfterClose : List RouteAct :=
  [.start 0 { cookies := true } 0, .attempt 0, .lock 0, .closePool, .ask 0 none, .setDeadline 0, .check 0,
    .attempt 0, .lock 0, .ask 0 (some ""), .check 0, .attempt 0, .ask 0 (some "http://1.1.1.1:80"), .carry 0, .giveUp 0,
    .render 0 0]

theorem no_direct_renderAfterClose :
    ∃ s run, (routeMachine { PROXY_ENABLE := true }).Reachable s ∧ s.runs 0 = some run ∧
      run.stage = .connected (some "http://1.1.1.1:80") ∧ run.May (s.routers 0).fixed "http://1.1.1.1:80" := by
  let s₀ : Routes := { now := 0, routers := fun _ => .playwright {} fun _ => {} }
  have hstart : (routeMachine { PROXY_ENABLE := true }).start s₀ := ⟨fun _ _ => rfl, fun _ => rfl⟩
  have hran : ∃ s, (routeMachine { PROXY_ENABLE := true }).exec s₀ renderAfterClose = some s ∧
      s.runs 0 = some ⟨{ cookies := true }, 0, [some "http://1.1.1.1:80", some "", none],
        .connected (some "http://1.1.1.1:80"), true⟩ :=
    Option.map_eq_some_iff.mp (by decide +kernel)
  obtain ⟨s, he, hrun⟩ := hran
  have hs := Machine.Reachable.exec (.start hstart) he
  obtain ⟨u, hu, hmay⟩ := (no_direct { PROXY_ENABLE := true } rfl rfl hs hrun).1 _ rfl
  cases hu
  exact ⟨s, _, hs, hrun, rfl, hmay⟩

end Routes

end Netspy
