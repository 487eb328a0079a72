import Netspy.Framework.Past
import Netspy.Impl.RenderBrowser

/-!
# A browser that fails half-way

What a worker has started is held by it until it is closed (`Worker.Sound`), as long as
no job is taken while its browser is half initialised, and no context that is made for a
job fails. `_ensure_browser` looks at the context only, which is set before it is
prepared, and after the engine and the browser: the job after a failure starts a second
engine, or opens its page in a context that is not prepared.
-/

namespace Netspy

namespace RenderBrowser

open Fallible

variable (st : Setting) (cfg : Config)

/-- What `_teardown` closes. -/
def Worker.held (w : Worker) : List Nat :=
  w.proxyContexts.map Prod.snd ++ w.context.toList ++ w.browser.toList ++ w.engine.toList

/-- What holds between the calls of a worker, while it has made the contexts `own` for a
job and does not hold them. -/
structure Worker.Sound (cfg : Config) (own : List Nat) (w : Worker) : Prop where
  held : ∀ obj ∈ w.started, obj ∈ w.closed ∨ obj ∈ own ∨ obj ∈ w.held
  pages : ∀ context ∈ w.pages, context ∈ w.prepared
  proxied : ∀ p ∈ w.proxyContexts, p.2 ∈ w.prepared
  ready : w.context.isSome → w.ctxKwargs
  unset : w.readUnset = false
  started : w.engine = none → w.browser = none ∧ w.context = none
  persistent : cfg.userDataDir → w.browser = none

/-- The default context is prepared. -/
def Worker.Ready (w : Worker) : Prop := ∃ context ∈ w.context, context ∈ w.prepared

variable {cfg} {raises : Site → Bool} {own : List Nat} {w : Worker}

/-! ## Calls to the engine -/

section Calls

variable {E : Exn → Worker → Prop}

@[simp] theorem wp_call {site : Site} {Q : Unit → Worker → Prop} :
    WP (call raises site) Q E w ↔ if raises site then E "Error" w else Q () w := by
  unfold call
  rw [wp_ite]
  rfl

/-- The worker after the start of an object. -/
def Worker.launched (w : Worker) : Worker := { w with made := w.made + 1, started := w.started ++ [w.made] }

@[simp] theorem wp_launch {site : Site} {Q : Nat → Worker → Prop} :
    WP (launch raises site) Q E w ↔ if raises site then E "Error" w else Q w.made w.launched := by
  unfold launch
  rw [wp_bind, wp_call]
  rfl

@[simp] theorem wp_close {obj : Nat} {Q : Unit → Worker → Prop} :
    WP (close raises obj) Q E w ↔
      if raises .close then E "Error" { w with closed := w.closed ++ [obj] }
      else Q () { w with closed := w.closed ++ [obj] } := by
  unfold close
  rw [wp_bind, wp_modify, wp_call]

@[simp] theorem wp_closeAll {objs : List Nat} {Q : Unit → Worker → Prop} :
    WP (closeAll raises objs) Q E w ↔ Q () { w with closed := w.closed ++ objs } := by
  induction objs generalizing w with
  | nil => simp [closeAll]
  | cons obj objs ih =>
    unfold closeAll
    simp only [wp_bind, wp_tryCatch, wp_close, wp_pure, ih, List.append_assoc, List.singleton_append, ite_self]

@[simp] theorem wp_prepareContext {extra : Bool} {context : Nat} {Q : Unit → Worker → Prop} :
    WP (prepareContext cfg raises extra context) Q E w ↔
      if prepares cfg raises extra then Q () { w with prepared := w.prepared ++ [context] } else E "Error" w := by
  unfold prepareContext prepares
  simp only [wp_bind, wp_ite, wp_call, wp_modify]
  cases cfg.loadImages
  · cases raises (.route extra)
    · cases cfg.stealth
      · simp
      · cases raises (.script extra)
        · simp
        · simp
    · simp
  · cases cfg.stealth
    · simp
    · cases raises (.script extra)
      · simp
      · simp

end Calls

/-! ## What is held -/

theorem Worker.mem_held {obj : Nat} :
    obj ∈ w.held ↔
      (∃ p ∈ w.proxyContexts, p.2 = obj) ∨ w.context = some obj ∨ w.browser = some obj ∨ w.engine = some obj := by
  simp only [held, List.mem_append, List.mem_map, Option.mem_toList, or_assoc]

namespace Worker.Sound

variable {obj : Nat}

theorem launched (h : w.Sound cfg own) : w.launched.Sound cfg (w.made :: own) :=
  { h with
    held := fun obj hobj => by
      rcases List.mem_append.mp hobj with hobj | hobj
      · rcases h.held obj hobj with hc | ho | hh
        · exact .inl hc
        · exact .inr (.inl (List.mem_cons_of_mem _ ho))
        · exact .inr (.inr hh)
      · exact .inr (.inl (by simpa using .inl (List.mem_singleton.mp hobj))) }

/-- What is put into a field that is empty is held from then on. -/
theorem keep (h : w.Sound cfg (obj :: own)) {w' : Worker} (hs : w'.started = w.started) (hc : w'.closed = w.closed)
    (hh : ∀ o, o ∈ w.held ∨ o = obj → o ∈ w'.held) : ∀ o ∈ w'.started, o ∈ w'.closed ∨ o ∈ own ∨ o ∈ w'.held := by
  intro o ho
  rw [hs] at ho
  rw [hc]
  rcases h.held o ho with hclosed | hown | hheld
  · exact .inl hclosed
  · rcases List.mem_cons.mp hown with heq | hown
    · exact .inr (.inr (hh o (.inr heq)))
    · exact .inr (.inl hown)
  · exact .inr (.inr (hh o (.inl hheld)))

theorem setEngine (h : w.Sound cfg (obj :: own)) (hnone : w.engine = none) :
    { w with engine := some obj }.Sound cfg own where
  held := h.keep rfl rfl fun o ho => by
    simp only [mem_held, hnone] at ho ⊢
    grind
  pages := h.pages
  proxied := h.proxied
  ready := h.ready
  unset := h.unset
  started hs := absurd hs (by simp)
  persistent := h.persistent

theorem setBrowser (h : w.Sound cfg (obj :: own)) (hnone : w.browser = none) (hengine : w.engine ≠ none)
    (hdir : cfg.userDataDir = false) : { w with browser := some obj }.Sound cfg own where
  held := h.keep rfl rfl fun o ho => by
    simp only [mem_held, hnone] at ho ⊢
    grind
  pages := h.pages
  proxied := h.proxied
  ready := h.ready
  unset := h.unset
  started hs := absurd hs hengine
  persistent hd := absurd hd (by simp [hdir])

theorem setContext (h : w.Sound cfg (obj :: own)) (hnone : w.context = none) (hengine : w.engine ≠ none) :
    { w with context := some obj, ctxKwargs := true }.Sound cfg own where
  held := h.keep rfl rfl fun o ho => by
    simp only [mem_held, hnone] at ho ⊢
    grind
  pages := h.pages
  proxied := h.proxied
  ready _ := rfl
  unset := h.unset
  started hs := absurd hs hengine
  persistent := h.persistent

theorem prepare (h : w.Sound cfg own) : { w with prepared := w.prepared ++ [obj] }.Sound cfg own :=
  { h with
    pages := fun context hc => List.mem_append_left _ (h.pages context hc)
    proxied := fun p hp => List.mem_append_left _ (h.proxied p hp) }

theorem page (h : w.Sound cfg own) (hobj : obj ∈ w.prepared) : { w with pages := w.pages ++ [obj] }.Sound cfg own :=
  { h with
    pages := fun context hc => by
      rcases List.mem_append.mp hc with hc | hc
      · exact h.pages context hc
      · exact List.mem_singleton.mp hc ▸ hobj }

theorem close (h : w.Sound cfg (obj :: own)) : { w with closed := w.closed ++ [obj] }.Sound cfg own :=
  { h with
    held := fun o ho => by
      rcases h.held o ho with hc | hown | hheld
      · exact .inl (List.mem_append_left _ hc)
      · rcases List.mem_cons.mp hown with heq | hown
        · exact .inl (List.mem_append_right _ (List.mem_singleton.mpr heq))
        · exact .inr (.inl hown)
      · exact .inr (.inr hheld) }

end Worker.Sound

/-! ## The browser is started -/

/-- The end of `_ensure_browser`, which may leave a context that is not prepared. -/
theorem prepareDefault_spec {context : Nat} (h : w.Sound cfg (context :: own)) (hnone : w.context = none)
    (hengine : w.engine ≠ none) :
    WP (prepareContext cfg raises false context)
      (fun _ w' => w'.Sound cfg own ∧ w'.Ready ∧ prepares cfg raises false ∧ w'.proxyContexts = w.proxyContexts)
      (fun _ w' => w'.Sound cfg own) { w with context := some context, ctxKwargs := true } := by
  have hset := h.setContext hnone hengine
  rw [wp_prepareContext]
  split
  next hprepares =>
    exact ⟨hset.prepare, ⟨context, rfl, List.mem_append_right _ (List.mem_singleton_self _)⟩, hprepares, rfl⟩
  next => exact hset

theorem startBrowser_spec (h : w.Sound cfg own) (hnone : w.context = none)
    (hengine : w.engine = none ∨ raises .importEngine ∨ raises .start) :
    WP (startBrowser cfg raises)
      (fun _ w' => w'.Sound cfg own ∧ w'.Ready ∧ starts cfg raises ∧ w'.proxyContexts = w.proxyContexts)
      (fun _ w' => w'.Sound cfg own) w := by
  unfold startBrowser
  simp only [wp_bind, wp_ite, wp_call, wp_launch, wp_modify]
  split
  next => exact h
  next himport =>
    split
    next => exact h
    next hstart =>
      have hnoEngine : w.engine = none := by simpa [himport, hstart] using hengine
      have hengineSet := h.launched.setEngine hnoEngine
      split
      next => exact hengineSet
      next htype =>
        split
        next hdir =>
          split
          next => exact hengineSet
          next hlaunch =>
            apply (prepareDefault_spec hengineSet.launched hnone (by simp [Worker.launched])).mono
            · rintro _ w' ⟨hw, hready, hprepares, hproxy⟩
              exact ⟨hw, hready, by simp_all [starts], hproxy⟩
            · exact fun _ _ hw => hw
        next hdir =>
          split
          next => exact hengineSet
          next hlaunch =>
            have hbrowserSet := hengineSet.launched.setBrowser (h.started hnoEngine).1 (by simp [Worker.launched])
              (by simpa using hdir)
            split
            next => exact hbrowserSet
            next hnew =>
              apply (prepareDefault_spec hbrowserSet.launched hnone (by simp [Worker.launched])).mono
              · rintro _ w' ⟨hw, hready, hprepares, hproxy⟩
                exact ⟨hw, hready, by simp_all [starts], hproxy⟩
              · exact fun _ _ hw => hw

theorem ensureBrowser_spec (h : w.Sound cfg own)
    (hengine : w.context = none → w.engine = none ∨ raises .importEngine ∨ raises .start) :
    WP (ensureBrowser cfg raises)
      (fun _ w' => w'.Sound cfg own ∧ w'.proxyContexts = w.proxyContexts ∧
        (w' = w ∧ w.context.isSome ∨ w'.Ready ∧ starts cfg raises))
      (fun _ w' => w'.Sound cfg own) w := by
  unfold ensureBrowser
  rw [wp_bind, wp_get, wp_ite]
  split
  next hsome => exact ⟨h, rfl, .inl ⟨rfl, hsome⟩⟩
  next hsome =>
    have hnone : w.context = none := Option.not_isSome_iff_eq_none.mp hsome
    exact (startBrowser_spec h hnone (hengine hnone)).mono
      (fun _ _ ⟨hw, hready, hstarts, hp⟩ => ⟨hw, hp, .inr ⟨hready, hstarts⟩⟩) fun _ _ hw => hw

/-! ## A context for a job -/

/-- A new context is the job's own, and prepared. -/
theorem newContext_spec (h : w.Sound cfg own) (hcontext : w.context.isSome)
    (hprepares : w.browser.isSome → raises .newExtra = false → prepares cfg raises true) :
    WP (newContext cfg raises)
      (fun context w' => w'.Sound cfg (context :: own) ∧ context ∈ w'.prepared ∧ raises .newExtra = false)
      (fun _ w' => w'.Sound cfg own) w := by
  unfold newContext
  simp only [wp_bind, wp_get, wp_ite, wp_launch, wp_prepareContext, wp_pure, wp_throw, h.ready hcontext, if_true]
  split
  next hbrowser =>
    split
    next => exact h
    next hnew =>
      have hnew : raises .newExtra = false := by simpa using hnew
      rw [if_pos (hprepares hbrowser hnew)]
      exact ⟨h.launched.prepare, List.mem_append_right _ (List.mem_singleton_self _), hnew⟩
  next => exact h

/-- The contexts that are dropped are closed. -/
theorem Worker.Sound.evict (h : w.Sound cfg own) (n : Nat) :
    { w with
      proxyContexts := w.proxyContexts.drop n
      closed := w.closed ++ (w.proxyContexts.take n).map Prod.snd }.Sound cfg own :=
  { h with
    held := fun obj hobj => by
      rcases h.held obj hobj with hc | hown | hheld
      · exact .inl (List.mem_append_left _ hc)
      · exact .inr (.inl hown)
      · rw [mem_held] at hheld ⊢
        rcases hheld with ⟨p, hp, rfl⟩ | hheld
        · rw [← List.take_append_drop n w.proxyContexts] at hp
          rcases List.mem_append.mp hp with hp | hp
          · exact .inl (List.mem_append_right _ (List.mem_map_of_mem hp))
          · exact .inr (.inr (.inl ⟨p, hp, rfl⟩))
        · exact .inr (.inr (.inr hheld))
    proxied := fun p hp => h.proxied p (List.mem_of_mem_drop hp) }

/-- The order of the contexts does not matter. -/
theorem Worker.Sound.reorder (h : w.Sound cfg own) {proxyContexts : List (String × Nat)}
    (hp : proxyContexts.Perm w.proxyContexts) : { w with proxyContexts }.Sound cfg own :=
  { h with
    held := fun obj hobj => by
      rcases h.held obj hobj with hc | hown | hheld
      · exact .inl hc
      · exact .inr (.inl hown)
      · refine .inr (.inr (mem_held.mpr ?_))
        simpa only [hp.mem_iff] using mem_held.mp hheld
    proxied := fun p hmem => h.proxied p (hp.mem_iff.mp hmem) }

theorem Worker.Sound.setProxyContext {obj : Nat} (server : String) (h : w.Sound cfg (obj :: own))
    (hprepared : obj ∈ w.prepared) : { w with proxyContexts := w.proxyContexts ++ [(server, obj)] }.Sound cfg own :=
  { h with
    held := h.keep rfl rfl fun o ho => by
      simp only [mem_held, List.mem_append, List.mem_singleton] at ho ⊢
      grind
    proxied := fun p hp => by
      rcases List.mem_append.mp hp with hp | hp
      · exact h.proxied p hp
      · cases List.mem_singleton.mp hp
        exact hprepared }

theorem movedToEnd_perm {α : Type} [BEq α] [LawfulBEq α] {a : α} {l : List α} (h : a ∈ l) : (l.erase a ++ [a]).Perm l :=
  (List.perm_append_singleton a _).trans (List.perm_cons_erase h).symm

theorem contextFor_spec {proxy : Option String} (h : w.Sound cfg []) (hcontext : w.context.isSome)
    (hprepares : (∃ server ∈ proxy, cfg.proxy ≠ some server ∧ w.proxyContexts.lookup server = none) →
      w.browser.isSome → raises .newExtra = false → prepares cfg raises true) :
    WP (contextFor st cfg raises proxy)
      (fun context w' => w'.Sound cfg [] ∧ ∀ c ∈ context,
        c ∈ w'.prepared ∨ w' = w ∧ w.context = some c ∧ (proxy = none ∨ proxy = cfg.proxy))
      (fun _ w' => w'.Sound cfg []) w := by
  unfold contextFor
  rw [wp_bind, wp_get]
  split
  next => exact ⟨h, fun c hc => .inr ⟨rfl, hc, .inl rfl⟩⟩
  next server =>
    simp only [wp_ite, wp_pure, wp_throw]
    split
    next hdefault => exact ⟨h, fun c hc => .inr ⟨trivial, hc, .inr hdefault.symm⟩⟩
    next hother =>
      split
      next => exact h
      next hbrowser =>
        split
        next context hlookup =>
          obtain ⟨l₁, l₂, heq, -⟩ := List.lookup_eq_some_iff.mp hlookup
          have hmem : (server, context) ∈ w.proxyContexts := heq ▸ List.mem_append_right _ List.mem_cons_self
          exact ⟨h.reorder (movedToEnd_perm hmem), fun c hc => .inl (Option.some.inj hc ▸ h.proxied _ hmem)⟩
        next hlookup =>
          rw [wp_bind]
          apply (newContext_spec h hcontext (hprepares ⟨server, rfl, hother, hlookup⟩)).mono
          · rintro context w' ⟨hw, hprepared, -⟩
            have hkept := hw.setProxyContext server hprepared
            simp only [wp_bind, wp_get, wp_set, wp_closeAll, wp_pure]
            exact ⟨hkept.evict _, fun c hc => .inl (Option.some.inj hc ▸ hprepared)⟩
          · exact fun _ _ hw => hw

/-! ## A job -/

/-- The context that is made for one job only. -/
def ownContext (owned : Bool) (context : Nat) : List Nat := if owned then [context] else []

theorem closeOwned_spec {owned : Bool} {context : Nat} (h : w.Sound cfg (ownContext owned context)) :
    WP (closeOwned raises owned context) (fun _ w' => w'.Sound cfg []) (fun _ w' => w'.Sound cfg []) w := by
  cases owned
  · exact h
  · show WP (close raises context) _ _ w
    rw [wp_close, ite_self]
    exact Worker.Sound.close h

theorem openPage_spec {job : Job} {context : Nat} (h : w.Sound cfg own)
    (hprepared : opens job → context ∈ w.prepared) :
    WP (openPage job.raises job context) (fun _ w' => w'.Sound cfg own ∧ opens job) (fun _ w' => w'.Sound cfg own) w := by
  unfold openPage
  simp only [wp_bind, wp_ite, wp_call, wp_modify]
  by_cases hpage : job.raises .newPage
  · simp only [if_pos hpage]
    split_ifs
    · exact h
    · exact h
    · exact h
  · simp only [if_neg hpage]
    split_ifs with hcookies hadd
    · exact h
    · have hopens : opens job := by simp_all [opens]
      exact ⟨h.page (hprepared hopens), hopens⟩
    · have hopens : opens job := by simp_all [opens]
      exact ⟨h.page (hprepared hopens), hopens⟩

/-- The context of a job that has its own is closed, whatever is raised before its page is
closed. -/
theorem renderIn_spec {job : Job} {context : Nat} {owned : Bool} (h : w.Sound cfg (ownContext owned context))
    (hprepared : opens job → context ∈ w.prepared) (hclose : owned → opens job → job.raises .pageClose = false) :
    WP (renderIn job.raises job context owned) (fun _ w' => w'.Sound cfg []) (fun _ w' => w'.Sound cfg []) w := by
  unfold renderIn
  rw [wp_bind, wp_tryCatch]
  apply (openPage_spec h hprepared).mono
  · rintro _ w' ⟨hw, hopens⟩
    have hclosed : WP (do call job.raises .pageClose; closeOwned job.raises owned context)
        (fun _ w'' => w''.Sound cfg []) (fun _ w'' => w''.Sound cfg []) w' := by
      rw [wp_bind, wp_call]
      split
      next hraises =>
        cases owned
        · exact hw
        · exact absurd (hclose rfl hopens) (by simp [hraises])
      next => exact closeOwned_spec hw
    rw [wp_tryFinally, wp_call, ite_self]
    exact hclosed
  · intro e w' hw
    rw [wp_bind]
    exact (closeOwned_spec hw).mono (fun _ _ hw' => hw') fun _ _ hw' => hw'

/-- A context that is made for a job is prepared. -/
theorem prepares_of_not_loses {job : Job} (h : w.Sound cfg []) (hcontext : w.context.isSome)
    (hloses : ¬ LosesContext cfg w job) (hrenderable : job.renderable) (hbrowser : w.browser.isSome)
    (hneeds : job.cookies ∨ ∃ server ∈ job.proxy, cfg.proxy ≠ some server ∧ w.proxyContexts.lookup server = none)
    (hnew : job.raises .newExtra = false) :
    prepares cfg job.raises true ∧ (job.cookies → opens job → job.raises .pageClose = false) := by
  have hdir : cfg.userDataDir = false := by
    by_contra hdir
    rw [h.persistent (by simpa using hdir)] at hbrowser
    exact absurd hbrowser (by decide)
  have hmakes : MakesContext cfg w job := ⟨.inl hcontext, hrenderable, hdir, hneeds, hnew⟩
  have hprepares : prepares cfg job.raises true := by
    by_contra hp
    exact hloses ⟨hmakes, fun hp' => absurd hp' hp⟩
  refine ⟨hprepares, fun hcookies hopens => ?_⟩
  by_contra hclose
  exact hloses ⟨hmakes, fun _ => ⟨hcookies, hopens, by simpa using hclose⟩⟩

theorem render_spec {job : Job} (h : w.Sound cfg []) (hcontext : w.context.isSome)
    (hopens : ¬ OpensUnprepared cfg w job) (hloses : ¬ LosesContext cfg w job) :
    WP (render st cfg job.raises job) (fun _ w' => w'.Sound cfg []) (fun _ w' => w'.Sound cfg []) w := by
  unfold render
  dsimp only
  rw [wp_ite]
  split
  next hrenderable =>
    have hmade := prepares_of_not_loses h hcontext hloses hrenderable
    rw [wp_bind, wp_get, wp_ite]
    split
    next hown =>
      obtain ⟨hcookies, hbrowser⟩ := Bool.and_eq_true_iff.mp hown
      rw [wp_bind]
      apply (newContext_spec h hcontext fun hb hnew => (hmade hb (.inl hcookies) hnew).1).mono
      · rintro context w' ⟨hw, hprepared, hnew⟩
        apply renderIn_spec (by exact hw) (fun _ => hprepared)
        exact fun _ => (hmade hbrowser (.inl hcookies) hnew).2 hcookies
      · exact fun _ _ hw => hw
    next hown =>
      rw [wp_bind]
      apply (contextFor_spec st h hcontext fun hneeds hb hnew => (hmade hb (.inr hneeds) hnew).1).mono
      · rintro context w' ⟨hw, hprepared⟩
        split
        next context =>
          apply renderIn_spec (by exact hw) _ (fun hf => absurd hf (by decide))
          intro hopened
          rcases hprepared context rfl with hp | ⟨rfl, hdefault, hproxy⟩
          · exact hp
          · by_contra hp
            refine hopens ⟨⟨context, hdefault, hp⟩, hrenderable, ?_, hproxy, hopened⟩
            simpa using hown
        next => exact hw
      · exact fun _ _ hw => hw
  next => exact h

/-- A job that does no harm leaves a sound worker. -/
theorem turn_sound {job : Job} (h : w.Sound cfg []) (hclean : Clean cfg w job) :
    (turn st cfg job w).2.Sound cfg [] := by
  obtain ⟨hrestarts, hopens, hloses⟩ := hclean
  suffices hturn : WP (turn st cfg job) (fun _ w' => w'.Sound cfg []) (fun _ w' => w'.Sound cfg []) w from
    WP.final hturn
  unfold turn
  simp only [wp_tryCatch, wp_bind]
  have hengine : w.context = none → w.engine = none ∨ job.raises .importEngine ∨ job.raises .start := by
    intro hnone
    by_contra hc
    simp only [not_or] at hc
    exact hrestarts ⟨hnone, Option.isSome_iff_ne_none.mpr hc.1, by simpa using hc.2.1, by simpa using hc.2.2⟩
  apply (ensureBrowser_spec h hengine).mono
  · rintro _ w' ⟨hw, hproxy, hcontext⟩
    have hrender : WP (render st cfg job.raises job) (fun _ w'' => w''.Sound cfg []) (fun _ w'' => w''.Sound cfg []) w' := by
      rcases hcontext with ⟨rfl, hsome⟩ | ⟨⟨context, hset, hprepared⟩, hstarts⟩
      · exact render_spec st hw hsome hopens hloses
      · apply render_spec st hw (Option.isSome_iff_exists.mpr ⟨context, hset⟩)
        · rintro ⟨⟨context', hset', hnot⟩, -⟩
          rw [Option.mem_unique hset' hset] at hnot
          exact hnot hprepared
        · rintro ⟨⟨-, hrenderable, hdir, hneeds, hnew⟩, hlost⟩
          rw [hproxy] at hneeds
          exact hloses ⟨⟨.inr hstarts, hrenderable, hdir, hneeds, hnew⟩, hlost⟩
    exact hrender
  · exact fun _ _ hw => hw

/-- What `_teardown` leaves of a sound worker. -/
theorem teardown_spec (h : w.Sound cfg []) : ∀ obj ∈ (teardown raises w).2.started, obj ∈ (teardown raises w).2.closed := by
  have hfinal : WP (teardown raises) (fun _ w' => ∀ obj ∈ w'.started, obj ∈ w'.closed)
      (fun _ w' => ∀ obj ∈ w'.started, obj ∈ w'.closed) w := by
    unfold teardown
    simp only [wp_bind, wp_get, wp_set, wp_closeAll, wp_modify]
    intro obj hobj
    rcases h.held obj hobj with hc | hown | hheld
    · exact List.mem_append_left _ hc
    · exact absurd hown List.not_mem_nil
    · exact List.mem_append_right _ hheld
  exact WP.final hfinal

/-! ## Runs -/

theorem sound_start : ({} : Worker).Sound cfg [] where
  held := fun _ h => absurd h List.not_mem_nil
  pages := fun _ h => absurd h List.not_mem_nil
  proxied := fun _ h => absurd h List.not_mem_nil
  ready h := absurd h (by decide)
  unset := rfl
  started _ := ⟨rfl, rfl⟩
  persistent _ := rfl

/-- In a run whose every job does no harm, every page is opened in a prepared context,
and all that was started is closed when the worker exits. -/
theorem prepared_and_closed {jobs : List Job} (hclean : (machine st cfg).Meets (Clean cfg) {} jobs)
    (hrun : (machine st cfg).exec {} jobs = some w) :
    (∀ context ∈ w.pages, context ∈ w.prepared) ∧ w.readUnset = false ∧
      ∀ raises, ∀ obj ∈ (teardown raises w).2.started, obj ∈ (teardown raises w).2.closed := by
  have h : w.Sound cfg [] := by
    apply hclean.preserves (I := fun w => w.Sound cfg []) _ hrun sound_start
    intro s job t hs hjob hstep
    cases hstep
    exact turn_sound st hs hjob
  exact ⟨h.pages, h.unset, fun _ => teardown_spec h⟩

/-- Jobs with exceptions, of which none does harm. -/
theorem prepared_and_closed_raising :
    ∃ w, (machine {} {}).exec {}
        [{ raises := (· = .importEngine) }, { cookies := true, raises := (· = .newPage) }, { proxy := some "p" }] = some w ∧
      (∀ context ∈ w.pages, context ∈ w.prepared) ∧ w.readUnset = false ∧
        ∀ raises, ∀ obj ∈ (teardown raises w).2.started, obj ∈ (teardown raises w).2.closed := by
  have hclean : (machine {} {}).Meets (Clean {}) {}
      [{ raises := (· = .importEngine) }, { cookies := true, raises := (· = .newPage) }, { proxy := some "p" }] := by
    decide
  exact ⟨_, rfl, prepared_and_closed {} hclean rfl⟩

/-- `launch` fails, and the next job starts a second engine; the first is never stopped.
Where `add_init_script` fails, the next page is opened without the script. -/
theorem halfInitialised_used :
    ((machine {} {}).exec {} [{ raises := (· = .launch) }, {}]).map (fun w =>
        let exited := (teardown (fun _ => false) w).2
        (exited.started, exited.closed)) = some ([0, 1, 2, 3], [3, 2, 1]) ∧
      ((machine {} {}).exec {} [{ raises := (· = .script false) }, {}]).map (fun w => (w.pages, w.prepared)) =
        some ([2], []) := by
  decide

end RenderBrowser

end Netspy
