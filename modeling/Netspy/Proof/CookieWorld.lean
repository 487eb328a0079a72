import Netspy.Framework.Past
import Netspy.Framework.Unwinding
import Netspy.Impl.CookieWorld

/-!
# What logged-in requests leave to others

A client of its own, made of its own cookies, for every request that carries cookies,
and caches that do not see which cookies these are (`Apart`): that is all that the
downloads need of the function that chooses their clients. Then a request with cookies
sends only these and what its own responses set, others send nothing of it, and what
others send is the same whatever its cookies and responses are
(`leaksNothing_of_apart`). The four downloaders choose so (`downloaders_leak_nothing`).
-/

namespace Netspy

namespace CookieWorld

variable {σ γ τ ρ : Type} (lib : CookieLibrary γ τ ρ)

/-- Which cookies a request carries has no influence on the choice, and its client has
them in a jar of its own; a jar of another request's own has copies of what the caller
passed. -/
structure Apart (choose : ClientChoice σ γ) : Prop where
  carrying : ∀ (s : σ) (r : CookieRequest) (given : Nat → List γ) (how : Circumstances), ∃ (ok : Bool) (s' : σ), ∀ d ≠ [],
    choose s { r with cookies := .dict d } given how = (if ok then some (.own (lib.ofDict r.url d)) else none, s')
  others : ∀ (s : σ) (r : CookieRequest) (given : Nat → List γ) (how : Circumstances) (jar : List γ),
    r.carries = false → (choose s r given how).1 = some (.own jar) →
    ∀ c ∈ jar, ∃ n, ∃ c' ∈ given n, lib.name c = lib.name c' ∧ lib.value c = lib.value c'

/-- The name and value are set by a response to a download of these. -/
def SetBy (p : Nat → Prop) (as : List (Nat × DownloadEvent τ ρ)) (c : γ) : Prop :=
  ∃ i t r, p i ∧ (i, .exchange t r) ∈ as ∧ (lib.name c, lib.value c) ∈ lib.setBy t r

/-- The cookie is of the dict of a request. -/
def OfDict (r : CookieRequest) (c : γ) : Prop :=
  ∃ d kv, r.cookies = .dict d ∧ kv ∈ d ∧ lib.name c = kv.1 ∧ lib.value c = some kv.2

/-- The cookie is, by name and value, in a jar that the caller passed. -/
def Given (given : Nat → List γ) (c : γ) : Prop :=
  ∃ n, ∃ c' ∈ given n, lib.name c = lib.name c' ∧ lib.value c = lib.value c'

/-- Two sets of requests that differ only in the cookies of those that carry some. -/
def AlikeRequests (requests requests' : Nat → CookieRequest) : Prop :=
  ∀ i, requests i = requests' i ∨
    ∃ d d', d ≠ [] ∧ d' ≠ [] ∧ (requests i).cookies = .dict d ∧ requests' i = { requests i with cookies := .dict d' }

/-- Not a response to a request that carries cookies. -/
def Public (requests : Nat → CookieRequest) : Nat × DownloadEvent τ ρ → Prop
  | (i, .exchange _ _) => (requests i).carries = false
  | _ => True

instance (requests : Nat → CookieRequest) : DecidablePred (Public requests : Nat × DownloadEvent τ ρ → Prop)
  | (_, .exchange _ _) => inferInstanceAs (Decidable (_ = _))
  | (_, .start _) => isTrue trivial
  | (_, .finish) => isTrue trivial

/-- In every run of a downloader, from any contents of the caller's jars: a request that
carries cookies sends only these and those set by its own responses; others send only
what the caller passed or responses to others set; and runs that differ only in the
cookies of such requests and the responses to them send the same with all others. -/
structure LeaksNothing (choose : ClientChoice σ γ) (init : σ) : Prop where
  own : ∀ requests s as u i t r, (machine lib choose requests init).start s →
    (machine lib choose requests init).exec s as = some u → (requests i).carries = true →
    ∀ c ∈ sent lib u (i, .exchange t r), OfDict lib (requests i) c ∨ SetBy lib (· = i) as c
  others : ∀ requests s as u i t r, (machine lib choose requests init).start s →
    (machine lib choose requests init).exec s as = some u → (requests i).carries = false →
    ∀ c ∈ sent lib u (i, .exchange t r),
      Given lib s.given c ∨ SetBy lib (fun j => (requests j).carries = false) as c
  blind : ∀ requests requests' s s' as bs u u', AlikeRequests requests requests' →
    (machine lib choose requests init).start s → (machine lib choose requests' init).start s' → s.given = s'.given →
    (machine lib choose requests init).exec s as = some u →
    (machine lib choose requests' init).exec s' bs = some u' →
    as.filter (fun a => Public requests a) = bs.filter (fun a => Public requests a) →
    (machine lib choose requests init).outputs (Public requests) (sent lib) s as =
      (machine lib choose requests' init).outputs (Public requests) (sent lib) s' bs

section
variable {lib} {choose : ClientChoice σ γ} {requests requests' : Nat → CookieRequest}
  {s t u : CookieWorld σ γ} {as : List (Nat × DownloadEvent τ ρ)}

/-- The state of a download whose client was asked for. -/
def opened : Option (JarUse γ) → DownloadState γ
  | some use => .running use
  | none => .over

theorem step_cases {a : Nat × DownloadEvent τ ρ} (h : step lib choose requests s a = some t) :
    (∃ i how, a = (i, .start how) ∧ s.downloads i = .waiting ∧
      t = ({ s with clients := (choose s.clients (requests i) s.given how).2 } : CookieWorld σ γ).setDownload i
        (opened (choose s.clients (requests i) s.given how).1)) ∨
    (∃ i target r use, a = (i, .exchange target r) ∧ s.downloads i = .running use ∧
      t = s.setJar i (lib.store (s.jarOf use) target r) use) ∨
    (∃ i use, a = (i, .finish) ∧ s.downloads i = .running use ∧ t = s.setDownload i .over) := by
  obtain ⟨i, e⟩ := a
  cases e with
  | start how =>
    simp only [step] at h
    split at h
    · rename_i hw
      refine .inl ⟨i, how, rfl, hw, ?_⟩
      split at h
      all_goals
        rename_i hc
        cases h
        rw [hc]
        rfl
    · cases h
  | exchange target r =>
    simp only [step] at h
    split at h
    · rename_i use hr
      exact .inr (.inl ⟨i, target, r, use, rfl, hr, (Option.some.inj h).symm⟩)
    · cases h
  | finish =>
    simp only [step] at h
    split at h
    · rename_i use hr
      exact .inr (.inr ⟨i, use, rfl, hr, (Option.some.inj h).symm⟩)
    · cases h

theorem setDownload_self (s : CookieWorld σ γ) (i : Nat) (state : DownloadState γ) :
    (s.setDownload i state).downloads i = state := Function.update_self ..

theorem setDownload_of_ne (s : CookieWorld σ γ) {i j : Nat} (h : j ≠ i) (state : DownloadState γ) :
    (s.setDownload i state).downloads j = s.downloads j := Function.update_of_ne h ..

/-- A request that carries cookies has a dict of them. -/
theorem dict_of_carries {r : CookieRequest} (h : r.carries = true) :
    ∃ d, d ≠ [] ∧ r.cookies = .dict d ∧ r = { r with cookies := .dict d } := by
  obtain ⟨url, verify, cookies, renderable⟩ := r
  cases cookies with
  | none => exact absurd h Bool.false_ne_true
  | jar n => exact absurd h Bool.false_ne_true
  | dict d => exact ⟨d, fun he => absurd h (by simp [CookieRequest.carries, he]), rfl, rfl⟩

/-! ## Where cookies come from -/

theorem SetBy.mono {p : Nat → Prop} {bs : List (Nat × DownloadEvent τ ρ)} {c : γ} (h : SetBy lib p as c) :
    SetBy lib p (as ++ bs) c := by
  obtain ⟨i, target, r, hp, hm, hc⟩ := h
  exact ⟨i, target, r, hp, List.mem_append_left _ hm, hc⟩

/-- What requests without cookies may send: what the caller passed at first, and what
responses to such requests set. -/
def Clean (lib : CookieLibrary γ τ ρ) (requests : Nat → CookieRequest) (given : Nat → List γ)
    (as : List (Nat × DownloadEvent τ ρ)) (c : γ) : Prop :=
  Given lib given c ∨ SetBy lib (fun j => (requests j).carries = false) as c

theorem Clean.mono {given : Nat → List γ} {bs : List (Nat × DownloadEvent τ ρ)} {c : γ}
    (h : Clean lib requests given as c) : Clean lib requests given (as ++ bs) c := h.imp_right SetBy.mono

/-- Only the name and the value count. -/
theorem Clean.congr {given : Nat → List γ} {c c' : γ} (h : Clean lib requests given as c')
    (hname : lib.name c = lib.name c') (hvalue : lib.value c = lib.value c') : Clean lib requests given as c := by
  rcases h with ⟨n, c'', hc, hn, hv⟩ | ⟨i, target, r, hp, hm, hc⟩
  · exact .inl ⟨n, c'', hc, hname.trans hn, hvalue.trans hv⟩
  · exact .inr ⟨i, target, r, hp, hm, by rwa [hname, hvalue]⟩

/-- Where the cookies of all jars come from, after the actions `as`. -/
structure Traced (lib : CookieLibrary γ τ ρ) (requests : Nat → CookieRequest) (given : Nat → List γ)
    (as : List (Nat × DownloadEvent τ ρ)) (s : CookieWorld σ γ) : Prop where
  carrying : ∀ i use, (requests i).carries = true → s.downloads i = .running use →
    ∃ jar, use = .own jar ∧ ∀ c ∈ jar, OfDict lib (requests i) c ∨ SetBy lib (· = i) as c
  others : ∀ i jar, (requests i).carries = false → s.downloads i = .running (.own jar) →
    ∀ c ∈ jar, Clean lib requests given as c
  cached : ∀ n, ∀ c ∈ s.cached n, Clean lib requests given as c
  given : ∀ n, ∀ c ∈ s.given n, Clean lib requests given as c

theorem Traced.init {clients : σ} (h : (machine lib choose requests clients).start s) :
    Traced lib requests s.given ([] : List (Nat × DownloadEvent τ ρ)) s := by
  obtain ⟨-, hcached, hwaiting⟩ := h
  refine ⟨fun i use _ hr => ?_, fun i jar _ hr => ?_, fun n c hc => ?_, fun n c hc => .inl ⟨n, c, hc, rfl, rfl⟩⟩
  · exact absurd ((hwaiting i).symm.trans hr) nofun
  · exact absurd ((hwaiting i).symm.trans hr) nofun
  · rw [hcached n] at hc
    exact absurd hc List.not_mem_nil

/-- What is in a jar after a response to download `i`. -/
theorem Clean.store {given : Nat → List γ} {i : Nat} {jar : List γ} {target : τ} {r : ρ}
    (hi : (requests i).carries = false) (hjar : ∀ c ∈ jar, Clean lib requests given as c) :
    ∀ c ∈ lib.store jar target r, Clean lib requests given (as ++ [(i, .exchange target r)]) c := by
  intro c hc
  rcases lib.store_mem hc with hc | hc
  · exact (hjar c hc).mono
  · exact .inr ⟨i, target, r, hi, List.mem_append_right _ (List.mem_singleton_self _), hc⟩

theorem Traced.step {given : Nat → List γ} (hchoose : Apart lib choose) (hs : Traced lib requests given as s)
    {a : Nat × DownloadEvent τ ρ} (h : CookieWorld.step lib choose requests s a = some t) :
    Traced lib requests given (as ++ [a]) t := by
  have hcached (n : Nat) (c : γ) (hc : c ∈ s.cached n) : Clean lib requests given (as ++ [a]) c := (hs.cached n c hc).mono
  have hgiven (n : Nat) (c : γ) (hc : c ∈ s.given n) : Clean lib requests given (as ++ [a]) c := (hs.given n c hc).mono
  -- a download that was running before
  have hcarrying (j : Nat) (use : JarUse γ) (hj : (requests j).carries = true) (hr : s.downloads j = .running use) :
      ∃ jar, use = .own jar ∧ ∀ c ∈ jar, OfDict lib (requests j) c ∨ SetBy lib (· = j) (as ++ [a]) c := by
    obtain ⟨jar, he, hjar⟩ := hs.carrying j use hj hr
    exact ⟨jar, he, fun c hc => (hjar c hc).imp_right SetBy.mono⟩
  have hothers (j : Nat) (jar : List γ) (hj : (requests j).carries = false) (hr : s.downloads j = .running (.own jar)) :
      ∀ c ∈ jar, Clean lib requests given (as ++ [a]) c := fun c hc => (hs.others j jar hj hr c hc).mono
  rcases step_cases h with ⟨i, how, rfl, -, rfl⟩ | ⟨i, target, r, use, rfl, hr, rfl⟩ | ⟨i, use, rfl, -, rfl⟩
  · refine ⟨fun j use hj hr => ?_, fun j jar hj hr => ?_, hcached, hgiven⟩
    · by_cases hji : j = i
      · subst hji
        rw [setDownload_self] at hr
        obtain ⟨d, hd, hdict, he⟩ := dict_of_carries hj
        obtain ⟨ok, s', hc⟩ := hchoose.carrying s.clients (requests j) s.given how
        have hc := hc d hd
        rw [← he] at hc
        rw [hc] at hr
        cases ok with
        | false => exact absurd hr nofun
        | true =>
          cases hr
          refine ⟨_, rfl, fun c hc => .inl ?_⟩
          obtain ⟨kv, hkv, hname, hvalue⟩ := lib.ofDict_mem hc
          exact ⟨d, kv, hdict, hkv, hname, hvalue⟩
      · rw [setDownload_of_ne _ hji] at hr
        exact hcarrying j use hj hr
    · by_cases hji : j = i
      · subst hji
        rw [setDownload_self] at hr
        cases hc : (choose s.clients (requests j) s.given how).1 with
        | none =>
          rw [hc] at hr
          exact absurd hr nofun
        | some use =>
          rw [hc] at hr
          cases hr
          intro c hm
          obtain ⟨n, c', hc', hname, hvalue⟩ := hchoose.others s.clients (requests j) s.given how jar hj hc c hm
          exact (hgiven n c' hc').congr hname hvalue
      · rw [setDownload_of_ne _ hji] at hr
        exact hothers j jar hj hr
  · cases use with
    | own jar =>
      refine ⟨fun j use hj hr' => ?_, fun j jar' hj hr' => ?_, hcached, hgiven⟩
      · by_cases hji : j = i
        · subst hji
          obtain ⟨jar', he, hjar⟩ := hs.carrying j _ hj hr
          cases he
          rw [show ((s.setJar j _ (.own jar)).downloads j) = _ from setDownload_self ..] at hr'
          cases hr'
          refine ⟨_, rfl, fun c hc => ?_⟩
          rcases lib.store_mem hc with hc | hc
          · exact (hjar c hc).imp_right SetBy.mono
          · exact .inr ⟨j, target, r, rfl, List.mem_append_right _ (List.mem_singleton_self _), hc⟩
        · rw [show (s.setJar i _ (.own jar)).downloads j = _ from setDownload_of_ne _ hji _] at hr'
          exact hcarrying j use hj hr'
      · by_cases hji : j = i
        · subst hji
          rw [show ((s.setJar j _ (.own jar)).downloads j) = _ from setDownload_self ..] at hr'
          cases hr'
          exact Clean.store hj (hs.others j jar hj hr)
        · rw [show (s.setJar i _ (.own jar)).downloads j = _ from setDownload_of_ne _ hji _] at hr'
          exact hothers j jar' hj hr'
    | shared jar =>
      -- then it carries no cookies
      have hi : (requests i).carries = false := by
        by_contra hi
        obtain ⟨jar', he, -⟩ := hs.carrying i _ (by simpa using hi) hr
        exact absurd he nofun
      cases jar with
      | cached n =>
        refine ⟨hcarrying, hothers, fun m c hc => ?_, hgiven⟩
        by_cases hmn : m = n
        · subst hmn
          rw [show (s.setJar i _ (.shared (.cached m))).cached m = _ from Function.update_self ..] at hc
          exact Clean.store hi (hs.cached m) c hc
        · rw [show (s.setJar i _ (.shared (.cached n))).cached m = _ from Function.update_of_ne hmn ..] at hc
          exact hcached m c hc
      | given n =>
        refine ⟨hcarrying, hothers, hcached, fun m c hc => ?_⟩
        by_cases hmn : m = n
        · subst hmn
          rw [show (s.setJar i _ (.shared (.given m))).given m = _ from Function.update_self ..] at hc
          exact Clean.store hi (hs.given m) c hc
        · rw [show (s.setJar i _ (.shared (.given n))).given m = _ from Function.update_of_ne hmn ..] at hc
          exact hgiven m c hc
  · refine ⟨fun j use hj hr => ?_, fun j jar hj hr => ?_, hcached, hgiven⟩
    · by_cases hji : j = i
      · subst hji
        rw [setDownload_self] at hr
        exact absurd hr nofun
      · rw [setDownload_of_ne _ hji] at hr
        exact hcarrying j use hj hr
    · by_cases hji : j = i
      · subst hji
        rw [setDownload_self] at hr
        exact absurd hr nofun
      · rw [setDownload_of_ne _ hji] at hr
        exact hothers j jar hj hr

theorem traced (hchoose : Apart lib choose) {init : σ} (h : (machine lib choose requests init).start s)
    (he : (machine lib choose requests init).exec s as = some u) : Traced lib requests s.given as u :=
  Machine.exec_induct (I := fun as u => Traced lib requests s.given as u) (Traced.init h)
    (fun _ _ _ _ _ hs hstep => hs.step hchoose hstep) he

/-- What is sent is in the jar of the client. -/
theorem mem_sent {i : Nat} {target : τ} {r : ρ} {c : γ} (h : c ∈ sent lib u (i, .exchange target r)) :
    ∃ use, u.downloads i = .running use ∧ c ∈ u.jarOf use := by
  simp only [sent] at h
  split at h
  · rename_i use hr
    exact ⟨use, hr, lib.send_mem h⟩
  · exact absurd h List.not_mem_nil

/-! ## Two runs -/

/-- Two states of a download that carries cookies. -/
inductive SameStage : DownloadState γ → DownloadState γ → Prop
  | waiting : SameStage .waiting .waiting
  | running (jar jar' : List γ) : SameStage (.running (.own jar)) (.running (.own jar'))
  | over : SameStage .over .over

theorem SameStage.symm {x y : DownloadState γ} (h : SameStage x y) : SameStage y x := by
  cases h with
  | waiting => exact .waiting
  | running jar jar' => exact .running jar' jar
  | _ => exact .over

/-- Two states that differ only in the jars of downloads that carry cookies. -/
structure Alike (requests : Nat → CookieRequest) (s t : CookieWorld σ γ) : Prop where
  clients : s.clients = t.clients
  cached : s.cached = t.cached
  given : s.given = t.given
  others : ∀ i, (requests i).carries = false → s.downloads i = t.downloads i
  carrying : ∀ i, (requests i).carries = true → SameStage (s.downloads i) (t.downloads i)

theorem Alike.symm (h : Alike requests s t) : Alike requests t s :=
  ⟨h.clients.symm, h.cached.symm, h.given.symm, fun i hi => (h.others i hi).symm, fun i hi => (h.carrying i hi).symm⟩

theorem Alike.withClients (h : Alike requests s t) (clients : σ) :
    Alike requests { s with clients } { t with clients } :=
  ⟨rfl, h.cached, h.given, h.others, h.carrying⟩

/-- One download is in a new state on either side. -/
theorem Alike.setDownload (h : Alike requests s t) {i : Nat} {x y : DownloadState γ}
    (hothers : (requests i).carries = false → x = y) (hcarrying : (requests i).carries = true → SameStage x y) :
    Alike requests (s.setDownload i x) (t.setDownload i y) := by
  refine ⟨h.clients, h.cached, h.given, fun j hj => ?_, fun j hj => ?_⟩
  · by_cases hji : j = i
    · subst hji
      rw [setDownload_self, setDownload_self]
      exact hothers hj
    · rw [setDownload_of_ne _ hji, setDownload_of_ne _ hji]
      exact h.others j hj
  · by_cases hji : j = i
    · subst hji
      rw [setDownload_self, setDownload_self]
      exact hcarrying hj
    · rw [setDownload_of_ne _ hji, setDownload_of_ne _ hji]
      exact h.carrying j hj

/-- A response to a request that carries cookies changes its own jar only. -/
theorem Alike.hidden (h : Alike requests s t) {a : Nat × DownloadEvent τ ρ} (ha : ¬ Public requests a)
    (hstep : step lib choose requests' s a = some u) : Alike requests u t := by
  rcases step_cases hstep with ⟨i, how, rfl, -⟩ | ⟨i, target, r, use, rfl, hr, rfl⟩ | ⟨i, use, rfl, -⟩
  · exact absurd trivial ha
  · have hi : (requests i).carries = true := by simpa [Public] using ha
    have hstage := h.carrying i hi
    rw [hr] at hstage
    generalize ht : t.downloads i = y at hstage
    cases hstage with
    | running jar jar' =>
      refine ⟨h.clients, h.cached, h.given, fun j hj => ?_, fun j hj => ?_⟩
      · rw [show (s.setJar i _ (.own jar)).downloads j = _ from setDownload_of_ne _ (fun e => by simp [e, hi] at hj) _]
        exact h.others j hj
      · by_cases hji : j = i
        · subst hji
          rw [show (s.setJar j _ (.own jar)).downloads j = _ from setDownload_self .., ht]
          exact .running _ _
        · rw [show (s.setJar i _ (.own jar)).downloads j = _ from setDownload_of_ne _ hji _]
          exact h.carrying j hj
  · exact absurd trivial ha

theorem AlikeRequests.of_carries (h : AlikeRequests requests requests') {i : Nat} (hi : (requests i).carries = true) :
    ∃ d d', d ≠ [] ∧ d' ≠ [] ∧ requests i = { requests i with cookies := .dict d } ∧
      requests' i = { requests i with cookies := .dict d' } := by
  obtain ⟨d, hd, hdict, he⟩ := dict_of_carries hi
  rcases h i with heq | ⟨-, d', -, hd', -, heq⟩
  · exact ⟨d, d, hd, hd, he, heq ▸ he⟩
  · exact ⟨d, d', hd, hd', he, heq⟩

theorem AlikeRequests.of_not (h : AlikeRequests requests requests') {i : Nat} (hi : (requests i).carries = false) :
    requests i = requests' i := by
  rcases h i with heq | ⟨d, d', hd, -, hdict, -⟩
  · exact heq
  · refine absurd hi ?_
    rw [CookieRequest.carries, hdict]
    simpa using hd

/-- What the runs send with other requests, and that their states stay alike. -/
theorem unwinds (hchoose : Apart lib choose) (hreq : AlikeRequests requests requests') (init : σ) :
    Machine.Unwinds (Public requests) (machine lib choose requests init) (machine lib choose requests' init)
      (sent lib) (sent lib) (Alike requests) where
  left h ha hstep := h.hidden ha hstep
  right h ha hstep := (h.symm.hidden ha hstep).symm
  both := by
    intro s t s' t' a h ha hs ht
    change step lib choose requests s a = some s' at hs
    change step lib choose requests' t a = some t' at ht
    rcases step_cases hs with ⟨i, how, rfl, -, rfl⟩ | ⟨i, target, r, use, rfl, hr, rfl⟩ | ⟨i, use, rfl, -, rfl⟩
    · refine ⟨rfl, ?_⟩
      rcases step_cases ht with ⟨j, how, ha, -, rfl⟩ | ⟨j, target, r, use, ha, -⟩ | ⟨j, use, ha, -⟩
      · cases ha
        have hfound : choose t.clients (requests' i) t.given how = choose s.clients (requests' i) s.given how := by
          rw [h.clients, h.given]
        rw [hfound]
        cases hi : (requests i).carries with
        | false =>
          rw [← hreq.of_not hi]
          exact (h.withClients _).setDownload (fun _ => rfl) fun hi' => absurd (hi.symm.trans hi') Bool.false_ne_true
        | true =>
          obtain ⟨d, d', hd, hd', he, he'⟩ := hreq.of_carries hi
          obtain ⟨ok, clients, hc⟩ := hchoose.carrying s.clients (requests i) s.given how
          have hchosen := hc d hd
          rw [← he] at hchosen
          rw [he', hc d' hd', hchosen]
          refine (h.withClients clients).setDownload (fun hi' => absurd (hi'.symm.trans hi) Bool.false_ne_true)
            fun _ => ?_
          cases ok with
          | true => exact .running _ _
          | false => exact .over
      · exact absurd (congrArg Prod.snd ha) nofun
      · exact absurd (congrArg Prod.snd ha) nofun
    · have hi : (requests i).carries = false := ha
      have hr' : t.downloads i = .running use := (h.others i hi).symm.trans hr
      have hjar : s.jarOf use = t.jarOf use := by
        rcases use with (n | n) | jar
        · exact congrFun h.cached n
        · exact congrFun h.given n
        · rfl
      rcases step_cases ht with ⟨j, how, ha, -⟩ | ⟨j, target', r', use', ha, hr'', rfl⟩ | ⟨j, use', ha, -⟩
      · exact absurd (congrArg Prod.snd ha) nofun
      · cases ha
        obtain rfl : use = use' := by
          rw [hr'] at hr''
          injection hr''
        refine ⟨by simp only [sent, hr, hr', hjar], ?_⟩
        rw [hjar]
        rcases use with (n | n) | jar
        · exact ⟨h.clients, by simp only [setJar, h.cached], h.given, h.others, h.carrying⟩
        · exact ⟨h.clients, h.cached, by simp only [setJar, h.given], h.others, h.carrying⟩
        · exact h.setDownload (fun _ => rfl) fun hi' => absurd (hi.symm.trans hi') Bool.false_ne_true
      · exact absurd (congrArg Prod.snd ha) nofun
    · rcases step_cases ht with ⟨j, how, ha, -⟩ | ⟨j, target, r, use', ha, -⟩ | ⟨j, use', ha, -, rfl⟩
      · exact absurd (congrArg Prod.snd ha) nofun
      · exact absurd (congrArg Prod.snd ha) nofun
      · cases ha
        exact ⟨rfl, h.setDownload (fun _ => rfl) fun _ => .over⟩

/-- Nothing leaks where the clients are apart. -/
theorem leaksNothing_of_apart (hchoose : Apart lib choose) (init : σ) : LeaksNothing (τ := τ) lib choose init where
  own := by
    intro requests s as u i target r hstart he hi c hc
    obtain ⟨use, hr, hc⟩ := mem_sent hc
    obtain ⟨jar, rfl, hjar⟩ := (traced hchoose hstart he).carrying i use hi hr
    exact hjar c hc
  others := by
    intro requests s as u i target r hstart he hi c hc
    have ht := traced hchoose hstart he
    obtain ⟨use, hr, hc⟩ := mem_sent hc
    rcases use with (n | n) | jar
    · exact ht.cached n c hc
    · exact ht.given n c hc
    · exact ht.others i jar hi hr c hc
  blind := by
    intro requests requests' s s' as bs u u' hreq hs hs' hgiven he he' hvisible
    refine (unwinds hchoose hreq init).outputs_eq ?_ he he' hvisible
    refine ⟨hs.1.trans hs'.1.symm, funext fun n => (hs.2.1 n).trans (hs'.2.1 n).symm, hgiven, fun i _ => ?_, fun i _ => ?_⟩
    · rw [hs.2.2 i, hs'.2.2 i]
    · rw [hs.2.2 i, hs'.2.2 i]
      exact .waiting

/-! ## The downloaders -/

/-- A client with the cookies of the request. -/
theorem makeClient_own {r : CookieRequest} {jar : List γ} (hr : r.carries = false)
    (h : r.cookies.makeClient lib r.url = .own jar) : jar = [] := by
  obtain ⟨url, verify, cookies, renderable⟩ := r
  cases cookies with
  | none =>
    cases h
    rfl
  | dict d =>
    have hd : d = [] := by simpa [CookieRequest.carries] using hr
    subst hd
    cases h
    by_contra hne
    obtain ⟨c, hc⟩ := List.exists_mem_of_ne_nil _ hne
    obtain ⟨kv, hkv, -⟩ := lib.ofDict_mem hc
    exact absurd hkv List.not_mem_nil
  | jar n => cases h

theorem truthy_dict {d : List (String × String)} (h : d ≠ []) (given : Nat → List γ) :
    CookiesArg.truthy given (.dict d) = true := by
  simpa [CookiesArg.truthy] using h

end

theorem apart_session : Apart lib (SessionCookies.clientFor lib) where
  carrying := by
    intro s r given how
    refine ⟨how.builds, s, fun d hd => ?_⟩
    simp only [SessionCookies.clientFor, truthy_dict hd, Bool.not_true, Bool.and_false, Bool.false_and,
      Bool.false_eq_true, if_false]
    rfl
  others := by
    intro s r given how jar hr h c hc
    simp only [SessionCookies.clientFor] at h
    split at h
    · rw [Option.map_eq_some_iff] at h
      obtain ⟨n, -, hn⟩ := h
      exact absurd hn nofun
    · split at h
      · have := makeClient_own hr (Option.some.inj h)
        rw [this] at hc
        exact absurd hc List.not_mem_nil
      · exact absurd h nofun

theorem apart_async : Apart lib (AsyncJars.clientFor lib) where
  carrying := by
    intro s r given how
    refine ⟨how.builds, s, fun d hd => ?_⟩
    simp only [AsyncJars.clientFor, truthy_dict hd, if_true]
    rfl
  others := by
    intro s r given how jar hr h c hc
    simp only [AsyncJars.clientFor] at h
    split at h
    · split at h
      · have := makeClient_own hr (Option.some.inj h)
        rw [this] at hc
        exact absurd hc List.not_mem_nil
      · exact absurd h nofun
    · split at h
      all_goals
        simp only [Option.map_eq_some_iff] at h
        obtain ⟨n, -, hn⟩ := h
        exact absurd hn nofun

/-- What a dict has after `d[k] = v`. -/
theorem mem_setItem {d : List (String × String)} {k v : String} {kv : String × String}
    (h : kv ∈ CookiesArg.setItem d k v) : kv ∈ d ∨ kv = (k, v) := by
  unfold CookiesArg.setItem at h
  split at h
  · obtain ⟨kv', hkv', he⟩ := List.mem_map.mp h
    split at he
    · exact .inr he.symm
    · exact .inl (he ▸ hkv')
  · rcases List.mem_append.mp h with h | h
    · exact .inl h
    · exact .inr (List.mem_singleton.mp h)

/-- The dict of a jar has its names and values. -/
theorem mem_renderInputs {given : Nat → List γ} {n : Nat} {kv : String × String}
    (h : kv ∈ CookiesArg.renderInputs lib given (.jar n)) :
    ∃ c ∈ given n, lib.name c = kv.1 ∧ lib.value c = some kv.2 := by
  refine List.foldlRecOn (motive := fun (d : List (String × String)) =>
    kv ∈ d → ∃ c ∈ given n, lib.name c = kv.1 ∧ lib.value c = some kv.2) (given n) _ (fun h => ?_)
    (fun d ih c hc h => ?_) h
  · exact absurd h List.not_mem_nil
  · split at h
    · rename_i v hv
      rcases mem_setItem h with h | rfl
      · exact ih h
      · exact ⟨c, hc, rfl, hv⟩
    · exact ih h

theorem apart_render : Apart lib (RenderContexts.render lib) where
  carrying := by
    intro w r given how
    refine ⟨(w.ensureBrowser how.launches).1 && r.renderable && how.builds, (w.ensureBrowser how.launches).2,
      fun d hd => ?_⟩
    have hne : d.isEmpty = false := by simpa using hd
    simp only [RenderContexts.render, CookiesArg.renderInputs, hne, Bool.not_false, if_true]
    cases (w.ensureBrowser how.launches).1 <;> cases r.renderable <;> cases how.builds <;> rfl
  others := by
    intro w r given how jar hr h c hc
    simp only [RenderContexts.render] at h
    split at h
    · exact absurd h nofun
    · split at h
      · rename_i hne
        split at h
        · cases h
          obtain ⟨url, verify, cookies, renderable⟩ := r
          cases cookies with
          | none => exact absurd hne Bool.false_ne_true
          | dict d => exact absurd (hne.symm.trans hr) Bool.noConfusion
          | jar n =>
            obtain ⟨kv, hkv, hname, hvalue⟩ := lib.ofDict_mem hc
            obtain ⟨c', hc', hname', hvalue'⟩ := mem_renderInputs lib hkv
            exact ⟨n, c', hc', hname.trans hname'.symm, hvalue.trans hvalue'.symm⟩
        · exact absurd h nofun
      · simp only [Option.map_eq_some_iff] at h
        obtain ⟨n, -, hn⟩ := h
        exact absurd hn nofun

/-- A `HttpxDownloader` or `CurlDownloader`, an `AsyncHttpxDownloader` and a
`_RenderWorker` without `user_data_dir` leak nothing, in whatever state their caches
are at first. -/
theorem downloaders_leak_nothing :
    (∀ d : SessionCookies, LeaksNothing lib (SessionCookies.clientFor lib) d) ∧
      (∀ d : AsyncJars, LeaksNothing lib (AsyncJars.clientFor lib) d) ∧
      ∀ w : RenderContexts, LeaksNothing lib (RenderContexts.render lib) w :=
  ⟨leaksNothing_of_apart (apart_session lib), leaksNothing_of_apart (apart_async lib),
    leaksNothing_of_apart (apart_render lib)⟩

/-- Cookies that are sent to every URL, the last value that was set for a name. -/
def plainCookies : CookieLibrary (String × String) String (List (String × String)) where
  name := Prod.fst
  value c := some c.2
  ofDict _ d := d
  store jar _ set := jar.filter (fun c => c.1 ∉ set.map Prod.fst) ++ set
  send jar _ := jar
  setBy _ set := set.map fun c => (c.1, some c.2)
  ofDict_mem h := ⟨_, h, rfl, rfl⟩
  store_mem h := by
    rcases List.mem_append.mp h with h | h
    · exact .inl (List.mem_filter.mp h).1
    · exact .inr (List.mem_map_of_mem (f := fun c : String × String => (c.1, some c.2)) h)
  send_mem h := h

theorem session_leaks_nothing :
    LeaksNothing plainCookies (SessionCookies.clientFor plainCookies) ⟨.bool true, true, .init {} 2⟩ :=
  (downloaders_leak_nothing plainCookies).1 _

end CookieWorld

end Netspy
