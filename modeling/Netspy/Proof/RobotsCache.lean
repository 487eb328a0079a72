import Netspy.Framework.Exclusive
import Netspy.Impl.RobotsCache

/-!
# Robots files are fetched one after another

A domain has one lock as long as nobody calls `reset`, and who fetches has it (`Locks`).
So between the fetches of a domain there is its TTL (`Spaced`), and what they found is
what is answered (`Sourced`).
-/

namespace Netspy

namespace RobotsPhase

variable {ρ : Type} {p : RobotsPhase ρ}

/-- The entry that a call has. -/
def entry? : RobotsPhase ρ → Option (RobotsEntry ρ)
  | .looked e | .relooked _ e => e
  | .fetched _ e | .stored _ e => some e
  | .missed | .waiting _ | .held _ | .fetching _ _ => none

theorem lock?_of_inside {l : Nat} (h : p.inside = some l) : p.lock? = some l := by
  cases p with
  | looked | missed | waiting => cases h
  | held | relooked | fetching | fetched | stored => exact h

end RobotsPhase

namespace RobotsCache

variable {ρ : Type} {lib : RobotsLib ρ} {ttl : Int} {s t : RobotsCache ρ} {a : RobotsAct}

/-! ## What a step does -/

/-- Everything that a step can do. -/
inductive Stepped (lib : RobotsLib ρ) (ttl : Int) (s : RobotsCache ρ) : RobotsAct → RobotsCache ρ → Prop
  | ticked (d : Nat) : Stepped lib ttl s (.tick d) { s with now := s.now + d }
  | looked (i : Nat) (domain : String) (hcall : s.calls i = none) :
      Stepped lib ttl s (.entry i domain) (s.setCall i (some ⟨domain, .looked (s.entries domain)⟩))
  | found (i : Nat) (domain : String) (entry : RobotsEntry ρ) (hcall : s.calls i = some ⟨domain, .looked (some entry)⟩)
      (hfresh : fresh ttl s.now entry = true) : Stepped lib ttl s (.judge i) (s.answer i domain entry s.now)
  | missed (i : Nat) (domain : String) (entry : Option (RobotsEntry ρ)) (hcall : s.calls i = some ⟨domain, .looked entry⟩) :
      Stepped lib ttl s (.judge i) (s.setCall i (some ⟨domain, .missed⟩))
  | foundAgain (i : Nat) (domain : String) (l : Nat) (entry : RobotsEntry ρ)
      (hcall : s.calls i = some ⟨domain, .relooked l (some entry)⟩) (hfresh : fresh ttl s.now entry = true) :
      Stepped lib ttl s (.judge i) ((s.answer i domain entry s.now).release l)
  | fetching (i : Nat) (domain : String) (l : Nat) (entry : Option (RobotsEntry ρ))
      (hcall : s.calls i = some ⟨domain, .relooked l entry⟩) (hstale : ∀ e, entry = some e → fresh ttl s.now e = false) :
      Stepped lib ttl s (.judge i) (s.setCall i (some ⟨domain, .fetching l s.now⟩))
  | lockGot (i : Nat) (domain : String) (l : Nat) (hcall : s.calls i = some ⟨domain, .missed⟩)
      (hlock : s.domainLocks domain = some l) : Stepped lib ttl s (.domainLock i) (s.setCall i (some ⟨domain, .waiting l⟩))
  | lockMade (i : Nat) (domain : String) (hcall : s.calls i = some ⟨domain, .missed⟩) (hlock : s.domainLocks domain = none) :
      Stepped lib ttl s (.domainLock i) { s.setCall i (some ⟨domain, .waiting s.locks.length⟩) with
        domainLocks := Function.update s.domainLocks domain (some s.locks.length)
        locks := s.locks ++ [(domain, s.resets)] }
  | acquired (i : Nat) (domain : String) (l : Nat) (hcall : s.calls i = some ⟨domain, .waiting l⟩)
      (hfree : s.holders l = none) : Stepped lib ttl s (.acquire i)
        { s.setCall i (some ⟨domain, .held l⟩) with holders := Function.update s.holders l (some i) }
  | relooked (i : Nat) (domain : String) (l : Nat) (hcall : s.calls i = some ⟨domain, .held l⟩) :
      Stepped lib ttl s (.look i) (s.setCall i (some ⟨domain, .relooked l (s.entries domain)⟩))
  | fetched (i : Nat) (domain : String) (l begun : Nat) (response : RobotsResponse) (parser : Option ρ) (text : String)
      (hcall : s.calls i = some ⟨domain, .fetching l begun⟩) (hfetch : lib.fetch response = .ok (parser, text)) :
      Stepped lib ttl s (.fetched i response)
        { s.setCall i (some ⟨domain, .fetched l ⟨parser, text, s.now⟩⟩) with
          fetches := ⟨domain, begun, response, some ⟨parser, text, s.now⟩⟩ :: s.fetches }
  | raised (i : Nat) (domain : String) (l begun : Nat) (response : RobotsResponse) (e : Exn)
      (hcall : s.calls i = some ⟨domain, .fetching l begun⟩) (hfetch : lib.fetch response = .error e) :
      Stepped lib ttl s (.fetched i response)
        ({ s.setCall i none with fetches := ⟨domain, begun, response, none⟩ :: s.fetches }.release l)
  | stored (i : Nat) (domain : String) (l : Nat) (entry : RobotsEntry ρ)
      (hcall : s.calls i = some ⟨domain, .fetched l entry⟩) :
      Stepped lib ttl s (.store i) { s.setCall i (some ⟨domain, .stored l entry⟩) with
        entries := Function.update s.entries domain (some entry) }
  | applied (i : Nat) (domain : String) (l : Nat) (entry : RobotsEntry ρ) (delays : String → Option Rat)
      (hcall : s.calls i = some ⟨domain, .stored l entry⟩)
      (hdelays : ∀ d seconds, delays d = some seconds →
        s.delays d = some seconds ∨ d = domain ∧ lib.crawlDelay entry = some seconds ∧ 0 < seconds) :
      Stepped lib ttl s (.applyDelay i) (({ s with delays }.answer i domain entry entry.fetchedAt).release l)
  | reset : Stepped lib ttl s .reset
      { s with entries := fun _ => none, domainLocks := fun _ => none, resets := s.resets + 1 }

theorem applyCrawlDelay_cases (lib : RobotsLib ρ) (s : RobotsCache ρ) (domain : String) (entry : RobotsEntry ρ) : ∃ delays,
    s.applyCrawlDelay lib domain entry = { s with delays } ∧ ∀ d seconds, delays d = some seconds →
      s.delays d = some seconds ∨ d = domain ∧ lib.crawlDelay entry = some seconds ∧ 0 < seconds := by
  rw [applyCrawlDelay]
  split
  next => exact ⟨_, rfl, fun d seconds h => .inl h⟩
  next seconds hs =>
    split_ifs with hpos
    · refine ⟨_, rfl, fun d seconds' h => ?_⟩
      obtain ⟨rfl, he⟩ | ⟨-, h⟩ := Calls.update_eq_some h
      · cases he
        exact .inr ⟨rfl, hs, hpos⟩
      · exact .inl h
    · exact ⟨_, rfl, fun d seconds' h => .inl h⟩

theorem step_cases (h : s.step lib ttl a = some t) : Stepped lib ttl s a t := by
  cases a with
  | tick d =>
    cases h
    exact .ticked d
  | entry i domain =>
    simp only [step] at h
    split at h
    next hcall =>
      cases h
      exact .looked i domain hcall
    next => cases h
  | judge i =>
    simp only [step] at h
    split at h
    next domain entry hcall =>
      split at h
      next e he =>
        obtain ⟨rfl, hfresh⟩ := Option.filter_eq_some_iff.mp he
        cases h
        exact .found i domain e hcall hfresh
      next =>
        cases h
        exact .missed i domain entry hcall
    next domain l entry hcall =>
      split at h
      next e he =>
        obtain ⟨rfl, hfresh⟩ := Option.filter_eq_some_iff.mp he
        cases h
        exact .foundAgain i domain l e hcall hfresh
      next hno =>
        cases h
        refine .fetching i domain l entry hcall fun e he => ?_
        simpa using Option.filter_eq_none_iff.mp hno e he
    next => cases h
  | domainLock i =>
    simp only [step] at h
    split at h
    next domain hcall =>
      split at h
      next l hlock =>
        cases h
        exact .lockGot i domain l hcall hlock
      next hlock =>
        cases h
        exact .lockMade i domain hcall hlock
    next => cases h
  | acquire i =>
    simp only [step] at h
    split at h
    next domain l hcall =>
      obtain ⟨hfree, h⟩ := Option.ite_none_right_eq_some.mp h
      cases h
      exact .acquired i domain l hcall (Option.isNone_iff_eq_none.mp hfree)
    next => cases h
  | look i =>
    simp only [step] at h
    split at h
    next domain l hcall =>
      cases h
      exact .relooked i domain l hcall
    next => cases h
  | fetched i response =>
    simp only [step] at h
    split at h
    next domain l begun hcall =>
      split at h
      next parser text hfetch =>
        cases h
        exact .fetched i domain l begun response parser text hcall hfetch
      next e hfetch =>
        cases h
        exact .raised i domain l begun response e hcall hfetch
    next => cases h
  | store i =>
    simp only [step] at h
    split at h
    next domain l entry hcall =>
      cases h
      exact .stored i domain l entry hcall
    next => cases h
  | applyDelay i =>
    simp only [step] at h
    split at h
    next domain l entry hcall =>
      obtain ⟨delays, hs, hdelays⟩ := applyCrawlDelay_cases lib s domain entry
      rw [hs] at h
      cases h
      exact .applied i domain l entry delays hcall hdelays
    next => cases h
  | reset =>
    cases h
    exact .reset

/-! ## The locks -/

/-- The lock that a thread has. -/
def has (s : RobotsCache ρ) (i : Nat) : Option Nat := (s.calls i).bind fun c => c.phase.inside

/-- A lock belongs to one domain, and between two of a domain there was a `reset`. -/
structure Locks (s : RobotsCache ρ) : Prop where
  nodup : s.locks.Nodup
  current : ∀ d l, s.domainLocks d = some l → s.locks[l]? = some (d, s.resets)
  known : ∀ d, (d, s.resets) ∈ s.locks → (s.domainLocks d).isSome
  past : ∀ e ∈ s.locks, e.2 ≤ s.resets
  of_call : ∀ i c, s.calls i = some c → ∀ l ∈ c.phase.lock?, ∃ n, s.locks[l]? = some (c.domain, n)
  exclusive : Exclusive (fun l => s.holders l = none) s.has

theorem has_setCall (i : Nat) (c : Option (RobotsCall ρ)) :
    (s.setCall i c).has = Function.update s.has i (c.bind fun c => c.phase.inside) := by
  funext j
  by_cases hj : j = i
  · subst hj
    simp [has, setCall]
  · simp [has, setCall, hj]

theorem has_setCall_eq {i : Nat} {c : Option (RobotsCall ρ)} (h : (c.bind fun c => c.phase.inside) = s.has i) :
    (s.setCall i c).has = s.has := by
  rw [has_setCall, h, Function.update_eq_self]

theorem has_of_call {i : Nat} {c : RobotsCall ρ} (hcall : s.calls i = some c) : s.has i = c.phase.inside := by
  rw [has, hcall, Option.bind_some]

namespace Locks

/-- A call that goes on with the lock that it has, or without one as before. -/
theorem setCall (h : Locks s) {i : Nat} {c : RobotsCall ρ}
    (hlock : ∀ l ∈ c.phase.lock?, ∃ n, s.locks[l]? = some (c.domain, n))
    (hinside : c.phase.inside = s.has i) : Locks (s.setCall i (some c)) := by
  refine { h with of_call := ?_, exclusive := ?_ }
  · exact Calls.forall_update (f := s.calls) h.of_call fun y hy l hl => by
      cases hy
      exact hlock l hl
  · rw [has_setCall_eq (c := some c) hinside]
    exact h.exclusive

/-- A call that goes on with its domain and its lock. -/
theorem goOn (h : Locks s) {i : Nat} {c : RobotsCall ρ} (hcall : s.calls i = some c) {p : RobotsPhase ρ}
    (hlock : p.lock? = c.phase.lock?) (hinside : p.inside = c.phase.inside) :
    Locks (s.setCall i (some ⟨c.domain, p⟩)) := by
  refine h.setCall (fun l hl => h.of_call i c hcall l ?_) (hinside.trans (has_of_call hcall).symm)
  rwa [← hlock]

/-- A call that ends without a lock. -/
theorem answer (h : Locks s) {i : Nat} (hno : s.has i = none) (domain : String) (entry : RobotsEntry ρ) (moment : Nat) :
    Locks (s.answer i domain entry moment) := by
  refine { h with of_call := ?_, exclusive := ?_ }
  · exact Calls.forall_update (f := s.calls) h.of_call fun y hy => by cases hy
  · have he : (s.answer i domain entry moment).has = s.has := has_setCall_eq (s := s) (c := none) hno.symm
    rw [he]
    exact h.exclusive

/-- A call that ends and gives back its lock. -/
theorem release (h : Locks s) {i l : Nat} (hl : s.has i = some l) (domain : String) (entry : RobotsEntry ρ) (moment : Nat) :
    Locks ((s.answer i domain entry moment).release l) := by
  refine { h with of_call := ?_, exclusive := ?_ }
  · exact Calls.forall_update (f := s.calls) h.of_call fun y hy => by cases hy
  · have he : ((s.answer i domain entry moment).release l).has = Function.update s.has i none :=
      has_setCall (s := s) i none
    rw [he]
    refine h.exclusive.step (fun x hx => ?_) fun x hx => by cases hx
    by_cases hxl : x = l
    · exact .inr (hxl ▸ hl)
    · exact .inl (by simpa [RobotsCache.release, RobotsCache.answer, RobotsCache.setCall, hxl] using hx)

theorem step (h : Locks s) (ht : Stepped lib ttl s a t) : Locks t := by
  cases ht with
  | ticked d => exact { h with }
  | looked i domain hcall =>
    exact h.setCall (by simp [RobotsPhase.lock?]) (by simp [has, hcall, RobotsPhase.inside])
  | found i domain entry hcall hfresh => exact h.answer (has_of_call hcall) domain entry s.now
  | missed i domain entry hcall => exact h.goOn hcall rfl rfl
  | foundAgain i domain l entry hcall hfresh => exact h.release (has_of_call hcall) domain entry s.now
  | fetching i domain l entry hcall hstale => exact h.goOn hcall rfl rfl
  | lockGot i domain l hcall hlock =>
    refine h.setCall (fun l' hl' => ?_) (has_of_call hcall).symm
    cases hl'
    exact ⟨s.resets, h.current domain l hlock⟩
  | lockMade i domain hcall hlock =>
    have hnew : (domain, s.resets) ∉ s.locks := fun hmem => by simpa [hlock] using h.known domain hmem
    have hold {l : Nat} {e : String × Nat} (he : s.locks[l]? = some e) : (s.locks ++ [(domain, s.resets)])[l]? = some e :=
      (List.getElem?_append_left (List.getElem?_eq_some_iff.mp he).1).trans he
    refine { nodup := ?_, current := ?_, known := ?_, past := ?_, of_call := ?_, exclusive := ?_ }
    · refine List.nodup_append.mpr ⟨h.nodup, List.nodup_singleton _, fun e he e' he' hee => hnew ?_⟩
      rwa [hee, List.mem_singleton.mp he'] at he
    · intro d l hl
      obtain ⟨rfl, hd⟩ | ⟨-, hd⟩ := Calls.update_eq_some hl
      · cases hd
        exact List.getElem?_concat_length
      · exact hold (h.current d l hd)
    · intro d hd
      by_cases hdd : d = domain
      · simp [hdd]
      · have hmem : (d, s.resets) ∈ s.locks := by
          rcases List.mem_append.mp hd with hd | hd
          · exact hd
          · cases List.mem_singleton.mp hd
            exact absurd rfl hdd
        simpa [hdd] using h.known d hmem
    · intro e he
      rcases List.mem_append.mp he with he | he
      · exact h.past e he
      · cases List.mem_singleton.mp he
        exact le_rfl
    · refine Calls.forall_update (f := s.calls) (fun j c hj l hl => ?_) fun y hy l hl => ?_
      · obtain ⟨n, hn⟩ := h.of_call j c hj l hl
        exact ⟨n, hold hn⟩
      · cases hy
        cases hl
        exact ⟨s.resets, List.getElem?_concat_length⟩
    · have he := has_setCall_eq (s := s) (i := i) (c := some ⟨domain, .waiting s.locks.length⟩) (has_of_call hcall).symm
      exact he ▸ h.exclusive
  | acquired i domain l hcall hfree =>
    refine { h with of_call := ?_, exclusive := ?_ }
    · refine Calls.forall_update (f := s.calls) h.of_call fun y hy l' hl' => ?_
      cases hy
      exact h.of_call i _ hcall l' hl'
    · have he := has_setCall (s := s) i (some ⟨domain, .held l⟩)
      have hstep : Exclusive (fun x => Function.update s.holders l (some i) x = none) (Function.update s.has i (some l)) := by
        refine h.exclusive.step (fun x hx => .inl ?_) fun x hx => ?_
        · by_cases hxl : x = l
          · simp [hxl] at hx
          · simpa [hxl] using hx
        · cases hx
          exact ⟨.inl hfree, by simp⟩
      exact he ▸ hstep
  | relooked i domain l hcall => exact h.goOn hcall rfl rfl
  | fetched i domain l begun response parser text hcall hfetch =>
    have hk := h.goOn hcall (p := .fetched l ⟨parser, text, s.now⟩) rfl rfl
    exact { hk with }
  | raised i domain l begun response e hcall hfetch =>
    have hk := h.release (has_of_call hcall) domain ⟨none, "", s.now⟩ s.now
    exact { hk with }
  | stored i domain l entry hcall =>
    have hk := h.goOn hcall (p := .stored l entry) rfl rfl
    exact { hk with }
  | applied i domain l entry delays hcall hdelays =>
    exact release (s := { s with delays }) { h with } (has_of_call hcall) domain entry entry.fetchedAt
  | reset =>
    refine { nodup := h.nodup, current := ?_, known := ?_, past := ?_, of_call := h.of_call, exclusive := h.exclusive }
    · simp
    · intro d hd
      have := h.past _ hd
      simp only at this
      omega
    · intro e he
      exact (h.past e he).trans (Nat.le_succ _)

/-- Two threads that have locks of a domain: there was a `reset` between these. -/
theorem unique (h : Locks s) {i j : Nat} {c c' : RobotsCall ρ} (hi : s.calls i = some c) (hj : s.calls j = some c')
    (hd : c.domain = c'.domain) {l l' : Nat} (hl : c.phase.inside = some l) (hl' : c'.phase.inside = some l') :
    i = j ∨ ∃ n n', s.locks[l]? = some (c.domain, n) ∧ s.locks[l']? = some (c.domain, n') ∧ n ≠ n' := by
  obtain ⟨n, hn⟩ := h.of_call i c hi l (RobotsPhase.lock?_of_inside hl)
  obtain ⟨n', hn'⟩ := h.of_call j c' hj l' (RobotsPhase.lock?_of_inside hl')
  rw [← hd] at hn'
  by_cases he : n = n'
  · subst he
    cases (List.getElem?_inj (List.getElem?_eq_some_iff.mp hn).1 h.nodup).mp (hn.trans hn'.symm)
    exact .inl (h.exclusive.unique i j l ((has_of_call hi).trans hl) ((has_of_call hj).trans hl'))
  · exact .inr ⟨n, n', hn, hn', he⟩

end Locks

theorem locks_kept (h : (machine lib ttl).Reachable s) : Locks s := by
  refine h.induct (fun s hs => ?_) fun s a t hs _ ht => hs.step (step_cases ht)
  cases hs
  exact ⟨List.nodup_nil, by simp, by simp, by simp, by simp, ⟨by simp [has], by simp [has]⟩⟩

/-- Two threads that fetch the file of a domain at once have locks between which there was
a `reset`. -/
theorem robots_single_flight (h : (machine lib ttl).Reachable s) {i j l l' b b' : Nat} {domain : String} (hne : i ≠ j)
    (hi : s.calls i = some ⟨domain, .fetching l b⟩) (hj : s.calls j = some ⟨domain, .fetching l' b'⟩) :
    ∃ n n', s.locks[l]? = some (domain, n) ∧ s.locks[l']? = some (domain, n') ∧ n ≠ n' ∧ n ≤ s.resets ∧ n' ≤ s.resets := by
  have hl := locks_kept h
  rcases hl.unique hi hj rfl rfl rfl with he | ⟨n, n', hn, hn', hnn⟩
  · exact absurd he hne
  · exact ⟨n, n', hn, hn', hnn, hl.past _ (List.mem_of_getElem? hn), hl.past _ (List.mem_of_getElem? hn')⟩

/-- Files that are `User-agent: *` with a delay, and disallow everything. -/
def strictLib : RobotsLib Bool where
  lower cs := cs.map Char.toLower
  float cs := if cs = ['2'] then some 2 else none
  raises _ _ := false
  parse text := .ok (text = "user-agent:*\ndisallow:/\ncrawl-delay:2")
  useragent := "bot".toList

/-- `_entry` by a thread that finds nothing, up to the download. -/
def upToFetch (i : Nat) : List RobotsAct := [.entry i "a", .judge i, .domainLock i, .acquire i, .look i, .judge i]

theorem upToFetch_ran : ((machine strictLib 10).exec {} (upToFetch 0 ++ RobotsAct.reset :: upToFetch 1)).map
    (fun s => (s.calls 0, s.calls 1, s.locks)) =
      some (some ⟨"a", .fetching 0 0⟩, some ⟨"a", .fetching 1 0⟩, [("a", 0), ("a", 1)]) := by
  decide +kernel

theorem robots_single_flight_reset : ∃ s,
    (machine strictLib 10).exec {} (upToFetch 0 ++ RobotsAct.reset :: upToFetch 1) = some s ∧
    ∃ n n', s.locks[0]? = some ("a", n) ∧ s.locks[1]? = some ("a", n') ∧ n ≠ n' ∧ n ≤ s.resets ∧ n' ≤ s.resets := by
  obtain ⟨s, he, hs⟩ := Option.map_eq_some_iff.mp upToFetch_ran
  have hr : (machine strictLib 10).Reachable s := Machine.Reachable.exec (.start rfl) he
  obtain ⟨h0, hrest⟩ := Prod.mk.inj hs
  exact ⟨s, he, robots_single_flight hr (by decide) h0 (Prod.mk.inj hrest).1⟩

/-! ## The fetches of a domain -/

/-- What a thread that has a lock knows of the fetches of its domain. -/
def Knows (ttl : Int) (s : RobotsCache ρ) (c : RobotsCall ρ) : Prop :=
  match c.phase with
  | .relooked _ entry => entry = s.entries c.domain
  | .fetching _ begun => ∀ f ∈ s.fetches, f.domain = c.domain → ∀ e ∈ f.entry, 0 < ttl ∧ e.fetchedAt + ttl ≤ begun
  | .fetched _ entry => ∀ f ∈ s.fetches, f.domain = c.domain → ∀ e ∈ f.entry, e.fetchedAt ≤ entry.fetchedAt
  | _ => True

/-- The time to live of what the earlier fetch of the domain gave is over. -/
def Apart (ttl : Int) (later earlier : RobotsFetch ρ) : Prop :=
  later.domain = earlier.domain → ∀ e ∈ earlier.entry, 0 < ttl ∧ e.fetchedAt + ttl ≤ later.begun

structure Spaced (ttl : Int) (s : RobotsCache ρ) : Prop where
  resets : s.resets = 0
  apart : s.fetches.Pairwise (Apart ttl)
  past : ∀ f ∈ s.fetches, ∀ e ∈ f.entry, e.fetchedAt ≤ s.now
  /-- What was fetched is in the cache, or about to be. -/
  known : ∀ f ∈ s.fetches, ∀ e ∈ f.entry, (∃ e', s.entries f.domain = some e' ∧ e.fetchedAt ≤ e'.fetchedAt) ∨
    ∃ i l e', s.calls i = some ⟨f.domain, .fetched l e'⟩
  knows : ∀ i c, s.calls i = some c → Knows ttl s c

/-- Without a `reset` one thread has a lock of a domain. -/
theorem Spaced.alone (h : Spaced ttl s) (hl : Locks s) {i j : Nat} {c c' : RobotsCall ρ} (hi : s.calls i = some c)
    (hj : s.calls j = some c') (hd : c.domain = c'.domain) (hc : c.phase.inside.isSome) (hc' : c'.phase.inside.isSome) :
    i = j := by
  obtain ⟨l, hin⟩ := Option.isSome_iff_exists.mp hc
  obtain ⟨l', hin'⟩ := Option.isSome_iff_exists.mp hc'
  rcases hl.unique hi hj hd hin hin' with he | ⟨n, n', hn, hn', hne⟩
  · exact he
  · have hz {l n : Nat} (hn : s.locks[l]? = some (c.domain, n)) : n = 0 :=
      Nat.le_zero.mp (h.resets ▸ hl.past _ (List.mem_of_getElem? hn))
    exact absurd ((hz hn).trans (hz hn').symm) hne

/-- A step that fetches nothing and stores nothing, of a thread that is not about to store. -/
theorem Spaced.setCall (h : Spaced ttl s) {i : Nat} {c : Option (RobotsCall ρ)}
    (hno : ∀ d l e, s.calls i ≠ some ⟨d, .fetched l e⟩) (hc : ∀ y, c = some y → Knows ttl s y) :
    Spaced ttl (s.setCall i c) := by
  refine { h with known := fun f hf e he => ?_, knows := Calls.forall_update (f := s.calls) h.knows hc }
  rcases h.known f hf e he with hin | ⟨j, l, e', hj⟩
  · exact .inl hin
  · refine .inr ⟨j, l, e', ?_⟩
    have hji : j ≠ i := fun hji => hno _ l e' (hji ▸ hj)
    simpa [RobotsCache.setCall, hji] using hj

/-- What the other threads know, after a fetch. -/
theorem Spaced.knows_of_fetch (h : Spaced ttl s) (hl : Locks s) {i j : Nat} {domain : String} {l begun : Nat}
    (hcall : s.calls i = some ⟨domain, .fetching l begun⟩) (hji : j ≠ i) {c : RobotsCall ρ} (hj : s.calls j = some c)
    {response : RobotsResponse} (entry : Option (RobotsEntry ρ)) :
    Knows ttl { s with fetches := ⟨domain, begun, response, entry⟩ :: s.fetches } c := by
  have hk := h.knows j c hj
  -- another thread that fetches, or has fetched, has another domain
  have hother (hin : c.phase.inside.isSome) : domain ≠ c.domain := fun hd =>
    hji (h.alone hl hcall hj hd rfl hin).symm
  obtain ⟨d, p⟩ := c
  cases p with
  | fetching l' b => exact List.forall_mem_cons.mpr ⟨fun hd => absurd hd (hother rfl), hk⟩
  | fetched l' e => exact List.forall_mem_cons.mpr ⟨fun hd => absurd hd (hother rfl), hk⟩
  | _ => exact hk

theorem Spaced.step (h : Spaced ttl s) (hl : Locks s) (ha : a ≠ .reset) (ht : Stepped lib ttl s a t) : Spaced ttl t := by
  cases ht with
  | ticked d => exact { h with past := fun f hf e he => (h.past f hf e he).trans (Nat.le_add_right _ _) }
  | looked i domain hcall => exact h.setCall (by simp [hcall]) (by simp [Knows])
  | found i domain entry hcall hfresh =>
    have hs := h.setCall (i := i) (c := none) (by simp [hcall]) (by simp)
    exact { hs with }
  | missed i domain entry hcall => exact h.setCall (by simp [hcall]) (by simp [Knows])
  | foundAgain i domain l entry hcall hfresh =>
    have hs := h.setCall (i := i) (c := none) (by simp [hcall]) (by simp)
    exact { hs with }
  | fetching i domain l entry hcall hstale =>
    refine h.setCall (by simp [hcall]) fun y hy => ?_
    cases hy
    intro f hf hd e he
    have hentry : entry = s.entries domain := h.knows i _ hcall
    rcases h.known f hf e he with ⟨e', he', hle⟩ | ⟨j, l', e', hj⟩
    · have hfresh := hstale e' (by rw [hentry, ← he', hd])
      simp only [fresh, Bool.or_eq_false_iff, decide_eq_false_iff_not] at hfresh
      omega
    · -- nobody else is inside
      cases h.alone hl hcall hj hd.symm rfl rfl
      rw [hcall] at hj
      cases hj
  | lockGot i domain l hcall hlock => exact h.setCall (by simp [hcall]) (by simp [Knows])
  | lockMade i domain hcall hlock =>
    have hs := h.setCall (i := i) (c := some ⟨domain, .waiting s.locks.length⟩) (by simp [hcall]) (by simp [Knows])
    exact { hs with }
  | acquired i domain l hcall hfree =>
    have hs := h.setCall (i := i) (c := some ⟨domain, .held l⟩) (by simp [hcall]) (by simp [Knows])
    exact { hs with }
  | relooked i domain l hcall => exact h.setCall (by simp [hcall]) (by simp [Knows])
  | fetched i domain l begun response parser text hcall hfetch =>
    refine { resets := h.resets, apart := ?_, past := ?_, known := ?_, knows := ?_ }
    · exact List.pairwise_cons.mpr ⟨fun f hf hd => h.knows i _ hcall f hf hd.symm, h.apart⟩
    · exact List.forall_mem_cons.mpr ⟨fun e he => (by cases he; exact le_rfl), h.past⟩
    · refine List.forall_mem_cons.mpr ⟨fun _ _ => .inr ⟨i, l, ⟨parser, text, s.now⟩, by simp [RobotsCache.setCall]⟩,
        fun f hf e he => ?_⟩
      rcases h.known f hf e he with hin | ⟨j, l', e', hj⟩
      · exact .inl hin
      · have hji : j ≠ i := by
          rintro rfl
          rw [hcall] at hj
          cases hj
        exact .inr ⟨j, l', e', by simpa [RobotsCache.setCall, hji] using hj⟩
    · intro j c hj
      obtain ⟨rfl, hc⟩ | ⟨hji, hj⟩ := Calls.update_eq_some (f := s.calls) hj
      · cases hc
        exact List.forall_mem_cons.mpr ⟨fun _ e he => (by cases he; exact le_rfl), fun f hf _ => h.past f hf⟩
      · exact h.knows_of_fetch hl hcall hji hj _
  | raised i domain l begun response e hcall hfetch =>
    have hs := h.setCall (i := i) (c := none) (by simp [hcall]) (by simp)
    refine { resets := h.resets, apart := ?_, past := ?_, known := ?_, knows := ?_ }
    · exact List.pairwise_cons.mpr ⟨fun f hf hd => h.knows i _ hcall f hf hd.symm, h.apart⟩
    · exact List.forall_mem_cons.mpr ⟨fun e he => (by cases he), h.past⟩
    · exact List.forall_mem_cons.mpr ⟨fun e he => (by cases he), hs.known⟩
    · intro j c hj
      obtain ⟨rfl, hc⟩ | ⟨hji, hj⟩ := Calls.update_eq_some (f := s.calls) hj
      · cases hc
      · exact h.knows_of_fetch hl hcall hji hj _
  | stored i domain l entry hcall =>
    refine { resets := h.resets, apart := h.apart, past := h.past, known := fun f hf e he => ?_, knows := ?_ }
    · by_cases hd : f.domain = domain
      · exact .inl ⟨entry, by simp [hd], h.knows i _ hcall f hf hd e he⟩
      · rcases h.known f hf e he with ⟨e', he', hle⟩ | ⟨j, l', e', hj⟩
        · exact .inl ⟨e', by simpa [hd] using he', hle⟩
        · have hji : j ≠ i := by
            rintro rfl
            rw [hcall] at hj
            cases hj
            exact hd rfl
          exact .inr ⟨j, l', e', by simpa [RobotsCache.setCall, hji] using hj⟩
    · intro j c hj
      obtain ⟨rfl, hc⟩ | ⟨hji, hj⟩ := Calls.update_eq_some (f := s.calls) hj
      · cases hc
        trivial
      · have hk := h.knows j c hj
        obtain ⟨d, p⟩ := c
        cases p with
        | relooked l' e =>
          have hd : d ≠ domain := fun hd => hji (h.alone hl hj hcall hd rfl rfl)
          simpa [Knows, hd] using hk
        | _ => exact hk
  | applied i domain l entry delays hcall hdelays =>
    have hs := h.setCall (i := i) (c := none) (by simp [hcall]) (by simp)
    exact { hs with }
  | reset => exact absurd rfl ha

theorem spaced (h : (machine lib ttl).Within (fun _ a => a ≠ .reset) s) : Spaced ttl s := by
  refine Machine.Within.induct_with (fun s hs => locks_kept hs.reachable) (fun s hs => ?_)
    (fun s a t hl hs ha ht => hs.step hl ha (step_cases ht)) h
  cases hs
  exact ⟨rfl, List.Pairwise.nil, by simp, by simp, by simp⟩

/-- Without a `reset` the file of a domain is fetched after a fetch that did not raise only
when what this found is older than `ROBOTS_CACHE_TTL`, and never if that is 0 or less. -/
theorem robots_fetches_spaced (h : (machine lib ttl).Within (fun _ a => a ≠ .reset) s) :
    s.fetches.Pairwise fun later earlier =>
      later.domain = earlier.domain → ∀ e ∈ earlier.entry, 0 < ttl ∧ e.fetchedAt + ttl ≤ later.begun :=
  (spaced h).apart

/-- Two threads that ask at once, and a third one when the answer is too old. -/
def threeAsk : List RobotsAct :=
  [RobotsAct.entry 0 "a", .entry 1 "a", .judge 0, .judge 1, .domainLock 1, .domainLock 0, .acquire 1, .look 1, .judge 1,
    .tick 1, .fetched 1 (.ok (200, .ok "user-agent:*\ndisallow:/\ncrawl-delay:2")), .store 1, .applyDelay 1, .acquire 0,
    .look 0, .judge 0, .tick 10] ++ upToFetch 2 ++ [RobotsAct.fetched 2 (.ok (200, .error "LookupError"))] ++
    upToFetch 2 ++ [RobotsAct.fetched 2 (.ok (500, .ok "")), .store 2, .applyDelay 2]

theorem threeAsk_ran : ((machine strictLib 10).exec {} threeAsk).map
    (fun s => (s.fetches.map fun f => (f.begun, f.entry.map (·.fetchedAt)),
      s.answers.map fun r => (r.entry.parser, r.moment), s.delays "a")) =
      some ([(11, some 11), (11, none), (0, some 1)], [(none, 11), (some true, 1), (some true, 1)], some 2) := by
  decide +kernel

theorem robots_fetches_spaced_threeAsk : ∃ s, (machine strictLib 10).exec {} threeAsk = some s ∧ s.fetches.length = 3 ∧
    s.fetches.Pairwise fun later earlier =>
      later.domain = earlier.domain → ∀ e ∈ earlier.entry, 0 < (10 : Int) ∧ e.fetchedAt + (10 : Int) ≤ later.begun := by
  obtain ⟨s, he, hs⟩ := Option.map_eq_some_iff.mp threeAsk_ran
  have hno : ∀ a ∈ threeAsk, ∀ _ : RobotsCache Bool, a ≠ .reset := by simp [threeAsk, upToFetch]
  have hr : (machine strictLib 10).Within (fun _ a => a ≠ .reset) s :=
    Machine.Within.exec (.start rfl) (Machine.Meets.of_forall hno {}) he
  have hlength := congrArg List.length (Prod.mk.inj hs).1
  rw [List.length_map] at hlength
  exact ⟨s, he, hlength, robots_fetches_spaced hr⟩

/-! ## Where the answers come from -/

/-- The entry is what a fetch of the domain found. -/
def FetchedFor (lib : RobotsLib ρ) (s : RobotsCache ρ) (domain : String) (entry : RobotsEntry ρ) : Prop :=
  ∃ f ∈ s.fetches, f.domain = domain ∧ f.entry = some entry ∧ lib.fetch f.response = .ok (entry.parser, entry.text)

structure Sourced (lib : RobotsLib ρ) (ttl : Int) (s : RobotsCache ρ) : Prop where
  entries : ∀ d e, s.entries d = some e → FetchedFor lib s d e
  calls : ∀ i c, s.calls i = some c → ∀ e ∈ c.phase.entry?, FetchedFor lib s c.domain e
  answers : ∀ r ∈ s.answers, FetchedFor lib s r.domain r.entry ∧ (0 < ttl → r.moment < r.entry.fetchedAt + ttl)
  delays : ∀ d seconds, s.delays d = some seconds →
    0 < seconds ∧ ∃ e, FetchedFor lib s d e ∧ lib.crawlDelay e = some seconds
  raised : ∀ f ∈ s.fetches, f.entry = none → ∃ e, lib.fetch f.response = .error e

namespace Sourced

theorem setCall (h : Sourced lib ttl s) {i : Nat} {c : Option (RobotsCall ρ)}
    (hc : ∀ y, c = some y → ∀ e ∈ y.phase.entry?, FetchedFor lib s y.domain e) : Sourced lib ttl (s.setCall i c) :=
  { h with calls := Calls.forall_update (f := s.calls) h.calls hc }

theorem answer (h : Sourced lib ttl s) {i : Nat} {domain : String} {entry : RobotsEntry ρ} {moment : Nat}
    (hentry : FetchedFor lib s domain entry) (hm : 0 < ttl → moment < entry.fetchedAt + ttl) :
    Sourced lib ttl (s.answer i domain entry moment) :=
  { h.setCall (i := i) (c := none) (by simp) with answers := List.forall_mem_cons.mpr ⟨⟨hentry, hm⟩, h.answers⟩ }

/-- A fetch more takes nothing from what others found. -/
theorem fetch (h : Sourced lib ttl s) {f : RobotsFetch ρ} (hf : f.entry = none → ∃ e, lib.fetch f.response = .error e) :
    Sourced lib ttl { s with fetches := f :: s.fetches } := by
  have hmono {d : String} {e : RobotsEntry ρ} (he : FetchedFor lib s d e) :
      FetchedFor lib { s with fetches := f :: s.fetches } d e := by
    obtain ⟨f', hf', hrest⟩ := he
    exact ⟨f', List.mem_cons_of_mem _ hf', hrest⟩
  refine { entries := fun d e he => hmono (h.entries d e he), calls := fun i c hc e he => hmono (h.calls i c hc e he),
           answers := fun r hr => ⟨hmono (h.answers r hr).1, (h.answers r hr).2⟩, delays := fun d seconds hd => ?_,
           raised := List.forall_mem_cons.mpr ⟨hf, h.raised⟩ }
  obtain ⟨hpos, e, he, hs⟩ := h.delays d seconds hd
  exact ⟨hpos, e, hmono he, hs⟩

theorem moment_lt {entry : RobotsEntry ρ} (hfresh : fresh ttl s.now entry = true) :
    0 < ttl → s.now < entry.fetchedAt + ttl := by
  simp only [fresh, Bool.or_eq_true, decide_eq_true_eq] at hfresh
  omega

theorem step (h : Sourced lib ttl s) (ht : Stepped lib ttl s a t) : Sourced lib ttl t := by
  cases ht with
  | ticked d => exact { h with }
  | looked i domain hcall =>
    refine h.setCall fun y hy e he => ?_
    cases hy
    exact h.entries domain e he
  | found i domain entry hcall hfresh => exact h.answer (h.calls i _ hcall entry rfl) (moment_lt hfresh)
  | missed i domain entry hcall => exact h.setCall (by simp [RobotsPhase.entry?])
  | foundAgain i domain l entry hcall hfresh =>
    have hs := h.answer (i := i) (h.calls i _ hcall entry rfl) (moment_lt hfresh)
    exact { hs with }
  | fetching i domain l entry hcall hstale => exact h.setCall (by simp [RobotsPhase.entry?])
  | lockGot i domain l hcall hlock => exact h.setCall (by simp [RobotsPhase.entry?])
  | lockMade i domain hcall hlock =>
    have hs := h.setCall (i := i) (c := some ⟨domain, .waiting s.locks.length⟩) (by simp [RobotsPhase.entry?])
    exact { hs with }
  | acquired i domain l hcall hfree =>
    have hs := h.setCall (i := i) (c := some ⟨domain, .held l⟩) (by simp [RobotsPhase.entry?])
    exact { hs with }
  | relooked i domain l hcall =>
    refine h.setCall fun y hy e he => ?_
    cases hy
    exact h.entries domain e he
  | fetched i domain l begun response parser text hcall hfetch =>
    have hf := h.fetch (f := ⟨domain, begun, response, some ⟨parser, text, s.now⟩⟩) (by simp)
    have hs := hf.setCall (i := i) (c := some ⟨domain, .fetched l ⟨parser, text, s.now⟩⟩) fun y hy e he => by
      cases hy
      cases he
      exact ⟨_, List.mem_cons_self, rfl, rfl, hfetch⟩
    exact { hs with }
  | raised i domain l begun response e hcall hfetch =>
    have hf := h.fetch (f := ⟨domain, begun, response, none⟩) fun _ => ⟨e, hfetch⟩
    have hs := hf.setCall (i := i) (c := none) (by simp)
    exact { hs with }
  | stored i domain l entry hcall =>
    have hentry := h.calls i _ hcall entry rfl
    have hs := h.setCall (i := i) (c := some ⟨domain, .stored l entry⟩) fun y hy e he => by
      cases hy
      cases he
      exact hentry
    exact { hs with entries := Calls.forall_update (f := s.entries) h.entries fun e he => by cases he; exact hentry }
  | applied i domain l entry delays hcall hdelays =>
    have hentry := h.calls i _ hcall entry rfl
    have hm : 0 < ttl → (entry.fetchedAt : Int) < entry.fetchedAt + ttl := by omega
    have hs := h.answer (i := i) hentry hm
    refine { hs with delays := fun d seconds hd => ?_ }
    rcases hdelays d seconds hd with hd | ⟨rfl, hd, hpos⟩
    · exact h.delays d seconds hd
    · exact ⟨hpos, entry, hentry, hd⟩
  | reset => exact { h with entries := by simp }

end Sourced

theorem sourced (h : (machine lib ttl).Reachable s) : Sourced lib ttl s := by
  refine h.induct (fun s hs => ?_) fun s a t hs _ ht => hs.step (step_cases ht)
  cases hs
  exact ⟨by simp, by simp, by simp, by simp, by simp⟩

/-- Where `_fetch` returns a parser, a file was found. -/
theorem fetch_eq_some {response : RobotsResponse} {parser : ρ} {text : String}
    (h : lib.fetch response = .ok (some parser, text)) :
    ∃ status, response = .ok (status, .ok text) ∧ 200 ≤ status ∧ status < 300 ∧ lib.parse text = .ok parser := by
  unfold RobotsLib.fetch at h
  split at h
  next => cases h
  next status text' =>
    split_ifs at h with hgone hok
    · cases h
    · split at h
      next => cases h
      next text'' =>
        split at h
        next parser' hparse =>
          cases h
          exact ⟨status, rfl, hok.1, hok.2, hparse⟩
        next => cases h
    · cases h

/-- `_fetch` raises where the text of a file cannot be decoded. -/
theorem fetch_eq_error_iff {response : RobotsResponse} {e : Exn} : lib.fetch response = .error e ↔
    ∃ status, response = .ok (status, .error e) ∧ 200 ≤ status ∧ status < 300 := by
  constructor
  · intro h
    unfold RobotsLib.fetch at h
    split at h
    next => cases h
    next status text =>
      split_ifs at h with hgone hok
      cases text with
      | error e' =>
        cases h
        exact ⟨status, rfl, hok.1, hok.2⟩
      | ok text' =>
        dsimp only at h
        split at h <;> cases h
  · rintro ⟨status, rfl, hlow, hhigh⟩
    have hgone : ¬(status = 404 ∨ 400 ≤ status ∧ status < 500) := by omega
    simp [RobotsLib.fetch, hgone, hlow, hhigh]

/-- Where a URL is refused, a file of its domain was found that says so, not longer ago than
`ROBOTS_CACHE_TTL`. A delay that a domain has is the one of a file that was found. And where
a call raises, there is a file, but its text cannot be decoded. -/
theorem robots_refusals_sourced (h : (machine lib ttl).Reachable s) (canFetch : ρ → Except Exn Bool) :
    (∀ r ∈ s.answers, r.allowed canFetch = false → ∃ f ∈ s.fetches, ∃ status text parser, ∃ e ∈ f.entry,
      f.domain = r.domain ∧ f.response = .ok (status, .ok text) ∧ 200 ≤ status ∧ status < 300 ∧
        lib.parse text = .ok parser ∧ canFetch parser = .ok false ∧ (0 < ttl → r.moment < e.fetchedAt + ttl)) ∧
    (∀ domain seconds, s.delays domain = some seconds → 0 < seconds ∧ ∃ f ∈ s.fetches, ∃ status text,
      f.domain = domain ∧ f.response = .ok (status, .ok text) ∧ 200 ≤ status ∧ status < 300 ∧
        Robots.parseCrawlDelay lib.toLib text.toList lib.useragent = some seconds) ∧
    ∀ f ∈ s.fetches, f.entry = none → ∃ status e, f.response = .ok (status, .error e) ∧ 200 ≤ status ∧ status < 300 := by
  have hs := sourced h
  refine ⟨?_, ?_, ?_⟩
  · intro r hr hno
    obtain ⟨⟨f, hf, hd, hentry, hfetch⟩, hm⟩ := hs.answers r hr
    rw [RobotsAnswer.allowed] at hno
    split at hno
    next => cases hno
    next parser hparser =>
      split at hno
      next b hb =>
        obtain ⟨status, hresponse, hlow, hhigh, hparse⟩ := fetch_eq_some (hparser ▸ hfetch)
        exact ⟨f, hf, status, r.entry.text, parser, r.entry, hentry, hd, hresponse, hlow, hhigh, hparse, hno ▸ hb, hm⟩
      next => cases hno
  · intro domain seconds hdelay
    obtain ⟨hpos, e, ⟨f, hf, hd, -, hfetch⟩, hseconds⟩ := hs.delays domain seconds hdelay
    obtain ⟨hparser, hseconds⟩ := Option.ite_none_left_eq_some.mp hseconds
    obtain ⟨parser, hparser⟩ := Option.ne_none_iff_exists'.mp fun hn => hparser (Option.isNone_iff_eq_none.mpr hn)
    obtain ⟨status, hresponse, hlow, hhigh, -⟩ := fetch_eq_some (hparser ▸ hfetch)
    exact ⟨hpos, f, hf, status, e.text, hd, hresponse, hlow, hhigh, hseconds⟩
  · intro f hf hraised
    obtain ⟨e, he⟩ := hs.raised f hf hraised
    obtain ⟨status, hresponse, hok⟩ := fetch_eq_error_iff.mp he
    exact ⟨status, e, hresponse, hok⟩

theorem robots_refusals_sourced_threeAsk : ∃ s, (machine strictLib 10).exec {} threeAsk = some s ∧
    (∃ r ∈ s.answers, r.allowed (fun strict => .ok !strict) = false) ∧
    ∀ r ∈ s.answers, r.allowed (fun strict => .ok !strict) = false → ∃ f ∈ s.fetches, ∃ status text parser, ∃ e ∈ f.entry,
      f.domain = r.domain ∧ f.response = .ok (status, .ok text) ∧ 200 ≤ status ∧ status < 300 ∧
        strictLib.parse text = .ok parser ∧ (.ok !parser : Except Exn Bool) = .ok false ∧
        (0 < (10 : Int) → r.moment < e.fetchedAt + (10 : Int)) := by
  obtain ⟨s, he, hs⟩ := Option.map_eq_some_iff.mp threeAsk_ran
  have hr : (machine strictLib 10).Reachable s := Machine.Reachable.exec (.start rfl) he
  have hanswers := (Prod.mk.inj (Prod.mk.inj hs).2).1
  obtain ⟨r, hmem, hparser⟩ := List.mem_map.mp (hanswers ▸ List.mem_cons_of_mem _ List.mem_cons_self)
  refine ⟨s, he, ⟨r, hmem, ?_⟩, (robots_refusals_sourced hr fun strict => .ok !strict).1⟩
  rw [RobotsAnswer.allowed, (Prod.mk.inj hparser).1]
  rfl

end RobotsCache

end Netspy
