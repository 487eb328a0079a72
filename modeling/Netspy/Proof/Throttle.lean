import Mathlib.Tactic.Linarith
import Netspy.Impl.Throttle

/-!
# The pace of a domain

All tickets and penalties so far have had their time at the later one of now and
the number of their domain, which no step makes earlier (`ready_le`). So the
starts of a domain's tickets keep their distance (`starts_spaced`).

What one domain does is done without the others as well (`Alone.run`).
-/

namespace Netspy

namespace DomainThrottle

/-- The throttle with another moment for a domain. -/
theorem freeAt_update (d : DomainThrottle) (domain other : String) (free : ℚ) :
    freeAt { d with nextAt := Function.update d.nextAt domain (some free) } other =
      if other = domain then free else d.freeAt other := by
  show (Function.update d.nextAt domain (some free) other).getD 0 = _
  rw [Function.update_apply]
  split <;> rfl

variable (d : DomainThrottle) (domain other : String) (delay seconds now : ℚ)

theorem takeTicket_wait : (d.takeTicket domain delay now).1 = max now (d.freeAt domain) - now := rfl

theorem domainDelay_takeTicket : (d.takeTicket domain delay now).2.domainDelay = d.domainDelay := by
  unfold takeTicket
  dsimp only
  split <;> rfl

theorem freeAt_takeTicket :
    ((d.takeTicket domain delay now).2.freeAt other = d.freeAt other ∧
        (other = domain → delay ≤ 0 ∧ d.freeAt domain ≤ now)) ∨
      other = domain ∧ (d.takeTicket domain delay now).2.freeAt other = Reserve.next (d.freeAt domain) now (max delay 0) := by
  unfold takeTicket
  dsimp only
  split
  · rw [freeAt_update]
    split
    · rename_i h
      exact .inr ⟨h, rfl⟩
    · rename_i h
      exact .inl ⟨rfl, fun he => absurd he h⟩
  · rename_i hnot
    rw [Bool.or_eq_true, decide_eq_true_eq, decide_eq_true_eq, not_or, not_lt, not_lt] at hnot
    exact .inl ⟨rfl, fun _ => ⟨hnot.1, (max_le_iff.mp hnot.2).2⟩⟩

/-- A ticket without a delay reserves nothing. -/
theorem freeAt_takeTicket_of_le (h : delay ≤ 0) : (d.takeTicket domain delay now).2.freeAt other = d.freeAt other := by
  unfold takeTicket
  dsimp only
  split
  · rename_i hor
    rw [Bool.or_eq_true, decide_eq_true_eq, decide_eq_true_eq] at hor
    have hlt := hor.resolve_left (not_lt.mpr h)
    rw [freeAt_update, Reserve.next, max_eq_right h, add_zero]
    split
    · rename_i he
      rw [he, max_eq_right_of_lt ((lt_max_iff.mp hlt).resolve_left (lt_irrefl now))]
    · rfl
  · rfl

theorem domainDelay_penalize : (d.penalize domain seconds now).domainDelay = d.domainDelay := by
  unfold penalize
  split <;> rfl

theorem freeAt_penalize :
    (d.penalize domain seconds now).freeAt other =
      if other = domain ∧ 0 < seconds then Reserve.next (d.freeAt domain) now seconds else d.freeAt other := by
  unfold penalize
  split
  · rename_i h
    rw [if_neg fun hp => absurd hp.2 (not_lt.mpr h)]
  · rename_i h
    rw [freeAt_update]
    simp only [not_le.mp h, and_true]

/-- A ticket reserves its delay. -/
theorem takeTicket_reserves :
    max now (d.freeAt domain) + delay ≤ max now ((d.takeTicket domain delay now).2.freeAt domain) := by
  rcases d.freeAt_takeTicket domain domain delay now with ⟨hsame, hskip⟩ | ⟨-, hnext⟩
  · rw [hsame]
    linarith [(hskip rfl).1]
  · rw [hnext, Reserve.next]
    exact (add_le_add_right (le_max_left delay 0) _).trans (le_max_right now _)

theorem penalize_reserves : now + seconds ≤ max now ((d.penalize domain seconds now).freeAt domain) := by
  rw [freeAt_penalize]
  split
  · exact (add_le_add_left (le_max_left _ _) _).trans (le_max_right now _)
  · rename_i h
    have hs : seconds ≤ 0 := not_lt.mp fun hp => h ⟨rfl, hp⟩
    linarith [le_max_left now (d.freeAt domain)]

theorem freeAt_le_takeTicket : d.freeAt other ≤ (d.takeTicket domain delay now).2.freeAt other := by
  rcases d.freeAt_takeTicket domain other delay now with ⟨hsame, -⟩ | ⟨rfl, hnext⟩
  · exact hsame.ge
  · rw [hnext]
    exact (Reserve.le_next (le_max_right delay 0) _ now).2

theorem freeAt_le_penalize : d.freeAt other ≤ (d.penalize domain seconds now).freeAt other := by
  rw [freeAt_penalize]
  split
  · rename_i h
    rw [h.1]
    exact (Reserve.le_next h.2.le _ now).2
  · exact le_refl _

end DomainThrottle

namespace Throttle

/-- Everything a step can do. Only tickets and penalties move the number of a
domain, and only a ticket puts a worker to sleep. -/
inductive Did (lib : Stdlib) (st : Setting) (s t : Throttle) : ThrottleAct → Prop
  | quiet (a : ThrottleAct) (hnow : s.now ≤ t.now) (hlog : t.log = s.log)
      (hfree : ∀ domain, t.throttle.freeAt domain = s.throttle.freeAt domain)
      (hpaced : ∀ i domain delay, t.workers i = .paced domain delay →
        s.workers i = .paced domain delay ∨ ∃ factor, delay = s.throttle.delay st domain factor)
      (hwaiting : ∀ i domain start, t.workers i = .waiting domain start → s.workers i = .waiting domain start)
      (hdelay : (∀ domain seconds, a ≠ .setDomainDelay domain seconds) → t.throttle.domainDelay = s.throttle.domainDelay) :
      Did lib st s t a
  | ticket (i : Nat) (domain : String) (delay : ℚ) (remote : Option ℚ) (hpaced : s.workers i = .paced domain delay)
      (ht : t = { (s.takeTicket st domain delay remote).2.move i
        (.waiting domain (s.takeTicket st domain delay remote).1.start) with
        log := .ticket (s.takeTicket st domain delay remote).1 :: (s.takeTicket st domain delay remote).2.log }) :
      Did lib st s t (.take i domain remote)
  | left (i : Nat) (domain : String) (start : ℚ) (hwaiting : s.workers i = .waiting domain start) (hstart : start ≤ s.now)
      (ht : t = { s.move i (.inside domain) with log := .left domain s.now :: s.log }) : Did lib st s t (.leave i domain)
  | penalty (url domain : String) (seconds : ℚ) (hdomain : domainOf lib url = .ok domain)
      (ht : t = { s with
        throttle := s.throttle.penalize domain seconds s.now
        log := .penalty ⟨domain, s.now, seconds⟩ :: s.log }) : Did lib st s t (.penalize url seconds)

variable {lib : Stdlib} {st : Setting} {s t : Throttle} {a : ThrottleAct}

/-- The workers but for one, which is neither paced nor asleep. -/
theorem move_eq {i j : Nat} {slot other : Slot} (h : (s.move i slot).workers j = other) (hne : slot ≠ other) :
    s.workers j = other := by
  unfold move at h
  by_cases hj : j = i
  · rw [hj] at h
    exact absurd ((Function.update_self ..).symm.trans h) hne
  · exact (Function.update_of_ne hj ..).symm.trans h

theorem acquire_same {domain : String} (h : s.acquire st domain = some t) :
    t.now = s.now ∧ t.log = s.log ∧ t.workers = s.workers ∧ t.throttle.nextAt = s.throttle.nextAt ∧
      t.throttle.domainDelay = s.throttle.domainDelay := by
  unfold acquire at h
  split at h
  · cases h
    exact ⟨rfl, rfl, rfl, rfl, rfl⟩
  · split at h
    · cases h
      exact ⟨rfl, rfl, rfl, rfl, rfl⟩
    · cases h

theorem release_same (st : Setting) (s : Throttle) (domain : String) :
    (s.release st domain).now = s.now ∧ (s.release st domain).log = s.log ∧ (s.release st domain).workers = s.workers ∧
      (s.release st domain).throttle.nextAt = s.throttle.nextAt ∧
      (s.release st domain).throttle.domainDelay = s.throttle.domainDelay := by
  unfold release
  split <;> exact ⟨rfl, rfl, rfl, rfl, rfl⟩

/-- A step that only moves a worker, to a place in which it neither has a delay nor
sleeps. -/
theorem Did.moved {u : Throttle} {i : Nat} {slot : Slot} (ht : t = u.move i slot)
    (hu : u.now = s.now ∧ u.log = s.log ∧ u.workers = s.workers ∧ u.throttle.nextAt = s.throttle.nextAt ∧
      u.throttle.domainDelay = s.throttle.domainDelay)
    (hpaced : ∀ domain delay, slot = .paced domain delay → ∃ factor, delay = s.throttle.delay st domain factor)
    (hwaiting : ∀ domain start, slot ≠ .waiting domain start) (a : ThrottleAct) : Did lib st s t a := by
  subst ht
  obtain ⟨hnow, hlog, hworkers, hnext, hdelay⟩ := hu
  refine .quiet a hnow.ge hlog (fun domain => ?_) (fun i domain delay h => ?_) (fun i domain start h => ?_) fun _ => hdelay
  · show (u.throttle.nextAt domain).getD 0 = _
    rw [hnext]
    rfl
  · by_cases hs : slot = .paced domain delay
    · exact .inr (hpaced domain delay hs)
    · exact .inl (hworkers ▸ move_eq h hs)
  · exact hworkers ▸ move_eq h (hwaiting domain start)

theorem did (h : step lib st s a = some t) : Did lib st s t a := by
  cases a with
  | tick now =>
    obtain ⟨hle, ht⟩ := Option.ite_none_right_eq_some.mp h
    cases ht
    exact .quiet _ hle rfl (fun _ => rfl) (fun _ _ _ => .inl) (fun _ _ _ => id) fun _ => rfl
  | enter i url =>
    simp only [step] at h
    split at h
    · cases h
      exact .quiet _ (le_refl _) rfl (fun _ => rfl) (fun _ _ _ => .inl) (fun _ _ _ => id) fun _ => rfl
    · obtain ⟨-, h⟩ := Option.ite_none_right_eq_some.mp h
      obtain ⟨u, hu, rfl⟩ := Option.map_eq_some_iff.mp h
      refine .moved rfl (acquire_same hu) ?_ ?_ _ <;> exact fun _ _ => nofun
  | pace i domain factor =>
    obtain ⟨-, ht⟩ := Option.ite_none_right_eq_some.mp h
    refine .moved ((Option.some.inj ht).symm) ⟨rfl, rfl, rfl, rfl, rfl⟩ (fun other delay he => ?_) (fun _ _ => nofun) _
    cases he
    exact ⟨factor, rfl⟩
  | take i domain remote =>
    simp only [step] at h
    split at h
    · rename_i admitted delay hpaced
      obtain ⟨rfl, ht⟩ := Option.ite_none_right_eq_some.mp h
      exact .ticket i _ delay remote hpaced (Option.some.inj ht).symm
    · cases h
  | leave i domain =>
    simp only [step] at h
    split at h
    · rename_i admitted start hwaiting
      obtain ⟨⟨rfl, hstart⟩, ht⟩ := Option.ite_none_right_eq_some.mp h
      exact .left i _ start hwaiting hstart (Option.some.inj ht).symm
    · cases h
  | done i domain =>
    obtain ⟨-, ht⟩ := Option.ite_none_right_eq_some.mp h
    refine .moved (Option.some.inj ht).symm (release_same st s domain) ?_ ?_ _ <;> exact fun _ _ => nofun
  | penalize url seconds =>
    simp only [step] at h
    split at h
    · cases h
      exact .quiet _ (le_refl _) rfl (fun _ => rfl) (fun _ _ _ => .inl) (fun _ _ _ => id) fun _ => rfl
    · rename_i domain hdomain
      exact .penalty url domain seconds hdomain (Option.some.inj h).symm
  | setDomainDelay domain seconds =>
    cases h
    exact .quiet _ (le_refl _) rfl (fun _ => rfl) (fun _ _ _ => .inl) (fun _ _ _ => id) fun hne =>
      absurd rfl (hne domain seconds)

/-- The later one of now and the moment at which a domain is free. -/
def ready (s : Throttle) (domain : String) : ℚ := max s.now (s.throttle.freeAt domain)

theorem now_le_ready (s : Throttle) (domain : String) : s.now ≤ s.ready domain := le_max_left ..

/-- A ticket is answered by Redis, or by the process. -/
theorem takeTicket_cases (st : Setting) (s : Throttle) (domain : String) (delay : ℚ) (remote : Option ℚ) :
    (∃ wait, remote = some wait ∧ st.GLOBAL_THROTTLE = true ∧
      s.takeTicket st domain delay remote = (⟨domain, s.now, delay, some wait, wait⟩, s)) ∨
    s.takeTicket st domain delay remote =
      (⟨domain, s.now, delay, none, s.ready domain - s.now⟩,
        { s with throttle := (s.throttle.takeTicket domain delay s.now).2 }) := by
  unfold takeTicket
  split
  · rename_i wait hw
    obtain ⟨hw, hglobal⟩ := Option.filter_eq_some_iff.mp hw
    exact .inl ⟨wait, hw, hglobal, rfl⟩
  · exact .inr rfl

/-- No step makes a domain free earlier. -/
theorem ready_le (h : step lib st s a = some t) (domain : String) : s.now ≤ t.now ∧ s.ready domain ≤ t.ready domain := by
  have hmono (hnow : s.now ≤ t.now) (hfree : s.throttle.freeAt domain ≤ t.throttle.freeAt domain) :
      s.now ≤ t.now ∧ s.ready domain ≤ t.ready domain := ⟨hnow, max_le_max hnow hfree⟩
  cases did h with
  | quiet _ hnow _ hfree => exact hmono hnow (hfree domain).ge
  | ticket i domain' delay remote _ ht =>
    rcases takeTicket_cases st s domain' delay remote with ⟨wait, -, -, he⟩ | he
    · rw [he] at ht
      subst ht
      exact hmono (le_refl _) (le_refl _)
    · rw [he] at ht
      subst ht
      exact hmono (le_refl _) (DomainThrottle.freeAt_le_takeTicket ..)
  | left _ _ _ _ _ ht =>
    subst ht
    exact hmono (le_refl _) (le_refl _)
  | penalty _ _ _ _ ht =>
    subst ht
    exact hmono (le_refl _) (DomainThrottle.freeAt_le_penalize ..)

end Throttle

/-! ## The pace -/

/-- How long what has happened has its domain. -/
def ThrottleEvent.busyTo : ThrottleEvent → ℚ
  | .ticket t => t.start + t.delay
  | .penalty p => p.moment + p.seconds
  | .left _ moment => moment

/-- A later ticket of a domain starts after an earlier one has had its delay, and
after an earlier penalty. -/
def Spaced : ThrottleEvent → ThrottleEvent → Prop
  | .ticket later, .ticket earlier => earlier.domain = later.domain → earlier.start + earlier.delay ≤ later.start
  | .ticket later, .penalty earlier => earlier.domain = later.domain → earlier.moment + earlier.seconds ≤ later.start
  | _, _ => True

namespace Throttle

variable {lib : Stdlib} {st : Setting} {s t : Throttle} {a : ThrottleAct}

theorem takeTicket_local (hlocal : st.GLOBAL_THROTTLE = false) (s : Throttle) (domain : String) (delay : ℚ)
    (remote : Option ℚ) :
    s.takeTicket st domain delay remote =
      (⟨domain, s.now, delay, none, s.ready domain - s.now⟩,
        { s with throttle := (s.throttle.takeTicket domain delay s.now).2 }) := by
  rcases takeTicket_cases st s domain delay remote with ⟨wait, -, hglobal, -⟩ | he
  · rw [hlocal] at hglobal
    cases hglobal
  · exact he

/-- All that has happened is over when its domain is free. -/
structure Paced (s : Throttle) : Prop where
  busyTo : ∀ e ∈ s.log, e.busyTo ≤ s.ready e.domain
  spaced : s.log.Pairwise Spaced

/-- An event that is over when its domain is free, and that keeps its distance to
all that were over before. -/
theorem Paced.cons (hs : Paced s) (h : step lib st s a = some t) {e : ThrottleEvent} (hlog : t.log = e :: s.log)
    (hbusy : e.busyTo ≤ t.ready e.domain)
    (hspaced : ∀ e' : ThrottleEvent, e'.busyTo ≤ s.ready e'.domain → Spaced e e') : Paced t := by
  refine ⟨fun e' he => ?_, ?_⟩
  · rw [hlog] at he
    rcases List.mem_cons.mp he with rfl | he
    · exact hbusy
    · exact (hs.busyTo e' he).trans (ready_le h e'.domain).2
  · rw [hlog]
    exact List.pairwise_cons.mpr ⟨fun e' he => hspaced e' (hs.busyTo e' he), hs.spaced⟩

theorem Paced.step (hlocal : st.GLOBAL_THROTTLE = false) (hs : Paced s) (h : step lib st s a = some t) : Paced t := by
  cases did h with
  | quiet _ _ hlog =>
    refine ⟨fun e he => ?_, hlog ▸ hs.spaced⟩
    exact (hs.busyTo e (hlog ▸ he)).trans (ready_le h e.domain).2
  | ticket i domain delay remote _ ht =>
    rw [takeTicket_local hlocal] at ht
    have hstart : s.now + (s.ready domain - s.now) = s.ready domain := add_sub_cancel ..
    refine hs.cons h (congrArg log ht) ?_ fun e he => ?_
    · subst ht
      show s.now + (s.ready domain - s.now) + delay ≤ max s.now _
      rw [hstart]
      exact s.throttle.takeTicket_reserves domain delay s.now
    · cases e with
      | ticket earlier | penalty earlier =>
        intro hdomain
        show _ ≤ s.now + (s.ready domain - s.now)
        have hdomain : earlier.domain = domain := hdomain
        rw [hstart, ← hdomain]
        exact he
      | left => trivial
  | left i domain start _ _ ht =>
    refine hs.cons h (congrArg log ht) ?_ fun _ _ => trivial
    subst ht
    exact now_le_ready s domain
  | penalty url domain seconds _ ht =>
    refine hs.cons h (congrArg log ht) ?_ fun _ _ => trivial
    subst ht
    exact s.throttle.penalize_reserves domain seconds s.now

end Throttle

/-! ## Domains apart -/

namespace DomainThrottle

/-- What the dicts have for a domain. -/
def entry (d : DomainThrottle) (domain : String) : Option ℚ × Nat × Option ℚ :=
  (d.nextAt domain, d.sems domain, d.domainDelay domain)

variable {d d' : DomainThrottle} {domain other : String}

theorem entry_takeTicket_of_ne (h : domain ≠ other) (delay now : ℚ) :
    (d.takeTicket other delay now).2.entry domain = d.entry domain := by
  unfold takeTicket entry
  dsimp only
  split
  · dsimp only
    rw [Function.update_of_ne h]
  · rfl

theorem entry_penalize_of_ne (h : domain ≠ other) (seconds now : ℚ) :
    (d.penalize other seconds now).entry domain = d.entry domain := by
  unfold penalize entry
  split
  · rfl
  · dsimp only
    rw [Function.update_of_ne h]

theorem entry_setDomainDelay_of_ne (h : domain ≠ other) (seconds : ℚ) :
    (d.setDomainDelay other seconds).entry domain = d.entry domain := by
  unfold setDomainDelay entry
  dsimp only
  rw [Function.update_of_ne h]

theorem takeTicket_congr (h : d'.entry domain = d.entry domain) (delay now : ℚ) :
    (d'.takeTicket domain delay now).1 = (d.takeTicket domain delay now).1 ∧
      (d'.takeTicket domain delay now).2.entry domain = (d.takeTicket domain delay now).2.entry domain := by
  obtain ⟨hnext, hrest⟩ := Prod.mk.inj h
  obtain ⟨hsems, hdelay⟩ := Prod.mk.inj hrest
  unfold takeTicket entry freeAt
  dsimp only
  rw [hnext]
  refine ⟨rfl, ?_⟩
  split
  · dsimp only
    rw [Function.update_self, Function.update_self, hsems, hdelay]
  · exact h

theorem penalize_congr (h : d'.entry domain = d.entry domain) (seconds now : ℚ) :
    (d'.penalize domain seconds now).entry domain = (d.penalize domain seconds now).entry domain := by
  obtain ⟨hnext, hrest⟩ := Prod.mk.inj h
  obtain ⟨hsems, hdelay⟩ := Prod.mk.inj hrest
  unfold penalize entry freeAt
  split
  · exact h
  · dsimp only
    rw [Function.update_self, Function.update_self, hsems, hdelay, hnext]

end DomainThrottle

namespace Throttle

variable {lib : Stdlib} {st : Setting} {s t u : Throttle} {a : ThrottleAct} {domain : String}

/-- Whether an action has to do with a domain; time passes for all of them. -/
def concerns (lib : Stdlib) (domain : String) : ThrottleAct → Bool
  | .tick _ => true
  | .enter _ url | .penalize url _ => (domainOf lib url).toOption == some domain
  | .pace _ other _ | .take _ other _ | .leave _ other | .done _ other | .setDomainDelay other _ => other == domain

/-- When the tickets of a domain start, the last first. -/
def starts (s : Throttle) (domain : String) : List ℚ :=
  s.log.filterMap fun
    | .ticket t => if t.domain = domain then some t.start else none
    | _ => none

end Throttle

/-- Where a worker is as far as a domain is concerned. -/
def Slot.only (domain : String) (slot : Slot) : Slot := if slot.domain = some domain then slot else .out

theorem Slot.only_self {domain : String} {slot : Slot} (h : slot.domain = some domain ∨ slot = .out) :
    slot.only domain = slot := by
  rcases h with h | rfl
  · exact if_pos h
  · rfl

theorem Slot.only_other {domain : String} {slot : Slot} (h : slot.domain ≠ some domain) : slot.only domain = .out := if_neg h

namespace Throttle

variable {lib : Stdlib} {st : Setting} {s t u : Throttle} {a : ThrottleAct} {domain : String}

/-- The second one is the first one with nothing but a domain. -/
structure Alone (domain : String) (s u : Throttle) : Prop where
  now : u.now = s.now
  entry : u.throttle.entry domain = s.throttle.entry domain
  workers : ∀ i, u.workers i = (s.workers i).only domain
  starts : u.starts domain = s.starts domain

theorem Alone.worker (h : Alone domain s u) {i : Nat} {slot : Slot} (hs : s.workers i = slot)
    (hd : slot.domain = some domain ∨ slot = .out) : u.workers i = slot := by
  rw [h.workers, hs, Slot.only_self hd]

theorem Alone.move (h : Alone domain s u) (i : Nat) {slot : Slot} (hd : slot.domain = some domain ∨ slot = .out) :
    Alone domain (s.move i slot) (u.move i slot) := by
  refine ⟨h.now, h.entry, fun j => ?_, h.starts⟩
  show Function.update u.workers i slot j = (Function.update s.workers i slot j).only domain
  by_cases hj : j = i
  · rw [hj, Function.update_self, Function.update_self, Slot.only_self hd]
  · rw [Function.update_of_ne hj, Function.update_of_ne hj]
    exact h.workers j

theorem Alone.move_other (h : Alone domain s u) {i : Nat} {slot : Slot} (hold : (s.workers i).domain ≠ some domain)
    (hd : slot.domain ≠ some domain) : Alone domain (s.move i slot) u := by
  refine ⟨h.now, h.entry, fun j => ?_, h.starts⟩
  show _ = (Function.update s.workers i slot j).only domain
  by_cases hj : j = i
  · rw [hj, Function.update_self, Slot.only_other hd, h.workers, Slot.only_other hold]
  · rw [Function.update_of_ne hj]
    exact h.workers j

theorem Alone.acquire (h : Alone domain s u) (ha : s.acquire st domain = some t) :
    ∃ v, u.acquire st domain = some v ∧ Alone domain t v := by
  obtain ⟨hnext, hrest⟩ := Prod.mk.inj h.entry
  obtain ⟨hsems, hdelay⟩ := Prod.mk.inj hrest
  unfold Throttle.acquire at ha ⊢
  rw [hsems]
  split at ha
  · rename_i hnone
    cases ha
    exact ⟨u, if_pos hnone, h⟩
  · rename_i hlimit
    obtain ⟨hfree, ht⟩ := Option.ite_none_right_eq_some.mp ha
    cases ht
    rw [if_neg hlimit, if_pos hfree]
    refine ⟨_, rfl, h.now, ?_, h.workers, h.starts⟩
    unfold DomainThrottle.entry
    dsimp only
    rw [Function.update_self, Function.update_self, hnext, hdelay]

theorem Alone.acquire_other {other : String} (h : Alone domain s u) (hne : domain ≠ other)
    (ha : s.acquire st other = some t) : Alone domain t u := by
  unfold Throttle.acquire at ha
  split at ha
  · cases ha
    exact h
  · obtain ⟨-, ht⟩ := Option.ite_none_right_eq_some.mp ha
    cases ht
    refine ⟨h.now, ?_, h.workers, h.starts⟩
    rw [h.entry]
    unfold DomainThrottle.entry
    dsimp only
    rw [Function.update_of_ne hne]

theorem Alone.release (h : Alone domain s u) : Alone domain (s.release st domain) (u.release st domain) := by
  obtain ⟨hnext, hrest⟩ := Prod.mk.inj h.entry
  obtain ⟨hsems, hdelay⟩ := Prod.mk.inj hrest
  unfold Throttle.release
  split
  · exact h
  · refine ⟨h.now, ?_, h.workers, h.starts⟩
    unfold DomainThrottle.entry
    dsimp only
    rw [Function.update_self, Function.update_self, hnext, hsems, hdelay]

theorem Alone.release_other {other : String} (h : Alone domain s u) (hne : domain ≠ other) :
    Alone domain (s.release st other) u := by
  unfold Throttle.release
  split
  · exact h
  · refine ⟨h.now, ?_, h.workers, h.starts⟩
    rw [h.entry]
    unfold DomainThrottle.entry
    dsimp only
    rw [Function.update_of_ne hne]

/-- The domain's own entries and events on both sides. -/
theorem Alone.log (h : Alone domain s u) {x y : DomainThrottle} (he : y.entry domain = x.entry domain)
    (e : ThrottleEvent) :
    Alone domain { s with throttle := x, log := e :: s.log } { u with throttle := y, log := e :: u.log } := by
  refine ⟨h.now, he, h.workers, ?_⟩
  unfold Throttle.starts
  rw [List.filterMap_cons, List.filterMap_cons]
  split
  · exact h.starts
  · exact congrArg _ h.starts

/-- An event that starts no ticket of the domain. -/
theorem Alone.log_other (h : Alone domain s u) {x : DomainThrottle} (hx : x.entry domain = s.throttle.entry domain)
    {e : ThrottleEvent} (he : e.domain ≠ domain) : Alone domain { s with throttle := x, log := e :: s.log } u := by
  refine ⟨h.now, h.entry.trans hx.symm, h.workers, h.starts.trans ?_⟩
  unfold Throttle.starts
  rw [List.filterMap_cons]
  cases e with
  | ticket t =>
    have ht : t.domain ≠ domain := he
    dsimp only
    rw [if_neg ht]
  | penalty | left => rfl

/-- What has to do with the domain can be done there, to the same effect. -/
theorem Alone.step (hlocal : st.GLOBAL_THROTTLE = false) (hu : Alone domain s u) (hc : concerns lib domain a = true)
    (h : step lib st s a = some t) : ∃ v, step lib st u a = some v ∧ Alone domain t v := by
  have hself {other : String} (he : (other == domain) = true) : other = domain := eq_of_beq he
  have hurl {url : String} (he : ((domainOf lib url).toOption == some domain) = true) : domainOf lib url = .ok domain := by
    cases hd : domainOf lib url with
    | error e => rw [hd] at he; cases he
    | ok other => rw [hd] at he; exact congrArg _ (Option.some.inj (eq_of_beq he))
  obtain ⟨now, throttle, workers, log⟩ := u
  obtain rfl : now = s.now := hu.now
  cases a with
  | tick now =>
    obtain ⟨hle, ht⟩ := Option.ite_none_right_eq_some.mp h
    cases ht
    exact ⟨_, if_pos hle, rfl, hu.entry, hu.workers, hu.starts⟩
  | enter i url =>
    simp only [Throttle.step, hurl hc] at h ⊢
    obtain ⟨hout, h⟩ := Option.ite_none_right_eq_some.mp h
    obtain ⟨w, hw, rfl⟩ := Option.map_eq_some_iff.mp h
    obtain ⟨v, hv, hwv⟩ := hu.acquire hw
    rw [if_pos (hu.worker hout (.inr rfl)), hv]
    exact ⟨_, rfl, hwv.move i (.inl rfl)⟩
  | pace i other factor =>
    cases hself hc
    obtain ⟨⟨hadmitted, hfactor⟩, ht⟩ := Option.ite_none_right_eq_some.mp h
    cases ht
    have hdelay : throttle.delay st domain factor = s.throttle.delay st domain factor := by
      unfold DomainThrottle.delay
      rw [(Prod.mk.inj (Prod.mk.inj hu.entry).2).2]
    refine ⟨_, if_pos ⟨hu.worker hadmitted (.inl rfl), hfactor⟩, ?_⟩
    rw [hdelay]
    exact hu.move i (.inl rfl)
  | take i other remote =>
    cases hself hc
    simp only [Throttle.step] at h
    split at h
    · rename_i admitted delay hpaced
      obtain ⟨rfl, ht⟩ := Option.ite_none_right_eq_some.mp h
      obtain ⟨hwait, hentry⟩ := DomainThrottle.takeTicket_congr hu.entry delay s.now
      rw [takeTicket_local hlocal] at ht
      cases ht
      have hthere : workers i = .paced admitted delay := hu.worker hpaced (.inl rfl)
      have hready : ready ⟨s.now, throttle, workers, log⟩ admitted = s.ready admitted := by
        exact congrArg (max s.now) (congrArg (·.getD 0) (Prod.mk.inj hu.entry).1)
      simp only [Throttle.step, hthere, takeTicket_local hlocal, hready]
      exact ⟨_, if_pos trivial, (hu.log hentry _).move i (.inl rfl)⟩
    · cases h
  | leave i other =>
    cases hself hc
    simp only [Throttle.step] at h
    split at h
    · rename_i admitted start hwaiting
      obtain ⟨⟨rfl, hstart⟩, ht⟩ := Option.ite_none_right_eq_some.mp h
      cases ht
      have hthere : workers i = .waiting admitted start := hu.worker hwaiting (.inl rfl)
      simp only [Throttle.step, hthere]
      exact ⟨_, if_pos ⟨trivial, hstart⟩, (hu.log hu.entry _).move i (.inl rfl)⟩
    · cases h
  | done i other =>
    cases hself hc
    obtain ⟨hinside, ht⟩ := Option.ite_none_right_eq_some.mp h
    cases ht
    exact ⟨_, if_pos (hu.worker hinside (.inl rfl)), hu.release.move i (.inr rfl)⟩
  | penalize url seconds =>
    simp only [Throttle.step, hurl hc] at h ⊢
    cases h
    exact ⟨_, rfl, hu.log (DomainThrottle.penalize_congr hu.entry seconds s.now) _⟩
  | setDomainDelay other seconds =>
    cases hself hc
    cases h
    refine ⟨_, rfl, hu.now, ?_, hu.workers, hu.starts⟩
    obtain ⟨hnext, hrest⟩ := Prod.mk.inj hu.entry
    unfold DomainThrottle.setDomainDelay DomainThrottle.entry
    dsimp only
    rw [Function.update_self, Function.update_self, hnext, (Prod.mk.inj hrest).1]

/-- Nothing else is noticed there. -/
theorem Alone.step_other (hlocal : st.GLOBAL_THROTTLE = false) (hu : Alone domain s u)
    (hc : concerns lib domain a = false) (h : Throttle.step lib st s a = some t) : Alone domain t u := by
  have hother {other : String} (he : (other == domain) = false) : other ≠ domain := ne_of_beq_false he
  have hurl {url other : String} (he : ((domainOf lib url).toOption == some domain) = false)
      (hd : domainOf lib url = .ok other) : other ≠ domain := by
    rw [hd] at he
    exact fun h => ne_of_beq_false he (congrArg some h)
  cases a with
  | tick => cases hc
  | enter i url =>
    simp only [Throttle.step] at h
    split at h
    · cases h
      exact hu
    · rename_i other hdomain
      have hne := hurl hc hdomain
      obtain ⟨hout, h⟩ := Option.ite_none_right_eq_some.mp h
      obtain ⟨w, hw, rfl⟩ := Option.map_eq_some_iff.mp h
      refine (hu.acquire_other hne.symm hw).move_other ?_ fun he => hne (Option.some.inj he)
      rw [(acquire_same hw).2.2.1, hout]
      nofun
  | pace i other factor =>
    have hne := hother hc
    obtain ⟨⟨hadmitted, -⟩, ht⟩ := Option.ite_none_right_eq_some.mp h
    cases ht
    refine hu.move_other ?_ fun he => hne (Option.some.inj he)
    rw [hadmitted]
    exact fun he => hne (Option.some.inj he)
  | take i other remote =>
    have hne := hother hc
    simp only [Throttle.step] at h
    split at h
    · rename_i admitted delay hpaced
      obtain ⟨rfl, ht⟩ := Option.ite_none_right_eq_some.mp h
      rw [takeTicket_local hlocal] at ht
      cases ht
      refine (hu.log_other (e := .ticket ⟨admitted, s.now, delay, none, s.ready admitted - s.now⟩)
        (DomainThrottle.entry_takeTicket_of_ne hne.symm delay s.now) hne).move_other ?_ fun he => hne (Option.some.inj he)
      show (s.workers i).domain ≠ _
      rw [hpaced]
      exact fun he => hne (Option.some.inj he)
    · cases h
  | leave i other =>
    have hne := hother hc
    simp only [Throttle.step] at h
    split at h
    · rename_i admitted start hwaiting
      obtain ⟨⟨rfl, -⟩, ht⟩ := Option.ite_none_right_eq_some.mp h
      cases ht
      refine (hu.log_other (e := .left admitted s.now) rfl hne).move_other ?_ fun he => hne (Option.some.inj he)
      show (s.workers i).domain ≠ _
      rw [hwaiting]
      exact fun he => hne (Option.some.inj he)
    · cases h
  | done i other =>
    have hne := hother hc
    obtain ⟨hinside, ht⟩ := Option.ite_none_right_eq_some.mp h
    cases ht
    refine (hu.release_other hne.symm).move_other ?_ nofun
    rw [(release_same st s other).2.2.1, hinside]
    exact fun he => hne (Option.some.inj he)
  | penalize url seconds =>
    simp only [Throttle.step] at h
    split at h
    · cases h
      exact hu
    · rename_i other hdomain
      have hne := hurl hc hdomain
      cases h
      exact hu.log_other (DomainThrottle.entry_penalize_of_ne hne.symm seconds s.now) hne
  | setDomainDelay other seconds =>
    have hne := hother hc
    cases h
    exact ⟨hu.now, hu.entry.trans (DomainThrottle.entry_setDomainDelay_of_ne hne.symm seconds).symm, hu.workers, hu.starts⟩

theorem paced_run (hlocal : st.GLOBAL_THROTTLE = false) {as : List ThrottleAct}
    (he : (throttleMachine lib st).exec s as = some t) (hs : Paced s) : Paced t :=
  Machine.Meets.preserves (G := fun _ _ => True) (fun _ _ _ hs _ h => hs.step hlocal h)
    (Machine.Meets.of_forall (fun _ _ _ => trivial) s) he hs

/-- A run with what has nothing to do with the domain left out. -/
theorem Alone.run (hlocal : st.GLOBAL_THROTTLE = false) {as : List ThrottleAct} (hu : Alone domain s u)
    (he : (throttleMachine lib st).exec s as = some t) :
    ∃ v, (throttleMachine lib st).exec u (as.filter (concerns lib domain)) = some v ∧ Alone domain t v := by
  induction as generalizing s u with
  | nil =>
    cases he
    exact ⟨u, rfl, hu⟩
  | cons a as ih =>
    rw [Machine.exec_cons] at he
    obtain ⟨w, hw, he⟩ := Option.bind_eq_some_iff.mp he
    cases hc : concerns lib domain a with
    | true =>
      obtain ⟨v, hv, hwv⟩ := hu.step hlocal hc hw
      rw [List.filter_cons_of_pos hc, Machine.exec_cons]
      have hv : (throttleMachine lib st).step u a = some v := hv
      rw [hv]
      exact ih hwv he
    | false =>
      rw [List.filter_cons_of_neg (ne_true_of_eq_false hc)]
      exact ih (hu.step_other hlocal hc hw) he

/-- Without `GLOBAL_THROTTLE` the tickets of a domain start with their delays
between them, and after all penalties of before; and they start when they would
if there were no other domains. -/
theorem starts_spaced (lib : Stdlib) (st : Setting) (hlocal : st.GLOBAL_THROTTLE = false) (as : List ThrottleAct)
    {s : Throttle} (he : (throttleMachine lib st).exec {} as = some s) :
    s.log.Pairwise Spaced ∧
      ∀ domain, ∃ t, (throttleMachine lib st).exec {} (as.filter (concerns lib domain)) = some t ∧
        t.starts domain = s.starts domain := by
  have hpaced : Paced ({} : Throttle) := ⟨List.forall_mem_nil _, .nil⟩
  refine ⟨(paced_run hlocal he hpaced).spaced, fun domain => ?_⟩
  have halone : Alone domain ({} : Throttle) {} := ⟨rfl, rfl, fun _ => rfl, rfl⟩
  obtain ⟨t, ht, hst⟩ := halone.run hlocal he
  exact ⟨t, ht, hst.starts⟩

end Throttle

/-- The library with one URL, `https://a.com/`. -/
def oneSite : Stdlib where
  urlsplit _ := .ok ⟨"https", "a.com", "/", "", ""⟩
  parseQsl _ := []
  urlencode _ := ""
  urlunsplit _ := "https://a.com/"
  dumpsSorted _ := .ok ""
  str _ := ""
  repr _ := ""
  md5 text := text
  lower text := text

/-- Two workers take a ticket of the site. -/
def twoTickets : List ThrottleAct :=
  [.enter 0 "https://a.com/", .enter 1 "https://a.com/", .pace 0 "a.com" 1, .pace 1 "a.com" 1,
    .take 0 "a.com" none, .take 1 "a.com" none]

namespace Throttle

theorem starts_spaced_twoTickets :
    ∃ s, (throttleMachine oneSite { DOWNLOAD_DELAY := 1000000 }).exec {} twoTickets = some s ∧
      s.log.Pairwise Spaced ∧
      ∀ domain, ∃ t, (throttleMachine oneSite { DOWNLOAD_DELAY := 1000000 }).exec {}
        (twoTickets.filter (concerns oneSite domain)) = some t ∧ t.starts domain = s.starts domain := by
  have hran : ((throttleMachine oneSite { DOWNLOAD_DELAY := 1000000 }).exec {} twoTickets).isSome := by decide +kernel
  obtain ⟨s, hs⟩ := Option.isSome_iff_exists.mp hran
  exact ⟨s, hs, starts_spaced oneSite { DOWNLOAD_DELAY := 1000000 } rfl twoTickets hs⟩

end Throttle

end Netspy
