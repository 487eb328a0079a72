import Netspy.Proof.Throttle

/-!
# Cooldowns of a domain

Penalties are reservations like tickets, so their times add up, however close
together they come: without delays a ticket waits for what is left of all of them
(`waits_le_iff`).

And a ticket is a moment that nothing moves any more: a cooldown stops those who
come after it, and who is asleep in the queue only if its moment is late enough
(`cooldown_rests`).
-/

namespace Netspy

/-! ## Penalties add up -/

/-- The moment and the time of a penalty of a domain, if it counts. -/
def counted (domain : String) : ThrottleEvent → Option (ℚ × ℚ)
  | .penalty p => if p.domain = domain ∧ 0 < p.seconds then some (p.moment, p.seconds) else none
  | _ => none

/-- The penalties of a domain, the last first. -/
def penalties (domain : String) (log : List ThrottleEvent) : List (ℚ × ℚ) := log.filterMap (counted domain)

/-- A ticket that came after these events is not told to wait for more than `m`:
Redis did not, and of no penalty, with all that came after it, more is left. -/
def NotTooLong (m : ℚ) (t : Ticket) (earlier : List ThrottleEvent) : Prop :=
  match t.remote with
  | some wait => wait ≤ m
  | none => ∀ newer x older, penalties t.domain earlier = newer ++ x :: older →
      x.1 + (Reserve.total newer + x.2) ≤ t.moment + m

def isCrawlDelay : ThrottleAct → Bool
  | .setDomainDelay .. => true
  | _ => false

/-- No step sets a delay for a domain. -/
abbrev NoCrawlDelay (_ : Throttle) (a : ThrottleAct) : Prop := isCrawlDelay a = false

/-- The wait of a ticket that came after these events, if no ticket has a delay. -/
def waitAfter (t : Ticket) (earlier : List ThrottleEvent) : ℚ :=
  match t.remote with
  | some wait => wait
  | none => max t.moment (Reserve.after 0 (penalties t.domain earlier)) - t.moment

theorem penalties_cons (p : Penalty) (domain : String) (log : List ThrottleEvent) :
    penalties domain (.penalty p :: log) =
      if p.domain = domain ∧ 0 < p.seconds then (p.moment, p.seconds) :: penalties domain log else penalties domain log := by
  unfold penalties
  by_cases h : p.domain = domain ∧ 0 < p.seconds
  · have hc : counted domain (.penalty p) = some (p.moment, p.seconds) := if_pos h
    rw [List.filterMap_cons_some hc, if_pos h]
  · have hc : counted domain (.penalty p) = none := if_neg h
    rw [List.filterMap_cons_none hc, if_neg h]

namespace Throttle

variable {lib : Stdlib} {st : Setting} {s t : Throttle} {a : ThrottleAct}

/-- What holds as long as no ticket has a delay. -/
structure Undelayed (s : Throttle) : Prop where
  now : 0 ≤ s.now
  delays : s.throttle.domainDelay = fun _ => none
  paced : ∀ i domain delay, s.workers i = .paced domain delay → delay = 0
  free : ∀ domain, s.throttle.freeAt domain = Reserve.after 0 (penalties domain s.log)
  moments : ∀ domain, ∀ x ∈ penalties domain s.log, 0 ≤ x.1
  waits : ∀ later t earlier, s.log = later ++ .ticket t :: earlier → 0 ≤ t.moment ∧ t.wait = waitAfter t earlier ∧
    ∀ domain, ∀ x ∈ penalties domain earlier, 0 ≤ x.1

/-- An event that adds to no penalty, whose ticket, if it is one, waits as said. -/
theorem Undelayed.waits_cons (hs : Undelayed s) {e : ThrottleEvent}
    (he : ∀ t, e = .ticket t → 0 ≤ t.moment ∧ t.wait = waitAfter t s.log) :
    ∀ later t earlier, e :: s.log = later ++ .ticket t :: earlier → 0 ≤ t.moment ∧ t.wait = waitAfter t earlier ∧
      ∀ domain, ∀ x ∈ penalties domain earlier, 0 ≤ x.1 := by
  intro later t earlier hlog
  cases later with
  | nil =>
    obtain ⟨htick, rfl⟩ := List.cons.inj hlog
    obtain ⟨hmoment, hwait⟩ := he t htick
    exact ⟨hmoment, hwait, hs.moments⟩
  | cons x later => exact hs.waits later t earlier (List.cons.inj hlog).2

theorem Undelayed.step (hst : st.DOWNLOAD_DELAY = 0) (hs : Undelayed s) (hc : NoCrawlDelay s a)
    (h : step lib st s a = some t) : Undelayed t := by
  have hd {x : ℚ} {domain : String} {factor : ℚ} (hx : x = s.throttle.delay st domain factor) : x = 0 := by
    unfold DomainThrottle.delay at hx
    rw [hs.delays, hst] at hx
    exact hx
  cases did h with
  | quiet _ hnow hlog hfree hpaced _ hdelay =>
    refine ⟨hs.now.trans hnow, ?_, fun i domain delay hp => ?_, fun domain => ?_, ?_, ?_⟩
    · rw [hdelay, hs.delays]
      rintro domain seconds rfl
      cases hc
    · rcases hpaced i domain delay hp with hold | ⟨factor, hx⟩
      · exact hs.paced i domain delay hold
      · exact hd hx
    · rw [hfree, hlog]
      exact hs.free domain
    · rw [hlog]
      exact hs.moments
    · rw [hlog]
      exact hs.waits
  | ticket i domain delay remote hpaced ht =>
    cases hs.paced i domain delay hpaced
    have hmoved (u : Throttle) (slot : Slot) (hw : u.workers = s.workers)
        (hslot : ∀ domain delay, slot ≠ .paced domain delay) :
        ∀ j domain delay, (u.move i slot).workers j = .paced domain delay → delay = 0 := fun j domain delay hp =>
      hs.paced j domain delay (hw ▸ move_eq hp (hslot domain delay))
    subst ht
    rcases takeTicket_cases st s domain 0 remote with ⟨wait, -, -, he⟩ | he
    · rw [he]
      refine ⟨hs.now, hs.delays, hmoved s _ rfl fun _ _ => nofun, hs.free, hs.moments, hs.waits_cons ?_⟩
      rintro _ ⟨⟩
      exact ⟨hs.now, rfl⟩
    · rw [he]
      refine ⟨hs.now, ?_, hmoved _ _ rfl fun _ _ => nofun, fun other => ?_, hs.moments, hs.waits_cons ?_⟩
      · exact (s.throttle.domainDelay_takeTicket domain 0 s.now).trans hs.delays
      · show (s.throttle.takeTicket domain 0 s.now).2.freeAt other = _
        rw [DomainThrottle.freeAt_takeTicket_of_le _ _ _ _ _ (le_refl 0)]
        exact hs.free other
      · rintro _ ⟨⟩
        refine ⟨hs.now, ?_⟩
        show s.ready domain - s.now = max s.now _ - s.now
        rw [← hs.free domain]
        rfl
  | left i domain start _ _ ht =>
    subst ht
    refine ⟨hs.now, hs.delays, fun j other delay hp => ?_, hs.free, hs.moments, hs.waits_cons (fun _ => nofun)⟩
    exact hs.paced j other delay (move_eq hp nofun)
  | penalty url domain seconds _ ht =>
    subst ht
    refine ⟨hs.now, ?_, hs.paced, fun other => ?_, fun other x hx => ?_, hs.waits_cons fun _ => nofun⟩
    · exact (s.throttle.domainDelay_penalize domain seconds s.now).trans hs.delays
    · show (s.throttle.penalize domain seconds s.now).freeAt other = _
      rw [DomainThrottle.freeAt_penalize, penalties_cons]
      by_cases hcount : domain = other ∧ 0 < seconds
      · rw [if_pos ⟨hcount.1.symm, hcount.2⟩, if_pos hcount, Reserve.after, ← hs.free, hcount.1]
      · rw [if_neg fun hp => hcount ⟨hp.1.symm, hp.2⟩, if_neg hcount, hs.free]
    · rw [penalties_cons] at hx
      split at hx
      · rcases List.mem_cons.mp hx with rfl | hx
        · exact hs.now
        · exact hs.moments other x hx
      · exact hs.moments other x hx

theorem undelayed (hst : st.DOWNLOAD_DELAY = 0) (h : (throttleMachine lib st).Within NoCrawlDelay s) : Undelayed s := by
  refine h.induct ?_ fun s a t hs hc ht => hs.step hst hc ht
  rintro s rfl
  exact ⟨le_refl _, rfl, fun _ _ _ => nofun, fun _ => rfl, fun _ _ => nofun, fun later t earlier he => by simp at he⟩

/-- Without delays no ticket is told to wait for more than `RETRY_AFTER_MAX`,
exactly if at none of them more than that is left of some penalty with all that
came after it. -/
theorem waits_le_iff (lib : Stdlib) (st : Setting) (hst : st.DOWNLOAD_DELAY = 0) {s : Throttle}
    (h : (throttleMachine lib st).Within NoCrawlDelay s) :
    (∀ t : Ticket, .ticket t ∈ s.log → t.wait ≤ (st.RETRY_AFTER_MAX : ℚ)) ↔
      ∀ later t earlier, s.log = later ++ .ticket t :: earlier → NotTooLong st.RETRY_AFTER_MAX t earlier := by
  have hs := undelayed hst h
  have hiff : ∀ later t earlier, s.log = later ++ .ticket t :: earlier →
      (t.wait ≤ (st.RETRY_AFTER_MAX : ℚ) ↔ NotTooLong st.RETRY_AFTER_MAX t earlier) := by
    intro later t earlier hlog
    obtain ⟨hmoment, hwait, hmoments⟩ := hs.waits later t earlier hlog
    have hmax : (0 : ℚ) ≤ st.RETRY_AFTER_MAX := Nat.cast_nonneg _
    rw [hwait, waitAfter, NotTooLong]
    split
    · exact Iff.rfl
    · rw [sub_le_iff_le_add', max_le_iff, and_iff_right (le_add_of_nonneg_right hmax),
        Reserve.after_le_iff_of_le (add_nonneg hmoment hmax) (hmoments t.domain)]
  constructor
  · intro hall later t earlier hlog
    refine (hiff later t earlier hlog).mp (hall t ?_)
    rw [hlog]
    exact List.mem_append_right later List.mem_cons_self
  · intro hall t ht
    obtain ⟨later, earlier, hlog⟩ := List.append_of_mem ht
    exact (hiff later t earlier hlog).mpr (hall later t earlier hlog)

/-- Two answers with `Retry-After: 60` arrive at once, and then a worker takes a ticket. -/
def retryTwice : List ThrottleAct :=
  [.penalize "https://a.com/" 60000000, .penalize "https://a.com/" 60000000, .enter 0 "https://a.com/",
    .pace 0 "a.com" 1, .take 0 "a.com" none]

/-- The ticket has to wait for two minutes. -/
theorem retryTwice_log :
    ∃ s, (throttleMachine oneSite {}).exec {} retryTwice = some s ∧
      s.log = [.ticket ⟨"a.com", 0, 0, none, 120000000⟩, .penalty ⟨"a.com", 0, 60000000⟩, .penalty ⟨"a.com", 0, 60000000⟩] :=
  Option.map_eq_some_iff.mp (by decide +kernel)

theorem retryTwice_within {s : Throttle} (he : (throttleMachine oneSite {}).exec {} retryTwice = some s) :
    (throttleMachine oneSite {}).Within NoCrawlDelay s :=
  (Machine.Within.start rfl).exec (by decide +kernel) he

theorem waits_le_iff_retryTwice :
    ∃ s, (throttleMachine oneSite {}).exec {} retryTwice = some s ∧
      ((∀ t : Ticket, .ticket t ∈ s.log → t.wait ≤ (({} : Setting).RETRY_AFTER_MAX : ℚ)) ↔
        ∀ later t earlier, s.log = later ++ .ticket t :: earlier → NotTooLong ({} : Setting).RETRY_AFTER_MAX t earlier) := by
  obtain ⟨s, he, -⟩ := retryTwice_log
  exact ⟨s, he, waits_le_iff oneSite {} rfl (retryTwice_within he)⟩

/-- No penalty is for more than `RETRY_AFTER_MAX`, and a ticket is told to wait for
twice as long. -/
theorem penalties_add_up :
    ∃ s, (throttleMachine oneSite {}).Within NoCrawlDelay s ∧
      (∀ p : Penalty, .penalty p ∈ s.log → p.seconds ≤ (({} : Setting).RETRY_AFTER_MAX : ℚ)) ∧
      ∃ t : Ticket, .ticket t ∈ s.log ∧ t.wait = 2 * (({} : Setting).RETRY_AFTER_MAX : ℚ) := by
  obtain ⟨s, he, hlog⟩ := retryTwice_log
  refine ⟨s, retryTwice_within he, fun p hp => ?_, ⟨"a.com", 0, 0, none, 120000000⟩, ?_, by norm_num⟩
  · rw [hlog] at hp
    simp only [List.mem_cons, reduceCtorEq, ThrottleEvent.penalty.injEq, List.not_mem_nil, or_false, false_or, or_self] at hp
    rw [hp]
    norm_num
  · rw [hlog]
    exact List.mem_cons_self

/-! ## Who is asleep already -/

/-- A worker does not leave during a penalty of before. -/
def Rests : ThrottleEvent → ThrottleEvent → Prop
  | .left domain moment, .penalty p => p.domain = domain → ¬(p.moment < moment ∧ moment < p.moment + p.seconds)
  | _, _ => True

/-- A penalty comes when no one of its domain sleeps until an earlier moment than its
end, and Redis has no one start before the end of a penalty of before. -/
def QueueRests (lib : Stdlib) (st : Setting) (s : Throttle) : ThrottleAct → Prop
  | .penalize url seconds => ∀ domain, domainOf lib url = .ok domain → 0 < seconds →
      ∀ i start, s.workers i = .waiting domain start → s.now + seconds ≤ start
  | .take _ domain (some wait) => st.GLOBAL_THROTTLE = true →
      ∀ p : Penalty, .penalty p ∈ s.log → p.domain = domain → p.moment + p.seconds ≤ s.now + wait
  | _ => True

/-- No one starts before the end of a penalty, neither who sleeps nor who takes a
ticket next. -/
structure Resting (s : Throttle) : Prop where
  queue : ∀ p : Penalty, .penalty p ∈ s.log → 0 < p.seconds →
    ∀ i start, s.workers i = .waiting p.domain start → p.moment + p.seconds ≤ start
  next : ∀ p : Penalty, .penalty p ∈ s.log → p.moment + p.seconds ≤ s.ready p.domain
  rests : s.log.Pairwise Rests

theorem Resting.step (hs : Resting s) (hg : QueueRests lib st s a) (h : step lib st s a = some t) : Resting t := by
  have hnext : ∀ p : Penalty, .penalty p ∈ s.log → p.moment + p.seconds ≤ t.ready p.domain := fun p hp =>
    (hs.next p hp).trans (ready_le h p.domain).2
  cases did h with
  | quiet _ _ hlog _ _ hwaiting =>
    refine ⟨fun p hp hpos i start hw => ?_, hlog ▸ hnext, hlog ▸ hs.rests⟩
    exact hs.queue p (hlog ▸ hp) hpos i start (hwaiting i p.domain start hw)
  | ticket i domain delay remote _ ht =>
    have hstart : ∀ p : Penalty, .penalty p ∈ s.log → p.domain = domain →
        p.moment + p.seconds ≤ (s.takeTicket st domain delay remote).1.start := by
      intro p hp hd
      rcases takeTicket_cases st s domain delay remote with ⟨wait, rfl, hglobal, he⟩ | he
      · rw [he]
        exact hg hglobal p hp hd
      · rw [he]
        show _ ≤ s.now + (s.ready domain - s.now)
        rw [add_sub_cancel, ← hd]
        exact hs.next p hp
    have hsame : (s.takeTicket st domain delay remote).2.log = s.log ∧
        (s.takeTicket st domain delay remote).2.workers = s.workers := by
      rcases takeTicket_cases st s domain delay remote with ⟨wait, -, -, he⟩ | he <;> rw [he] <;> exact ⟨rfl, rfl⟩
    have hold {p : Penalty} (hp : .penalty p ∈ t.log) : .penalty p ∈ s.log := by
      rw [ht] at hp
      rw [← hsame.1]
      exact (List.mem_cons.mp hp).resolve_left nofun
    refine ⟨fun p hp hpos j start hw => ?_, fun p hp => hnext p (hold hp), ?_⟩
    · subst ht
      by_cases hj : j = i
      · subst hj
        obtain ⟨rfl, rfl⟩ := Slot.waiting.inj ((Function.update_self ..).symm.trans hw)
        exact hstart p (hold hp) rfl
      · refine hs.queue p (hold hp) hpos j start ?_
        rw [← hsame.2]
        exact (Function.update_of_ne hj ..).symm.trans hw
    · rw [ht]
      exact List.pairwise_cons.mpr ⟨fun _ _ => trivial, hsame.1 ▸ hs.rests⟩
  | left i domain start hwaiting hstart ht =>
    subst ht
    have hold {p : Penalty} (hp : .penalty p ∈ ThrottleEvent.left domain s.now :: s.log) : .penalty p ∈ s.log :=
      (List.mem_cons.mp hp).resolve_left nofun
    refine ⟨fun p hp hpos j start hw => ?_, fun p hp => hs.next p (hold hp), ?_⟩
    · exact hs.queue p (hold hp) hpos j start (move_eq hw nofun)
    · refine List.pairwise_cons.mpr ⟨fun e he => ?_, hs.rests⟩
      cases e with
      | ticket | left => trivial
      | penalty p =>
        rintro rfl ⟨hafter, hbefore⟩
        have hend := hs.queue p he (by linarith) i start hwaiting
        linarith
  | penalty url domain seconds hdomain ht =>
    subst ht
    refine ⟨fun p hp hpos i start hw => ?_, fun p hp => ?_, List.pairwise_cons.mpr ⟨fun _ _ => trivial, hs.rests⟩⟩
    · rcases List.mem_cons.mp hp with hp | hp
      · cases hp
        exact hg domain hdomain hpos i start hw
      · exact hs.queue p hp hpos i start hw
    · rcases List.mem_cons.mp hp with hp | hp
      · cases hp
        exact s.throttle.penalize_reserves domain seconds s.now
      · exact hnext p hp

/-- A worker that sleeps until a moment before the end of a penalty may leave
before it. -/
theorem not_rests {url domain : String} {seconds : ℚ} (hdomain : domainOf lib url = .ok domain) (hpos : 0 < seconds)
    {i : Nat} {start : ℚ} (hw : s.workers i = .waiting domain start) (hlt : start < s.now + seconds) :
    ∃ as t, (throttleMachine lib st).exec s (.penalize url seconds :: as) = some t ∧ ¬ t.log.Pairwise Rests := by
  -- it leaves as soon as it may, or halfway through the penalty
  obtain ⟨moment, hstart, hnow, hend⟩ : ∃ moment, start ≤ moment ∧ s.now < moment ∧ moment < s.now + seconds := by
    refine ⟨max start (s.now + seconds / 2), le_max_left .., ?_, max_lt hlt (by linarith)⟩
    linarith [le_max_right start (s.now + seconds / 2)]
  let s₁ : Throttle := { s with
    throttle := s.throttle.penalize domain seconds s.now, log := .penalty ⟨domain, s.now, seconds⟩ :: s.log }
  let s₂ : Throttle := { s₁ with now := moment }
  let s₃ : Throttle := { s₂.move i (.inside domain) with log := .left domain moment :: s₂.log }
  have hpenalize : step lib st s (.penalize url seconds) = some s₁ := by simp only [Throttle.step, hdomain, s₁]
  have htick : step lib st s₁ (.tick moment) = some s₂ := if_pos hnow.le
  have hleave : step lib st s₂ (.leave i domain) = some s₃ := by
    have hw : s₂.workers i = .waiting domain start := hw
    simp only [Throttle.step, hw]
    exact if_pos ⟨trivial, hstart⟩
  refine ⟨[.tick moment, .leave i domain], s₃, ?_, fun hp => ?_⟩
  · show (step lib st s (.penalize url seconds)).bind _ = _
    rw [hpenalize]
    show (step lib st s₁ (.tick moment)).bind _ = _
    rw [htick]
    show (step lib st s₂ (.leave i domain)).bind _ = _
    rw [hleave]
    rfl
  · exact List.rel_of_pairwise_cons hp List.mem_cons_self rfl ⟨hnow, hend⟩

/-- If every penalty comes when no one of its domain sleeps until an earlier moment
than its end, no worker leaves during one; and whenever it is otherwise, one may. -/
theorem cooldown_rests (lib : Stdlib) (st : Setting) :
    (∀ s, (throttleMachine lib st).Within (QueueRests lib st) s → s.log.Pairwise Rests) ∧
      ∀ s, (throttleMachine lib st).Reachable s → ∀ url seconds, ¬ QueueRests lib st s (.penalize url seconds) →
        ∃ as t, (throttleMachine lib st).exec s (.penalize url seconds :: as) = some t ∧ ¬ t.log.Pairwise Rests := by
  constructor
  · intro s h
    have hs : Resting s := by
      refine h.induct ?_ fun s a t hs hg ht => hs.step hg ht
      rintro s rfl
      exact ⟨fun _ hp => absurd hp List.not_mem_nil, fun _ hp => absurd hp List.not_mem_nil, .nil⟩
    exact hs.rests
  · intro s _ url seconds hg
    simp only [QueueRests, not_forall, not_le] at hg
    obtain ⟨domain, hdomain, hpos, i, start, hw, hlt⟩ := hg
    exact not_rests hdomain hpos hw hlt

/-- The second one in the queue leaves a second later, while the site wants a minute
of rest. -/
theorem queued_leaves :
    ∃ s, (throttleMachine oneSite { DOWNLOAD_DELAY := 1000000 }).Reachable s ∧ ¬ s.log.Pairwise Rests := by
  have hran : ∃ s, (throttleMachine oneSite { DOWNLOAD_DELAY := 1000000 }).exec {}
      (twoTickets ++ [ThrottleAct.penalize "https://a.com/" 60000000, .tick 1000000, .leave 1 "a.com"]) = some s ∧
        s.log = [.left "a.com" 1000000, .penalty ⟨"a.com", 0, 60000000⟩, .ticket ⟨"a.com", 0, 1000000, none, 1000000⟩,
          .ticket ⟨"a.com", 0, 1000000, none, 0⟩] :=
    Option.map_eq_some_iff.mp (by decide +kernel)
  obtain ⟨s, he, hlog⟩ := hran
  refine ⟨s, Machine.Reachable.exec (.start rfl) he, fun hp => ?_⟩
  rw [hlog] at hp
  exact List.rel_of_pairwise_cons hp List.mem_cons_self rfl ⟨by norm_num, by norm_num⟩

end Throttle

end Netspy
