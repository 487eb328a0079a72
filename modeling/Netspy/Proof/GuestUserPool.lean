import Mathlib.Data.List.Nodup
import Mathlib.Data.List.Range
import Netspy.Proof.LocalUserPool

/-!
# How many guests there are

A guest is made when too few accounts are live, so that all but `size` of the guests have
been blocked at some time (`Guests.bound`). The clock is read before the lock, but what
was blocked at that time has been blocked. A guest that is new is never blocked, as its
name is (`Guests.fresh`).
-/

namespace Netspy

namespace LocalUserPool

variable {s t : State} {a : Action}

/-- What a step changes of the accounts, the blocks and the clock. -/
structure Moved (s t : State) (a : Action) : Prop where
  clock : s.clock ≤ t.clock
  names : t.names = s.names ∨ ∃ user, a = .addUser user ∧ t.names = s.names ++ [user.username]
  blocked : ∀ name, t.blocked name = s.blocked name ∨
    name ∈ s.names ∧ ((∃ user blockSeconds, a = .reportBad user blockSeconds ∧ t.blocked name = s.clock + blockSeconds) ∨
      t.blocked name = s.clock + 300000000)

theorem mem_names {user : Nat} {name : String} (h : s.name? user = some name) : name ∈ s.names :=
  List.mem_of_getElem? (name?_eq s user ▸ h)

theorem Moved.same (hclock : t.clock = s.clock) (hnames : t.names = s.names) (hblocked : t.blocked = s.blocked) :
    Moved s t a :=
  ⟨hclock.ge, .inl hnames, fun _ => .inl (by rw [hblocked])⟩

theorem moved_callStep {i : Nat} {c : Call} (ht : callStep s i c a = some t) : Moved s t a := by
  cases a with
  | count _ | giveUp _ =>
    obtain ⟨-, ht⟩ := Option.ite_none_right_eq_some.mp ht
    cases ht
    exact .same rfl rfl rfl
  | look _ =>
    obtain ⟨-, ht⟩ := Option.ite_none_right_eq_some.mp ht
    obtain ⟨name, -, rfl⟩ := Option.map_eq_some_iff.mp ht
    exact .same rfl rfl rfl
  | check _ | recheck _ =>
    simp only [callStep] at ht
    split at ht
    next user hstage =>
      obtain ⟨u, -, rfl⟩ := Option.map_eq_some_iff.mp ht
      split
      · exact .same rfl rfl rfl
      · exact .same rfl rfl rfl
    next => cases ht
  | lock _ =>
    simp only [callStep] at ht
    split at ht
    next user hstage =>
      obtain ⟨name, -, ht⟩ := Option.bind_eq_some_iff.mp ht
      obtain ⟨-, ht⟩ := Option.ite_none_left_eq_some.mp ht
      cases ht
      exact .same rfl rfl rfl
    next => cases ht
  | login _ answer =>
    simp only [callStep] at ht
    split at ht
    next user cookies hstage =>
      obtain ⟨name, -, rfl⟩ := Option.map_eq_some_iff.mp ht
      exact .same rfl (names_setCookies s user _) rfl
    next user e hstage =>
      obtain ⟨name, -, rfl⟩ := Option.map_eq_some_iff.mp ht
      exact .same rfl rfl rfl
    next => cases ht
  | block _ =>
    simp only [callStep] at ht
    split at ht
    next user hstage =>
      obtain ⟨name, hname, rfl⟩ := Option.map_eq_some_iff.mp ht
      refine ⟨le_refl _, .inl rfl, fun name' => ?_⟩
      by_cases hn : name' = name
      · exact .inr ⟨hn ▸ mem_names hname, .inr (hn ▸ Function.update_self ..)⟩
      · exact .inl (Function.update_of_ne hn ..)
    next => cases ht
  | addUser _ | reportBad _ _ | get | tick _ => cases ht

theorem moved_act (ht : act s a = some t) : Moved s t a := by
  cases a with
  | addUser user =>
    cases ht
    exact ⟨le_refl _, .inr ⟨user, rfl, by simp [State.names]⟩, fun _ => .inl rfl⟩
  | reportBad user blockSeconds =>
    obtain ⟨name, hname, rfl⟩ := Option.map_eq_some_iff.mp ht
    refine ⟨le_refl _, .inl (names_setCookies _ user _), fun name' => ?_⟩
    by_cases hn : name' = name
    · exact .inr ⟨hn ▸ mem_names hname, .inl ⟨user, blockSeconds, rfl, hn ▸ Function.update_self ..⟩⟩
    · exact .inl (Function.update_of_ne hn ..)
  | get =>
    cases ht
    exact .same rfl rfl rfl
  | tick time =>
    cases ht
    exact ⟨Int.le_add_of_nonneg_right (Int.natCast_nonneg time), .inl rfl, fun _ => .inl rfl⟩
  | giveUp i | count i | look i | check i | lock i | recheck i | login i _ | block i =>
    obtain ⟨c, -, ht⟩ := Option.bind_eq_some_iff.mp ht
    exact moved_callStep ht

theorem moved (ht : machine.step s a = some t) : Moved s t a := by
  obtain ⟨u, hu, rfl⟩ := Option.map_eq_some_iff.mp ht
  exact { moved_act hu with }

/-- Accounts that are added one after the other. -/
theorem exec_addUser (users : List User) (s : State) : ∃ t, machine.exec s (users.map .addUser) = some t ∧
    t.users = s.users ++ users ∧ t.blocked = s.blocked ∧ t.clock = s.clock := by
  induction users generalizing s with
  | nil => exact ⟨s, rfl, (List.append_nil _).symm, rfl, rfl⟩
  | cons user users ih =>
    obtain ⟨t, ht, hu, hb, hc⟩ := ih ({ s with users := s.users ++ [user] }.observe)
    refine ⟨t, ht, ?_, hb, hc⟩
    rw [hu]
    exact List.append_assoc s.users [user] users

end LocalUserPool

namespace GuestUserPool

open LocalUserPool (State)

variable {s t : GuestUserPool} {a : GuestAct}

theorem toList_guest (n : Nat) : (guest n).username.toList = "guest-".toList ++ Nat.toDigits 10 n := by
  show ("guest-" ++ n.repr).toList = _
  rw [String.toList_append]
  exact congrArg _ String.toList_ofList

theorem guest_injective {m n : Nat} (h : (guest m).username = (guest n).username) : m = n := by
  have hs := congrArg String.toList h
  rw [toList_guest, toList_guest] at hs
  rw [← Nat.ofDigitChars_ten_toDigits (n := m), ← Nat.ofDigitChars_ten_toDigits (n := n), List.append_cancel_left hs]

theorem isGuest_guest (n : Nat) : isGuest (guest n).username = true := by
  rw [isGuest, toList_guest, List.isPrefixOf_iff_prefix]
  exact List.prefix_append _ _

/-- The names of the guests, and what was blocked. -/
structure Guests (s : GuestUserPool) : Prop where
  names : s.pool.names.filter isGuest = (List.range' 1 s.counter).map fun n => (guest n).username
  blocked : ∀ name, s.pool.blocked name = 0 ∨ name ∈ s.pool.names ∧ 0 < s.pool.blocked name
  clock : 0 ≤ s.pool.clock ∧ ∀ i now, s.entering i = some (.asked now) → 0 ≤ now
  bound : s.counter ≤ s.size + s.pool.users.countP fun u => 0 < s.pool.blocked u.username

/-- The next names are not blocked. -/
theorem Guests.fresh (h : Guests s) {n : Nat} (hn : s.counter < n) : s.pool.blocked (guest n).username = 0 := by
  refine (h.blocked _).resolve_right fun hb => ?_
  have hmem := List.mem_filter.mpr ⟨hb.1, isGuest_guest n⟩
  rw [h.names] at hmem
  obtain ⟨m, hm, he⟩ := List.mem_map.mp hmem
  rw [guest_injective he, List.mem_range'_1] at hm
  omega

/-- A step of the pool that adds no guest. -/
theorem Guests.pool (h : Guests s) {p : State} {b : LocalUserPool.Action} {entering : Nat → Option GuestStage}
    (hm : LocalUserPool.Moved s.pool p b) (hg : Sound s (.pool b))
    (hent : ∀ i now, entering i = some (.asked now) → s.entering i = some (.asked now)) :
    Guests { s with pool := p, entering } := by
  have hsub : s.pool.names.Sublist p.names := by
    rcases hm.names with he | ⟨user, -, he⟩
    · rw [he]
    · rw [he]
      exact List.sublist_append_left _ _
  have hpos (name : String) : p.blocked name = 0 ∨ name ∈ p.names ∧ 0 < p.blocked name := by
    have hc := h.clock.1
    rcases hm.blocked name with he | ⟨hmem, ⟨user, blockSeconds, rfl, he⟩ | he⟩
    · rw [he]
      exact (h.blocked name).imp id (And.imp_left fun hn => hsub.subset hn)
    · have hg : 0 < blockSeconds := hg
      exact .inr ⟨hsub.subset hmem, by omega⟩
    · exact .inr ⟨hsub.subset hmem, by omega⟩
  have hkept (name : String) (hb : 0 < s.pool.blocked name) : 0 < p.blocked name := by
    have hc := h.clock.1
    rcases hm.blocked name with he | ⟨-, ⟨user, blockSeconds, rfl, he⟩ | he⟩
    · rwa [he]
    · have hg : 0 < blockSeconds := hg
      omega
    · omega
  refine ⟨?_, hpos, ⟨h.clock.1.trans hm.clock, fun i now hi => h.clock.2 i now (hent i now hi)⟩, h.bound.trans ?_⟩
  · rcases hm.names with he | ⟨user, rfl, he⟩
    · rw [he]
      exact h.names
    · have hg : isGuest user.username = false := hg
      rw [he, List.filter_append, h.names]
      simp [hg]
  · -- what was blocked stays so
    have hc : (s.pool.names.countP fun name => 0 < s.pool.blocked name) ≤ p.names.countP fun name => 0 < p.blocked name :=
      (List.countP_mono_left fun name _ hb => by simpa using hkept name (by simpa using hb)).trans (hsub.countP_le ..)
    rw [State.names, State.names, List.countP_map, List.countP_map] at hc
    exact Nat.add_le_add_left hc _

/-- The pool that `topUp` leaves. -/
theorem topUp_eq (s : GuestUserPool) (now : Int) : ∃ t, s.topUp now = some t ∧ t.size = s.size ∧
    t.entering = s.entering ∧ t.counter = s.counter + (s.size - live s.pool now) ∧
    t.pool.users = s.pool.users ++ (List.range' (s.counter + 1) (s.size - live s.pool now)).map guest ∧
    t.pool.blocked = s.pool.blocked ∧ t.pool.clock = s.pool.clock := by
  obtain ⟨p, hp, hu, hb, hc⟩ := LocalUserPool.exec_addUser ((List.range' (s.counter + 1)
      (s.size - live s.pool now)).map guest) s.pool
  exact ⟨{ s with pool := p, counter := s.counter + (s.size - live s.pool now) }, by rw [topUp, hp, Option.map_some],
    rfl, rfl, rfl,
    hu, hb, hc⟩

theorem Guests.topUp (h : Guests s) {now : Int} (hnow : 0 ≤ now) (ht : s.topUp now = some t) : Guests t := by
  obtain ⟨t', ht', hsize, hent, hcount, husers, hblocked, hclock⟩ := topUp_eq s now
  cases ht.symm.trans ht'
  have hnames : t.pool.names = s.pool.names ++
      (List.range' (s.counter + 1) (s.size - live s.pool now)).map fun n => (guest n).username := by
    rw [State.names, husers, List.map_append, List.map_map]
    rfl
  refine ⟨?_, fun name => ?_, ⟨hclock ▸ h.clock.1, hent ▸ h.clock.2⟩, ?_⟩
  · have hall : ((List.range' (s.counter + 1) (s.size - live s.pool now)).map fun n => (guest n).username).filter isGuest =
        (List.range' (s.counter + 1) (s.size - live s.pool now)).map fun n => (guest n).username := by
      rw [List.filter_eq_self]
      intro name hname
      obtain ⟨n, -, rfl⟩ := List.mem_map.mp hname
      exact isGuest_guest n
    rw [hnames, List.filter_append, h.names, hall, ← List.map_append, hcount, Nat.add_comm s.counter 1,
      List.range'_append_1]
  · rw [hblocked, hnames]
    exact (h.blocked name).imp id (And.imp_left (List.mem_append_left _))
  · -- an account that is not live is blocked
    have hdead : s.pool.users.length ≤ live s.pool now + s.pool.users.countP fun u => 0 < s.pool.blocked u.username := by
      rw [List.length_eq_countP_add_countP fun u => decide (s.pool.blocked u.username ≤ now)]
      refine Nat.add_le_add_left (List.countP_mono_left fun u _ hu => ?_) _
      have hu : now < s.pool.blocked u.username := by simpa using hu
      simpa using lt_of_le_of_lt hnow hu
    have hguests : s.counter ≤ s.pool.users.length := by
      have hle := List.length_filter_le isGuest s.pool.names
      rwa [h.names, List.length_map, List.length_range', State.names, List.length_map] at hle
    have hbound := h.bound
    rw [hcount, hsize, husers, hblocked, List.countP_append]
    omega

/-- After the section there are enough accounts. -/
theorem Guests.live_topUp (h : Guests s) {now : Int} (hnow : 0 ≤ now) (ht : s.topUp now = some t) :
    t.size ≤ live t.pool now := by
  obtain ⟨t', ht', hsize, -, -, husers, hblocked, -⟩ := topUp_eq s now
  cases ht.symm.trans ht'
  have hnew : ((List.range' (s.counter + 1) (s.size - live s.pool now)).map guest).countP
      (fun u => s.pool.blocked u.username ≤ now) = s.size - live s.pool now := by
    rw [List.countP_eq_length.mpr, List.length_map, List.length_range']
    intro u hu
    obtain ⟨n, hn, rfl⟩ := List.mem_map.mp hu
    rw [h.fresh (Nat.lt_of_succ_le (List.mem_range'_1.mp hn).1)]
    exact decide_eq_true hnow
  rw [live, husers, hblocked, List.countP_append, hnew, hsize]
  exact le_add_tsub

theorem step_pool {b : LocalUserPool.Action} (ht : machine.step s (.pool b) = some t) :
    ∃ p, LocalUserPool.machine.step s.pool b = some p ∧ { s with pool := p } = t := by
  cases b with
  | get => cases ht
  | _ => exact Option.map_eq_some_iff.mp ht

theorem Guests.step (h : Guests s) (hg : Sound s a) (ht : machine.step s a = some t) : Guests t := by
  cases a with
  | enter i =>
    simp only [machine, GuestUserPool.step] at ht
    split at ht
    next hi =>
      cases ht
      refine { h with clock := ⟨h.clock.1, fun j now hj => ?_⟩ }
      rcases Calls.update_eq_some hj with ⟨-, hc⟩ | ⟨-, hj⟩
      · cases hc
        exact h.clock.1
      · exact h.clock.2 j now hj
    next => cases ht
  | topUp i =>
    simp only [machine, GuestUserPool.step] at ht
    split at ht
    next now hi =>
      obtain ⟨u, hu, rfl⟩ := Option.map_eq_some_iff.mp ht
      have hu := h.topUp (h.clock.2 i now hi) hu
      refine { hu with clock := ⟨hu.clock.1, fun j now hj => ?_⟩ }
      rcases Calls.update_eq_some hj with ⟨-, hc⟩ | ⟨-, hj⟩
      · cases hc
      · exact hu.clock.2 j now hj
    next => cases ht
  | get i =>
    simp only [machine, GuestUserPool.step] at ht
    split at ht
    next =>
      obtain ⟨p, hp, rfl⟩ := Option.map_eq_some_iff.mp ht
      refine h.pool (b := .get) (LocalUserPool.moved hp) trivial fun j now hj => ?_
      rcases Calls.update_eq_some hj with ⟨-, hc⟩ | ⟨-, hj⟩
      · cases hc
      · exact hj
    next => cases ht
  | pool b =>
    obtain ⟨p, hp, rfl⟩ := step_pool ht
    exact h.pool (LocalUserPool.moved hp) hg fun _ _ hj => hj

theorem guests (h : machine.Within Sound s) : Guests s := by
  refine h.induct ?_ fun s a t hs hg ht => hs.step hg ht
  rintro s ⟨size, clock, hclock, rfl⟩
  exact ⟨rfl, fun _ => .inl rfl, ⟨hclock, fun _ _ hj => by cases hj⟩, Nat.zero_le _⟩

/-- The pool is one of `LocalUserPool`. -/
theorem reachable_pool (h : machine.Reachable s) : LocalUserPool.machine.Reachable s.pool := by
  refine h.induct (I := fun s => LocalUserPool.machine.Reachable s.pool) ?_ fun s a t hs _ ht => ?_
  · rintro s ⟨size, clock, -, rfl⟩
    exact .start ⟨true, [], clock, rfl⟩
  cases a with
  | enter i =>
    simp only [machine, GuestUserPool.step] at ht
    split at ht
    · cases ht
      exact hs
    · cases ht
  | topUp i =>
    simp only [machine, GuestUserPool.step] at ht
    split at ht
    next now _ =>
      obtain ⟨u, hu, rfl⟩ := Option.map_eq_some_iff.mp ht
      obtain ⟨p, hp, rfl⟩ := Option.map_eq_some_iff.mp hu
      exact hs.exec hp
    next => cases ht
  | get i =>
    simp only [machine, GuestUserPool.step] at ht
    split at ht
    next =>
      obtain ⟨p, hp, rfl⟩ := Option.map_eq_some_iff.mp ht
      exact .step hs trivial hp
    next => cases ht
  | pool b =>
    obtain ⟨p, hp, rfl⟩ := step_pool ht
    exact .step hs trivial hp

/-- Whatever the threads do, no more than `size` guests are made beyond the accounts that
were blocked at some time, and no two have one name. What a call of `get` goes on with has
`size` accounts that were not blocked when it read the clock. -/
theorem guest_pool_bounded (h : machine.Within Sound s) :
    LocalUserPool.machine.Reachable s.pool ∧
      s.counter ≤ s.size + (s.pool.users.countP fun u => 0 < s.pool.blocked u.username) ∧
      (s.pool.names.filter isGuest).Nodup ∧ (s.pool.names.filter isGuest).length = s.counter ∧
      ∀ i now, s.entering i = some (.asked now) → ∃ t, machine.step s (.topUp i) = some t ∧ t.size = s.size ∧
        s.size ≤ live t.pool now := by
  have hs := guests h
  refine ⟨reachable_pool h.reachable, hs.bound, ?_, ?_, fun i now hi => ?_⟩
  · rw [hs.names]
    exact List.Nodup.map (fun m n he => guest_injective he) List.nodup_range'
  · rw [hs.names, List.length_map, List.length_range']
  · obtain ⟨t, ht, hsize, -⟩ := topUp_eq s now
    refine ⟨{ t with entering := Function.update t.entering i (some .toppedUp) }, ?_, hsize, ?_⟩
    · show GuestUserPool.step s (.topUp i) = _
      simp only [GuestUserPool.step, hi, ht, Option.map_some]
    · rw [← hsize]
      exact hs.live_topUp (hs.clock.2 i now hi) ht

/-- Two calls of a new pool for two guests; then one of the guests is blocked, and a third
call makes another. -/
def oneBlocked : List GuestAct :=
  [.enter 0, .enter 1, .topUp 1, .topUp 0, .get 0, .pool (.tick 5), .pool (.reportBad 1 1000), .enter 2, .topUp 2, .enter 3]

theorem oneBlocked_ran : (machine.exec { size := 2 } oneBlocked).map (fun s => (s.pool.names, s.counter)) =
    some (["guest-1", "guest-2", "guest-3"], 3) := by
  decide

theorem guest_pool_bounded_oneBlocked : ∃ s, machine.exec { size := 2 } oneBlocked = some s ∧ s.counter = 3 ∧
    s.counter ≤ s.size + (s.pool.users.countP fun u => 0 < s.pool.blocked u.username) := by
  obtain ⟨s, he, hs⟩ := Option.map_eq_some_iff.mp oneBlocked_ran
  have hw : machine.Within Sound s := Machine.Within.exec (.start ⟨2, 0, le_refl _, rfl⟩) (by decide) he
  exact ⟨s, he, congrArg Prod.snd hs, (guest_pool_bounded hw).2.1⟩

end GuestUserPool

end Netspy
