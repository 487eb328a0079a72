import Mathlib.Tactic.FieldSimp
import Mathlib.Tactic.Ring
import Netspy.Impl.GlobalThrottle
import Netspy.Proof.Throttle

/-!
# The pace in Redis and in the process

The key has the whole milliseconds of the number that the process has for the
domain, or both are in the past (`Agrees`): a ticket without a delay writes to the
key but not to the process, and a key that has expired counts as zero. So the
rounding does not add up, and the waits differ by less than two milliseconds
(`waits_close`).
-/

namespace Netspy

theorem floor_thousandth (a : Int) : ⌊(a : ℚ) / 1000⌋ = a / 1000 := by
  exact_mod_cast Rat.floor_intCast_div_natCast a 1000

/-- The script in whole numbers, of the value that it reads. -/
theorem ticketLua_eq (now delay : Nat) {key : Option ThrottleKey} {value : Int}
    (hvalue : (key.map ThrottleKey.value).getD 0 = value) :
    ticketLua now (max delay 0) key =
      if now < value * 1000 then
        ((value * 1000 - now) / 1000, ⟨value + delay, now / 1000 + ((value * 1000 + delay * 1000 - now) / 1000 + 60000)⟩)
      else (0, ⟨now / 1000 + delay, now / 1000 + (delay + 60000)⟩) := by
  have hnow : ((now / 1000000 : Nat) : ℚ) * 1000 + (now % 1000000 : Nat) / 1000 = ((now : Int) : ℚ) / 1000 := by
    have hsplit : (1000000 : ℚ) * (now / 1000000 : Nat) + (now % 1000000 : Nat) = ((now : Int) : ℚ) := by
      rw [Int.cast_natCast]
      nth_rewrite 3 [← Nat.div_add_mod now 1000000]
      rw [Nat.cast_add, Nat.cast_mul, Nat.cast_ofNat]
    rw [← hsplit]
    ring
  have hmax : max (delay : ℚ) 0 = ((delay : Int) : ℚ) := by
    rw [max_eq_left (Nat.cast_nonneg delay), Int.cast_natCast]
  have hlt : ((now : Int) : ℚ) / 1000 < (value : ℚ) ↔ now < value * 1000 := by
    rw [div_lt_iff₀ (by norm_num)]
    norm_cast
  unfold ticketLua
  dsimp only
  rw [hnow, hvalue, hmax, floor_thousandth]
  split
  · rename_i h
    have hready : (value : ℚ) - ((now : Int) : ℚ) / 1000 = ((value * 1000 - now : Int) : ℚ) / 1000 := by
      push_cast
      ring
    have htarget : (value : ℚ) + ((delay : Int) : ℚ) - ((now : Int) : ℚ) / 1000 =
        ((value * 1000 + delay * 1000 - now : Int) : ℚ) / 1000 := by
      push_cast
      ring
    rw [if_pos (hlt.mp h), hready, htarget, floor_thousandth, floor_thousandth, ← Int.cast_add, Int.floor_intCast]
  · rename_i h
    rw [if_neg fun hn => h (hlt.mpr hn), sub_self, Int.floor_zero, Int.floor_add_intCast, floor_thousandth,
      add_sub_cancel_left, Int.floor_intCast]

/-- The numbers of the two sides for a domain: the one in Redis is the other one's
whole milliseconds, or both are over. -/
def Agrees (now : Int) (value free : Int) : Prop :=
  value * 1000 ≤ free ∧ free < value * 1000 + 1000 ∨ free ≤ now ∧ value * 1000 ≤ now

/-- What holds after any steps. -/
structure BothThrottles.Follows (domain : String) (s : BothThrottles) : Prop where
  agrees : ∃ free : Int, s.throttle.freeAt domain = free ∧ Agrees s.now ((s.key.map ThrottleKey.value).getD 0) free
  lives : ∀ key, s.key = some key → key.value < key.expires
  close : ∀ wait ∈ s.waits, (wait.1 : ℚ) * 1000 ≤ wait.2 ∧ wait.2 < ((wait.1 : ℚ) + 2) * 1000

/-- What the script makes of the key agrees with what the process makes of its
number, and so do the waits. -/
theorem Agrees.reserve {now : Nat} {key : Option ThrottleKey} {free : Int}
    (h : Agrees now ((key.map ThrottleKey.value).getD 0) free) (delay : Nat) :
    let reserved := ticketLua now (max delay 0) key
    reserved.2.value < reserved.2.expires ∧ Agrees now reserved.2.value (max (now : Int) free + delay * 1000) ∧
      (delay = 0 → free ≤ now → Agrees now reserved.2.value free) ∧
      reserved.1 * 1000 ≤ max (now : Int) free - now ∧ max (now : Int) free - now < (reserved.1 + 2) * 1000 := by
  unfold Agrees at h ⊢
  rw [ticketLua_eq now delay rfl]
  split <;> dsimp only <;> omega

namespace BothThrottles

variable {domain : String} {s t : BothThrottles} {a : BothAct}

/-- A moment of the process in whole microseconds. -/
theorem cast_max (now : Nat) (free : Int) : max (now : ℚ) free = ((max (now : Int) free : Int) : ℚ) := by
  rw [Int.cast_max, Int.cast_natCast]

theorem freeAt_ticket {d : DomainThrottle} {free : Int} (hfree : d.freeAt domain = free) (delay now : Nat) :
    ∃ free' : Int, (d.takeTicket domain (delay * 1000) now).2.freeAt domain = free' ∧
      (free' = max (now : Int) free + delay * 1000 ∨ delay = 0 ∧ free ≤ now ∧ free' = free) := by
  rcases d.freeAt_takeTicket domain domain (delay * 1000) now with ⟨hsame, hskip⟩ | ⟨-, hnext⟩
  · obtain ⟨hdelay, hnow⟩ := hskip rfl
    refine ⟨free, hsame.trans hfree, .inr ⟨?_, ?_, rfl⟩⟩
    · exact Nat.cast_nonpos.mp (by linarith : (delay : ℚ) ≤ 0)
    · rw [hfree] at hnow
      exact_mod_cast hnow
  · refine ⟨_, ?_, .inl rfl⟩
    have hnonneg : (0 : ℚ) ≤ delay * 1000 := mul_nonneg (Nat.cast_nonneg delay) (by norm_num)
    rw [hnext, hfree, Reserve.next, max_eq_left hnonneg, cast_max]
    push_cast
    rfl

theorem Follows.step (hs : Follows domain s) (h : step domain s a = some t) : Follows domain t := by
  obtain ⟨⟨free, hfree, hagrees⟩, hlives, hclose⟩ := hs
  cases a with
  | tick now =>
    obtain ⟨hle, ht⟩ := Option.ite_none_right_eq_some.mp h
    cases ht
    refine ⟨⟨free, hfree, ?_⟩, hlives, hclose⟩
    unfold Agrees at hagrees ⊢
    dsimp only
    omega
  | ticket delay =>
    obtain ⟨hexpires, hnext, hsame, hlow, hhigh⟩ := hagrees.reserve delay
    obtain ⟨free', hfree', hor⟩ := freeAt_ticket hfree delay s.now
    have hwait : ((ticketLua s.now (max delay 0) s.key).1 : ℚ) * 1000 ≤
        (s.throttle.takeTicket domain (delay * 1000) s.now).1 ∧
        (s.throttle.takeTicket domain (delay * 1000) s.now).1 < ((ticketLua s.now (max delay 0) s.key).1 + 2) * 1000 := by
      rw [DomainThrottle.takeTicket_wait, hfree, cast_max]
      exact ⟨by exact_mod_cast hlow, by exact_mod_cast hhigh⟩
    cases h
    refine ⟨⟨free', hfree', ?_⟩, ?_, List.forall_mem_cons.mpr ⟨hwait, hclose⟩⟩
    · rcases hor with rfl | ⟨hdelay, hnow, rfl⟩
      · exact hnext
      · exact hsame hdelay hnow
    · rintro _ ⟨⟩
      exact hexpires
  | penalize seconds =>
    obtain ⟨hexpires, hnext, -⟩ := hagrees.reserve seconds
    simp only [BothThrottles.step] at h
    split at h
    · cases h
      exact ⟨⟨free, hfree, hagrees⟩, hlives, hclose⟩
    · rename_i hpos
      cases h
      refine ⟨⟨_, ?_, hnext⟩, ?_, hclose⟩
      · have hseconds : (0 : ℚ) < seconds * 1000 := mul_pos (Nat.cast_pos.mpr (Nat.not_le.mp hpos)) (by norm_num)
        rw [DomainThrottle.freeAt_penalize, if_pos ⟨rfl, hseconds⟩, hfree, Reserve.next, cast_max]
        push_cast
        rfl
      · rintro _ ⟨⟩
        exact hexpires
  | expire =>
    simp only [BothThrottles.step] at h
    split at h
    · rename_i key hkey
      obtain ⟨hover, ht⟩ := Option.ite_none_right_eq_some.mp h
      cases ht
      refine ⟨⟨free, hfree, ?_⟩, (by intro _ hkey; cases hkey), hclose⟩
      -- the value of the key is over as well
      have hlife := hlives key hkey
      rw [hkey] at hagrees
      unfold Agrees at hagrees ⊢
      dsimp only [Option.map_some, Option.map_none, Option.getD_some, Option.getD_none] at hagrees ⊢
      omega
    · cases h

/-- However long a domain is used, the wait of the script is at most the one of the
process, and less than two milliseconds shorter. -/
theorem waits_close (domain : String) {s : BothThrottles} (h : (bothMachine domain).Reachable s) :
    ∀ wait ∈ s.waits, (wait.1 : ℚ) * 1000 ≤ wait.2 ∧ wait.2 < ((wait.1 : ℚ) + 2) * 1000 := by
  have hs : Follows domain s := by
    refine h.induct ?_ fun s a t hs _ ht => hs.step ht
    rintro s ⟨now, rfl⟩
    refine ⟨⟨0, rfl, .inr ⟨?_, ?_⟩⟩, fun _ => nofun, List.forall_mem_nil _⟩ <;> exact Int.natCast_nonneg now
  exact hs.close

/-- A second ticket, half a millisecond later, and a third one when the key is gone. -/
theorem waits_close_threeTickets :
    ∃ s, (bothMachine "a.com").exec { now := 1700000000123456 }
      [.ticket 1000, .tick 1700000000123956, .ticket 0, .tick 1700000062000000, .expire, .ticket 0] = some s ∧
      ∀ wait ∈ s.waits, (wait.1 : ℚ) * 1000 ≤ wait.2 ∧ wait.2 < ((wait.1 : ℚ) + 2) * 1000 := by
  have hran : ((bothMachine "a.com").exec { now := 1700000000123456 }
      [.ticket 1000, .tick 1700000000123956, .ticket 0, .tick 1700000062000000, .expire, .ticket 0]).isSome := by
    decide +kernel
  obtain ⟨s, hs⟩ := Option.isSome_iff_exists.mp hran
  exact ⟨s, hs, waits_close "a.com" (Machine.Reachable.exec (.start ⟨_, rfl⟩) hs)⟩

end BothThrottles

end Netspy
