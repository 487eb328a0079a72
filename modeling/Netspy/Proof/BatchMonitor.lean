import Netspy.Impl.BatchMonitor
import Netspy.Proof.BatchSpider

/-!
# The lock of the masters

The key comes from one master to another only when it has expired or its owner
has released it, and then by `SET NX`. A master renews and releases it only while
it has its own id. So a master that has lost the key does not get it back but by
a new call of `run_once` or `run`: its next `_renew_lock` ends the one it is in,
and then it makes no call of `_ensure_batch` or `_tick` (`lock_ownership`).
-/

namespace Netspy

namespace MonitorAct

variable {μ ν : Type}

/-- The master whose step it is. -/
def actor : MonitorAct μ ν → Option μ
  | .holdLock n _ _ | .ensureSchema n | .loop n | .renewLock n _ | .ensureBatch n | .call n | .latestBatch n
  | .releaseLock n _ | .raise n _ _ | .stop n | .kill n => some n
  | .expire | .work _ => none

/-- It ends the hold of `id` on the key. -/
def GivesUp (nodeId : μ → String) (id : String) : MonitorAct μ ν → Prop
  | .expire => True
  | .releaseLock n _ => nodeId n = id
  | _ => False

end MonitorAct

namespace BatchMonitors

section
variable {μ ν S φ : Type} [DecidableEq μ] [DecidableEq ν] [BatchStore S] [Filter φ]
  {st : Setting} {codec : Codec} {spider : BatchSpider} {nodeId : μ → String} {s t : BatchMonitors μ ν S φ}

/-- The key after a step. -/
def lockAfter (nodeId : μ → String) (lock : Option String) : MonitorAct μ ν → Option String
  | .holdLock _ _ .failed | .releaseLock _ .failed => lock
  | .holdLock n _ _ => (LockKey.setNx lock (nodeId n)).2
  | .releaseLock n _ => LockKey.release lock (nodeId n)
  | .expire => none
  | _ => lock

/-- What a step does to the key, and to the masters whose step it is not. -/
theorem step_eq_some {a : MonitorAct μ ν} (h : step st codec spider nodeId s a = some t) :
    t.lock = lockAfter nodeId s.lock a ∧ ∀ n, a.actor ≠ some n → t.monitors n = s.monitors n := by
  have hmove (n : μ) (point : MonitorPoint) (m : μ) (hm : some n ≠ some m) :
      (s.moveTo n point).monitors m = s.monitors m :=
    Function.update_of_ne (fun he => hm (congrArg some he.symm)) _ _
  cases a with
  | holdLock n d reply =>
    simp only [step] at h
    split at h <;> cases h
    cases reply with
    | answered => exact ⟨rfl, fun m hm => hmove n _ m hm⟩
    | failed => exact ⟨rfl, fun m hm => hmove n _ m hm⟩
    | lost => exact ⟨rfl, fun m hm => hmove n _ m hm⟩
  | releaseLock n reply =>
    simp only [step] at h
    split at h <;> cases h
    cases reply with
    | answered => exact ⟨rfl, fun m hm => hmove n _ m hm⟩
    | failed => exact ⟨rfl, fun m hm => hmove n _ m hm⟩
    | lost => exact ⟨rfl, fun m hm => hmove n _ m hm⟩
  | ensureSchema n | renewLock n reply | ensureBatch n | latestBatch n =>
    simp only [step] at h
    split at h <;> cases h
    all_goals exact ⟨rfl, fun m hm => hmove n _ m hm⟩
  | loop n =>
    simp only [step] at h
    split at h
    · split at h <;> cases h
      all_goals exact ⟨rfl, fun m hm => hmove n _ m hm⟩
    · cases h
  | call n =>
    simp only [step] at h
    split at h
    · obtain ⟨job, -, rfl⟩ := Option.map_eq_some_iff.mp h
      exact ⟨rfl, fun m hm => hmove n _ m hm⟩
    · cases h
  | raise n e message =>
    simp only [step] at h
    split at h <;> cases h
    exact ⟨rfl, fun m hm => hmove n _ m hm⟩
  | stop n | kill n =>
    cases h
    exact ⟨rfl, fun m hm => Function.update_of_ne (fun he => hm (congrArg some he.symm)) _ _⟩
  | expire =>
    cases h
    exact ⟨rfl, fun _ _ => rfl⟩
  | work a =>
    simp only [step] at h
    split at h
    · obtain ⟨job, -, rfl⟩ := Option.map_eq_some_iff.mp h
      exact ⟨rfl, fun _ _ => rfl⟩
    · cases h

/-! ## The key -/

theorem steps_lock {a : MonitorAct μ ν} (h : step st codec spider nodeId s a = some t) :
    LockKey.Steps s.lock t.lock := by
  rw [(step_eq_some h).1]
  unfold lockAfter
  split
  · exact .inl rfl
  · exact .inl rfl
  · exact LockKey.steps_setNx _ _
  · exact LockKey.steps_release _ _
  · exact .inr (.inr rfl)
  · exact .inl rfl

/-- The key is set by `SET NX`. -/
theorem eq_holdLock {a : MonitorAct μ ν} {y : String} (h : step st codec spider nodeId s a = some t)
    (hs : s.lock = none) (ht : t.lock = some y) : ∃ n d r, a = .holdLock n d r ∧ nodeId n = y := by
  rw [(step_eq_some h).1] at ht
  unfold lockAfter at ht
  split at ht
  · rw [hs] at ht
    cases ht
  · rw [hs] at ht
    cases ht
  · exact ⟨_, _, _, rfl, LockKey.setNx_eq hs ht⟩
  · rw [hs] at ht
    cases ht
  · cases ht
  · rw [hs] at ht
    cases ht

/-- The key is deleted by its owner, or expires. -/
theorem givesUp {a : MonitorAct μ ν} {x : String} (h : step st codec spider nodeId s a = some t)
    (hs : s.lock = some x) (ht : t.lock = none) : a.GivesUp nodeId x := by
  rw [(step_eq_some h).1] at ht
  unfold lockAfter at ht
  split at ht
  · rw [hs] at ht
    cases ht
  · rw [hs] at ht
    cases ht
  · rw [hs] at ht
    cases ht
  · exact LockKey.eq_of_release hs ht
  · trivial
  · rw [hs] at ht
    cases ht

/-- In a run after which the key is `y` and not `x` as before, it has expired or
been released by its owner, and been set by `SET NX`. -/
def HandsOver (st : Setting) (codec : Codec) (spider : BatchSpider) (nodeId : μ → String) (s : BatchMonitors μ ν S φ)
    (as : List (MonitorAct μ ν)) (x y : String) : Prop :=
  ∃ xs a ys n d r zs u u' v, as = xs ++ a :: (ys ++ MonitorAct.holdLock n d r :: zs) ∧
    ((machine st codec spider nodeId).exec s xs = some u ∧ u.lock = some x ∧
      step st codec spider nodeId u a = some u' ∧ a.GivesUp nodeId x) ∧
    (machine st codec spider nodeId).exec u' ys = some v ∧ v.lock = none ∧ nodeId n = y

theorem handsOver {as : List (MonitorAct μ ν)} (h : (machine st codec spider nodeId).exec s as = some t) {x y : String}
    (hx : s.lock = some x) (hy : t.lock = some y) (hne : x ≠ y) : HandsOver st codec spider nodeId s as x y := by
  obtain ⟨xs, a, ys, b, zs, u, u', v, v', rfl, ⟨hu, hlu, hu', hlu'⟩, hv, hlv, hv', hlv'⟩ :=
    @Machine.handover _ _ _ _ BatchMonitors.lock (fun _ _ _ ht => steps_lock ht) _ _ _ _ _ h hx hy hne
  obtain ⟨n, d, r, rfl, hn⟩ := eq_holdLock hv' hlv hlv'
  exact ⟨xs, a, ys, n, d, r, zs, u, u', v, rfl, ⟨hu, hlu, hu', givesUp hu' hlu hlu'⟩, hv, hlv, hn⟩

/-- A renewal succeeds, and a release deletes the key, only while it has the own
id. -/
def Rightful (nodeId : μ → String) (s : BatchMonitors μ ν S φ) (a : MonitorAct μ ν) (t : BatchMonitors μ ν S φ) :
    Prop :=
  match a with
  | .renewLock n _ => (t.monitors n).point.raises = true → s.lock = some (nodeId n)
  | .releaseLock n _ => t.lock ≠ s.lock → s.lock = some (nodeId n)
  | _ => True

theorem rightful {a : MonitorAct μ ν} (h : step st codec spider nodeId s a = some t) : Rightful nodeId s a t := by
  unfold Rightful
  split
  · rename_i n reply
    intro hp
    simp only [step] at h
    split at h <;> cases h
    simp only [renewLock, moveTo, Function.update_self] at hp
    cases reply with
    | answered =>
      by_cases hr : LockKey.renew s.lock (nodeId n) = true
      · exact LockKey.eq_of_renew hr
      · rw [if_neg hr] at hp
        cases hp
    | failed | lost => cases hp
  · rename_i n reply
    intro hl
    rw [(step_eq_some h).1] at hl
    by_contra hn
    refine hl ?_
    unfold lockAfter LockKey.release
    cases reply with
    | failed => rfl
    | answered | lost => exact if_neg hn
  · trivial

/-! ## Sessions that lost the key -/

/-- A master in `run_once` or `run` that does not have the key. -/
def Lost (nodeId : μ → String) (s : BatchMonitors μ ν S φ) (n : μ) : Prop :=
  (s.monitors n).point.inside = true ∧ s.lock ≠ some (nodeId n)

/-- Nobody else sets the key to the id of `n`. -/
theorem lock_ne_step (hid : Function.Injective nodeId) {n : μ} {a : MonitorAct μ ν}
    (h : step st codec spider nodeId s a = some t) (hl : s.lock ≠ some (nodeId n))
    (ha : ∀ d r, a ≠ .holdLock n d r) : t.lock ≠ some (nodeId n) := by
  intro ht
  rcases steps_lock h with hk | hk | hk
  · exact hl (hk.symm.trans ht)
  · obtain ⟨m, d, r, rfl, hm⟩ := eq_holdLock h hk ht
    exact ha d r (by rw [hid hm])
  · rw [ht] at hk
    cases hk

omit [DecidableEq ν] [BatchStore S] [Filter φ] in
theorem point_moveTo (n : μ) (point : MonitorPoint) : ((s.moveTo n point).monitors n).point = point := by
  simp [moveTo]

/-- What has been left is not entered but by `_hold_lock`. -/
theorem raises_step {n : μ} {a : MonitorAct μ ν} (h : step st codec spider nodeId s a = some t)
    (hp : (s.monitors n).point.raises = false) (ha : ∀ d r, a ≠ .holdLock n d r) :
    (t.monitors n).point.raises = false ∧ a ≠ .ensureBatch n ∧ a ≠ .call n := by
  by_cases hn : a.actor = some n
  · cases a with
    | holdLock m d r =>
      cases hn
      exact absurd rfl (ha d r)
    | ensureSchema m | loop m | renewLock m reply | ensureBatch m | call m | latestBatch m =>
      cases hn
      simp only [step] at h
      split at h
      all_goals first | cases h; done | (rename_i hpoint; rw [hpoint] at hp; cases hp)
    | raise m e message =>
      cases hn
      rw [step, if_neg (by rw [hp]; exact Bool.false_ne_true)] at h
      cases h
    | releaseLock m reply =>
      cases hn
      simp only [step] at h
      split at h <;> cases h
      refine ⟨?_, nofun, nofun⟩
      rename_i how _
      have hout : ((s.moveTo n (.out (some how))).monitors n).point.raises = false := by
        rw [point_moveTo]
        rfl
      cases reply with
      | answered | failed | lost => exact hout
    | stop m =>
      cases hn
      cases h
      refine ⟨?_, nofun, nofun⟩
      simpa using hp
    | kill m =>
      cases hn
      cases h
      refine ⟨?_, nofun, nofun⟩
      simp [MonitorPoint.raises]
    | expire | work b => cases hn
  · rw [(step_eq_some h).2 n hn]
    exact ⟨hp, fun he => hn (by rw [he]; rfl), fun he => hn (by rw [he]; rfl)⟩

/-- The run of a master that lost the key, until it calls `run_once` or `run`
again: its next `_renew_lock` raises, and it opens no batch and makes no round
after that. -/
def StopsAtRenewal (st : Setting) (codec : Codec) (spider : BatchSpider) (nodeId : μ → String)
    (s : BatchMonitors μ ν S φ) (as : List (MonitorAct μ ν)) (n : μ) : Prop :=
  (∀ d r, .holdLock n d r ∉ as) →
    ∀ xs r ys u v, as = xs ++ MonitorAct.renewLock n r :: ys → (machine st codec spider nodeId).exec s xs = some u →
      step st codec spider nodeId u (.renewLock n r) = some v →
        (v.monitors n).point = .leave (if r = .answered then lockTaken spider else connectionError) ∧
          ∀ a ∈ ys, a ≠ .ensureBatch n ∧ a ≠ .call n

theorem lock_ne_exec (hid : Function.Injective nodeId) {n : μ} {as : List (MonitorAct μ ν)}
    (h : (machine st codec spider nodeId).exec s as = some t) (hl : s.lock ≠ some (nodeId n))
    (ha : ∀ d r, .holdLock n d r ∉ as) : t.lock ≠ some (nodeId n) := by
  induction as generalizing s with
  | nil =>
    cases h
    exact hl
  | cons a as ih =>
    obtain ⟨u, hu, h⟩ := Option.bind_eq_some_iff.mp h
    refine ih h (lock_ne_step hid hu hl fun d r he => ha d r ?_) fun d r hm => ha d r (List.mem_cons_of_mem a hm)
    exact he ▸ List.mem_cons_self

theorem no_rounds {n : μ} {as : List (MonitorAct μ ν)} (h : (machine st codec spider nodeId).exec s as = some t)
    (hp : (s.monitors n).point.raises = false) (ha : ∀ d r, .holdLock n d r ∉ as) :
    ∀ a ∈ as, a ≠ .ensureBatch n ∧ a ≠ .call n := by
  induction as generalizing s with
  | nil => exact List.forall_mem_nil _
  | cons b as ih =>
    obtain ⟨u, hu, h⟩ := Option.bind_eq_some_iff.mp h
    have hstep := raises_step hu hp fun d r he => ha d r (he ▸ List.mem_cons_self)
    refine List.forall_mem_cons.mpr ⟨hstep.2, ih h hstep.1 fun d r hm => ha d r (List.mem_cons_of_mem b hm)⟩

/-- A renewal without the key ends the session. -/
theorem point_renewLock {n : μ} {r : Reply} (h : step st codec spider nodeId s (.renewLock n r) = some t)
    (hl : s.lock ≠ some (nodeId n)) :
    (t.monitors n).point = .leave (if r = .answered then lockTaken spider else connectionError) := by
  simp only [step] at h
  split at h <;> cases h
  unfold renewLock
  rw [point_moveTo]
  cases r with
  | answered =>
    have hr : ¬ LockKey.renew s.lock (nodeId n) = true := fun hr => hl (LockKey.eq_of_renew hr)
    simp [hr]
  | failed | lost => rfl

theorem stopsAtRenewal (hid : Function.Injective nodeId) {n : μ} {as : List (MonitorAct μ ν)}
    (h : (machine st codec spider nodeId).exec s as = some t) (hl : Lost nodeId s n) :
    StopsAtRenewal st codec spider nodeId s as n := by
  rintro ha xs r ys u v rfl hu hv
  have hxs : ∀ d r', .holdLock n d r' ∉ xs := fun d r' hm => ha d r' (List.mem_append_left _ hm)
  have hys : ∀ d r', .holdLock n d r' ∉ ys := fun d r' hm =>
    ha d r' (List.mem_append_right _ (List.mem_cons_of_mem _ hm))
  have hpoint := point_renewLock hv (lock_ne_exec hid hu hl.2 hxs)
  refine ⟨hpoint, ?_⟩
  have hrest : (machine st codec spider nodeId).exec v ys = some t := by
    rw [Machine.exec_append, hu, Option.bind_some, Machine.exec_cons] at h
    obtain ⟨v', hv', h⟩ := Option.bind_eq_some_iff.mp h
    have he : v' = v := Option.some.inj (hv'.symm.trans hv)
    exact he ▸ h
  exact no_rounds hrest (by rw [hpoint]; rfl) hys

/-- Ownership of the lock, in every run of masters of different ids. -/
theorem lock_ownership (hid : Function.Injective nodeId) (s t : BatchMonitors μ ν S φ) (as : List (MonitorAct μ ν))
    (h : (machine st codec spider nodeId).exec s as = some t) :
    (∀ x y, s.lock = some x → t.lock = some y → x ≠ y → HandsOver st codec spider nodeId s as x y) ∧
      (∀ xs a ys u v, as = xs ++ a :: ys → (machine st codec spider nodeId).exec s xs = some u →
        step st codec spider nodeId u a = some v → Rightful nodeId u a v) ∧
      ∀ n, Lost nodeId s n → StopsAtRenewal st codec spider nodeId s as n :=
  ⟨fun _ _ hx hy hne => handsOver h hx hy hne, fun _ _ _ _ _ _ _ hv => rightful hv,
    fun _ hl => stopsAtRenewal hid h hl⟩

end

/-- The first master takes the key and opens a batch. -/
def opens : List (MonitorAct Bool Unit) :=
  [.holdLock false .run .answered, .ensureSchema false, .loop false, .renewLock false .answered, .ensureBatch false,
    .call false]

/-- The key expires, and the second one takes it; the first one finds out. -/
def takesOver : List (MonitorAct Bool Unit) :=
  [.expire, .holdLock true .runOnce .answered, .call false, .call false, .loop false, .renewLock false .answered,
    .releaseLock false .answered]

def twoMasters (n : Bool) : String := if n then "b" else "a"

def noneYet : BatchMonitors Bool Unit MemoryBatchStore LiteFilter where
  job := BatchJob.oneTaskJob

def ran (as : List (MonitorAct Bool Unit)) : BatchMonitors Bool Unit MemoryBatchStore LiteFilter :=
  ((machine {} Cluster.urlCodec BatchJob.oneTask twoMasters).exec noneYet as).getD noneYet

theorem injective_twoMasters : Function.Injective twoMasters := fun a b => by
  revert a b
  decide

theorem exec_ran {as : List (MonitorAct Bool Unit)}
    (h : ((machine {} Cluster.urlCodec BatchJob.oneTask twoMasters).exec noneYet as).isSome = true) :
    (machine {} Cluster.urlCodec BatchJob.oneTask twoMasters).exec noneYet as = some (ran as) :=
  Machine.exec_getD h _

theorem exec_takesOver :
    (machine {} Cluster.urlCodec BatchJob.oneTask twoMasters).exec (ran opens) takesOver =
      some (ran (opens ++ takesOver)) := by
  have hboth := @exec_ran (opens ++ takesOver) (by decide +kernel)
  have hopens := @exec_ran opens (by decide +kernel)
  rw [Machine.exec_append, hopens] at hboth
  exact hboth

theorem lock_ownership_takesOver :
    HandsOver {} Cluster.urlCodec BatchJob.oneTask twoMasters (ran opens) takesOver "a" "b" :=
  (lock_ownership injective_twoMasters (ran opens) (ran (opens ++ takesOver)) takesOver exec_takesOver).1 "a" "b"
    (by decide +kernel) (by decide +kernel) (by decide)

end BatchMonitors

end Netspy
