import Netspy.Framework.Machine

/-!
# A lock in a key

A key that is set to the id of who takes it, if it is not set, and that is
renewed and deleted only for the id it is set to. It may expire between any two
calls. If no step sets it over another id, it comes from one id to another only
through a step that deletes it and one that sets it again (`Machine.handover`).
-/

namespace LockKey

variable {ι : Type*} [DecidableEq ι]

/-- `SET key id NX`: whether it was set, and the key then. -/
def setNx (key : Option ι) (id : ι) : Bool × Option ι :=
  match key with
  | none => (true, some id)
  | some _ => (false, key)

/-- What a script that expires the key if it is `id` returns. -/
def renew (key : Option ι) (id : ι) : Bool := decide (key = some id)

/-- The key after a script that deletes it if it is `id`. -/
def release (key : Option ι) (id : ι) : Option ι := if key = some id then none else key

/-- From one id to another there is no way but through none. -/
def Steps (key key' : Option ι) : Prop := key' = key ∨ key = none ∨ key' = none

omit [DecidableEq ι] in
theorem steps_setNx (key : Option ι) (id : ι) : Steps key (setNx key id).2 := by
  cases key with
  | none => exact .inr (.inl rfl)
  | some x => exact .inl rfl

theorem steps_release (key : Option ι) (id : ι) : Steps key (release key id) := by
  unfold release
  split
  · exact .inr (.inr rfl)
  · exact .inl rfl

omit [DecidableEq ι] in
/-- It is set to `id` by `SET NX` only. -/
theorem setNx_eq {key : Option ι} {id y : ι} (h : key = none) (hy : (setNx key id).2 = some y) : id = y := by
  subst h
  exact Option.some.inj hy

theorem eq_of_release {key : Option ι} {id x : ι} (h : key = some x) (hr : release key id = none) : id = x := by
  unfold release at hr
  split at hr
  · rename_i hid
    exact Option.some.inj (hid.symm.trans h)
  · rw [h] at hr
    cases hr

theorem eq_of_renew {key : Option ι} {id : ι} (h : renew key id = true) : key = some id := of_decide_eq_true h

end LockKey

namespace Machine

open LockKey

variable {σ α : Type*} {M : Machine σ α} {ι : Type*} {key : σ → Option ι}

/-- A run after which the key is not `x` any more has a step that deletes it. -/
theorem falls (hs : ∀ s a t, M.step s a = some t → Steps (key s) (key t)) {s t : σ} {as : List α} {x : ι}
    (he : M.exec s as = some t) (hx : key s = some x) (ht : key t ≠ some x) :
    ∃ xs a ys u v, as = xs ++ a :: ys ∧ M.exec s xs = some u ∧ key u = some x ∧ M.step u a = some v ∧
      key v = none ∧ M.exec v ys = some t := by
  induction as generalizing s with
  | nil =>
    cases he
    exact absurd hx ht
  | cons a as ih =>
    obtain ⟨u, hu, he⟩ := Option.bind_eq_some_iff.mp he
    rcases hs s a u hu with hk | hk | hk
    · obtain ⟨xs, b, ys, v, w, hab, hv, hkv, hw, hkw, het⟩ := ih he (hk.trans hx)
      refine ⟨a :: xs, b, ys, v, w, by rw [hab]; rfl, ?_, hkv, hw, hkw, het⟩
      rw [exec_cons, hu]
      exact hv
    · rw [hx] at hk
      cases hk
    · exact ⟨[], a, as, s, u, rfl, rfl, hx, hu, hk, he⟩

/-- A run after which the key is `y`, and was not, has a step that sets it. -/
theorem rises (hs : ∀ s a t, M.step s a = some t → Steps (key s) (key t)) {s t : σ} {as : List α} {y : ι}
    (he : M.exec s as = some t) (hne : key s ≠ some y) (ht : key t = some y) :
    ∃ xs a ys u v, as = xs ++ a :: ys ∧ M.exec s xs = some u ∧ key u = none ∧ M.step u a = some v ∧
      key v = some y := by
  induction as generalizing s with
  | nil =>
    cases he
    exact absurd ht hne
  | cons a as ih =>
    obtain ⟨u, hu, he⟩ := Option.bind_eq_some_iff.mp he
    by_cases hy : key u = some y
    · rcases hs s a u hu with hk | hk | hk
      · exact absurd (hk.symm.trans hy) hne
      · exact ⟨[], a, as, s, u, rfl, rfl, hk, hu, hy⟩
      · rw [hy] at hk
        cases hk
    · obtain ⟨xs, b, ys, v, w, hab, hv, hkv, hw, hkw⟩ := ih he hy
      refine ⟨a :: xs, b, ys, v, w, by rw [hab]; rfl, ?_, hkv, hw, hkw⟩
      rw [exec_cons, hu]
      exact hv

/-- From one id to another, the key is deleted and then set. -/
theorem handover (hs : ∀ s a t, M.step s a = some t → Steps (key s) (key t)) {s t : σ} {as : List α} {x y : ι}
    (he : M.exec s as = some t) (hx : key s = some x) (hy : key t = some y) (hne : x ≠ y) :
    ∃ xs a ys b zs u u' v v', as = xs ++ a :: (ys ++ b :: zs) ∧
      (M.exec s xs = some u ∧ key u = some x ∧ M.step u a = some u' ∧ key u' = none) ∧
      (M.exec u' ys = some v ∧ key v = none ∧ M.step v b = some v' ∧ key v' = some y) := by
  have hty : key t ≠ some x := by
    rw [hy]
    exact fun h => hne (Option.some.inj h).symm
  obtain ⟨xs, a, as', u, u', rfl, hu, hku, hu', hku', ht⟩ := falls hs he hx hty
  have hn : key u' ≠ some y := by
    rw [hku']
    exact nofun
  obtain ⟨ys, b, zs, v, v', rfl, hv, hkv, hv', hkv'⟩ := rises hs ht hn hy
  exact ⟨xs, a, ys, b, zs, u, u', v, v', rfl, ⟨hu, hku, hu', hku'⟩, hv, hkv, hv', hkv'⟩

end Machine
