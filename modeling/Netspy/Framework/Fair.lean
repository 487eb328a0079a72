import Mathlib.Order.WellFounded
import Netspy.Framework.Machine

/-!
# Fair runs

An infinite run of a machine takes a step, or none, at each moment. Its actions
belong to threads. It is fair to a thread if that thread is not able to act and
passed over forever: ever again it acts or has nothing to do.

`Run.Fair.reaches` is the rule for what a fair run must reach. Each state that is not
yet there names a thread that can act; what it does lowers a rank, and what the others
do lowers the rank as well or leaves rank and thread as they are.
-/

universe u v w

namespace Machine

variable {σ : Type u} {α : Type v} {ι : Type w} (M : Machine σ α)

structure Run where
  state : Nat → σ
  act : Nat → Option α
  start : M.start (state 0)
  next (t : Nat) : match act t with
    | none => state (t + 1) = state t
    | some a => M.step (state t) a = some (state (t + 1))

/-- The thread `i` has a step that is possible in `s`. -/
def Enabled (thread : α → ι) (s : σ) (i : ι) : Prop := ∃ a, thread a = i ∧ (M.step s a).isSome

variable {M}

def Run.Fair (r : M.Run) (thread : α → ι) (i : ι) : Prop :=
  ∀ t, ∃ u, t ≤ u ∧ (M.Enabled thread (r.state u) i → ∃ a, r.act u = some a ∧ thread a = i)

theorem Run.next_some (r : M.Run) {t : Nat} {a : α} (h : r.act t = some a) :
    M.step (r.state t) a = some (r.state (t + 1)) := by
  have hn := r.next t
  rwa [h] at hn

theorem Run.next_none (r : M.Run) {t : Nat} (h : r.act t = none) : r.state (t + 1) = r.state t := by
  have hn := r.next t
  rwa [h] at hn

/-- What every step preserves from a moment on holds from then on. -/
theorem Run.stays (r : M.Run) {I : σ → Prop} {t u : Nat} (htu : t ≤ u) (h : I (r.state t))
    (hs : ∀ v a, t ≤ v → r.act v = some a → I (r.state v) → I (r.state (v + 1))) : I (r.state u) := by
  induction u, htu using Nat.le_induction with
  | base => exact h
  | succ u htu ih =>
    cases ha : r.act u with
    | none => rwa [r.next_none ha]
    | some a => exact hs u a htu ha ih

theorem Run.reachable (r : M.Run) (t : Nat) : M.Reachable (r.state t) := by
  apply r.stays (Nat.zero_le t) (Within.start r.start)
  intro v a _ ha hv
  exact hv.step trivial (r.next_some ha)

/-- The last moment of a stretch before a change. -/
theorem exists_change {p : Nat → Prop} {t u : Nat} (htu : t ≤ u) (ht : p t) (hu : ¬ p u) :
    ∃ v, t ≤ v ∧ v < u ∧ p v ∧ ¬ p (v + 1) := by
  induction u, htu using Nat.le_induction with
  | base => exact absurd ht hu
  | succ u htu ih =>
    by_cases hpu : p u
    · exact ⟨u, htu, Nat.lt_succ_self u, hpu, hu⟩
    · obtain ⟨v, h1, h2, h3⟩ := ih hpu
      exact ⟨v, h1, Nat.lt_succ_of_lt h2, h3⟩

/-- What must be reached: `helpful` is the thread that lowers the rank, and a step of
another thread does not raise it. -/
theorem Run.Fair.reaches {W : Type*} [LT W] [WellFoundedLT W] {r : M.Run} {thread : α → ι}
    {I goal : σ → Prop} (rank : σ → W) (helpful : σ → ι)
    (hfair : ∀ s, I s → ¬ goal s → r.Fair thread (helpful s))
    (henabled : ∀ s, I s → ¬ goal s → M.Enabled thread s (helpful s))
    (hstep : ∀ s a s', I s → ¬ goal s → M.step s a = some s' → goal s' ∨ I s' ∧
      (rank s' < rank s ∨ rank s' = rank s ∧ helpful s' = helpful s ∧ thread a ≠ helpful s))
    {t : Nat} (h : I (r.state t)) : ∃ u, t ≤ u ∧ goal (r.state u) := by
  generalize hw : rank (r.state t) = w
  induction w using WellFoundedLT.induction generalizing t with
  | ind w ih =>
    by_contra hno
    push Not at hno
    -- as long as nothing else happens, the same thread is the helpful one
    let same (v : Nat) : Prop :=
      I (r.state v) ∧ rank (r.state v) = w ∧ helpful (r.state v) = helpful (r.state t)
    have hsame : same t := ⟨h, hw, rfl⟩
    obtain ⟨u, htu, hu⟩ := hfair _ h (hno t le_rfl) t
    have hdrop : ∃ v, t ≤ v ∧ I (r.state (v + 1)) ∧ rank (r.state (v + 1)) < w := by
      have hafter : ∀ v, t ≤ v → same v → ¬ same (v + 1) →
          I (r.state (v + 1)) ∧ rank (r.state (v + 1)) < w := by
        intro v htv hv hv'
        cases ha : r.act v with
        | none => exact absurd (show same (v + 1) by simp only [same, r.next_none ha]; exact hv) hv'
        | some a =>
          rcases hstep _ a _ hv.1 (hno v htv) (r.next_some ha) with hg | ⟨hi, hlt | ⟨heq, hh, _⟩⟩
          · exact absurd hg (hno _ (Nat.le_succ_of_le htv))
          · exact ⟨hi, hv.2.1 ▸ hlt⟩
          · exact absurd ⟨hi, heq.trans hv.2.1, hh.trans hv.2.2⟩ hv'
      by_cases hsu : same u
      · have hen := henabled _ hsu.1 (hno u htu)
        rw [hsu.2.2] at hen
        obtain ⟨a, ha, hthread⟩ := hu hen
        rcases hstep _ a _ hsu.1 (hno u htu) (r.next_some ha) with hg | ⟨hi, hlt | ⟨_, _, hne⟩⟩
        · exact absurd hg (hno _ (Nat.le_succ_of_le htu))
        · exact ⟨u, htu, hi, hsu.2.1 ▸ hlt⟩
        · exact absurd (hthread.trans hsu.2.2.symm) hne
      · obtain ⟨v, htv, _, hv, hv'⟩ := exists_change htu hsame hsu
        exact ⟨v, htv, hafter v htv hv hv'⟩
    obtain ⟨v, htv, hi, hlt⟩ := hdrop
    obtain ⟨x, hvx, hx⟩ := ih _ hlt hi rfl
    exact hno x (htv.trans ((Nat.le_succ v).trans hvx)) hx

/-! ## Runs that come to rest -/

theorem exec_take {s t : σ} {as : List α} (he : M.exec s as = some t) (n : Nat) :
    ∃ u, M.exec s (as.take n) = some u := by
  rw [← List.take_append_drop n as, exec_append] at he
  obtain ⟨u, hu, _⟩ := Option.bind_eq_some_iff.mp he
  exact ⟨u, hu⟩

/-- A list of actions, and nothing after it. -/
def Run.ofExec {s t : σ} {as : List α} (h : M.start s) (he : M.exec s as = some t) : M.Run where
  state n := (M.exec s (as.take n)).getD s
  act n := as[n]?
  start := by simpa using h
  next n := by
    obtain ⟨u, hu⟩ := exec_take he n
    obtain ⟨v, hv⟩ := exec_take he (n + 1)
    rw [List.take_add_one, exec_append, hu] at hv
    rw [List.take_add_one, exec_append, hu]
    cases ha : as[n]? with
    | none => simp
    | some a =>
      simp only [ha, Option.toList_some, Option.bind_some, exec_cons, exec_nil] at hv ⊢
      obtain ⟨x, hx, _⟩ := Option.bind_eq_some_iff.mp hv
      simp [hx]

theorem Run.ofExec_state {s t : σ} {as : List α} (h : M.start s) (he : M.exec s as = some t) {n : Nat}
    (hn : as.length ≤ n) : (ofExec h he).state n = t := by
  simp [ofExec, List.take_of_length_le hn, he]

/-- It is fair to each thread that has nothing to do in the end. -/
theorem Run.ofExec_fair {s t : σ} {as : List α} (h : M.start s) (he : M.exec s as = some t)
    {thread : α → ι} {i : ι} (hi : ¬ M.Enabled thread t i) : (ofExec h he).Fair thread i := by
  intro n
  refine ⟨max n as.length, Nat.le_max_left _ _, fun hen => absurd ?_ hi⟩
  rwa [ofExec_state h he (Nat.le_max_right _ _)] at hen

end Machine
