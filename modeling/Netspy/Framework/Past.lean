import Mathlib.Data.List.Induction
import Netspy.Framework.Machine

/-!
# Runs, from their last action

`exec_induct` is the induction on a run that adds one action at its end. By it, what
the steps of a run have met so far can be read off its last state: that all of them met
a guard (`meets_iff_of_step`), or that one met `A` and none since then `B`
(`since_iff_of_step`), if each step changes the state accordingly. `forall_prefix_iff_meets`
is the other way round: what all states of a run satisfy, from a guard of its steps.
-/

universe u v

namespace Machine

variable {σ : Type u} {α : Type v} {M : Machine σ α} {s t u : σ} {as : List α} {a : α}

/-- What holds of the empty run, and of a run with one more action, holds of every
run. -/
theorem exec_induct {I : List α → σ → Prop} (h0 : I [] s)
    (hs : ∀ bs a u v, M.exec s bs = some u → I bs u → M.step u a = some v → I (bs ++ [a]) v)
    (he : M.exec s as = some t) : I as t := by
  induction as using List.reverseRecOn generalizing t with
  | nil =>
    cases he
    exact h0
  | append_singleton as a ih =>
    rw [exec_append] at he
    obtain ⟨u, hu, he⟩ := Option.bind_eq_some_iff.mp he
    obtain ⟨v, hv, he⟩ := Option.bind_eq_some_iff.mp he
    cases he
    exact hs as a u _ hu (ih hu) hv

theorem meets_concat {G : σ → α → Prop} (he : M.exec s as = some u) :
    M.Meets G s (as ++ [a]) ↔ M.Meets G s as ∧ G u a := by
  induction as generalizing s with
  | nil =>
    cases he
    exact ⟨fun h => ⟨trivial, h.1⟩, fun h => ⟨h.2, fun _ _ => trivial⟩⟩
  | cons b as ih =>
    obtain ⟨t, ht, he⟩ := Option.bind_eq_some_iff.mp he
    constructor
    · intro h
      obtain ⟨hm, hg⟩ := (ih he).mp (h.2 t ht)
      refine ⟨⟨h.1, fun t' ht' => ?_⟩, hg⟩
      cases ht.symm.trans ht'
      exact hm
    · rintro ⟨⟨hb, hm⟩, hg⟩
      refine ⟨hb, fun t' ht' => ?_⟩
      cases ht.symm.trans ht'
      exact (ih he).mpr ⟨hm t ht, hg⟩

/-- Two guards that are the same in the states of a run. -/
theorem Meets.congr {I : σ → Prop} {K G H : σ → α → Prop} (hI : ∀ u a v, I u → M.step u a = some v → I v)
    (hGH : ∀ u a, I u → K u a → (G u a ↔ H u a)) (hK : M.Meets K s as) (h : I s) :
    M.Meets G s as ↔ M.Meets H s as := by
  induction as generalizing s with
  | nil => exact Iff.rfl
  | cons a as ih =>
    refine and_congr (hGH s a h hK.1) (forall_congr' fun t => imp_congr_right fun ht => ?_)
    exact ih (hK.2 t ht) (hI s a t h ht)

/-- A guard that the last state tells. -/
theorem meets_iff_of_step {G : σ → α → Prop} {I : σ → Prop} (h0 : I s)
    (hs : ∀ u a v, M.step u a = some v → (I v ↔ I u ∧ G u a)) (he : M.exec s as = some t) :
    M.Meets G s as ↔ I t := by
  apply exec_induct (I := fun bs v => M.Meets G s bs ↔ I v) _ _ he
  · exact ⟨fun _ => h0, fun _ => trivial⟩
  · intro bs a u v hu ih hv
    rw [meets_concat hu, ih, hs u a v hv]

/-- Every state of a run satisfies `I` if and only if its steps meet `G`, if from a state
that does the next one does if and only if the step meets it. -/
theorem forall_prefix_iff_meets {G : σ → α → Prop} {I J : σ → Prop}
    (hJ : ∀ u a v, J u → M.step u a = some v → J v)
    (hs : ∀ u a v, J u → I u → M.step u a = some v → (I v ↔ G u a)) (hj : J s) (h0 : I s)
    (he : M.exec s as = some t) :
    (∀ bs u, bs <+: as → M.exec s bs = some u → I u) ↔ M.Meets G s as := by
  induction as generalizing s with
  | nil =>
    refine ⟨fun _ => trivial, fun _ bs u hbs hu => ?_⟩
    rw [List.prefix_nil.mp hbs] at hu
    cases hu
    exact h0
  | cons a as ih =>
    obtain ⟨v, hv, hrest⟩ := Option.bind_eq_some_iff.mp he
    have hjv : J v := hJ s a v hj hv
    constructor
    · intro h
      have hiv : I v := h [a] v (List.prefix_cons_inj a |>.mpr List.nil_prefix) (by rw [exec_cons, hv]; rfl)
      refine ⟨(hs s a v hj h0 hv).mp hiv, fun w hw => ?_⟩
      cases hv.symm.trans hw
      refine (ih hjv hiv hrest).mp fun bs u hbs hu => h (a :: bs) u (List.prefix_cons_inj a |>.mpr hbs) ?_
      rw [exec_cons, hv]
      exact hu
    · intro h bs u hbs hu
      cases bs with
      | nil =>
        cases hu
        exact h0
      | cons b bs =>
        obtain ⟨rfl, htail⟩ := List.cons_prefix_cons.mp hbs
        obtain ⟨w, hw, hu⟩ := Option.bind_eq_some_iff.mp hu
        cases hv.symm.trans hw
        exact (ih hjv ((hs s b v hj h0 hv).mpr h.1) hrest).mpr (h.2 v hv) bs u htail hu

/-- Some step met `A`, and no later one `B`. -/
def Since (M : Machine σ α) (A B : σ → α → Prop) (s : σ) : List α → Prop
  | [] => False
  | a :: as => ∃ t, M.step s a = some t ∧ (A s a ∧ M.Meets (fun u b => ¬ B u b) t as ∨ Since M A B t as)

theorem since_concat {A B : σ → α → Prop} (he : M.exec s as = some u) (hv : M.step u a = some t) :
    M.Since A B s (as ++ [a]) ↔ A u a ∨ M.Since A B s as ∧ ¬ B u a := by
  induction as generalizing s with
  | nil =>
    cases he
    constructor
    · rintro ⟨-, -, ⟨ha, -⟩ | ⟨⟨⟩⟩⟩
      exact .inl ha
    · rintro (ha | ⟨⟨⟩, -⟩)
      exact ⟨t, hv, .inl ⟨ha, trivial⟩⟩
  | cons b as ih =>
    obtain ⟨w, hw, he⟩ := Option.bind_eq_some_iff.mp he
    have hcons : ∀ cs, M.Since A B s (b :: cs) ↔ A s b ∧ M.Meets (fun u b => ¬ B u b) w cs ∨ M.Since A B w cs := by
      intro cs
      constructor
      · rintro ⟨w', hw', h⟩
        cases hw.symm.trans hw'
        exact h
      · exact fun h => ⟨w, hw, h⟩
    rw [List.cons_append, hcons, hcons, ih he, meets_concat he]
    tauto

/-- What began and has not ended, if the last state tells. -/
theorem since_iff_of_step {A B : σ → α → Prop} {I : σ → Prop} (h0 : ¬ I s)
    (hs : ∀ u a v, M.step u a = some v → (I v ↔ A u a ∨ I u ∧ ¬ B u a)) (he : M.exec s as = some t) :
    M.Since A B s as ↔ I t := by
  apply exec_induct (I := fun bs v => M.Since A B s bs ↔ I v) _ _ he
  · exact ⟨False.elim, h0⟩
  · intro bs a u v hu ih hv
    rw [since_concat hu hv, ih, hs u a v hv]

end Machine
