import Netspy.Framework.Machine

/-!
# Runs that differ in what is hidden

Two machines take the same actions, of which some are visible; a visible action has an
output in the state it is taken in. A relation between their states unwinds them if no
hidden action of either ends it, and a visible one that both take has the same output
in both and keeps it (`Unwinds`). Then runs that take the same visible actions have the
same outputs, whatever hidden actions each takes between them
(`Unwinds.outputs_eq`).
-/

universe u u' v w

namespace Machine

variable {σ : Type u} {τ : Type u'} {α : Type v} {ω : Type w}

variable (visible : α → Prop) [DecidablePred visible]

/-- The outputs of the visible actions of a run. -/
def outputs (M : Machine σ α) (out : σ → α → ω) (s : σ) : List α → List ω
  | [] => []
  | a :: as =>
    match M.step s a with
    | none => []
    | some t => if visible a then out s a :: outputs M out t as else outputs M out t as

structure Unwinds (M : Machine σ α) (N : Machine τ α) (outM : σ → α → ω) (outN : τ → α → ω) (R : σ → τ → Prop) :
    Prop where
  left : ∀ {s t s' a}, R s t → ¬ visible a → M.step s a = some s' → R s' t
  right : ∀ {s t t' a}, R s t → ¬ visible a → N.step t a = some t' → R s t'
  both : ∀ {s t s' t' a}, R s t → visible a → M.step s a = some s' → N.step t a = some t' →
    outM s a = outN t a ∧ R s' t'

variable {visible} {M : Machine σ α} {N : Machine τ α} {outM : σ → α → ω} {outN : τ → α → ω} {R : σ → τ → Prop}
  {s s' : σ} {t t' : τ} {as bs : List α}

/-- Hidden actions of the second run, before it goes on. -/
theorem Unwinds.skip (h : Unwinds visible M N outM outN R) (hR : R s t) {pre : List α}
    (hpre : ∀ a ∈ pre, ¬ visible a) (he : N.exec t (pre ++ bs) = some t') :
    ∃ t₁, R s t₁ ∧ N.exec t₁ bs = some t' ∧
      N.outputs visible outN t (pre ++ bs) = N.outputs visible outN t₁ bs := by
  induction pre generalizing t with
  | nil => exact ⟨t, hR, he, rfl⟩
  | cons a pre ih =>
    have ha := hpre a List.mem_cons_self
    obtain ⟨u, hu, he⟩ := Option.bind_eq_some_iff.mp he
    obtain ⟨t₁, hR₁, he₁, hout⟩ := ih (h.right hR ha hu) (fun b hb => hpre b (List.mem_cons_of_mem a hb)) he
    refine ⟨t₁, hR₁, he₁, ?_⟩
    rw [← hout, List.cons_append, outputs, hu]
    exact if_neg ha

/-- Runs with the same visible actions have the same outputs. -/
theorem Unwinds.outputs_eq (h : Unwinds visible M N outM outN R) (hR : R s t) (hM : M.exec s as = some s')
    (hN : N.exec t bs = some t') (heq : as.filter visible = bs.filter visible) :
    M.outputs visible outM s as = N.outputs visible outN t bs := by
  induction as generalizing s t bs with
  | nil =>
    have hhid : ∀ b ∈ bs, ¬ visible b := by
      intro b hb
      simpa using (List.filter_eq_nil_iff.mp heq.symm) b hb
    rw [← List.append_nil bs] at hN ⊢
    obtain ⟨t₁, -, -, hout⟩ := h.skip hR hhid hN
    rw [hout]
    rfl
  | cons a as ih =>
    obtain ⟨u, hu, hM⟩ := Option.bind_eq_some_iff.mp hM
    rw [outputs, hu]
    dsimp only
    by_cases ha : visible a
    · -- the second run takes `a` after hidden actions
      rw [List.filter_cons_of_pos (by simpa using ha)] at heq
      obtain ⟨pre, post, rfl, hpre, -, hpost⟩ := List.filter_eq_cons_iff.mp heq.symm
      obtain ⟨t₁, hR₁, hN₁, hout⟩ := h.skip hR (fun b hb => by simpa using hpre b hb) hN
      obtain ⟨t₂, ht₂, hN₂⟩ := Option.bind_eq_some_iff.mp hN₁
      obtain ⟨houts, hR₂⟩ := h.both hR₁ ha hu ht₂
      rw [if_pos ha, hout, outputs, ht₂]
      dsimp only
      rw [if_pos ha, houts, ih hR₂ hM hN₂ hpost.symm]
    · rw [List.filter_cons_of_neg (by simpa using ha)] at heq
      rw [if_neg ha]
      exact ih (h.left hR ha hu) hM hN heq

end Machine
