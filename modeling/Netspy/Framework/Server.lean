import Mathlib.Data.List.Basic

/-!
# Servers

A server answers one call after another: `call s a` is its reply to `a` in the
state `s`, and the state after it. Two servers that go from related states to
related states reply alike (`replies_congr`). What a reply tells of all later
ones is a relation between the entries of the record; it follows from something
that is known of the state after the reply, and stays so (`record_pairwise`).
-/

universe u v w

/-- The reply to a call in a state, and the state after it. -/
abbrev Server (σ : Type u) (α : Type v) (β : Type w) := σ → α → β × σ

namespace Server

variable {σ τ : Type u} {α : Type v} {β : Type w}

/-- What a sequence of calls returns. -/
def replies (call : Server σ α β) (s : σ) : List α → List β
  | [] => []
  | a :: as =>
    let (r, s) := call s a
    r :: replies call s as

/-- A sequence of calls, each with what it returns. -/
def record (call : Server σ α β) (s : σ) : List α → List (α × β)
  | [] => []
  | a :: as =>
    let (r, s) := call s a
    (a, r) :: record call s as

theorem replies_cons (call : Server σ α β) (s : σ) (a : α) (as : List α) :
    replies call s (a :: as) = (call s a).1 :: replies call (call s a).2 as := rfl

theorem record_cons (call : Server σ α β) (s : σ) (a : α) (as : List α) :
    record call s (a :: as) = (a, (call s a).1) :: record call (call s a).2 as := rfl

theorem record_eq_zip (call : Server σ α β) (s : σ) (as : List α) :
    record call s as = as.zip (replies call s as) := by
  induction as generalizing s with
  | nil => rfl
  | cons a as ih => rw [record_cons, replies_cons, List.zip_cons_cons, ih]

/-- Two servers that go from related states to related states, with the same
replies, reply the same throughout. -/
theorem replies_congr {f : Server σ α β} {g : Server τ α β} {Rel : σ → τ → Prop} {Ok : α → Prop}
    (h : ∀ s t a, Ok a → Rel s t → (f s a).1 = (g t a).1 ∧ Rel (f s a).2 (g t a).2) {s : σ} {t : τ}
    (hr : Rel s t) {as : List α} (hok : ∀ a ∈ as, Ok a) : replies f s as = replies g t as := by
  induction as generalizing s t with
  | nil => rfl
  | cons a as ih =>
    obtain ⟨he, hr⟩ := h s t a (hok a List.mem_cons_self) hr
    rw [replies_cons, replies_cons, he, ih hr fun b hb => hok b (List.mem_cons_of_mem a hb)]

section
variable {call : Server σ α β} {Knows : σ → α × β → Prop} {P : α × β → α × β → Prop}

/-- What is known in a state of an earlier reply bounds all later ones. -/
theorem record_of_knows (hkeep : ∀ s x a, Knows s x → Knows (call s a).2 x)
    (hlater : ∀ s x a, Knows s x → P x (a, (call s a).1)) {s : σ} {x : α × β} (hx : Knows s x) (as : List α) :
    ∀ y ∈ record call s as, P x y := by
  induction as generalizing s with
  | nil => nofun
  | cons a as ih =>
    intro y hy
    rw [record_cons] at hy
    rcases List.mem_cons.mp hy with rfl | hy
    · exact hlater s x a hx
    · exact ih (hkeep s x a hx) y hy

theorem record_pairwise (hafter : ∀ s a, Knows (call s a).2 (a, (call s a).1))
    (hkeep : ∀ s x a, Knows s x → Knows (call s a).2 x) (hlater : ∀ s x a, Knows s x → P x (a, (call s a).1))
    (s : σ) (as : List α) : (record call s as).Pairwise P := by
  induction as generalizing s with
  | nil => exact .nil
  | cons a as ih =>
    rw [record_cons]
    exact .cons (record_of_knows hkeep hlater (hafter s a) as) (ih _)

end

/-- What every reply meets as long as the earlier ones do is a condition on the
calls alone, if it is one on the calls so far in the states they lead to. -/
theorem record_forall_iff {call : Server σ α β} {Ok : α × β → Prop} {Cond : List α → α → Prop} {Inv : List α → σ → Prop}
    (hcond : ∀ h s a, Inv h s → (Ok (a, (call s a).1) ↔ Cond h a))
    (hkeep : ∀ h s a, Inv h s → Ok (a, (call s a).1) → Inv (h ++ [a]) (call s a).2) {h : List α} {s : σ}
    (hi : Inv h s) (as : List α) :
    (∀ e ∈ record call s as, Ok e) ↔ ∀ xs a ys, as = xs ++ a :: ys → Cond (h ++ xs) a := by
  induction as generalizing h s with
  | nil => exact iff_of_true (List.forall_mem_nil _) fun _ _ _ he => absurd he (by simp)
  | cons b bs ih =>
    rw [record_cons, List.forall_mem_cons]
    constructor
    · rintro ⟨hb, hbs⟩ xs a ys he
      cases xs with
      | nil =>
        cases he
        rw [List.append_nil]
        exact (hcond h s b hi).mp hb
      | cons c xs =>
        cases he
        have hrest := (ih (hkeep h s b hi hb)).mp hbs xs a ys rfl
        rwa [List.append_assoc] at hrest
    · intro hall
      have hb := (hcond h s b hi).mpr (by
        have hfirst := hall [] b bs rfl
        rwa [List.append_nil] at hfirst)
      refine ⟨hb, (ih (hkeep h s b hi hb)).mpr fun xs a ys he => ?_⟩
      have hrest := hall (b :: xs) a ys (by rw [he]; rfl)
      rwa [List.append_assoc]

/-- What every reply meets in the states that are kept. -/
theorem record_forall {call : Server σ α β} {Ok : α × β → Prop} {Inv : σ → Prop}
    (hstep : ∀ s a, Inv s → Ok (a, (call s a).1) ∧ Inv (call s a).2) {s : σ} (hi : Inv s) (as : List α) :
    ∀ e ∈ record call s as, Ok e := by
  induction as generalizing s with
  | nil => exact List.forall_mem_nil _
  | cons a as ih =>
    obtain ⟨hok, hi⟩ := hstep s a hi
    exact List.forall_mem_cons.mpr ⟨hok, ih hi⟩

end Server
