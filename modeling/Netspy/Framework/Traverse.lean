import Mathlib.Data.List.Basic

/-!
# Traversals that may fail

`xs.mapM f` for an `f` that gives a value or an error: it has all values, or the
error of one element.
-/

namespace Except

variable {ε α β : Type*} {f : α → Except ε β} {xs : List α}

theorem mapM_ok {g : α → β} (h : ∀ x ∈ xs, f x = .ok (g x)) : xs.mapM f = .ok (xs.map g) := by
  induction xs with
  | nil => rfl
  | cons x xs ih =>
    rw [List.mapM_cons, h x List.mem_cons_self, ih fun y hy => h y (List.mem_cons_of_mem _ hy)]
    rfl

theorem ok_of_mapM {ys : List β} (h : xs.mapM f = .ok ys) : ∀ x ∈ xs, ∃ y, f x = .ok y := by
  induction xs generalizing ys with
  | nil => exact fun x hx => absurd hx List.not_mem_nil
  | cons x xs ih =>
    rw [List.mapM_cons] at h
    cases hx : f x with
    | error e => rw [hx] at h; cases h
    | ok y =>
      cases hxs : xs.mapM f with
      | error e => rw [hx, hxs] at h; cases h
      | ok ys' => exact List.forall_mem_cons.mpr ⟨⟨y, hx⟩, ih hxs⟩

theorem exists_mapM_ok (h : ∀ x ∈ xs, ∃ y, f x = .ok y) : ∃ ys, xs.mapM f = .ok ys := by
  induction xs with
  | nil => exact ⟨[], rfl⟩
  | cons x xs ih =>
    obtain ⟨y, hy⟩ := h x List.mem_cons_self
    obtain ⟨ys, hys⟩ := ih fun z hz => h z (List.mem_cons_of_mem _ hz)
    refine ⟨y :: ys, ?_⟩
    rw [List.mapM_cons, hy, hys]
    rfl

/-- A traversal that succeeds has the values of all elements that have one. -/
theorem filterMap_of_mapM {ys : List β} (h : xs.mapM f = .ok ys) : xs.filterMap (fun x => (f x).toOption) = ys := by
  induction xs generalizing ys with
  | nil =>
    cases h
    rfl
  | cons x xs ih =>
    rw [List.mapM_cons] at h
    cases hx : f x with
    | error e => rw [hx] at h; cases h
    | ok y =>
      cases hxs : xs.mapM f with
      | error e => rw [hx, hxs] at h; cases h
      | ok ys' =>
        rw [hx, hxs] at h
        cases h
        have hsome : (f x).toOption = some y := by rw [hx]; rfl
        simp only [List.filterMap_cons, hsome, ih hxs]

/-- The error of one element, if the others have that error or a value. -/
theorem mapM_error {e : ε} {x : α} (hx : x ∈ xs) (h : ∀ y ∈ xs, f y = .error e ∨ ∃ z, f y = .ok z)
    (he : f x = .error e) : xs.mapM f = .error e := by
  induction xs with
  | nil => cases hx
  | cons y ys ih =>
    rw [List.mapM_cons]
    rcases h y List.mem_cons_self with hy | ⟨z, hy⟩
    · rw [hy]
      rfl
    · rw [hy]
      have hx : x ∈ ys := by
        rcases List.mem_cons.mp hx with rfl | hx
        · rw [he] at hy
          cases hy
        · exact hx
      rw [ih hx fun w hw => h w (List.mem_cons_of_mem y hw)]
      rfl

end Except
