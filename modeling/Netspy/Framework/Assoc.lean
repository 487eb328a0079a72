import Mathlib.Data.List.Basic

/-!
# Looking up in a list of pairs

What a lookup finds where the other keys are removed, a value is replaced, or the pairs
of some keys are taken from another list.
-/

namespace List

variable {κ β : Type*} [DecidableEq κ]

theorem lookup_filter_ne {k k' : κ} (h : k' ≠ k) (d : List (κ × β)) : (d.filter (·.1 ≠ k)).lookup k' = d.lookup k' := by
  induction d with
  | nil => rfl
  | cons kv d ih =>
    rw [List.filter_cons]
    by_cases hk : kv.1 = k
    · have hb : (k' == kv.1) = false := beq_eq_false_iff_ne.mpr (hk ▸ h)
      simp only [hk, ne_eq, not_true_eq_false, decide_false, Bool.false_eq_true, if_false, ih]
      rw [List.lookup_cons, hb]
    · simp only [hk, ne_eq, not_false_eq_true, decide_true, if_true]
      rw [List.lookup_cons, List.lookup_cons, ih]

theorem lookup_replace_ne {k k' : κ} (h : k' ≠ k) (v : β) (d : List (κ × β)) :
    (d.map fun kv => if kv.1 = k then (k, v) else kv).lookup k' = d.lookup k' := by
  induction d with
  | nil => rfl
  | cons kv d ih =>
    rw [List.map_cons, List.lookup_cons, List.lookup_cons, ih]
    by_cases hk : kv.1 = k
    · have hb : (k' == k) = false := beq_eq_false_iff_ne.mpr h
      simp [hk, hb]
    · simp [hk]

/-- The pairs of some keys. -/
theorem lookup_take_keys (ks : List κ) (f : κ → Option β) (k : κ) :
    (ks.filterMap fun k => (f k).map (k, ·)).lookup k = if k ∈ ks then f k else none := by
  induction ks with
  | nil => rfl
  | cons k' ks ih =>
    rw [List.filterMap_cons]
    cases hk : f k' with
    | none =>
      rw [Option.map_none]
      dsimp only
      rw [ih]
      by_cases h : k = k'
      · subst h
        simp [hk]
      · simp [h]
    | some v =>
      rw [Option.map_some]
      dsimp only
      rw [List.lookup_cons, ih]
      by_cases h : k = k'
      · subst h
        simp [hk]
      · simp [beq_eq_false_iff_ne.mpr h, h]

theorem lookup_filter_of {p : κ → Bool} {d : List (κ × β)} {k : κ} :
    (d.filter fun kv => p kv.1).lookup k = if p k then d.lookup k else none := by
  induction d with
  | nil => simp
  | cons kv d ih =>
    obtain ⟨k', v⟩ := kv
    rw [List.filter_cons]
    by_cases hk : k = k'
    · subst hk
      cases hp : p k with
      | true => simp
      | false => simp [ih, hp]
    · have hb : (k == k') = false := beq_eq_false_iff_ne.mpr hk
      cases hp : p k' with
      | true => simp [List.lookup_cons, hb, ih]
      | false => simp [List.lookup_cons, hb, ih]

theorem lookup_replace_self {k : κ} {d : List (κ × β)} (h : (d.lookup k).isSome) (v : β) :
    (d.map fun kv => if kv.1 = k then (k, v) else kv).lookup k = some v := by
  induction d with
  | nil => exact absurd h (by simp)
  | cons kv d ih =>
    rw [List.map_cons, List.lookup_cons]
    by_cases hk : kv.1 = k
    · simp [hk]
    · have hb : (k == kv.1) = false := beq_eq_false_iff_ne.mpr (Ne.symm hk)
      rw [List.lookup_cons, hb] at h
      simp only [if_neg hk, hb]
      exact ih h

/-- A value is set where its key stands, or at the end. -/
theorem lookup_set (k : κ) (v : β) (d : List (κ × β)) (k' : κ) :
    (if (d.lookup k).isSome then d.map fun kv => if kv.1 = k then (k, v) else kv else d ++ [(k, v)]).lookup k' =
      if k' = k then some v else d.lookup k' := by
  split
  next hsome =>
    split
    next hk =>
      subst hk
      exact lookup_replace_self hsome v
    next hk => exact lookup_replace_ne hk v d
  next hnone =>
    have hnone : d.lookup k = none := Option.not_isSome_iff_eq_none.mp hnone
    rw [lookup_append]
    split
    next hk =>
      subst hk
      rw [hnone, lookup_cons_self]
      rfl
    next hk =>
      rw [lookup_cons, beq_eq_false_iff_ne.mpr hk]
      exact Option.or_none

end List
