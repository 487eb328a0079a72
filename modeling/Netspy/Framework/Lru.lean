import Mathlib.Data.Finset.Card
import Mathlib.Data.Finset.Dedup
import Mathlib.Data.List.TakeWhile

/-!
# Caches that forget the least recently used

A cache of at most `cap` entries, the least recently used first. What it has
follows from the keys it was asked for: those that have been asked for with fewer
than `cap` others since (`mem_keys_iff`). A history has the last key first.
-/

namespace Lru

variable {κ β : Type*} [DecidableEq κ]

/-- The entries after `k` is asked for, which has `v` if it is not there. -/
def touch (cap : Nat) (items : List (κ × β)) (k : κ) (v : β) : List (κ × β) :=
  let items := items.filter (·.1 ≠ k) ++ [(k, (items.lookup k).getD v)]
  items.drop (items.length - cap)

def keys (items : List (κ × β)) : List κ := items.map Prod.fst

/-- The keys of a history, each once, the last first. -/
def stack : List κ → List κ
  | [] => []
  | k :: h => k :: (stack h).filter (· ≠ k)

/-- What was asked for after the last `k`. -/
def since (k : κ) (h : List κ) : List κ := h.takeWhile (· ≠ k)

/-- `k` was asked for, and fewer than `cap` others since. -/
def Recent (cap : Nat) (h : List κ) (k : κ) : Prop := k ∈ h ∧ (since k h).toFinset.card < cap

instance (cap : Nat) (h : List κ) (k : κ) : Decidable (Recent cap h k) := inferInstanceAs (Decidable (_ ∧ _))

/-- The cache has the last keys of the history. -/
def Follows (cap : Nat) (h : List κ) (items : List (κ × β)) : Prop := (keys items).reverse = (stack h).take cap

/-! ## The stack -/

@[simp] theorem mem_stack {h : List κ} {k : κ} : k ∈ stack h ↔ k ∈ h := by
  induction h with
  | nil => rfl
  | cons a h ih =>
    simp only [stack, List.mem_cons, List.mem_filter, ih, decide_eq_true_eq]
    constructor
    · exact fun hk => hk.imp_right And.left
    · exact fun hk => (em (k = a)).imp_right fun hne => ⟨hk.resolve_left hne, hne⟩

theorem nodup_stack (h : List κ) : (stack h).Nodup := by
  induction h with
  | nil => exact .nil
  | cons a h ih => exact List.nodup_cons.mpr ⟨by simp, ih.filter _⟩

theorem length_stack (h : List κ) : (stack h).length = h.toFinset.card := by
  rw [← List.toFinset_card_of_nodup (nodup_stack h)]
  congr 1
  ext k
  simp

/-- What was asked for after the last `k` is before it in the stack. -/
theorem stack_append {k : κ} {ys zs : List κ} (hk : k ∉ ys) : ∃ rest, stack (ys ++ k :: zs) = stack ys ++ k :: rest := by
  induction ys with
  | nil => exact ⟨_, rfl⟩
  | cons y ys ih =>
    obtain ⟨hne, hk⟩ := not_or.mp (List.mem_cons.not.mp hk)
    obtain ⟨rest, hrest⟩ := ih hk
    refine ⟨rest.filter (· ≠ y), ?_⟩
    rw [List.cons_append, stack, hrest, List.filter_append, List.filter_cons_of_pos (by simpa using hne)]
    rfl

theorem exists_since {k : κ} {h : List κ} (hk : k ∈ h) : ∃ zs, h = since k h ++ k :: zs := by
  unfold since
  induction h with
  | nil => cases hk
  | cons a h ih =>
    by_cases ha : a = k
    · subst ha
      exact ⟨h, by simp⟩
    · obtain ⟨zs, hzs⟩ := ih ((List.mem_cons.mp hk).resolve_left (Ne.symm ha))
      refine ⟨zs, ?_⟩
      rw [List.takeWhile_cons_of_pos (by simpa using ha), List.cons_append, ← hzs]

theorem not_mem_since (k : κ) (h : List κ) : k ∉ since k h := fun hk => by
  simpa using List.mem_takeWhile_imp hk

theorem mem_since_cons_self {k a : κ} (h : k ≠ a) (ks : List κ) : a ∈ since k (a :: ks) := by
  rw [since, List.takeWhile_cons_of_pos (by simpa using h.symm)]
  exact List.mem_cons_self

theorem mem_since_cons {k a b : κ} (h : k ≠ a) {ks : List κ} (hb : b ∈ since k ks) : b ∈ since k (a :: ks) := by
  rw [since, List.takeWhile_cons_of_pos (by simpa using h.symm)]
  exact List.mem_cons_of_mem a hb

theorem mem_take_stack {cap : Nat} {h : List κ} {k : κ} : k ∈ (stack h).take cap ↔ Recent cap h k := by
  unfold Recent
  by_cases hk : k ∈ h
  · rw [and_iff_right hk, ← length_stack]
    obtain ⟨zs, hzs⟩ := exists_since hk
    obtain ⟨rest, hrest⟩ := @stack_append κ _ k (since k h) zs (not_mem_since k h)
    rw [← hzs] at hrest
    rw [hrest, List.take_append, List.mem_append]
    constructor
    · rintro (hm | hm)
      · exact absurd (mem_stack.mp (List.mem_of_mem_take hm)) (not_mem_since k h)
      · by_contra hle
        rw [Nat.sub_eq_zero_of_le (Nat.le_of_not_lt hle)] at hm
        cases hm
    · intro hlt
      obtain ⟨n, hn⟩ := Nat.exists_eq_add_of_lt hlt
      refine .inr ?_
      rw [hn, Nat.add_assoc, Nat.add_sub_cancel_left]
      exact List.mem_cons_self
  · exact iff_of_false (fun hm => hk (mem_stack.mp (List.mem_of_mem_take hm))) fun hm => hk hm.1

theorem toFinset_subset {xs ys : List κ} (h : xs ⊆ ys) : xs.toFinset ⊆ ys.toFinset := fun _ hx =>
  List.mem_toFinset.mpr (h (List.mem_toFinset.mp hx))

/-- Keys that follow from others are not more. -/
theorem card_map_le {γ ι : Type*} [DecidableEq ι] {f : γ → κ} {g : γ → ι} {ys : List γ}
    (hfg : ∀ y ∈ ys, ∀ z ∈ ys, f y = f z → g y = g z) : (ys.map g).toFinset.card ≤ (ys.map f).toFinset.card := by
  induction ys with
  | nil => exact Nat.le_refl 0
  | cons y ys ih =>
    have ih := ih fun w hw z hz => hfg w (List.mem_cons_of_mem y hw) z (List.mem_cons_of_mem y hz)
    rw [List.map_cons, List.map_cons, List.toFinset_cons, List.toFinset_cons]
    by_cases hy : f y ∈ (ys.map f).toFinset
    · obtain ⟨z, hz, he⟩ := List.mem_map.mp (List.mem_toFinset.mp hy)
      have hg : g y ∈ (ys.map g).toFinset := by
        rw [hfg y List.mem_cons_self z (List.mem_cons_of_mem y hz) he.symm]
        exact List.mem_toFinset.mpr (List.mem_map_of_mem hz)
      rw [Finset.insert_eq_of_mem hg, Finset.insert_eq_of_mem hy]
      exact ih
    · rw [Finset.card_insert_of_notMem hy]
      exact (Finset.card_insert_le _ _).trans (Nat.succ_le_succ ih)

/-- A history told by keys that follow from others: what is recent by these is so
by the former. -/
theorem Recent.coarser {γ ι : Type*} [DecidableEq ι] {f : γ → κ} {g : γ → ι} {h : List γ} {x : γ}
    (hfg : ∀ y ∈ h, ∀ z ∈ h, f y = f z → g y = g z) (hx : x ∈ h) {cap : Nat} (hr : Recent cap (h.map f) (f x)) :
    Recent cap (h.map g) (g x) := by
  have hg : since (g x) (h.map g) = (h.takeWhile (g · ≠ g x)).map g := List.takeWhile_map
  have hf : since (f x) (h.map f) = (h.takeWhile (f · ≠ f x)).map f := List.takeWhile_map
  have hsub : ∀ ys ⊆ h, (ys.takeWhile (g · ≠ g x)) ⊆ (ys.takeWhile (f · ≠ f x)) := by
    intro ys
    induction ys with
    | nil => exact fun _ => List.Subset.refl _
    | cons y ys ih =>
      intro hys
      obtain ⟨hy, hys⟩ := List.cons_subset.mp hys
      by_cases hgy : g y = g x
      · rw [List.takeWhile_cons_of_neg (by simpa using hgy)]
        exact List.nil_subset _
      · have hfy : f y ≠ f x := fun he => hgy (hfg y hy x hx he)
        rw [List.takeWhile_cons_of_pos (by simpa using hgy), List.takeWhile_cons_of_pos (by simpa using hfy)]
        exact List.cons_subset_cons y (ih hys)
  refine ⟨List.mem_map_of_mem hx, Nat.lt_of_le_of_lt ?_ hr.2⟩
  have hin : h.takeWhile (g · ≠ g x) ⊆ h := List.takeWhile_subset _
  rw [hg, hf]
  calc ((h.takeWhile (g · ≠ g x)).map g).toFinset.card
      ≤ ((h.takeWhile (g · ≠ g x)).map f).toFinset.card := card_map_le fun y hy z hz => hfg y (hin hy) z (hin hz)
    _ ≤ ((h.takeWhile (f · ≠ f x)).map f).toFinset.card :=
      Finset.card_le_card (toFinset_subset (List.map_subset f (hsub h (List.Subset.refl h))))

/-- With at most as many keys as the capacity, all that were asked for are recent. -/
theorem recent_of_card_le {cap : Nat} {h : List κ} (hc : h.toFinset.card ≤ cap) {k : κ} (hk : k ∈ h) : Recent cap h k := by
  refine ⟨hk, Nat.lt_of_lt_of_le (Finset.card_lt_card ?_) hc⟩
  have hsub : (since k h).toFinset ⊆ h.toFinset := toFinset_subset (List.takeWhile_subset _)
  refine (Finset.ssubset_iff_of_subset hsub).mpr ⟨k, List.mem_toFinset.mpr hk, fun hs => ?_⟩
  exact not_mem_since k h (List.mem_toFinset.mp hs)

/-! ## The entries -/

theorem take_filter_take {n : Nat} {k : κ} {xs : List κ} (hn : xs.Nodup) :
    ((xs.take (n + 1)).filter (· ≠ k)).take n = (xs.filter (· ≠ k)).take n := by
  induction xs generalizing n with
  | nil => rfl
  | cons x xs ih =>
    obtain ⟨hx, hn⟩ := List.nodup_cons.mp hn
    rw [List.take_succ_cons]
    by_cases hk : x = k
    · subst hk
      have hall (ys : List κ) (hy : x ∉ ys) : ys.filter (· ≠ x) = ys :=
        List.filter_eq_self.mpr fun y hm => by
          simpa using fun he : y = x => hy (he ▸ hm)
      rw [List.filter_cons_of_neg (by simp), List.filter_cons_of_neg (by simp), hall _ hx,
        hall _ fun hm => hx (List.mem_of_mem_take hm), List.take_take, Nat.min_self]
    · rw [List.filter_cons_of_pos (by simpa using hk), List.filter_cons_of_pos (by simpa using hk)]
      cases n with
      | zero => rfl
      | succ n => rw [List.take_succ_cons, List.take_succ_cons, ih hn]

omit [DecidableEq κ] in
theorem take_length_sub (xs : List κ) (n : Nat) : xs.take (xs.length - (xs.length - n)) = xs.take n := by
  rcases Nat.le_total n xs.length with hle | hle
  · rw [Nat.sub_sub_self hle]
  · rw [Nat.sub_eq_zero_of_le hle, Nat.sub_zero, List.take_length, List.take_of_length_le hle]

theorem keys_touch (cap : Nat) (items : List (κ × β)) (k : κ) (v : β) :
    (keys (touch cap items k v)).reverse = (k :: (keys items).reverse.filter (· ≠ k)).take cap := by
  have hmap : (items.filter (·.1 ≠ k)).map Prod.fst = (keys items).filter (· ≠ k) := by
    unfold keys
    rw [List.filter_map]
    rfl
  have hall : ((items.filter (·.1 ≠ k) ++ [(k, (items.lookup k).getD v)]).map Prod.fst).reverse =
      k :: (keys items).reverse.filter (· ≠ k) := by
    rw [List.map_append, hmap, List.reverse_append, ← List.filter_reverse]
    rfl
  unfold touch keys at *
  dsimp only
  rw [List.map_drop, List.reverse_drop, hall, List.length_map]
  have hlen := congrArg List.length hall
  rw [List.length_reverse, List.length_map] at hlen
  rw [hlen]
  exact take_length_sub _ cap

theorem Follows.touch {cap : Nat} {h : List κ} {items : List (κ × β)} (hf : Follows cap h items) (k : κ) (v : β) :
    Follows cap (k :: h) (touch cap items k v) := by
  unfold Follows
  rw [keys_touch, hf, stack]
  cases cap with
  | zero => rfl
  | succ n => rw [List.take_succ_cons, List.take_succ_cons, take_filter_take (nodup_stack h)]

theorem Follows.nil (cap : Nat) : Follows cap [] ([] : List (κ × β)) := by
  exact List.take_nil.symm

/-- The cache has the keys that were asked for with fewer than `cap` others since. -/
theorem mem_keys_iff {cap : Nat} {h : List κ} {items : List (κ × β)} (hf : Follows cap h items) {k : κ} :
    k ∈ keys items ↔ Recent cap h k := by
  rw [← List.mem_reverse, hf, mem_take_stack]

theorem Follows.nodup {cap : Nat} {h : List κ} {items : List (κ × β)} (hf : Follows cap h items) : (keys items).Nodup := by
  rw [← List.nodup_reverse, hf]
  exact (nodup_stack h).sublist (List.take_sublist _ _)

theorem Follows.length_le {cap : Nat} {h : List κ} {items : List (κ × β)} (hf : Follows cap h items) :
    items.length ≤ cap := by
  have hlen := congrArg List.length hf
  rw [List.length_reverse, keys, List.length_map, List.length_take] at hlen
  omega

theorem mem_of_lookup {items : List (κ × β)} {k : κ} {v : β} (h : items.lookup k = some v) : (k, v) ∈ items := by
  obtain ⟨xs, ys, rfl, -⟩ := List.lookup_eq_some_iff.mp h
  exact List.mem_append_right xs List.mem_cons_self

theorem lookup_eq_none_iff {items : List (κ × β)} {k : κ} : items.lookup k = none ↔ k ∉ keys items := by
  rw [List.lookup_eq_none_iff, keys, List.mem_map]
  constructor
  · rintro h ⟨e, he, rfl⟩
    exact absurd (h e he) (by simp)
  · exact fun h e he => by simpa using fun heq : k = e.1 => h ⟨e, he, heq.symm⟩

/-- An entry is that of the key that is asked for, or it was there. -/
theorem mem_touch {cap : Nat} {items : List (κ × β)} {k : κ} {v : β} {e : κ × β} (he : e ∈ touch cap items k v) :
    e = (k, (items.lookup k).getD v) ∨ e ∈ items ∧ e.1 ≠ k := by
  unfold touch at he
  rcases List.mem_append.mp (List.mem_of_mem_drop he) with he | he
  · exact .inr (by simpa using List.mem_filter.mp he)
  · exact .inl (List.mem_singleton.mp he)

/-- An entry was there, or is new. -/
theorem mem_or_of_mem_touch {cap : Nat} {items : List (κ × β)} {k : κ} {v : β} {e : κ × β} (he : e ∈ touch cap items k v) :
    e ∈ items ∨ e = (k, v) := by
  rcases mem_touch he with rfl | ⟨he, -⟩
  · cases hl : items.lookup k with
    | none => exact .inr rfl
    | some w => exact .inl (mem_of_lookup hl)
  · exact .inl he

/-- The entry of a key that is still there is the same. -/
theorem mem_touch_of_mem {cap : Nat} {items : List (κ × β)} {k : κ} {v : β} (hn : (keys items).Nodup)
    {e : κ × β} (he : e ∈ items) (hmem : e.1 ∈ keys (touch cap items k v)) : e ∈ touch cap items k v := by
  obtain ⟨e', he', heq⟩ := List.mem_map.mp hmem
  rcases mem_or_of_mem_touch he' with hold | rfl
  · have hsame : e' = e := List.inj_on_of_nodup_map hn hold he heq
    exact hsame ▸ he'
  · rcases mem_touch he' with hself | ⟨-, hne⟩
    · cases hl : items.lookup k with
      | none => exact absurd (List.mem_map.mpr ⟨e, he, heq.symm⟩) (lookup_eq_none_iff.mp hl)
      | some w =>
        have hsame : e = (k, w) := List.inj_on_of_nodup_map hn he (mem_of_lookup hl) heq.symm
        rw [hl] at hself
        rw [hsame]
        exact hself ▸ he'
    · exact absurd rfl hne

/-- What is asked for is there, if there is room. -/
theorem mem_touch_self {cap : Nat} (hcap : 0 < cap) (items : List (κ × β)) (k : κ) (v : β) :
    (k, (items.lookup k).getD v) ∈ touch cap items k v := by
  unfold touch
  dsimp only
  rw [List.drop_append_of_le_length]
  · exact List.mem_append_right _ List.mem_cons_self
  · rw [List.length_append, List.length_singleton]
    omega

end Lru
