import Netspy.Impl.DedupFacade

/-!
# What counts as the same to `Dedup`

Two values have one key exactly if they are `Alike`: the order of the members of dicts makes
no difference, however deep, but everything else does; only a string counts as the data that
it is the JSON text of. So an exact filter knows of each value whether one like it has been
added (`dedup_tells_alike`).
-/

namespace Netspy

namespace Dedup

open Json (Reordered)

inductive Alike : Json → Json → Prop
  | reordered {v w : Json} (h : Reordered v w) : Alike v w
  | ofText {s : String} {v : Json} (h : ∀ t, v ≠ .str t) (hs : s = v.sortKeys.dumps) : Alike (.str s) v
  | toText {s : String} {v : Json} (h : ∀ t, v ≠ .str t) (hs : s = v.sortKeys.dumps) : Alike v (.str s)

variable {v w : Json} {s : String}

theorem text_of_not_str (h : ∀ t, v ≠ .str t) : text v = v.sortKeys.dumps := by
  cases v with
  | str s => exact absurd rfl (h s)
  | _ => rfl

theorem eq_of_reordered_str (h : Reordered (.str s) w) : w = .str s := by
  have hs : Json.str s = w.sortKeys := h.sortKeys_eq trivial
  cases w with
  | str t => exact hs.symm
  | _ => cases hs

theorem text_reordered (hv : v.WF) (h : Reordered v w) : text v = text w := by
  by_cases hs : ∃ s, v = .str s
  · obtain ⟨s, rfl⟩ := hs
    rw [eq_of_reordered_str h]
  · have hw : ∀ t, w ≠ .str t := by
      rintro t rfl
      exact hs ⟨t, eq_of_reordered_str h.symm⟩
    rw [text_of_not_str (not_exists.mp hs), text_of_not_str hw, h.sortKeys_eq hv]

theorem text_eq_iff (hv : v.WF) (hw : w.WF) : text v = text w ↔ Alike v w := by
  constructor
  · intro h
    by_cases hs : ∃ s, v = .str s
    · obtain ⟨s, rfl⟩ := hs
      by_cases ht : ∃ t, w = .str t
      · obtain ⟨t, rfl⟩ := ht
        have hst : s = t := h
        exact hst ▸ .reordered (.refl _)
      · exact .ofText (not_exists.mp ht) (h.trans (text_of_not_str (not_exists.mp ht)))
    · have hv' := text_of_not_str (not_exists.mp hs)
      by_cases ht : ∃ t, w = .str t
      · obtain ⟨t, rfl⟩ := ht
        exact .toText (not_exists.mp hs) (h.symm.trans hv')
      · rw [hv', text_of_not_str (not_exists.mp ht)] at h
        exact .reordered ((Json.dumps_sortKeys_iff hv hw).mp h)
  · intro h
    cases h with
    | reordered h => exact text_reordered hv h
    | ofText h hs => exact hs.trans (text_of_not_str h).symm
    | toText h hs => exact (text_of_not_str h).trans hs.symm

/-! ## Runs -/

variable {φ : Type} [Filter φ] {md5 : String → String} {values : List Json}

omit [Filter φ] in
theorem key_eq_iff (d : Dedup φ) (hmd5 : md5 (text v) = md5 (text w) → text v = text w) :
    d.key md5 v = d.key md5 w ↔ text v = text w := by
  unfold key
  cases d.toMd5 with
  | false => exact Iff.rfl
  | true => exact ⟨hmd5, congrArg md5⟩

theorem addAll_toMd5 (d : Dedup φ) (values : List Json) : (d.addAll md5 values).toMd5 = d.toMd5 := by
  induction values generalizing d with
  | nil => rfl
  | cons v values ih => exact ih (d.add md5 v).2

theorem key_addAll (d : Dedup φ) (values : List Json) (v : Json) : (d.addAll md5 values).key md5 v = d.key md5 v := by
  unfold key
  rw [addAll_toMd5]

/-- An exact filter has the keys of what was added. -/
theorem mem_addAll {d : Dedup LiteFilter} {k : String} :
    k ∈ (d.addAll md5 values).filter.seen ↔ k ∈ d.filter.seen ∨ ∃ v ∈ values, d.key md5 v = k := by
  induction values generalizing d with
  | nil => simp [addAll]
  | cons v values ih =>
    have hadd : k ∈ (d.add md5 v).2.filter.seen ↔ k = d.key md5 v ∨ k ∈ d.filter.seen :=
      LiteFilter.mem_add d.filter (d.key md5 v) k
    have hrest := ih (d := (d.add md5 v).2)
    show k ∈ ((d.add md5 v).2.addAll md5 values).filter.seen ↔ _
    rw [hrest, hadd, List.exists_mem_cons_iff, or_comm (a := k = _), or_assoc, eq_comm (a := k)]
    rfl

/-- What a filter has recorded stays. -/
theorem contains_addAll [RecordingFilter φ] {d : Dedup φ} {k : String}
    (h : Filter.contains d.filter k = true ∨ ∃ v ∈ values, d.key md5 v = k) :
    Filter.contains (d.addAll md5 values).filter k = true := by
  induction values generalizing d with
  | nil => simpa [addAll] using h
  | cons v values ih =>
    refine ih (d := (d.add md5 v).2) ?_
    rcases h with h | ⟨u, hu, hk⟩
    · exact .inl (RecordingFilter.contains_mono d.filter (d.key md5 v) k h)
    · rcases List.mem_cons.mp hu with rfl | hu
      · exact .inl (hk ▸ RecordingFilter.contains_add d.filter (d.key md5 u))
      · exact .inr ⟨u, hu, hk⟩

/-- Whatever has been added, in whatever order, an exact filter calls a value new exactly if
nothing like it has been added, and contains it exactly if something has; and no filter that
records what is added to it forgets any of them. -/
theorem dedup_tells_alike (toMd5 : Bool) {value : Json} (hvalues : ∀ v ∈ values, v.WF) (hvalue : value.WF)
    (hmd5 : ∀ v ∈ values, md5 (text v) = md5 (text value) → text v = text value) :
    (((({ toMd5, filter := {} } : Dedup LiteFilter).addAll md5 values).add md5 value).1 = true ↔
      ∀ v ∈ values, ¬Alike v value) ∧
      ((({ toMd5, filter := {} } : Dedup LiteFilter).addAll md5 values).get md5 value = true ↔ ∃ v ∈ values, Alike v value) ∧
      ∀ {φ : Type} [Filter φ] [RecordingFilter φ] (d : Dedup φ), (∃ v ∈ values, Alike v value) →
        (d.addAll md5 values).get md5 value = true := by
  have hkey {φ : Type} [Filter φ] (d : Dedup φ) {v : Json} (hv : v ∈ values) :
      d.key md5 v = d.key md5 value ↔ Alike v value :=
    (d.key_eq_iff (hmd5 v hv)).trans (text_eq_iff (hvalues v hv) hvalue)
  have hget : (({ toMd5, filter := {} } : Dedup LiteFilter).addAll md5 values).get md5 value = true ↔
      ∃ v ∈ values, Alike v value := by
    refine decide_eq_true_iff.trans ?_
    rw [key_addAll, mem_addAll]
    constructor
    · rintro (h | ⟨v, hv, hk⟩)
      · cases h
      · exact ⟨v, hv, (hkey _ hv).mp hk⟩
    · rintro ⟨v, hv, h⟩
      exact .inr ⟨v, hv, (hkey _ hv).mpr h⟩
  refine ⟨?_, hget, ?_⟩
  · have hadd : ((({ toMd5, filter := {} } : Dedup LiteFilter).addAll md5 values).add md5 value).1 =
        !(({ toMd5, filter := {} } : Dedup LiteFilter).addAll md5 values).get md5 value := LiteFilter.add_fst _ _
    rw [hadd, Bool.not_eq_true', Bool.eq_false_iff, ne_eq, hget]
    exact ⟨fun h v hv ha => h ⟨v, hv, ha⟩, fun h hex => hex.elim fun v hv => h v hv.1 hv.2⟩
  · rintro φ _ _ d ⟨v, hv, h⟩
    refine contains_addAll (.inr ⟨v, hv, ?_⟩)
    rw [key_addAll]
    exact (hkey d hv).mpr h

/-- `tools.md5`, of the texts of two values. -/
def knownMd5 (text : String) : String :=
  if text = "\x7b\"a\": [1, null], \"b\": 2\x7d" then "d358b6914db8ef4f9dc3b7099e765bac"
  else if text = "\x7b\x7d" then "99914b932bd37a50b983c5e7c90ae93b"
  else ""

/-- `{"b": 2, "a": [1, None]}`, and with its members the other way round. -/
def shuffled : Json := .obj [("b", .int 2), ("a", .arr [.int 1, .null])]

def ordered : Json := .obj [("a", .arr [.int 1, .null]), ("b", .int 2)]

theorem dedup_tells_alike_shuffled :
    ((({ toMd5 := true, filter := {} } : Dedup LiteFilter).addAll knownMd5 [shuffled]).add knownMd5 ordered).1 = false ∧
      ((({ toMd5 := true, filter := {} } : Dedup LiteFilter).addAll knownMd5 [shuffled]).add knownMd5 (.obj [])).1 =
        true := by
  have hshuffled : ∀ v ∈ [shuffled], v.WF := by
    rintro v hv
    cases List.mem_singleton.mp hv
    exact ⟨by decide, trivial, ⟨trivial, trivial, trivial⟩, trivial⟩
  have hordered : ordered.WF := ⟨by decide, ⟨trivial, trivial, trivial⟩, trivial, trivial⟩
  have hempty : (Json.obj []).WF := ⟨List.nodup_nil, trivial⟩
  have hsame : text shuffled = text ordered := by decide +kernel
  have hother : knownMd5 (text shuffled) ≠ knownMd5 (text (.obj [])) := by decide +kernel
  have hmd5 : ∀ v ∈ [shuffled], knownMd5 (text v) = knownMd5 (text ordered) → text v = text ordered := by simp [hsame]
  have hmd5' : ∀ v ∈ [shuffled], knownMd5 (text v) = knownMd5 (text (.obj [])) → text v = text (.obj []) := by simp [hother]
  constructor
  · have hadd := (dedup_tells_alike true hshuffled hordered hmd5).1
    refine Bool.eq_false_iff.mpr fun hnew => hadd.mp hnew shuffled (List.mem_singleton_self _) ?_
    exact .reordered (.members (List.Perm.swap ..))
  · refine (dedup_tells_alike true hshuffled hempty hmd5').1.mpr fun v hv ha => ?_
    cases List.mem_singleton.mp hv
    exact hother (congrArg knownMd5 ((text_eq_iff (hshuffled _ hv) hempty).mpr ha))

end Dedup

end Netspy
