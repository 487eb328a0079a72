import Mathlib.Data.Fintype.EquivFin
import Mathlib.Data.Finset.Dedup
import Netspy.Framework.Assoc
import Netspy.Framework.Fields
import Netspy.Impl.UpdatePipelines

/-!
# Updates that keep to their own records

An update should address only records that hold the item's value for every update key.
If every record does, no two items that differ in a key address the same one
(`own_of_records`). Elasticsearch is addressed by the joined texts of the values, so it
keeps to that exactly if no two key tuples are cut alike by the underscores; MongoDB if
no item lacks a key and no value matches others; a database if its `=` relates no other
values (`updates_own_iff`).
-/

namespace Netspy

variable {σ κ : Type}

/-- Two dicts have the same under every key, or both nothing. -/
def Agree (keys : List String) (a b : Dict) : Prop := ∀ k ∈ keys, a.lookup k = b.lookup k

namespace Agree

variable {keys : List String} {a b c : Dict}

theorem refl (keys : List String) (a : Dict) : Agree keys a a := fun _ _ => rfl

theorem symm (h : Agree keys a b) : Agree keys b a := fun k hk => (h k hk).symm

theorem trans (h : Agree keys a b) (h' : Agree keys b c) : Agree keys a c := fun k hk => (h k hk).trans (h' k hk)

end Agree

/-- Every record that is addressed holds the item's values, and items that differ in a
key address different records. -/
def OwnOnly (keys : List String) (ts : List (Touch κ)) : Prop :=
  (∀ t ∈ ts, Agree keys t.record t.item) ∧ ∀ t ∈ ts, ∀ t' ∈ ts, t.id = t'.id → Agree keys t.item t'.item

/-- What an update does to the record with an id. -/
structure Lawful (keys : List String) (get : σ → κ → Option Dict) (update : σ → Dict → Updated σ κ) : Prop where
  touched : ∀ s item, ∀ t ∈ (update s item).touches,
    t.item = item ∧ (∀ d, get s t.id = some d → t.record = d) ∧
      ∃ d, get (update s item).store t.id = some d ∧ (Agree keys t.record item → Agree keys d item)
  kept : ∀ s item id d, get s id = some d → (∀ t ∈ (update s item).touches, t.id ≠ id) →
    get (update s item).store id = some d

namespace Lawful

variable {keys : List String} {get : σ → κ → Option Dict} {update : σ → Dict → Updated σ κ}

theorem item_mem (hl : Lawful keys get update) {s : σ} {items : List Dict} {t : Touch κ}
    (ht : t ∈ (updateAll update s items).touches) : t.item ∈ items := by
  induction items generalizing s with
  | nil => exact absurd ht List.not_mem_nil
  | cons item items ih =>
    rcases List.mem_append.mp ht with ht | ht
    · exact (hl.touched s item t ht).1 ▸ List.mem_cons_self
    · exact List.mem_cons_of_mem _ (ih ht)

/-- A record holds the values of every item that comes to address it. -/
theorem agree_of_touch (hl : Lawful keys get update) {s : σ} {items : List Dict}
    (hown : ∀ t ∈ (updateAll update s items).touches, Agree keys t.record t.item) {id : κ} {d : Dict}
    (hd : get s id = some d) {t : Touch κ} (ht : t ∈ (updateAll update s items).touches) (hid : t.id = id) :
    Agree keys d t.item := by
  induction items generalizing s d with
  | nil => exact absurd ht List.not_mem_nil
  | cons item items ih =>
    have hfirst : ∀ t ∈ (update s item).touches, Agree keys t.record t.item := fun t h =>
      hown t (List.mem_append_left _ h)
    have hrest : ∀ t ∈ (updateAll update (update s item).store items).touches, Agree keys t.record t.item :=
      fun t h => hown t (List.mem_append_right _ h)
    rcases List.mem_append.mp ht with ht | ht
    · obtain ⟨-, hrec, -⟩ := hl.touched s item t ht
      rw [← hrec d (hid ▸ hd)]
      exact hfirst t ht
    · by_cases hex : ∃ t₀ ∈ (update s item).touches, t₀.id = id
      · -- the record was updated before, and holds that item's values since
        obtain ⟨t₀, ht₀, hid₀⟩ := hex
        obtain ⟨hitem, hrec, d', hd', hown'⟩ := hl.touched s item t₀ ht₀
        have h₀ := hfirst t₀ ht₀
        rw [hitem, hrec d (hid₀ ▸ hd)] at h₀
        have h₁ : Agree keys d' item := hown' (by rw [hrec d (hid₀ ▸ hd)]; exact h₀)
        exact h₀.trans (h₁.symm.trans (ih hrest (hid₀ ▸ hd') ht))
      · exact ih hrest (hl.kept s item id d hd fun t h hid => hex ⟨t, h, hid⟩) ht

/-- If every record holds the values of the item that addresses it, items that share a
record do not differ. -/
theorem own_of_records (hl : Lawful keys get update) {s : σ} {items : List Dict}
    (hown : ∀ t ∈ (updateAll update s items).touches, Agree keys t.record t.item) :
    OwnOnly keys (updateAll update s items).touches := by
  refine ⟨hown, ?_⟩
  induction items generalizing s with
  | nil => exact fun t ht => absurd ht List.not_mem_nil
  | cons item items ih =>
    have hrest : ∀ t ∈ (updateAll update (update s item).store items).touches, Agree keys t.record t.item :=
      fun t h => hown t (List.mem_append_right _ h)
    -- the record of this item, when a later one addresses it
    have hacross : ∀ t ∈ (update s item).touches, ∀ t' ∈ (updateAll update (update s item).store items).touches,
        t.id = t'.id → Agree keys t.item t'.item := by
      intro t ht t' ht' hid
      obtain ⟨hitem, -, d, hd, hown'⟩ := hl.touched s item t ht
      have h₀ := hown t (List.mem_append_left _ ht)
      rw [hitem] at h₀ ⊢
      exact (hown' h₀).symm.trans (hl.agree_of_touch hrest hd ht' hid.symm)
    intro t ht t' ht' hid
    rcases List.mem_append.mp ht with ht | ht <;> rcases List.mem_append.mp ht' with ht' | ht'
    · rw [(hl.touched s item t ht).1, (hl.touched s item t' ht').1]
      exact Agree.refl _ _
    · exact hacross t ht t' ht' hid
    · exact (hacross t' ht' t ht hid.symm).symm
    · exact ih hrest t ht t' ht' hid

end Lawful

theorem updateAll_append (update : σ → Dict → Updated σ κ) (s : σ) (pre post : List Dict) :
    (updateAll update s (pre ++ post)).touches =
      (updateAll update s pre).touches ++ (updateAll update (updateAll update s pre).store post).touches := by
  induction pre generalizing s with
  | nil => rfl
  | cons item pre ih =>
    show _ ++ (updateAll update _ (pre ++ post)).touches = _ ++ _ ++ _
    rw [ih, List.append_assoc]
    rfl

namespace Lawful

variable {keys : List String} {get : σ → κ → Option Dict} {update : σ → Dict → Updated σ κ}

theorem kept_all (hl : Lawful keys get update) {s : σ} {items : List Dict} {id : κ} {d : Dict}
    (hd : get s id = some d) (hno : ∀ t ∈ (updateAll update s items).touches, t.id ≠ id) :
    get (updateAll update s items).store id = some d := by
  induction items generalizing s with
  | nil => exact hd
  | cons item items ih =>
    exact ih (hl.kept s item id d hd fun t h => hno t (List.mem_append_left _ h))
      fun t h => hno t (List.mem_append_right _ h)

/-- A record keeps its values under the keys. -/
theorem agree_all (hl : Lawful keys get update) {s : σ} {items : List Dict} {id : κ} {d : Dict}
    (hd : get s id = some d) (hown : ∀ t ∈ (updateAll update s items).touches, Agree keys t.record t.item) :
    ∃ d', get (updateAll update s items).store id = some d' ∧ Agree keys d d' := by
  induction items generalizing s d with
  | nil => exact ⟨d, hd, Agree.refl _ _⟩
  | cons item items ih =>
    have hrest : ∀ t ∈ (updateAll update (update s item).store items).touches, Agree keys t.record t.item :=
      fun t h => hown t (List.mem_append_right _ h)
    by_cases hex : ∃ t₀ ∈ (update s item).touches, t₀.id = id
    · obtain ⟨t₀, ht₀, rfl⟩ := hex
      obtain ⟨hitem, hrec, d₁, hd₁, hown₁⟩ := hl.touched s item t₀ ht₀
      have h₀ := hown t₀ (List.mem_append_left _ ht₀)
      rw [hitem] at h₀
      have h₁ := hown₁ h₀
      rw [hrec d hd] at h₀
      obtain ⟨d', hd', h'⟩ := ih hd₁ hrest
      exact ⟨d', hd', h₀.trans (h₁.symm.trans h')⟩
    · exact ih (hl.kept s item id d hd fun t h hid => hex ⟨t, h, hid⟩) hrest

end Lawful

theorem lookup_merged (old new : Dict) (k : String) : (old.merged new).lookup k = (new.lookup k).or (old.lookup k) := by
  rw [Dict.merged, List.lookup_append]

theorem Agree.merged {keys : List String} {old new : Dict} (h : Agree keys old new) :
    Agree keys (old.merged new) new := by
  intro k hk
  rw [lookup_merged, h k hk]
  cases new.lookup k <;> rfl

/-! ## Elasticsearch -/

namespace ElasticsearchPipeline

variable (str : PyVal → String) (merge : Dict → Dict → Dict) (keys : List String)

/-- The texts of an item's values, and what is left of them in its id: the pieces
between underscores. -/
def pieces (item : Dict) : List (List Char) :=
  Fields.fields '_' (keys.map fun k => (str ((item.lookup k).getD (.str ""))).toList)

/-- The server leaves a document's values under the keys where the partial one has the
same. -/
def Merges : Prop := ∀ old new, Agree keys old new → Agree keys (merge old new) new

variable {str merge keys}

theorem docId_inj (hkeys : keys ≠ []) (a b : Dict) :
    docId str keys a = docId str keys b ↔ pieces str keys a = pieces str keys b := by
  unfold docId pieces
  rw [← String.toList_inj, String.toList_intercalate, String.toList_intercalate, List.map_map, List.map_map]
  exact Fields.intercalate_inj '_' (by simpa using hkeys) (by simpa using hkeys)

theorem lawful (hmerge : Merges merge keys) :
    Lawful keys (fun (index : String → Option Dict) id => index id) (update str merge keys) := by
  constructor
  · intro index item t ht
    unfold update at ht ⊢
    cases hd : index (docId str keys item) with
    | some doc =>
      simp only [hd] at ht ⊢
      obtain rfl := List.mem_singleton.mp ht
      refine ⟨rfl, fun d h => ?_, merge doc item, Function.update_self .., hmerge doc item⟩
      exact Option.some.inj (hd.symm.trans h)
    | none =>
      simp only [hd] at ht ⊢
      obtain rfl := List.mem_singleton.mp ht
      refine ⟨rfl, fun d h => ?_, item, Function.update_self .., id⟩
      exact absurd (hd.symm.trans h) (by simp)
  · intro index item id d hd hno
    unfold update at hno ⊢
    cases hx : index (docId str keys item) with
    | some doc =>
      simp only [hx] at hno ⊢
      exact (Function.update_of_ne (hno _ (List.mem_singleton_self _)).symm _ _).trans hd
    | none =>
      simp only [hx] at hno ⊢
      exact (Function.update_of_ne (hno _ (List.mem_singleton_self _)).symm _ _).trans hd

variable (str merge keys) in
theorem update_touches (index : String → Option Dict) (item : Dict) :
    ∃ record, (update str merge keys index item).touches = [⟨docId str keys item, item, record⟩] ∧
      (index (docId str keys item) = some record ∨ index (docId str keys item) = none ∧ record = item) := by
  unfold update
  cases hx : index (docId str keys item) with
  | some doc => exact ⟨doc, by simp only [hx], .inl rfl⟩
  | none => exact ⟨item, by simp only [hx], .inr ⟨rfl, rfl⟩⟩

variable (str merge keys) in
/-- Every item addresses a record. -/
theorem exists_touch (index : String → Option Dict) {items : List Dict} {item : Dict} (h : item ∈ items) :
    ∃ t ∈ (updateItems str merge keys index items).touches, t.id = docId str keys item ∧ t.item = item := by
  induction items generalizing index with
  | nil => exact absurd h List.not_mem_nil
  | cons x items ih =>
    rcases List.mem_cons.mp h with rfl | h
    · obtain ⟨record, hts, -⟩ := update_touches str merge keys index item
      exact ⟨⟨_, item, record⟩, List.mem_append_left _ (by rw [hts]; exact List.mem_singleton_self _), rfl, rfl⟩
    · obtain ⟨t, ht, hid⟩ := ih _ h
      exact ⟨t, List.mem_append_right _ ht, hid⟩

/-- If no two items with one id differ, and none from the document with its id, every
record holds the values of its item. -/
theorem agree_records (hmerge : Merges merge keys) (index : String → Option Dict) (items : List Dict)
    (hindex : ∀ id d, index id = some d → ∀ i ∈ items, docId str keys i = id → Agree keys d i)
    (hitems : ∀ a ∈ items, ∀ b ∈ items, docId str keys a = docId str keys b → Agree keys a b) :
    ∀ t ∈ (updateItems str merge keys index items).touches, Agree keys t.record t.item := by
  induction items generalizing index with
  | nil => exact fun t ht => absurd ht List.not_mem_nil
  | cons item items ih =>
    intro t ht
    rcases List.mem_append.mp ht with ht | ht
    · obtain ⟨record, hts, hrec⟩ := update_touches str merge keys index item
      rw [hts] at ht
      obtain rfl := List.mem_singleton.mp ht
      rcases hrec with hrec | ⟨-, rfl⟩
      · exact hindex _ record hrec item List.mem_cons_self rfl
      · exact Agree.refl _ _
    · refine ih _ (fun id d hd i hi hid => ?_)
        (fun a ha b hb => hitems a (List.mem_cons_of_mem _ ha) b (List.mem_cons_of_mem _ hb)) t ht
      have hafter : ∀ i ∈ items, docId str keys i = docId str keys item → Agree keys item i := fun i hi hid =>
        hitems item List.mem_cons_self i (List.mem_cons_of_mem _ hi) hid.symm
      by_cases hne : id = docId str keys item
      · subst hne
        unfold update at hd
        cases hx : index (docId str keys item) with
        | some doc =>
          simp only [hx, Function.update_self] at hd
          cases hd
          exact (hmerge _ _ (hindex _ doc hx item List.mem_cons_self rfl)).trans (hafter i hi hid)
        | none =>
          simp only [hx, Function.update_self] at hd
          cases hd
          exact hafter i hi hid
      · have hold : index id = some d := by
          unfold update at hd
          cases hx : index (docId str keys item) with
          | some doc => simpa only [hx, Function.update_of_ne hne] using hd
          | none => simpa only [hx, Function.update_of_ne hne] using hd
        exact hindex id d hold i (List.mem_cons_of_mem _ hi) hid

/-- An index whose documents have the ids of their own values is updated only where it
should be exactly if no two tuples of values have the same pieces. -/
theorem own_iff (hkeys : keys ≠ []) (hmerge : Merges merge keys) (index : String → Option Dict)
    (hplaced : ∀ id d, index id = some d → docId str keys d = id) (items : List Dict) :
    OwnOnly keys (updateItems str merge keys index items).touches ↔
      (∀ id d, index id = some d → ∀ i ∈ items, pieces str keys d = pieces str keys i → Agree keys d i) ∧
        ∀ a ∈ items, ∀ b ∈ items, pieces str keys a = pieces str keys b → Agree keys a b := by
  constructor
  · rintro ⟨hrec, hsame⟩
    refine ⟨fun id d hd i hi hp => ?_, fun a ha b hb hp => ?_⟩
    · obtain ⟨t, ht, hid, rfl⟩ := exists_touch str merge keys index hi
      refine (lawful hmerge).agree_of_touch hrec hd ht (hid.trans ?_)
      rw [← hplaced id d hd]
      exact ((docId_inj hkeys _ _).mpr hp).symm
    · obtain ⟨t, ht, hid, rfl⟩ := exists_touch str merge keys index ha
      obtain ⟨t', ht', hid', rfl⟩ := exists_touch str merge keys index hb
      exact hsame t ht t' ht' (hid.trans (((docId_inj hkeys _ _).mpr hp).trans hid'.symm))
  · rintro ⟨hindex, hitems⟩
    refine (lawful hmerge).own_of_records (agree_records hmerge index items (fun id d hd i hi hid => ?_)
      fun a ha b hb hid => hitems a ha b hb ((docId_inj hkeys a b).mp hid))
    refine hindex id d hd i hi ((docId_inj hkeys d i).mp ?_)
    rw [hplaced id d hd, hid]

end ElasticsearchPipeline

/-! ## MongoDB -/

instance : Infinite PyVal := Infinite.of_injective PyVal.int fun _ _ => PyVal.int.inj

/-- A value that none of some items has under a key. -/
theorem exists_fresh (items : List Dict) (k : String) : ∃ v : PyVal, ∀ i ∈ items, i.lookup k ≠ some v := by
  obtain ⟨v, hv⟩ := Infinite.exists_notMem_finset (items.filterMap (·.lookup k)).toFinset
  refine ⟨v, fun i hi hk => hv ?_⟩
  rw [List.mem_toFinset]
  exact List.mem_filterMap.mpr ⟨i, hi, hk⟩

namespace MongoPipeline

variable {matchesValue : Option PyVal → PyVal → Bool} {keys : List String}

variable (matchesValue) in
/-- In a filter the value matches only fields that are equal to it. -/
def Sharp (v : PyVal) : Prop := ∀ field, matchesValue field v = true → field = some v

variable (matchesValue) in
/-- Each value of the filter matches some field, or the lack of one. -/
def Answerable (flt : Dict) : Prop := ∀ k ∈ flt.map Prod.fst, ∃ field, matchesValue field (flt.get k) = true

theorem mem_flt_keys {item : Dict} {k : String} (h : k ∈ (flt keys item).map Prod.fst) :
    ∃ v, item.lookup k = some v := by
  unfold flt at h
  split at h
  · rename_i heq
    obtain ⟨kv, hkv, rfl⟩ := List.mem_map.mp h
    have : (item.lookup kv.1).isSome := by
      rw [List.lookup_isSome_iff]
      exact ⟨kv, hkv, by simp⟩
    exact Option.isSome_iff_exists.mp this
  · obtain ⟨kv, hkv, rfl⟩ := List.mem_map.mp h
    obtain ⟨k, -, hk⟩ := List.mem_filterMap.mp hkv
    obtain ⟨v, hv, rfl⟩ := Option.map_eq_some_iff.mp hk
    exact ⟨v, hv⟩

theorem lookup_flt {item : Dict} {k : String} (h : k ∈ (flt keys item).map Prod.fst) :
    (flt keys item).lookup k = item.lookup k := by
  unfold flt at h ⊢
  split
  · rfl
  · rename_i hne
    rw [List.lookup_take_keys]
    split at h
    · rename_i heq
      exact absurd heq hne
    · obtain ⟨kv, hkv, rfl⟩ := List.mem_map.mp h
      obtain ⟨k, hk, hkv⟩ := List.mem_filterMap.mp hkv
      obtain ⟨v, hv, rfl⟩ := Option.map_eq_some_iff.mp hkv
      rw [if_pos hk]

/-- With an update key in the item the filter has the update keys only. -/
theorem flt_of_mem {item : Dict} {k : String} {v : PyVal} (hk : k ∈ keys) (hv : item.lookup k = some v) :
    k ∈ (flt keys item).map Prod.fst ∧ ∀ k' ∈ (flt keys item).map Prod.fst, k' ∈ keys := by
  have hmem : (k, v) ∈ keys.filterMap fun k => (item.lookup k).map (k, ·) :=
    List.mem_filterMap.mpr ⟨k, hk, by rw [hv]; rfl⟩
  unfold flt
  split
  · rename_i heq
    rw [heq] at hmem
    exact absurd hmem List.not_mem_nil
  · refine ⟨List.mem_map.mpr ⟨(k, v), hmem, rfl⟩, fun k' hk' => ?_⟩
    obtain ⟨kv, hkv, rfl⟩ := List.mem_map.mp hk'
    obtain ⟨k, hk, hkv⟩ := List.mem_filterMap.mp hkv
    obtain ⟨v, -, rfl⟩ := Option.map_eq_some_iff.mp hkv
    exact hk

theorem agree_created (item : Dict) : Agree keys ((flt keys item).merged item) item := by
  intro k hk
  rw [lookup_merged]
  cases hi : item.lookup k with
  | some v => rfl
  | none =>
    cases hf : (flt keys item).lookup k with
    | none => rfl
    | some v =>
      have hmem : k ∈ (flt keys item).map Prod.fst := by
        obtain ⟨kv, hkv, he⟩ := List.lookup_isSome_iff.mp (Option.isSome_of_mem hf)
        exact List.mem_map.mpr ⟨kv, hkv, (beq_iff_eq.mp he).symm⟩
      rw [lookup_flt hmem, hi] at hf
      cases hf

theorem lawful : Lawful keys (fun (docs : List Dict) i => docs[i]?) (update matchesValue keys) := by
  constructor
  · intro docs item t ht
    unfold update at ht ⊢
    cases hf : docs.findIdx? (matchesDoc matchesValue (flt keys item)) with
    | some i =>
      simp only [hf] at ht ⊢
      obtain rfl := List.mem_singleton.mp ht
      have hlt := (List.findIdx?_eq_some_iff_getElem.mp hf).1
      refine ⟨rfl, fun d hd => ?_, (docs.getD i []).merged item, ?_, Agree.merged⟩
      · simp only [List.getD_eq_getElem?_getD, show docs[i]? = some d from hd, Option.getD_some]
      · show (docs.modify i (Dict.merged · item))[i]? = some ((docs.getD i []).merged item)
        rw [List.getElem?_modify, List.getD_eq_getElem?_getD, List.getElem?_eq_getElem hlt]
        simp
    | none =>
      simp only [hf] at ht ⊢
      obtain rfl := List.mem_singleton.mp ht
      refine ⟨rfl, fun d hd => ?_, (flt keys item).merged item, by simp, id⟩
      simp at hd
  · intro docs item i d hd hno
    unfold update at hno ⊢
    cases hf : docs.findIdx? (matchesDoc matchesValue (flt keys item)) with
    | some j =>
      simp only [hf] at hno ⊢
      have hne : j ≠ i := hno _ (List.mem_singleton_self _)
      rw [List.getElem?_modify]
      simpa [hne] using hd
    | none =>
      simp only [hf] at hno ⊢
      rw [List.getElem?_append_left (List.getElem?_eq_some_iff.mp hd).1]
      exact hd

/-- The first document is the one that is updated if it matches. -/
theorem update_head {docs : List Dict} {d : Dict} (hd : docs[0]? = some d) {item : Dict}
    (hm : matchesDoc matchesValue (flt keys item) d = true) :
    (update matchesValue keys docs item).touches = [⟨0, item, d⟩] := by
  cases docs with
  | nil => cases hd
  | cons x docs =>
    cases hd
    unfold update
    simp [List.findIdx?_cons, hm]

theorem matchesDoc_iff {flt doc : Dict} :
    matchesDoc matchesValue flt doc = true ↔ ∀ k ∈ flt.map Prod.fst, matchesValue (doc.lookup k) (flt.get k) = true :=
  List.all_eq_true

/-- If every item whose filter some document meets has every update key, with a value
that matches only itself, every record holds the values of its item. -/
theorem agree_records (docs : List Dict) {items : List Dict}
    (hitems : ∀ i ∈ items, Answerable matchesValue (flt keys i) →
      ∀ k ∈ keys, ∃ v, i.lookup k = some v ∧ Sharp matchesValue v) :
    ∀ t ∈ (updateItems matchesValue keys docs items).touches, Agree keys t.record t.item := by
  induction items generalizing docs with
  | nil => exact fun t ht => absurd ht List.not_mem_nil
  | cons item items ih =>
    intro t ht
    rcases List.mem_append.mp ht with ht | ht
    · unfold update at ht
      cases hf : docs.findIdx? (matchesDoc matchesValue (flt keys item)) with
      | some i =>
        simp only [hf] at ht
        obtain rfl := List.mem_singleton.mp ht
        intro k hk
        obtain ⟨hlt, hm, -⟩ := List.findIdx?_eq_some_iff_getElem.mp hf
        have hanswer : Answerable matchesValue (flt keys item) := fun k hk => ⟨_, matchesDoc_iff.mp hm k hk⟩
        obtain ⟨v, hv, hsharp⟩ := hitems item List.mem_cons_self hanswer k hk
        have hin := (flt_of_mem hk hv).1
        have hmatch := matchesDoc_iff.mp hm k hin
        rw [Dict.get, lookup_flt hin, hv] at hmatch
        show (docs.getD i []).lookup k = item.lookup k
        rw [List.getD_eq_getElem?_getD, List.getElem?_eq_getElem hlt, hv]
        exact hsharp _ hmatch
      | none =>
        simp only [hf] at ht
        obtain rfl := List.mem_singleton.mp ht
        exact agree_created item
    · exact ih _ (fun i hi => hitems i (List.mem_cons_of_mem _ hi)) t ht

/-- After some items that address their own records, the next one addresses the first
document if it matches. -/
theorem agree_head {pre post : List Dict} {item d d' : Dict}
    (hown : OwnOnly keys (updateItems matchesValue keys [d] (pre ++ item :: post)).touches)
    (hd' : (updateItems matchesValue keys [d] pre).store[0]? = some d')
    (hm : matchesDoc matchesValue (flt keys item) d' = true) : Agree keys d' item := by
  unfold updateItems at hown hd'
  rw [updateAll_append] at hown
  refine hown.1 ⟨0, item, d'⟩ (List.mem_append_right _ (List.mem_append_left _ ?_))
  rw [update_head hd' hm]
  exact List.mem_singleton_self _

/-- A document with a field that the filter of an item matches, under each of its keys,
and another field under one key. -/
theorem exists_answer {flt : Dict} (h : Answerable matchesValue flt) (k : String) (field : Option PyVal) :
    ∃ d : Dict, d.lookup k = field ∧
      ∀ k' ∈ flt.map Prod.fst, k' ≠ k → matchesValue (d.lookup k') (flt.get k') = true := by
  choose! f hf using h
  refine ⟨(k :: flt.map Prod.fst).filterMap fun k' => (Function.update f k field k').map (k', ·), ?_, fun k' hk' hne => ?_⟩
  · rw [List.lookup_take_keys, if_pos List.mem_cons_self, Function.update_self]
  · rw [List.lookup_take_keys, if_pos (List.mem_cons_of_mem _ hk'), Function.update_of_ne hne]
    exact hf k' hk'

/-- A collection is updated only where it should be, whatever is in it, exactly if
every item whose filter some document meets has every update key, with a value that
matches only itself. -/
theorem own_iff (items : List Dict) :
    (∀ docs, OwnOnly keys (updateItems matchesValue keys docs items).touches) ↔
      ∀ i ∈ items, Answerable matchesValue (flt keys i) →
        ∀ k ∈ keys, ∃ v, i.lookup k = some v ∧ Sharp matchesValue v := by
  refine ⟨fun h item hitem hanswer k hk => ?_, fun h docs => lawful.own_of_records (agree_records docs h)⟩
  obtain ⟨pre, post, rfl⟩ := List.append_of_mem hitem
  have hl : Lawful keys (fun (docs : List Dict) i => docs[i]?) (update matchesValue keys) := lawful
  have hpre : ∀ d, ∀ t ∈ (updateItems matchesValue keys [d] pre).touches, Agree keys t.record t.item := by
    intro d t ht
    have hown := (h [d]).1
    unfold updateItems at hown
    rw [updateAll_append] at hown
    exact hown t (List.mem_append_left _ ht)
  cases hv : item.lookup k with
  | none =>
    -- a document that meets the filter, with a value under the key that no item has
    obtain ⟨v, hfresh⟩ := exists_fresh (pre ++ item :: post) k
    obtain ⟨d, hdk, hother⟩ := exists_answer hanswer k (some v)
    have hno : ∀ t ∈ (updateItems matchesValue keys [d] pre).touches, t.id ≠ 0 := by
      intro t ht hid
      have hag := hl.agree_of_touch (hpre d) (show [d][0]? = some d from rfl) ht hid k hk
      rw [hdk] at hag
      refine hfresh t.item (List.mem_append_left _ ?_) hag.symm
      exact hl.item_mem ht
    have hd := hl.kept_all (show [d][0]? = some d from rfl) hno
    have hm : matchesDoc matchesValue (flt keys item) d = true := by
      refine matchesDoc_iff.mpr fun k' hk' => hother k' hk' ?_
      rintro rfl
      obtain ⟨v', hv'⟩ := mem_flt_keys hk'
      rw [hv] at hv'
      cases hv'
    have hag := agree_head (h [d]) hd hm k hk
    rw [hdk, hv] at hag
    cases hag
  | some v =>
    refine ⟨v, rfl, fun field hmatch => ?_⟩
    -- a document that meets the filter, with this field under the key
    obtain ⟨d, hdk, hother⟩ := exists_answer hanswer k field
    obtain ⟨d', hd', hag⟩ := hl.agree_all (show [d][0]? = some d from rfl) (hpre d)
    have hm : matchesDoc matchesValue (flt keys item) d' = true := by
      refine matchesDoc_iff.mpr fun k' hk' => ?_
      rw [← hag k' ((flt_of_mem hk hv).2 k' hk')]
      by_cases hne : k' = k
      · subst hne
        rw [hdk, Dict.get, lookup_flt hk', hv]
        exact hmatch
      · exact hother k' hk' hne
    have hfin := agree_head (h [d]) hd' hm k hk
    rw [← hag k hk, hdk, hv] at hfin
    exact hfin

end MongoPipeline

/-! ## SQL -/

namespace SqlPipeline

variable {eq : PyVal → PyVal → Bool} {keys : List String}

theorem mem_touches {rows : List Dict} {item : Dict} {t : Touch Nat} :
    t ∈ (update eq keys rows item).touches ↔
      setCols keys item ≠ [] ∧ t.item = item ∧ rows[t.id]? = some t.record ∧
        matchesRow eq keys item t.record = true := by
  unfold update
  by_cases hs : setCols keys item = []
  · simp [hs]
  · rw [if_neg hs]
    constructor
    · intro ht
      obtain ⟨⟨row, i⟩, hr, rfl⟩ := List.mem_map.mp ht
      obtain ⟨hr, hm⟩ := List.mem_filter.mp hr
      exact ⟨hs, rfl, List.mem_zipIdx_iff_getElem?.mp hr, hm⟩
    · rintro ⟨-, rfl, hr, hm⟩
      exact List.mem_map.mpr ⟨(t.record, t.id), List.mem_filter.mpr ⟨List.mem_zipIdx_iff_getElem?.mpr hr, hm⟩, rfl⟩

/-- Setting the other columns leaves the keys. -/
theorem lookup_set {item : Dict} {k : String} (hk : k ∈ keys) (row : Dict) :
    (row.merged ((setCols keys item).map fun c => (c, item.get c))).lookup k = row.lookup k := by
  have hno : ((setCols keys item).map fun c => (c, item.get c)).lookup k = none := by
    rw [List.lookup_eq_none_iff]
    intro kv hkv
    obtain ⟨c, hc, rfl⟩ := List.mem_map.mp hkv
    have hne : c ∉ keys := by simpa using (List.mem_filter.mp hc).2
    refine bne_iff_ne.mpr ?_
    rintro rfl
    exact hne hk
  rw [lookup_merged, hno, Option.none_or]

theorem store_get (rows : List Dict) (item : Dict) (i : Nat) :
    (update eq keys rows item).store[i]? =
      (rows[i]?).map fun row =>
        if setCols keys item ≠ [] ∧ matchesRow eq keys item row = true then
          row.merged ((setCols keys item).map fun c => (c, item.get c))
        else row := by
  unfold update
  by_cases hs : setCols keys item = []
  · simp [hs]
  · rw [if_neg hs]
    simp [hs]

theorem lawful : Lawful keys (fun (rows : List Dict) i => rows[i]?) (update eq keys) := by
  constructor
  · intro rows item t ht
    obtain ⟨hs, hitem, hrow, hm⟩ := mem_touches.mp ht
    refine ⟨hitem, fun d hd => Option.some.inj (hrow.symm.trans hd),
      t.record.merged ((setCols keys item).map fun c => (c, item.get c)), ?_, ?_⟩
    · show (update eq keys rows item).store[t.id]? = some _
      rw [store_get, hrow, Option.map_some, if_pos ⟨hs, hm⟩]
    · exact fun h k hk => (lookup_set hk _).trans (h k hk)
  · intro rows item i d hd hno
    have hm : ¬ (setCols keys item ≠ [] ∧ matchesRow eq keys item d = true) := fun h =>
      hno ⟨i, item, d⟩ (mem_touches.mpr ⟨h.1, rfl, hd, h.2⟩) rfl
    show (update eq keys rows item).store[i]? = some d
    rw [store_get, show rows[i]? = some d from hd, Option.map_some, if_neg hm]

theorem matchesRow_congr {item row row' : Dict} (h : Agree keys row row') :
    matchesRow eq keys item row = matchesRow eq keys item row' := by
  have hget : ∀ k ∈ keys, row.get k = row'.get k := fun k hk => by
    rw [Dict.get, Dict.get, h k hk]
  unfold matchesRow
  rw [Bool.eq_iff_iff, List.all_eq_true, List.all_eq_true]
  exact forall₂_congr fun k hk => by rw [hget k hk]

variable (eq keys) in
/-- If each of the item's values is `=` to some, none of them is to one that it is not. -/
def Sharp (item : Dict) : Prop :=
  (∀ k ∈ keys, item.get k ≠ .none ∧ ∃ w, w ≠ .none ∧ eq w (item.get k) = true) →
    ∀ k ∈ keys, ∀ w, w ≠ .none → eq w (item.get k) = true → item.lookup k = some w

theorem matchesRow_iff {item row : Dict} : matchesRow eq keys item row = true ↔
    ∀ k ∈ keys, row.get k ≠ .none ∧ item.get k ≠ .none ∧ eq (row.get k) (item.get k) = true := by
  simp only [matchesRow, List.all_eq_true, Bool.and_eq_true, bne_iff_ne, ne_eq, and_assoc]

theorem lookup_of_get {row : Dict} {k : String} (h : row.get k ≠ .none) : row.lookup k = some (row.get k) := by
  cases hr : row.lookup k with
  | none => exact absurd (by rw [Dict.get, hr]; rfl) h
  | some v => rw [Dict.get, hr]; rfl

/-- `WHERE` holds of a row with any values that the `=` of each key allows. -/
theorem sharp_iff {item : Dict} :
    Sharp eq keys item ↔ ∀ row, matchesRow eq keys item row = true → Agree keys row item := by
  constructor
  · intro h row hm k hk
    have hrow := matchesRow_iff.mp hm
    have hex : ∀ k ∈ keys, item.get k ≠ .none ∧ ∃ w, w ≠ .none ∧ eq w (item.get k) = true := fun k hk =>
      ⟨(hrow k hk).2.1, row.get k, (hrow k hk).1, (hrow k hk).2.2⟩
    rw [lookup_of_get (hrow k hk).1, h hex k hk _ (hrow k hk).1 (hrow k hk).2.2]
  · intro h hex k hk w hw heq
    choose! hitem f hf using hex
    let row : Dict := keys.filterMap fun k' => (some (Function.update f k w k')).map (k', ·)
    have hrow : ∀ k' ∈ keys, row.lookup k' = some (Function.update f k w k') := fun k' hk' => by
      rw [List.lookup_take_keys, if_pos hk']
    have hm : matchesRow eq keys item row = true := by
      refine matchesRow_iff.mpr fun k' hk' => ?_
      rw [Dict.get, hrow k' hk', Option.getD_some]
      by_cases hne : k' = k
      · subst hne
        rw [Function.update_self]
        exact ⟨hw, hitem k' hk', heq⟩
      · rw [Function.update_of_ne hne]
        exact ⟨(hf k' hk').1, hitem k' hk', (hf k' hk').2⟩
    rw [← h row hm k hk, hrow k hk, Function.update_self]

/-- A table is updated only where it should be, whatever is in it, exactly if the `=` of
the database tells the values of every item that sets something from all others. -/
theorem own_iff (items : List Dict) :
    (∀ rows, OwnOnly keys (updateItems eq keys rows items).touches) ↔
      ∀ i ∈ items, setCols keys i ≠ [] → Sharp eq keys i := by
  constructor
  · intro h item hitem hs
    refine sharp_iff.mpr fun row hm => ?_
    obtain ⟨pre, post, rfl⟩ := List.append_of_mem hitem
    have hown := h [row]
    unfold updateItems at hown
    rw [updateAll_append] at hown
    -- the row still has its values when the item's turn comes
    have hl : Lawful keys (fun (rows : List Dict) i => rows[i]?) (update eq keys) := lawful
    obtain ⟨row', hrow', hag⟩ := hl.agree_all (show [row][0]? = some row from rfl)
      fun t ht => hown.1 t (List.mem_append_left _ ht)
    have ht : (⟨0, item, row'⟩ : Touch Nat) ∈
        (update eq keys (updateAll (update eq keys) [row] pre).store item).touches :=
      mem_touches.mpr ⟨hs, rfl, hrow', (matchesRow_congr hag) ▸ hm⟩
    exact hag.trans (hown.1 _ (List.mem_append_right _ (List.mem_append_left _ ht)))
  · intro h rows
    refine lawful.own_of_records ?_
    induction items generalizing rows with
    | nil => exact fun t ht => absurd ht List.not_mem_nil
    | cons item items ih =>
      intro t ht
      rcases List.mem_append.mp ht with ht | ht
      · obtain ⟨hs, rfl, -, hm⟩ := mem_touches.mp ht
        exact sharp_iff.mp (h t.item List.mem_cons_self hs) t.record hm
      · exact ih (fun i hi => h i (List.mem_cons_of_mem _ hi)) _ t ht

/-- An `=` that relates equal values only. -/
theorem sharp_of_eq (heq : ∀ a b, eq a b = true → a = b) (item : Dict) : Sharp eq keys item := by
  intro hex k hk w _ h
  rw [lookup_of_get (hex k hk).1, heq _ _ h]

end SqlPipeline

/-! ## The three together -/

/-- For all items and update keys, and whatever the servers compare and merge with:
when an update of each pipeline addresses only records that are the item's own. -/
theorem updates_own_iff {keys : List String} (hkeys : keys ≠ []) (merge : Dict → Dict → Dict)
    (hmerge : ElasticsearchPipeline.Merges merge keys) (matchesValue : Option PyVal → PyVal → Bool)
    (str : PyVal → String) (eq : PyVal → PyVal → Bool) (items : List Dict) :
    (∀ index : String → Option Dict, (∀ id d, index id = some d → ElasticsearchPipeline.docId str keys d = id) →
      (OwnOnly keys (ElasticsearchPipeline.updateItems str merge keys index items).touches ↔
        (∀ id d, index id = some d → ∀ i ∈ items,
          ElasticsearchPipeline.pieces str keys d = ElasticsearchPipeline.pieces str keys i → Agree keys d i) ∧
        ∀ a ∈ items, ∀ b ∈ items,
          ElasticsearchPipeline.pieces str keys a = ElasticsearchPipeline.pieces str keys b → Agree keys a b)) ∧
    ((∀ docs, OwnOnly keys (MongoPipeline.updateItems matchesValue keys docs items).touches) ↔
      ∀ i ∈ items, MongoPipeline.Answerable matchesValue (MongoPipeline.flt keys i) →
        ∀ k ∈ keys, ∃ v, i.lookup k = some v ∧ MongoPipeline.Sharp matchesValue v) ∧
    ((∀ rows, OwnOnly keys (SqlPipeline.updateItems eq keys rows items).touches) ↔
      ∀ i ∈ items, SqlPipeline.setCols keys i ≠ [] → SqlPipeline.Sharp eq keys i) :=
  ⟨fun index hplaced => ElasticsearchPipeline.own_iff hkeys hmerge index hplaced items,
    MongoPipeline.own_iff items, SqlPipeline.own_iff items⟩

/-- `str`, of strings. -/
def plainStr : PyVal → String
  | .str s => s
  | _ => "?"

def underscored : List Dict :=
  [[("shop", .str "x_y"), ("sku", .str "z")], [("shop", .str "x"), ("sku", .str "y_z")]]

theorem updates_own_iff_underscored :
    (∀ docs, OwnOnly ["shop", "sku"]
      (MongoPipeline.updateItems (fun field v => field == some v) ["shop", "sku"] docs underscored).touches) ∧
    ∀ rows, OwnOnly ["shop", "sku"]
      (SqlPipeline.updateItems (fun a b => a == b) ["shop", "sku"] rows underscored).touches := by
  have h := updates_own_iff (show ["shop", "sku"] ≠ [] by simp) Dict.merged (fun _ _ h => h.merged)
    (fun field v => field == some v) plainStr (fun a b => a == b) underscored
  exact ⟨h.2.1.mpr (by simp [underscored, List.lookup_cons, MongoPipeline.Sharp]),
    h.2.2.mpr fun i _ _ => SqlPipeline.sharp_of_eq (by simp) i⟩

/-- Both items get the id `x_y_z`. -/
theorem underscored_not_own :
    ¬ ∀ (str : PyVal → String) (keys : List String) (items : List Dict), keys ≠ [] →
      OwnOnly keys (ElasticsearchPipeline.updateItems str Dict.merged keys (fun _ => none) items).touches := by
  intro h
  have hown := (h plainStr ["shop", "sku"] underscored (by simp)).1
  have hts : (ElasticsearchPipeline.updateItems plainStr Dict.merged ["shop", "sku"] (fun _ => none)
      underscored).touches.map (fun t => (t.item.get "shop", t.record.get "shop")) =
    [(.str "x_y", .str "x_y"), (.str "x", .str "x_y")] := by decide
  have hall : ∀ p ∈ (ElasticsearchPipeline.updateItems plainStr Dict.merged ["shop", "sku"] (fun _ => none)
      underscored).touches.map (fun t => (t.item.get "shop", t.record.get "shop")), p.1 = p.2 := by
    intro p hp
    obtain ⟨t, ht, rfl⟩ := List.mem_map.mp hp
    rw [Dict.get, Dict.get, hown t ht "shop" (by simp)]
  rw [hts] at hall
  exact absurd (hall (.str "x", .str "x_y") (by simp)) (by decide)

end Netspy
