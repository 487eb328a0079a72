import Mathlib.Data.List.Pairwise
import Netspy.Proof.GroupWrites

/-!
# The update keys that rows are written with

`_persist` writes a group with the keys of its first row, and the key of a group says
nothing of them. So an update may be written with the keys of another exactly when the
batch has two that can get into one group (which dedup leaves both) and whose keys
differ (`own_keys_iff`).
-/

namespace Netspy

namespace ItemBuffer

variable (lib : Stdlib) (st : Setting) (out : Turnout)

/-- Every call with the data of an update has its keys, and so has what is dumped for
it. -/
structure OwnKeys (defaults : List String) (cache : List (List String)) (batch : List Obj) : Prop where
  called : ∀ e ∈ persistGroups lib st out defaults cache batch, ∀ c ∈ (groupWrite out defaults e).1,
    ∀ u ∈ e.2, c.isUpdate = true → c.updateKeys = u.updateKeys
  dumped : ∀ d ∈ (persist lib st out defaults cache batch).2.2.dumped, d.1.isUpdate = true →
    d.2.updateKeys.getD [] = d.1.updateKeys

/-- If dedup may leave both in one group, two updates have the same keys. -/
def KeysAgree (u v : Norm) : Prop :=
  u.isUpdate = true → u.groupKey = v.groupKey →
    (st.ITEM_FILTER_ENABLE = true → u.fingerprint ≠ v.fingerprint) → u.updateKeys = v.updateKeys

/-! ## What dedup leaves -/

theorem fresh_disabled (he : st.ITEM_FILTER_ENABLE = false) (i : Nat) (seen : List String) (ns : List Norm) :
    fresh st out i seen ns = ns := by
  induction ns generalizing i seen with
  | nil => rfl
  | cons n ns ih =>
    have hd : drops st out i seen n = false := by
      unfold drops
      cases n.fingerprint <;> simp [he]
    simp [fresh, hd, ih]

theorem fresh_sublist (i : Nat) (seen : List String) (ns : List Norm) :
    (fresh st out i seen ns).Sublist ns := by
  induction ns generalizing i seen with
  | nil => exact List.Sublist.refl _
  | cons n ns ih =>
    rw [fresh]
    split
    · exact (ih _ _).cons n
    · exact (ih _ _).cons_cons n

theorem drops_false (he : st.ITEM_FILTER_ENABLE = true) {i : Nat} {seen : List String} {n : Norm} {fp : String}
    (hf : n.fingerprint = some fp) :
    drops st out i seen n = false ↔ fp ∉ seen ∧ out.lookup i fp ≠ .ok true := by
  simp only [drops, hf, he, Bool.true_and, Bool.or_eq_false_iff, decide_eq_false_iff_not]
  refine and_congr_right fun _ => ?_
  cases out.lookup i fp with
  | error e => simp
  | ok known => simp

/-- The fingerprints of the rows that dedup leaves are new and differ. -/
theorem fresh_pairwise (he : st.ITEM_FILTER_ENABLE = true) (i : Nat) (seen : List String) (ns : List Norm) :
    (∀ n ∈ fresh st out i seen ns, ∀ fp, n.fingerprint = some fp → fp ∉ seen) ∧
      (fresh st out i seen ns).Pairwise fun u v => ∀ fp, u.fingerprint = some fp → v.fingerprint ≠ some fp := by
  induction ns generalizing i seen with
  | nil => exact ⟨fun _ h => absurd h List.not_mem_nil, List.Pairwise.nil⟩
  | cons n ns ih =>
    rw [fresh]
    split
    · exact ih _ _
    · rename_i hd
      obtain ⟨hnew, hpair⟩ := ih (i + 1) (remember st seen n)
      have hmem : ∀ fp, (fp ∈ remember st seen n ↔ n.fingerprint = some fp ∨ fp ∈ seen) := by
        intro fp
        simp [remember, he]
      refine ⟨fun m hm fp hf => ?_, List.pairwise_cons.mpr ⟨fun m hm fp hf hf' => ?_, hpair⟩⟩
      · rcases List.mem_cons.mp hm with rfl | hm
        · exact ((drops_false st out he hf).mp (by simpa using hd)).1
        · exact fun hs => hnew m hm fp hf ((hmem fp).mpr (.inr hs))
      · exact hnew m hm fp hf' ((hmem fp).mpr (.inl hf))

/-- Rows that are known are dropped, unless they have no fingerprint. -/
theorem fresh_known (he : st.ITEM_FILTER_ENABLE = true) {i : Nat} (seen : List String) (xs ys : List Norm)
    (hk : ∀ k, i ≤ k → k < i + xs.length → ∀ fp, out.lookup k fp = .ok true) :
    ∃ ms, fresh st out i seen (xs ++ ys) = ms ++ fresh st out (i + xs.length) seen ys := by
  induction xs generalizing i with
  | nil => exact ⟨[], rfl⟩
  | cons n xs ih =>
    have hlen : i + 1 + xs.length = i + (n :: xs).length := by
      rw [List.length_cons]
      omega
    obtain ⟨ms, hms⟩ := ih (i := i + 1) fun k h₁ h₂ => hk k (by omega) (by omega)
    rw [hlen] at hms
    rw [List.cons_append, fresh]
    cases hf : n.fingerprint with
    | none =>
      have hd : drops st out i seen n = false := by simp [drops, hf]
      have hr : remember st seen n = seen := by simp [remember, hf]
      simp only [hd, hr, hms, Bool.false_eq_true, if_false]
      exact ⟨n :: ms, rfl⟩
    | some fp =>
      have hd : drops st out i seen n = true := by
        simp [drops, hf, he, hk i (by omega) (by simp)]
      simp only [hd, if_true]
      exact ⟨ms, hms⟩

/-- The filter that knows all but two rows leaves both. -/
theorem mem_fresh_of_two (he : st.ITEM_FILTER_ENABLE = true) {xs ys zs : List Norm} {u v : Norm} {a b : String}
    (hu : u.fingerprint = some a) (hv : v.fingerprint = some b) (hab : b ≠ a)
    (hout : ∀ k fp, out.lookup k fp = .ok (decide (k ≠ xs.length ∧ k ≠ xs.length + 1 + ys.length))) :
    u ∈ fresh st out 0 [] (xs ++ u :: (ys ++ v :: zs)) ∧ v ∈ fresh st out 0 [] (xs ++ u :: (ys ++ v :: zs)) := by
  obtain ⟨ms, hms⟩ := fresh_known st out he (i := 0) [] xs (u :: (ys ++ v :: zs)) fun k h₁ h₂ fp => by
    rw [hout, decide_eq_true (by omega)]
  obtain ⟨ls, hls⟩ := fresh_known st out he (i := xs.length + 1) [a] ys (v :: zs) fun k h₁ h₂ fp => by
    rw [hout, decide_eq_true (by omega)]
  have hdu : drops st out xs.length [] u = false :=
    (drops_false st out he hu).mpr ⟨List.not_mem_nil, by simp [hout]⟩
  have hdv : drops st out (xs.length + 1 + ys.length) [a] v = false :=
    (drops_false st out he hv).mpr ⟨by simpa using hab, by simp [hout]⟩
  have hr : remember st [] u = [a] := by simp [remember, he, hu]
  have hstep : fresh st out (0 + xs.length) [] (u :: (ys ++ v :: zs)) =
      u :: (ls ++ v :: fresh st out (xs.length + 1 + ys.length + 1) (remember st [a] v) zs) := by
    rw [Nat.zero_add, fresh, hdu, hr, if_neg Bool.false_ne_true, hls, fresh, hdv, if_neg Bool.false_ne_true]
  rw [hms, hstep]
  simp

/-! ## Rows that `_normalize` made -/

/-- A row has no empty list of pipelines, and if the filter is on an update has a
fingerprint. -/
theorem normalize_row {o : Obj} {n : Norm} (h : normalize lib st o = .ok n) :
    n.pipelines ≠ some [] ∧
      (st.ITEM_FILTER_ENABLE = true → n.isUpdate = true → ∃ fp, n.fingerprint = some fp) := by
  cases o with
  | other t => cases h
  | dict d =>
    cases h
    exact ⟨nofun, nofun⟩
  | item it =>
    obtain ⟨inst, fp, -, hfp, rfl⟩ := of_normalize_item lib st h
    refine ⟨?_, fun hf _ => Option.isSome_iff_exists.mp (hfp.trans hf)⟩
    dsimp only
    split <;> simp

theorem mem_rows {objs : List Obj} {n : Norm} (h : n ∈ rows lib st objs) :
    n.pipelines ≠ some [] ∧
      (st.ITEM_FILTER_ENABLE = true → n.isUpdate = true → ∃ fp, n.fingerprint = some fp) := by
  obtain ⟨o, -, ho⟩ := List.mem_filterMap.mp h
  cases hn : normalize lib st o with
  | error e =>
    rw [hn] at ho
    cases ho
  | ok m =>
    rw [hn] at ho
    cases ho
    exact normalize_row lib st hn

/-- The keys of a group are those of all its updates, if those that dedup may leave
in one group agree. -/
theorem groupKeys_eq {batch : List Obj} (hagree : (rows lib st batch).Pairwise (KeysAgree st))
    {e : GroupKey × List Norm}
    (he : e.2 = (fresh st out 0 [] (rows lib st batch)).filter (fun n => n.groupKey = e.1)) (hne : e.2 ≠ [])
    {u : Norm} (hu : u ∈ e.2) (hup : u.isUpdate = true) : groupKeys e.2 = u.updateKeys := by
  have hpair : (fresh st out 0 [] (rows lib st batch)).Pairwise fun u v =>
      u.isUpdate = true → u.groupKey = v.groupKey → u.updateKeys = v.updateKeys := by
    have hsub := fresh_sublist st out 0 [] (rows lib st batch)
    cases hf : st.ITEM_FILTER_ENABLE with
    | false =>
      exact (hagree.sublist hsub).imp fun h hup hk => h hup hk fun h => absurd (h.symm.trans hf) (by simp)
    | true =>
      refine List.Pairwise.imp_of_mem ?_ ((hagree.sublist hsub).and (fresh_pairwise st out hf 0 [] _).2)
      rintro u v hu hv ⟨h, hfp⟩ hup hk
      obtain ⟨fp, hu⟩ := (mem_rows lib st (hsub.subset hu)).2 hf hup
      exact h hup hk fun _ heq => hfp fp hu (heq ▸ hu)
  have hall : ∀ u ∈ fresh st out 0 [] (rows lib st batch), ∀ v ∈ fresh st out 0 [] (rows lib st batch),
      u.isUpdate = true → u.groupKey = v.groupKey → u.updateKeys = v.updateKeys := by
    intro u hu v hv
    refine List.Pairwise.forall_of_forall_of_flip (fun _ _ _ _ => rfl) hpair (hpair.imp fun h hup hk => ?_) hu hv
    exact (h ((congrArg GroupKey.isUpdate hk.symm).trans hup) hk.symm).symm
  obtain ⟨v, vs, hv⟩ := List.exists_cons_of_ne_nil hne
  have hmem : ∀ w ∈ e.2, w ∈ fresh st out 0 [] (rows lib st batch) ∧ w.groupKey = e.1 := by
    intro w hw
    rw [he] at hw
    simpa using List.mem_filter.mp hw
  have hvm := hmem v (hv ▸ List.mem_cons_self)
  have hum := hmem u hu
  have hgk : groupKeys e.2 = v.updateKeys := by
    rw [hv]
    rfl
  rw [hgk]
  exact (hall u hum.1 v hvm.1 hup (hum.2.trans hvm.2.symm)).symm

theorem not_pairwise {α : Type} {R : α → α → Prop} {l : List α} (h : ¬ l.Pairwise R) :
    ∃ xs u ys v zs, l = xs ++ u :: (ys ++ v :: zs) ∧ ¬ R u v := by
  induction l with
  | nil => exact absurd List.Pairwise.nil h
  | cons a l ih =>
    by_cases ha : ∀ v ∈ l, R a v
    · obtain ⟨xs, u, ys, v, zs, rfl, hr⟩ := ih fun hl => h (List.pairwise_cons.mpr ⟨ha, hl⟩)
      exact ⟨a :: xs, u, ys, v, zs, rfl, hr⟩
    · push Not at ha
      obtain ⟨v, hv, hr⟩ := ha
      obtain ⟨ys, zs, rfl⟩ := List.append_of_mem hv
      exact ⟨[], a, ys, v, zs, rfl, hr⟩

/-- Two updates that disagree are both left by some filter, and then their group has
both. -/
theorem exists_fresh_two {batch : List Obj} {xs ys zs : List Norm} {u v : Norm}
    (hrows : rows lib st batch = xs ++ u :: (ys ++ v :: zs)) (hup : u.isUpdate = true) (hk : u.groupKey = v.groupKey)
    (hfp : st.ITEM_FILTER_ENABLE = true → u.fingerprint ≠ v.fingerprint) :
    ∃ lookup : Nat → String → Except Exn Bool,
      u ∈ fresh st { lookup } 0 [] (rows lib st batch) ∧ v ∈ fresh st { lookup } 0 [] (rows lib st batch) := by
  cases hf : st.ITEM_FILTER_ENABLE with
  | false =>
    refine ⟨fun _ _ => .ok false, ?_⟩
    rw [fresh_disabled st _ hf, hrows]
    simp
  | true =>
    have hu : u ∈ rows lib st batch := by simp [hrows]
    have hv : v ∈ rows lib st batch := by simp [hrows]
    obtain ⟨a, ha⟩ := (mem_rows lib st hu).2 hf hup
    obtain ⟨b, hb⟩ := (mem_rows lib st hv).2 hf ((congrArg GroupKey.isUpdate hk).symm.trans hup)
    refine ⟨fun k _ => .ok (decide (k ≠ xs.length ∧ k ≠ xs.length + 1 + ys.length)), ?_⟩
    rw [hrows]
    exact mem_fresh_of_two st _ hf ha hb (fun h => hfp hf (ha.trans (h ▸ hb.symm))) fun _ _ => rfl

/-- Of every batch: whatever the calls of `_persist` return or raise, updates are written
and dumped with their own keys, exactly if a row is rejected, or no two updates that
dedup may leave in one group have different keys. -/
theorem own_keys_iff (batch : List Obj) :
    (∀ out defaults cache, OwnKeys lib st out defaults cache batch) ↔
      ((∀ o ∈ batch, Accepts lib st o) → (rows lib st batch).Pairwise (KeysAgree st)) := by
  constructor
  · intro h hacc
    by_contra hnot
    obtain ⟨xs, u, ys, v, zs, hrows, hr⟩ := not_pairwise hnot
    unfold KeysAgree at hr
    push Not at hr
    obtain ⟨hup, hk, hfp, hne⟩ := hr
    obtain ⟨lookup, hu, hv⟩ := exists_fresh_two lib st hrows hup hk hfp
    let out : Turnout := { lookup }
    -- all the groups are written, so the group of the two is
    have hgroups : persistGroups lib st out ["p"] [] batch =
        (Groups.ofList (fresh st out 0 [] (rows lib st batch)) : Groups Norm.groupKey).entries := by
      have hg := (siftRows_spec st out 0 (rows lib st batch) {}).1
      have hd : getDedup st out = .ok () := by
        unfold getDedup
        split <;> rfl
      unfold persistGroups
      rw [hd]
      dsimp only
      rw [sift_ok lib st out hacc]
      dsimp only
      rw [hg]
      exact reachedGroups_eq st out (fun _ => rfl) (fun _ _ => rfl) _ _ _
    let e : GroupKey × List Norm := (u.groupKey, (fresh st out 0 [] (rows lib st batch)).filter
      fun n => n.groupKey = u.groupKey)
    have hue : u ∈ e.2 := List.mem_filter.mpr ⟨hu, by simp⟩
    have hve : v ∈ e.2 := List.mem_filter.mpr ⟨hv, by simp [hk]⟩
    have he : e ∈ persistGroups lib st out ["p"] [] batch := by
      rw [hgroups]
      exact Groups.mem_entries_ofList.mpr ⟨rfl, List.ne_nil_of_mem hue⟩
    have hpipes : pipelineKey ["p"] e.1.pipelines ≠ [] := by
      have hsome : u.pipelines ≠ some [] := (mem_rows lib st (by simp [hrows] : u ∈ rows lib st batch)).1
      show u.pipelines.getD ["p"] ≠ []
      cases hp : u.pipelines with
      | none => simp
      | some ps =>
        rintro rfl
        exact hsome hp
    obtain ⟨c, hc⟩ := exists_writeAll out e.1 (e.2.map Norm.data) (groupKeys e.2) hpipes
    obtain ⟨-, hupc, -, -⟩ := mem_writeAll out hc
    have hown := (h out ["p"] []).called e he c hc
    exact hne ((hown u hue (hupc.trans hup)).symm.trans (hown v hve (hupc.trans hup)))
  · intro h out defaults cache
    have hkeys : ∀ e ∈ persistGroups lib st out defaults cache batch, ∀ u ∈ e.2, u.isUpdate = true →
        groupKeys e.2 = u.updateKeys := by
      intro e he u hu hup
      obtain ⟨hacc, hrows, hne⟩ := mem_persistGroups lib st out he
      exact groupKeys_eq lib st out (h hacc) hrows hne hu hup
    have hkeyed : ∀ e ∈ persistGroups lib st out defaults cache batch, ∀ u ∈ e.2, u.groupKey = e.1 := by
      intro e he u hu
      rw [(mem_persistGroups lib st out he).2.1] at hu
      simpa using (List.mem_filter.mp hu).2
    refine ⟨fun e he c hc u hu hup => ?_, fun d hd hup => ?_⟩
    · obtain ⟨-, hcu, -, hck⟩ := mem_writeAll out hc
      have hu' : u.isUpdate = true := (congrArg GroupKey.isUpdate (hkeyed e he u hu)).trans (hcu.symm.trans hup)
      rw [hck]
      exact hkeys e he u hu hu'
    · rw [(persist_adds lib st out defaults cache batch).2] at hd
      obtain ⟨e, he, hd⟩ := List.mem_flatMap.mp hd
      unfold groupDump at hd
      split at hd
      · exact absurd hd List.not_mem_nil
      · obtain ⟨hrow, hrec⟩ := mem_dumpFailed out hd
        have hk := hkeys e he d.1 hrow hup
        have hup' : e.1.isUpdate = true := (congrArg GroupKey.isUpdate (hkeyed e he _ hrow)).symm.trans hup
        rw [hrec, ← hk]
        simp only [dumpRecord, hup', Bool.true_and]
        cases groupKeys e.2 <;> rfl

/-! ## Two classes of one table -/

/-- An update of the table `prices`, by a class with these keys. -/
def priceBy (keys : List String) (sku : String) : Obj :=
  .item {
    cls := { name := "PriceItem", tableName := some "prices", isUpdate := true, updateKey := some keys }
    inst := { attrs := [("sku", .str sku), ("shop", .str "s")] } }

theorem priceBy_not_ownKeys :
    ¬ ∀ (lib : Stdlib) (st : Setting) (out : Turnout) (defaults : List String) (cache : List (List String))
      (batch : List Obj), OwnKeys lib st out defaults cache batch := by
  intro h
  let batch : List Obj := [priceBy ["sku"] "a", priceBy ["shop"] "b"]
  let u : Norm := ⟨"prices", true, [("sku", .str "a"), ("shop", .str "s")], none, ["sku"], none⟩
  let v : Norm := ⟨"prices", true, [("sku", .str "b"), ("shop", .str "s")], none, ["shop"], none⟩
  have hg : persistGroups textOnly { ITEM_FILTER_ENABLE := false } {} ["p"] [] batch = [(u.groupKey, [u, v])] := rfl
  have hown := (h textOnly { ITEM_FILTER_ENABLE := false } {} ["p"] [] batch).called (u.groupKey, [u, v])
    (hg ▸ List.mem_singleton_self _) ⟨"p", "prices", true, [u.data, v.data], ["sku"], true⟩
    (List.mem_singleton_self _) v (by simp) rfl
  exact absurd hown (by decide)

end ItemBuffer

end Netspy
