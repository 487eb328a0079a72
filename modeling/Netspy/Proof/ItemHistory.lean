import Netspy.Impl.ItemHistory
import Netspy.Proof.UpdateKeys

/-!
# Dropped items are stored

What the filter contains are fingerprints of items that all their pipelines accepted
(`known_accepted`), and what a batch has seen are fingerprints of its own items. A
fingerprint tells the writes of two items apart unless they are `Confused`
(`same_of_mark`). So a dropped item is stored where it belongs if it is confused with
none of them, and its batch does not lose the item it is dropped for (`drops_stored`).
The fingerprint says nothing of the kind and the pipelines of an item, so it may not
(`twoStores_not_stored`).
-/

namespace Netspy

namespace ItemBuffer

variable (lib : Stdlib) (st : Setting) (out : Turnout)

/-! ## What the first loop decides -/

theorem decisions_fst (i : Nat) (seen : List String) (ns : List Norm) :
    (decisions st out i seen ns).map Prod.fst = ns := by
  induction ns generalizing i seen with
  | nil => rfl
  | cons n ns ih =>
    rw [decisions]
    split
    · rw [List.map_cons, ih]
    · rw [List.map_cons, ih]

theorem fresh_eq (i : Nat) (seen : List String) (ns : List Norm) :
    fresh st out i seen ns = ((decisions st out i seen ns).filter fun d => !d.2).map Prod.fst := by
  induction ns generalizing i seen with
  | nil => rfl
  | cons n ns ih =>
    rw [fresh, decisions]
    split
    · simpa using ih (i + 1) seen
    · simpa using ih (i + 1) (remember st seen n)

/-- A row is dropped for its fingerprint: it was seen, the filter has it, or an earlier
row that was left has it. -/
theorem decisions_dropped {i k : Nat} {seen : List String} {ns : List Norm} {n : Norm}
    (h : (decisions st out i seen ns)[k]? = some (n, true)) :
    st.ITEM_FILTER_ENABLE = true ∧ ∃ fp, n.fingerprint = some fp ∧
      (fp ∈ seen ∨ out.lookup (i + k) fp = .ok true ∨
        ∃ j < k, ∃ m, (decisions st out i seen ns)[j]? = some (m, false) ∧ m.fingerprint = some fp) := by
  induction ns generalizing i k seen with
  | nil => exact absurd h (by simp [decisions])
  | cons m ns ih =>
    cases hd : drops st out i seen m with
    | true =>
      simp only [decisions, hd, if_true] at h ⊢
      cases k with
      | zero =>
        simp only [List.getElem?_cons_zero, Option.some.injEq, Prod.mk.injEq, and_true] at h
        subst h
        unfold drops at hd
        split at hd
        · cases hd
        · rename_i fp hf
          rw [Bool.and_eq_true, Bool.or_eq_true, decide_eq_true_eq] at hd
          refine ⟨hd.1, fp, hf, hd.2.imp_right fun hl => .inl ?_⟩
          split at hl
          · rename_i hk
            rw [Nat.add_zero, hk, hl]
          · cases hl
      | succ k =>
        obtain ⟨he, fp, hf, hfp⟩ := ih h
        refine ⟨he, fp, hf, ?_⟩
        rcases hfp with hs | hl | ⟨j, hj, m', hm', hf'⟩
        · exact .inl hs
        · exact .inr (.inl (by rwa [show i + (k + 1) = i + 1 + k by omega]))
        · exact .inr (.inr ⟨j + 1, by omega, m', hm', hf'⟩)
    | false =>
      simp only [decisions, hd, Bool.false_eq_true, if_false] at h ⊢
      cases k with
      | zero => simp at h
      | succ k =>
        obtain ⟨he, fp, hf, hfp⟩ := ih h
        refine ⟨he, fp, hf, ?_⟩
        rcases hfp with hs | hl | ⟨j, hj, m', hm', hf'⟩
        · simp only [remember, he, if_true, List.mem_append, Option.mem_toList] at hs
          rcases hs with hs | hs
          · exact .inr (.inr ⟨0, by omega, m, rfl, hs⟩)
          · exact .inl hs
        · exact .inr (.inl (by rwa [show i + (k + 1) = i + 1 + k by omega]))
        · exact .inr (.inr ⟨j + 1, by omega, m', hm', hf'⟩)

/-- A row that is left has a fingerprint that was not seen and that the filter does not
have; of earlier rows that have it, the filter says that it does. -/
theorem decisions_left (he : st.ITEM_FILTER_ENABLE = true) {i j : Nat} {seen : List String} {ns : List Norm}
    {n : Norm} {fp : String} (h : (decisions st out i seen ns)[j]? = some (n, false)) (hf : n.fingerprint = some fp) :
    fp ∉ seen ∧ out.lookup (i + j) fp ≠ .ok true ∧
      ∀ j' < j, ∀ m, ns[j']? = some m → m.fingerprint = some fp → out.lookup (i + j') fp = .ok true := by
  induction ns generalizing i j seen with
  | nil => exact absurd h (by simp [decisions])
  | cons m ns ih =>
    cases hd : drops st out i seen m with
    | true =>
      simp only [decisions, hd, if_true] at h
      cases j with
      | zero => simp at h
      | succ j =>
        obtain ⟨hs, hl, hlater⟩ := ih h
        refine ⟨hs, by rwa [show i + (j + 1) = i + 1 + j by omega], fun j' hj' m' hm' hf' => ?_⟩
        cases j' with
        | zero =>
          cases hm'
          by_contra hk
          exact absurd ((drops_false st out he hf').mpr ⟨hs, hk⟩) (by simp [hd])
        | succ j' =>
          rw [show i + (j' + 1) = i + 1 + j' by omega]
          exact hlater j' (by omega) m' hm' hf'
    | false =>
      simp only [decisions, hd, Bool.false_eq_true, if_false] at h
      cases j with
      | zero =>
        simp only [List.getElem?_cons_zero, Option.some.injEq, Prod.mk.injEq, and_true] at h
        subst h
        obtain ⟨hs, hl⟩ := (drops_false st out he hf).mp hd
        exact ⟨hs, hl, fun j' hj' => absurd hj' (by omega)⟩
      | succ j =>
        obtain ⟨hs, hl, hlater⟩ := ih h
        simp only [remember, he, if_true, List.mem_append, Option.mem_toList, not_or] at hs
        refine ⟨hs.2, by rwa [show i + (j + 1) = i + 1 + j by omega], fun j' hj' m' hm' hf' => ?_⟩
        cases j' with
        | zero =>
          cases hm'
          exact absurd hf' hs.1
        | succ j' =>
          rw [show i + (j' + 1) = i + 1 + j' by omega]
          exact hlater j' (by omega) m' hm' hf'

/-! ## Rows and their objects -/

/-- Where every object is accepted, the rows are in their places. -/
theorem rows_getElem {objs : List Obj} (h : ∀ o ∈ objs, Accepts lib st o) {j : Nat} {n : Norm} :
    (rows lib st objs)[j]? = some n ↔ ∃ o, objs[j]? = some o ∧ normalize lib st o = .ok n := by
  induction objs generalizing j with
  | nil => simp [rows]
  | cons o objs ih =>
    obtain ⟨m, hm⟩ := h o List.mem_cons_self
    have hr : rows lib st (o :: objs) = m :: rows lib st objs := by simp [rows, hm, Except.toOption]
    rw [hr]
    cases j with
    | zero => simp [hm]
    | succ j => simpa using ih (fun o ho => h o (List.mem_cons_of_mem _ ho))

/-- The fingerprint of a row is the mark of its write. -/
theorem fingerprint_of_writeOf (defaults : List String) (hon : st.ITEM_FILTER_ENABLE = true) {o : Obj} {n : Norm}
    {w : ItemWrite} (h : normalize lib st o = .ok n) (hw : writeOf lib defaults o = some w) :
    n.fingerprint = some (w.mark lib) := by
  cases o with
  | other t => cases hw
  | dict d => cases hw
  | item it =>
    obtain ⟨inst, text, hp, -, -⟩ := of_normalize_item lib st h
    simp only [writeOf, hp] at hw
    cases hw
    simp only [normalize, hp, hon, ItemWrite.fingerprint_eq_mark lib defaults, if_true] at h
    cases h
    rfl

/-- A row with a fingerprint is of an item, and says where its write goes. -/
theorem writeOf_normalize (defaults : List String) {o : Obj} {n : Norm} {fp : String}
    (h : normalize lib st o = .ok n) (hf : n.fingerprint = some fp) :
    ∃ w, writeOf lib defaults o = some w ∧ w.mark lib = fp ∧ w.table = n.table ∧
      w.isUpdate = n.isUpdate ∧ w.pipelines = pipelineKey defaults n.pipelines := by
  cases o with
  | other t => cases h
  | dict d =>
    cases h
    cases hf
  | item it =>
    obtain ⟨inst, text, hp, hon, hn⟩ := of_normalize_item lib st h
    have hw : writeOf lib defaults (.item it) = some (Item.write lib defaults ⟨it.cls, inst⟩) := by
      simp only [writeOf, hp]
    have htext : text = some fp := by
      rw [← hf, hn]
    have hmark := fingerprint_of_writeOf lib st defaults (by rw [← hon, htext]; rfl) h hw
    subst hn
    refine ⟨_, hw, Option.some.inj (hmark.symm.trans hf), rfl, rfl, ?_⟩
    dsimp only [Item.write]
    generalize Item.pipelines ⟨it.cls, inst⟩ = ps
    rcases ps with _ | _ | _ <;> rfl

/-! ## Groups that are reached -/

/-- An item that its `_persist` gets to: nothing raises before its group, its pipelines
are there, and all accept the group or the dump gets to its row. -/
structure Lands (defaults : List String) (cache : List (List String)) (batch : List Obj) (n : Norm) : Prop where
  filter : getDedup st out = .ok ()
  accepts : ∀ o ∈ batch, Accepts lib st o
  group : ∃ pre ns post, (Groups.ofList (fresh st out 0 [] (rows lib st batch)) : Groups Norm.groupKey).entries =
      pre ++ (n.groupKey, ns) :: post ∧
    (∀ e ∈ pre, Loads out cache (pipelineKey defaults e.1.pipelines) ∧
      Stores out e.1 (pipelineKey defaults e.1.pipelines) e.2) ∧
    Loads out cache (pipelineKey defaults n.pipelines) ∧
    ((∀ i < (pipelineKey defaults n.pipelines).length, out.write n.groupKey i = .ok true) ∨
      out.openDump n.groupKey = .ok () ∧
        ∃ k, ns[k]? = some n ∧ ∀ i ≤ k, out.dumpLine n.groupKey i = .ok ())

/-- A group is reached if those before it are stored and its pipelines are there. -/
theorem mem_reachedGroups (defaults : List String) {pre post : List (GroupKey × List Norm)} {e : GroupKey × List Norm}
    {cache : List (List String)} (hne : ∀ e ∈ pre, e.2 ≠ [])
    (hpre : ∀ e ∈ pre, Loads out cache (pipelineKey defaults e.1.pipelines) ∧
      Stores out e.1 (pipelineKey defaults e.1.pipelines) e.2)
    (hl : Loads out cache (pipelineKey defaults e.1.pipelines)) :
    e ∈ reachedGroups st out defaults (pre ++ e :: post) cache := by
  induction pre generalizing cache with
  | nil =>
    rcases resolvePipelines_spec out (pipelineKey defaults e.1.pipelines) cache with ⟨cache', hr, -, -⟩ | ⟨x, -, hn⟩
    · rw [List.nil_append, reachedGroups, hr]
      dsimp only
      split
      · exact List.mem_singleton_self e
      · exact List.mem_cons_self
    · exact absurd hl hn
  | cons d pre ih =>
    obtain ⟨hld, hsd⟩ := hpre d List.mem_cons_self
    rcases resolvePipelines_spec out (pipelineKey defaults d.1.pipelines) cache with ⟨cache', hr, -, hc⟩ | ⟨x, -, hn⟩
    · rcases storeGroup_spec st out d.1 (pipelineKey defaults d.1.pipelines) (hne d List.mem_cons_self) {} with
        ⟨hs, -, -⟩ | ⟨-, hns, -⟩
      · rw [List.cons_append, reachedGroups, hr]
        simp only [hs]
        refine List.mem_cons_of_mem d (ih (fun e he => hne e (List.mem_cons_of_mem d he)) (fun e he => ?_)
          ((hc _).mpr hl))
        exact ⟨(hc _).mpr (hpre e (List.mem_cons_of_mem d he)).1, (hpre e (List.mem_cons_of_mem d he)).2⟩
      · exact absurd hsd hns
    · exact absurd hld hn

theorem persistGroups_eq (hd : getDedup st out = .ok ()) {batch : List Obj} (hall : ∀ o ∈ batch, Accepts lib st o)
    (defaults : List String) (cache : List (List String)) :
    persistGroups lib st out defaults cache batch = reachedGroups st out defaults
      (Groups.ofList (fresh st out 0 [] (rows lib st batch)) : Groups Norm.groupKey).entries cache := by
  rw [persistGroups, hd]
  dsimp only
  rw [sift_ok lib st out hall]
  dsimp only
  rw [(siftRows_spec st out 0 (rows lib st batch) {}).1]
  rfl

/-- Where all pipelines accept a group there is a call of each that was accepted. -/
theorem accepted_of_writeAll {k : GroupKey} {datas : List Dict} {updateKeys : List String} {j : Nat}
    {ps : List String} (h : (writeAll out k datas updateKeys j ps).2 = true) {p : String} (hp : p ∈ ps) :
    ∃ c ∈ (writeAll out k datas updateKeys j ps).1, c.accepted = true ∧ c.pipeline = p := by
  induction ps generalizing j with
  | nil => exact absurd hp List.not_mem_nil
  | cons q ps ih =>
    obtain ⟨accepted, he⟩ := writeAll_cons out k datas updateKeys j q ps
    rw [he] at h ⊢
    cases accepted with
    | false => exact absurd h Bool.false_ne_true
    | true =>
      rcases List.mem_cons.mp hp with rfl | hp
      · exact ⟨_, List.mem_cons_self, rfl, rfl⟩
      · obtain ⟨c, hc, hca⟩ := ih h hp
        exact ⟨c, List.mem_cons_of_mem _ hc, hca⟩

theorem mem_dumpLines_of_ok {k : GroupKey} {updateKeys : List String} {j i : Nat} {ns : List Norm} {n : Norm}
    (hn : ns[i]? = some n) (hok : ∀ i' ≤ i, out.dumpLine k (j + i') = .ok ()) :
    ∃ line, (n, line) ∈ (dumpLines out k updateKeys j ns).2 := by
  induction ns generalizing j i with
  | nil => exact absurd hn (by simp)
  | cons m ns ih =>
    rw [dumpLines, show out.dumpLine k j = .ok () from hok 0 (Nat.zero_le i)]
    cases i with
    | zero =>
      cases hn
      exact ⟨_, List.mem_cons_self⟩
    | succ i =>
      obtain ⟨line, hline⟩ := ih (j := j + 1) hn fun i' hi' => by
        rw [show j + 1 + i' = j + (i' + 1) by omega]
        exact hok (i' + 1) (by omega)
      exact ⟨line, List.mem_cons_of_mem _ hline⟩

end ItemBuffer

/-! ## The history -/

namespace ItemHistory

open ItemBuffer

variable (lib : Stdlib) (st : Setting) (defaults : List String)

/-- The item at place `j` of a batch was accepted by all pipelines of its write. -/
structure AcceptedAt (c : HistoryCall) (j : Nat) (o : Obj) (w : ItemWrite) : Prop where
  object : c.batch[j]? = some o
  write : writeOf lib defaults o = some w
  accepted : ∃ n, c.report.decided[j]? = some (n, false) ∧ ∀ p ∈ w.pipelines, ∃ call ∈ c.report.calls,
    call.accepted = true ∧ call.pipeline = p ∧ call.table = w.table ∧ call.isUpdate = w.isUpdate ∧
      n.data ∈ call.datas

/-- The item at place `j` of a batch is in the dump. -/
structure DumpedAt (c : HistoryCall) (j : Nat) (o : Obj) (w : ItemWrite) : Prop where
  object : c.batch[j]? = some o
  write : writeOf lib defaults o = some w
  dumped : ∃ n line, c.report.decided[j]? = some (n, false) ∧ (n, line) ∈ c.report.dumped

/-- There is an item with the same write as the one at place `i` that an earlier batch
had accepted, or that comes earlier in the batch and is written or dumped by it. -/
def StoredAt (past : List HistoryCall) (c : HistoryCall) (i : Nat) : Prop :=
  ∃ o w, c.batch[i]? = some o ∧ writeOf lib defaults o = some w ∧ ∃ o' w', w'.Same w ∧
    ((∃ b ∈ past, ∃ j, AcceptedAt lib defaults b j o' w') ∨
      ∃ j < i, AcceptedAt lib defaults c j o' w' ∨ DumpedAt lib defaults c j o' w')

/-- Whatever was counted under `ITEM_DEDUP_DROPPED` is stored where it belongs. -/
def DropsStored (s : ItemHistory) : Prop :=
  ∀ past c later, s.past = past ++ c :: later → ∀ i n, c.report.decided[i]? = some (n, true) →
    StoredAt lib defaults past c i

/-- A batch whose items are not confused: an item that the filter finds with no item
accepted before, and an item that comes after the first one of its mark that the filter
does not find not with that one; and that one lands. -/
structure Tells (s : ItemHistory) (a : List Obj × Turnout) : Prop where
  earlier : ∀ i o w, a.1[i]? = some o → writeOf lib defaults o = some w →
    (s.answers a.2).lookup i (w.mark lib) = .ok true → ∀ c ∈ s.past, ∀ j o' w', AcceptedAt lib defaults c j o' w' →
      ¬w'.Confused lib w
  batch : ∀ i j o o' w w', j < i → a.1[i]? = some o → a.1[j]? = some o' →
    writeOf lib defaults o = some w → writeOf lib defaults o' = some w' → w'.mark lib = w.mark lib →
    getDedup st a.2 = .ok () → (∀ x ∈ a.1.take (i + 1), Accepts lib st x) →
    (s.answers a.2).lookup j (w.mark lib) ≠ .ok true →
    (∀ j' < j, ∀ x wx, a.1[j']? = some x → writeOf lib defaults x = some wx → wx.mark lib = w.mark lib →
      (s.answers a.2).lookup j' (w.mark lib) = .ok true) →
    ¬w'.Confused lib w ∧ ∀ n, normalize lib st o' = .ok n → Lands lib st (s.answers a.2) defaults s.cache a.1 n

variable {lib st defaults} {s : ItemHistory} {batch : List Obj} {out : Turnout}

/-- Writes with the same mark that are not confused are the same. -/
theorem same_of_mark {w w' : ItemWrite} (h : ¬w.Confused lib w') (hmark : w.mark lib = w'.mark lib) : w.Same w' := by
  have htext : "|".intercalate (w.entries lib) = "|".intercalate (w'.entries lib) := by
    by_contra hne
    exact h (.hash hne hmark)
  have hentries : w.entries lib = w'.entries lib := by
    by_contra hne
    refine h (.bars hne ((Fields.intercalate_inj '|' (by simp [ItemWrite.entries]) (by simp [ItemWrite.entries])).mp ?_))
    rw [← String.toList_inj, String.toList_intercalate, String.toList_intercalate] at htext
    exact htext
  obtain ⟨htable, hprint⟩ := List.cons.inj hentries
  have hshown : w.shown = w'.shown := by
    by_contra hne
    exact h (.prints htable hne hprint)
  refine ⟨htable, ?_, ?_, ?_⟩
  · by_contra hne
    exact h (.goes htable hshown (.inl hne))
  · by_contra hne
    exact h (.goes htable hshown (.inr hne))
  · by_contra hne
    exact h (.blanks htable hshown hne)

theorem not_confused_self (lib : Stdlib) (w : ItemWrite) : ¬w.Confused lib w := by
  intro h
  cases h with
  | hash h => exact h rfl
  | bars h => exact h rfl
  | prints _ h => exact h rfl
  | blanks _ _ h => exact h rfl
  | goes _ _ h => exact h.elim (· rfl) (· rfl)

/-- A row that dedup leaves is decided of in the place of its object. -/
theorem exists_place (defaults : List String) (cache : List (List String)) (hd : getDedup st out = .ok ())
    (hall : ∀ o ∈ batch, Accepts lib st o) {n : Norm} (hn : n ∈ fresh st out 0 [] (rows lib st batch)) :
    ∃ (j : Nat) (o : Obj), batch[j]? = some o ∧ normalize lib st o = .ok n ∧
      (ItemBuffer.persist lib st out defaults cache batch).2.2.decided[j]? = some (n, false) := by
  obtain ⟨pre, post, he, -, -, hpost, hdec⟩ := persist_decided lib st out defaults cache batch
  rw [hpost hd hall, List.append_nil] at he
  subst he
  rw [fresh_eq] at hn
  obtain ⟨⟨n', b⟩, hmem, rfl⟩ := List.mem_map.mp hn
  obtain ⟨hmem, hb⟩ := List.mem_filter.mp hmem
  have hb : b = false := by simpa using hb
  subst hb
  obtain ⟨j, hj⟩ := List.mem_iff_getElem?.mp hmem
  have hrow : (rows lib st batch)[j]? = some n' := by
    rw [← decisions_fst st out 0 [] (rows lib st batch), List.getElem?_map, hj]
    rfl
  obtain ⟨o, ho, hnorm⟩ := (rows_getElem lib st hall).mp hrow
  exact ⟨j, o, ho, hnorm, by rw [hdec, hj]⟩

/-- An item of a group that all its pipelines accepted. -/
theorem acceptedAt_of_group {cache : List (List String)} {e : GroupKey × List Norm}
    (he : e ∈ persistGroups lib st out defaults cache batch) (hok : (groupWrite out defaults e).2 = true)
    {n : Norm} (hn : n ∈ e.2) {j : Nat} {o : Obj} {w : ItemWrite} (ho : batch[j]? = some o)
    (hdec : (ItemBuffer.persist lib st out defaults cache batch).2.2.decided[j]? = some (n, false))
    (hw : writeOf lib defaults o = some w) (htable : w.table = n.table) (hupdate : w.isUpdate = n.isUpdate)
    (hpipes : w.pipelines = pipelineKey defaults n.pipelines) :
    AcceptedAt lib defaults ⟨batch, (ItemBuffer.persist lib st out defaults cache batch).2.2⟩ j o w := by
  refine ⟨ho, hw, n, hdec, fun p hp => ?_⟩
  obtain ⟨-, hrows, -⟩ := mem_persistGroups lib st out he
  have hkey : n.groupKey = e.1 := by
    rw [hrows] at hn
    simpa using (List.mem_filter.mp hn).2
  have hp' : p ∈ pipelineKey defaults e.1.pipelines := by
    rw [← hkey]
    exact hpipes ▸ hp
  obtain ⟨c, hc, hca, hcp⟩ := accepted_of_writeAll out hok hp'
  obtain ⟨hct, hcu, hcd, -⟩ := mem_writeAll out hc
  have hcalls : c ∈ (ItemBuffer.persist lib st out defaults cache batch).2.2.calls := by
    rw [(persist_adds lib st out defaults cache batch).1]
    exact List.mem_flatMap.mpr ⟨e, he, hc⟩
  refine ⟨c, hcalls, hca, hcp, ?_, ?_, ?_⟩
  · rw [hct, htable, ← hkey]
    rfl
  · rw [hcu, hupdate, ← hkey]
    rfl
  · rw [hcd]
    exact List.mem_map_of_mem hn

/-- What the filter contains is the fingerprint of an item that all its pipelines
accepted. -/
def KnownAccepted (lib : Stdlib) (defaults : List String) (s : ItemHistory) : Prop :=
  ∀ fp ∈ s.known, ∃ c ∈ s.past, ∃ j o w, AcceptedAt lib defaults c j o w ∧ w.mark lib = fp

theorem KnownAccepted.persist (hs : KnownAccepted lib defaults s) (batch : List Obj) (out : Turnout) :
    KnownAccepted lib defaults (s.persist lib st defaults batch out) := by
  intro fp hfp
  rcases List.mem_append.mp (show fp ∈ s.known ++ _ from hfp) with hfp | hfp
  · obtain ⟨c, hc, h⟩ := hs fp hfp
    exact ⟨c, List.mem_append_left _ hc, h⟩
  · obtain ⟨e, he, hok, n, hn, hf⟩ := persist_recorded lib st (s.answers out) defaults s.cache batch hfp
    have hd : getDedup st (s.answers out) = .ok () := by
      by_contra hd
      unfold persistGroups at he
      split at he
      · exact absurd he List.not_mem_nil
      · exact absurd ‹_› hd
    obtain ⟨hall, hrows, -⟩ := mem_persistGroups lib st _ he
    have hfresh := hn
    rw [hrows] at hfresh
    obtain ⟨j, o, ho, hnorm, hdec⟩ := exists_place defaults s.cache hd hall (List.mem_filter.mp hfresh).1
    obtain ⟨w, hw, hmark, htable, hupdate, hpipes⟩ := writeOf_normalize lib st defaults hnorm hf
    exact ⟨_, List.mem_append_right _ (List.mem_singleton_self _), j, o, w,
      acceptedAt_of_group he hok hn ho hdec hw htable hupdate hpipes, hmark⟩

theorem known_accepted (h : (machine lib st defaults).Reachable s) : KnownAccepted lib defaults s := by
  refine h.induct (fun s hs => ?_) fun s a t hs _ ht => ?_
  · cases hs
    exact nofun
  · cases ht
    exact hs.persist a.1 a.2

/-! ## What is dropped -/

/-- An item that lands is accepted by all its pipelines, or dumped. -/
theorem stored_of_lands {cache : List (List String)} {n : Norm} (hl : Lands lib st out defaults cache batch n)
    {j : Nat} {o : Obj} {w : ItemWrite} {fp : String} (ho : batch[j]? = some o)
    (hnorm : normalize lib st o = .ok n) (hf : n.fingerprint = some fp)
    (hdec : (ItemBuffer.persist lib st out defaults cache batch).2.2.decided[j]? = some (n, false))
    (hw : writeOf lib defaults o = some w) :
    AcceptedAt lib defaults ⟨batch, (ItemBuffer.persist lib st out defaults cache batch).2.2⟩ j o w ∨
      DumpedAt lib defaults ⟨batch, (ItemBuffer.persist lib st out defaults cache batch).2.2⟩ j o w := by
  obtain ⟨hd, hall, pre, ns, post, hes, hpre, hload, hends⟩ := hl
  have he : (n.groupKey, ns) ∈ persistGroups lib st out defaults cache batch := by
    rw [persistGroups_eq lib st out hd hall, hes]
    refine mem_reachedGroups st out defaults (fun e he => ?_) hpre hload
    exact (Groups.ofList (fresh st out 0 [] (rows lib st batch))).nonempty e (by rw [hes]; exact List.mem_append_left _ he)
  have hn : n ∈ ns := by
    obtain ⟨-, hrows, -⟩ := mem_persistGroups lib st out he
    obtain ⟨pre, post, hb, -, -, hpost, hdec'⟩ := persist_decided lib st out defaults cache batch
    rw [hpost hd hall, List.append_nil] at hb
    subst hb
    rw [hdec'] at hdec
    rw [show ns = _ from hrows, List.mem_filter, fresh_eq]
    exact ⟨List.mem_map.mpr ⟨_, List.mem_filter.mpr ⟨List.mem_of_getElem? hdec, rfl⟩, rfl⟩, by simp⟩
  obtain ⟨w', hw', -, htable, hupdate, hpipes⟩ := writeOf_normalize lib st defaults hnorm hf
  obtain rfl : w' = w := Option.some.inj (hw'.symm.trans hw)
  cases hok : (groupWrite out defaults (n.groupKey, ns)).2 with
  | true => exact .inl (acceptedAt_of_group he hok hn ho hdec hw htable hupdate hpipes)
  | false =>
    refine .inr ⟨ho, hw, n, ?_⟩
    rcases hends with hall | ⟨hopen, k, hk, hlines⟩
    · refine absurd ((writeAll_snd out n.groupKey _ _ 0 _).mpr fun i hi => ?_) (Bool.eq_false_iff.mp hok)
      rw [Nat.zero_add]
      exact hall i hi
    · have hok' : ∀ i ≤ k, out.dumpLine n.groupKey (0 + i) = .ok () := by
        intro i hi
        rw [Nat.zero_add]
        exact hlines i hi
      obtain ⟨line, hline⟩ : ∃ line, (n, line) ∈ (dumpLines out n.groupKey (groupKeys ns) 0 ns).2 :=
        mem_dumpLines_of_ok out hk hok'
      refine ⟨line, hdec, ?_⟩
      rw [(persist_adds lib st out defaults cache batch).2]
      refine List.mem_flatMap.mpr ⟨_, he, ?_⟩
      rw [groupDump, hok, if_neg Bool.false_ne_true, ItemBuffer.dumpFailed]
      dsimp only
      rw [hopen]
      exact hline

/-- What a batch drops is stored, if its fingerprints tell the write. -/
theorem stored_of_tells (hs : KnownAccepted lib defaults s) (ht : Tells lib st defaults s (batch, out)) {i : Nat}
    {n : Norm}
    (h : (ItemBuffer.persist lib st (s.answers out) defaults s.cache batch).2.2.decided[i]? = some (n, true)) :
    StoredAt lib defaults s.past
      ⟨batch, (ItemBuffer.persist lib st (s.answers out) defaults s.cache batch).2.2⟩ i := by
  obtain ⟨pre, post, he, hpre, hfail, hpost, hdec⟩ := persist_decided lib st (s.answers out) defaults s.cache batch
  have hrow : ∀ {k : Nat} {m : Norm} {b : Bool},
      (decisions st (s.answers out) 0 [] (rows lib st pre))[k]? = some (m, b) →
      ∃ o, pre[k]? = some o ∧ batch[k]? = some o ∧ normalize lib st o = .ok m := by
    intro k m b hk
    have hm : (rows lib st pre)[k]? = some m := by
      rw [← decisions_fst st (s.answers out) 0 [] (rows lib st pre), List.getElem?_map, hk]
      rfl
    obtain ⟨o, ho, hnorm⟩ := (rows_getElem lib st hpre).mp hm
    refine ⟨o, ho, ?_, hnorm⟩
    rw [he, List.getElem?_append_left (List.getElem?_eq_some_iff.mp ho).1, ho]
  rw [hdec] at h
  obtain ⟨hon, fp, hf, hwhy⟩ := decisions_dropped st (s.answers out) h
  obtain ⟨o, hop, ho, hnorm⟩ := hrow h
  obtain ⟨w, hw, rfl, -⟩ := writeOf_normalize lib st defaults hnorm hf
  refine ⟨o, w, ho, hw, ?_⟩
  rcases hwhy with hseen | hfound | ⟨j, hj, m, hm, hmf⟩
  · exact absurd hseen List.not_mem_nil
  · -- the filter knows it from an item that was accepted
    rw [Nat.zero_add] at hfound
    have hknown : w.mark lib ∈ s.known := by
      simp only [answers] at hfound
      cases hl : out.lookup i (w.mark lib) with
      | error e => simp [hl, Except.map] at hfound
      | ok b => simpa [hl, Except.map] using hfound
    obtain ⟨c, hc, j, o', w', hacc, hmark⟩ := hs _ hknown
    exact ⟨o', w', same_of_mark (ht.earlier i o w ho hw hfound c hc j o' w' hacc) hmark, .inl ⟨c, hc, j, hacc⟩⟩
  · -- it was seen in this batch
    obtain ⟨o', -, ho', hnorm'⟩ := hrow hm
    obtain ⟨w', hw', hmark, -⟩ := writeOf_normalize lib st defaults hnorm' hmf
    obtain ⟨-, hnew, hbefore⟩ := decisions_left st (s.answers out) hon hm hmf
    have hlt : i < pre.length := (List.getElem?_eq_some_iff.mp hop).1
    have hd : getDedup st out = .ok () := by
      by_contra hd
      rw [hfail hd] at hlt
      exact absurd hlt (Nat.not_lt_zero i)
    have htake : ∀ x ∈ batch.take (i + 1), Accepts lib st x := by
      intro x hx
      rw [he, List.take_append_of_le_length (by omega)] at hx
      exact hpre x (List.mem_of_mem_take hx)
    obtain ⟨htells, hlands⟩ := ht.batch i j o o' w w' hj ho ho' hw hw' hmark hd htake
      (by rwa [Nat.zero_add] at hnew) fun j' hj' x wx hx hwx hmx => by
        have hjp : j' < pre.length := by omega
        rw [he, List.getElem?_append_left hjp] at hx
        obtain ⟨m', hm'⟩ := hpre x (List.mem_of_getElem? hx)
        have hf' : m'.fingerprint = some (w.mark lib) := hmx ▸ fingerprint_of_writeOf lib st defaults hon hm' hwx
        have := hbefore j' hj' m' ((rows_getElem lib st hpre).mpr ⟨x, hx, hm'⟩) hf'
        rwa [Nat.zero_add] at this
    refine ⟨o', w', same_of_mark htells hmark, .inr ⟨j, hj, ?_⟩⟩
    exact stored_of_lands (hlands m hnorm') ho' hnorm' hmf (by rw [hdec, hm]) hw'

/-- In a run whose fingerprints tell the write, whatever is dropped is stored where it
belongs. -/
theorem drops_stored (lib : Stdlib) (st : Setting) (defaults : List String) {s : ItemHistory}
    (h : (machine lib st defaults).Within (Tells lib st defaults) s) : DropsStored lib defaults s := by
  refine h.induct_with (fun s hs => known_accepted hs.reachable) (fun s hs => ?_) fun s a t hk hs hg ht => ?_
  · cases hs
    intro past c later he
    exact absurd he (by simp)
  · cases ht
    intro past c later he i n hn
    rcases List.append_eq_append_iff.mp (show s.past ++ [_] = past ++ c :: later from he) with ⟨l, rfl, hl⟩ | ⟨l, hl, hr⟩
    · cases l with
      | nil =>
        rw [List.append_nil]
        cases hl
        exact stored_of_tells hk hg hn
      | cons x l => simp at hl
    · cases l with
      | nil =>
        rw [List.append_nil] at hl
        cases hr
        rw [← hl]
        exact stored_of_tells hk hg hn
      | cons x l =>
        cases hr
        exact hs past c l hl i n hn

/-! ## Two pipelines -/

/-- The standard library on the items of `pages`. -/
def pageLib : Stdlib where
  urlsplit url := .ok ⟨"", "", url, "", ""⟩
  parseQsl _ := []
  urlencode _ := ""
  urlunsplit p := p.path
  dumpsSorted _ := .ok ""
  str _ := ""
  repr
    | .str s => "'" ++ s ++ "'"
    | _ => ""
  md5 text := if text = "news|url='u'" then "d97b9223f14d5546af507261c37db30a" else text
  lower text := text

/-- One page, with pipelines of its own. -/
def page (pipelines : List String) : Obj :=
  .item {
    cls := { name := "NewsItem", tableName := some "news" }
    inst := { pipelines := some pipelines, attrs := [("url", .str "u")] } }

/-- Batches of one page each. -/
def pages (pipelines : List (List String)) : List (List Obj × Turnout) := pipelines.map fun ps => ([page ps], {})

def after (batches : List (List Obj × Turnout)) : ItemHistory :=
  batches.foldl (fun s b => s.persist pageLib {} [] b.1 b.2) {}

/-- The page for the second pipeline is dropped, and its pipeline is never called. -/
theorem twoStores_not_stored :
    ¬ ∀ (lib : Stdlib) (st : Setting) (defaults : List String) (s : ItemHistory),
      (machine lib st defaults).Reachable s → DropsStored lib defaults s := by
  intro h
  have hr : (machine pageLib {} []).Reachable (after (pages [["pg"], ["es"]])) :=
    .step (a := ([page ["es"]], {})) (.step (a := ([page ["pg"]], {})) (.start rfl) trivial rfl) trivial rfl
  obtain ⟨o, w, ho, hw, o', w', hsame, hstored⟩ := h pageLib {} [] _ hr [_] _ [] rfl 0 _ rfl
  cases ho
  cases hw
  rcases hstored with ⟨c, hc, j, hacc⟩ | ⟨j, hj, -⟩
  · obtain ⟨n, -, hcalls⟩ := hacc.accepted
    have hes : "es" ∈ w'.pipelines := hsame.pipelines ▸ List.mem_singleton_self _
    obtain ⟨call, hcall, -, hp, -⟩ := hcalls "es" hes
    cases List.mem_singleton.mp hc
    cases List.mem_singleton.mp hcall
    exact absurd hp (by decide)
  · exact absurd hj (Nat.not_lt_zero j)

/-- A page that comes again for the same pipelines. -/
theorem drops_stored_again : DropsStored pageLib [] (after (pages [["pg"], ["pg"]])) := by
  refine drops_stored pageLib {} []
    (.step (a := ([page ["pg"]], {})) (.step (a := ([page ["pg"]], {})) (.start rfl) ⟨?_, ?_⟩ rfl) ⟨?_, ?_⟩ rfl)
  · intro i o w _ _ _ c hc
    exact absurd hc List.not_mem_nil
  · intro i j o o' w w' hji hi
    cases i <;> simp at hi hji
  · intro i o w hi hw _ c hc j o' w' hacc
    cases List.mem_singleton.mp hc
    have hw' := hacc.write
    cases List.mem_singleton.mp (List.mem_of_getElem? hi)
    cases List.mem_singleton.mp (List.mem_of_getElem? hacc.object)
    rw [Option.some.inj (hw'.symm.trans hw)]
    exact not_confused_self pageLib w
  · intro i j o o' w w' hji hi
    cases i <;> simp at hi hji

end ItemHistory

end Netspy
