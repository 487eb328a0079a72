import Netspy.Proof.ItemBuffer

/-!
# What `_persist` does group by group

The groups that `_persist` gets to are `persistGroups`; its calls, and what it dumps,
are those of these groups (`persist_adds`).
-/

namespace Netspy

namespace ItemBuffer

variable (lib : Stdlib) (st : Setting) (out : Turnout)

/-! ## The groups that are written -/

/-- `rows[0].update_keys`. -/
def groupKeys (rows : List Norm) : List String := (rows.head?.map Norm.updateKeys).getD []

/-- The calls for one group, and whether all its pipelines accepted it. -/
def groupWrite (defaults : List String) (e : GroupKey × List Norm) : List WriteCall × Bool :=
  writeAll out e.1 (e.2.map Norm.data) (groupKeys e.2) 0 (pipelineKey defaults e.1.pipelines)

/-- What is dumped of one group. -/
def groupDump (defaults : List String) (e : GroupKey × List Norm) : List (Norm × DumpRecord) :=
  if (groupWrite out defaults e).2 then [] else (dumpFailed out e.1 (groupKeys e.2) e.2).2

/-- The groups up to the first one whose pipelines cannot be loaded, or whose dump
raises. -/
def reachedGroups (defaults : List String) : List (GroupKey × List Norm) → List (List String) →
    List (GroupKey × List Norm)
  | [], _ => []
  | e :: rest, cache =>
    match resolvePipelines out (pipelineKey defaults e.1.pipelines) cache with
    | (.error _, _) => []
    | (.ok (), cache) =>
      match (storeGroup st out e.1 (pipelineKey defaults e.1.pipelines) e.2 {}).1 with
      | .error _ => [e]
      | .ok () => e :: reachedGroups defaults rest cache

/-- The groups whose pipelines `_persist` calls. -/
def persistGroups (defaults : List String) (cache : List (List String)) (batch : List Obj) :
    List (GroupKey × List Norm) :=
  match getDedup st out with
  | .error _ => []
  | .ok () =>
    match sift lib st out 0 batch {} with
    | (.error _, _) => []
    | (.ok (), acc) => reachedGroups st out defaults acc.groups.entries cache

theorem mem_dumpLines {k : GroupKey} {updateKeys : List String} {j : Nat} {ns : List Norm} {d : Norm × DumpRecord}
    (h : d ∈ (dumpLines out k updateKeys j ns).2) : d.1 ∈ ns ∧ d.2 = dumpRecord k updateKeys d.1 := by
  induction ns generalizing j with
  | nil => exact absurd h List.not_mem_nil
  | cons n ns ih =>
    rw [dumpLines] at h
    split at h
    · exact absurd h List.not_mem_nil
    · rcases List.mem_cons.mp h with rfl | h
      · exact ⟨List.mem_cons_self, rfl⟩
      · exact (ih h).imp_left (List.mem_cons_of_mem _)

theorem mem_dumpFailed {k : GroupKey} {updateKeys : List String} {ns : List Norm} {d : Norm × DumpRecord}
    (h : d ∈ (dumpFailed out k updateKeys ns).2) : d.1 ∈ ns ∧ d.2 = dumpRecord k updateKeys d.1 := by
  rw [dumpFailed] at h
  split at h
  · exact absurd h List.not_mem_nil
  · exact mem_dumpLines out h

/-- A group adds its calls and its dump, and raises whatever was done before. -/
theorem storeGroup_adds (defaults : List String) (e : GroupKey × List Norm) (rep : Report) :
    (storeGroup st out e.1 (pipelineKey defaults e.1.pipelines) e.2 rep).2.calls =
        rep.calls ++ (groupWrite out defaults e).1 ∧
      (storeGroup st out e.1 (pipelineKey defaults e.1.pipelines) e.2 rep).2.dumped =
        rep.dumped ++ groupDump out defaults e ∧
      (storeGroup st out e.1 (pipelineKey defaults e.1.pipelines) e.2 rep).1 =
        (storeGroup st out e.1 (pipelineKey defaults e.1.pipelines) e.2 {}).1 := by
  unfold groupDump
  cases hok : (groupWrite out defaults e).2 with
  | true =>
    have hw : (writeAll out e.1 (e.2.map Norm.data) ((e.2.head?.map Norm.updateKeys).getD []) 0
      (pipelineKey defaults e.1.pipelines)).2 = true := hok
    simp only [storeGroup, hw, if_true]
    cases st.ITEM_FILTER_ENABLE with
    | true => exact ⟨rfl, (List.append_nil _).symm, rfl⟩
    | false => exact ⟨rfl, (List.append_nil _).symm, rfl⟩
  | false =>
    have hw : (writeAll out e.1 (e.2.map Norm.data) ((e.2.head?.map Norm.updateKeys).getD []) 0
      (pipelineKey defaults e.1.pipelines)).2 = false := hok
    simp only [storeGroup, hw, Bool.false_eq_true, if_false]
    exact ⟨rfl, rfl, trivial⟩

theorem writeGroups_adds (defaults : List String) (es : List (GroupKey × List Norm))
    (cache : List (List String)) (rep : Report) :
    (writeGroups st out defaults es cache rep).2.2.calls =
        rep.calls ++ (reachedGroups st out defaults es cache).flatMap (fun e => (groupWrite out defaults e).1) ∧
      (writeGroups st out defaults es cache rep).2.2.dumped =
        rep.dumped ++ (reachedGroups st out defaults es cache).flatMap (groupDump out defaults) := by
  induction es generalizing cache rep with
  | nil => exact ⟨(List.append_nil _).symm, (List.append_nil _).symm⟩
  | cons e es ih =>
    obtain ⟨hcalls, hdumped, hres⟩ := storeGroup_adds st out defaults e rep
    rw [writeGroups, reachedGroups]
    cases resolvePipelines out (pipelineKey defaults e.1.pipelines) cache with
    | mk res cache =>
      cases res with
      | error x => exact ⟨(List.append_nil _).symm, (List.append_nil _).symm⟩
      | ok u =>
        dsimp only
        rw [← hres]
        cases hs : storeGroup st out e.1 (pipelineKey defaults e.1.pipelines) e.2 rep with
        | mk res rep' =>
          rw [hs] at hcalls hdumped
          cases res with
          | error x =>
            simp only [List.flatMap_cons, List.flatMap_nil, List.append_nil]
            exact ⟨hcalls, hdumped⟩
          | ok u =>
            obtain ⟨ihc, ihd⟩ := ih cache rep'
            simp only [List.flatMap_cons, ← List.append_assoc]
            rw [← hcalls, ← hdumped]
            exact ⟨ihc, ihd⟩

theorem writeAll_cons (k : GroupKey) (datas : List Dict) (updateKeys : List String) (j : Nat) (p : String)
    (ps : List String) :
    ∃ accepted, writeAll out k datas updateKeys j (p :: ps) =
      let call : WriteCall := ⟨p, k.table, k.isUpdate, datas, updateKeys, accepted⟩
      if accepted then
        (call :: (writeAll out k datas updateKeys (j + 1) ps).1, (writeAll out k datas updateKeys (j + 1) ps).2)
      else ([call], false) :=
  ⟨_, rfl⟩

theorem mem_writeAll {k : GroupKey} {datas : List Dict} {updateKeys : List String} {j : Nat} {ps : List String}
    {c : WriteCall} (h : c ∈ (writeAll out k datas updateKeys j ps).1) :
    c.table = k.table ∧ c.isUpdate = k.isUpdate ∧ c.datas = datas ∧ c.updateKeys = updateKeys := by
  induction ps generalizing j with
  | nil => exact absurd h List.not_mem_nil
  | cons p ps ih =>
    obtain ⟨accepted, he⟩ := writeAll_cons out k datas updateKeys j p ps
    rw [he] at h
    cases accepted with
    | true =>
      rcases List.mem_cons.mp h with rfl | h
      · exact ⟨rfl, rfl, rfl, rfl⟩
      · exact ih h
    | false =>
      rw [List.mem_singleton.mp h]
      exact ⟨rfl, rfl, rfl, rfl⟩

/-- The first pipeline is called. -/
theorem exists_writeAll (k : GroupKey) (datas : List Dict) (updateKeys : List String) {ps : List String}
    (h : ps ≠ []) : ∃ c, c ∈ (writeAll out k datas updateKeys 0 ps).1 := by
  obtain ⟨p, ps, rfl⟩ := List.exists_cons_of_ne_nil h
  obtain ⟨accepted, he⟩ := writeAll_cons out k datas updateKeys 0 p ps
  rw [he]
  cases accepted with
  | true => exact ⟨_, List.mem_cons_self⟩
  | false => exact ⟨_, List.mem_singleton_self _⟩

theorem siftOne_calls (i : Nat) (n : Norm) (acc : Sifted) :
    (siftOne st out i n acc).report.calls = acc.report.calls ∧
      (siftOne st out i n acc).report.dumped = acc.report.dumped := by
  cases hf : n.fingerprint with
  | none => simp [siftOne, hf]
  | some fp =>
    cases he : st.ITEM_FILTER_ENABLE with
    | false => simp [siftOne, hf, he]
    | true =>
      simp only [siftOne, hf, he, if_true]
      cases (if fp ∈ acc.seen then Except.ok true else out.lookup i fp) with
      | error e => exact ⟨rfl, rfl⟩
      | ok duplicate => cases duplicate <;> exact ⟨rfl, rfl⟩

theorem sift_calls (i : Nat) (objs : List Obj) (acc : Sifted) :
    (sift lib st out i objs acc).2.report.calls = acc.report.calls ∧
      (sift lib st out i objs acc).2.report.dumped = acc.report.dumped := by
  induction objs generalizing i acc with
  | nil => exact ⟨rfl, rfl⟩
  | cons obj objs ih =>
    rw [sift]
    split
    · exact ⟨rfl, rfl⟩
    · rename_i n _
      obtain ⟨hc, hd⟩ := siftOne_calls st out i n acc
      exact ⟨(ih _ _).1.trans hc, (ih _ _).2.trans hd⟩

/-- The calls of `_persist` are those of the groups it gets to, and so is what it
dumps. -/
theorem persist_adds (defaults : List String) (cache : List (List String)) (batch : List Obj) :
    (persist lib st out defaults cache batch).2.2.calls =
        (persistGroups lib st out defaults cache batch).flatMap (fun e => (groupWrite out defaults e).1) ∧
      (persist lib st out defaults cache batch).2.2.dumped =
        (persistGroups lib st out defaults cache batch).flatMap (groupDump out defaults) := by
  unfold persist persistGroups
  cases getDedup st out with
  | error e => exact ⟨rfl, rfl⟩
  | ok u =>
    dsimp only
    obtain ⟨hc, hd⟩ := sift_calls lib st out 0 batch {}
    cases hs : sift lib st out 0 batch {} with
    | mk res acc =>
      rw [hs] at hc hd
      cases res with
      | error e => exact ⟨hc, hd⟩
      | ok u =>
        obtain ⟨hgc, hgd⟩ := writeGroups_adds st out defaults acc.groups.entries cache acc.report
        dsimp only
        rw [hgc, hgd, hc, hd]
        exact ⟨rfl, rfl⟩

/-- What the groups leave is what those that are reached leave one after the other. -/
theorem writeGroups_foldl (defaults : List String) (es : List (GroupKey × List Norm)) (cache : List (List String))
    (rep : Report) :
    (writeGroups st out defaults es cache rep).2.2 = (reachedGroups st out defaults es cache).foldl
      (fun rep e => (storeGroup st out e.1 (pipelineKey defaults e.1.pipelines) e.2 rep).2) rep := by
  induction es generalizing cache rep with
  | nil => rfl
  | cons e es ih =>
    obtain ⟨-, -, hres⟩ := storeGroup_adds st out defaults e rep
    rw [writeGroups, reachedGroups]
    cases resolvePipelines out (pipelineKey defaults e.1.pipelines) cache with
    | mk res cache =>
      cases res with
      | error x => rfl
      | ok u =>
        dsimp only
        rw [← hres]
        cases hs : storeGroup st out e.1 (pipelineKey defaults e.1.pipelines) e.2 rep with
        | mk res rep' =>
          cases res with
          | error x => simp only [List.foldl_cons, List.foldl_nil, hs]
          | ok u => simp only [List.foldl_cons, hs, ih]

theorem storeGroup_decided (defaults : List String) (e : GroupKey × List Norm) (rep : Report) :
    (storeGroup st out e.1 (pipelineKey defaults e.1.pipelines) e.2 rep).2.decided = rep.decided := by
  simp only [storeGroup]
  split
  · split <;> rfl
  · rfl

theorem mem_recordAll {k : GroupKey} {j : Nat} {ns : List Norm} {fp : String}
    (h : fp ∈ (recordAll out k j ns).1) : ∃ n ∈ ns, n.fingerprint = some fp := by
  induction ns generalizing j with
  | nil => exact absurd h List.not_mem_nil
  | cons n ns ih =>
    rw [recordAll] at h
    cases hf : n.fingerprint with
    | none =>
      rw [hf] at h
      obtain ⟨m, hm, hmf⟩ := ih h
      exact ⟨m, List.mem_cons_of_mem _ hm, hmf⟩
    | some fp' =>
      rw [hf] at h
      dsimp only at h
      split at h
      · exact absurd h List.not_mem_nil
      · rcases List.mem_cons.mp h with rfl | h
        · exact ⟨n, List.mem_cons_self, hf⟩
        · obtain ⟨m, hm, hmf⟩ := ih h
          exact ⟨m, List.mem_cons_of_mem _ hm, hmf⟩

/-- The fingerprints that a group adds are of its rows, and all its pipelines accepted
it. -/
theorem storeGroup_recorded (defaults : List String) (e : GroupKey × List Norm) (rep : Report) {fp : String}
    (h : fp ∈ (storeGroup st out e.1 (pipelineKey defaults e.1.pipelines) e.2 rep).2.recorded) :
    fp ∈ rep.recorded ∨ (groupWrite out defaults e).2 = true ∧ ∃ n ∈ e.2, n.fingerprint = some fp := by
  cases hok : (groupWrite out defaults e).2 with
  | true =>
    have hw : (writeAll out e.1 (e.2.map Norm.data) ((e.2.head?.map Norm.updateKeys).getD []) 0
      (pipelineKey defaults e.1.pipelines)).2 = true := hok
    simp only [storeGroup, hw, if_true] at h
    split at h
    · rcases List.mem_append.mp h with h | h
      · exact .inl h
      · exact .inr ⟨rfl, mem_recordAll out h⟩
    · exact .inl h
  | false =>
    have hw : (writeAll out e.1 (e.2.map Norm.data) ((e.2.head?.map Norm.updateKeys).getD []) 0
      (pipelineKey defaults e.1.pipelines)).2 = false := hok
    simp only [storeGroup, hw, Bool.false_eq_true, if_false] at h
    exact .inl h

/-- The groups that are reached are groups of the batch. -/
theorem reachedGroups_subset (defaults : List String) (es : List (GroupKey × List Norm)) (cache : List (List String)) :
    reachedGroups st out defaults es cache ⊆ es := by
  induction es generalizing cache with
  | nil => exact List.Subset.refl _
  | cons e es ih =>
    rw [reachedGroups]
    split
    · exact List.nil_subset _
    · split
      · exact List.cons_subset_cons _ (List.nil_subset _)
      · exact List.cons_subset_cons _ (ih _)

/-- If nothing fails all groups are reached. -/
theorem reachedGroups_eq (hload : ∀ key, out.load key = .ok ()) (hwrite : ∀ k i, out.write k i = .ok true)
    (defaults : List String) (es : List (GroupKey × List Norm)) (cache : List (List String)) :
    reachedGroups st out defaults es cache = es := by
  induction es generalizing cache with
  | nil => rfl
  | cons e es ih =>
    have hw : (writeAll out e.1 (e.2.map Norm.data) ((e.2.head?.map Norm.updateKeys).getD []) 0
        (pipelineKey defaults e.1.pipelines)).2 = true :=
      (writeAll_snd out e.1 _ _ 0 _).mpr fun i _ => hwrite e.1 _
    have hs : (storeGroup st out e.1 (pipelineKey defaults e.1.pipelines) e.2 {}).1 = .ok () := by
      simp only [storeGroup, hw, if_true]
      split <;> rfl
    have hl : ∃ cache', resolvePipelines out (pipelineKey defaults e.1.pipelines) cache = (.ok (), cache') := by
      unfold resolvePipelines
      split
      · exact ⟨_, rfl⟩
      · rw [hload]
        exact ⟨_, rfl⟩
    obtain ⟨cache', hl⟩ := hl
    rw [reachedGroups, hl]
    simp only [hs, ih]

theorem siftOne_leaves (i : Nat) (n : Norm) (acc : Sifted) :
    (siftOne st out i n acc).report.recorded = acc.report.recorded ∧
      (siftOne st out i n acc).report.decided = acc.report.decided ++ [(n, drops st out i acc.seen n)] := by
  unfold drops
  cases hf : n.fingerprint with
  | none => simp [siftOne, hf]
  | some fp =>
    cases he : st.ITEM_FILTER_ENABLE with
    | false => simp [siftOne, hf, he]
    | true =>
      by_cases hs : fp ∈ acc.seen
      · simp [siftOne, hf, he, hs]
      · cases hk : out.lookup i fp with
        | error e => simp [siftOne, hf, he, hs, hk]
        | ok known => cases known <;> simp [siftOne, hf, he, hs, hk]

/-- What the first loop decides of each row. -/
def decisions : Nat → List String → List Norm → List (Norm × Bool)
  | _, _, [] => []
  | i, seen, n :: ns =>
    if drops st out i seen n then (n, true) :: decisions (i + 1) seen ns
    else (n, false) :: decisions (i + 1) (remember st seen n) ns

theorem siftRows_leaves (i : Nat) (ns : List Norm) (acc : Sifted) :
    (siftRows st out i ns acc).report.recorded = acc.report.recorded ∧
      (siftRows st out i ns acc).report.decided = acc.report.decided ++ decisions st out i acc.seen ns := by
  induction ns generalizing i acc with
  | nil => exact ⟨rfl, (List.append_nil _).symm⟩
  | cons n ns ih =>
    obtain ⟨hr, hd⟩ := siftOne_leaves st out i n acc
    obtain ⟨ihr, ihd⟩ := ih (i + 1) (siftOne st out i n acc)
    refine ⟨ihr.trans hr, ?_⟩
    rw [siftRows, ihd, hd, List.append_assoc, decisions]
    cases hdrop : drops st out i acc.seen n with
    | true => rw [(siftOne_drops st out hdrop).1, if_pos rfl, List.singleton_append]
    | false => rw [(siftOne_fresh st out hdrop).1, if_neg Bool.false_ne_true, List.singleton_append]

/-- `_persist` decides of the rows up to the first object that is not accepted. -/
theorem persist_decided (defaults : List String) (cache : List (List String)) (batch : List Obj) :
    ∃ pre post, batch = pre ++ post ∧ (∀ o ∈ pre, Accepts lib st o) ∧ (getDedup st out ≠ .ok () → pre = []) ∧
      (getDedup st out = .ok () → (∀ o ∈ batch, Accepts lib st o) → post = []) ∧
      (persist lib st out defaults cache batch).2.2.decided = decisions st out 0 [] (rows lib st pre) := by
  cases hd : getDedup st out with
  | error e => exact ⟨[], batch, rfl, nofun, fun _ => rfl, nofun, by rw [persist, hd]; rfl⟩
  | ok u =>
    rcases accepts_or_split lib st batch with hall | ⟨pre, o, post, rfl, hpre, ho⟩
    · refine ⟨batch, [], (List.append_nil _).symm, hall, fun h => absurd rfl h, fun _ _ => rfl, ?_⟩
      rw [persist, hd]
      dsimp only
      rw [sift_ok lib st out hall]
      dsimp only
      rw [writeGroups_foldl]
      have hleft := (siftRows_leaves st out 0 (rows lib st batch) {}).2
      refine List.foldlRecOn (motive := fun (rep : Report) => rep.decided = decisions st out 0 [] (rows lib st batch))
        _ _ hleft fun rep h e _ => ?_
      exact (storeGroup_decided st out defaults e rep).trans h
    · refine ⟨pre, o :: post, rfl, hpre, fun h => absurd rfl h, fun _ h => absurd (h o (by simp)) ho, ?_⟩
      obtain ⟨e, hs⟩ := sift_error lib st out hpre ho post {}
      rw [persist, hd]
      dsimp only
      rw [hs]
      exact (siftRows_leaves st out 0 _ {}).2

/-- A fingerprint that `_persist` records is of a row that all its pipelines accepted. -/
theorem persist_recorded (defaults : List String) (cache : List (List String)) (batch : List Obj) {fp : String}
    (h : fp ∈ (persist lib st out defaults cache batch).2.2.recorded) :
    ∃ e ∈ persistGroups lib st out defaults cache batch, (groupWrite out defaults e).2 = true ∧
      ∃ n ∈ e.2, n.fingerprint = some fp := by
  unfold persist at h
  unfold persistGroups
  cases hd : getDedup st out with
  | error e =>
    rw [hd] at h
    exact absurd h List.not_mem_nil
  | ok u =>
    rw [hd] at h
    dsimp only at h ⊢
    rcases accepts_or_split lib st batch with hall | ⟨pre, o, post, rfl, hpre, ho⟩
    · rw [sift_ok lib st out hall] at h ⊢
      dsimp only at h ⊢
      rw [writeGroups_foldl] at h
      refine List.foldlRecOn (motive := fun (rep : Report) => fp ∈ rep.recorded → _) _ _ (fun h => ?_)
        (fun rep ih e he h => ?_) h
      · rw [(siftRows_leaves st out 0 _ {}).1] at h
        exact absurd h List.not_mem_nil
      · rcases storeGroup_recorded st out defaults e rep h with h | h
        · exact ih h
        · exact ⟨e, he, h⟩
    · obtain ⟨e, hs⟩ := sift_error lib st out hpre ho post {}
      rw [hs] at h
      dsimp only at h
      rw [(siftRows_leaves st out 0 _ {}).1] at h
      exact absurd h List.not_mem_nil

/-- A group that is reached has rows of one key that dedup left, of a batch that is
accepted as a whole. -/
theorem mem_persistGroups {defaults : List String} {cache : List (List String)} {batch : List Obj}
    {e : GroupKey × List Norm} (h : e ∈ persistGroups lib st out defaults cache batch) :
    (∀ o ∈ batch, Accepts lib st o) ∧
      e.2 = (fresh st out 0 [] (rows lib st batch)).filter (fun n => n.groupKey = e.1) ∧ e.2 ≠ [] := by
  unfold persistGroups at h
  split at h
  · exact absurd h List.not_mem_nil
  · rcases accepts_or_split lib st batch with hall | ⟨pre, o, post, rfl, hpre, ho⟩
    · rw [sift_ok lib st out hall] at h
      have hg := (siftRows_spec st out 0 (rows lib st batch) {}).1
      have he := reachedGroups_subset st out defaults _ cache h
      rw [hg] at he
      exact ⟨hall, Groups.mem_entries_ofList.mp he⟩
    · obtain ⟨x, hs⟩ := sift_error lib st out hpre ho post {}
      rw [hs] at h
      exact absurd h List.not_mem_nil

end ItemBuffer

end Netspy
