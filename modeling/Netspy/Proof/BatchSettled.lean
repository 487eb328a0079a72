import Netspy.Proof.BatchSpider

/-!
# When a batch is finished

The master finishes a batch when it has counted every row as done or failed.
Between the count and the end of the batch workers may mark rows, but never put
one back, so all rows are settled then (`settled_or_lost`).

A row comes to `DOING` only by a claim, which notes the time. Opening a batch
forgets the times, but leaves no row in `DOING`. So from the first batch on each
such row has a time, and is put back once it is old enough.
-/

namespace Netspy

open BatchStore

namespace TaskRow

def Settled (row : TaskRow) : Prop := row.state = DONE ∨ row.state = FAILED

instance (row : TaskRow) : Decidable row.Settled := inferInstanceAs (Decidable (_ ∨ _))

end TaskRow

namespace MemoryBatchStore

variable {db : MemoryBatchStore}

/-- Each row in `DOING` has the time when it came there. -/
def Touched (db : MemoryBatchStore) : Prop :=
  ∀ row ∈ db.tasks, row.state = DOING → (db.touched.lookup row.id).isSome = true

def AllSettled (db : MemoryBatchStore) : Prop := ∀ row ∈ db.tasks, row.Settled

/-! ## The operations -/

theorem claimRows_mem {limit : Nat} {rows : List TaskRow} {row : TaskRow} (h : row ∈ (claimRows limit rows).1) :
    row ∈ rows ∨ row ∈ (claimRows limit rows).2 := by
  induction rows generalizing limit with
  | nil =>
    cases limit <;> exact .inl h
  | cons r rows ih =>
    cases limit with
    | zero => exact .inl h
    | succ k =>
      unfold claimRows at h ⊢
      split at h
      · rename_i ht
        rw [if_pos ht]
        rcases List.mem_cons.mp h with rfl | h
        · exact .inr List.mem_cons_self
        · exact (ih h).imp (List.mem_cons_of_mem r) (List.mem_cons_of_mem _)
      · rename_i ht
        rw [if_neg ht]
        rcases List.mem_cons.mp h with rfl | h
        · exact .inl List.mem_cons_self
        · exact (ih h).imp_left (List.mem_cons_of_mem r)

theorem touched_claimTasks {now limit : Nat} (h : db.Touched) : (db.claimTasks now limit).2.Touched := by
  intro row hr hd
  rw [List.lookup_isSome_iff]
  rcases claimRows_mem hr with hr | hr
  · obtain ⟨e, he, hk⟩ := List.lookup_isSome_iff.mp (h row hr hd)
    exact ⟨e, List.mem_append_right _ he, hk⟩
  · refine ⟨(row.id, now), List.mem_append_left _ ?_, beq_self_eq_true _⟩
    exact List.mem_map.mpr ⟨row, List.mem_reverse.mpr hr, rfl⟩

theorem markRows_mem {id : PyVal} {state : Int} {rows rows' : List TaskRow} (h : markRows id state rows = some rows')
    {row : TaskRow} (hr : row ∈ rows') : row ∈ rows ∨ row.state = state := by
  induction rows generalizing rows' with
  | nil => cases h
  | cons r rows ih =>
    unfold markRows at h
    split at h
    · cases h
      rcases List.mem_cons.mp hr with rfl | hr
      · exact .inr rfl
      · exact .inl (List.mem_cons_of_mem r hr)
    · obtain ⟨rest, hrest, rfl⟩ := Option.map_eq_some_iff.mp h
      rcases List.mem_cons.mp hr with rfl | hr
      · exact .inl List.mem_cons_self
      · exact (ih hrest hr).imp_left (List.mem_cons_of_mem r)

theorem markTask_mem {now : Nat} {id : PyVal} {state : Int} {row : TaskRow}
    (h : row ∈ (db.markTask now id state).tasks) : row ∈ db.tasks ∨ row.state = state := by
  unfold markTask at h
  split at h
  · rename_i rows hrows
    exact markRows_mem hrows h
  · exact .inl h

theorem touched_markTask {now : Nat} {id : PyVal} {state : Int} (h : db.Touched) (hs : state ≠ DOING) :
    (db.markTask now id state).Touched := by
  intro row hr hd
  rcases markTask_mem hr with hr | he
  · obtain ⟨e, he, hk⟩ := List.lookup_isSome_iff.mp (h row hr hd)
    refine List.lookup_isSome_iff.mpr ⟨e, ?_, hk⟩
    unfold markTask
    split
    · exact List.mem_cons_of_mem _ he
    · exact he
  · exact absurd (he.symm.trans hd) hs

theorem touched_resetAllTasks : db.resetAllTasks.Touched := by
  intro row hr hd
  obtain ⟨r, -, rfl⟩ := List.mem_map.mp hr
  exact absurd (show TODO = DOING from hd) (by decide)

theorem touched_resetLostTasks {now stale : Nat} (h : db.Touched) : (db.resetLostTasks now stale).2.Touched := by
  intro row hr hd
  obtain ⟨r, hmem, rfl⟩ := List.mem_map.mp hr
  by_cases hlost : db.isLost now stale r = true
  · rw [if_pos hlost] at hd
    exact absurd (show TODO = DOING from hd) (by decide)
  · rw [if_neg hlost] at hd ⊢
    exact h r hmem hd

/-- A row that has been in `DOING` for `stale` is put back. -/
theorem resetLostTasks_getElem? {now stale t i : Nat} {row : TaskRow} (hi : db.tasks[i]? = some row)
    (hd : row.state = DOING) (ht : db.touched.lookup row.id = some t) (hold : t + stale ≤ now) :
    (db.resetLostTasks now stale).2.tasks[i]? = some { row with state := TODO } := by
  have hlost : db.isLost now stale row = true := by
    simp only [isLost, hd, ht, Option.getD_some, decide_true, Bool.true_and, decide_eq_true_eq]
    omega
  simp only [resetLostTasks, List.getElem?_map, hi, Option.map_some, hlost, ↓reduceIte]

theorem allSettled_markTask {now : Nat} {id : PyVal} {state : Int} (h : db.AllSettled)
    (hs : state = DONE ∨ state = FAILED) : (db.markTask now id state).AllSettled := by
  intro row hr
  rcases markTask_mem hr with hr | he
  · exact h row hr
  · exact hs.imp he.trans he.trans

/-- No row is counted as done and as failed. -/
theorem countP_settled (rows : List TaskRow) :
    rows.countP (fun row => row.state = DONE ∨ row.state = FAILED) =
      rows.countP (·.state = DONE) + rows.countP (·.state = FAILED) := by
  induction rows with
  | nil => rfl
  | cons row rows ih =>
    have hne : ¬ DONE = FAILED := by decide
    by_cases hdone : row.state = DONE
    · simp only [List.countP_cons, ih, hdone, hne, decide_true, decide_false, true_or, ↓reduceIte,
        Bool.false_eq_true]
      omega
    · simp only [List.countP_cons, ih, hdone, decide_false, false_or, ↓reduceIte, Bool.false_eq_true]
      omega

/-- Every row is settled if as many are as there are. -/
theorem allSettled_of_count (h : db.countTasks.total = 0 ∨ db.countTasks.finished = true) : db.AllSettled := by
  have hcount : db.tasks.length ≤ db.tasks.countP (·.state = DONE) + db.tasks.countP (·.state = FAILED) := by
    rcases h with h | h
    · exact (show db.tasks.length = 0 from h) ▸ Nat.zero_le _
    · exact (of_decide_eq_true h).2
  rw [← countP_settled] at hcount
  have hall := List.countP_eq_length.mp (Nat.le_antisymm List.countP_le_length hcount)
  intro row hr
  have hrow := of_decide_eq_true (hall row hr)
  exact hrow

end MemoryBatchStore

namespace BatchJob

variable {ν φ : Type} [DecidableEq ν] [Filter φ] {st : Setting} {codec : Codec} {spider : BatchSpider}
  {s t : BatchJob ν MemoryBatchStore φ}

/-- What the calls of the master leave: once there is a batch, or one is about to
be created, each row in `DOING` has its time; the rows are settled when the batch
is finished. -/
structure Recoverable (s : BatchJob ν MemoryBatchStore φ) : Prop where
  opened : s.monitor = .resting ∨ s.monitor = .resetAll ∨ s.monitor = .deletePending ∨ s.monitor = .createBatch ∨
    s.store.batches ≠ []
  touched : s.store.batches ≠ [] ∨ s.monitor = .deletePending ∨ s.monitor = .createBatch → s.store.Touched
  settled : ∀ batch, s.monitor = .finish batch → s.store.AllSettled

namespace Recoverable

omit [DecidableEq ν] [Filter φ] in
/-- What is not the master's leaves the batches. -/
theorem of_store (h : Recoverable s) (hm : t.monitor = s.monitor) (hs : t.store = s.store) : Recoverable t where
  opened := by rw [hm, hs]; exact h.opened
  touched := by rw [hm, hs]; exact h.touched
  settled := by rw [hm, hs]; exact h.settled

omit [DecidableEq ν] [Filter φ] in
theorem markTask (h : Recoverable s) {now : Nat} {id : PyVal} {state : Int} (hs : state = DONE ∨ state = FAILED) :
    Recoverable { s with store := BatchStore.markTask s.store now id state } := by
  have hb : (s.store.markTask now id state).batches = s.store.batches := by
    unfold MemoryBatchStore.markTask
    split <;> rfl
  have hne : state ≠ DOING := by
    rcases hs with rfl | rfl <;> decide
  exact ⟨hb ▸ h.opened, fun ho => MemoryBatchStore.touched_markTask (h.touched (hb ▸ ho)) hne,
    fun batch hf => MemoryBatchStore.allSettled_markTask (h.settled batch hf) hs⟩

omit [DecidableEq ν] [Filter φ] in
theorem monitorStep (h : Recoverable s) (ht : s.monitorStep st spider = some t) : Recoverable t := by
  have hbatches (hm : s.monitor ≠ .resting ∧ s.monitor ≠ .resetAll ∧ s.monitor ≠ .deletePending ∧
      s.monitor ≠ .createBatch) : s.store.batches ≠ [] := by
    rcases h.opened with ho | ho | ho | ho | ho
    · exact absurd ho hm.1
    · exact absurd ho hm.2.1
    · exact absurd ho hm.2.2.1
    · exact absurd ho hm.2.2.2
    · exact ho
  have htouched := h.touched
  unfold BatchJob.monitorStep at ht
  cases hm : s.monitor with
  | resting =>
    rw [hm] at ht
    cases ht
  | resetAll =>
    rw [hm] at ht
    cases ht
    exact ⟨by simp, fun _ => MemoryBatchStore.touched_resetAllTasks, nofun⟩
  | deletePending =>
    rw [hm] at ht
    cases ht
    exact ⟨by simp, fun _ => htouched (.inr (.inl hm)), nofun⟩
  | createBatch =>
    rw [hm] at ht
    cases ht
    exact ⟨.inr (.inr (.inr (.inr (List.append_ne_nil_of_right_ne_nil _ (List.cons_ne_nil _ _))))),
      fun _ => htouched (.inr (.inr hm)), nofun⟩
  | resetLost batch =>
    have hb := hbatches (by simp [hm])
    rw [hm] at ht
    cases ht
    exact ⟨by simpa using hb, fun _ => MemoryBatchStore.touched_resetLostTasks (htouched (.inl hb)), nofun⟩
  | claim batch =>
    have hb := hbatches (by simp [hm])
    rw [hm] at ht
    cases ht
    refine ⟨.inr (.inr (.inr (.inr hb))), fun _ => MemoryBatchStore.touched_claimTasks (htouched (.inl hb)), ?_⟩
    intro b hf
    simp only at hf
    split at hf <;> cases hf
  | push batch claimed =>
    have hb := hbatches (by simp [hm])
    rw [hm] at ht
    cases ht
    exact ⟨.inr (.inr (.inr (.inr hb))), fun _ => htouched (.inl hb), nofun⟩
  | count batch =>
    have hb := hbatches (by simp [hm])
    rw [hm] at ht
    cases ht
    refine ⟨.inr (.inr (.inr (.inr ?_))), fun _ => htouched (.inl hb), ?_⟩
    · simpa [BatchStore.updateBatchCounts, MemoryBatchStore.updateBatchCounts, MemoryBatchStore.updateRecord] using hb
    · intro b hf
      simp only at hf
      split at hf
      · rename_i hc
        have hsettled : s.store.AllSettled := by
          rw [Bool.or_eq_true, decide_eq_true_iff] at hc
          exact MemoryBatchStore.allSettled_of_count hc
        exact hsettled
      · cases hf
  | finish batch =>
    have hb := hbatches (by simp [hm])
    rw [hm] at ht
    cases ht
    refine ⟨.inl rfl, fun _ => htouched (.inl hb), nofun⟩

omit [DecidableEq ν] [Filter φ] in
theorem ensureBatch (h : Recoverable s) {force : Bool} :
    Recoverable { s with monitor := s.ensureBatch st force } := by
  unfold BatchJob.ensureBatch
  have hlatest (batch : BatchRecord) (hb : BatchStore.latestBatch s.store = some batch) : s.store.batches ≠ [] := by
    intro he
    have hb : s.store.batches.getLast? = some batch := hb
    rw [he] at hb
    cases hb
  split
  · rename_i batch hb
    have hne := hlatest batch hb
    refine ⟨.inr (.inr (.inr (.inr hne))), fun _ => h.touched (.inl hne), fun b hf => ?_⟩
    simp only at hf
    repeat' split at hf
    all_goals cases hf
  · refine ⟨.inr (.inl rfl), fun ho => h.touched (.inl ?_), nofun⟩
    simpa using ho

end Recoverable

omit [Filter φ] in
theorem nodeStep_store {a : ClusterAct ν} (h : s.nodeStep st codec a = some t) :
    t.monitor = s.monitor ∧ t.store = s.store := by
  obtain ⟨c, -, rfl⟩ := Option.map_eq_some_iff.mp h
  exact ⟨rfl, rfl⟩

theorem recoverable_step {a : BatchAct ν} (h : Recoverable s)
    (ht : (memoryMachine st codec spider).step s a = some t) : Recoverable t := by
  simp only [memoryMachine] at ht
  split at ht
  · rename_i hmarks
    cases a with
    | tick d | kill n => exact h.of_store (nodeStep_store ht).1 (nodeStep_store ht).2
    | ensureBatch force =>
      simp only [step] at ht
      split at ht
      · cases ht
        exact h.ensureBatch
      · cases ht
    | monitor => exact h.monitorStep ht
    | stopMonitor =>
      cases ht
      refine ⟨.inl rfl, fun ho => h.touched (.inl ?_), fun _ hbatch => by cases hbatch⟩
      simpa using ho
    | updateTask id state =>
      cases ht
      exact h.markTask (of_decide_eq_true hmarks)
    | join n keepAlive threads | nextTask n =>
      obtain ⟨u, hu, rfl⟩ := Option.map_eq_some_iff.mp ht
      have hs := nodeStep_store hu
      exact h.of_store hs.1 hs.2
    | fetch n =>
      simp only [step, fetch] at ht
      split at ht
      · obtain ⟨u, hu, rfl⟩ := Option.map_eq_some_iff.mp ht
        have hs := nodeStep_store hu
        exact h.of_store hs.1 hs.2
      · split at ht
        · cases ht
          exact h.of_store rfl rfl
        · cases ht
    | convert n r =>
      simp only [step, convert] at ht
      split at ht
      · obtain ⟨u, hu, rfl⟩ := Option.map_eq_some_iff.mp ht
        have hs := nodeStep_store hu
        exact h.of_store hs.1 hs.2
      · cases ht
    | filter n j works =>
      simp only [step, filter] at ht
      split at ht
      · obtain ⟨u, hu, rfl⟩ := Option.map_eq_some_iff.mp ht
        have hs := nodeStep_store hu
        exact h.of_store hs.1 hs.2
      · cases ht
    | node n b =>
      simp only [step] at ht
      split at ht
      · exact h.of_store (nodeStep_store ht).1 (nodeStep_store ht).2
      · cases ht
  · cases ht

theorem recoverable (h : (memoryMachine st codec spider).Reachable s) : Recoverable s := by
  refine h.induct (fun s hs => ?_) fun s a t hi _ ht => recoverable_step hi ht
  obtain ⟨⟨-, hrest, -⟩, hb, -⟩ := hs
  refine ⟨.inl hrest, fun ho => ?_, fun batch hf => ?_⟩
  · rw [hb, hrest] at ho
    simp at ho
  · rw [hrest] at hf
    cases hf

/-- The master finishes a batch only when every row is settled. -/
def FinishesSettled (s : BatchJob ν MemoryBatchStore φ) : Prop :=
  ∀ batch, s.monitor = .finish batch → ∀ row ∈ s.store.tasks, row.state = DONE ∨ row.state = FAILED

/-- Each row in `DOING` has a time, and is put back once it is old enough. -/
def PutsBackLost (s : BatchJob ν MemoryBatchStore φ) : Prop :=
  ∀ (i : Nat) (row : TaskRow), s.store.tasks[i]? = some row → row.state = DOING →
    ∃ t, s.store.touched.lookup row.id = some t ∧ ∀ now stale, t + stale ≤ now →
      (s.store.resetLostTasks now stale).2.tasks[i]? = some { row with state := TODO }

/-- In every run, with the master stopped and started at any call: a batch is
finished when every row is settled; and since there has been a batch, no row is
stuck in `DOING`. -/
theorem settled_or_lost (s : BatchJob ν MemoryBatchStore φ) (h : (memoryMachine st codec spider).Reachable s) :
    FinishesSettled s ∧ (s.store.batches ≠ [] → PutsBackLost s) := by
  have hr := recoverable h
  refine ⟨hr.settled, fun hb i row hi hd => ?_⟩
  obtain ⟨t, ht⟩ := Option.isSome_iff_exists.mp (hr.touched (.inl hb) row (List.mem_of_getElem? hi) hd)
  exact ⟨t, ht, fun now stale hold => MemoryBatchStore.resetLostTasks_getElem? hi hd ht hold⟩

/-- The master claims the task, stops before it has pushed it, and is started
again; ten minutes later it puts it back and pushes it. -/
def crashRun : List (BatchAct Unit) :=
  [.ensureBatch true, .monitor, .monitor, .monitor, .monitor, .monitor, .stopMonitor, .ensureBatch true, .tick 600000000,
    .monitor, .monitor, .monitor, .updateTask (.int 1) DONE, .monitor]

def afterCrash : BatchJob Unit MemoryBatchStore LiteFilter :=
  ((memoryMachine {} Cluster.urlCodec oneTask).exec oneTaskJob crashRun).getD oneTaskJob

theorem settled_or_lost_afterCrash : FinishesSettled afterCrash ∧ (afterCrash.store.batches ≠ [] → PutsBackLost afterCrash) :=
  @settled_or_lost Unit LiteFilter _ _ {} Cluster.urlCodec oneTask afterCrash
    (.exec (.start ⟨start_oneTaskJob, rfl, rfl⟩) (Machine.exec_getD (by decide +kernel) oneTaskJob))

end BatchJob

end Netspy
