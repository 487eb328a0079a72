import Netspy.Impl.BatchWork
import Netspy.Proof.BatchSettled

/-!
# Late results of a batch job

A row is settled by whoever names its task: the request that marks it carries no
batch. It is settled by its own batch's work as long as nothing of an earlier
batch is left when one is opened, and nothing of one is popped or replayed later
(`marked_by_batch`).

A row that is done stays so until the next reset, if and only if no failure is
reported for a task whose row is done (`done_final_iff`): neither the master nor
another success takes it back.
-/

namespace Netspy

open BatchStore

namespace BatchWork

section
variable {S : Type} [BatchStore S] {st : Setting} {spider : BatchSpider} {s t : BatchWork S}

/-- It comes from a copy that was pushed in the batch. -/
def Current (s : BatchWork S) (claim : Option Nat) : Prop := ∃ c ∈ claim, s.pushedIn[c]? = some s.batch

instance (s : BatchWork S) (claim : Option Nat) : Decidable (s.Current claim) :=
  match claim with
  | none => isFalse nofun
  | some c => decidable_of_iff (s.pushedIn[c]? = some s.batch) (by simp [Current])

/-- Nothing of an earlier batch is left when a batch is opened, or is popped or
replayed in it. -/
def NothingLeft (st : Setting) (s : BatchWork S) : BatchWorkAct → Prop
  | .monitor => s.monitor = .resetAll → s.fetched = [] ∧ s.flights.length = 0 ∧ s.hooks = []
  | .fetch => ∀ e ∈ s.pendingTasks.take (max 1 st.TASK_BATCH_SIZE), s.Current (some e.1)
  | .replay k => ∀ f ∈ s.dumped[k]?, s.Current f.claim
  | _ => True

instance (a : BatchWorkAct) : Decidable (NothingLeft st s a) := by
  unfold NothingLeft
  split <;> infer_instance

structure OfBatch (s : BatchWork S) : Prop where
  fetched : ∀ e ∈ s.fetched, s.Current (some e.1)
  flights : ∀ f ∈ s.flights, s.Current f.claim
  hooks : ∀ e ∈ s.hooks, s.Current e.1
  marks : ∀ m ∈ s.marks, ∃ c ∈ m.claim, s.pushedIn[c]? = some m.batch

namespace OfBatch

omit [BatchStore S] in
/-- Less is on its way, or it was already. -/
theorem mono (h : OfBatch s) (hb : t.batch = s.batch) (hp : t.pushedIn = s.pushedIn)
    (hfetched : ∀ e ∈ t.fetched, s.Current (some e.1)) (hflights : ∀ f ∈ t.flights, s.Current f.claim)
    (hhooks : ∀ e ∈ t.hooks, s.Current e.1) (hm : t.marks = s.marks) : OfBatch t := by
  have hcurrent (claim : Option Nat) (hc : s.Current claim) : t.Current claim := by
    unfold Current
    rw [hb, hp]
    exact hc
  exact ⟨fun e he => hcurrent _ (hfetched e he), fun f hf => hcurrent _ (hflights f hf),
    fun e he => hcurrent _ (hhooks e he), by rw [hm, hp]; exact h.marks⟩

theorem mark (h : OfBatch s) {claim : Option Nat} (hc : s.Current claim) (id : PyVal) (state : Int) :
    OfBatch (s.mark claim id state) where
  fetched := h.fetched
  flights := h.flights
  hooks := h.hooks
  marks m hm := by
    rcases List.mem_append.mp hm with hm | hm
    · exact h.marks m hm
    · rw [List.mem_singleton.mp hm]
      exact hc

theorem updateTask (h : OfBatch s) {claim : Option Nat} (hc : s.Current claim) (id : PyVal) (ok owns : Bool) :
    OfBatch (s.updateTask claim id ok owns) := by
  unfold BatchWork.updateTask
  split
  · exact h.mark hc id FAILED
  · split
    · refine h.mono rfl rfl h.fetched h.flights (fun e he => ?_) rfl
      rcases List.mem_append.mp he with he | he
      · exact h.hooks e he
      · rw [List.mem_singleton.mp he]
        exact hc
    · exact h.mark hc id DONE

end OfBatch

/-- What a call of the master does to what is on its way: nothing, but that the
batch is counted and the claims are numbered. -/
theorem monitorStep_eq_some (h : s.monitorStep st spider = some t) :
    t.fetched = s.fetched ∧ t.flights = s.flights ∧ t.hooks = s.hooks ∧ t.marks = s.marks ∧
      (∃ n, t.pushedIn = s.pushedIn ++ List.replicate n s.batch) ∧
      (s.monitor ≠ .resetAll → t.batch = s.batch) := by
  obtain ⟨u, -, rfl⟩ := Option.map_eq_some_iff.mp h
  exact ⟨rfl, rfl, rfl, rfl, ⟨_, rfl⟩, fun hm => if_neg hm⟩

theorem OfBatch.monitorStep (h : OfBatch s) (ht : s.monitorStep st spider = some t)
    (hg : s.monitor = .resetAll → s.fetched = [] ∧ s.flights.length = 0 ∧ s.hooks = []) : OfBatch t := by
  obtain ⟨hfetched, hflights, hhooks, hmarks, ⟨n, hpushed⟩, hbatch⟩ := monitorStep_eq_some ht
  have hkeep (c b : Nat) (hc : s.pushedIn[c]? = some b) : t.pushedIn[c]? = some b := by
    rw [hpushed, List.getElem?_append_left (List.getElem?_eq_some_iff.mp hc).1]
    exact hc
  have hm : ∀ m ∈ t.marks, ∃ c ∈ m.claim, t.pushedIn[c]? = some m.batch := fun m hm => by
    obtain ⟨c, hc, hp⟩ := h.marks m (hmarks ▸ hm)
    exact ⟨c, hc, hkeep c _ hp⟩
  by_cases hreset : s.monitor = .resetAll
  · obtain ⟨h1, h2, h3⟩ := hg hreset
    have h2 : s.flights = [] := List.length_eq_zero_iff.mp h2
    refine ⟨?_, ?_, ?_, hm⟩
    · rw [hfetched, h1]
      exact List.forall_mem_nil _
    · rw [hflights, h2]
      exact List.forall_mem_nil _
    · rw [hhooks, h3]
      exact List.forall_mem_nil _
  · have hcurrent (claim : Option Nat) (hc : s.Current claim) : t.Current claim := by
      obtain ⟨c, hc, hp⟩ := hc
      exact ⟨c, hc, by rw [hbatch hreset]; exact hkeep c _ hp⟩
    exact ⟨fun e he => hcurrent _ (h.fetched e (hfetched ▸ he)), fun f hf => hcurrent _ (h.flights f (hflights ▸ hf)),
      fun e he => hcurrent _ (h.hooks e (hhooks ▸ he)), hm⟩

omit [BatchStore S] in
theorem OfBatch.fetch (h : OfBatch s) (hg : NothingLeft st s .fetch) : OfBatch (s.fetch st spider) := by
  unfold BatchWork.fetch
  dsimp only
  split
  · refine h.mono rfl rfl (fun e he => ?_) h.flights h.hooks rfl
    rcases List.mem_append.mp he with he | he
    · exact h.fetched e he
    · obtain ⟨p, hp, hpe⟩ := List.mem_map.mp (List.of_mem_zip he).1
      rw [← hpe]
      exact hg p hp
  · exact h.mono rfl rfl h.fetched h.flights h.hooks rfl

/-- What one guarded step preserves. -/
theorem ofBatch_step {a : BatchWorkAct} (h : OfBatch s) (hg : NothingLeft st s a) (ht : step st spider s a = some t) :
    OfBatch t := by
  cases a with
  | tick d | stopMonitor =>
    cases ht
    exact h.mono rfl rfl h.fetched h.flights h.hooks rfl
  | ensureBatch force =>
    simp only [step] at ht
    split at ht
    · cases ht
      exact h.mono rfl rfl h.fetched h.flights h.hooks rfl
    · cases ht
  | monitor => exact h.monitorStep ht hg
  | fetch =>
    cases ht
    exact h.fetch hg
  | convert i r =>
    obtain ⟨e, he, rfl⟩ := Option.map_eq_some_iff.mp ht
    refine h.mono rfl rfl h.fetched (fun f hf => ?_) h.hooks rfl
    rcases List.mem_append.mp hf with hf | hf
    · exact h.flights f hf
    · rw [List.mem_singleton.mp hf]
      exact h.fetched e (List.mem_of_getElem? he)
  | endTask i =>
    cases ht
    exact h.mono rfl rfl (fun e he => h.fetched e (List.mem_of_mem_eraseIdx he)) h.flights h.hooks rfl
  | change j r =>
    obtain ⟨f, hf, rfl⟩ := Option.map_eq_some_iff.mp ht
    refine h.mono rfl rfl h.fetched (fun g hg => ?_) h.hooks rfl
    rcases List.mem_or_eq_of_mem_set hg with hg | rfl
    · exact h.flights g hg
    · exact h.flights f (List.mem_of_getElem? hf)
  | yieldRequest j r =>
    obtain ⟨f, hf, rfl⟩ := Option.map_eq_some_iff.mp ht
    refine h.mono rfl rfl h.fetched (fun g hg => ?_) h.hooks rfl
    rcases List.mem_append.mp hg with hg | hg
    · exact h.flights g hg
    · rw [List.mem_singleton.mp hg]
      exact h.flights f (List.mem_of_getElem? hf)
  | endRequest j =>
    cases ht
    exact h.mono rfl rfl h.fetched (fun f hf => h.flights f (List.mem_of_mem_eraseIdx hf)) h.hooks rfl
  | updateTask j id ok owns =>
    obtain ⟨f, hf, rfl⟩ := Option.map_eq_some_iff.mp ht
    exact h.updateTask (h.flights f (List.mem_of_getElem? hf)) id ok owns
  | failedRequest j =>
    obtain ⟨f, hf, rfl⟩ := Option.map_eq_some_iff.mp ht
    split
    · exact h.updateTask (h.flights f (List.mem_of_getElem? hf)) _ false false
    · exact h
  | failedSink j =>
    obtain ⟨f, hf, rfl⟩ := Option.map_eq_some_iff.mp ht
    exact h.mono rfl rfl h.fetched h.flights h.hooks rfl
  | replay k =>
    obtain ⟨f, hf, rfl⟩ := Option.map_eq_some_iff.mp ht
    refine h.mono rfl rfl h.fetched (fun g hg' => ?_) h.hooks rfl
    rcases List.mem_append.mp hg' with hg' | hg'
    · exact h.flights g hg'
    · rw [List.mem_singleton.mp hg']
      exact hg f hf
  | persisted i =>
    obtain ⟨e, he, rfl⟩ := Option.map_eq_some_iff.mp ht
    have hrest : OfBatch { s with hooks := s.hooks.eraseIdx i } :=
      h.mono rfl rfl h.fetched h.flights (fun e he => h.hooks e (List.mem_of_mem_eraseIdx he)) rfl
    exact hrest.mark (h.hooks e (List.mem_of_getElem? he)) e.2 DONE
  | loseHook i =>
    cases ht
    exact h.mono rfl rfl h.fetched h.flights (fun e he => h.hooks e (List.mem_of_mem_eraseIdx he)) rfl

/-- In the runs in which nothing of an earlier batch is left, a row is marked by
what comes from a copy pushed in its batch. -/
theorem marked_by_batch (s : BatchWork S) (h : (machine st spider).Within (NothingLeft st) s) :
    ∀ m ∈ s.marks, ∃ c ∈ m.claim, s.pushedIn[c]? = some m.batch := by
  refine (h.induct (I := OfBatch) (fun s hs => ?_) fun s a t hi hg ht => ofBatch_step hi hg ht).marks
  obtain ⟨-, -, -, hfetched, hflights, hhooks, -, hmarks⟩ := hs
  refine ⟨?_, ?_, ?_, ?_⟩
  · simp [hfetched]
  · simp [hflights]
  · simp [hhooks]
  · simp [hmarks]

end

/-- A worker has its copy of the task while the master waits for the row, puts it
back, and pushes it again; another one does it. -/
def slowBatch : List BatchWorkAct :=
  [.ensureBatch true, .monitor, .monitor, .monitor, .monitor, .monitor, .monitor, .monitor, .fetch,
    .convert 0 { url := "a" }, .endTask 0, .tick 600000000, .monitor, .monitor, .monitor, .fetch,
    .convert 0 { url := "a" }, .endTask 0, .updateTask 1 (.int 1) true false, .monitor, .monitor]

/-- The next batch is opened. -/
def openNext : List BatchWorkAct := [.ensureBatch true, .monitor, .monitor, .monitor]

def oneTaskWork : BatchWork MemoryBatchStore where
  store := { tasks := [{ id := .int 1 }] }

theorem start_oneTaskWork : (machine {} BatchJob.oneTask).start oneTaskWork := ⟨rfl, rfl, rfl, rfl, rfl, rfl, rfl, rfl⟩

def after (as : List BatchWorkAct) : BatchWork MemoryBatchStore :=
  ((machine {} BatchJob.oneTask).exec oneTaskWork as).getD oneTaskWork

theorem exec_after {as : List BatchWorkAct} (h : ((machine {} BatchJob.oneTask).exec oneTaskWork as).isSome = true) :
    (machine {} BatchJob.oneTask).exec oneTaskWork as = some (after as) :=
  Machine.exec_getD h _

theorem step_after {as : List BatchWorkAct} {a : BatchWorkAct}
    (h : ((machine {} BatchJob.oneTask).exec oneTaskWork as).isSome = true)
    (h' : ((machine {} BatchJob.oneTask).exec oneTaskWork (as ++ [a])).isSome = true) :
    step {} BatchJob.oneTask (after as) a = some (after (as ++ [a])) := by
  have hrun := exec_after h'
  rw [Machine.exec_append, exec_after h, Option.bind_some, Machine.exec_cons] at hrun
  obtain ⟨t, ht, he⟩ := Option.bind_eq_some_iff.mp hrun
  rw [Machine.exec_nil] at he
  rw [← he]
  exact ht

/-- The second batch is opened when both requests have ended. -/
theorem marked_by_batch_ended :
    let s := after (slowBatch ++ [BatchWorkAct.endRequest 1, .endRequest 0] ++ openNext)
    ∀ m ∈ s.marks, ∃ c ∈ m.claim, s.pushedIn[c]? = some m.batch :=
  @marked_by_batch MemoryBatchStore _ {} BatchJob.oneTask _
    (.exec (.start start_oneTaskWork) (by decide +kernel) (exec_after (by decide +kernel)))

/-- The slow worker is done after that: it settles the row of the second batch. -/
theorem late_result :
    ∃ s t : BatchWork MemoryBatchStore, (machine {} BatchJob.oneTask).Reachable s ∧
      step {} BatchJob.oneTask s (.updateTask 0 (.int 1) true false) = some t ∧
      s.store.tasks.map TaskRow.state = [TODO] ∧ t.store.tasks.map TaskRow.state = [DONE] ∧
      t.marks.getLast? = some ⟨.int 1, DONE, some 0, 2⟩ ∧ t.pushedIn = [1, 1] := by
  have hrun := @exec_after (slowBatch ++ openNext) (by decide +kernel)
  have hlate := @step_after (slowBatch ++ openNext) (.updateTask 0 (.int 1) true false) (by decide +kernel)
    (by decide +kernel)
  exact ⟨_, _, .exec (.start start_oneTaskWork) hrun, hlate, by decide +kernel, by decide +kernel, by decide +kernel,
    by decide +kernel⟩

/-! ## Rows that are done -/

section
variable {st : Setting} {spider : BatchSpider} {s t : BatchWork MemoryBatchStore}

/-- The row at `i` is done. -/
def DoneAt (s : BatchWork MemoryBatchStore) (i : Nat) : Prop := ∃ row, s.store.tasks[i]? = some row ∧ row.state = DONE

/-- The task is not one whose row is done. -/
def Undone (s : BatchWork MemoryBatchStore) (id : PyVal) : Prop :=
  ∀ row ∈ s.store.tasks.find? (·.id = id), row.state ≠ DONE

/-- A failure is reported for a task only while its row is not done. -/
def FailsUndone (st : Setting) (s : BatchWork MemoryBatchStore) : BatchWorkAct → Prop
  | .updateTask j id false _ => j < s.flights.length → s.Undone id
  | .failedRequest j => ∀ f ∈ s.flights[j]?, ∀ id ∈ failedTask st f.request, s.Undone id
  | _ => True

instance (s : BatchWork MemoryBatchStore) (id : PyVal) : Decidable (s.Undone id) := by
  unfold Undone
  infer_instance

instance (s : BatchWork MemoryBatchStore) (a : BatchWorkAct) : Decidable (FailsUndone st s a) := by
  unfold FailsUndone
  split <;> infer_instance

/-- It is not the call of `reset_all_tasks`. -/
def NoReset (s : BatchWork MemoryBatchStore) : BatchWorkAct → Prop
  | .monitor => s.monitor ≠ .resetAll
  | _ => True

instance (s : BatchWork MemoryBatchStore) (a : BatchWorkAct) : Decidable (NoReset s a) := by
  unfold NoReset
  split <;> infer_instance

theorem claimRows_getElem? {limit i : Nat} {rows : List TaskRow} {row : TaskRow} (h : rows[i]? = some row)
    (hne : row.state ≠ TODO) : (MemoryBatchStore.claimRows limit rows).1[i]? = some row := by
  induction rows generalizing limit i with
  | nil => cases h
  | cons r rows ih =>
    cases limit with
    | zero => exact h
    | succ k =>
      unfold MemoryBatchStore.claimRows
      cases i with
      | zero =>
        rw [List.getElem?_cons_zero, Option.some.injEq] at h
        subst h
        rw [if_neg hne]
        rfl
      | succ i =>
        rw [List.getElem?_cons_succ] at h
        split
        · exact ih h
        · exact ih h

/-- The row that is marked is the first of its id. -/
theorem markRows_getElem? {id : PyVal} {state : Int} {rows rows' : List TaskRow} {i : Nat} {row : TaskRow}
    (hm : MemoryBatchStore.markRows id state rows = some rows') (h : rows[i]? = some row) :
    rows'[i]? = some row ∨ rows.find? (·.id = id) = some row ∧ rows'[i]? = some { row with state } := by
  induction rows generalizing rows' i with
  | nil => cases h
  | cons r rows ih =>
    unfold MemoryBatchStore.markRows at hm
    split at hm
    · rename_i hid
      cases hm
      cases i with
      | zero =>
        rw [List.getElem?_cons_zero, Option.some.injEq] at h
        subst h
        exact .inr ⟨List.find?_cons_of_pos (by simpa using hid), rfl⟩
      | succ i => exact .inl h
    · rename_i hid
      obtain ⟨rest, hrest, rfl⟩ := Option.map_eq_some_iff.mp hm
      cases i with
      | zero => exact .inl h
      | succ i =>
        have hrec := ih hrest h
        rw [List.find?_cons_of_neg (by simpa using hid)]
        exact hrec

/-- The row that a mark of a known task changes. -/
theorem markRows_find {id : PyVal} (state : Int) {rows : List TaskRow} {row : TaskRow}
    (h : rows.find? (·.id = id) = some row) :
    ∃ (rows' : List TaskRow) (i : Nat), MemoryBatchStore.markRows id state rows = some rows' ∧
      rows[i]? = some row ∧ rows'[i]? = some { row with state } := by
  induction rows with
  | nil => cases h
  | cons r rows ih =>
    unfold MemoryBatchStore.markRows
    split
    · rename_i hid
      rw [List.find?_cons_of_pos (by simpa using hid), Option.some.injEq] at h
      subst h
      exact ⟨_, 0, rfl, rfl, rfl⟩
    · rename_i hid
      rw [List.find?_cons_of_neg (by simpa using hid)] at h
      obtain ⟨rows', i, hm, hi, hi'⟩ := ih h
      exact ⟨r :: rows', i + 1, by rw [hm]; rfl, hi, hi'⟩

/-- A row that is done is left so by all but a failure of its task. -/
theorem DoneAt.mark {i : Nat} (h : s.DoneAt i) {claim : Option Nat} {id : PyVal} {state : Int}
    (hs : state = DONE ∨ s.Undone id) : (s.mark claim id state).DoneAt i := by
  obtain ⟨row, hi, hd⟩ := h
  show ∃ row, (s.store.markTask s.now id state).tasks[i]? = some row ∧ row.state = DONE
  unfold MemoryBatchStore.markTask
  split
  · rename_i rows hrows
    rcases markRows_getElem? hrows hi with hi | ⟨hfind, hi⟩
    · exact ⟨row, hi, hd⟩
    · refine ⟨_, hi, hs.resolve_right fun hu => hu row hfind hd⟩
  · exact ⟨row, hi, hd⟩

theorem DoneAt.updateTask {i : Nat} (h : s.DoneAt i) {claim : Option Nat} {id : PyVal} {ok owns : Bool}
    (hs : ok = true ∨ s.Undone id) : (s.updateTask claim id ok owns).DoneAt i := by
  unfold BatchWork.updateTask
  split
  · rename_i hok
    exact h.mark (.inr (hs.resolve_left (by simpa using hok)))
  · split
    · exact h
    · exact h.mark (.inl rfl)

/-- The master does not take a row that is done back, but by a reset. -/
theorem DoneAt.monitorStep {i : Nat} (h : s.DoneAt i) (ht : s.monitorStep st spider = some t)
    (hr : s.monitor ≠ .resetAll) : t.DoneAt i := by
  obtain ⟨row, hi, hd⟩ := h
  obtain ⟨u, hu, rfl⟩ := Option.map_eq_some_iff.mp ht
  show ∃ row, u.store.tasks[i]? = some row ∧ row.state = DONE
  have hne : row.state ≠ TODO ∧ row.state ≠ DOING := by
    rw [hd]
    decide
  unfold BatchJob.monitorStep at hu
  have hm : s.job.monitor = s.monitor := rfl
  rw [hm] at hu
  cases hph : s.monitor with
  | resting => rw [hph] at hu; cases hu
  | resetAll => exact absurd hph hr
  | deletePending | createBatch | push | finish | count =>
    rw [hph] at hu
    cases hu
    exact ⟨row, hi, hd⟩
  | resetLost batch =>
    rw [hph] at hu
    cases hu
    have hlost : s.job.store.isLost s.job.cluster.now st.BATCH_LOST_TASK_STALE row = false := by
      simp [MemoryBatchStore.isLost, hne.2]
    refine ⟨row, ?_, hd⟩
    show (s.store.tasks.map _)[i]? = some row
    rw [List.getElem?_map, hi, Option.map_some, if_neg (by rw [hlost]; exact Bool.false_ne_true)]
  | claim batch =>
    rw [hph] at hu
    cases hu
    exact ⟨row, claimRows_getElem? hi hne.1, hd⟩

theorem DoneAt.of_store {i : Nat} (h : s.DoneAt i) (hs : t.store = s.store) : t.DoneAt i := by
  unfold DoneAt
  rw [hs]
  exact h

/-- A step that is not a reset leaves the rows that are done. -/
theorem doneAt_step {a : BatchWorkAct} {i : Nat} (h : s.DoneAt i) (hr : NoReset s a) (hg : FailsUndone st s a)
    (ht : step st spider s a = some t) : t.DoneAt i := by
  cases a with
  | tick d | stopMonitor | endTask i | endRequest j | loseHook i =>
    cases ht
    exact h.of_store rfl
  | ensureBatch force =>
    simp only [step] at ht
    split at ht
    · cases ht
      exact h.of_store rfl
    · cases ht
  | monitor => exact h.monitorStep ht hr
  | fetch =>
    cases ht
    refine h.of_store ?_
    unfold BatchWork.fetch
    dsimp only
    split <;> rfl
  | convert i r | change j r | yieldRequest j r | failedSink j | replay k =>
    obtain ⟨f, -, rfl⟩ := Option.map_eq_some_iff.mp ht
    exact h.of_store rfl
  | updateTask j id ok owns =>
    obtain ⟨f, hf, rfl⟩ := Option.map_eq_some_iff.mp ht
    cases ok with
    | true => exact h.updateTask (.inl rfl)
    | false => exact h.updateTask (.inr (hg (List.getElem?_eq_some_iff.mp hf).1))
  | failedRequest j =>
    obtain ⟨f, hf, rfl⟩ := Option.map_eq_some_iff.mp ht
    split
    · rename_i id hid
      exact h.updateTask (.inr (hg f hf id hid))
    · exact h
  | persisted k =>
    obtain ⟨e, -, rfl⟩ := Option.map_eq_some_iff.mp ht
    have hrest : DoneAt { s with hooks := s.hooks.eraseIdx k } i := h
    exact hrest.mark (.inl rfl)

/-- A failure of a task whose row is done takes the row back. -/
theorem not_doneAt_of_fails (claim : Option Nat) {id : PyVal} (owns : Bool) (h : ¬ s.Undone id) :
    ∃ i, s.DoneAt i ∧ ¬ (s.updateTask claim id false owns).DoneAt i := by
  obtain ⟨row, hrow, hd⟩ : ∃ row ∈ s.store.tasks.find? (·.id = id), row.state = DONE := by
    simpa [Undone] using h
  obtain ⟨rows', i, hm, hi, hi'⟩ := markRows_find FAILED hrow
  refine ⟨i, ⟨row, hi, hd⟩, ?_⟩
  have htasks : (s.updateTask claim id false owns).store.tasks = rows' := by
    show (s.store.markTask s.now id FAILED).tasks = rows'
    unfold MemoryBatchStore.markTask
    rw [hm]
  rintro ⟨row', hrow', hd'⟩
  rw [htasks, hi', Option.some.injEq] at hrow'
  subst hrow'
  exact absurd (show FAILED = DONE from hd') (by decide)

/-- A step that leaves the rows that are done reports no such failure. -/
theorem failsUndone_of_doneAt (spider : BatchSpider) {a : BatchWorkAct}
    (h : ∀ t, step st spider s a = some t → ∀ i, s.DoneAt i → t.DoneAt i) : FailsUndone st s a := by
  have hundone (claim : Option Nat) (id : PyVal) (owns : Bool)
      (ht : step st spider s a = some (s.updateTask claim id false owns)) : s.Undone id := by
    by_contra hu
    obtain ⟨i, hd, hnd⟩ := not_doneAt_of_fails claim owns hu
    exact hnd (h _ ht i hd)
  unfold FailsUndone
  split
  · rename_i j id owns
    intro hj
    exact hundone s.flights[j].claim id owns (by simp [step, List.getElem?_eq_getElem hj])
  · rename_i j
    intro f hf id hid
    have hf : s.flights[j]? = some f := hf
    have hid : failedTask st f.request = some id := hid
    exact hundone f.claim id false (by simp [step, hf, hid])
  · trivial

/-- Until the next reset, the rows that are done stay so through every part of a
run if and only if no failure is reported for a task whose row is done. -/
theorem done_final_iff (s : BatchWork MemoryBatchStore) (as : List BatchWorkAct)
    (hr : (machine st spider).Meets NoReset s as) :
    (∀ xs ys u v, xs ++ ys <+: as → (machine st spider).exec s xs = some u →
        (machine st spider).exec u ys = some v → ∀ i, u.DoneAt i → v.DoneAt i) ↔
      (machine st spider).Meets (FailsUndone st) s as := by
  refine ⟨fun h => Machine.meets_iff.mpr fun xs a ys u he hx => failsUndone_of_doneAt spider fun t ht i hd => ?_,
    fun hm xs ys u v hpre hx hy i hd => ?_⟩
  · refine h xs [a] u t ⟨ys, by simp [he]⟩ hx ?_ i hd
    rw [Machine.exec_cons]
    show (step st spider u a).bind _ = _
    rw [ht]
    rfl
  · obtain ⟨zs, rfl⟩ := hpre
    have hboth : (machine st spider).Meets (fun s a => NoReset s a ∧ FailsUndone st s a) u ys := by
      refine Machine.meets_iff.mpr fun xs' a ys' w he hw => ?_
      have hsplit : xs ++ ys ++ zs = (xs ++ xs') ++ a :: (ys' ++ zs) := by simp [he]
      have hexec : (machine st spider).exec s (xs ++ xs') = some w := by
        rw [Machine.exec_append, hx]
        exact hw
      exact ⟨Machine.meets_iff.mp hr _ _ _ _ hsplit hexec, Machine.meets_iff.mp hm _ _ _ _ hsplit hexec⟩
    exact hboth.preserves (I := fun s => s.DoneAt i) (fun s a t h hg ht => doneAt_step h hg.1 hg.2 ht) hy hd

end

/-- A task of the first batch that yields two requests. -/
def siblings : List BatchWorkAct :=
  [.ensureBatch true, .monitor, .monitor, .monitor, .monitor, .monitor, .monitor, .monitor, .fetch,
    .convert 0 { url := "a" }, .convert 0 { url := "b" }, .endTask 0]

/-- One of them gives up, and then the other one reports the success. -/
def successLast : List BatchWorkAct := [.failedRequest 1, .updateTask 0 (.int 1) true false]

theorem done_final_iff_successLast :
    (machine {} BatchJob.oneTask).Meets (FailsUndone {}) (after siblings) successLast ∧
      ∀ xs ys u v, xs ++ ys <+: successLast → (machine {} BatchJob.oneTask).exec (after siblings) xs = some u →
        (machine {} BatchJob.oneTask).exec u ys = some v → ∀ i, u.DoneAt i → v.DoneAt i := by
  have hmeets : (machine {} BatchJob.oneTask).Meets (FailsUndone {}) (after siblings) successLast := by decide +kernel
  exact ⟨hmeets, (done_final_iff (after siblings) successLast (by decide +kernel)).mpr hmeets⟩

/-- The success comes first: the other request takes it back. -/
theorem failed_after_done :
    ∃ s t : BatchWork MemoryBatchStore, (machine {} BatchJob.oneTask).Reachable s ∧
      step {} BatchJob.oneTask s (.failedRequest 1) = some t ∧
      s.store.tasks.map TaskRow.state = [DONE] ∧ t.store.tasks.map TaskRow.state = [FAILED] := by
  have hrun := @exec_after (siblings ++ [BatchWorkAct.updateTask 0 (.int 1) true false]) (by decide +kernel)
  have hfail := @step_after (siblings ++ [BatchWorkAct.updateTask 0 (.int 1) true false]) (.failedRequest 1)
      (by decide +kernel)
    (by decide +kernel)
  exact ⟨_, _, .exec (.start start_oneTaskWork) hrun, hfail, by decide +kernel, by decide +kernel⟩

end BatchWork

end Netspy
