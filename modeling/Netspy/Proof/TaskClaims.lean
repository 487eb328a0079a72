import Netspy.Impl.TaskClaims

/-!
# No task is claimed twice at once

Both stores do to their tables what a `TaskBoard` does (`MemoryTasks.board_step`,
`MysqlTasks.board_step`), so that between two claims of a task it was put back. Of a
`MysqlBatchStore` this rests on its locks: what a transaction has selected waits and is
locked until it ends (`MysqlTasks.Kept`), and so it still waits at the commit, where the
claim happens.
-/

namespace Netspy

open BatchStore

/-- The row of a key, after an update that keeps the keys. -/
theorem find?_map_key {α κ : Type*} [DecidableEq κ] {key : α → κ} {f : α → α} (hf : ∀ row, key (f row) = key row)
    (rows : List α) (k : κ) : (rows.map f).find? (fun row => key row = k) = (rows.find? fun row => key row = k).map f := by
  rw [List.find?_map]
  congr 2
  funext row
  simp only [Function.comp_apply, hf]

theorem map_key {α κ : Type*} {key : α → κ} {f : α → α} (hf : ∀ row, key (f row) = key row) (rows : List α) :
    (rows.map f).map key = rows.map key := by
  rw [List.map_map]
  exact List.map_congr_left fun row _ => hf row

/-- Where keys are unique, a row is found under its key. -/
theorem find?_key {α κ : Type*} [DecidableEq κ] {key : α → κ} {rows : List α} (hn : (rows.map key).Nodup) {row : α}
    (h : row ∈ rows) : rows.find? (fun r => key r = key row) = some row := by
  induction rows with
  | nil => cases h
  | cons r rows ih =>
    rw [List.map_cons, List.nodup_cons] at hn
    rw [List.find?_cons]
    rcases List.mem_cons.mp h with rfl | h
    · simp
    · have hne : key r ≠ key row := fun he => hn.1 (he ▸ List.mem_map_of_mem h)
      simp only [hne, decide_false]
      exact ih hn.2 h

theorem find?_isSome {α κ : Type*} [DecidableEq κ] {key : α → κ} {rows : List α} {k : κ} :
    (rows.find? fun row => key row = k).isSome = true ↔ k ∈ rows.map key := by
  simp [List.find?_isSome]

/-- Where keys are unique, the keys of some rows are those whose row is one of them. -/
theorem mem_map_filter {α κ : Type*} [DecidableEq κ] {key : α → κ} {rows : List α} (hn : (rows.map key).Nodup)
    {p : α → Bool} {k : κ} : k ∈ (rows.filter p).map key ↔ ∃ row, rows.find? (fun r => key r = k) = some row ∧ p row := by
  constructor
  · rintro h
    obtain ⟨row, hrow, rfl⟩ := List.mem_map.mp h
    obtain ⟨hmem, hp⟩ := List.mem_filter.mp hrow
    exact ⟨row, find?_key hn hmem, hp⟩
  · rintro ⟨row, hfind, hp⟩
    have hk : key row = k := by simpa using List.find?_some hfind
    exact hk ▸ List.mem_map_of_mem (List.mem_filter.mpr ⟨List.mem_of_find?_eq_some hfind, hp⟩)

/-- The state of the row of a key. -/
def statusIn {α κ : Type*} [DecidableEq κ] (key : α → κ) (state : α → Int) (rows : List α) (k : κ) : Int :=
  ((rows.find? fun row => key row = k).map state).getD DONE

theorem mem_keys_iff {α κ : Type*} [DecidableEq κ] {key : α → κ} {rows : List α} {k : κ} :
    k ∈ rows.map key ↔ ∃ row, rows.find? (fun r => key r = k) = some row := by
  rw [← find?_isSome, Option.isSome_iff_exists]

theorem key_of_find? {α κ : Type*} [DecidableEq κ] {key : α → κ} {rows : List α} {k : κ} {row : α}
    (h : rows.find? (fun r => key r = k) = some row) : key row = k := by
  simpa using List.find?_some h

/-- An update gives its state to the keys `ks`, if these are the ones of its rows. -/
theorem statusIn_map {α κ : Type*} [DecidableEq κ] {key : α → κ} (state : α → Int) {f : α → α} (p : α → Bool) {x : Int}
    {ks : List κ} {rows : List α} (hkey : ∀ row, key (f row) = key row)
    (hstate : ∀ row, state (f row) = if p row then x else state row)
    (hks : ∀ k, k ∈ ks ↔ ∃ row, rows.find? (fun r => key r = k) = some row ∧ p row) :
    statusIn key state (rows.map f) = fun k => if k ∈ ks then x else statusIn key state rows k := by
  funext k
  rw [statusIn, statusIn, find?_map_key hkey]
  cases hr : rows.find? (fun r => key r = k) with
  | none =>
    have hno : k ∉ ks := fun hk => by
      obtain ⟨row, hrow, -⟩ := (hks k).mp hk
      rw [hr] at hrow
      cases hrow
    rw [if_neg hno]
    rfl
  | some row =>
    have hiff : k ∈ ks ↔ p row = true := by
      rw [hks, hr]
      constructor
      · rintro ⟨_, hrow, hp⟩
        exact Option.some.inj hrow ▸ hp
      · exact fun hp => ⟨row, rfl, hp⟩
    simp only [hiff, Option.map_some, Option.getD_some, hstate]

/-! ## `MysqlBatchStore` -/

namespace MysqlTasks

variable {s t : MysqlTasks} {a : MysqlTasksAct}

/-- The row of an id. -/
def row? (s : MysqlTasks) (id : PyVal) : Option MysqlRow := s.tasks.find? fun row => row.id = id

/-- The state that is committed for an id. -/
def status (s : MysqlTasks) : PyVal → Int := statusIn MysqlRow.id MysqlRow.state s.tasks

def board (s : MysqlTasks) : TaskBoard PyVal Int := { status := s.status, log := s.log }

/-! ### What a step does -/

inductive Stepped (s : MysqlTasks) : MysqlTasks → Prop
  | ticked (d : Nat) : Stepped s { s with now := s.now + d }
  | foundNone : Stepped s { s with returned := s.returned ++ [[]] }
  | selected (i : Nat) (found : List MysqlRow) (hn : (found.map MysqlRow.id).Nodup)
      (hfound : ∀ row ∈ found, row ∈ s.tasks ∧ row.state = TODO ∧ s.locks row.id = none) :
      Stepped s { s with
        claims := Function.update s.claims i (some (.selected found))
        locks := fun id => if id ∈ found.map MysqlRow.id then some i else s.locks id }
  | updated (i : Nat) (rows : List MysqlRow) (hclaim : s.claims i = some (.selected rows)) :
      Stepped s { s with claims := Function.update s.claims i (some (.updated rows)) }
  | committed (i : Nat) (rows : List MysqlRow) (returned : List (List MysqlRow))
      (hclaim : s.claims i = some (.updated rows)) :
      Stepped s { (s.updateWhere DOING (·.id ∈ rows.map MysqlRow.id)).unlock i with
        log := .claimed (rows.map MysqlRow.id) :: s.log, returned }
  | rolledBack (i : Nat) : Stepped s (s.unlock i)
  | marked (id : PyVal) (state : Int) (hlock : s.locks id = none) :
      Stepped s { s.updateWhere state (·.id = id) with
        log := if id ∈ s.tasks.map MysqlRow.id then .marked id state :: s.log else s.log }
  | resetAll : Stepped s { s.updateWhere TODO (fun _ => true) with log := .reset (s.tasks.map MysqlRow.id) :: s.log }
  | resetLost (stale : Nat) :
      Stepped s { s.updateWhere TODO (s.isLost stale) with
        log := .reset ((s.tasks.filter (s.isLost stale)).map MysqlRow.id) :: s.log }

theorem step_cases (h : s.step a = some t) : Stepped s t := by
  cases a with
  | tick d =>
    cases h
    exact .ticked d
  | select i limit found =>
    obtain ⟨⟨-, hn, -, hfound⟩, h⟩ := Option.ite_none_right_eq_some.mp h
    split at h
    · cases h
      exact .foundNone
    · cases h
      exact .selected i found hn hfound
  | update i =>
    simp only [step] at h
    split at h
    next rows hclaim =>
      cases h
      exact .updated i rows hclaim
    next => cases h
  | commit i answered =>
    simp only [step] at h
    split at h
    next rows hclaim =>
      cases h
      exact .committed i rows _ hclaim
    next => cases h
  | rollback i =>
    obtain ⟨-, h⟩ := Option.ite_none_right_eq_some.mp h
    cases h
    exact .rolledBack i
  | markTask id state =>
    obtain ⟨hlock, h⟩ := Option.ite_none_right_eq_some.mp h
    cases h
    exact .marked id state (Option.isNone_iff_eq_none.mp hlock)
  | resetAllTasks =>
    obtain ⟨-, h⟩ := Option.ite_none_right_eq_some.mp h
    cases h
    exact .resetAll
  | resetLostTasks stale =>
    cases h
    exact .resetLost stale

/-! ### What a transaction has locked -/

theorem id_update (s : MysqlTasks) (state : Int) (p : MysqlRow → Bool) (row : MysqlRow) :
    (if p row then s.setState state row else row).id = row.id := by
  split <;> rfl

theorem row?_updateWhere (s : MysqlTasks) (state : Int) (p : MysqlRow → Bool) (id : PyVal) :
    (s.updateWhere state p).row? id = (s.row? id).map fun row => if p row then s.setState state row else row :=
  find?_map_key (s.id_update state p) s.tasks id

theorem ids_updateWhere (s : MysqlTasks) (state : Int) (p : MysqlRow → Bool) :
    (s.updateWhere state p).tasks.map MysqlRow.id = s.tasks.map MysqlRow.id :=
  map_key (s.id_update state p) s.tasks

/-- What a transaction has selected is distinct, waits, and is locked by it. -/
def Locked (s : MysqlTasks) (i : Nat) (rows : List MysqlRow) : Prop :=
  (rows.map MysqlRow.id).Nodup ∧
    ∀ row ∈ rows, (s.row? row.id).map MysqlRow.state = some TODO ∧ s.locks row.id = some i

structure Kept (s : MysqlTasks) : Prop where
  ids : (s.tasks.map MysqlRow.id).Nodup
  claims : ∀ i c, s.claims i = some c → s.Locked i c.rows

/-- An update that leaves alone what is locked, or makes it wait. -/
theorem Kept.updateWhere (h : Kept s) (state : Int) (p : MysqlRow → Bool)
    (hp : ∀ row ∈ s.tasks, p row = true → state = TODO ∨ s.locks row.id = none) : Kept (s.updateWhere state p) where
  ids := by
    rw [ids_updateWhere]
    exact h.ids
  claims i c hc := by
    obtain ⟨hn, hlocked⟩ := h.claims i c hc
    refine ⟨hn, fun row hrow => ?_⟩
    obtain ⟨hwaits, hlock⟩ := hlocked row hrow
    refine ⟨?_, hlock⟩
    obtain ⟨r, hr, hstate⟩ := Option.map_eq_some_iff.mp hwaits
    rw [row?_updateWhere, hr, Option.map_some, Option.map_some]
    split
    next hpr =>
      have hid : r.id = row.id := by simpa using List.find?_some hr
      rcases hp r (List.mem_of_find?_eq_some hr) hpr with rfl | hnone
      · rfl
      · rw [hid, hlock] at hnone
        cases hnone
    next => rw [hstate]

theorem Kept.unlock (h : Kept s) (i : Nat) : Kept (s.unlock i) where
  ids := h.ids
  claims j c hj := by
    obtain ⟨-, hc⟩ | ⟨hne, hj⟩ := Calls.update_eq_some hj
    · cases hc
    · obtain ⟨hn, hlocked⟩ := h.claims j c hj
      refine ⟨hn, fun row hrow => ⟨(hlocked row hrow).1, ?_⟩⟩
      show (if s.locks row.id = some i then none else s.locks row.id) = some j
      rw [(hlocked row hrow).2, if_neg fun he => hne (Option.some.inj he)]

theorem Kept.select (h : Kept s) {i : Nat} {found : List MysqlRow} (hn : (found.map MysqlRow.id).Nodup)
    (hfound : ∀ row ∈ found, row ∈ s.tasks ∧ row.state = TODO ∧ s.locks row.id = none) :
    Kept { s with
      claims := Function.update s.claims i (some (.selected found))
      locks := fun id => if id ∈ found.map MysqlRow.id then some i else s.locks id } where
  ids := h.ids
  claims j c hj := by
    obtain ⟨rfl, hc⟩ | ⟨-, hj⟩ := Calls.update_eq_some hj
    · cases hc
      refine ⟨hn, fun row hrow => ⟨?_, if_pos (List.mem_map_of_mem hrow)⟩⟩
      obtain ⟨hmem, hstate, -⟩ := hfound row hrow
      show (s.tasks.find? fun r => r.id = row.id).map MysqlRow.state = some TODO
      rw [find?_key h.ids hmem, Option.map_some, hstate]
    · obtain ⟨hn', hlocked⟩ := h.claims j c hj
      refine ⟨hn', fun row hrow => ⟨(hlocked row hrow).1, ?_⟩⟩
      have hlock := (hlocked row hrow).2
      have hother : row.id ∉ found.map MysqlRow.id := fun hmem => by
        obtain ⟨row', hrow', he⟩ := List.mem_map.mp hmem
        rw [← he, (hfound row' hrow').2.2] at hlock
        cases hlock
      exact (if_neg hother).trans hlock

theorem Kept.step (h : Kept s) (ht : Stepped s t) : Kept t := by
  cases ht with
  | ticked d => exact ⟨h.ids, h.claims⟩
  | foundNone => exact ⟨h.ids, h.claims⟩
  | selected i found hn hfound => exact h.select hn hfound
  | updated i rows hclaim =>
    refine ⟨h.ids, Calls.forall_update h.claims fun c hc => ?_⟩
    cases hc
    exact (h.claims i _ hclaim : s.Locked i rows)
  | committed i rows returned hclaim =>
    obtain ⟨-, hlocked⟩ := h.claims i _ hclaim
    have hk := (h.unlock i).updateWhere DOING (·.id ∈ rows.map MysqlRow.id) fun row _ hp => .inr ?_
    · exact ⟨hk.ids, hk.claims⟩
    · obtain ⟨row', hrow', he⟩ := List.mem_map.mp (by simpa using hp)
      show (if s.locks row.id = some i then none else s.locks row.id) = none
      rw [← he, if_pos (hlocked row' hrow').2]
  | rolledBack i => exact h.unlock i
  | marked id state hlock =>
    have hk := h.updateWhere state (·.id = id) fun row _ hp => .inr ?_
    · exact ⟨hk.ids, hk.claims⟩
    · rw [show row.id = id by simpa using hp, hlock]
  | resetAll =>
    have hk := h.updateWhere TODO (fun _ => true) fun _ _ _ => .inl rfl
    exact ⟨hk.ids, hk.claims⟩
  | resetLost stale =>
    have hk := h.updateWhere TODO (s.isLost stale) fun _ _ _ => .inl rfl
    exact ⟨hk.ids, hk.claims⟩

theorem kept (h : machine.Reachable s) : Kept s := by
  refine Machine.Within.induct (I := Kept) (fun s hs => ?_) (fun s a t hs _ ht => hs.step (step_cases ht)) h
  obtain ⟨hs, hn⟩ := hs
  exact ⟨hn, fun i c hc => by rw [hs] at hc; cases hc⟩

/-! ### What it does to the board -/

theorem status_updateWhere (s : MysqlTasks) (state : Int) (p : MysqlRow → Bool) (ids : List PyVal)
    (hids : ∀ id, id ∈ ids ↔ ∃ row, s.row? id = some row ∧ p row) :
    (s.updateWhere state p).status = fun id => if id ∈ ids then state else s.status id :=
  statusIn_map MysqlRow.state p (s.id_update state p) (fun row => by split <;> rfl) hids

/-- Every step is one of the board, or none. -/
theorem board_step (h : Kept s) (ht : Stepped s t) :
    t.board = s.board ∨ ∃ e, s.board.step TODO DOING e = some t.board := by
  cases ht with
  | ticked d => exact .inl rfl
  | foundNone => exact .inl rfl
  | selected i found hn hfound => exact .inl rfl
  | updated i rows hclaim => exact .inl rfl
  | committed i rows returned hclaim =>
    obtain ⟨hn, hlocked⟩ : s.Locked i rows := h.claims i _ hclaim
    have hwait : ∀ id ∈ rows.map MysqlRow.id, ∃ row, s.row? id = some row ∧ row.state = TODO := fun id hid => by
      obtain ⟨row, hrow, rfl⟩ := List.mem_map.mp hid
      exact Option.map_eq_some_iff.mp (hlocked row hrow).1
    have hcan : (rows.map MysqlRow.id).Nodup ∧ ∀ id ∈ rows.map MysqlRow.id, s.board.status id = TODO := by
      refine ⟨hn, fun id hid => ?_⟩
      obtain ⟨row, hrow, hstate⟩ := hwait id hid
      show ((s.row? id).map MysqlRow.state).getD DONE = TODO
      rw [hrow, Option.map_some, Option.getD_some, hstate]
    have hstatus := s.status_updateWhere DOING (·.id ∈ rows.map MysqlRow.id) (rows.map MysqlRow.id) fun id => by
      constructor
      · intro hid
        obtain ⟨row, hrow, -⟩ := hwait id hid
        exact ⟨row, hrow, decide_eq_true (key_of_find? hrow ▸ hid)⟩
      · rintro ⟨row, hrow, hp⟩
        exact key_of_find? hrow ▸ of_decide_eq_true hp
    exact .inr ⟨.claimed (rows.map MysqlRow.id),
      (if_pos hcan).trans (congrArg some (congrArg (TaskBoard.mk · _) hstatus.symm))⟩
  | rolledBack i => exact .inl rfl
  | marked id state hlock =>
    by_cases hid : id ∈ s.tasks.map MysqlRow.id
    · have hstatus := s.status_updateWhere state (·.id = id) [id] fun id' => by
        constructor
        · intro hid'
          obtain rfl := List.mem_singleton.mp hid'
          obtain ⟨row, hrow⟩ := mem_keys_iff.mp hid
          exact ⟨row, hrow, decide_eq_true (key_of_find? hrow)⟩
        · rintro ⟨row, hrow, hp⟩
          exact List.mem_singleton.mpr ((key_of_find? hrow).symm.trans (of_decide_eq_true hp))
      refine .inr ⟨.marked id state, congrArg some (congrArg₂ TaskBoard.mk ?_ (if_pos hid).symm)⟩
      refine Eq.trans (funext fun id' => ?_) hstatus.symm
      simp only [Function.update_apply, List.mem_singleton]
      rfl
    · have hstatus := s.status_updateWhere state (·.id = id) [] fun id' => by
        refine ⟨fun hid' => absurd hid' List.not_mem_nil, ?_⟩
        rintro ⟨row, hrow, hp⟩
        refine absurd ?_ hid
        rw [← of_decide_eq_true hp]
        exact List.mem_map_of_mem (List.mem_of_find?_eq_some hrow)
      simp only [List.not_mem_nil, if_false] at hstatus
      exact .inl (congrArg₂ TaskBoard.mk hstatus (if_neg hid))
  | resetAll =>
    have hstatus := s.status_updateWhere TODO (fun _ => true) (s.tasks.map MysqlRow.id) fun id => by
      refine mem_keys_iff.trans ⟨fun hid => ?_, fun hid => ?_⟩
      · obtain ⟨row, hrow⟩ := hid
        exact ⟨row, hrow, rfl⟩
      · obtain ⟨row, hrow, -⟩ := hid
        exact ⟨row, hrow⟩
    exact .inr ⟨.reset (s.tasks.map MysqlRow.id), congrArg some (congrArg (TaskBoard.mk · _) hstatus.symm)⟩
  | resetLost stale =>
    have hstatus := s.status_updateWhere TODO (s.isLost stale)
      ((s.tasks.filter (s.isLost stale)).map MysqlRow.id) fun id => mem_map_filter h.ids
    exact .inr ⟨.reset _, congrArg some (congrArg (TaskBoard.mk · _) hstatus.symm)⟩

theorem board_reachable (h : machine.Reachable s) : (TaskBoard.machine TODO DOING).Reachable s.board := by
  refine Machine.Within.induct_with (J := Kept) (I := fun s => (TaskBoard.machine TODO DOING).Reachable s.board)
    (fun s hs => kept hs) (fun s hs => ?_) (fun s a t hk hs _ ht => ?_) h
  · have hlog : s.log = [] := by rw [hs.1]
    exact .start hlog
  · rcases board_step hk (step_cases ht) with he | ⟨e, he⟩
    · rwa [he]
    · exact hs.step trivial he

/-- Whatever the workers do, wherever their transactions fail or their processes die: what
is committed changes as on a `TaskBoard`, and between two claims of one task it was put
back. -/
theorem mysql_claims_apart {s : MysqlTasks} (h : machine.Reachable s) :
    (TaskBoard.machine TODO DOING).Reachable s.board ∧ ClaimsApart TODO s.log :=
  ⟨board_reachable h, TaskBoard.claims_apart (by decide) (board_reachable h)⟩

/-- Two workers. The first one selects a row and dies; the second one claims it, and it
is reset and claimed again. -/
def claimedTwice : List MysqlTasksAct :=
  let row : MysqlRow := { id := .int 1, time := some 0 }
  [.select 0 5 [row], .rollback 0, .select 1 5 [row], .update 1, .commit 1 true, .tick 9, .resetLostTasks 5,
    .select 2 5 [{ row with time := some 9 }], .update 2, .commit 2 false]

theorem claimedTwice_ran : (machine.exec { tasks := [{ id := .int 1, time := some 0 }] } claimedTwice).map
    (fun s => (s.log, s.returned.length)) =
      some ([.claimed [.int 1], .reset [.int 1], .claimed [.int 1]], 1) := by
  decide +kernel

theorem mysql_claims_apart_claimedTwice : ∃ s,
    machine.exec { tasks := [{ id := .int 1, time := some 0 }] } claimedTwice = some s ∧
      ∃ e ∈ [BoardEvent.reset [PyVal.int 1]], e.PutsBack TODO (PyVal.int 1) := by
  obtain ⟨s, he, hs⟩ := Option.map_eq_some_iff.mp claimedTwice_ran
  have hr : machine.Reachable s := Machine.Reachable.exec (.start ⟨rfl, by simp⟩) he
  have hlog : s.log = [.claimed [.int 1], .reset [.int 1], .claimed [.int 1]] := congrArg Prod.fst hs
  exact ⟨s, he, (mysql_claims_apart hr).2 [] _ [.reset [.int 1]] _ [] _ hlog List.mem_cons_self List.mem_cons_self⟩

end MysqlTasks

/-! ## `MemoryBatchStore` -/

namespace MemoryTasks

variable {s t : MemoryTasks} {a : MemoryTasksAct}

def board (s : MemoryTasks) : TaskBoard PyVal Int :=
  { status := statusIn TaskRow.id TaskRow.state s.store.tasks, log := s.log }

theorem claimRows_ids (limit : Nat) (rows : List TaskRow) :
    ((MemoryBatchStore.claimRows limit rows).2.map TaskRow.id).Sublist (rows.map TaskRow.id) := by
  fun_induction MemoryBatchStore.claimRows limit rows with
  | case1 rows => exact List.nil_sublist _
  | case2 => exact List.nil_sublist _
  | case3 k row rows hstate after claimed heq ih =>
    rw [heq] at ih
    exact ih.cons_cons row.id
  | case4 k row rows hstate after claimed heq ih =>
    rw [heq] at ih
    exact ih.cons row.id

theorem claimRows_todo (limit : Nat) (rows : List TaskRow) :
    ∀ id ∈ (MemoryBatchStore.claimRows limit rows).2.map TaskRow.id, ∃ row ∈ rows, row.id = id ∧ row.state = TODO := by
  fun_induction MemoryBatchStore.claimRows limit rows with
  | case1 rows => simp
  | case2 => simp
  | case3 k row rows hstate after claimed heq ih =>
    intro id hid
    rw [heq] at ih
    rcases List.mem_cons.mp hid with rfl | hid
    · exact ⟨row, List.mem_cons_self, rfl, hstate⟩
    · obtain ⟨r, hr, hid, hs⟩ := ih id hid
      exact ⟨r, List.mem_cons_of_mem row hr, hid, hs⟩
  | case4 k row rows hstate after claimed heq ih =>
    intro id hid
    rw [heq] at ih
    obtain ⟨r, hr, hid, hs⟩ := ih id hid
    exact ⟨r, List.mem_cons_of_mem row hr, hid, hs⟩

/-- The claim as an update of the rows that it returns. -/
theorem claimRows_eq (limit : Nat) {rows : List TaskRow} (hn : (rows.map TaskRow.id).Nodup) :
    (MemoryBatchStore.claimRows limit rows).1 = rows.map fun row =>
      if row.id ∈ (MemoryBatchStore.claimRows limit rows).2.map TaskRow.id then { row with state := DOING } else row := by
  fun_induction MemoryBatchStore.claimRows limit rows with
  | case1 rows => simp
  | case2 => rfl
  | case3 k row rows hstate after claimed heq ih =>
    rw [List.map_cons, List.nodup_cons] at hn
    rw [heq] at ih
    rw [List.map_cons, List.map_cons, if_pos List.mem_cons_self]
    refine congrArg _ ((ih hn.2).trans (List.map_congr_left fun r hr => ?_))
    have hne : r.id ≠ row.id := fun he => hn.1 (he ▸ List.mem_map_of_mem hr)
    simp only [List.mem_cons, hne, false_or]
  | case4 k row rows hstate after claimed heq ih =>
    rw [List.map_cons, List.nodup_cons] at hn
    have hsub := claimRows_ids (k + 1) rows
    rw [heq] at ih hsub
    rw [List.map_cons, if_neg fun hid => hn.1 (hsub.subset hid)]
    exact congrArg _ (ih hn.2)

theorem markRows_eq (id : PyVal) (state : Int) {rows : List TaskRow} (hn : (rows.map TaskRow.id).Nodup) :
    MemoryBatchStore.markRows id state rows = if id ∈ rows.map TaskRow.id then
      some (rows.map fun row => if row.id = id then { row with state } else row) else none := by
  induction rows with
  | nil => rfl
  | cons row rows ih =>
    rw [List.map_cons, List.nodup_cons] at hn
    rw [MemoryBatchStore.markRows, List.map_cons]
    by_cases hid : row.id = id
    · subst hid
      have hsame : (rows.map fun r => if r.id = row.id then { r with state } else r) = rows := by
        refine (List.map_congr_left fun r hr => ?_).trans (List.map_id rows)
        have hne : r.id ≠ row.id := fun he => hn.1 (he ▸ List.mem_map_of_mem hr)
        exact if_neg hne
      rw [if_pos rfl, if_pos List.mem_cons_self, List.map_cons, if_pos rfl, hsame]
    · have hne : id ≠ row.id := fun he => hid he.symm
      rw [if_neg hid, ih hn.2, List.map_cons, if_neg hid]
      by_cases hmem : id ∈ rows.map TaskRow.id
      · rw [if_pos hmem, if_pos (List.mem_cons_of_mem row.id hmem)]
        rfl
      · rw [if_neg hmem, if_neg (List.not_mem_cons_of_ne_of_not_mem hne hmem)]
        rfl

/-! ### What it does to the board -/

/-- A step changes the states of some rows, and says which. -/
inductive Stepped (s : MemoryTasks) : MemoryTasks → Prop
  | same (t : MemoryTasks) (htasks : t.store.tasks = s.store.tasks) (hlog : t.log = s.log) : Stepped s t
  | claimed (t : MemoryTasks) (ids : List PyVal) (hids : ids.Nodup)
      (htodo : ∀ id ∈ ids, ∃ row ∈ s.store.tasks, row.id = id ∧ row.state = TODO)
      (htasks : t.store.tasks = s.store.tasks.map fun row => if row.id ∈ ids then { row with state := DOING } else row)
      (hlog : t.log = .claimed ids :: s.log) : Stepped s t
  | marked (t : MemoryTasks) (id : PyVal) (state : Int) (hid : id ∈ s.store.tasks.map TaskRow.id)
      (htasks : t.store.tasks = s.store.tasks.map fun row => if row.id = id then { row with state } else row)
      (hlog : t.log = .marked id state :: s.log) : Stepped s t
  | reset (t : MemoryTasks) (p : TaskRow → Bool)
      (htasks : t.store.tasks = s.store.tasks.map fun row => if p row then { row with state := TODO } else row)
      (hlog : t.log = .reset ((s.store.tasks.filter p).map TaskRow.id) :: s.log) : Stepped s t

theorem step_cases (hn : (s.store.tasks.map TaskRow.id).Nodup) (h : s.step a = some t) : Stepped s t := by
  cases a with
  | tick d =>
    cases h
    exact .same _ rfl rfl
  | claimTasks limit =>
    cases h
    exact .claimed _ _ (hn.sublist (claimRows_ids _ _)) (claimRows_todo _ _) (claimRows_eq _ hn) rfl
  | markTask id state =>
    cases h
    by_cases hid : id ∈ s.store.tasks.map TaskRow.id
    · refine .marked _ id state hid ?_ (if_pos hid)
      rw [MemoryBatchStore.markTask, markRows_eq id state hn, if_pos hid]
    · refine .same _ ?_ (if_neg hid)
      rw [MemoryBatchStore.markTask, markRows_eq id state hn, if_neg hid]
  | resetAllTasks =>
    cases h
    exact .reset _ (fun _ => true) (by simp [MemoryBatchStore.resetAllTasks]) (by rw [List.filter_eq_self.mpr fun _ _ => rfl])
  | resetLostTasks stale =>
    cases h
    exact .reset _ (s.store.isLost s.now stale) rfl rfl

theorem Stepped.ids (h : Stepped s t) : t.store.tasks.map TaskRow.id = s.store.tasks.map TaskRow.id := by
  cases h with
  | same htasks hlog => rw [htasks]
  | claimed ids hids htodo htasks hlog =>
    rw [htasks]
    exact map_key (fun row => by split <;> rfl) _
  | marked id state hid htasks hlog =>
    rw [htasks]
    exact map_key (fun row => by split <;> rfl) _
  | reset p htasks hlog =>
    rw [htasks]
    exact map_key (fun row => by split <;> rfl) _

/-- An update of the rows that `p` chooses, of which `ids` are the ids. -/
theorem statusIn_update {rows : List TaskRow} {f : TaskRow → TaskRow} (state : Int) (p : TaskRow → Bool) (ids : List PyVal)
    (hf : ∀ row, f row = if p row then { row with state } else row)
    (hids : ∀ id, id ∈ ids ↔ ∃ row, rows.find? (fun r => r.id = id) = some row ∧ p row) :
    statusIn TaskRow.id TaskRow.state (rows.map f) =
      fun id => if id ∈ ids then state else statusIn TaskRow.id TaskRow.state rows id := by
  refine statusIn_map TaskRow.state p (fun row => ?_) (fun row => ?_) hids
  · rw [hf]
    split <;> rfl
  · rw [hf]
    split <;> rfl

theorem board_step (hn : (s.store.tasks.map TaskRow.id).Nodup) (h : Stepped s t) :
    t.board = s.board ∨ ∃ e, s.board.step TODO DOING e = some t.board := by
  cases h with
  | same htasks hlog => exact .inl (by rw [board, htasks, hlog]; rfl)
  | claimed ids hids htodo htasks hlog =>
    have hrow : ∀ id ∈ ids, ∃ row, s.store.tasks.find? (fun r => r.id = id) = some row ∧ row.state = TODO := by
      intro id hid
      obtain ⟨row, hmem, rfl, hstate⟩ := htodo id hid
      exact ⟨row, find?_key hn hmem, hstate⟩
    have hcan : ids.Nodup ∧ ∀ id ∈ ids, s.board.status id = TODO := by
      refine ⟨hids, fun id hid => ?_⟩
      obtain ⟨row, hfind, hstate⟩ := hrow id hid
      show statusIn TaskRow.id TaskRow.state s.store.tasks id = TODO
      rw [statusIn, hfind, Option.map_some, Option.getD_some, hstate]
    have hchosen : ∀ id, id ∈ ids ↔ ∃ row, s.store.tasks.find? (fun r => r.id = id) = some row ∧ decide (row.id ∈ ids) := by
      intro id
      constructor
      · intro hid
        obtain ⟨row, hfind, -⟩ := hrow id hid
        exact ⟨row, hfind, decide_eq_true (key_of_find? hfind ▸ hid)⟩
      · rintro ⟨row, hfind, hp⟩
        exact key_of_find? hfind ▸ of_decide_eq_true hp
    have hstatus := statusIn_update DOING (·.id ∈ ids) ids (fun _ => (if_congr decide_eq_true_iff rfl rfl).symm) hchosen
    refine .inr ⟨.claimed ids, (if_pos hcan).trans (congrArg some ?_)⟩
    rw [board, board, htasks, hlog, hstatus]
  | marked id state hid htasks hlog =>
    have hchosen : ∀ id', id' ∈ [id] ↔ ∃ row, s.store.tasks.find? (fun r => r.id = id') = some row ∧
        decide (row.id = id) := by
      intro id'
      constructor
      · intro hid'
        obtain rfl := List.mem_singleton.mp hid'
        obtain ⟨row, hfind⟩ := mem_keys_iff.mp hid
        exact ⟨row, hfind, decide_eq_true (key_of_find? hfind)⟩
      · rintro ⟨row, hfind, hp⟩
        exact List.mem_singleton.mpr ((key_of_find? hfind).symm.trans (of_decide_eq_true hp))
    have hstatus := statusIn_update state (·.id = id) [id] (fun _ => (if_congr decide_eq_true_iff rfl rfl).symm) hchosen
    refine .inr ⟨.marked id state, congrArg some ?_⟩
    rw [board, board, htasks, hlog, hstatus]
    refine congrArg (TaskBoard.mk · _) (funext fun id' => ?_)
    simp only [Function.update_apply, List.mem_singleton]
  | reset p htasks hlog =>
    have hstatus := statusIn_update TODO p ((s.store.tasks.filter p).map TaskRow.id) (fun _ => rfl) fun id =>
        mem_map_filter hn
    refine .inr ⟨.reset ((s.store.tasks.filter p).map TaskRow.id), congrArg some ?_⟩
    rw [board, board, htasks, hlog, hstatus]

/-- The store in memory does what a `TaskBoard` does, so that between two claims of one
task it was put back. -/
theorem memory_claims_apart {s : MemoryTasks} (h : machine.Reachable s) :
    (TaskBoard.machine TODO DOING).Reachable s.board ∧ ClaimsApart TODO s.log := by
  have hboth : (s.store.tasks.map TaskRow.id).Nodup ∧ (TaskBoard.machine TODO DOING).Reachable s.board := by
    refine Machine.Within.induct (I := fun s => (s.store.tasks.map TaskRow.id).Nodup ∧
      (TaskBoard.machine TODO DOING).Reachable s.board) (fun s hs => ?_) (fun s a t hs _ ht => ?_) h
    · exact ⟨(show s.log = [] ∧ (s.store.tasks.map TaskRow.id).Nodup from hs).2, .start hs.1⟩
    have hstep := step_cases hs.1 ht
    refine ⟨hstep.ids.symm ▸ hs.1, ?_⟩
    rcases board_step hs.1 hstep with he | ⟨e, he⟩
    · rw [he]
      exact hs.2
    · exact hs.2.step trivial he
  exact ⟨hboth.2, TaskBoard.claims_apart (by decide) hboth.2⟩

/-- A task that is claimed, lost and claimed again. -/
def lostTask : List MemoryTasksAct := [.claimTasks 5, .claimTasks 5, .tick 9, .resetLostTasks 5, .claimTasks 5]

theorem lostTask_ran : (machine.exec { store := { tasks := [{ id := .int 1 }] } } lostTask).map
    (fun s => (s.log, s.returned.map List.length)) =
      some ([.claimed [.int 1], .reset [.int 1], .claimed [], .claimed [.int 1]], [1, 0, 1]) := by
  decide +kernel

theorem memory_claims_apart_lostTask : ∃ s, machine.exec { store := { tasks := [{ id := .int 1 }] } } lostTask = some s ∧
    ∃ e ∈ [BoardEvent.reset [PyVal.int 1], .claimed []], e.PutsBack TODO (PyVal.int 1) := by
  obtain ⟨s, he, hs⟩ := Option.map_eq_some_iff.mp lostTask_ran
  have hr : machine.Reachable s := Machine.Reachable.exec (.start ⟨rfl, by simp⟩) he
  have hlog : s.log = [.claimed [.int 1], .reset [.int 1], .claimed [], .claimed [.int 1]] := congrArg Prod.fst hs
  exact ⟨s, he, (memory_claims_apart hr).2 [] _ [.reset [.int 1], .claimed []] _ [] _ hlog List.mem_cons_self
    List.mem_cons_self⟩

end MemoryTasks

end Netspy
