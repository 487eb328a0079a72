import Netspy.Impl.SharedRows

/-!
# An `_id` that others see

`insert_many` adds to the dicts that it is given, and these go on to the next pipelines
and to the dump. So they stay what `_normalize` made of them if and only if nobody uses
them after the first `insert_many`, or it has nothing to add (`keepsDicts_iff`).
-/

namespace Netspy

namespace SharedDicts

variable (objectId : Nat → PyVal) {s : SharedDicts} {row : Nat}

theorem addId_hasId (s : SharedDicts) (row : Nat) : (s.addId objectId row).hasId row := by
  unfold addId
  split
  next h => exact h
  next h =>
    have hnone : (s.dicts row).lookup "_id" = none := Option.not_isSome_iff_eq_none.mp h
    simp [hasId, List.lookup_append, hnone]

theorem addId_dicts_of_hasId (h : s.hasId row) (other : Nat) : (s.addId objectId other).dicts row = s.dicts row := by
  unfold addId
  split
  next => rfl
  next hother =>
    have hne : row ≠ other := by
      rintro rfl
      exact hother h
    exact Function.update_of_ne hne _ _

theorem hasId_addId (h : s.hasId row) (other : Nat) : (s.addId objectId other).hasId row := by
  unfold hasId
  rw [addId_dicts_of_hasId objectId h]
  exact h

theorem insertMany_dicts_of_hasId (h : s.hasId row) (rows : List Nat) :
    (s.insertMany objectId rows).dicts row = s.dicts row := by
  induction rows generalizing s with
  | nil => rfl
  | cons other rows ih => exact (ih (hasId_addId objectId h other)).trans (addId_dicts_of_hasId objectId h other)

theorem insertMany_hasId {rows : List Nat} (h : row ∈ rows) : (s.insertMany objectId rows).hasId row := by
  induction rows generalizing s with
  | nil => exact absurd h List.not_mem_nil
  | cons other rows ih =>
    rcases List.mem_cons.mp h with rfl | h
    · unfold hasId
      have hrow := addId_hasId objectId s row
      rw [show (s.insertMany objectId (row :: rows)).dicts row = _ from insertMany_dicts_of_hasId objectId hrow rows]
      exact hrow
    · exact ih h

theorem insertMany_of_hasId {rows : List Nat} (h : ∀ row ∈ rows, s.hasId row) : s.insertMany objectId rows = s := by
  induction rows with
  | nil => rfl
  | cons row rows ih =>
    have hrow : s.addId objectId row = s := if_pos (h row List.mem_cons_self)
    show (s.addId objectId row).insertMany objectId rows = s
    rw [hrow]
    exact ih fun other hother => h other (List.mem_cons_of_mem row hother)

/-- Some of the dicts are as before if and only if they had an `_id`. -/
theorem insertMany_datas_iff {rows some : List Nat} (h : some ⊆ rows) :
    (s.insertMany objectId rows).datas some = s.datas some ↔ ∀ row ∈ some, s.hasId row := by
  unfold datas
  rw [List.map_inj_left]
  constructor
  · intro heq row hrow
    have hadded := insertMany_hasId objectId (s := s) (h hrow)
    unfold hasId at hadded ⊢
    rwa [heq row hrow] at hadded
  · exact fun hids row hrow => insertMany_dicts_of_hasId objectId (hids row hrow) rows

end SharedDicts

namespace SharedRows

variable (env : Env) (k : GroupKey) (updateKeys : List String) {s s' : SharedDicts} {rows : List Nat}

theorem dumpedRows_prefix_rows (i : Nat) (rows : List Nat) : dumpedRows env k i rows <+: rows := by
  induction rows generalizing i with
  | nil => exact List.prefix_rfl
  | cons row rows ih =>
    unfold dumpedRows
    split
    · exact List.nil_prefix
    · exact List.cons_prefix_cons.mpr ⟨rfl, ih (i + 1)⟩

theorem dumpFailed_prefix_datas (rows : List Nat) (s : SharedDicts) : dumpFailed env k rows s <+: s.datas rows := by
  unfold dumpFailed
  split
  · exact List.nil_prefix
  · exact (dumpedRows_prefix_rows env k 0 rows).map _

/-- What is dumped after `insert_many`. -/
theorem dumpFailed_insertMany_iff (rows : List Nat) (s : SharedDicts) :
    dumpFailed env k rows (s.insertMany env.objectId rows) <+: s.datas rows ↔
      (env.out.openDump k = .ok () → ∀ row ∈ dumpedRows env k 0 rows, s.hasId row) := by
  unfold dumpFailed
  have hdumped := dumpedRows_prefix_rows env k 0 rows
  cases env.out.openDump k with
  | error e => simp
  | ok u =>
    simp only [forall_const]
    rw [← SharedDicts.insertMany_datas_iff env.objectId hdumped.subset]
    constructor
    · intro h
      have hlen : ((s.insertMany env.objectId rows).datas (dumpedRows env k 0 rows)).length =
          (s.datas (dumpedRows env k 0 rows)).length := by simp [SharedDicts.datas]
      exact (List.prefix_of_prefix_length_le h (hdumped.map _) hlen.le).eq_of_length hlen
    · intro h
      rw [h]
      exact hdumped.map _

/-! ## A call -/

theorem write_accepted (hrows : rows ≠ []) (i : Nat) (pipeline : PipelineKind) :
    accepted (write env k i pipeline rows s).1 = accepts env k i pipeline := by
  have hempty : rows.isEmpty = false := by simpa using hrows
  unfold write accepts mongoSaveItems readItems
  rw [hempty]
  cases hupdate : k.isUpdate with
  | true =>
    cases pipeline with
    | csv => rfl
    | _ => simp
  | false =>
    cases pipeline with
    | mongo =>
      cases env.collection i with
      | true => simp
      | false => rfl
    | _ => simp

theorem write_dicts (hrows : rows ≠ []) (i : Nat) (pipeline : PipelineKind) :
    (write env k i pipeline rows s).2 =
      if inserts env k i pipeline then s.insertMany env.objectId rows else s := by
  have hempty : rows.isEmpty = false := by simpa using hrows
  unfold write inserts mongoSaveItems
  rw [hempty]
  cases hupdate : k.isUpdate with
  | true =>
    cases pipeline with
    | _ => simp
  | false =>
    cases pipeline with
    | mongo =>
      cases env.collection i with
      | true => rfl
      | false => rfl
    | _ => simp

/-! ## A group -/

/-- `KeepsDicts` of the pipelines from the place `i` on. -/
def KeepsFrom (rows : List Nat) (i : Nat) (pipelines : List PipelineKind) (s : SharedDicts) (datas : List Dict) : Prop :=
  let wrote := writeAll env k updateKeys rows i pipelines s
  (∀ call ∈ wrote.1, call.datas = datas) ∧ (if wrote.2.1 then [] else dumpFailed env k rows wrote.2.2) <+: datas

theorem writeAll_cons (rows : List Nat) (i : Nat) (pipeline : PipelineKind) (rest : List PipelineKind)
    (s : SharedDicts) :
    writeAll env k updateKeys rows i (pipeline :: rest) s =
      let wrote := write env k i pipeline rows s
      let call : WriteCall := ⟨pipeline.path, k.table, k.isUpdate, s.datas rows, updateKeys, accepted wrote.1⟩
      if accepted wrote.1 then
        (call :: (writeAll env k updateKeys rows (i + 1) rest wrote.2).1,
          (writeAll env k updateKeys rows (i + 1) rest wrote.2).2)
      else ([call], false, wrote.2) := rfl

theorem keepsFrom_cons (hrows : rows ≠ []) (i : Nat) (pipeline : PipelineKind) (rest : List PipelineKind)
    (s : SharedDicts) (datas : List Dict) :
    KeepsFrom env k updateKeys rows i (pipeline :: rest) s datas ↔
      let after := if inserts env k i pipeline then s.insertMany env.objectId rows else s
      s.datas rows = datas ∧
        if accepts env k i pipeline then KeepsFrom env k updateKeys rows (i + 1) rest after datas
        else dumpFailed env k rows after <+: datas := by
  unfold KeepsFrom
  rw [writeAll_cons, ← write_accepted env k (s := s) hrows i pipeline, ← write_dicts env k hrows i pipeline]
  dsimp only
  split
  next h =>
    rw [List.forall_mem_cons, and_assoc]
  next h =>
    rw [List.forall_mem_singleton]
    rfl

theorem keepsFrom_iff (hrows : rows ≠ []) (hlacks : ¬ ∀ row ∈ rows, s.hasId row) (i : Nat) (pipelines : List PipelineKind) :
    KeepsFrom env k updateKeys rows i pipelines s (s.datas rows) ↔ InsertsLast env k rows s i pipelines := by
  induction pipelines generalizing i with
  | nil => simp [KeepsFrom, InsertsLast, writeAll]
  | cons pipeline rest ih =>
    rw [keepsFrom_cons env k updateKeys hrows]
    unfold InsertsLast
    dsimp only
    by_cases hins : inserts env k i pipeline
    · simp only [hins, if_true, true_and]
      split
      next hacc =>
        cases rest with
        | nil => simp [KeepsFrom, writeAll]
        | cons next rest =>
          rw [keepsFrom_cons env k updateKeys hrows, SharedDicts.insertMany_datas_iff _ (List.Subset.refl rows)]
          simp [hlacks]
      next hacc => exact dumpFailed_insertMany_iff env k rows s
    · simp only [hins, Bool.false_eq_true, if_false, true_and]
      split
      next hacc => rw [ih]; simp [hacc]
      next hacc => simp [hacc, dumpFailed_prefix_datas]

theorem write_dicts_of_hasId (hids : ∀ row ∈ rows, s.hasId row) (i : Nat) (pipeline : PipelineKind) :
    (write env k i pipeline rows s).2 = s := by
  by_cases hrows : rows = []
  · subst hrows
    unfold write mongoSaveItems
    cases pipeline <;> cases k.isUpdate <;> rfl
  · rw [write_dicts env k hrows, SharedDicts.insertMany_of_hasId _ hids, ite_self]

/-- The dicts stay as they are where they all have an `_id`. -/
theorem keepsFrom_of_hasId (hids : ∀ row ∈ rows, s.hasId row) (i : Nat) (pipelines : List PipelineKind) :
    KeepsFrom env k updateKeys rows i pipelines s (s.datas rows) := by
  induction pipelines generalizing i with
  | nil => simp [KeepsFrom, writeAll]
  | cons pipeline rest ih =>
    unfold KeepsFrom
    rw [writeAll_cons]
    dsimp only
    rw [write_dicts_of_hasId env k hids]
    split
    next =>
      rw [List.forall_mem_cons, and_assoc]
      exact ⟨rfl, ih (i + 1)⟩
    next =>
      rw [List.forall_mem_singleton]
      exact ⟨rfl, dumpFailed_prefix_datas env k rows s⟩

/-- The pipelines and the dump get the dicts as they were if and only if all had an
`_id`, or none is used after the first `insert_many`. -/
theorem keepsDicts_iff (rows : List Nat) (pipelines : List PipelineKind) (s : SharedDicts) :
    KeepsDicts env k updateKeys rows pipelines s ↔
      (∀ row ∈ rows, s.hasId row) ∨ InsertsLast env k rows s 0 pipelines := by
  show KeepsFrom env k updateKeys rows 0 pipelines s (s.datas rows) ↔ _
  by_cases hids : ∀ row ∈ rows, s.hasId row
  · exact iff_of_true (keepsFrom_of_hasId env k updateKeys hids 0 pipelines) (.inl hids)
  · have hrows : rows ≠ [] := by
      rintro rfl
      exact hids fun row hrow => absurd hrow List.not_mem_nil
    rw [keepsFrom_iff env k updateKeys hrows hids]
    simp only [hids, false_or]

/-- The second pipeline gets the `_id`, and it is dumped. -/
theorem insertMany_seen :
    let env : Env := { out := { write := fun _ i => .ok (i = 0) }, objectId := fun n => .obj (toString n) }
    let s : SharedDicts := { dicts := fun _ => [("title", .str "t")] }
    let stored := storeGroup env ⟨"news", false, none⟩ [] [0] [.mongo, .mysql] s
    stored.calls.map WriteCall.datas = [[[("title", .str "t")]], [[("title", .str "t"), ("_id", .obj "0")]]] ∧
      stored.dumped = [[("title", .str "t"), ("_id", .obj "0")]] ∧
      ¬ KeepsDicts env ⟨"news", false, none⟩ [] [0] [.mongo, .mysql] s := by
  decide

end SharedRows

end Netspy
