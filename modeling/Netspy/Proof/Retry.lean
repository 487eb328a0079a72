import Netspy.Framework.Json.Kept
import Netspy.Framework.Traverse
import Netspy.Impl.Retry
import Netspy.Proof.Dump
import Netspy.Proof.GroupWrites

/-!
# Replaying the dumped items

What `retry_items` issues for the rows that `_persist` dumped. A row is written
again as it was to be written if its record is on one line, if it was no update
without keys, and if it had pipelines of its own, or the others were those of
the setting that the replay reads.
-/

namespace Netspy

namespace ItemBuffer

variable (lib : Stdlib) (st : Setting) (out : Turnout)

/-! ## What `_persist` dumps -/

/-- The pipelines of a group were called and did not all accept it. -/
def Tried (defaults : List String) (calls : List WriteCall) (k : GroupKey) (rows : List Norm) : Prop :=
  let tried := writeAll out k (rows.map Norm.data) ((rows.head?.map Norm.updateKeys).getD []) 0
    (pipelineKey defaults k.pipelines)
  tried.2 = false ∧ ∀ call ∈ tried.1, call ∈ calls

/-- A dumped row is a row of a group that was tried. -/
def DumpOf (defaults : List String) (groups : List (GroupKey × List Norm)) (calls : List WriteCall)
    (d : Norm × DumpRecord) : Prop :=
  ∃ e ∈ groups, d.1 ∈ e.2 ∧ d.2 = dumpRecord e.1 ((e.2.head?.map Norm.updateKeys).getD []) d.1 ∧
    Tried out defaults calls e.1 e.2

/-- What `_persist` dumps are rows of the groups that were tried. -/
theorem dumpOf_mem {defaults : List String} {cache : List (List String)} {batch : List Obj} {d : Norm × DumpRecord}
    (h : d ∈ (persist lib st out defaults cache batch).2.2.dumped) :
    DumpOf out defaults (persistGroups lib st out defaults cache batch)
      (persist lib st out defaults cache batch).2.2.calls d := by
  obtain ⟨hcalls, hdumped⟩ := persist_adds lib st out defaults cache batch
  rw [hdumped] at h
  obtain ⟨e, he, hd⟩ := List.mem_flatMap.mp h
  unfold groupDump at hd
  split at hd
  · exact absurd hd List.not_mem_nil
  · rename_i hok
    obtain ⟨hrow, hrec⟩ := mem_dumpFailed out hd
    refine ⟨e, he, hrow, hrec, Bool.eq_false_of_not_eq_true hok, fun call hc => ?_⟩
    rw [hcalls]
    exact List.mem_flatMap.mpr ⟨e, he, hc⟩

end ItemBuffer

namespace PersistCall

open ItemBuffer

variable (lib : Stdlib) (c : PersistCall)

theorem persistGroups_subset : persistGroups lib c.st c.out c.defaults c.cache c.batch ⊆ c.groups lib := by
  unfold persistGroups groups
  split
  · exact List.nil_subset _
  · split
    · exact List.nil_subset _
    · rename_i acc hs
      rw [hs]
      exact reachedGroups_subset c.st c.out c.defaults _ _

theorem mem_dumped {d : Norm × DumpRecord} (h : d ∈ (c.report lib).dumped) :
    DumpOf c.out c.defaults (c.groups lib) (c.report lib).calls d := by
  obtain ⟨e, he, hrest⟩ := dumpOf_mem lib c.st c.out h
  exact ⟨e, persistGroups_subset lib c he, hrest⟩

/-- A dumped row has the record of its group, which was tried and failed. -/
theorem dumped_spec {d : Norm × DumpRecord} (h : d ∈ (c.report lib).dumped) :
    d.2 = dumpRecord d.1.groupKey (c.updateKeys lib d.1.groupKey) d.1 ∧
      ∃ rows, d.1 ∈ rows ∧ (rows.head?.map Norm.updateKeys).getD [] = c.updateKeys lib d.1.groupKey ∧
        Tried c.out c.defaults (c.report lib).calls d.1.groupKey rows := by
  obtain ⟨⟨k, rows⟩, he, hrow, hrec, htried⟩ := mem_dumped lib c h
  let g := (sift lib c.st c.out 0 c.batch {}).2.groups
  have hk : d.1.groupKey = k := g.keyed (k, rows) he _ hrow
  have hl : (c.groups lib).lookup k = some rows := g.lookup_entries he
  have hu : (rows.head?.map Norm.updateKeys).getD [] = c.updateKeys lib k := by
    rw [updateKeys, hl]
    rfl
  rw [hk]
  exact ⟨hu ▸ hrec, rows, hrow, hu, htried⟩

end PersistCall

/-! ## What the replay reads -/

theorem lookup_toPyPairs (kvs : List (String × Json)) (key : String) :
    (toPyPairs kvs).lookup (.str key) = (kvs.lookup key).map toPy := by
  induction kvs with
  | nil => rfl
  | cons kv kvs ih =>
    obtain ⟨k, v⟩ := kv
    rw [toPyPairs, List.lookup_cons, List.lookup_cons]
    by_cases hk : key = k
    · subst hk
      simp
    · have hs : (PyVal.str key == PyVal.str k) = false := by simp [hk]
      rw [hs, beq_eq_false_iff_ne.mpr hk]
      exact ih

theorem toPyList_str (xs : List String) : toPyList (xs.map .str) = xs.map .str := by
  induction xs with
  | nil => rfl
  | cons x xs ih => rw [List.map_cons, toPyList, ih]; rfl

/-- A record of `FAILED_ITEM_PATH` has a table. -/
def hasTable : Json → Bool
  | .obj kvs => (kvs.lookup "table").isSome
  | _ => false

/-- The name of the field has a letter that no value is written with outside its
strings. -/
theorem hasTable_notPlain {v : Json} (h : hasTable v = true) : ∃ c ∈ v.chars, Json.isPlain c = false := by
  match v, h with
  | .obj kvs, h =>
    obtain ⟨v, hv⟩ := Option.isSome_iff_exists.mp h
    obtain ⟨as, bs, rfl, -⟩ := List.lookup_eq_some_iff.mp hv
    have hb : 'b' ∈ "table".toList := by decide
    exact ⟨'b', Json.mem_charsMembers.mpr ⟨("table", v), by simp, .inl hb⟩, by decide⟩

/-- What is grouped has a table. -/
theorem hasTable_of_keyed {v : Json} {kr : ReplayKey × Json} (h : keyed v = .ok kr) : hasTable v = true := by
  match v, h with
  | .obj kvs, h =>
    rw [hasTable]
    cases hl : kvs.lookup "table" with
    | some t => rfl
    | none =>
      have hg : getItem (toPyPairs kvs) "table" = .error "KeyError" := by
        rw [getItem, lookup_toPyPairs, hl]
        rfl
      simp only [keyed, toPy, replayKey, hg] at h
      cases hk : keysOf (getKey (toPyPairs kvs) "update_keys") <;> rw [hk] at h <;> cases h

/-- The key of a dumped row. -/
def DumpRecord.key (r : DumpRecord) : ReplayKey where
  table := .str r.table
  keys := (r.updateKeys.getD []).map .str
  paths := (Item.orElse r.pipelines none).map fun ps => ps.map .str

variable (encode : Dict → JsonDict)

theorem lookup_entry (key key' : String) (xs : Option (List String)) :
    (FailedWrite.entry key xs).lookup key' =
      if key' = key then (Item.orElse xs none).map fun ys => .arr (ys.map .str) else none := by
  rcases xs with _ | _ | ⟨x, xs⟩
  · simp [FailedWrite.entry, Item.orElse]
  · simp [FailedWrite.entry, Item.orElse]
  · rw [FailedWrite.entry, List.lookup_cons]
    by_cases h : key' = key
    · rw [if_pos h, h, beq_self_eq_true]
      rfl
    · rw [if_neg h, beq_eq_false_iff_ne.mpr h]
      rfl

theorem keysOf_entry (xs : Option (List String)) :
    keysOf ((((Item.orElse xs none).map fun ys => Json.arr (ys.map .str)).map toPy).getD .none) =
      .ok ((xs.getD []).map .str) := by
  rcases xs with _ | _ | ⟨x, xs⟩
  · rfl
  · rfl
  · show tupleOf (.list (toPyList _)) = _
    rw [toPyList_str]
    rfl

theorem pathsOf_entry (xs : Option (List String)) :
    pathsOf ((((Item.orElse xs none).map fun ys => Json.arr (ys.map .str)).map toPy).getD .none) =
      .ok ((Item.orElse xs none).map fun ys => ys.map .str) := by
  rcases xs with _ | _ | ⟨x, xs⟩
  · rfl
  · rfl
  · show (tupleOf (.list (toPyList _))).map some = _
    rw [toPyList_str]
    rfl

/-- The fields of a record, as `json.loads` returns them. -/
theorem getKey_json (r : DumpRecord) (key : String) (h : key ≠ "table" ∧ key ≠ "data") :
    getKey (toPyPairs ([("table", .str r.table), ("data", (encode r.data).json)] ++
      FailedWrite.entry "update_keys" r.updateKeys ++ FailedWrite.entry "pipelines" r.pipelines)) key =
      ((((FailedWrite.entry "update_keys" r.updateKeys).lookup key).or
        ((FailedWrite.entry "pipelines" r.pipelines).lookup key)).map toPy).getD .none := by
  have hne : [("table", Json.str r.table), ("data", (encode r.data).json)].lookup key = none := by
    rw [List.lookup_cons, beq_eq_false_iff_ne.mpr h.1, List.lookup_cons, beq_eq_false_iff_ne.mpr h.2]
    rfl
  rw [getKey, lookup_toPyPairs, List.lookup_append, List.lookup_append, hne, Option.none_or]

theorem keyed_json (r : DumpRecord) : keyed (r.json encode) = .ok (r.key, r.json encode) := by
  have hkeys := getKey_json encode r "update_keys" (by decide)
  have hpaths := getKey_json encode r "pipelines" (by decide)
  rw [lookup_entry, lookup_entry, if_pos rfl, if_neg (by decide), Option.or_none] at hkeys
  rw [lookup_entry, lookup_entry, if_neg (by decide), if_pos rfl, Option.none_or] at hpaths
  have hall : ∀ xs : List String, (xs.map PyVal.str).all PyVal.hashable = true := by
    intro xs
    rw [List.all_map]
    exact List.all_eq_true.mpr fun _ _ => rfl
  have hhash : ((r.key.table :: r.key.keys) ++ r.key.paths.getD []).all PyVal.hashable = true := by
    rw [List.all_append, List.all_cons, DumpRecord.key, hall]
    cases Item.orElse r.pipelines none with
    | none => rfl
    | some ys => exact hall ys
  have ht : getItem (toPyPairs ([("table", .str r.table), ("data", (encode r.data).json)] ++
      FailedWrite.entry "update_keys" r.updateKeys ++ FailedWrite.entry "pipelines" r.pipelines)) "table" =
        .ok (.str r.table) := rfl
  have hk : replayKey (toPy (r.json encode)) = .ok r.key := by
    rw [DumpRecord.json, FailedWrite.record, toPy, replayKey, hkeys, hpaths, ht]
    rw [keysOf_entry, pathsOf_entry]
    exact if_pos hhash
  rw [keyed, hk]
  rfl

/-! ## What the replay issues -/

variable (answers : Answers) (later : Setting)

theorem replayGroup_issued (k : ReplayKey) (rows : List Json) (datas : List PyVal) (r : Replay) :
    (replayGroup answers later k rows datas r).issued = r.issued ++ datas.map (replayOperation later k, ·) := by
  have ha : (replayGroup answers later k rows datas r).attempts = r.attempts ++ [(replayOperation later k, datas)] := by
    unfold replayGroup
    dsimp only
    split_ifs <;> rfl
  rw [Replay.issued, ha, List.flatMap_append, List.flatMap_singleton]
  rfl

/-- Every row is given to pipelines, by the write of its key. -/
theorem replayGroups_issued {dat : Json → PyVal} (es : List (ReplayKey × List (ReplayKey × Json)))
    (h : ∀ e ∈ es, ∀ kr ∈ e.2, kr.1 = e.1 ∧ dataOf kr.2 = .ok (dat kr.2)) (r : Replay) :
    (replayGroups answers later es r).2.issued =
      r.issued ++ (es.flatMap Prod.snd).map fun kr => (replayOperation later kr.1, dat kr.2) := by
  induction es generalizing r with
  | nil => rw [List.flatMap_nil, List.map_nil, List.append_nil]; rfl
  | cons e es ih =>
    obtain ⟨k, rows⟩ := e
    obtain ⟨hrows, hes⟩ := List.forall_mem_cons.mp h
    have hdata : (rows.map Prod.snd).mapM dataOf = .ok ((rows.map Prod.snd).map dat) :=
      Except.mapM_ok (List.forall_mem_map.mpr fun kr hkr => (hrows kr hkr).2)
    have hmap : ((rows.map Prod.snd).map dat).map (replayOperation later k, ·) =
        rows.map fun kr => (replayOperation later kr.1, dat kr.2) := by
      rw [List.map_map, List.map_map]
      exact List.map_congr_left fun kr hkr => by rw [(hrows kr hkr).1]; rfl
    rw [replayGroups, hdata]
    dsimp only
    rw [ih hes, replayGroup_issued, List.flatMap_cons, List.map_append, List.append_assoc, hmap]

/-- A datum with the write that its record is replayed by. -/
def DumpRecord.replayed (r : DumpRecord) : Operation × PyVal :=
  (replayOperation later r.key, toPy (encode r.data).json)

/-- What is issued for records that are read. -/
theorem retryItems_issued {file : List Char} {rs : List DumpRecord} (h : readLines file = rs.map (·.json encode)) :
    ((retryItems answers later file).replay.issued).Perm (rs.map (·.replayed encode later)) := by
  let krs : List (ReplayKey × Json) := rs.map fun r => (r.key, r.json encode)
  have hk : groupRecords (readLines file) = .ok (.ofList krs) := by
    have hm : (rs.map (·.json encode)).mapM keyed = .ok krs := by
      rw [List.mapM_map]
      exact Except.mapM_ok fun r _ => keyed_json encode r
    rw [h, groupRecords, hm]
    rfl
  let dat : Json → PyVal := fun v => (dataOf v).toOption.getD .none
  have hrows : (Groups.ofList krs : Groups Prod.fst).rows.Perm krs := Groups.rows_ofList krs
  have hes : ∀ e ∈ (Groups.ofList krs : Groups Prod.fst).entries, ∀ kr ∈ e.2,
      kr.1 = e.1 ∧ dataOf kr.2 = .ok (dat kr.2) := by
    intro e he kr hkr
    refine ⟨(Groups.ofList krs).keyed e he kr hkr, ?_⟩
    obtain ⟨r, -, rfl⟩ := List.mem_map.mp (hrows.mem_iff.mp (List.mem_flatMap_of_mem he hkr))
    rfl
  have hissued := replayGroups_issued answers later _ hes {}
  have hmap : (krs.map fun kr => (replayOperation later kr.1, dat kr.2)) = rs.map (·.replayed encode later) :=
    List.map_map
  rw [retryItems]
  split_ifs with he
  · rw [h, List.isEmpty_iff, List.map_eq_nil_iff] at he
    rw [he]
    rfl
  · rw [hk]
    dsimp only
    split
    all_goals
      rename_i hr
      rw [hr] at hissued
      rw [← hmap]
      exact hissued ▸ hrows.map _

/-- If two functions give the same values on a list, and the first has a
property wherever the second has it, then so does the second. -/
theorem forall_of_map_perm {α β : Type} {l : List α} {f g : α → β} {q : β → Bool}
    (hp : (l.map f).Perm (l.map g)) (h : ∀ x ∈ l, q (g x) = true → q (f x) = true) :
    ∀ x ∈ l, q (f x) = true → q (g x) = true := by
  have hlen : (l.filter (q ∘ g)).length = (l.filter (q ∘ f)).length := by
    have hc := hp.countP_eq q
    rw [List.countP_map, List.countP_map, List.countP_eq_length_filter, List.countP_eq_length_filter] at hc
    exact hc.symm
  have hs : (l.filter (q ∘ g)).Sublist (l.filter (q ∘ f)) := by
    have he : l.filter (q ∘ g) = (l.filter (q ∘ f)).filter (q ∘ g) := by
      rw [List.filter_filter]
      refine List.filter_congr fun x hx => ?_
      have := h x hx
      cases hg : q (g x) <;> simp_all
    rw [he]
    exact List.filter_sublist
  intro x hx hq
  have hm : x ∈ l.filter (q ∘ g) := hs.eq_of_length hlen ▸ List.mem_filter.mpr ⟨hx, hq⟩
  exact (List.mem_filter.mp hm).2

/-! ## The replay against what was tried -/

/-- A dumped row is replayed as it was to be written: its record is on one line,
an update has keys, and a row without pipelines of its own had those of the
setting that the replay reads. -/
structure Repeats (lib : Stdlib) (c : PersistCall) (d : Norm × DumpRecord) : Prop where
  oneLine : OneLine (d.2.json encode)
  updateKeys : d.1.isUpdate = true → c.updateKeys lib d.1.groupKey ≠ []
  pipelines : d.1.pipelines = none → c.defaults = later.ITEM_PIPELINES

/-- The write that a record is replayed by, from the write of its group. -/
theorem replayOperation_key (lib : Stdlib) (c : PersistCall) {d : Norm × DumpRecord}
    (h : d ∈ (c.report lib).dumped) :
    let op := c.operation lib d.1.groupKey
    replayOperation later d.2.key =
      { op with
        isUpdate := op.isUpdate && !op.updateKeys.isEmpty
        pipelines := if d.1.pipelines = none then later.ITEM_PIPELINES.map .str else op.pipelines } := by
  obtain ⟨hrec, rows, -, -, hfail, -⟩ := c.dumped_spec lib h
  -- a group without pipelines would have been accepted
  have hne : d.1.pipelines ≠ some [] := by
    intro he
    rw [Norm.groupKey, he] at hfail
    cases hfail
  intro op
  rw [hrec]
  generalize hu : c.updateKeys lib d.1.groupKey = keys
  have hop : op = ⟨d.1.isUpdate, .str d.1.table, if d.1.isUpdate then keys.map .str else [],
      (d.1.pipelines.getD c.defaults).map .str⟩ := hu ▸ rfl
  rw [hop]
  cases hi : d.1.isUpdate <;> rcases keys with _ | ⟨key, keys⟩ <;> rcases hp : d.1.pipelines with _ | _ | ⟨p, ps⟩
  all_goals first | exact absurd hp hne | skip
  all_goals
    simp only [replayOperation, DumpRecord.key, ItemBuffer.dumpRecord, Norm.groupKey, hi, hp]
    rfl

theorem str_map_inj {xs ys : List String} (h : xs.map PyVal.str = ys.map PyVal.str) : xs = ys :=
  List.map_injective_iff.mpr (fun _ _ he => PyVal.str.inj he) h

/-- If all that is read can be grouped, it is the records on one line. -/
theorem readLines_grouped {rs : List DumpRecord} {groups : Groups (Prod.fst : ReplayKey × Json → ReplayKey)}
    (h : groupRecords (readLines (Json.linesOf (rs.map (·.json encode)))) = .ok groups) :
    readLines (Json.linesOf (rs.map (·.json encode))) =
      (rs.filter fun r => (r.json encode).oneLine).map (·.json encode) := by
  have hwf : ∀ v ∈ rs.map (·.json encode), v.WF := List.forall_mem_map.mpr fun r _ => FailedWrite.record_wf _ _
  have hall : ∀ v ∈ readLines (Json.linesOf (rs.map (·.json encode))), hasTable v = true := by
    intro v hv
    cases hm : (readLines (Json.linesOf (rs.map (·.json encode)))).mapM keyed with
    | error e => rw [groupRecords, hm] at h; cases h
    | ok krs =>
      obtain ⟨kr, hkr⟩ := Except.ok_of_mapM hm v hv
      exact hasTable_of_keyed hkr
  have hkept : (readLines _).filter hasTable = _ := Json.filter_readLines (fun v => hasTable_notPlain) hwf
  rw [List.filter_eq_self.mpr hall] at hkept
  rw [hkept, List.filter_map]
  refine congrArg _ (List.filter_congr fun r _ => ?_)
  exact (Bool.and_true _)

/-- What calls dump, each with its call. -/
def allDumped (lib : Stdlib) (cs : List PersistCall) : List (PersistCall × Norm × DumpRecord) :=
  cs.flatMap fun c => (c.report lib).dumped.map (c, ·)

/-- The write that was tried for it. -/
def triedFor (lib : Stdlib) (encode : Dict → JsonDict) (x : PersistCall × Norm × DumpRecord) : Operation × PyVal :=
  (x.1.operation lib x.2.1.groupKey, toPy (encode x.2.1.data).json)

theorem attempted_eq (lib : Stdlib) (cs : List PersistCall) :
    cs.flatMap (fun c => c.attempted lib encode) = (allDumped lib cs).map (triedFor lib encode) := by
  rw [allDumped, List.map_flatMap]
  exact List.flatMap_congr fun c _ => by rw [List.map_map]; rfl

theorem dumpedFile_eq (lib : Stdlib) (cs : List PersistCall) :
    dumpedFile lib encode cs = Json.linesOf (((allDumped lib cs).map fun x => x.2.2).map (·.json encode)) := by
  refine (Json.foldl_linesOf (fun c => (c.report lib).dumped.map fun d => d.2.json encode) cs []).trans ?_
  rw [List.nil_append, List.map_map, allDumped, List.map_flatMap]
  exact congrArg _ (List.flatMap_congr fun c _ => by rw [List.map_map]; rfl)

theorem dumped_of_mem {lib : Stdlib} {cs : List PersistCall} {x : PersistCall × Norm × DumpRecord}
    (hx : x ∈ allDumped lib cs) : x.2 ∈ (x.1.report lib).dumped := by
  obtain ⟨c, -, hx⟩ := List.mem_flatMap.mp hx
  obtain ⟨d, hd, rfl⟩ := List.mem_map.mp hx
  exact hd

theorem triedFor_updateKeys {lib : Stdlib} {x : PersistCall × Norm × DumpRecord} (hi : x.2.1.isUpdate = true) :
    (triedFor lib encode x).1.updateKeys = (x.1.updateKeys lib x.2.1.groupKey).map .str := if_pos hi

theorem triedFor_pipelines {lib : Stdlib} {x : PersistCall × Norm × DumpRecord} (hn : x.2.1.pipelines = none) :
    (triedFor lib encode x).1.pipelines = x.1.defaults.map .str := by
  show (ItemBuffer.pipelineKey x.1.defaults x.2.1.pipelines).map PyVal.str = _
  rw [hn]
  rfl

theorem replayed_operation {lib : Stdlib} {cs : List PersistCall} {x : PersistCall × Norm × DumpRecord}
    (hx : x ∈ allDumped lib cs) :
    (x.2.2.replayed encode later).1 =
      { (triedFor lib encode x).1 with
        isUpdate := (triedFor lib encode x).1.isUpdate && !(triedFor lib encode x).1.updateKeys.isEmpty
        pipelines :=
          if x.2.1.pipelines = none then later.ITEM_PIPELINES.map .str else (triedFor lib encode x).1.pipelines } :=
  replayOperation_key later lib x.1 (dumped_of_mem hx)

/-- A record on one line whose row is repeated is replayed by the write that was tried. -/
theorem Repeats.replayed {lib : Stdlib} {cs : List PersistCall} {x : PersistCall × Norm × DumpRecord}
    (h : Repeats encode later lib x.1 x.2) (hx : x ∈ allDumped lib cs) :
    x.2.2.replayed encode later = triedFor lib encode x := by
  refine Prod.ext ?_ ?_
  · rw [replayed_operation encode later hx]
    have hi : ((triedFor lib encode x).1.isUpdate && !(triedFor lib encode x).1.updateKeys.isEmpty) =
        (triedFor lib encode x).1.isUpdate := by
      cases hi : x.2.1.isUpdate with
      | false => rw [show (triedFor lib encode x).1.isUpdate = false from hi]; rfl
      | true =>
        have := h.updateKeys hi
        rw [triedFor_updateKeys encode hi, List.isEmpty_map, List.isEmpty_eq_false_iff.mpr this, Bool.not_false,
          Bool.and_true]
    have hl : (if x.2.1.pipelines = none then later.ITEM_PIPELINES.map .str else (triedFor lib encode x).1.pipelines) =
        (triedFor lib encode x).1.pipelines := by
      split_ifs with hn
      · rw [triedFor_pipelines encode hn, h.pipelines hn]
      · rfl
    rw [hi, hl]
  · show toPy (encode x.2.2.data).json = toPy (encode x.2.1.data).json
    rw [(x.1.dumped_spec lib (dumped_of_mem hx)).1]
    rfl

/-- If the records are replayed by what was tried in some order, the update of each has keys. -/
theorem updateKeys_of_perm {lib : Stdlib} {cs : List PersistCall}
    (hp : ((allDumped lib cs).map fun x => x.2.2.replayed encode later).Perm
      ((allDumped lib cs).map (triedFor lib encode)))
    {x : PersistCall × Norm × DumpRecord} (hx : x ∈ allDumped lib cs) (hi : x.2.1.isUpdate = true) :
    x.1.updateKeys lib x.2.1.groupKey ≠ [] := by
  intro hn
  -- an update without keys is none among the replayed writes, and one among those tried
  have hkeyed (y) (hy : y ∈ allDumped lib cs) :
      (!((y.2.2.replayed encode later).1.isUpdate && (y.2.2.replayed encode later).1.updateKeys.isEmpty)) = true := by
    rw [replayed_operation encode later hy]
    cases (triedFor lib encode y).1.isUpdate <;> cases (triedFor lib encode y).1.updateKeys.isEmpty <;> rfl
  have hq := forall_of_map_perm (q := fun p => !(p.1.isUpdate && p.1.updateKeys.isEmpty)) hp
    (fun y hy _ => hkeyed y hy) x hx (hkeyed x hx)
  rw [triedFor_updateKeys encode hi, hn, show (triedFor lib encode x).1.isUpdate = true from hi] at hq
  cases hq

/-- And a row without pipelines of its own had those that the replay reads. -/
theorem pipelines_of_perm {lib : Stdlib} {cs : List PersistCall}
    (hp : ((allDumped lib cs).map fun x => x.2.2.replayed encode later).Perm
      ((allDumped lib cs).map (triedFor lib encode)))
    {x : PersistCall × Norm × DumpRecord} (hx : x ∈ allDumped lib cs) (hn : x.2.1.pipelines = none) :
    x.1.defaults = later.ITEM_PIPELINES := by
  have hl := forall_of_map_perm (q := fun p => decide (p.1.pipelines = later.ITEM_PIPELINES.map .str)) hp
    fun y hy h => by
      rw [replayed_operation encode later hy]
      dsimp only
      split_ifs
      · exact decide_eq_true rfl
      · exact h
  have hq := hl x hx (by rw [replayed_operation encode later hx, if_pos hn]; exact decide_eq_true rfl)
  rw [triedFor_pipelines encode hn] at hq
  exact str_map_inj (of_decide_eq_true hq)

/-- The replay issues what was tried, no more and no less, exactly if every
dumped row is one that it repeats. -/
theorem retry_repeats_iff (lib : Stdlib) (cs : List PersistCall) :
    ((retryItems answers later (dumpedFile lib encode cs)).replay.issued).Perm
        (cs.flatMap fun c => c.attempted lib encode) ↔
      ∀ c ∈ cs, ∀ d ∈ (c.report lib).dumped, Repeats encode later lib c d := by
  have hall : (∀ c ∈ cs, ∀ d ∈ (c.report lib).dumped, Repeats encode later lib c d) ↔
      ∀ x ∈ allDumped lib cs, Repeats encode later lib x.1 x.2 := by
    simp only [allDumped, List.forall_mem_flatMap, List.forall_mem_map]
  have hissued (rs : List DumpRecord) (hread : readLines (dumpedFile lib encode cs) = rs.map (·.json encode)) :
      (retryItems answers later (dumpedFile lib encode cs)).replay.issued.Perm (rs.map (·.replayed encode later)) :=
    retryItems_issued encode answers later hread
  rw [hall, attempted_eq]
  constructor
  · intro hp
    cases hg : groupRecords (readLines (dumpedFile lib encode cs)) with
    | error e =>
      -- nothing is issued, so nothing was tried
      have hnil : (retryItems answers later (dumpedFile lib encode cs)).replay.issued = [] := by
        rw [retryItems]
        split_ifs
        · rfl
        · rw [hg]
          rfl
      rw [hnil] at hp
      have hd : allDumped lib cs = [] := List.map_eq_nil_iff.mp hp.nil_eq.symm
      intro x hx
      rw [hd] at hx
      exact absurd hx List.not_mem_nil
    | ok groups =>
      -- as much is issued as was tried, so all records are on one line
      have hfile := dumpedFile_eq encode lib cs
      rw [hfile] at hg
      have hread := hfile ▸ readLines_grouped encode hg
      have hlen := ((hissued _ hread).symm.trans hp).length_eq
      rw [List.length_map, List.length_map, ← List.length_map fun x : PersistCall × Norm × DumpRecord => x.2.2] at hlen
      have hkept := List.filter_sublist.eq_of_length hlen
      have hp : ((allDumped lib cs).map fun x => x.2.2.replayed encode later).Perm
          ((allDumped lib cs).map (triedFor lib encode)) := by
        have := (hissued _ hread).symm.trans hp
        rwa [hkept, List.map_map] at this
      intro x hx
      refine ⟨?_, updateKeys_of_perm encode later hp hx, pipelines_of_perm encode later hp hx⟩
      exact Json.oneLine_iff.mp (List.filter_eq_self.mp hkept x.2.2 (List.mem_map_of_mem hx))
  · intro h
    have hread : readLines (dumpedFile lib encode cs) =
        ((allDumped lib cs).map fun x => x.2.2).map (·.json encode) := by
      rw [dumpedFile_eq]
      refine (Json.readLines_iff ?_).mpr ?_
      · exact List.forall_mem_map.mpr fun r _ => FailedWrite.record_wf _ _
      · exact List.forall_mem_map.mpr (List.forall_mem_map.mpr fun x hx => ⟨(h x hx).oneLine, rfl⟩)
    have heq : (allDumped lib cs).map (fun x => x.2.2.replayed encode later) =
        (allDumped lib cs).map (triedFor lib encode) :=
      List.map_congr_left fun x hx => (h x hx).replayed encode later hx
    have := hissued _ hread
    rw [List.map_map] at this
    exact heq ▸ this

/-- An item of a class that updates a table and names no keys. -/
def keylessUpdate : PersistCall where
  st := { ITEM_FILTER_ENABLE := false }
  out := { write := fun _ _ => .ok false }
  batch := [.item ⟨{ name := "Price", tableName := some "prices", isUpdate := true },
    { attrs := [("url", .str "u")] }⟩]

def encodeUrl (_ : Dict) : JsonDict := ⟨[("url", .str "u")], by simp [Json.WF, Json.WFMembers]⟩

/-- The update is replayed as an insert. -/
theorem keylessUpdate_not_repeated :
    ¬ ((retryItems {} {} (dumpedFile ItemBuffer.textOnly encodeUrl [keylessUpdate])).replay.issued).Perm
      ([keylessUpdate].flatMap fun c => c.attempted ItemBuffer.textOnly encodeUrl) := by
  let row : Norm := ⟨"prices", true, [("url", .str "u")], none, [], none⟩
  let record : DumpRecord := ⟨"prices", [("url", .str "u")], none, none⟩
  have hdumped : (keylessUpdate.report ItemBuffer.textOnly).dumped = [(row, record)] := by decide
  have hread : readLines (dumpedFile ItemBuffer.textOnly encodeUrl [keylessUpdate]) =
      [record].map (·.json encodeUrl) := by
    rw [dumpedFile, List.foldl_cons, List.foldl_nil, hdumped, List.nil_append]
    refine (Json.readLines_iff ?_).mpr ?_
    · exact List.forall_mem_singleton.mpr (FailedWrite.record_wf _ _)
    · exact List.forall_mem_singleton.mpr ⟨Json.oneLine_iff.mp (by decide), rfl⟩
  have hissued := retryItems_issued encodeUrl {} {} hread
  intro hp
  have hone := List.perm_singleton.mp (hp.symm.trans hissued)
  exact absurd hone (by decide)

end Netspy
