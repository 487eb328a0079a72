import Netspy.Framework.Overwrite
import Netspy.Impl.Dedup
import Netspy.Proof.ItemBuffer

/-!
# `UpdateItem`s and the item filter

A history of `UpdateItem`s goes through the item buffer in batches, with the
item filter on and pipelines that overwrite the record the update keys select.
The filter drops exactly the updates whose fingerprint came before, however
long ago, and what is left of a batch is written group by group, each group
with the update keys of its first row (`run_spec`).

So the last value wins, and only idle updates are dropped, exactly when every
repeated update finds its records as it would leave them and the groups of a
batch write last to a record what came last for it (`run_lastValueWins_iff`).
The second is always so where the rows for a record are in one group
(`settles_of_together`).
-/

namespace Netspy

namespace UpdateItem

open Overwrite ItemBuffer

/-- What a row is written to: a pipeline, by its path, and a record of its
store. -/
abbrev Key (κ : Type) := String × κ

abbrev Store (κ : Type) := Key κ → Option Dict

section Pipelines

variable {κ : Type} [DecidableEq κ] (select : String → List String → Dict → κ) (defaults : List String)

/-- `update_items` of a pipeline: each row overwrites the record of the table
that the update keys select for it. -/
def updateItems (t : Store κ) (c : WriteCall) : Store κ :=
  replay (fun d k => k.1 = c.pipeline ∧ select c.table c.updateKeys d = k.2) id t c.datas

/-- What a row is for: the record its own update keys select, of each pipeline
it goes to. -/
def hits (n : Norm) (k : Key κ) : Bool :=
  k.1 ∈ pipelineKey defaults n.pipelines ∧ select n.table n.updateKeys n.data = k.2

/-- An update, applied as it is. -/
def apply (t : Store κ) (n : Norm) : Store κ := overwrite (hits select defaults) Norm.data t n

end Pipelines

variable (lib : Stdlib) (st : Setting)

def filterOn : Setting := { st with ITEM_FILTER_ENABLE := true }

/-- An `UpdateItem` that `_normalize` accepts. -/
structure Update where
  item : Item
  row : Norm
  normal : normalize lib (filterOn st) (.item item) = .ok row
  isUpdate : item.cls.isUpdate = true

/-- What `_normalize` makes of an item. -/
theorem normalize_item {it : Item} {n : Norm} (h : normalize lib (filterOn st) (.item it) = .ok n) :
    n.isUpdate = it.cls.isUpdate ∧ n.fingerprint = some (n.fingerprint.getD "") := by
  obtain ⟨inst, fp, -, hfp, rfl⟩ := of_normalize_item lib (filterOn st) h
  obtain ⟨text, rfl⟩ := Option.isSome_iff_exists.mp hfp
  exact ⟨rfl, rfl⟩

/-! ## One flush with an exact filter -/

/-- The filter answers, and everything else works. -/
def turnout (f : LiteFilter) : Turnout where
  lookup _ fp := .ok (f.contains fp)

def fp (n : Norm) : String := n.fingerprint.getD ""

theorem Update.row_fingerprint {lib : Stdlib} {st : Setting} (u : Update lib st) :
    u.row.fingerprint = some (fp u.row) :=
  (normalize_item lib st u.normal).2

/-- The rows of a history, each with whether its fingerprint is in `seen` or
came before. -/
def marks : List String → List Norm → List (Norm × Bool)
  | _, [] => []
  | seen, n :: ns => (n, decide (fp n ∈ seen)) :: marks (fp n :: seen) ns

theorem marks_append (seen : List String) (ns ms : List Norm) :
    marks seen (ns ++ ms) = marks seen ns ++ marks ((ns.map fp).reverse ++ seen) ms := by
  induction ns generalizing seen with
  | nil => rfl
  | cons n ns ih => simp [marks, ih]

theorem marks_fst (seen : List String) (ns : List Norm) : (marks seen ns).map Prod.fst = ns := by
  induction ns generalizing seen with
  | nil => rfl
  | cons n ns ih => rw [marks, List.map_cons, ih]

/-- The marks depend on what fingerprints were seen, not on their order. -/
theorem marks_congr {s t : List String} (h : ∀ k, k ∈ s ↔ k ∈ t) (ns : List Norm) :
    marks s ns = marks t ns := by
  induction ns generalizing s t with
  | nil => rfl
  | cons n ns ih =>
    have hcons : ∀ k, k ∈ fp n :: s ↔ k ∈ fp n :: t := fun k => by
      rw [List.mem_cons, List.mem_cons, h k]
    rw [marks, marks, ih hcons]
    simp only [h]

/-- A row is marked exactly when its fingerprint was seen. -/
theorem marks_split {seen : List String} {ns : List Norm} {pre post : List (Norm × Bool)} {u : Norm}
    {b : Bool} (h : marks seen ns = pre ++ (u, b) :: post) :
    b = decide (fp u ∈ seen ∨ ∃ v ∈ pre.map Prod.fst, fp v = fp u) := by
  induction ns generalizing seen pre with
  | nil => simp [marks] at h
  | cons n ns ih =>
    rw [marks] at h
    rcases pre with _ | ⟨e, pre⟩
    · obtain ⟨he, -⟩ := List.cons.inj h
      cases he
      simp
    · obtain ⟨rfl, h'⟩ := List.cons.inj h
      rw [ih h']
      simp only [List.mem_cons, List.map_cons, exists_eq_or_imp, eq_comm (a := fp n), or_assoc]
      congr 1
      exact propext or_left_comm

theorem siftOne_exact {f : LiteFilter} {n : Norm} (hn : n.fingerprint = some (fp n)) (i : Nat)
    (acc : Sifted) :
    siftOne (filterOn st) (turnout f) i n acc =
      if fp n ∈ acc.seen ∨ fp n ∈ f.seen then
        { acc with report := { acc.report with decided := acc.report.decided ++ [(n, true)] } }
      else
        { seen := fp n :: acc.seen
          groups := acc.groups.add n
          report := { acc.report with decided := acc.report.decided ++ [(n, false)] } } := by
  unfold siftOne
  rw [hn]
  by_cases h₁ : fp n ∈ acc.seen
  · simp [filterOn, h₁]
  · by_cases h₂ : fp n ∈ f.seen
    · simp [filterOn, turnout, LiteFilter.contains, h₁, h₂]
    · simp [filterOn, turnout, LiteFilter.contains, h₁, h₂]

/-- What the first loop leaves: the marked rows counted as duplicates, the
others grouped. -/
theorem siftRows_exact {f : LiteFilter} (i : Nat) {ns : List Norm}
    (hns : ∀ n ∈ ns, n.fingerprint = some (fp n)) (acc : Sifted) {seen : List String}
    (hseen : ∀ k, k ∈ seen ↔ k ∈ acc.seen ∨ k ∈ f.seen) :
    (siftRows (filterOn st) (turnout f) i ns acc).groups =
        (kept (marks seen ns)).foldl Groups.add acc.groups ∧
      (siftRows (filterOn st) (turnout f) i ns acc).report =
        { acc.report with decided := acc.report.decided ++ marks seen ns } := by
  induction ns generalizing i acc seen with
  | nil => simp [siftRows, marks]
  | cons n ns ih =>
    have htail := fun m hm => hns m (List.mem_cons_of_mem _ hm)
    rw [siftRows, siftOne_exact st (hns n List.mem_cons_self), marks]
    by_cases h : fp n ∈ acc.seen ∨ fp n ∈ f.seen
    · rw [if_pos h]
      have hs : ∀ k, k ∈ fp n :: seen ↔ k ∈ acc.seen ∨ k ∈ f.seen := fun k => by
        rw [List.mem_cons, hseen]
        exact ⟨fun hk => hk.elim (fun e => e ▸ h) id, .inr⟩
      obtain ⟨h₁, h₂⟩ := ih (i + 1) htail { acc with report :=
        { acc.report with decided := acc.report.decided ++ [(n, true)] } } hs
      rw [h₁, h₂]
      simp [kept, (hseen (fp n)).mpr h]
    · rw [if_neg h]
      have hs : ∀ k, k ∈ fp n :: seen ↔ k ∈ fp n :: acc.seen ∨ k ∈ f.seen := fun k => by
        rw [List.mem_cons, hseen, List.mem_cons, or_assoc]
      obtain ⟨h₁, h₂⟩ := ih (i + 1) htail ⟨fp n :: acc.seen, acc.groups.add n,
        { acc.report with decided := acc.report.decided ++ [(n, false)] }⟩ hs
      rw [h₁, h₂]
      have hn : fp n ∉ seen := fun hm => h ((hseen (fp n)).mp hm)
      simp [kept, hn]

/-- The update keys a group is written with: those of its first row. -/
def groupKeys (ns : List Norm) : List String := (ns.head?.map Norm.updateKeys).getD []

/-- The calls of the pipelines for a group. -/
def groupCalls (ps : List String) (e : GroupKey × List Norm) : List WriteCall :=
  ps.map fun p => ⟨p, e.1.table, e.1.isUpdate, e.2.map Norm.data, groupKeys e.2, true⟩

theorem writeAll_exact {f : LiteFilter} (e : GroupKey × List Norm) (j : Nat) (ps : List String) :
    writeAll (turnout f) e.1 (e.2.map Norm.data) (groupKeys e.2) j ps = (groupCalls ps e, true) := by
  induction ps generalizing j with
  | nil => rfl
  | cons p ps ih =>
    have hw : (turnout f).write e.1 j = .ok true := rfl
    simp only [writeAll, hw, if_true, ih]
    rfl

theorem recordAll_exact {f : LiteFilter} (k : GroupKey) (j : Nat) {ns : List Norm}
    (hns : ∀ n ∈ ns, n.fingerprint = some (fp n)) :
    recordAll (turnout f) k j ns = (ns.map fp, false) := by
  induction ns generalizing j with
  | nil => rfl
  | cons n ns ih =>
    have h := ih (j + 1) fun m hm => hns m (List.mem_cons_of_mem _ hm)
    have hr : (turnout f).record k j = .ok () := rfl
    simp only [recordAll, hns n List.mem_cons_self, hr, h, List.map_cons]

theorem storeGroup_exact {f : LiteFilter} (ps : List String) (e : GroupKey × List Norm)
    (hns : ∀ n ∈ e.2, n.fingerprint = some (fp n)) (rep : Report) :
    storeGroup (filterOn st) (turnout f) e.1 ps e.2 rep = (.ok (),
      { rep with
        calls := rep.calls ++ groupCalls ps e
        written := rep.written ++ e.2
        recorded := rep.recorded ++ e.2.map fp }) := by
  have hw := writeAll_exact (f := f) e 0 ps
  rw [groupKeys] at hw
  have hst : (filterOn st).ITEM_FILTER_ENABLE = true := rfl
  simp only [storeGroup, hw, hst, if_true, recordAll_exact e.1 0 hns, Bool.or_false]

/-- The second loop calls the pipelines for each group and records every
fingerprint. -/
theorem writeGroups_exact {f : LiteFilter} (defaults : List String) (es : List (GroupKey × List Norm))
    (hes : ∀ e ∈ es, ∀ n ∈ e.2, n.fingerprint = some (fp n)) (cache : List (List String)) (rep : Report) :
    ∃ cache', writeGroups (filterOn st) (turnout f) defaults es cache rep = (.ok (), cache',
      { rep with
        calls := rep.calls ++ es.flatMap fun e => groupCalls (pipelineKey defaults e.1.pipelines) e
        written := rep.written ++ es.flatMap Prod.snd
        recorded := rep.recorded ++ (es.flatMap Prod.snd).map fp }) := by
  induction es generalizing cache rep with
  | nil => exact ⟨cache, by simp [writeGroups]⟩
  | cons e es ih =>
    obtain ⟨k, ns⟩ := e
    have hns := hes (k, ns) List.mem_cons_self
    have hr : ∃ c, resolvePipelines (turnout f) (pipelineKey defaults k.pipelines) cache = (.ok (), c) := by
      unfold resolvePipelines turnout
      split
      · exact ⟨cache, rfl⟩
      · exact ⟨_ :: cache, rfl⟩
    obtain ⟨c, hr⟩ := hr
    obtain ⟨cache', h⟩ := ih (fun e he => hes e (List.mem_cons_of_mem _ he)) c
      { rep with
        calls := rep.calls ++ groupCalls (pipelineKey defaults k.pipelines) (k, ns)
        written := rep.written ++ ns
        recorded := rep.recorded ++ ns.map fp }
    refine ⟨cache', ?_⟩
    rw [writeGroups, hr]
    dsimp only
    rw [storeGroup_exact st _ (k, ns) hns]
    dsimp only
    rw [h]
    simp

/-! ## The tables -/

section Tables

variable {κ : Type} [DecidableEq κ] (select : String → List String → Dict → κ) (defaults : List String)

/-- The rows of a group as it is written. -/
def asGroup (e : GroupKey × List Norm) : List Norm :=
  e.2.map fun n => { n with updateKeys := groupKeys e.2 }

/-- The rows of a batch as its groups are written. -/
def regrouped (ns : List Norm) : List Norm := (Groups.ofList ns : Groups Norm.groupKey).entries.flatMap asGroup

/-- The call of the pipeline `p` for a group, at a record. -/
theorem updateItems_apply (p : String) (e : GroupKey × List Norm) (t : Store κ) (k : Key κ) :
    updateItems select t ⟨p, e.1.table, e.1.isUpdate, e.2.map Norm.data, groupKeys e.2, true⟩ k =
      if k.1 = p then
        ((e.2.filter fun n => select e.1.table (groupKeys e.2) n.data = k.2).getLast?.map Norm.data).or (t k)
      else t k := by
  rw [updateItems, replay_apply, lastWrite, List.filter_map, List.getLast?_map]
  dsimp only
  by_cases hp : k.1 = p
  · simp [hp, Function.comp_def]
  · simp [hp, Function.comp_def]

theorem foldl_groupCalls_apply (ps : List String) (e : GroupKey × List Norm) (t : Store κ) (k : Key κ) :
    (groupCalls ps e).foldl (updateItems select) t k =
      if k.1 ∈ ps then
        ((e.2.filter fun n => select e.1.table (groupKeys e.2) n.data = k.2).getLast?.map Norm.data).or (t k)
      else t k := by
  induction ps generalizing t with
  | nil => rfl
  | cons p ps ih =>
    rw [groupCalls, List.map_cons, List.foldl_cons]
    refine (ih _).trans ?_
    rw [updateItems_apply]
    by_cases hp : k.1 = p
    · simp only [hp, if_true, List.mem_cons, true_or, ← Option.or_assoc, Option.or_self, ite_self]
    · simp only [hp, if_false, List.mem_cons, false_or]

/-- The calls for a group leave what its rows leave, as the group is written. -/
theorem foldl_groupCalls {e : GroupKey × List Norm} (he : ∀ n ∈ e.2, n.groupKey = e.1) (t : Store κ) :
    (groupCalls (pipelineKey defaults e.1.pipelines) e).foldl (updateItems select) t =
      replay (hits select defaults) Norm.data t (asGroup e) := by
  funext k
  have hrows : ∀ n ∈ e.2, ((hits select defaults · k) ∘
      fun n : Norm => { n with updateKeys := groupKeys e.2 }) n =
      (decide (k.1 ∈ pipelineKey defaults e.1.pipelines) &&
        decide (select e.1.table (groupKeys e.2) n.data = k.2)) := by
    intro n hn
    rw [← he n hn, Function.comp_apply, hits, Bool.decide_and]
    rfl
  rw [foldl_groupCalls_apply, replay_apply, lastWrite, asGroup, List.filter_map, List.getLast?_map]
  rw [List.filter_congr hrows]
  by_cases hp : k.1 ∈ pipelineKey defaults e.1.pipelines
  · simp [hp, Function.comp_def]
  · simp [hp]

theorem foldl_calls {es : List (GroupKey × List Norm)} (hes : ∀ e ∈ es, ∀ n ∈ e.2, n.groupKey = e.1)
    (t : Store κ) :
    (es.flatMap fun e => groupCalls (pipelineKey defaults e.1.pipelines) e).foldl (updateItems select) t =
      replay (hits select defaults) Norm.data t (es.flatMap asGroup) := by
  induction es generalizing t with
  | nil => rfl
  | cons e es ih =>
    rw [List.flatMap_cons, List.foldl_append, foldl_groupCalls select defaults (hes e List.mem_cons_self),
      List.flatMap_cons, replay_append]
    exact ih (fun e he => hes e (List.mem_cons_of_mem _ he)) _

/-- The row of a batch that came last for a record has the data its groups
write last to it; where only one of the two exists, the record has its data
already. -/
def Settles (t : Store κ) (ns : List Norm) : Prop :=
  Agree (hits select defaults) Norm.data t (regrouped ns) ns

theorem settles_iff (t : Store κ) (ns : List Norm) :
    Settles select defaults t ns ↔
      replay (hits select defaults) Norm.data t (regrouped ns) = replay (hits select defaults) Norm.data t ns :=
  (replay_eq_iff _ _ t _ _).symm

/-- Where the rows for a record are in one group, and the rows of a group have
the same update keys, the groups keep the order that matters. -/
theorem settles_of_together (t : Store κ) {ns : List Norm}
    (hkeys : ∀ m ∈ ns, ∀ n ∈ ns, m.groupKey = n.groupKey → m.updateKeys = n.updateKeys)
    (hrecord : ∀ k, ∀ m ∈ ns, ∀ n ∈ ns, hits select defaults m k = true → hits select defaults n k = true →
      m.groupKey = n.groupKey) :
    Settles select defaults t ns := by
  have hmem : ∀ n ∈ (Groups.ofList ns : Groups Norm.groupKey).rows, n ∈ ns :=
    fun n hn => (Groups.rows_ofList ns).mem_iff.mp hn
  -- a group is written with the keys its rows have
  have hown : regrouped ns = (Groups.ofList ns : Groups Norm.groupKey).rows := by
    refine List.flatMap_congr fun e he => ?_
    have hin : ∀ n ∈ e.2, n ∈ ns := fun n hn => hmem n (List.mem_flatMap.mpr ⟨e, he, hn⟩)
    have hk := (Groups.ofList ns).keyed e he
    refine (List.map_congr_left fun n hn => ?_).trans (List.map_id _)
    obtain ⟨m, hm⟩ := Option.isSome_iff_exists.mp
      (List.isSome_head?.mpr (List.ne_nil_of_mem hn))
    have hm' : m ∈ e.2 := List.mem_of_mem_head? hm
    have : groupKeys e.2 = n.updateKeys := by
      rw [groupKeys, hm]
      exact hkeys m (hin m hm') n (hin n hn) ((hk m hm').trans (hk n hn).symm)
    rw [this]
    rfl
  rw [settles_iff, hown]
  refine replay_congr _ _ t fun k => ?_
  by_cases hex : ∃ m ∈ ns, hits select defaults m k = true
  · obtain ⟨m, hm, hmk⟩ := hex
    have hp : ∀ n ∈ ns, hits select defaults n k =
        (hits select defaults n k && decide (n.groupKey = m.groupKey)) := by
      intro n hn
      cases h : hits select defaults n k with
      | false => rfl
      | true => simp [hrecord k n hn m hm h hmk]
    rw [List.filter_congr fun n hn => hp n (hmem n hn), List.filter_congr hp]
    refine Groups.filter_rows_ofList (k := m.groupKey) (fun n hn => ?_) ns
    exact of_decide_eq_true (Bool.and_eq_true_iff.mp hn).2
  · have hnone : ∀ {ms : List Norm}, (∀ n ∈ ms, n ∈ ns) → ms.filter (fun n => hits select defaults n k) = [] :=
      fun hms => List.filter_eq_nil_iff.mpr fun n hn h => hex ⟨n, hms n hn, h⟩
    rw [hnone hmem, hnone fun _ h => h]

end Tables

/-! ## Runs -/

structure World (ρ η κ : Type) where
  buffer : ItemBuffer ρ η
  filter : LiteFilter
  tables : Store κ
  /-- The rows flushed so far, each with whether dedup dropped it. -/
  decided : List (Norm × Bool) := []

variable {lib st} {ρ η κ : Type}

def batchRows (batch : List (Update lib st × Option ρ)) : List Norm := batch.map fun e => e.1.row

theorem batchRows_fingerprint {batch : List (Update lib st × Option ρ)} {n : Norm} (h : n ∈ batchRows batch) :
    n.fingerprint = some (fp n) := by
  obtain ⟨e, -, rfl⟩ := List.mem_map.mp h
  exact e.1.row_fingerprint

theorem mem_foldl_add (f : LiteFilter) (ks : List String) (k : String) :
    k ∈ (ks.foldl (fun φ k => (φ.add k).2) f).seen ↔ k ∈ ks ∨ k ∈ f.seen := by
  induction ks generalizing f with
  | nil => simp
  | cons k' ks ih =>
    rw [List.foldl_cons, ih, LiteFilter.mem_add, List.mem_cons, or_left_comm, or_assoc]

theorem mem_of_mem_kept {n : Norm} {log : List (Norm × Bool)} (h : n ∈ kept log) :
    n ∈ log.map Prod.fst := by
  obtain ⟨e, he, rfl⟩ := List.mem_map.mp h
  exact List.mem_map_of_mem (List.mem_filter.mp he).1

/-- The rows whose fingerprint is not in `seen` and did not come before. -/
def fresh (seen : List String) (ns : List Norm) : List Norm := kept (marks seen ns)

theorem mem_of_mem_fresh {seen : List String} {ns : List Norm} {n : Norm} (h : n ∈ fresh seen ns) : n ∈ ns := by
  have := mem_of_mem_kept h
  rwa [marks_fst] at this

/-- `_persist` of a batch of updates: the calls for each group of its fresh
rows. -/
theorem persist_exact (f : LiteFilter) (defaults : List String) (cache : List (List String))
    (batch : List (Update lib st × Option ρ)) :
    ∃ cache' rep, persist lib (filterOn st) (turnout f) defaults cache
        (batch.map fun e => .item e.1.item) = (.ok (), cache', rep) ∧
      rep.decided = marks f.seen (batchRows batch) ∧
      rep.calls = (Groups.ofList (fresh f.seen (batchRows batch)) : Groups Norm.groupKey).entries.flatMap
        (fun e => groupCalls (pipelineKey defaults e.1.pipelines) e) ∧
      rep.recorded =
        (Groups.ofList (fresh f.seen (batchRows batch)) : Groups Norm.groupKey).rows.map fp := by
  have hall : ∀ o ∈ batch.map (fun e => Obj.item e.1.item), Accepts lib (filterOn st) o := by
    intro o ho
    obtain ⟨e, -, rfl⟩ := List.mem_map.mp ho
    exact ⟨e.1.row, e.1.normal⟩
  have hrows : rows lib (filterOn st) (batch.map fun e => .item e.1.item) = batchRows batch := by
    clear hall
    induction batch with
    | nil => rfl
    | cons e batch ih =>
      rw [List.map_cons, rows, List.filterMap_cons, e.1.normal]
      exact congrArg (e.1.row :: ·) ih
  have hfp : ∀ n ∈ batchRows batch, n.fingerprint = some (fp n) := fun n hn => batchRows_fingerprint hn
  have hseen : ∀ k, k ∈ f.seen ↔ k ∈ ({} : Sifted).seen ∨ k ∈ f.seen := by simp
  obtain ⟨hg, hr⟩ := siftRows_exact st 0 hfp {} hseen
  generalize hacc : siftRows (filterOn st) (turnout f) 0 (batchRows batch) {} = acc at hg hr
  have hes : ∀ e ∈ acc.groups.entries, ∀ n ∈ e.2, n.fingerprint = some (fp n) := by
    intro e he n hn
    have h₁ : n ∈ acc.groups.rows := List.mem_flatMap.mpr ⟨e, he, hn⟩
    rw [hg] at h₁
    exact hfp n (mem_of_mem_fresh ((Groups.rows_ofList _).mem_iff.mp h₁))
  obtain ⟨cache', hw⟩ := writeGroups_exact st (f := f) defaults acc.groups.entries hes cache acc.report
  have hpersist : persist lib (filterOn st) (turnout f) defaults cache
      (batch.map fun e => .item e.1.item) =
      writeGroups (filterOn st) (turnout f) defaults acc.groups.entries cache acc.report := by
    have hd : getDedup (filterOn st) (turnout f) = .ok () := rfl
    rw [persist, hd]
    dsimp only
    rw [sift_ok lib (filterOn st) (turnout f) hall, hrows, hacc]
  refine ⟨cache', _, hpersist.trans hw, ?_, ?_, ?_⟩
  · rw [hr]; rfl
  · rw [hr, hg]; rfl
  · rw [hr, hg]; rfl

theorem mem_fresh (seen : List String) (ns : List Norm) (k : String) :
    k ∈ (fresh seen ns).map fp ∨ k ∈ seen ↔ k ∈ ns.map fp ∨ k ∈ seen := by
  induction ns generalizing seen with
  | nil => simp [fresh, marks]
  | cons n ns ih =>
    have h := ih (fp n :: seen)
    rw [fresh] at h ⊢
    rw [marks]
    by_cases hn : fp n ∈ seen
    · have hk : kept ((n, decide (fp n ∈ seen)) :: marks (fp n :: seen) ns) =
          kept (marks (fp n :: seen) ns) := by simp [kept, hn]
      have hs : k = fp n ∨ k ∈ seen ↔ k ∈ seen := or_iff_right_of_imp fun e => e ▸ hn
      rw [List.mem_cons, hs] at h
      rw [hk, List.map_cons, List.mem_cons, or_assoc, or_left_comm, hs]
      exact h
    · have hk : kept ((n, decide (fp n ∈ seen)) :: marks (fp n :: seen) ns) =
          n :: kept (marks (fp n :: seen) ns) := by simp [kept, hn]
      rw [List.mem_cons] at h
      rw [hk, List.map_cons, List.map_cons, List.mem_cons, List.mem_cons, or_assoc, or_assoc, or_left_comm, h,
        or_left_comm]

variable [DecidableEq ρ] [DecidableEq κ] (select : String → List String → Dict → κ)

/-- A batch of updates is put into the buffer and flushed. -/
def flushBatch (w : World ρ η κ) (batch : List (Update lib st × Option ρ)) : World ρ η κ :=
  let pending := w.buffer.pending ++ batch.map fun e => (.item e.1.item, e.2)
  let (f, buffer) := flush lib (filterOn st) (turnout w.filter) { w.buffer with pending }
  { buffer
    filter := f.report.recorded.foldl (fun φ k => (φ.add k).2) w.filter
    tables := f.report.calls.foldl (updateItems select) w.tables
    decided := w.decided ++ f.report.decided }

/-- Batch after batch. -/
def run (w : World ρ η κ) (batches : List (List (Update lib st × Option ρ))) : World ρ η κ :=
  batches.foldl (flushBatch select) w

/-- An empty buffer whose pipelines are at `defaults`. -/
structure Ready (st : Setting) (defaults : List String) (s : ItemBuffer ρ η) : Prop where
  pending : s.pending = []
  handled : s.handled = false
  defaults : s.defaultPipelines (filterOn st) = defaults

/-- One batch: the rows that are not fresh are dropped, the fresh ones are
written group by group, and the filter knows the fingerprints of all. -/
theorem flushBatch_spec {defaults : List String} {w : World ρ η κ} (hw : Ready st defaults w.buffer)
    (batch : List (Update lib st × Option ρ)) :
    Ready st defaults (flushBatch select w batch).buffer ∧
      (flushBatch select w batch).decided = w.decided ++ marks w.filter.seen (batchRows batch) ∧
      (flushBatch select w batch).tables = replay (hits select defaults) Norm.data w.tables
        (regrouped (fresh w.filter.seen (batchRows batch))) ∧
      ∀ k, k ∈ (flushBatch select w batch).filter.seen ↔
        k ∈ (batchRows batch).map fp ∨ k ∈ w.filter.seen := by
  obtain ⟨s, f, t, decided⟩ := w
  dsimp only at hw ⊢
  by_cases hb : batch = []
  · subst hb
    have he : flushBatch select ⟨s, f, t, decided⟩ ([] : List (Update lib st × Option ρ)) =
        ⟨{ s with pending := [] }, f, t, decided⟩ := by
      simp [flushBatch, flush, hw.pending]
    rw [he]
    exact ⟨⟨rfl, hw.handled, hw.defaults⟩, by simp [batchRows, marks], rfl, by simp [batchRows]⟩
  obtain ⟨cache', rep, hp, h₁, h₂, h₃⟩ := persist_exact f defaults s.cache batch
  have he : flush lib (filterOn st) (turnout f)
      { s with pending := batch.map fun e => (.item e.1.item, e.2) } =
      ackAll (owners (batch.map fun e => (Obj.item e.1.item, e.2))) { report := rep }
        { s with pending := [], cache := cache' } := by
    refine flush_persisted lib (filterOn st) (turnout f)
      (s := { s with pending := batch.map fun e => (Obj.item e.1.item, e.2) })
      (by simpa using hb) hw.handled ?_
    have hd : defaultPipelines (filterOn st)
        { s with pending := batch.map fun e => (Obj.item e.1.item, e.2) } = defaults := hw.defaults
    rw [hd, List.map_map]
    exact hp
  obtain ⟨-, i₁, i₂, i₃⟩ := ackAll_spec
    (owners (batch.map fun e => (Obj.item e.1.item, e.2))) ({ report := rep } : Flushed ρ η)
    { s with pending := [], cache := cache' }
  simp only [flushBatch, hw.pending, List.nil_append, he]
  rw [i₁, i₃]
  refine ⟨⟨rfl, hw.handled, hw.defaults⟩, by rw [h₁], ?_, fun k => ?_⟩
  · rw [h₂]
    exact foldl_calls select defaults (Groups.ofList _).keyed _
  · rw [mem_foldl_add, h₃, ← mem_fresh f.seen (batchRows batch)]
    simp only [List.mem_map, (Groups.rows_ofList _).mem_iff]

/-- A whole run: the log marks every repeated update, and the filter knows
them all. -/
theorem run_spec {defaults : List String} {w : World ρ η κ} (hw : Ready st defaults w.buffer)
    (batches : List (List (Update lib st × Option ρ))) :
    Ready st defaults (run select w batches).buffer ∧
      (run select w batches).decided = w.decided ++ marks w.filter.seen (batchRows batches.flatten) ∧
      ∀ k, k ∈ (run select w batches).filter.seen ↔
        k ∈ (batchRows batches.flatten).map fp ∨ k ∈ w.filter.seen := by
  induction batches generalizing w with
  | nil => exact ⟨hw, by simp [run, batchRows, marks], by simp [run, batchRows]⟩
  | cons batch batches ih =>
    obtain ⟨hw', h₁, -, h₃⟩ := flushBatch_spec select hw batch
    obtain ⟨i₁, i₂, i₃⟩ := ih hw'
    have hseen : marks (flushBatch select w batch).filter.seen (batchRows batches.flatten) =
        marks (((batchRows batch).map fp).reverse ++ w.filter.seen) (batchRows batches.flatten) :=
      marks_congr (fun k => by simp [h₃ k]) _
    have hrows : batchRows (batch :: batches).flatten = batchRows batch ++ batchRows batches.flatten := by
      simp [batchRows]
    have hrun : run select w (batch :: batches) = run select (flushBatch select w batch) batches := rfl
    refine ⟨i₁, ?_, fun k => ?_⟩
    · rw [hrun, i₂, hrows, marks_append, hseen, h₁, List.append_assoc]
    · rw [hrun, i₃, h₃, hrows, List.map_append, List.mem_append]
      tauto

/-- The last value wins: from the tables `t`, the run left what all updates in
order leave, and dropped only updates that would not change their records. -/
structure LastValueWins (defaults : List String) (t : Store κ) (us : List Norm) (w : World ρ η κ) : Prop where
  tables : w.tables = us.foldl (apply select defaults) t
  idle : ∀ pre u post, w.decided = pre ++ (u, true) :: post →
    apply select defaults ((kept pre).foldl (apply select defaults) t) u =
      (kept pre).foldl (apply select defaults) t

/-- Every update that repeats an earlier one, or one the filter knows, finds
its records as it would leave them. -/
def NoopRepeats (defaults : List String) (f : LiteFilter) (t : Store κ) (us : List Norm) : Prop :=
  ∀ pre u post, us = pre ++ u :: post → (fp u ∈ f.seen ∨ ∃ v ∈ pre, fp v = fp u) →
    apply select defaults (pre.foldl (apply select defaults) t) u = pre.foldl (apply select defaults) t

/-- A mark in the log of a history is a repeated update of it. -/
theorem marks_idle_iff (defaults : List String) (f : LiteFilter) (t : Store κ) (us : List Norm) :
    (∀ pre u post, marks f.seen us = pre ++ (u, true) :: post →
      apply select defaults ((pre.map Prod.fst).foldl (apply select defaults) t) u =
        (pre.map Prod.fst).foldl (apply select defaults) t) ↔
      NoopRepeats select defaults f t us := by
  constructor
  · rintro h pre u post rfl hu
    have hm : marks f.seen (pre ++ u :: post) = marks f.seen pre ++
        (u, true) :: marks (fp u :: ((pre.map fp).reverse ++ f.seen)) post := by
      rw [marks_append, marks]
      have : fp u ∈ (pre.map fp).reverse ++ f.seen := by
        rw [List.mem_append, List.mem_reverse, List.mem_map]
        exact hu.symm
      simp [this]
    have := h _ _ _ hm
    rwa [marks_fst] at this
  · intro h pre u post hm
    refine h (pre.map Prod.fst) u (post.map Prod.fst) ?_ ?_
    · rw [← marks_fst f.seen us, hm]
      simp
    · exact of_decide_eq_true (marks_split hm).symm

/-- The fresh rows of what comes after `pre` leave what all its rows leave, if
the repeated updates are idle. -/
theorem foldl_fresh {defaults : List String} {f : LiteFilter} {t : Store κ} {pre ns : List Norm}
    (h : NoopRepeats select defaults f t (pre ++ ns)) :
    (fresh ((pre.map fp).reverse ++ f.seen) ns).foldl (apply select defaults)
        (pre.foldl (apply select defaults) t) =
      (pre ++ ns).foldl (apply select defaults) t := by
  rw [List.foldl_append, fresh]
  refine (foldl_kept (apply select defaults) _ _ fun pre' u post hm => ?_).trans (by rw [marks_fst])
  rw [← List.foldl_append]
  have hns : ns = pre'.map Prod.fst ++ u :: post.map Prod.fst := by
    rw [← marks_fst ((pre.map fp).reverse ++ f.seen) ns, hm]
    simp
  refine h (pre ++ pre'.map Prod.fst) u (post.map Prod.fst) (by rw [hns]; simp) ?_
  have hu := of_decide_eq_true (marks_split hm).symm
  rw [List.mem_append, List.mem_reverse, List.mem_map] at hu
  rcases hu with (⟨v, hv, hvu⟩ | hu) | ⟨v, hv, hvu⟩
  · exact .inr ⟨v, List.mem_append_left _ hv, hvu⟩
  · exact .inl hu
  · exact .inr ⟨v, List.mem_append_right _ hv, hvu⟩

theorem noopRepeats_left {defaults : List String} {f : LiteFilter} {t : Store κ} {u v : List Norm}
    (h : NoopRepeats select defaults f t (u ++ v)) : NoopRepeats select defaults f t u := by
  rintro pre x post rfl hx
  exact h pre x (post ++ v) (by simp) hx

/-- The next batch: if the tables are right before it, they are right after it
exactly when its fresh rows settle. -/
theorem flushBatch_tables_iff {defaults : List String} {f : LiteFilter} {t : Store κ} {w : World ρ η κ}
    (hw : Ready st defaults w.buffer) (us : List Norm) (batch : List (Update lib st × Option ρ))
    (hseen : ∀ k, k ∈ w.filter.seen ↔ k ∈ us.map fp ∨ k ∈ f.seen)
    (ht : w.tables = us.foldl (apply select defaults) t)
    (h : NoopRepeats select defaults f t (us ++ batchRows batch)) :
    (flushBatch select w batch).tables = (us ++ batchRows batch).foldl (apply select defaults) t ↔
      Settles select defaults (us.foldl (apply select defaults) t)
        (fresh ((us.map fp).reverse ++ f.seen) (batchRows batch)) := by
  have hfresh : fresh w.filter.seen (batchRows batch) =
      fresh ((us.map fp).reverse ++ f.seen) (batchRows batch) :=
    congrArg kept (marks_congr (fun k => by simp [hseen k]) _)
  rw [(flushBatch_spec select hw batch).2.2.1, ht, hfresh, ← foldl_fresh select h, settles_iff]
  rfl

/-- The last value wins after every flush of a history of updates if and only
if every update that repeats an earlier one finds its records as it would leave
them, and the fresh rows of every batch settle. -/
theorem run_lastValueWins_iff (s : ItemBuffer ρ η) (f : LiteFilter) (t : Store κ)
    (batches : List (List (Update lib st × Option ρ))) :
    (∀ done later, batches = done ++ later →
      LastValueWins select (s.defaultPipelines (filterOn st)) t (batchRows done.flatten)
        (run select { buffer := { s with pending := [], handled := false }, filter := f, tables := t } done)) ↔
      NoopRepeats select (s.defaultPipelines (filterOn st)) f t (batchRows batches.flatten) ∧
        ∀ done batch later, batches = done ++ batch :: later →
          Settles select (s.defaultPipelines (filterOn st))
            ((batchRows done.flatten).foldl (apply select (s.defaultPipelines (filterOn st))) t)
            (fresh (((batchRows done.flatten).map fp).reverse ++ f.seen) (batchRows batch)) := by
  generalize hdefaults : s.defaultPipelines (filterOn st) = defaults
  generalize hstart : ({ buffer := { s with pending := [], handled := false }, filter := f, tables := t } :
    World ρ η κ) = w
  have hw : Ready st defaults w.buffer := by
    subst hstart
    exact ⟨rfl, rfl, hdefaults⟩
  have hf : w.filter = f := by rw [← hstart]
  have hrows : ∀ (done : List (List (Update lib st × Option ρ))) (batch : List (Update lib st × Option ρ)),
      batchRows (done ++ [batch]).flatten = batchRows done.flatten ++ batchRows batch := by simp [batchRows]
  have hrun : ∀ (done : List (List (Update lib st × Option ρ))) (batch : List (Update lib st × Option ρ)),
      run select w (done ++ [batch]) = flushBatch select (run select w done) batch := by simp [run]
  have hlog : ∀ done : List (List (Update lib st × Option ρ)),
      (run select w done).decided = marks f.seen (batchRows done.flatten) := by
    intro done
    rw [(run_spec select hw done).2.1, ← hstart]
    rfl
  -- after a prefix, the dropped updates are idle exactly when the repeats are
  have hidle : ∀ done : List (List (Update lib st × Option ρ)),
      (∀ pre u post, (run select w done).decided = pre ++ (u, true) :: post →
        apply select defaults ((kept pre).foldl (apply select defaults) t) u =
          (kept pre).foldl (apply select defaults) t) ↔
      NoopRepeats select defaults f t (batchRows done.flatten) := by
    intro done
    rw [hlog, marked_idle_iff, marks_idle_iff]
  have hnext := fun (done : List (List (Update lib st × Option ρ))) (batch : List (Update lib st × Option ρ)) ht h =>
    flushBatch_tables_iff select (f := f) (t := t) (run_spec select hw done).1 (batchRows done.flatten)
      batch (fun k => hf ▸ (run_spec select hw done).2.2 k) ht h
  constructor
  · intro h
    have hall := (hidle batches).mp (h batches [] (List.append_nil _).symm).idle
    refine ⟨hall, fun done batch later hb => ?_⟩
    have hlater : batches = (done ++ [batch]) ++ later := by simp [hb]
    have hle : NoopRepeats select defaults f t (batchRows done.flatten ++ batchRows batch) := by
      rw [← hrows]
      exact (hidle _).mp (h _ _ hlater).idle
    have := (h _ _ hlater).tables
    rw [hrun, hrows] at this
    exact (hnext done batch (h done (batch :: later) hb).tables hle).mp this
  · rintro ⟨hrep, hset⟩ done later rfl
    have hdone : NoopRepeats select defaults f t (batchRows done.flatten) :=
      noopRepeats_left select (v := batchRows later.flatten) (by simpa [batchRows] using hrep)
    refine ⟨?_, (hidle done).mpr hdone⟩
    -- by induction on the batches flushed, each step by `flushBatch_tables_iff`
    clear hrep
    induction done using List.reverseRecOn generalizing later with
    | nil => rw [← hstart]; rfl
    | append_singleton done batch ih =>
      rw [hrows] at hdone
      have ht := ih (batch :: later) (fun d b l hd => hset d b l (by simp [hd])) (noopRepeats_left select hdone)
      rw [hrun, hrows]
      exact (hnext done batch ht hdone).mpr (hset done batch later (by simp))

/-! ## Prices -/

/-- The standard library on the items of `priceHistory`. -/
def decimals : Stdlib where
  urlsplit url := .ok ⟨"", "", url, "", ""⟩
  parseQsl _ := []
  urlencode _ := ""
  urlunsplit p := p.path
  dumpsSorted _ := .ok "\x7b\x7d"
  str _ := ""
  repr
    | .int i => toString i
    | _ => ""
  md5 text :=
    if text = "price|id=7|price=100" then "57242703008adb62da6d5dc71cb058f8"
    else if text = "price|id=7|price=120" then "e839985e51596c8992c37f9557859bf2"
    else text
  lower text := text

def priceItem (price : Int) : Item where
  cls := { name := "PriceItem", tableName := some "price", isUpdate := true, updateKey := some ["id"] }
  inst := { attrs := [("id", .int 7), ("price", .int price)] }

def priceRow (price : Int) (fingerprint : String) : Norm :=
  ⟨"price", true, [("id", .int 7), ("price", .int price)], some fingerprint, ["id"], none⟩

def price100 : Update decimals {} :=
  ⟨priceItem 100, priceRow 100 "57242703008adb62da6d5dc71cb058f8", by decide, rfl⟩

def price120 : Update decimals {} :=
  ⟨priceItem 120, priceRow 120 "e839985e51596c8992c37f9557859bf2", by decide, rfl⟩

/-- A price goes up and comes down again. -/
def priceHistory : List (List (Update decimals {} × Option Nat)) :=
  [[(price100, none)], [(price120, none)], [(price100, none)]]

/-- Records by their table and what they have under the update keys. -/
def byKeys (table : String) (updateKeys : List String) (data : Dict) : String × List PyVal :=
  (table, updateKeys.map data.get)

def emptyWorld : World Nat Unit (String × List PyVal) :=
  { buffer := { pipelinePaths := some ["pg"] }, filter := {}, tables := fun _ => none }

/-- The table keeps the high price. -/
theorem priceHistory_not_lastValueWins :
    ¬ ∀ done later, priceHistory = done ++ later →
      LastValueWins byKeys ["pg"] (fun _ => none) (batchRows done.flatten) (run byKeys emptyWorld done) := by
  intro h
  have := (h priceHistory [] rfl).idle [(price100.row, false), (price120.row, false)] price100.row [] (by decide)
  exact absurd (congrFun this ("pg", ("price", [.int 7]))) (by decide)

/-- A row that names its pipeline is written after the one that came last. -/
example : ¬ Settles byKeys ["pg"] (fun _ => none)
    [priceRow 100 "a", { priceRow 120 "b" with pipelines := some ["pg"] }, priceRow 130 "c"] :=
  fun h => absurd (congrFun ((settles_iff ..).mp h) ("pg", ("price", [.int 7]))) (by decide)

end UpdateItem

end Netspy
