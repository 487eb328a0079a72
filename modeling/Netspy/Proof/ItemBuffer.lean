import Netspy.Impl.ItemBuffer

/-!
# What a flush of the item buffer loses

A flush goes through its batch in two loops, and each may stop in the
middle: the first one at an object that `_normalize` rejects (`sift_ok`,
`sift_error`), the second one at a group whose pipelines cannot be loaded
or whose dump cannot be written (`writeGroups_spec`). When it stops, the
batch is gone from the buffer and no owner is acknowledged. So every row is
settled and every owner acknowledged exactly when neither loop stops, or
there was nothing to settle (`flush_settled_iff`).
-/

namespace Netspy

/-- The rows a flush is done with. -/
def Report.settled (r : Report) : List Norm := r.written ++ r.dumped.map Prod.fst ++ r.duplicates

namespace ItemBuffer

variable (lib : Stdlib) (st : Setting) (out : Turnout)

/-- The objects that `_normalize` accepts, as rows. -/
def rows (objs : List Obj) : List Norm := objs.filterMap fun o => (normalize lib st o).toOption

def Accepts (o : Obj) : Prop := ∃ n, normalize lib st o = .ok n

theorem rows_append (objs objs' : List Obj) :
    rows lib st (objs ++ objs') = rows lib st objs ++ rows lib st objs' := List.filterMap_append

theorem rows_cons_of_not_accepts {o : Obj} (h : ¬ Accepts lib st o) (objs : List Obj) :
    rows lib st (o :: objs) = rows lib st objs := by
  rcases hn : normalize lib st o with e | n
  · simp [rows, hn, Except.toOption]
  · exact absurd ⟨n, hn⟩ h

/-- What `_normalize` makes of an item, as `pre_to_db` has left it. -/
theorem of_normalize_item {it : Item} {n : Norm} (h : normalize lib st (.item it) = .ok n) :
    ∃ inst fp, it.cls.preToDb it.inst = .ok inst ∧ fp.isSome = st.ITEM_FILTER_ENABLE ∧
      n =
        { table := Item.tableName lib ⟨it.cls, inst⟩
          isUpdate := it.cls.isUpdate
          data := Item.toDict ⟨it.cls, inst⟩
          fingerprint := fp
          updateKeys := if it.cls.isUpdate then Item.updateKey ⟨it.cls, inst⟩ else []
          pipelines :=
            match Item.pipelines ⟨it.cls, inst⟩ with
            | some (p :: ps) => some (p :: ps)
            | _ => none } := by
  simp only [normalize, Item.fingerprint_eq] at h
  cases hp : it.cls.preToDb it.inst with
  | error e =>
    rw [hp] at h
    cases h
  | ok inst =>
    rw [hp] at h
    cases hf : st.ITEM_FILTER_ENABLE with
    | true =>
      simp only [hf, if_true] at h
      cases h
      exact ⟨inst, _, rfl, rfl, rfl⟩
    | false =>
      simp only [hf, Bool.false_eq_true, if_false] at h
      cases h
      exact ⟨inst, none, rfl, rfl, rfl⟩

/-- Whether dedup drops the row at place `i`, with the fingerprints that were
not dropped before it. -/
def drops (i : Nat) (seen : List String) (n : Norm) : Bool :=
  match n.fingerprint with
  | none => false
  | some fp =>
    st.ITEM_FILTER_ENABLE &&
      (decide (fp ∈ seen) ||
        match out.lookup i fp with
        | .ok known => known
        | .error _ => false)

/-- The fingerprints not dropped, after a row that was not. -/
def remember (seen : List String) (n : Norm) : List String :=
  if st.ITEM_FILTER_ENABLE then n.fingerprint.toList ++ seen else seen

/-- The rows that dedup leaves. -/
def fresh : Nat → List String → List Norm → List Norm
  | _, _, [] => []
  | i, seen, n :: ns =>
    if drops st out i seen n then fresh (i + 1) seen ns
    else n :: fresh (i + 1) (remember st seen n) ns

/-! ## The first loop -/

/-- The first loop on objects that are all accepted. -/
def siftRows : Nat → List Norm → Sifted → Sifted
  | _, [], acc => acc
  | i, n :: ns, acc => siftRows (i + 1) ns (siftOne st out i n acc)

theorem sift_append {pre : List Obj} (h : ∀ o ∈ pre, Accepts lib st o) (post : List Obj) (i : Nat)
    (acc : Sifted) :
    sift lib st out i (pre ++ post) acc =
      sift lib st out (i + pre.length) post (siftRows st out i (rows lib st pre) acc) := by
  induction pre generalizing i acc with
  | nil => rfl
  | cons o pre ih =>
    obtain ⟨n, hn⟩ := h o List.mem_cons_self
    have hr : rows lib st (o :: pre) = n :: rows lib st pre := by simp [rows, hn, Except.toOption]
    rw [List.cons_append, sift, hn, hr, siftRows]
    simp only
    rw [ih (fun o ho => h o (List.mem_cons_of_mem _ ho)), List.length_cons]
    congr 1
    omega

theorem sift_ok {objs : List Obj} (h : ∀ o ∈ objs, Accepts lib st o) (acc : Sifted) :
    sift lib st out 0 objs acc = (.ok (), siftRows st out 0 (rows lib st objs) acc) := by
  have := sift_append lib st out h [] 0 acc
  rwa [List.append_nil, sift] at this

theorem sift_error {pre : List Obj} {o : Obj} (h : ∀ o ∈ pre, Accepts lib st o)
    (ho : ¬ Accepts lib st o) (post : List Obj) (acc : Sifted) :
    ∃ e, sift lib st out 0 (pre ++ o :: post) acc =
      (.error e, siftRows st out 0 (rows lib st pre) acc) := by
  rcases hn : normalize lib st o with e | n
  · exact ⟨e, by rw [sift_append lib st out h, sift, hn]⟩
  · exact absurd ⟨n, hn⟩ ho

/-- A batch is accepted as a whole, or there is a first object that is
rejected. -/
theorem accepts_or_split (objs : List Obj) :
    (∀ o ∈ objs, Accepts lib st o) ∨
    ∃ pre o post, objs = pre ++ o :: post ∧ (∀ o ∈ pre, Accepts lib st o) ∧ ¬ Accepts lib st o := by
  induction objs with
  | nil => exact .inl (by simp)
  | cons o objs ih =>
    by_cases ho : Accepts lib st o
    · rcases ih with h | ⟨pre, b, post, rfl, hpre, hb⟩
      · exact .inl (by simpa using ⟨ho, h⟩)
      · exact .inr ⟨o :: pre, b, post, rfl, by simpa using ⟨ho, hpre⟩, hb⟩
    · exact .inr ⟨[], o, objs, rfl, by simp, ho⟩

/-- The first object that is not accepted is at one place only. -/
theorem split_unique {p : Obj → Prop} {pre pre' post post' : List Obj} {o o' : Obj}
    (hpre : ∀ o ∈ pre, p o) (ho : ¬ p o) (hpre' : ∀ o ∈ pre', p o) (ho' : ¬ p o')
    (h : pre ++ o :: post = pre' ++ o' :: post') : pre = pre' ∧ o = o' ∧ post = post' := by
  rcases List.append_eq_append_iff.mp h with ⟨a, rfl, ha⟩ | ⟨a, rfl, ha⟩
  · rcases a with _ | ⟨b, a⟩
    · obtain ⟨rfl, rfl⟩ := List.cons.inj ha
      simp
    · obtain ⟨rfl, -⟩ := List.cons.inj ha
      exact absurd (hpre' o (by simp)) ho
  · rcases a with _ | ⟨b, a⟩
    · obtain ⟨rfl, rfl⟩ := List.cons.inj ha
      simp
    · obtain ⟨rfl, -⟩ := List.cons.inj ha
      exact absurd (hpre o' (by simp)) ho'

/-- One turn of the first loop, on a row that dedup drops. -/
theorem siftOne_drops {i : Nat} {n : Norm} {acc : Sifted} (h : drops st out i acc.seen n = true) :
    (siftOne st out i n acc).seen = acc.seen ∧ (siftOne st out i n acc).groups = acc.groups ∧
      (siftOne st out i n acc).report.settled = acc.report.settled ++ [n] := by
  unfold drops at h
  cases hf : n.fingerprint with
  | none => simp [hf] at h
  | some fp =>
    simp only [hf, Bool.and_eq_true, Bool.or_eq_true, decide_eq_true_eq] at h
    obtain ⟨he, h⟩ := h
    by_cases hs : fp ∈ acc.seen
    · simp [siftOne, hf, he, hs, Report.settled, Report.duplicates]
    · have hl := h.resolve_left hs
      split at hl
      · rename_i known hk
        simp [siftOne, hf, he, hs, hk, hl, Report.settled, Report.duplicates]
      · cases hl

/-- One turn of the first loop, on a row that dedup leaves: it joins its group. -/
theorem siftOne_fresh {i : Nat} {n : Norm} {acc : Sifted} (h : drops st out i acc.seen n = false) :
    (siftOne st out i n acc).seen = remember st acc.seen n ∧
      (siftOne st out i n acc).groups = acc.groups.add n ∧
      (siftOne st out i n acc).report.settled = acc.report.settled := by
  unfold drops at h
  cases hf : n.fingerprint with
  | none => simp [siftOne, remember, hf, Report.settled, Report.duplicates]
  | some fp =>
    cases he : st.ITEM_FILTER_ENABLE with
    | false => simp [siftOne, remember, hf, he, Report.settled, Report.duplicates]
    | true =>
      simp only [hf, he, Bool.true_and, Bool.or_eq_false_iff, decide_eq_false_iff_not] at h
      obtain ⟨hs, hl⟩ := h
      rcases hk : out.lookup i fp with e | known
      · simp [siftOne, remember, hf, he, hs, hk, Report.settled, Report.duplicates]
      · rw [hk] at hl
        simp only at hl
        simp [siftOne, remember, hf, he, hs, hk, hl, Report.settled, Report.duplicates]

/-- What the first loop leaves: the groups of the rows that dedup leaves, and
the others settled. -/
theorem siftRows_spec (i : Nat) (ns : List Norm) (acc : Sifted) :
    (siftRows st out i ns acc).groups = (fresh st out i acc.seen ns).foldl Groups.add acc.groups ∧
      ((siftRows st out i ns acc).report.settled ++ fresh st out i acc.seen ns).Perm
        (acc.report.settled ++ ns) := by
  induction ns generalizing i acc with
  | nil => exact ⟨rfl, .refl _⟩
  | cons n ns ih =>
    obtain ⟨hg, hp⟩ := ih (i + 1) (siftOne st out i n acc)
    cases hd : drops st out i acc.seen n with
    | true =>
      obtain ⟨h₁, h₂, h₃⟩ := siftOne_drops st out hd
      have hf : fresh st out i acc.seen (n :: ns) = fresh st out (i + 1) acc.seen ns := by
        simp [fresh, hd]
      rw [h₁] at hg hp
      rw [h₂] at hg
      rw [h₃, List.append_assoc] at hp
      rw [hf]
      exact ⟨hg, hp⟩
    | false =>
      obtain ⟨h₁, h₂, h₃⟩ := siftOne_fresh st out hd
      have hf : fresh st out i acc.seen (n :: ns) =
          n :: fresh st out (i + 1) (remember st acc.seen n) ns := by
        simp [fresh, hd]
      rw [h₁] at hg hp
      rw [h₂] at hg
      rw [h₃] at hp
      rw [hf]
      exact ⟨hg, List.perm_middle.trans ((hp.cons n).trans List.perm_middle.symm)⟩

/-! ## The second loop -/

/-- The pipelines of a key are there already, or can be loaded. -/
def Loads (cache : List (List String)) (key : List String) : Prop :=
  key ∈ cache ∨ out.load key = .ok ()

/-- All pipelines accept a group, or all its rows can be dumped. -/
def Stores (k : GroupKey) (key : List String) (rows : List Norm) : Prop :=
  (∀ i < key.length, out.write k i = .ok true) ∨
    out.openDump k = .ok () ∧ ∀ i < rows.length, out.dumpLine k i = .ok ()

theorem loads_cons {cache : List (List String)} {key key' : List String} (h : out.load key = .ok ()) :
    Loads out (key :: cache) key' ↔ Loads out cache key' := by
  constructor
  · rintro (hm | hl)
    · rcases List.mem_cons.mp hm with rfl | hm
      · exact .inr h
      · exact .inl hm
    · exact .inr hl
  · exact Or.imp_left (List.mem_cons_of_mem _)

/-- Loading works exactly where it should, and a later load finds what this
one found. -/
theorem resolvePipelines_spec (key : List String) (cache : List (List String)) :
    (∃ cache', resolvePipelines out key cache = (.ok (), cache') ∧ Loads out cache key ∧
      ∀ key', Loads out cache' key' ↔ Loads out cache key') ∨
    ∃ e, resolvePipelines out key cache = (.error e, cache) ∧ ¬ Loads out cache key := by
  unfold resolvePipelines Loads
  split
  · rename_i hm
    exact .inl ⟨cache, rfl, .inl hm, fun _ => .rfl⟩
  · rename_i hm
    rcases hl : out.load key with e | u
    · exact .inr ⟨e, rfl, by simp [hm]⟩
    · exact .inl ⟨key :: cache, rfl, .inr rfl, fun key' => loads_cons out hl⟩

theorem writeAll_snd (k : GroupKey) (datas : List Dict) (updateKeys : List String) (j : Nat)
    (ps : List String) :
    (writeAll out k datas updateKeys j ps).2 = true ↔
      ∀ i < ps.length, out.write k (j + i) = .ok true := by
  induction ps generalizing j with
  | nil => simp [writeAll]
  | cons p ps ih =>
    have hsplit : (∀ i < (p :: ps).length, out.write k (j + i) = .ok true) ↔
        out.write k j = .ok true ∧ ∀ i < ps.length, out.write k (j + 1 + i) = .ok true := by
      constructor
      · intro h
        refine ⟨h 0 (by simp), fun i hi => ?_⟩
        have := h (i + 1) (by simpa using hi)
        rwa [show j + (i + 1) = j + 1 + i by omega] at this
      · rintro ⟨h0, h⟩ (_ | i) hi
        · exact h0
        · have := h i (by simpa using hi)
          rwa [show j + 1 + i = j + (i + 1) by omega] at this
    rw [hsplit, ← ih (j + 1)]
    rcases hw : out.write k j with e | b
    · simp [writeAll, hw]
    · cases b <;> simp [writeAll, hw]

/-- The dump holds every row of the group, or it holds only some and raised. -/
theorem dumpLines_spec (k : GroupKey) (updateKeys : List String) (j : Nat) (ns : List Norm) :
    ((dumpLines out k updateKeys j ns).1 = .ok () ∧
      (dumpLines out k updateKeys j ns).2.map Prod.fst = ns ∧
      ∀ i < ns.length, out.dumpLine k (j + i) = .ok ()) ∨
    (∃ e, (dumpLines out k updateKeys j ns).1 = .error e) ∧
      (dumpLines out k updateKeys j ns).2.length < ns.length ∧
      ¬ ∀ i < ns.length, out.dumpLine k (j + i) = .ok () := by
  induction ns generalizing j with
  | nil => simp [dumpLines]
  | cons n ns ih =>
    rcases hd : out.dumpLine k j with e | u
    · refine .inr ⟨⟨e, by simp [dumpLines, hd]⟩, by simp [dumpLines, hd], fun h => ?_⟩
      have := h 0 (by simp)
      simp [hd] at this
    · have he : dumpLines out k updateKeys j (n :: ns) =
          ((dumpLines out k updateKeys (j + 1) ns).1,
            (n, dumpRecord k updateKeys n) :: (dumpLines out k updateKeys (j + 1) ns).2) := by
        simp [dumpLines, hd]
      have hsplit : (∀ i < (n :: ns).length, out.dumpLine k (j + i) = .ok ()) ↔
          ∀ i < ns.length, out.dumpLine k (j + 1 + i) = .ok () := by
        constructor
        · intro h i hi
          have := h (i + 1) (by simpa using hi)
          rwa [show j + (i + 1) = j + 1 + i by omega] at this
        · rintro h (_ | i) hi
          · exact hd
          · have := h i (by simpa using hi)
            rwa [show j + 1 + i = j + (i + 1) by omega] at this
      rw [he, hsplit]
      rcases ih (j + 1) with ⟨h₁, h₂, h₃⟩ | ⟨h₁, h₂, h₃⟩
      · exact .inl ⟨h₁, by simp [h₂], h₃⟩
      · exact .inr ⟨h₁, by simpa using h₂, h₃⟩

theorem settled_length (r : Report) :
    r.settled.length = r.written.length + r.dumped.length + r.duplicates.length := by
  simp only [Report.settled, List.length_append, List.length_map]

/-- A group with its pipelines is settled, or some of its rows are lost. -/
theorem storeGroup_spec (k : GroupKey) (key : List String) {ns : List Norm} (hne : ns ≠ [])
    (rep : Report) :
    ((storeGroup st out k key ns rep).1 = .ok () ∧ Stores out k key ns ∧
      (storeGroup st out k key ns rep).2.settled.Perm (rep.settled ++ ns)) ∨
    (∃ e, (storeGroup st out k key ns rep).1 = .error e) ∧ ¬ Stores out k key ns ∧
      (storeGroup st out k key ns rep).2.settled.length < rep.settled.length + ns.length := by
  have hpos : 0 < ns.length := List.length_pos_iff.mpr hne
  have hw := writeAll_snd out k (ns.map Norm.data) ((ns.head?.map Norm.updateKeys).getD []) 0 key
  simp only [Nat.zero_add] at hw
  cases hok : (writeAll out k (ns.map Norm.data) ((ns.head?.map Norm.updateKeys).getD []) 0 key).2 with
  | true =>
    have hres : (storeGroup st out k key ns rep).1 = .ok () := by
      simp only [storeGroup, hok, if_true]
      split <;> rfl
    have hset : (storeGroup st out k key ns rep).2.settled =
        rep.written ++ ns ++ rep.dumped.map Prod.fst ++ rep.duplicates := by
      simp only [storeGroup, hok, if_true]
      split <;> rfl
    refine .inl ⟨hres, .inl (hw.mp hok), ?_⟩
    rw [hset]
    simp only [Report.settled, List.append_assoc]
    exact (List.perm_append_comm.trans (by simp)).append_left rep.written
  | false =>
    have hn : ¬ ∀ i < key.length, out.write k i = .ok true := by rw [← hw, hok]; exact Bool.noConfusion
    have hres : (storeGroup st out k key ns rep).1 =
        (dumpFailed out k ((ns.head?.map Norm.updateKeys).getD []) ns).1 := by
      simp [storeGroup, hok]
    have hset : (storeGroup st out k key ns rep).2.settled = rep.written ++
        (rep.dumped ++ (dumpFailed out k ((ns.head?.map Norm.updateKeys).getD []) ns).2).map Prod.fst ++
        rep.duplicates := by
      simp only [storeGroup, hok, Bool.false_eq_true, if_false]
      rfl
    rw [hres, hset]
    rcases ho : out.openDump k with e | u
    · refine .inr ⟨⟨e, by simp [dumpFailed, ho]⟩, ?_, ?_⟩
      · rintro (h | ⟨h, -⟩)
        · exact hn h
        · simp [ho] at h
      · simp only [dumpFailed, ho, List.append_nil]
        exact Nat.lt_add_of_pos_right hpos
    · simp only [dumpFailed, ho]
      rcases dumpLines_spec out k ((ns.head?.map Norm.updateKeys).getD []) 0 ns with
        ⟨h₁, h₂, h₃⟩ | ⟨h₁, h₂, h₃⟩
      · simp only [Nat.zero_add] at h₃
        refine .inl ⟨h₁, .inr ⟨ho, h₃⟩, ?_⟩
        simp only [Report.settled, List.map_append, h₂, List.append_assoc]
        exact (List.perm_append_comm.append_left _).append_left rep.written
      · simp only [Nat.zero_add] at h₃
        refine .inr ⟨h₁, ?_, ?_⟩
        · rintro (h | ⟨-, h⟩)
          · exact hn h
          · exact h₃ h
        · rw [settled_length]
          simp only [List.length_append, List.length_map]
          omega

/-- Every group is settled, or the loop stopped and some rows are lost. -/
theorem writeGroups_spec (defaults : List String) (es : List (GroupKey × List Norm))
    (hes : ∀ e ∈ es, e.2 ≠ []) (cache : List (List String)) (rep : Report) :
    ((writeGroups st out defaults es cache rep).1 = .ok () ∧
      (∀ e ∈ es, Loads out cache (pipelineKey defaults e.1.pipelines) ∧
        Stores out e.1 (pipelineKey defaults e.1.pipelines) e.2) ∧
      (writeGroups st out defaults es cache rep).2.2.settled.Perm
        (rep.settled ++ es.flatMap Prod.snd)) ∨
    (∃ e, (writeGroups st out defaults es cache rep).1 = .error e) ∧
      (¬ ∀ e ∈ es, Loads out cache (pipelineKey defaults e.1.pipelines) ∧
        Stores out e.1 (pipelineKey defaults e.1.pipelines) e.2) ∧
      (writeGroups st out defaults es cache rep).2.2.settled.length <
        rep.settled.length + (es.flatMap Prod.snd).length := by
  induction es generalizing cache rep with
  | nil => exact .inl ⟨rfl, by simp, by simp [writeGroups]⟩
  | cons e es ih =>
    obtain ⟨k, ns⟩ := e
    have hns : ns ≠ [] := hes (k, ns) List.mem_cons_self
    have hpos : 0 < ns.length := List.length_pos_iff.mpr hns
    have htail := fun e he => hes e (List.mem_cons_of_mem _ he)
    simp only [List.forall_mem_cons, List.flatMap_cons, List.length_append]
    rcases resolvePipelines_spec out (pipelineKey defaults k.pipelines) cache with
      ⟨cache', hr, hl, hc⟩ | ⟨err, hr, hl⟩
    · rcases storeGroup_spec st out k (pipelineKey defaults k.pipelines) hns rep with
        ⟨h₁, h₂, h₃⟩ | ⟨⟨err, h₁⟩, h₂, h₃⟩
      · have he : writeGroups st out defaults ((k, ns) :: es) cache rep =
            writeGroups st out defaults es cache'
              (storeGroup st out k (pipelineKey defaults k.pipelines) ns rep).2 := by
          rw [writeGroups, hr]
          dsimp only
          split
          · rename_i hs
            rw [hs] at h₁
            cases h₁
          · rename_i hs
            rw [hs]
        rw [he]
        have := h₃.length_eq
        simp only [List.length_append] at this
        rcases ih htail cache' (storeGroup st out k (pipelineKey defaults k.pipelines) ns rep).2 with
          ⟨i₁, i₂, i₃⟩ | ⟨i₁, i₂, i₃⟩
        · refine .inl ⟨i₁, ⟨⟨hl, h₂⟩, fun e he => ⟨(hc _).mp (i₂ e he).1, (i₂ e he).2⟩⟩, ?_⟩
          rw [← List.append_assoc]
          exact i₃.trans (h₃.append_right _)
        · refine .inr ⟨i₁, fun h => i₂ fun e he => ⟨(hc _).mpr (h.2 e he).1, (h.2 e he).2⟩, ?_⟩
          omega
      · have he : writeGroups st out defaults ((k, ns) :: es) cache rep =
            (.error err, cache', (storeGroup st out k (pipelineKey defaults k.pipelines) ns rep).2) := by
          rw [writeGroups, hr]
          dsimp only
          split
          · rename_i hs
            rw [hs] at h₁ ⊢
            cases h₁
            rfl
          · rename_i hs
            rw [hs] at h₁
            cases h₁
        rw [he]
        refine .inr ⟨⟨err, rfl⟩, fun h => h₂ h.1.2, ?_⟩
        dsimp only
        omega
    · have he : writeGroups st out defaults ((k, ns) :: es) cache rep = (.error err, cache, rep) := by
        rw [writeGroups, hr]
      rw [he]
      refine .inr ⟨⟨err, rfl⟩, fun h => hl h.1.1, ?_⟩
      dsimp only
      omega

/-! ## The flush -/

/-- Nothing stops `_persist`: it gets its filter, accepts every object, and the
rows that dedup leaves are stored group by group. -/
def Persists (defaults : List String) (cache : List (List String)) (objs : List Obj) : Prop :=
  getDedup st out = .ok () ∧ (∀ o ∈ objs, Accepts lib st o) ∧
    ∀ k, let ns := (fresh st out 0 [] (rows lib st objs)).filter (fun n => n.groupKey = k)
      ns ≠ [] → Loads out cache (pipelineKey defaults k.pipelines) ∧
        Stores out k (pipelineKey defaults k.pipelines) ns

/-- `_persist` stops, but before it, or the object it stops at, there was
nothing to write, and after it nothing to lose. -/
def NothingToPersist (objs : List Obj) : Prop :=
  getDedup st out ≠ .ok () ∧ rows lib st objs = [] ∨
  getDedup st out = .ok () ∧ ∃ pre o post, objs = pre ++ o :: post ∧ (∀ o ∈ pre, Accepts lib st o) ∧
    ¬ Accepts lib st o ∧ fresh st out 0 [] (rows lib st pre) = [] ∧ rows lib st post = []

/-- What `_persist` settles: every row, if nothing stops it. -/
theorem persist_spec (defaults : List String) (cache : List (List String)) (objs : List Obj) :
    ((persist lib st out defaults cache objs).1 = .ok () ∧ Persists lib st out defaults cache objs ∧
      (persist lib st out defaults cache objs).2.2.settled.Perm (rows lib st objs)) ∨
    (∃ e, (persist lib st out defaults cache objs).1 = .error e) ∧
      ¬ Persists lib st out defaults cache objs ∧
      ((persist lib st out defaults cache objs).2.2.settled.Perm (rows lib st objs) ↔
        NothingToPersist lib st out objs) := by
  rcases hd : getDedup st out with err | u
  · have he : persist lib st out defaults cache objs = (.error err, cache, {}) := by
      rw [persist, hd]
    rw [he]
    refine .inr ⟨⟨err, rfl⟩, fun h => by simp [Persists, hd] at h, ?_⟩
    simp [NothingToPersist, hd, Report.settled, Report.duplicates]
  rcases accepts_or_split lib st objs with hall | ⟨pre, o, post, rfl, hpre, ho⟩
  · -- the second loop decides
    obtain ⟨hg, hp⟩ := siftRows_spec st out 0 (rows lib st objs) {}
    generalize hacc : siftRows st out 0 (rows lib st objs) {} = acc at hg hp
    have he : persist lib st out defaults cache objs =
        writeGroups st out defaults acc.groups.entries cache acc.report := by
      rw [persist, hd]
      dsimp only
      rw [sift_ok lib st out hall, hacc]
    have hrows : acc.groups.rows.Perm (fresh st out 0 [] (rows lib st objs)) := by
      rw [hg]
      exact Groups.rows_ofList _
    have hp' : (acc.report.settled ++ acc.groups.rows).Perm (rows lib st objs) :=
      (hrows.append_left _).trans hp
    have hiff : (∀ e ∈ acc.groups.entries, Loads out cache (pipelineKey defaults e.1.pipelines) ∧
        Stores out e.1 (pipelineKey defaults e.1.pipelines) e.2) ↔
        Persists lib st out defaults cache objs := by
      rw [hg]
      constructor
      · intro h
        refine ⟨hd, hall, fun k => ?_⟩
        intro ns hne
        exact h (k, ns) (Groups.mem_entries_ofList.mpr ⟨rfl, hne⟩)
      · rintro ⟨-, -, h⟩ ⟨k, ns⟩ he
        obtain ⟨rfl, hne⟩ := Groups.mem_entries_ofList.mp he
        exact h k hne
    rw [he, ← hiff]
    rcases writeGroups_spec st out defaults acc.groups.entries acc.groups.nonempty cache acc.report with
      ⟨h₁, h₂, h₃⟩ | ⟨h₁, h₂, h₃⟩
    · exact .inl ⟨h₁, h₂, h₃.trans hp'⟩
    · refine .inr ⟨h₁, h₂, fun h => ?_, fun h => ?_⟩
      · have h₄ := h.length_eq
        have h₅ := hp'.length_eq
        rw [List.length_append] at h₅
        change _ < _ + acc.groups.rows.length at h₃
        omega
      · rcases h with ⟨hn, -⟩ | ⟨-, pre, o, post, rfl, -, ho, -⟩
        · exact absurd hd hn
        · exact absurd (hall o (by simp)) ho
  · -- the first loop stopped at `o`
    obtain ⟨-, hp⟩ := siftRows_spec st out 0 (rows lib st pre) {}
    generalize hacc : siftRows st out 0 (rows lib st pre) {} = acc at hp
    change (acc.report.settled ++ fresh st out 0 [] (rows lib st pre)).Perm (rows lib st pre) at hp
    obtain ⟨err, hs⟩ := sift_error lib st out hpre ho post {}
    rw [hacc] at hs
    have he : persist lib st out defaults cache (pre ++ o :: post) = (.error err, cache, acc.report) := by
      rw [persist, hd]
      dsimp only
      rw [hs]
    have hrows : rows lib st (pre ++ o :: post) = rows lib st pre ++ rows lib st post := by
      rw [rows_append, rows_cons_of_not_accepts lib st ho]
    rw [he, hrows]
    refine .inr ⟨⟨err, rfl⟩, fun h => ho (h.2.1 o (by simp)), fun h => ?_, fun h => ?_⟩
    · have h₁ := h.length_eq
      have h₂ := hp.length_eq
      simp only [List.length_append] at h₁ h₂
      have hset : acc.report.settled.length = (rows lib st pre).length + (rows lib st post).length := h₁
      refine .inr ⟨hd, pre, o, post, rfl, hpre, ho, ?_, ?_⟩
      · exact List.eq_nil_of_length_eq_zero (by omega)
      · exact List.eq_nil_of_length_eq_zero (by omega)
    · rcases h with ⟨hn, -⟩ | ⟨-, pre', o', post', hsplit, hpre', ho', hf, hr⟩
      · exact absurd hd hn
      · obtain ⟨rfl, rfl, rfl⟩ := split_unique hpre ho hpre' ho' hsplit
        rw [hr, List.append_nil]
        rw [hf, List.append_nil] at hp
        exact hp

variable {ρ η : Type} [DecidableEq ρ]

/-- After the flush `f` of `s`, which left `s'`, every item of the batch was
taken by the handler; or it was written, dumped, dropped as a duplicate or
rejected itself, or it is pending. And every owner of the batch was
acknowledged, so that it is not in progress in the collector `c`, or still
has an item pending. -/
structure Settled (c : Collector ρ) (s : ItemBuffer ρ η) (f : Flushed ρ η) (s' : ItemBuffer ρ η) :
    Prop where
  items : if s.handled then f.handled ++ s'.pending.map Prod.fst = s.pending.map Prod.fst
    else (f.report.settled ++ rows lib st (s'.pending.map Prod.fst)).Perm
      (rows lib st (s.pending.map Prod.fst))
  owners : ∀ o ∈ owners s.pending,
    o ∈ f.acked ∧ o ∉ (f.acked.foldl Collector.done c).inProgress ∨ s'.owns o = true

/-- Nothing goes wrong in a flush: there is nothing to do, or the handler
returns, or nothing stops `_persist`. -/
def Clean (s : ItemBuffer ρ η) : Prop :=
  s.pending = [] ∨
    if s.handled then out.handler = .ok ()
    else Persists lib st out (s.defaultPipelines st) s.cache (s.pending.map Prod.fst)

/-- `_persist` is stopped in a batch that leaves nothing to write and nobody to
acknowledge. -/
def Idle (s : ItemBuffer ρ η) : Prop :=
  s.handled = false ∧ owners s.pending = [] ∧ NothingToPersist lib st out (s.pending.map Prod.fst)

theorem ackAll_spec (os : List ρ) (f : Flushed ρ η) (s : ItemBuffer ρ η) :
    (ackAll os f s).1.acked = f.acked ++ os ∧ (ackAll os f s).1.report = f.report ∧
      (ackAll os f s).1.handled = f.handled ∧
      (ackAll os f s).2 = { s with afterPersist := s.afterPersist.filter fun h => h.1 ∉ os } := by
  induction os generalizing f s with
  | nil => simp [ackAll]
  | cons o os ih =>
    obtain ⟨h₁, h₂, h₃, h₄⟩ := ih
      { f with hooks := f.hooks ++ (takeHooks s o).1, acked := f.acked ++ [o] } (takeHooks s o).2
    refine ⟨?_, h₂, h₃, ?_⟩
    · rw [List.append_cons]
      exact h₁
    · rw [ackAll, h₄]
      simp only [takeHooks, List.filter_filter, List.mem_cons, not_or]
      congr 2
      funext h
      simp only [ne_eq, decide_not, Bool.decide_and]
      exact Bool.and_comm _ _

/-- A flush that acknowledges its owners settles them. -/
theorem owners_settled {c : Collector ρ} {s s' : ItemBuffer ρ η} {acked : List ρ}
    (h : acked = owners s.pending) : ∀ o ∈ owners s.pending,
      o ∈ acked ∧ o ∉ (acked.foldl Collector.done c).inProgress ∨ s'.owns o = true := by
  subst h
  exact fun o ho => .inl ⟨ho, fun hm => (Collector.mem_foldl_done.mp hm).1 ho⟩

/-- A flush that acknowledges nobody and leaves nothing pending settles no
owner. -/
theorem owners_unsettled {c : Collector ρ} {s s' : ItemBuffer ρ η} {acked : List ρ}
    (h : acked = []) (hp : s'.pending = []) :
    (∀ o ∈ owners s.pending,
      o ∈ acked ∧ o ∉ (acked.foldl Collector.done c).inProgress ∨ s'.owns o = true) ↔
    owners s.pending = [] := by
  rw [List.eq_nil_iff_forall_not_mem]
  simp [h, owns, hp]

/-- A flush whose `_persist` returns. -/
theorem flush_persisted {s : ItemBuffer ρ η} (hb : s.pending ≠ []) (hh : s.handled = false)
    {cache : List (List String)} {rep : Report}
    (h : persist lib st out (s.defaultPipelines st) s.cache (s.pending.map Prod.fst) =
      (.ok (), cache, rep)) :
    flush lib st out s =
      ackAll (owners s.pending) { report := rep } { s with pending := [], cache } := by
  have hd : defaultPipelines st { s with pending := [] } = s.defaultPipelines st := rfl
  unfold flush
  dsimp only
  rw [hd, h, hh]
  simp [hb]

/-- A flush whose `_persist` raises. -/
theorem flush_stopped {s : ItemBuffer ρ η} (hb : s.pending ≠ []) (hh : s.handled = false)
    {e : Exn} {cache : List (List String)} {rep : Report}
    (h : persist lib st out (s.defaultPipelines st) s.cache (s.pending.map Prod.fst) =
      (.error e, cache, rep)) :
    flush lib st out s = ({ report := rep }, { s with pending := [], cache }) := by
  have hd : defaultPipelines st { s with pending := [] } = s.defaultPipelines st := rfl
  unfold flush
  dsimp only
  rw [hd, h, hh]
  simp [hb]

/-- A flush settles every item of its batch and every owner if and only if
nothing went wrong in it, or what went wrong concerned neither a row nor an
owner. -/
theorem flush_settled_iff (c : Collector ρ) (s : ItemBuffer ρ η) :
    Settled lib st c s (flush lib st out s).1 (flush lib st out s).2 ↔
      Clean lib st out s ∨ Idle lib st out s := by
  by_cases hb : s.pending = []
  · have he : flush lib st out s = ({}, { s with pending := [] }) := by simp [flush, hb]
    rw [he]
    refine ⟨fun _ => .inl (.inl hb), fun _ => ⟨?_, by simp [hb, owners]⟩⟩
    simp [hb, rows, Report.settled, Report.duplicates]
  cases hh : s.handled with
  | true =>
    rcases ho : out.handler with e | u
    · have he : flush lib st out s = ({ result := .error e }, { s with pending := [] }) := by
        simp [flush, hb, hh, ho]
      rw [he]
      constructor
      · intro h
        have := h.items
        simp only [hh, if_true, List.map_nil, List.append_nil] at this
        exact absurd (List.map_eq_nil_iff.mp this.symm) hb
      · rintro ((h | h) | ⟨h, -⟩)
        · exact absurd h hb
        · simp [hh, ho] at h
        · simp [hh] at h
    · have he : flush lib st out s = ackAll (owners s.pending) { handled := s.pending.map Prod.fst }
          { s with pending := [] } := by
        simp [flush, hb, hh, ho]
      obtain ⟨h₁, -, h₃, h₄⟩ := ackAll_spec (owners s.pending)
        ({ handled := s.pending.map Prod.fst } : Flushed ρ η) { s with pending := [] }
      rw [he]
      refine ⟨fun _ => .inl (.inr (by simp [hh, ho])), fun _ => ⟨?_, owners_settled h₁⟩⟩
      rw [h₃, h₄, hh]
      simp
  | false =>
    have hclean : Clean lib st out s ↔
        Persists lib st out (s.defaultPipelines st) s.cache (s.pending.map Prod.fst) := by
      simp [Clean, hb, hh]
    rw [hclean]
    rcases hres : persist lib st out (s.defaultPipelines st) s.cache (s.pending.map Prod.fst) with
      ⟨res, cache, rep⟩
    have hspec := persist_spec lib st out (s.defaultPipelines st) s.cache (s.pending.map Prod.fst)
    rw [hres] at hspec
    rcases hspec with ⟨h₁, h₂, h₃⟩ | ⟨⟨e, h₁⟩, h₂, h₃⟩
    · cases h₁
      obtain ⟨i₁, i₂, -, i₄⟩ := ackAll_spec (owners s.pending)
        ({ report := rep } : Flushed ρ η) { s with pending := [], cache }
      rw [flush_persisted lib st out hb hh hres]
      refine ⟨fun _ => .inl h₂, fun _ => ⟨?_, owners_settled i₁⟩⟩
      rw [i₂, i₄, hh]
      simpa [rows] using h₃
    · cases h₁
      rw [flush_stopped lib st out hb hh hres]
      have hitems : (rep.settled ++ rows lib st []).Perm (rows lib st (s.pending.map Prod.fst)) ↔
          NothingToPersist lib st out (s.pending.map Prod.fst) := by
        rw [← h₃]
        simp [rows]
      constructor
      · intro h
        refine .inr ⟨hh, (owners_unsettled rfl rfl).mp h.owners, hitems.mp ?_⟩
        have := h.items
        rwa [hh] at this
      · rintro (h | ⟨-, ho, h⟩)
        · exact absurd h h₂
        · refine ⟨?_, (owners_unsettled rfl rfl).mpr ho⟩
          rw [hh]
          exact hitems.mpr h

/-! ## Who is acknowledged -/

theorem mem_owners {batch : List (Obj × Option ρ)} {o : ρ} :
    o ∈ owners batch ↔ ∃ e ∈ batch, e.2 = some o := by
  have hfold : ∀ (os acc : List ρ),
      o ∈ os.foldl (fun os o => if o ∈ os then os else os ++ [o]) acc ↔ o ∈ acc ∨ o ∈ os := by
    intro os
    induction os with
    | nil => simp
    | cons p os ih =>
      intro acc
      rw [List.foldl_cons, ih, List.mem_cons]
      by_cases hp : p ∈ acc
      · rw [if_pos hp]
        exact ⟨fun h => h.imp_right .inr, fun h => h.elim .inl fun h => h.elim (fun e => .inl (e ▸ hp)) .inr⟩
      · rw [if_neg hp, List.mem_append, List.mem_singleton, or_assoc]
  rw [owners, hfold]
  simp [List.mem_filterMap]

theorem owns_iff {s : ItemBuffer ρ η} {o : ρ} : s.owns o = true ↔ o ∈ owners s.pending := by
  rw [mem_owners]
  simp [owns]

/-- A flush takes everything that is pending. -/
theorem flush_pending (s : ItemBuffer ρ η) : (flush lib st out s).2.pending = [] := by
  unfold flush
  dsimp only
  split
  · rfl
  · split
    · split
      · rfl
      · rw [(ackAll_spec _ _ _).2.2.2]
    · split
      · rfl
      · rw [(ackAll_spec _ _ _).2.2.2]

/-- A flush acknowledges the owners of its batch, all of them or none. -/
theorem flush_acked (s : ItemBuffer ρ η) :
    (flush lib st out s).1.acked = owners s.pending ∨ (flush lib st out s).1.acked = [] := by
  unfold flush
  dsimp only
  split
  · exact .inr rfl
  · split
    · split
      · exact .inr rfl
      · exact .inl (by rw [(ackAll_spec _ _ _).1]; rfl)
    · split
      · exact .inr rfl
      · exact .inl (by rw [(ackAll_spec _ _ _).1]; rfl)

/-- A flush in which nothing goes wrong acknowledges all of them. -/
theorem flush_acked_of_clean {s : ItemBuffer ρ η} (h : Clean lib st out s) :
    (flush lib st out s).1.acked = owners s.pending := by
  by_cases hb : s.pending = []
  · have he : flush lib st out s = ({}, { s with pending := [] }) := by simp [flush, hb]
    rw [he, hb]
    rfl
  have hc := h.resolve_left hb
  cases hh : s.handled with
  | true =>
    simp only [hh, if_true] at hc
    have he : flush lib st out s = ackAll (owners s.pending) { handled := s.pending.map Prod.fst }
        { s with pending := [] } := by
      simp [flush, hb, hh, hc]
    rw [he, (ackAll_spec _ _ _).1]
    rfl
  | false =>
    simp only [hh, Bool.false_eq_true, if_false] at hc
    rcases persist_spec lib st out (s.defaultPipelines st) s.cache (s.pending.map Prod.fst) with
      ⟨h₁, -, -⟩ | ⟨-, h₂, -⟩
    · rcases hres : persist lib st out (s.defaultPipelines st) s.cache (s.pending.map Prod.fst) with
        ⟨res, cache, rep⟩
      rw [hres] at h₁
      cases h₁
      rw [flush_persisted lib st out hb hh hres, (ackAll_spec _ _ _).1]
      rfl
    · exact absurd hc h₂

/-- The standard library for a batch without fingerprints. -/
def textOnly : Stdlib where
  urlsplit url := .ok ⟨"", "", url, "", ""⟩
  parseQsl _ := []
  urlencode _ := ""
  urlunsplit p := p.path
  dumpsSorted _ := .ok "{}"
  str _ := ""
  repr _ := ""
  md5 text := text
  lower text := text

/-- A batch of two requests: a row, and an object that is no item. -/
def mixedBatch : ItemBuffer Nat Unit where
  pending := [(.dict [("id", .int 1)], some 1), (.other "int", some 2)]

/-- The row is lost with the object behind it, and both requests stay in
progress. -/
theorem mixedBatch_not_settled :
    ¬ Settled textOnly {} { inProgress := [1, 2] } mixedBatch
      (flush textOnly {} {} mixedBatch).1 (flush textOnly {} {} mixedBatch).2 := by
  intro h
  have hlen := h.items.length_eq
  exact absurd hlen (by decide)

end ItemBuffer

end Netspy
