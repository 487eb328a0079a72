import Mathlib.Data.List.Perm.Subperm
import Netspy.Impl.RetryRun

/-!
# What a run of `retry_items` conserves

Between reading the file and unlinking or replacing it nothing looks at what
was written into it meanwhile. So every record that was completely written is
in the file or was accepted (`conserves`) in the runs in which what is swapped
out has no more records than were read, and no call of `_dump_failed` completes
a line of a file that was swapped out, or one into which another call wrote.
-/

namespace Netspy

mutual

theorem toPy_inj : ∀ {a b : Json}, toPy a = toPy b → a = b
  | .null, b, h => by cases b <;> simp [toPy] at h ⊢
  | .bool _, b, h => by cases b <;> simp [toPy] at h ⊢; exact h
  | .int _, b, h => by cases b <;> simp [toPy] at h ⊢; exact h
  | .float _, b, h => by cases b <;> simp [toPy] at h ⊢; exact h
  | .str _, b, h => by cases b <;> simp [toPy] at h ⊢; exact h
  | .arr vs, b, h => by
    cases b with
    | arr ws => exact congrArg Json.arr (toPyList_inj (by simpa [toPy] using h))
    | _ => simp [toPy] at h
  | .obj kvs, b, h => by
    cases b with
    | obj lws => exact congrArg Json.obj (toPyPairs_inj (by simpa [toPy] using h))
    | _ => simp [toPy] at h

theorem toPyList_inj : ∀ {as bs : List Json}, toPyList as = toPyList bs → as = bs
  | [], bs, h => by cases bs <;> simp [toPyList] at h ⊢
  | a :: as, bs, h => by
    cases bs with
    | nil => simp [toPyList] at h
    | cons b bs =>
      obtain ⟨hv, hvs⟩ := List.cons.inj (by simpa [toPyList] using h : toPy a :: toPyList as = toPy b :: toPyList bs)
      rw [toPy_inj hv, toPyList_inj hvs]

theorem toPyPairs_inj : ∀ {as bs : List (String × Json)}, toPyPairs as = toPyPairs bs → as = bs
  | [], bs, h => by cases bs <;> simp [toPyPairs] at h ⊢
  | (k, v) :: as, bs, h => by
    cases bs with
    | nil => simp [toPyPairs] at h
    | cons b bs =>
      obtain ⟨k', v'⟩ := b
      simp only [toPyPairs, List.cons.injEq, Prod.mk.injEq, PyVal.str.injEq] at h
      obtain ⟨⟨rfl, hv⟩, hvs⟩ := h
      rw [toPy_inj hv, toPyPairs_inj hvs]

end

instance : DecidableEq Json := fun a b => decidable_of_iff (toPy a = toPy b) ⟨toPy_inj, congrArg toPy⟩

namespace RetryRun

variable {st : Setting} {s t : RetryRun}

/-! ## The groups -/

theorem remaining_replayGroup (answers : Answers) (k : ReplayKey) (rows : List Json) (datas : List PyVal)
    (r : Replay) : (replayGroup answers st k rows datas r).remaining =
      if groupAccepts answers st k datas then r.remaining else r.remaining ++ rows := by
  cases hload : answers.load (replayOperation st k).pipelines with
  | error e => simp [replayGroup, groupAccepts, hload]
  | ok u =>
    simp only [replayGroup, groupAccepts, hload]
    split <;> rfl

theorem snd_of_keyed {records : List Json} {krs : List (ReplayKey × Json)} (h : records.mapM keyed = .ok krs) :
    krs.map Prod.snd = records := by
  induction records generalizing krs with
  | nil => cases h; rfl
  | cons v records ih =>
    rw [List.mapM_cons, keyed] at h
    cases hv : replayKey (toPy v) with
    | error e => rw [hv] at h; cases h
    | ok k =>
      cases hvs : records.mapM keyed with
      | error e => rw [hv, hvs] at h; cases h
      | ok krs' =>
        rw [hv, hvs] at h
        cases h
        exact congrArg (v :: ·) (ih hvs)

/-- Grouping moves the records about. -/
theorem groupRecords_perm {records : List Json} {groups : Groups (Prod.fst : ReplayKey × Json → ReplayKey)}
    (h : groupRecords records = .ok groups) : (groups.rows.map Prod.snd).Perm records := by
  unfold groupRecords at h
  cases hk : records.mapM keyed with
  | error e => rw [hk] at h; cases h
  | ok krs =>
    rw [hk] at h
    cases h
    exact snd_of_keyed hk ▸ (Groups.rows_ofList krs).map Prod.snd

/-! ## A run without the spider -/

/-- The groups replayed with the same answers, one step each. -/
theorem exec_groups (answers : Answers) (es : List (ReplayKey × List (ReplayKey × Json))) (r r' : Replay)
    (h : replayGroups answers st es r = (.ok (), r')) (hs : s.phase = .replaying es r) :
    ∃ accepted, (machine st).exec s (List.replicate es.length (.group answers)) =
      some { s with phase := .replaying [] r', accepted } := by
  induction es generalizing r s with
  | nil =>
    cases h
    exact ⟨s.accepted, by rw [← hs]; rfl⟩
  | cons e es ih =>
    obtain ⟨k, rows⟩ := e
    unfold replayGroups at h
    split at h
    · cases h
    · rename_i datas hdatas
      obtain ⟨accepted, hex⟩ := ih _ h (s := { s with
        phase := .replaying es (replayGroup answers st k (rows.map Prod.snd) datas r)
        accepted := if groupAccepts answers st k datas then s.accepted ++ rows.map Prod.snd else s.accepted }) rfl
      refine ⟨accepted, ?_⟩
      rw [List.length_cons, List.replicate_succ, Machine.exec_cons]
      have hstep : (machine st).step s (.group answers) = some { s with
          phase := .replaying es (replayGroup answers st k (rows.map Prod.snd) datas r)
          accepted := if groupAccepts answers st k datas then s.accepted ++ rows.map Prod.snd else s.accepted } := by
        show step st s (.group answers) = _
        unfold step
        simp only [hs, hdatas]
      rw [hstep, Option.bind_some, hex]

/-- After the loop the file has what is to be left. -/
theorem exec_rewrite (replay : Replay) (hs : s.phase = .replaying [] replay) :
    ∃ as t, (machine st).exec s as = some t ∧ t.phase = .over ∧ t.text = Json.linesOf replay.remaining := by
  have hclose : (machine st).step s .close = some { s with phase := .closed replay } := by
    show step st s .close = _
    simp only [step, hs]
  by_cases he : replay.remaining = []
  · refine ⟨[.close, .unlink], { s with phase := .closed replay }.swap none, ?_, rfl, ?_⟩
    · rw [Machine.exec_cons, hclose]
      simp [machine, Machine.exec_cons, step, he]
    · rw [he]
      rfl
  · refine ⟨[.close, .stage, .replace],
      { s with phase := .staged replay }.swap (some (replay.remaining.map .line)), ?_, rfl, ?_⟩
    · rw [Machine.exec_cons, hclose]
      simp [machine, Machine.exec_cons, step, he]
    · have hlines : (replay.remaining.map Piece.line).flatMap Piece.chars = Json.linesOf replay.remaining :=
        List.flatMap_map _ _ _
      simp [text, swap, hlines]

/-- `retry_items` by itself is `retryItems`, where this returns: the same file
is left. -/
theorem exec_retryItems (answers : Answers) (ps : List Piece) {n m : Nat}
    (h : (retryItems answers st (ps.flatMap Piece.chars)).result = .ok (n, m)) :
    ∃ as t, (machine st).exec { file := some ps, appended := ps.filterMap Piece.record } as = some t ∧
      t.phase = .over ∧ t.text = (retryItems answers st (ps.flatMap Piece.chars)).file := by
  let s : RetryRun := { file := some ps, appended := ps.filterMap Piece.record }
  have htext : s.text = ps.flatMap Piece.chars := List.append_nil _
  unfold retryItems at h ⊢
  dsimp only at h ⊢
  split
  · rename_i he
    refine ⟨[.read], { s with phase := .over }, ?_, rfl, htext⟩
    rw [Machine.exec_cons]
    show (step st s .read).bind _ = _
    simp only [step, s, htext, he, if_true]
    rfl
  · rename_i he
    rw [if_neg he] at h
    cases hg : groupRecords (readLines (ps.flatMap Piece.chars)) with
    | error e => rw [hg] at h; cases h
    | ok groups =>
      rw [hg] at h
      dsimp only at h ⊢
      cases hr : replayGroups answers st groups.entries {} with
      | mk result replay =>
        rw [hr] at h
        cases result with
        | error e => cases h
        | ok u =>
          let s' : RetryRun := { s with
            records := readLines (ps.flatMap Piece.chars), phase := .replaying groups.entries {} }
          have hread : (machine st).step s .read = some s' := by
            show step st s .read = _
            simp only [step, htext, s, he, hg]
            rfl
          obtain ⟨accepted, hex⟩ := exec_groups (s := s') answers groups.entries {} replay hr rfl
          obtain ⟨as, t, hrest, hover, htx⟩ :=
            @exec_rewrite st { s' with phase := .replaying [] replay, accepted } replay rfl
          refine ⟨.read :: (List.replicate groups.entries.length (RetryAct.group answers) ++ as), t, ?_, hover, htx⟩
          rw [Machine.exec_cons, hread, Option.bind_some, Machine.exec_append, hex, Option.bind_some, hrest]

/-! ## What is conserved -/

/-- What was completely written is in the file, or was accepted. -/
def Conserved (s : RetryRun) : Prop := s.appended.Subperm (s.lines ++ s.accepted)

/-- Where the file is swapped, it has no records but those that were read, and
`_dump_failed` completes no line of a file that was swapped out, nor one into which
another call has written. -/
def Spared (s : RetryRun) : RetryAct → Prop
  | .finish i => ∀ d ∈ s.dumps i, d.attached = true ∧ d.torn = false
  | .replace | .unlink => s.lines.Subperm s.records
  | _ => True

instance (s : RetryRun) : ∀ a, Decidable (s.Spared a)
  | .finish i => Option.decidableForallMem (p := fun d : DumpCall => d.attached = true ∧ d.torn = false) (s.dumps i)
  | .replace | .unlink => inferInstanceAs (Decidable (s.lines.Subperm s.records))
  | .openDump .. | .part .. | .closeDump _ | .abort _ | .read | .group _ | .close | .stage | .crash => isTrue trivial

/-- What was read and is not yet settled, while the run is in the loop or after it. -/
def pending : RetryPhase → Option (List Json)
  | .replaying groups replay => some (replay.remaining ++ (groups.flatMap Prod.snd).map Prod.snd)
  | .closed replay | .staged replay => some replay.remaining
  | .idle | .over => none

structure Counted (s : RetryRun) : Prop where
  conserved : s.Conserved
  /-- Until the swap all that was written is in the file. -/
  lines : (∃ ps, pending s.phase = some ps) → s.appended.Perm s.lines
  idle : s.phase = .idle → s.appended.Perm s.lines ∧ s.accepted = []
  records : ∀ ps, pending s.phase = some ps → s.records.Perm (ps ++ s.accepted)

theorem conserved_of_lines (h : s.appended.Perm s.lines) : s.Conserved :=
  h.subperm.trans (List.sublist_append_left _ _).subperm

/-- Nothing is asked of a run that is over but this. -/
theorem counted_over (h : s.Conserved) (hp : s.phase = .over) : Counted s := by
  refine ⟨h, fun ⟨ps, hps⟩ => ?_, fun hi => ?_, fun ps hps => ?_⟩
  · rw [hp] at hps
    cases hps
  · rw [hp] at hi
    cases hi
  · rw [hp] at hps
    cases hps

theorem lines_settle (d : DumpCall) (p : Piece) :
    (s.settle d p).lines = s.lines ++ if d.attached then p.record.toList else [] := by
  unfold settle lines
  dsimp only
  split
  · rw [Option.getD_some, List.filterMap_append]
    cases p <;> rfl
  · exact (List.append_nil _).symm

theorem settle_same (d : DumpCall) {p : Piece} (hp : p.record = none) :
    ∃ file, s.settle d p = { s with file } ∧ (file.getD []).filterMap Piece.record = s.lines := by
  refine ⟨_, rfl, (lines_settle d p).trans ?_⟩
  rw [hp]
  split
  · exact List.append_nil _
  · exact List.append_nil _

/-- Writing behind an unfinished line leaves the records. -/
theorem cutOff_same (i : Nat) : ∃ file dumps last, s.cutOff i = { s with file, dumps, last } ∧
    (file.getD []).filterMap Piece.record = s.lines := by
  unfold cutOff
  split
  · exact ⟨_, _, _, rfl, rfl⟩
  · split
    · exact ⟨_, _, _, rfl, rfl⟩
    · split
      · exact ⟨_, _, _, rfl, rfl⟩
      · rename_i d _
        obtain ⟨file, he, hf⟩ := settle_same (s := s) d (p := .text d.written) rfl
        exact ⟨file, _, none, by rw [he]; rfl, hf⟩

/-- What `_dump_failed` does to the file, where it completes no line. -/
theorem Counted.same (hs : Counted s) {file : Option (List Piece)} {dumps : Nat → Option DumpCall} {last : Option Nat}
    (hf : (file.getD []).filterMap Piece.record = s.lines) : Counted { s with file, dumps, last } := by
  have hlines : ({ s with file, dumps, last } : RetryRun).lines = s.lines := hf
  refine ⟨?_, fun hp => ?_, fun hp => ?_, hs.records⟩
  · unfold Conserved
    rw [hlines]
    exact hs.conserved
  · rw [hlines]
    exact hs.lines hp
  · rw [hlines]
    exact hs.idle hp

/-- A swap keeps what was written exactly if all of it was read. -/
theorem swap_conserved_iff {ps : List Json} {file : Option (List Piece)} (hs : Counted s)
    (hp : pending s.phase = some ps) (hf : (file.getD []).filterMap Piece.record = ps) :
    (s.swap file).Conserved ↔ s.lines.Subperm s.records := by
  have hlines : (s.swap file).lines = ps := hf
  have hall : (s.swap file).appended.Subperm (ps ++ s.accepted) ↔ s.lines.Subperm (ps ++ s.accepted) :=
    (hs.lines ⟨ps, hp⟩).subperm_right
  show (s.swap file).appended.Subperm ((s.swap file).lines ++ s.accepted) ↔ _
  rw [hlines, hall]
  exact ((hs.records ps hp).subperm_left).symm

theorem records_map_line (vs : List Json) : (vs.map Piece.line).filterMap Piece.record = vs := by
  rw [List.filterMap_map]
  exact List.filterMap_some

/-- A line comes whole to the file at the path. -/
theorem Counted.append (hs : Counted s) (v : Json) {d : DumpCall} {dumps : Nat → Option DumpCall} {last : Option Nat}
    (hd : d.attached = true) :
    Counted { s.settle d (.line v) with dumps, last, appended := s.appended ++ [v] } := by
  have hnew : ({ s.settle d (.line v) with dumps, last, appended := s.appended ++ [v] } : RetryRun).lines =
      s.lines ++ [v] := by
    have h := lines_settle (s := s) d (.line v)
    rwa [if_pos hd] at h
  refine ⟨?_, fun hp => ?_, fun hp => ?_, hs.records⟩
  · have hswap : (s.lines ++ s.accepted ++ [v]).Perm (s.lines ++ [v] ++ s.accepted) := by
      rw [List.append_assoc, List.append_assoc]
      exact List.perm_append_comm.append_left s.lines
    unfold Conserved
    rw [hnew]
    exact ((List.subperm_append_right [v]).mpr hs.conserved).trans hswap.subperm
  · rw [hnew]
    exact (hs.lines hp).append_right [v]
  · rw [hnew]
    exact ⟨(hs.idle hp).1.append_right [v], (hs.idle hp).2⟩

/-- A part of a line is written. -/
theorem Counted.part {i written : Nat} (hs : Counted s) (ht : step st s (.part i written) = some t) : Counted t := by
  simp only [step] at ht
  split at ht
  · rename_i v left before attached torn hd
    obtain ⟨file, dumps, last, hcut, hf⟩ := cutOff_same (s := s) i
    split at ht
    · split at ht
      · cases ht
        exact hs.same rfl
      · split at ht
        · cases ht
          rw [hcut]
          obtain ⟨file', he, hf'⟩ := settle_same (s := { s with file, dumps, last })
            ⟨v :: left, (Json.render v).take written, attached, torn⟩
            (p := .text (((Json.render v).take written).drop before.length)) rfl
          rw [he]
          exact hs.same (hf'.trans hf)
        · cases ht
          rw [hcut]
          exact hs.same hf
    · cases ht
  · cases ht

/-- A line is complete, in the file at the path and with nothing in it from another call. -/
theorem Counted.finish {i : Nat} (hs : Counted s) (hg : ∀ d ∈ s.dumps i, d.attached = true ∧ d.torn = false)
    (ht : step st s (.finish i) = some t) : Counted t := by
  simp only [step] at ht
  split at ht
  · rename_i v left written attached torn hd
    cases ht
    obtain ⟨rfl, rfl⟩ := hg _ hd
    obtain ⟨file, dumps, last, hcut, hf⟩ := cutOff_same (s := s) i
    have hs : Counted { s with file, dumps, last := none } := hs.same hf
    rw [if_pos rfl, if_neg Bool.false_ne_true, hcut]
    exact hs.append v (d := ⟨v :: left, written, true, false⟩) rfl
  · cases ht

/-- A line breaks off. -/
theorem Counted.abort {i : Nat} (hs : Counted s) (ht : step st s (.abort i) = some t) : Counted t := by
  simp only [step] at ht
  split at ht
  · rename_i d hd
    cases ht
    split
    · obtain ⟨file, he, hf⟩ := settle_same (s := s) d (p := .text d.written) rfl
      rw [he]
      exact hs.same hf
    · exact hs.same rfl
  · cases ht

/-- The records that are read are all that was written. -/
theorem Counted.read (hs : Counted s) (ht : step st s .read = some t) : Counted t := by
  simp only [step] at ht
  split at ht
  · rename_i hphase
    obtain ⟨hfile, hnone⟩ := hs.idle hphase
    split at ht
    · cases ht
      exact counted_over hs.conserved rfl
    · split at ht
      · cases ht
        exact counted_over hs.conserved rfl
      · rename_i groups hgroups
        cases ht
        refine ⟨hs.conserved, fun _ => hfile, fun hp => (by cases hp), fun ps hp => ?_⟩
        cases hp
        show (readLines s.text).Perm (groups.rows.map Prod.snd ++ s.accepted)
        rw [hnone, List.append_nil]
        exact (groupRecords_perm hgroups).symm
  · cases ht

/-- A group is accepted, or is to be left in the file. -/
theorem Counted.group {answers : Answers} (hs : Counted s) (ht : step st s (.group answers) = some t) : Counted t := by
  simp only [step] at ht
  split at ht
  · rename_i k rows rest replay hphase
    split at ht
    · cases ht
      exact counted_over hs.conserved rfl
    · rename_i datas hdatas
      cases ht
      have hpending := congrArg pending hphase
      have hread := hs.records _ hpending
      rw [List.flatMap_cons, List.map_append] at hread
      have hlines := hs.lines ⟨_, hpending⟩
      refine ⟨conserved_of_lines hlines, fun _ => hlines, fun hp => (by cases hp), fun ps hp => ?_⟩
      cases hp
      rw [remaining_replayGroup]
      split
      · refine hread.trans (List.perm_iff_count.mpr fun v => ?_)
        simp only [List.count_append]
        omega
      · refine hread.trans (List.perm_iff_count.mpr fun v => ?_)
        simp only [List.count_append]
        omega
  · cases ht

/-- Pipelines are closed and the rest is staged: what was read stays what it is. -/
theorem Counted.goto {phase : RetryPhase} (hs : Counted s) {ps : List Json} (hp : pending s.phase = some ps)
    (hphase : pending phase = some ps) : Counted { s with phase } := by
  refine ⟨hs.conserved, fun _ => hs.lines ⟨ps, hp⟩, fun hi => ?_, fun ps' hp' => hs.records ps' ?_⟩
  · subst hi
    cases hphase
  · exact hp.trans (hphase.symm.trans hp')

theorem counted_step {a : RetryAct} (hs : Counted s) (hg : s.Spared a) (ht : step st s a = some t) : Counted t := by
  cases a with
  | part i written => exact hs.part ht
  | finish i => exact hs.finish hg ht
  | abort i => exact hs.abort ht
  | read => exact hs.read ht
  | group answers => exact hs.group ht
  | openDump i w | closeDump i =>
    simp only [step] at ht
    split at ht
    · cases ht
      exact hs.same rfl
    · cases ht
  | close =>
    simp only [step] at ht
    split at ht
    · rename_i replay hphase
      cases ht
      have hpending := congrArg pending hphase
      exact hs.goto hpending (by simp [pending])
    · cases ht
  | stage =>
    simp only [step] at ht
    split at ht
    · rename_i replay hphase
      simp only [Option.ite_none_left_eq_some, Option.some.injEq] at ht
      obtain ⟨-, rfl⟩ := ht
      exact hs.goto (congrArg pending hphase) rfl
    · cases ht
  | replace =>
    simp only [step] at ht
    split at ht
    · rename_i replay hphase
      cases ht
      refine counted_over ((swap_conserved_iff hs (congrArg pending hphase) ?_).mpr hg) rfl
      exact records_map_line _
    · cases ht
  | unlink =>
    simp only [step] at ht
    split at ht
    · rename_i replay hphase
      simp only [Option.ite_none_right_eq_some, Option.some.injEq] at ht
      obtain ⟨hnone, rfl⟩ := ht
      refine counted_over ((swap_conserved_iff hs (congrArg pending hphase) ?_).mpr hg) rfl
      exact (List.isEmpty_iff.mp hnone).symm
    · cases ht
  | crash =>
    cases ht
    exact counted_over hs.conserved rfl

theorem counted_within (h : (machine st).Within Spared s) : Counted s := by
  refine h.induct (I := Counted) (fun s h0 => ?_) fun s a t hi hg ht => counted_step hi hg ht
  obtain ⟨-, -, hphase, -, hacc, happ⟩ := h0
  refine ⟨conserved_of_lines (happ ▸ .refl _), fun ⟨ps, hps⟩ => ?_, fun _ => ⟨happ ▸ .refl _, hacc⟩, fun ps hps => ?_⟩
  · rw [hphase] at hps
    cases hps
  · rw [hphase] at hps
    cases hps

/-- A swap after which nothing is lost was of a file all of which had been read. -/
theorem spared_of_conserved {a : RetryAct} (hs : Counted s) (ha : a = .replace ∨ a = .unlink)
    (ht : step st s a = some t) (h : t.Conserved) : s.Spared a := by
  rcases ha with rfl | rfl
  · simp only [step] at ht
    split at ht
    · rename_i replay hphase
      cases ht
      refine (swap_conserved_iff hs (congrArg pending hphase) ?_).mp h
      exact records_map_line _
    · cases ht
  · simp only [step] at ht
    split at ht
    · rename_i replay hphase
      simp only [Option.ite_none_right_eq_some, Option.some.injEq] at ht
      obtain ⟨hnone, rfl⟩ := ht
      refine (swap_conserved_iff hs (congrArg pending hphase) ?_).mp h
      exact (List.isEmpty_iff.mp hnone).symm
    · cases ht

variable (st) in
/-- In the runs in which the file that is swapped out holds no record that was
not read, and no dump completes a line of it or one that another dump tore, every
record completely written is in the file or was accepted; and a swap from there
keeps this only if it is such. -/
theorem conserves :
    (∀ s, (machine st).Within Spared s → s.Conserved) ∧
      ∀ s a t, (machine st).Within Spared s → a = .replace ∨ a = .unlink → (machine st).step s a = some t →
        (t.Conserved ↔ s.Spared a) := by
  refine ⟨fun s h => (counted_within h).conserved, fun s a t h ha ht => ⟨fun hc => ?_, fun hg => ?_⟩⟩
  · exact spared_of_conserved (counted_within h) ha ht hc
  · exact (counted_step (counted_within h) hg ht).conserved

/-! ## A record that comes late -/

theorem wf_emptyRow : (Json.obj []).WF := ⟨List.nodup_nil, trivial⟩

def emptyRow : FailedWrite := ⟨"t", [⟨[], wf_emptyRow⟩], none, none⟩

def oneFailed : RetryRun := { file := some (emptyRow.records.map .line), appended := emptyRow.records }

def afterActs (as : List RetryAct) : RetryRun := ((machine {}).exec oneFailed as).getD oneFailed

theorem exec_afterActs (as : List RetryAct) (h : ((machine {}).exec oneFailed as).isSome = true) :
    (machine {}).exec oneFailed as = some (afterActs as) :=
  Machine.exec_getD h _

/-- The spider dumps a record before the replay, and both records fail again. -/
def earlyDump : List RetryAct :=
  [.openDump 0 emptyRow, .finish 0, .closeDump 0, .read, .group { write := fun _ _ => .ok false }, .close, .stage, .replace]

theorem conserves_earlyDump :
    (emptyRow.records ++ emptyRow.records).Subperm ((afterActs earlyDump).lines ++ (afterActs earlyDump).accepted) := by
  have happ : (afterActs earlyDump).appended = emptyRow.records ++ emptyRow.records := by decide +kernel
  have hmeets : (machine {}).Meets Spared oneFailed earlyDump := by decide +kernel
  have hkept : (afterActs earlyDump).Conserved := (conserves {}).1 _
    (.exec (.start ⟨rfl, rfl, rfl, rfl, rfl, rfl⟩) hmeets (exec_afterActs _ (by decide +kernel)))
  unfold Conserved at hkept
  rwa [happ] at hkept

/-- The spider dumps a record while the first one is replayed. -/
def lateDump : List RetryAct := [.read, .openDump 0 emptyRow, .finish 0, .closeDump 0, .group {}, .close, .unlink]

theorem lateDump_lost : ¬ ∀ s, (machine {}).Reachable s → s.Conserved := by
  intro h
  have happ : (afterActs lateDump).appended = emptyRow.records ++ emptyRow.records := by decide +kernel
  have hkept : (afterActs lateDump).lines ++ (afterActs lateDump).accepted = emptyRow.records := by decide +kernel
  have hreach : (machine {}).Reachable (afterActs lateDump) :=
    .exec (.start ⟨rfl, rfl, rfl, rfl, rfl, rfl⟩) (exec_afterActs _ (by decide +kernel))
  have hlen := (h _ hreach).length_le
  rw [happ, hkept] at hlen
  exact absurd hlen (by decide)

end RetryRun

end Netspy
