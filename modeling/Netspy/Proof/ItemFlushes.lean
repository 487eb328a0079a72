import Netspy.Impl.ItemFlushes
import Netspy.Proof.ItemBuffer

/-!
# Item filter and concurrent flushes

A row that a flush has let through is ahead until it is written, and behind until
it is recorded. What is recorded or behind is written, and the other way round
(`Sound`). So a flush that looks a fingerprint up while no other has it lets it
through once (`Sole.step`).

If another flush has it, it is written twice, as what is written and what is ahead
of the two does not get less (`copies_le`). So in a run to the end every
fingerprint is written exactly once if and only if no lookup lets one through that
another flush has (`written_once_iff`).
-/

namespace Netspy

def fingerprints (rows : List Norm) : List String := rows.filterMap Norm.fingerprint

@[simp] theorem fingerprints_append (xs ys : List Norm) : fingerprints (xs ++ ys) = fingerprints xs ++ fingerprints ys :=
  List.filterMap_append

namespace DedupFlush

/-- The objects that are not looked up yet. -/
def todo : DedupFlush → List Obj
  | .sifting todo _ => todo
  | _ => []

/-- The fingerprints that were let through and are not written yet. -/
def ahead : DedupFlush → List String
  | .idle => []
  | .sifting _ acc => fingerprints acc.groups.rows
  | .writing todo | .recording _ todo => fingerprints (todo.flatMap Prod.snd)

/-- The fingerprints that are written and not recorded yet. -/
def behind : DedupFlush → List String
  | .recording rows _ => fingerprints rows
  | _ => []

end DedupFlush

/-- The thread that takes a step of its flush. -/
def DedupAct.thread : DedupAct → Option Nat
  | .put _ => none
  | .swap i | .lookup i | .next i | .write i | .record i => some i

namespace ItemFlushes

open ItemBuffer

variable {lib : Stdlib} {st : Setting} {s t : ItemFlushes} {a : DedupAct}

/-- A lookup does not let a fingerprint through that another flush has. -/
def SoleLookup (lib : Stdlib) (st : Setting) (s : ItemFlushes) : DedupAct → Prop
  | .lookup i => ∀ obj todo acc norm fp, s.flushes i = .sifting (obj :: todo) acc → normalize lib st obj = .ok norm →
      norm.fingerprint = some fp → fp ∉ acc.seen → fp ∉ s.filter →
      ∀ j, j ≠ i → fp ∉ (s.flushes j).ahead ∧ fp ∉ (s.flushes j).behind
  | _ => True

/-- Everything a step can do. -/
inductive Did (lib : Stdlib) (st : Setting) (s : ItemFlushes) : DedupAct → ItemFlushes → Prop
  | put (obj : Obj) : Did lib st s (.put obj) { s with pending := s.pending ++ [obj], puts := s.puts ++ [obj] }
  | swap (i : Nat) (hf : s.flushes i = .idle) :
      Did lib st s (.swap i)
        ({ s with pending := [] }.setFlush i (if s.pending.isEmpty then .idle else .sifting s.pending {}))
  | refuse (i : Nat) (obj : Obj) (todo : List Obj) (acc : Sifted) (e : Exn) (hf : s.flushes i = .sifting (obj :: todo) acc)
      (hn : normalize lib st obj = .error e) : Did lib st s (.lookup i) (s.setFlush i .idle)
  | lookup (i : Nat) (obj : Obj) (todo : List Obj) (acc : Sifted) (norm : Norm)
      (hf : s.flushes i = .sifting (obj :: todo) acc) (hn : normalize lib st obj = .ok norm) :
      Did lib st s (.lookup i) (s.setFlush i (.sifting todo (siftOne st s.exactFilter 0 norm acc)))
  | sorted (i : Nat) (acc : Sifted) (hf : s.flushes i = .sifting [] acc) :
      Did lib st s (.next i) (s.setFlush i (.writing acc.groups.entries))
  | finished (i : Nat) (hf : s.flushes i = .writing []) : Did lib st s (.next i) (s.setFlush i .idle)
  | write (i : Nat) (k : GroupKey) (rows : List Norm) (todo : List (GroupKey × List Norm))
      (hf : s.flushes i = .writing ((k, rows) :: todo)) :
      Did lib st s (.write i) ({ s with written := s.written ++ rows }.setFlush i (.recording rows todo))
  | record (i : Nat) (rows : List Norm) (todo : List (GroupKey × List Norm)) (hf : s.flushes i = .recording rows todo) :
      Did lib st s (.record i) ({ s with filter := s.filter ++ fingerprints rows }.setFlush i (.writing todo))

theorem did (h : step lib st s a = some t) : Did lib st s a t := by
  cases a with
  | put obj =>
    cases h
    exact .put obj
  | swap i =>
    simp only [step] at h
    split at h
    · rename_i hf
      cases h
      exact .swap i hf
    · cases h
  | lookup i =>
    simp only [step] at h
    split at h
    · rename_i obj todo acc hf
      split at h
      · rename_i e hn
        cases h
        exact .refuse i obj todo acc e hf hn
      · rename_i norm hn
        cases h
        exact .lookup i obj todo acc norm hf hn
    · cases h
  | next i =>
    simp only [step] at h
    split at h
    · rename_i acc hf
      cases h
      exact .sorted i acc hf
    · rename_i hf
      cases h
      exact .finished i hf
    · cases h
  | write i =>
    simp only [step] at h
    split at h
    · rename_i k rows todo hf
      cases h
      exact .write i k rows todo hf
    · cases h
  | record i =>
    simp only [step] at h
    split at h
    · rename_i rows todo hf
      cases h
      exact .record i rows todo hf
    · cases h

/-- What a lookup lets through: a fingerprint that the flush has not let through and
that is not in the filter, or none. -/
theorem siftOne_cases (hst : st.ITEM_FILTER_ENABLE = true) (s : ItemFlushes) (norm : Norm) (acc : Sifted) :
    let acc' := siftOne st s.exactFilter 0 norm acc
    (acc'.seen = acc.seen ∧ (fingerprints acc'.groups.rows).Perm (fingerprints acc.groups.rows) ∧
        ∀ fp, norm.fingerprint = some fp → fp ∈ acc.seen ∨ fp ∈ s.filter) ∨
      ∃ fp, norm.fingerprint = some fp ∧ fp ∉ acc.seen ∧ fp ∉ s.filter ∧ acc'.seen = fp :: acc.seen ∧
        (fingerprints acc'.groups.rows).Perm (fp :: fingerprints acc.groups.rows) := by
  have hadd : (fingerprints (acc.groups.add norm).rows).Perm (norm.fingerprint.toList ++ fingerprints acc.groups.rows) := by
    refine ((acc.groups.rows_add norm).filterMap Norm.fingerprint).trans ?_
    rw [List.filterMap_append]
    refine List.perm_append_comm.trans (List.Perm.append_right _ ?_)
    cases hf : norm.fingerprint <;> simp [hf]
  intro acc'
  cases hf : norm.fingerprint with
  | none =>
    have he : acc'.seen = acc.seen ∧ acc'.groups = acc.groups.add norm := by simp [acc', siftOne, hf]
    refine .inl ⟨he.1, ?_, fun _ hfp => by cases hfp⟩
    rw [he.2]
    rwa [hf] at hadd
  | some fp =>
    rw [hf] at hadd
    by_cases hs : fp ∈ acc.seen
    · have he : acc'.seen = acc.seen ∧ acc'.groups = acc.groups := by simp [acc', siftOne, hf, hst, hs]
      refine .inl ⟨he.1, by rw [he.2], fun _ h => .inl (Option.some.inj h ▸ hs)⟩
    · by_cases hk : fp ∈ s.filter
      · have he : acc'.seen = acc.seen ∧ acc'.groups = acc.groups := by simp [acc', siftOne, hf, hst, hs, exactFilter, hk]
        refine .inl ⟨he.1, by rw [he.2], fun _ h => .inr (Option.some.inj h ▸ hk)⟩
      · have he : acc'.seen = fp :: acc.seen ∧ acc'.groups = acc.groups.add norm := by
          simp [acc', siftOne, hf, hst, hs, exactFilter, hk]
        exact .inr ⟨fp, rfl, hs, hk, he.1, he.2 ▸ hadd⟩

@[simp] theorem setFlush_self (s : ItemFlushes) (i : Nat) (f : DedupFlush) : (s.setFlush i f).flushes i = f :=
  Function.update_self ..

theorem setFlush_of_ne {i j : Nat} (h : j ≠ i) (s : ItemFlushes) (f : DedupFlush) :
    (s.setFlush i f).flushes j = s.flushes j :=
  Function.update_of_ne h ..

/-- What holds after any steps, if all objects that were put can be normalised. -/
structure Sound (lib : Stdlib) (st : Setting) (s : ItemFlushes) : Prop where
  normal : ∀ obj ∈ s.puts, ∃ norm, normalize lib st obj = .ok norm
  pending : ∀ obj ∈ s.pending, obj ∈ s.puts
  todo : ∀ i, ∀ obj ∈ (s.flushes i).todo, obj ∈ s.puts
  seen : ∀ i todo acc, s.flushes i = .sifting todo acc → ∀ fp, fp ∈ acc.seen ↔ fp ∈ fingerprints acc.groups.rows
  filter : ∀ fp ∈ s.filter, fp ∈ fingerprints s.written
  behind : ∀ i, ∀ fp ∈ (s.flushes i).behind, fp ∈ fingerprints s.written
  known : ∀ fp ∈ fingerprints s.written, fp ∈ s.filter ∨ ∃ i, fp ∈ (s.flushes i).behind
  kept : ∀ obj ∈ s.puts, ∀ norm fp, normalize lib st obj = .ok norm → norm.fingerprint = some fp →
    obj ∈ s.pending ∨ (∃ i, obj ∈ (s.flushes i).todo) ∨ (∃ i, fp ∈ (s.flushes i).ahead) ∨ fp ∈ fingerprints s.written

/-- A step of the flush `i`: what it has is put, what it has behind is written, and
what it leaves is written, recorded, or has become another one's care. -/
theorem Sound.update (hs : Sound lib st s) {i : Nat} {f : DedupFlush} (hflushes : t.flushes = Function.update s.flushes i f)
    (hputs : t.puts = s.puts) (hpending : ∀ obj ∈ t.pending, obj ∈ s.pending) (htodo : ∀ obj ∈ f.todo, obj ∈ s.puts)
    (hseen : ∀ todo acc, f = .sifting todo acc → ∀ fp, fp ∈ acc.seen ↔ fp ∈ fingerprints acc.groups.rows)
    (hwritten : ∀ fp ∈ fingerprints s.written, fp ∈ fingerprints t.written)
    (hfilter : ∀ fp ∈ t.filter, fp ∈ fingerprints t.written) (hbehind : ∀ fp ∈ f.behind, fp ∈ fingerprints t.written)
    (hnew : ∀ fp ∈ fingerprints t.written, fp ∈ fingerprints s.written ∨ fp ∈ t.filter ∨ fp ∈ f.behind)
    (hknown : ∀ fp, fp ∈ s.filter ∨ fp ∈ (s.flushes i).behind → fp ∈ t.filter ∨ fp ∈ f.behind)
    (hkept : ∀ obj ∈ s.puts, ∀ norm fp, normalize lib st obj = .ok norm → norm.fingerprint = some fp →
      obj ∈ s.pending ∨ obj ∈ (s.flushes i).todo ∨ fp ∈ (s.flushes i).ahead →
        obj ∈ t.pending ∨ obj ∈ f.todo ∨ fp ∈ f.ahead ∨ fp ∈ fingerprints t.written) : Sound lib st t := by
  have hself : t.flushes i = f := by rw [hflushes, Function.update_self]
  have hother {j : Nat} (hj : j ≠ i) : t.flushes j = s.flushes j := by rw [hflushes, Function.update_of_ne hj]
  refine ⟨hputs ▸ hs.normal, fun x hx => hputs ▸ hs.pending x (hpending x hx), fun j x hx => ?_, fun j todo acc hj => ?_,
    hfilter, fun j fp hfp => ?_, fun fp hfp => ?_, fun x hx norm fp hn hf => ?_⟩
  · rw [hputs]
    by_cases hj : j = i
    · exact htodo x (hself ▸ hj ▸ hx)
    · exact hs.todo j x (hother hj ▸ hx)
  · by_cases hji : j = i
    · exact hseen todo acc (hself ▸ hji ▸ hj)
    · exact hs.seen j todo acc (hother hji ▸ hj)
  · by_cases hj : j = i
    · exact hbehind fp (hself ▸ hj ▸ hfp)
    · exact hwritten fp (hs.behind j fp (hother hj ▸ hfp))
  · have hmine (h : fp ∈ t.filter ∨ fp ∈ f.behind) : fp ∈ t.filter ∨ ∃ i, fp ∈ (t.flushes i).behind :=
      h.imp_right fun h => ⟨i, hself.symm ▸ h⟩
    rcases hnew fp hfp with hold | h
    · rcases hs.known fp hold with h | ⟨j, h⟩
      · exact hmine (hknown fp (.inl h))
      · by_cases hj : j = i
        · exact hmine (hknown fp (.inr (hj ▸ h)))
        · exact .inr ⟨j, (hother hj).symm ▸ h⟩
    · exact hmine h
  · have hx : x ∈ s.puts := hputs ▸ hx
    have hmine (h : x ∈ s.pending ∨ x ∈ (s.flushes i).todo ∨ fp ∈ (s.flushes i).ahead) :
        x ∈ t.pending ∨ (∃ i, x ∈ (t.flushes i).todo) ∨ (∃ i, fp ∈ (t.flushes i).ahead) ∨ fp ∈ fingerprints t.written := by
      rcases hkept x hx norm fp hn hf h with h | h | h | h
      · exact .inl h
      · exact .inr (.inl ⟨i, hself.symm ▸ h⟩)
      · exact .inr (.inr (.inl ⟨i, hself.symm ▸ h⟩))
      · exact .inr (.inr (.inr h))
    rcases hs.kept x hx norm fp hn hf with h | ⟨j, h⟩ | ⟨j, h⟩ | h
    · exact hmine (.inl h)
    · by_cases hj : j = i
      · exact hmine (.inr (.inl (hj ▸ h)))
      · exact .inr (.inl ⟨j, (hother hj).symm ▸ h⟩)
    · by_cases hj : j = i
      · exact hmine (.inr (.inr (hj ▸ h)))
      · exact .inr (.inr (.inl ⟨j, (hother hj).symm ▸ h⟩))
    · exact .inr (.inr (.inr (hwritten fp h)))

/-- All objects that are put can be normalised. -/
def Normal (lib : Stdlib) (st : Setting) : DedupAct → Prop
  | .put obj => ∃ norm, normalize lib st obj = .ok norm
  | _ => True

theorem Sound.step (hst : st.ITEM_FILTER_ENABLE = true) (hs : Sound lib st s) (hn : Normal lib st a)
    (h : step lib st s a = some t) : Sound lib st t := by
  cases did h with
  | put obj =>
    refine ⟨fun x hx => ?_, fun x hx => ?_, fun i x hx => ?_, hs.seen, hs.filter, hs.behind, hs.known, ?_⟩
    · rcases List.mem_append.mp hx with hx | hx
      · exact hs.normal x hx
      · rw [List.mem_singleton.mp hx]
        exact hn
    · exact List.mem_append.mpr ((List.mem_append.mp hx).imp_left (hs.pending x))
    · exact List.mem_append_left _ (hs.todo i x hx)
    · intro x hx norm fp hnorm hf
      rcases List.mem_append.mp hx with hx | hx
      · exact (hs.kept x hx norm fp hnorm hf).imp_left (List.mem_append_left _)
      · exact .inl (List.mem_append_right _ hx)
  | swap i hf =>
    by_cases he : s.pending.isEmpty
    · have hp : s.pending = [] := List.isEmpty_iff.mp he
      rw [if_pos he]
      refine hs.update rfl rfl (fun _ => nofun) (fun _ => nofun) (fun _ _ => nofun) (fun _ => id) hs.filter (fun _ => nofun)
        (fun _ => .inl) (fun fp h => ?_) fun x _ norm fp _ _ h => ?_
      · rw [hf] at h
        exact h
      · rw [hf, hp] at h
        exact h.elim nofun (Or.elim · nofun nofun)
    · rw [if_neg he]
      refine hs.update rfl rfl (fun _ => nofun) hs.pending ?_ (fun _ => id) hs.filter (fun _ => nofun)
        (fun _ => .inl) (fun fp h => ?_) fun x _ norm fp _ _ h => ?_
      · rintro todo acc ⟨⟩ fp
        exact Iff.rfl
      · rw [hf] at h
        exact h
      · rw [hf] at h
        exact h.elim (fun h => .inr (.inl h)) (Or.elim · nofun nofun)
  | refuse i obj todo acc e hf hnorm =>
    obtain ⟨norm, hok⟩ := hs.normal obj (hs.todo i obj (by rw [hf]; exact List.mem_cons_self))
    rw [hok] at hnorm
    cases hnorm
  | lookup i obj todo acc norm hf hnorm =>
    have htodo : ∀ x ∈ todo, x ∈ s.puts := fun x hx => hs.todo i x (by rw [hf]; exact List.mem_cons_of_mem obj hx)
    have hseen := hs.seen i (obj :: todo) acc hf
    refine hs.update rfl rfl (fun _ => id) htodo ?_ (fun _ => id) hs.filter (fun _ => nofun) (fun _ => .inl)
      (fun fp h => ?_) fun x _ norm' fp hn' hf' h => ?_
    · rintro _ _ ⟨⟩ fp
      rcases siftOne_cases hst s norm acc with ⟨he, hrows, -⟩ | ⟨new, -, -, -, he, hrows⟩
      · rw [he, hrows.mem_iff]
        exact hseen fp
      · rw [he, hrows.mem_iff, List.mem_cons, List.mem_cons, hseen]
    · rw [hf] at h
      exact h
    · rw [hf] at h
      have hrows : ∀ fp, fp ∈ fingerprints acc.groups.rows ∨ norm.fingerprint = some fp →
          fp ∈ fingerprints (siftOne st s.exactFilter 0 norm acc).groups.rows ∨ fp ∈ fingerprints s.written := by
        intro fp h
        rcases siftOne_cases hst s norm acc with ⟨-, hrows, hdup⟩ | ⟨new, hnew, -, -, -, hrows⟩
        · rw [hrows.mem_iff]
          rcases h with h | h
          · exact .inl h
          · exact (hdup fp h).imp (hseen fp).mp (hs.filter fp)
        · rw [hrows.mem_iff, List.mem_cons]
          exact .inl (h.symm.imp_left fun h => Option.some.inj (h.symm.trans hnew))
      rcases h with h | h | h
      · exact .inl h
      · rcases List.mem_cons.mp h with rfl | h
        · rw [hnorm] at hn'
          cases hn'
          exact .inr (.inr (hrows fp (.inr hf')))
        · exact .inr (.inl h)
      · exact .inr (.inr (hrows fp (.inl h)))
  | sorted i acc hf =>
    refine hs.update rfl rfl (fun _ => id) (fun _ => nofun) (fun _ _ => nofun) (fun _ => id) hs.filter (fun _ => nofun)
      (fun _ => .inl) (fun fp h => ?_) fun x _ norm fp _ _ h => ?_ <;> rw [hf] at h
    · exact h
    · exact h.imp_right (.imp_right .inl)
  | finished i hf =>
    refine hs.update rfl rfl (fun _ => id) (fun _ => nofun) (fun _ _ => nofun) (fun _ => id) hs.filter (fun _ => nofun)
      (fun _ => .inl) (fun fp h => ?_) fun x _ norm fp _ _ h => ?_ <;> rw [hf] at h
    · exact h
    · exact h.imp_right (.imp_right .inl)
  | write i k rows todo hf =>
    have hwritten {fp : String} : fp ∈ fingerprints (s.written ++ rows) ↔
        fp ∈ fingerprints s.written ∨ fp ∈ fingerprints rows := by
      rw [fingerprints_append, List.mem_append]
    refine hs.update rfl rfl (fun _ => id) (fun _ => nofun) (fun _ _ => nofun) (fun fp h => hwritten.mpr (.inl h))
      (fun fp h => hwritten.mpr (.inl (hs.filter fp h))) (fun fp h => hwritten.mpr (.inr h))
      (fun fp h => (hwritten.mp h).imp_right .inr) (fun fp h => ?_) fun x _ norm fp _ _ h => ?_ <;> rw [hf] at h
    · exact h.imp_right nofun
    · rcases h with h | h | h
      · exact .inl h
      · cases h
      · have h : fp ∈ fingerprints (rows ++ todo.flatMap Prod.snd) := h
        rw [fingerprints_append, List.mem_append] at h
        exact .inr (.inr (h.symm.imp_right fun h => hwritten.mpr (.inr h)))
  | record i rows todo hf =>
    refine hs.update rfl rfl (fun _ => id) (fun _ => nofun) (fun _ _ => nofun) (fun _ => id) (fun fp h => ?_)
      (fun _ => nofun) (fun _ => .inl) (fun fp h => ?_) fun x _ norm fp _ _ h => ?_
    · rcases List.mem_append.mp h with h | h
      · exact hs.filter fp h
      · exact hs.behind i fp (by rw [hf]; exact h)
    · rw [hf] at h
      exact .inl (List.mem_append.mpr h)
    · rw [hf] at h
      exact h.imp_right (.imp_right .inl)

/-! ## Written once -/

/-- What holds as long as no lookup lets a fingerprint through that another flush
has. -/
structure Sole (s : ItemFlushes) : Prop where
  once : (fingerprints s.written).Nodup
  ahead : ∀ i, (s.flushes i).ahead.Nodup
  apart : ∀ i j, i ≠ j → ∀ fp ∈ (s.flushes i).ahead, fp ∉ (s.flushes j).ahead
  unwritten : ∀ i, ∀ fp ∈ (s.flushes i).ahead, fp ∉ fingerprints s.written

theorem Sole.update (hs : Sole s) {i : Nat} {f : DedupFlush} (hflushes : t.flushes = Function.update s.flushes i f)
    (hahead : f.ahead.Nodup) (honce : (fingerprints t.written).Nodup)
    (hapart : ∀ fp ∈ f.ahead, (∀ j, j ≠ i → fp ∉ (s.flushes j).ahead) ∧ fp ∉ fingerprints t.written)
    (hother : ∀ j, j ≠ i → ∀ fp ∈ (s.flushes j).ahead, fp ∉ fingerprints t.written) : Sole t := by
  have hself : t.flushes i = f := by rw [hflushes, Function.update_self]
  have hsame {j : Nat} (hj : j ≠ i) : t.flushes j = s.flushes j := by rw [hflushes, Function.update_of_ne hj]
  refine ⟨honce, fun j => ?_, fun j k hjk fp hfp hk => ?_, fun j fp hfp => ?_⟩
  · by_cases hj : j = i
    · rw [hj, hself]
      exact hahead
    · rw [hsame hj]
      exact hs.ahead j
  · by_cases hj : j = i
    · rw [hj, hself] at hfp
      rw [hsame (hj ▸ hjk.symm)] at hk
      exact (hapart fp hfp).1 k (hj ▸ hjk.symm) hk
    · rw [hsame hj] at hfp
      by_cases hki : k = i
      · rw [hki, hself] at hk
        exact (hapart fp hk).1 j hj hfp
      · rw [hsame hki] at hk
        exact hs.apart j k hjk fp hfp hk
  · by_cases hj : j = i
    · rw [hj, hself] at hfp
      exact (hapart fp hfp).2
    · rw [hsame hj] at hfp
      exact hother j hj fp hfp

/-- A flush that lets nothing new through. -/
theorem Sole.same (hs : Sole s) {i : Nat} {f : DedupFlush} (hflushes : t.flushes = Function.update s.flushes i f)
    (hwritten : t.written = s.written) (hahead : f.ahead.Perm (s.flushes i).ahead) : Sole t := by
  refine hs.update hflushes (hahead.nodup_iff.mpr (hs.ahead i)) (hwritten ▸ hs.once) (fun fp hfp => ?_) fun j _ => ?_
  · rw [hwritten]
    have hfp := hahead.mem_iff.mp hfp
    exact ⟨fun j hj => hs.apart i j hj.symm fp hfp, hs.unwritten i fp hfp⟩
  · rw [hwritten]
    exact hs.unwritten j

theorem Sole.step (hst : st.ITEM_FILTER_ENABLE = true) (hsound : Sound lib st s) (hs : Sole s)
    (hg : SoleLookup lib st s a) (h : step lib st s a = some t) : Sole t := by
  cases did h with
  | put => exact ⟨hs.once, hs.ahead, hs.apart, hs.unwritten⟩
  | swap i hf =>
    refine hs.same rfl rfl ?_
    rw [hf]
    split <;> exact .nil
  | refuse i obj todo acc e hf hn =>
    exact hs.update rfl .nil hs.once (fun _ => nofun) fun j _ => hs.unwritten j
  | lookup i obj todo acc norm hf hn =>
    rcases siftOne_cases hst s norm acc with ⟨-, hrows, -⟩ | ⟨fp, hfp, hseen, hfilter, -, hrows⟩
    · refine hs.same rfl rfl ?_
      rw [hf]
      exact hrows
    · have hnew := hg obj todo acc norm fp hf hn hfp hseen hfilter
      have hahead : fp ∉ (s.flushes i).ahead := by
        rw [hf]
        exact fun h => hseen ((hsound.seen i _ acc hf fp).mpr h)
      have hwritten : fp ∉ fingerprints s.written := by
        intro h
        rcases hsound.known fp h with h | ⟨j, h⟩
        · exact hfilter h
        · by_cases hj : j = i
          · rw [hj, hf] at h
            cases h
          · exact (hnew j hj).2 h
      have hacc : (s.flushes i).ahead = fingerprints acc.groups.rows := by rw [hf]; rfl
      rw [hacc] at hahead
      refine hs.update rfl (hrows.nodup_iff.mpr (List.nodup_cons.mpr ⟨hahead, hacc ▸ hs.ahead i⟩)) hs.once
        (fun x hx => ?_) fun j _ => hs.unwritten j
      rcases List.mem_cons.mp (hrows.mem_iff.mp hx) with rfl | hx
      · exact ⟨fun j hj => (hnew j hj).1, hwritten⟩
      · rw [← hacc] at hx
        exact ⟨fun j hj => hs.apart i j hj.symm x hx, hs.unwritten i x hx⟩
  | sorted i acc hf =>
    refine hs.same rfl rfl ?_
    rw [hf]
    exact .refl _
  | finished i hf =>
    refine hs.same rfl rfl ?_
    rw [hf]
    exact .refl _
  | write i k rows todo hf =>
    have hahead : (s.flushes i).ahead = fingerprints rows ++ fingerprints (todo.flatMap Prod.snd) := by
      rw [hf]
      exact fingerprints_append rows (todo.flatMap Prod.snd)
    obtain ⟨hrows, htodo, hdisj⟩ := List.nodup_append'.mp (hahead ▸ hs.ahead i)
    have hmem {fp : String} (h : fp ∈ fingerprints rows) : fp ∈ (s.flushes i).ahead := hahead ▸ List.mem_append_left _ h
    have hwritten {fp : String} (h : fp ∈ fingerprints (s.written ++ rows)) :
        fp ∈ fingerprints s.written ∨ fp ∈ fingerprints rows := by
      rwa [fingerprints_append, List.mem_append] at h
    refine hs.update rfl htodo ?_ (fun fp hfp => ?_) fun j hj fp hfp h => ?_
    · show (fingerprints (s.written ++ rows)).Nodup
      rw [fingerprints_append, List.nodup_append']
      exact ⟨hs.once, hrows, fun fp hw hr => hs.unwritten i fp (hmem hr) hw⟩
    · have hi : fp ∈ (s.flushes i).ahead := hahead ▸ List.mem_append_right _ hfp
      refine ⟨fun j hj => hs.apart i j hj.symm fp hi, fun h => ?_⟩
      exact (hwritten h).elim (hs.unwritten i fp hi) fun hr => hdisj hr hfp
    · exact (hwritten h).elim (hs.unwritten j fp hfp) fun hr => hs.apart j i hj fp hfp (hmem hr)
  | record i rows todo hf =>
    refine hs.same rfl rfl ?_
    rw [hf]
    exact .refl _

/-! ## Written twice -/

/-- How often a fingerprint is written, or is to be by the flushes `i` and `j`. -/
def copies (fp : String) (i j : Nat) (s : ItemFlushes) : Nat :=
  (fingerprints s.written).count fp + (s.flushes i).ahead.count fp + (s.flushes j).ahead.count fp

/-- This does not get less: a flush lets through more, or writes what it has let
through. -/
theorem copies_le (hst : st.ITEM_FILTER_ENABLE = true) (hsound : Sound lib st s) {i j : Nat} (hij : i ≠ j) (fp : String)
    (h : step lib st s a = some t) : copies fp i j s ≤ copies fp i j t := by
  -- the flush `k` makes up for what it takes from what is ahead of it
  have hstep {k : Nat} {f : DedupFlush} (hflushes : t.flushes = Function.update s.flushes k f)
      (hwritten : (fingerprints s.written).count fp ≤ (fingerprints t.written).count fp)
      (hself : (fingerprints s.written).count fp + (s.flushes k).ahead.count fp ≤
        (fingerprints t.written).count fp + f.ahead.count fp) : copies fp i j s ≤ copies fp i j t := by
    unfold copies
    rw [hflushes]
    by_cases hi : i = k
    · rw [hi, Function.update_self, Function.update_of_ne (hi ▸ hij.symm)]
      exact Nat.add_le_add_right hself _
    · rw [Function.update_of_ne hi]
      by_cases hj : j = k
      · rw [hj, Function.update_self]
        omega
      · rw [Function.update_of_ne hj]
        omega
  cases did h with
  | put => exact Nat.le_refl _
  | swap k hf =>
    refine hstep rfl (Nat.le_refl _) ?_
    rw [hf]
    exact Nat.le_add_right _ _
  | refuse k obj todo acc e hf hn =>
    obtain ⟨norm, hok⟩ := hsound.normal obj (hsound.todo k obj (by rw [hf]; exact List.mem_cons_self))
    rw [hok] at hn
    cases hn
  | lookup k obj todo acc norm hf hn =>
    refine hstep rfl (Nat.le_refl _) (Nat.add_le_add_left ?_ _)
    rw [hf]
    rcases siftOne_cases hst s norm acc with ⟨-, hrows, -⟩ | ⟨new, -, -, -, -, hrows⟩
    · exact (hrows.count_eq fp).ge
    · refine Nat.le_trans ?_ (hrows.count_eq fp).ge
      exact List.count_le_count_cons
  | sorted k acc hf =>
    refine hstep rfl (Nat.le_refl _) ?_
    rw [hf]
    exact Nat.le_refl _
  | finished k hf =>
    refine hstep rfl (Nat.le_refl _) ?_
    rw [hf]
    exact Nat.le_refl _
  | write k key rows todo hf =>
    have hwritten : (fingerprints (s.written ++ rows)).count fp =
        (fingerprints s.written).count fp + (fingerprints rows).count fp := by
      rw [fingerprints_append, List.count_append]
    have hahead : (s.flushes k).ahead.count fp =
        (fingerprints rows).count fp + (fingerprints (todo.flatMap Prod.snd)).count fp := by
      rw [hf, ← List.count_append, ← fingerprints_append]
      rfl
    refine hstep rfl (hwritten ▸ Nat.le_add_right _ _) ?_
    rw [hahead, ← Nat.add_assoc, ← hwritten]
    exact Nat.le_refl _
  | record k rows todo hf =>
    refine hstep rfl (Nat.le_refl _) ?_
    rw [hf]
    exact Nat.le_refl _

/-! ## Runs to the end -/

/-- Nothing waits and no flush is under way. -/
def Quiet (s : ItemFlushes) : Prop := s.pending = [] ∧ ∀ i, s.flushes i = .idle

theorem sound_init : Sound lib st {} where
  normal _ h := absurd h List.not_mem_nil
  pending _ h := absurd h List.not_mem_nil
  todo _ _ h := absurd h List.not_mem_nil
  seen _ _ _ := nofun
  filter _ h := absurd h List.not_mem_nil
  behind _ _ h := absurd h List.not_mem_nil
  known _ h := absurd h List.not_mem_nil
  kept _ h := absurd h List.not_mem_nil

theorem sole_init : Sole {} where
  once := .nil
  ahead _ := .nil
  apart _ _ _ _ h := absurd h List.not_mem_nil
  unwritten _ _ h := absurd h List.not_mem_nil

theorem sound_run (hst : st.ITEM_FILTER_ENABLE = true) {as : List DedupAct} (hput : ∀ a ∈ as, Normal lib st a)
    (he : (itemFlushMachine lib st).exec s as = some t) (hs : Sound lib st s) : Sound lib st t :=
  Machine.Meets.preserves (G := fun _ a => Normal lib st a) (fun _ _ _ hs hn h => hs.step hst hn h)
    (Machine.Meets.of_forall (fun a ha _ => hput a ha) s) he hs

/-- The copies of a fingerprint that another flush has, when it is let through. -/
theorem copies_two (hst : st.ITEM_FILTER_ENABLE = true) (hsound : Sound lib st s) (hg : ¬ SoleLookup lib st s a)
    (h : step lib st s a = some t) :
    ∃ obj ∈ s.puts, ∃ norm fp i j, normalize lib st obj = .ok norm ∧ norm.fingerprint = some fp ∧ i ≠ j ∧
      2 ≤ copies fp i j t := by
  cases a with
  | lookup i =>
    simp only [SoleLookup, not_forall] at hg
    obtain ⟨obj, todo, acc, norm, fp, hf, hn, hfp, hseen, hfilter, j, hj, hor⟩ := hg
    refine ⟨obj, hsound.todo i obj (by rw [hf]; exact List.mem_cons_self), norm, fp, i, j, hn, hfp, hj.symm, ?_⟩
    have hother : 1 ≤ (fingerprints s.written).count fp + (s.flushes j).ahead.count fp := by
      by_cases hahead : fp ∈ (s.flushes j).ahead
      · exact Nat.le_add_left_of_le (List.one_le_count_iff.mpr hahead)
      · have hbehind : fp ∈ (s.flushes j).behind := not_not.mp fun h => hor ⟨hahead, h⟩
        exact Nat.le_add_right_of_le (List.one_le_count_iff.mpr (hsound.behind j fp hbehind))
    have hself : t = s.setFlush i (.sifting todo (siftOne st s.exactFilter 0 norm acc)) := by
      simp only [step, hf, hn] at h
      exact (Option.some.inj h).symm
    have hrows : 1 ≤ (fingerprints (siftOne st s.exactFilter 0 norm acc).groups.rows).count fp := by
      rcases siftOne_cases hst s norm acc with ⟨-, -, hdup⟩ | ⟨new, hnew, -, -, -, hrows⟩
      · exact absurd (hdup fp hfp) (not_or.mpr ⟨hseen, hfilter⟩)
      · rw [hrows.count_eq, Option.some.inj (hfp.symm.trans hnew), List.count_cons_self]
        exact Nat.le_add_left 1 _
    unfold copies
    rw [hself, setFlush_self, setFlush_of_ne hj]
    have hrows : 1 ≤ (DedupFlush.sifting todo (siftOne st s.exactFilter 0 norm acc)).ahead.count fp := hrows
    show 2 ≤ (fingerprints s.written).count fp + _ + _
    omega
  | put | swap | next | write | record => exact absurd trivial hg

theorem copies_run (hst : st.ITEM_FILTER_ENABLE = true) {as : List DedupAct} (hput : ∀ a ∈ as, Normal lib st a)
    (he : (itemFlushMachine lib st).exec s as = some t) (hs : Sound lib st s) {i j : Nat} (hij : i ≠ j) (fp : String) :
    copies fp i j s ≤ copies fp i j t ∧ ∀ obj ∈ s.puts, obj ∈ t.puts := by
  have hrun := Machine.Meets.preserves (G := fun _ a => Normal lib st a)
    (I := fun u => Sound lib st u ∧ copies fp i j s ≤ copies fp i j u ∧ ∀ obj ∈ s.puts, obj ∈ u.puts)
    (fun u a v hu hn h => ⟨hu.1.step hst hn h, hu.2.1.trans (copies_le hst hu.1 hij fp h), fun obj hobj => ?_⟩)
    (Machine.Meets.of_forall (fun a ha _ => hput a ha) s) he ⟨hs, Nat.le_refl _, fun _ => id⟩
  · exact hrun.2
  · have hobj := hu.2.2 obj hobj
    cases did h with
    | put => exact List.mem_append_left _ hobj
    | swap | refuse | lookup | sorted | finished | write | record => exact hobj

/-- In a run to the end in which all objects that are put can be normalised, every
fingerprint is written exactly once, if and only if no lookup lets one through
that another flush has. -/
theorem written_once_iff (lib : Stdlib) (st : Setting) (hst : st.ITEM_FILTER_ENABLE = true) (as : List DedupAct)
    (hput : ∀ a ∈ as, Normal lib st a) {s : ItemFlushes} (he : (itemFlushMachine lib st).exec {} as = some s)
    (hquiet : s.Quiet) :
    (∀ obj ∈ s.puts, ∀ norm fp, normalize lib st obj = .ok norm → norm.fingerprint = some fp →
        (fingerprints s.written).count fp = 1) ↔
      (itemFlushMachine lib st).Meets (SoleLookup lib st) {} as := by
  constructor
  · intro hall
    refine Machine.meets_iff.mpr fun xs a ys u has hxs => ?_
    by_contra hg
    rw [has, Machine.exec_append, hxs, Option.bind_some, Machine.exec_cons] at he
    obtain ⟨v, hv, hys⟩ := Option.bind_eq_some_iff.mp he
    have hsplit {b : DedupAct} (hb : b ∈ xs ∨ b = a ∨ b ∈ ys) : Normal lib st b := by
      refine hput b ?_
      rw [has, List.mem_append, List.mem_cons]
      exact hb
    have hu := sound_run hst (fun b hb => hsplit (.inl hb)) hxs sound_init
    have hsv := hu.step hst (hsplit (.inr (.inl rfl))) hv
    obtain ⟨obj, hobj, norm, fp, i, j, hn, hf, hij, htwo⟩ := copies_two hst hu hg hv
    obtain ⟨hle, hputs⟩ := copies_run hst (fun b hb => hsplit (.inr (.inr hb))) hys hsv hij fp
    have hmem : obj ∈ v.puts := by
      cases did hv with
      | put => exact List.mem_append_left _ hobj
      | swap | refuse | lookup | sorted | finished | write | record => exact hobj
    have hone := hall obj (hputs obj hmem) norm fp hn hf
    unfold copies at hle htwo
    rw [hquiet.2 i, hquiet.2 j, hone] at hle
    have hle : _ ≤ 1 + 0 + 0 := hle
    omega
  · intro hmeets
    have hboth : (itemFlushMachine lib st).Meets (fun u a => Normal lib st a ∧ SoleLookup lib st u a) {} as := by
      refine Machine.meets_iff.mpr fun xs a ys u has hxs => ⟨hput a ?_, Machine.meets_iff.mp hmeets xs a ys u has hxs⟩
      rw [has]
      exact List.mem_append_right xs List.mem_cons_self
    have hs : Sound lib st s ∧ Sole s := hboth.preserves (I := fun u => Sound lib st u ∧ Sole u)
      (fun _ _ _ hu hg h => ⟨hu.1.step hst hg.1 h, hu.2.step hst hu.1 hg.2 h⟩) he ⟨sound_init, sole_init⟩
    intro obj hobj norm fp hn hf
    refine List.count_eq_one_of_mem hs.2.once ?_
    rcases hs.1.kept obj hobj norm fp hn hf with h | ⟨i, h⟩ | ⟨i, h⟩ | h
    · rw [hquiet.1] at h
      cases h
    · rw [hquiet.2 i] at h
      cases h
    · rw [hquiet.2 i] at h
      cases h
    · exact h

/-! ## An item that comes twice -/

/-- The standard library on `priceOnce`. -/
def priceLib : Stdlib where
  urlsplit url := .ok ⟨"", "", url, "", ""⟩
  parseQsl _ := []
  urlencode _ := ""
  urlunsplit p := p.path
  dumpsSorted _ := .ok "\x7b\x7d"
  str _ := ""
  repr
    | .int i => toString i
    | _ => ""
  md5 text := if text = "price|id=7|price=100" then "57242703008adb62da6d5dc71cb058f8" else text
  lower text := text

def priceOnce : Obj := .item
  { cls := { name := "PriceItem", tableName := some "price" }
    inst := { attrs := [("id", .int 7), ("price", .int 100)] } }

def priceNorm : Norm :=
  ⟨"price", false, [("id", .int 7), ("price", .int 100)], some "57242703008adb62da6d5dc71cb058f8", [], none⟩

theorem normalize_priceOnce : normalize priceLib {} priceOnce = .ok priceNorm := by rfl

/-- Two threads put it and flush it, and both look it up before one has recorded it. -/
def flushTogether : List DedupAct :=
  [.put priceOnce, .swap 0, .put priceOnce, .swap 1, .lookup 0, .lookup 1, .next 0, .next 1,
    .write 0, .write 1, .record 0, .record 1, .next 0, .next 1]

/-- A flush is its thread's own. -/
theorem flushes_run {as : List DedupAct} (he : (itemFlushMachine lib st).exec s as = some t) {i : Nat}
    (hi : ∀ a ∈ as, a.thread ≠ some i) : t.flushes i = s.flushes i := by
  refine Machine.Meets.preserves (G := fun _ a => a.thread ≠ some i) (I := fun u => u.flushes i = s.flushes i) ?_
    (Machine.Meets.of_forall (fun a ha _ => hi a ha) s) he rfl
  intro u a v hu hg h
  rw [← hu]
  cases did h with
  | put => rfl
  | swap | refuse | lookup | sorted | finished | write | record =>
      exact setFlush_of_ne (fun h => hg (congrArg some h.symm)) _ _

/-- The two threads come to the end of it, and write the item twice. -/
theorem flushTogether_ran :
    ∃ s, (itemFlushMachine priceLib {}).exec {} flushTogether = some s ∧ s.Quiet ∧ s.puts = [priceOnce, priceOnce] ∧
      s.written = [priceNorm, priceNorm] := by
  have hran : ((itemFlushMachine priceLib {}).exec {} flushTogether).map
      (fun s => (s.written, s.puts, s.pending, s.flushes 0, s.flushes 1)) =
        some ([priceNorm, priceNorm], [priceOnce, priceOnce], [], .idle, .idle) := by rfl
  obtain ⟨s, he, hs⟩ := Option.map_eq_some_iff.mp hran
  obtain ⟨hwritten, hs⟩ := Prod.mk.inj hs
  obtain ⟨hputs, hs⟩ := Prod.mk.inj hs
  obtain ⟨hpending, hs⟩ := Prod.mk.inj hs
  obtain ⟨hzero, hone⟩ := Prod.mk.inj hs
  refine ⟨s, he, ⟨hpending, fun i => ?_⟩, hputs, hwritten⟩
  match i with
  | 0 => exact hzero
  | 1 => exact hone
  | i + 2 => rw [flushes_run he (by simp [flushTogether, DedupAct.thread])]

/-- The item is written twice: the second flush looks it up before the first one has
recorded it. -/
theorem flushTogether_writes_twice :
    ∃ s, (itemFlushMachine priceLib {}).exec {} flushTogether = some s ∧ s.Quiet ∧
      ∃ obj ∈ s.puts, ∃ norm fp, normalize priceLib {} obj = .ok norm ∧ norm.fingerprint = some fp ∧
        (fingerprints s.written).count fp = 2 := by
  obtain ⟨s, he, hquiet, hputs, hwritten⟩ := flushTogether_ran
  refine ⟨s, he, hquiet, priceOnce, ?_, priceNorm, "57242703008adb62da6d5dc71cb058f8", normalize_priceOnce, rfl, ?_⟩
  · rw [hputs]
    exact List.mem_cons_self
  · rw [hwritten]
    decide

theorem written_once_iff_flushTogether :
    ∃ s, (itemFlushMachine priceLib {}).exec {} flushTogether = some s ∧
      ((∀ obj ∈ s.puts, ∀ norm fp, normalize priceLib {} obj = .ok norm → norm.fingerprint = some fp →
          (fingerprints s.written).count fp = 1) ↔
        (itemFlushMachine priceLib {}).Meets (SoleLookup priceLib {}) {} flushTogether) := by
  obtain ⟨s, he, hquiet, -⟩ := flushTogether_ran
  refine ⟨s, he, written_once_iff priceLib {} rfl flushTogether ?_ he hquiet⟩
  simp only [flushTogether, List.forall_mem_cons, Normal, List.not_mem_nil, false_implies, implies_true, and_true,
    true_and, and_self]
  exact ⟨_, normalize_priceOnce⟩

end ItemFlushes

end Netspy
