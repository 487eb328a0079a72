import Mathlib.Data.List.Nodup
import Mathlib.Data.List.Range
import Netspy.Framework.Lru
import Netspy.Framework.Machine

/-!
# Objects that are made once

A cache that threads fill by double-checked locking, and that may be emptied. A call first
reads without the lock. Where it misses, it takes the lock, reads again, and if it misses
again makes the object, with the lock held. `take` empties the cache under the lock, and
its thread then closes what it took, one after another. An exception of a `close` ends
that, unless it is suppressed.

`key` is where the cache is looked at for the argument of a call. An object is its number
in `made`, which has the argument of the call that made it. `taken`, `returned` and
`closed` record what happened; no step depends on them. A call has the number of takes
before it (`since`), and never returns what was taken by one of those (`Kept.returns`).
-/

universe u v

/-- How far a thread is. -/
inductive OnceCall (ρ : Type u) where
  | missed (arg : ρ) (since : Nat)
  | making (arg : ρ) (since : Nat)
  | closing (left : List Nat)
  deriving DecidableEq

structure OnceReturn (ρ : Type u) where
  arg : ρ
  object : Nat
  since : Nat
  deriving DecidableEq

structure Once (ρ : Type u) (κ : Type v) where
  items : List (κ × Nat) := []
  /-- The thread that makes an object. -/
  lock : Option Nat := none
  calls : Nat → Option (OnceCall ρ) := fun _ => none
  made : List ρ := []
  taken : List (List Nat) := []
  returned : List (OnceReturn ρ) := []
  closed : List Nat := []

inductive OnceAct (ρ : Type u) where
  | get (i : Nat) (arg : ρ)
  | enter (i : Nat)
  | make (i : Nat) (raises : Bool)
  | take (i : Nat)
  | close (i : Nat) (raises : Bool)
  | finish (i : Nat)
  deriving DecidableEq

namespace Once

variable {ρ : Type u} {κ : Type v}

def setCall (s : Once ρ κ) (i : Nat) (c : Option (OnceCall ρ)) : Once ρ κ :=
  { s with calls := Function.update s.calls i c }

/-- The call of the thread `i` returns. -/
def answer (s : Once ρ κ) (i : Nat) (arg : ρ) (object since : Nat) : Once ρ κ :=
  { s.setCall i none with returned := s.returned ++ [⟨arg, object, since⟩] }

section Step

variable [DecidableEq κ] (key : ρ → κ) (suppress : Bool)

def step (s : Once ρ κ) : OnceAct ρ → Option (Once ρ κ)
  | .get i arg =>
    match s.calls i, s.items.lookup (key arg) with
    | none, some object => some (s.answer i arg object s.taken.length)
    | none, none => some (s.setCall i (some (.missed arg s.taken.length)))
    | some _, _ => none
  | .enter i =>
    match s.calls i, s.lock with
    | some (.missed arg since), none =>
      match s.items.lookup (key arg) with
      | some object => some (s.answer i arg object since)
      | none => some { s.setCall i (some (.making arg since)) with lock := some i }
    | _, _ => none
  | .make i raises =>
    match s.calls i with
    | some (.making arg since) =>
      if raises then some { s.setCall i none with lock := none }
      else
        some { s.answer i arg s.made.length since with
          items := s.items ++ [(key arg, s.made.length)]
          made := s.made ++ [arg]
          lock := none }
    | _ => none
  | .take i =>
    match s.calls i, s.lock with
    | none, none =>
      some { s.setCall i (some (.closing (s.items.map Prod.snd))) with
        items := []
        taken := s.taken ++ [s.items.map Prod.snd] }
    | _, _ => none
  | .close i raises =>
    match s.calls i with
    | some (.closing (object :: left)) =>
      some { s.setCall i (if raises && !suppress then none else some (.closing left)) with
        closed := s.closed ++ [object] }
    | _ => none
  | .finish i =>
    match s.calls i with
    | some (.closing []) => some (s.setCall i none)
    | _ => none

def machine : Machine (Once ρ κ) (OnceAct ρ) where
  start s := s = {}
  step := step key suppress

end Step

/-! ## What a step does -/

variable {key : ρ → κ} {suppress : Bool} {s t : Once ρ κ} {a : OnceAct ρ}

/-- Everything that a step can do. -/
inductive Stepped (key : ρ → κ) (suppress : Bool) (s : Once ρ κ) : OnceAct ρ → Once ρ κ → Prop
  | found (a : OnceAct ρ) (i : Nat) (arg : ρ) (object since : Nat) (ha : a = .get i arg ∨ a = .enter i)
      (hitem : (key arg, object) ∈ s.items)
      (hcall : s.calls i = none ∧ since = s.taken.length ∨ s.calls i = some (.missed arg since)) :
      Stepped key suppress s a (s.answer i arg object since)
  | missed (i : Nat) (arg : ρ) (hcall : s.calls i = none) :
      Stepped key suppress s (.get i arg) (s.setCall i (some (.missed arg s.taken.length)))
  | entered (i : Nat) (arg : ρ) (since : Nat) (hcall : s.calls i = some (.missed arg since)) (hlock : s.lock = none)
      (hitem : key arg ∉ s.items.map Prod.fst) :
      Stepped key suppress s (.enter i) { s.setCall i (some (.making arg since)) with lock := some i }
  | made (i : Nat) (arg : ρ) (since : Nat) (hcall : s.calls i = some (.making arg since)) :
      Stepped key suppress s (.make i false) { s.answer i arg s.made.length since with
        items := s.items ++ [(key arg, s.made.length)]
        made := s.made ++ [arg]
        lock := none }
  | raised (i : Nat) (arg : ρ) (since : Nat) (hcall : s.calls i = some (.making arg since)) :
      Stepped key suppress s (.make i true) { s.setCall i none with lock := none }
  | took (i : Nat) (hcall : s.calls i = none) (hlock : s.lock = none) :
      Stepped key suppress s (.take i) { s.setCall i (some (.closing (s.items.map Prod.snd))) with
        items := []
        taken := s.taken ++ [s.items.map Prod.snd] }
  | closed (i : Nat) (raises : Bool) (object : Nat) (left : List Nat)
      (hcall : s.calls i = some (.closing (object :: left))) :
      Stepped key suppress s (.close i raises)
        { s.setCall i (some (.closing left)) with closed := s.closed ++ [object] }
  | stopped (i : Nat) (object : Nat) (left : List Nat) (hcall : s.calls i = some (.closing (object :: left)))
      (hsuppress : suppress = false) :
      Stepped key suppress s (.close i true) { s.setCall i none with closed := s.closed ++ [object] }
  | finished (i : Nat) (hcall : s.calls i = some (.closing [])) :
      Stepped key suppress s (.finish i) (s.setCall i none)

theorem step_cases [DecidableEq κ] (h : s.step key suppress a = some t) : Stepped key suppress s a t := by
  cases a with
  | get i arg =>
    simp only [step] at h
    split at h
    next object hcall hitem =>
      cases h
      exact .found _ i arg object _ (.inl rfl) (Lru.mem_of_lookup hitem) (.inl ⟨hcall, rfl⟩)
    next hcall hitem =>
      cases h
      exact .missed i arg hcall
    next => cases h
  | enter i =>
    simp only [step] at h
    split at h
    next arg since hcall hlock =>
      split at h
      next object hitem =>
        cases h
        exact .found _ i arg object since (.inr rfl) (Lru.mem_of_lookup hitem) (.inr hcall)
      next hitem =>
        cases h
        exact .entered i arg since hcall hlock (Lru.lookup_eq_none_iff.mp hitem)
    next => cases h
  | make i raises =>
    simp only [step] at h
    split at h
    next arg since hcall =>
      cases raises with
      | true =>
        cases h
        exact .raised i arg since hcall
      | false =>
        cases h
        exact .made i arg since hcall
    next => cases h
  | take i =>
    simp only [step] at h
    split at h
    next hcall hlock =>
      cases h
      exact .took i hcall hlock
    next => cases h
  | close i raises =>
    simp only [step] at h
    split at h
    next object left hcall =>
      split at h
      next hr =>
        obtain ⟨rfl, hs⟩ := Bool.and_eq_true_iff.mp hr
        cases h
        exact .stopped i object left hcall (by simpa using hs)
      next =>
        cases h
        exact .closed i raises object left hcall
    next => cases h
  | finish i =>
    simp only [step] at h
    split at h
    next hcall =>
      cases h
      exact .finished i hcall
    next => cases h

/-! ## What is returned -/

/-- The object was taken out of the cache. -/
def Gone (s : Once ρ κ) (object : Nat) : Prop := object ∈ s.taken.flatten

/-- What the call returned was taken before the call began. -/
def Stale (s : Once ρ κ) (r : OnceReturn ρ) : Prop := r.object ∈ (s.taken.take r.since).flatten

/-- What a call returns was made for its key, and was in the cache when it began or later. -/
def Serves (key : ρ → κ) (s : Once ρ κ) (r : OnceReturn ρ) : Prop :=
  r.since ≤ s.taken.length ∧ (∃ arg, s.made[r.object]? = some arg ∧ key arg = key r.arg) ∧ ¬ s.Stale r

structure Kept (key : ρ → κ) (s : Once ρ κ) : Prop where
  keys : (s.items.map Prod.fst).Nodup
  built : ∀ e ∈ s.items, ∃ arg, s.made[e.2]? = some arg ∧ key arg = e.1
  /-- An object is in the cache, or one take has it. -/
  places : (s.items.map Prod.snd ++ s.taken.flatten).Perm (List.range s.made.length)
  making : ∀ i arg since, s.calls i = some (.making arg since) → s.lock = some i ∧ key arg ∉ s.items.map Prod.fst
  since : ∀ i arg since, s.calls i = some (.missed arg since) ∨ s.calls i = some (.making arg since) →
    since ≤ s.taken.length
  returns : ∀ r ∈ s.returned, Serves key s r

theorem Stale.gone {r : OnceReturn ρ} (h : s.Stale r) : s.Gone r.object := by
  obtain ⟨xs, hxs, ho⟩ := List.mem_flatten.mp h
  exact List.mem_flatten.mpr ⟨xs, List.mem_of_mem_take hxs, ho⟩

theorem Serves.mono {r : OnceReturn ρ} (h : Serves key s r) (hm : ∃ made, t.made = s.made ++ made)
    (ht : ∃ taken, t.taken = s.taken ++ taken) : Serves key t r := by
  obtain ⟨hle, ⟨arg, harg, hk⟩, hn⟩ := h
  obtain ⟨made, hm⟩ := hm
  obtain ⟨taken, ht⟩ := ht
  refine ⟨?_, ⟨arg, ?_, hk⟩, ?_⟩
  · rw [ht, List.length_append]
    omega
  · rw [hm, List.getElem?_append_left (List.getElem?_eq_some_iff.mp harg).1, harg]
  · rwa [Stale, ht, List.take_append_of_le_length hle]

theorem call_cases {i j : Nat} {c : Option (OnceCall ρ)} {x : OnceCall ρ} (h : (s.setCall i c).calls j = some x) :
    j = i ∧ c = some x ∨ j ≠ i ∧ s.calls j = some x :=
  Calls.update_eq_some h

namespace Kept

theorem nodup (h : Kept key s) : (s.items.map Prod.snd ++ s.taken.flatten).Nodup :=
  h.places.nodup_iff.mpr List.nodup_range

/-- What is in the cache was not taken. -/
theorem current (h : Kept key s) {k : κ} {object : Nat} (hitem : (k, object) ∈ s.items) : ¬ s.Gone object :=
  fun ht => (List.nodup_append.mp h.nodup).2.2 object (List.mem_map_of_mem (f := Prod.snd) hitem) object ht rfl

theorem lt_made (h : Kept key s) {object : Nat} (ho : s.Gone object) : object < s.made.length :=
  List.mem_range.mp (h.places.mem_iff.mp (List.mem_append_right _ ho))

/-- The making thread is the only one. -/
theorem making_unique (h : Kept key s) {i j : Nat} {arg arg' : ρ} {since since' : Nat}
    (hi : s.calls i = some (.making arg since)) (hj : s.calls j = some (.making arg' since')) : j = i := by
  have hlock := (h.making i arg since hi).1
  rw [(h.making j arg' since' hj).1] at hlock
  exact Option.some.inj hlock

/-- A call that ends, and one that misses. -/
theorem setCall (h : Kept key s) (i : Nat) {c : Option (OnceCall ρ)}
    (hm : ∀ arg since, c ≠ some (.making arg since))
    (hs : ∀ arg since, c = some (.missed arg since) → since ≤ s.taken.length) :
    Kept key (s.setCall i c) where
  keys := h.keys
  built := h.built
  places := h.places
  making j arg since hj := by
    obtain ⟨-, hc⟩ | ⟨-, hj⟩ := call_cases hj
    · exact absurd hc (hm arg since)
    · exact h.making j arg since hj
  since j arg since hj := by
    rcases hj with hj | hj
    · obtain ⟨-, hc⟩ | ⟨-, hj⟩ := call_cases hj
      · exact hs arg since hc
      · exact h.since j arg since (.inl hj)
    · obtain ⟨-, hc⟩ | ⟨-, hj⟩ := call_cases hj
      · exact absurd hc (hm arg since)
      · exact h.since j arg since (.inr hj)
  returns := h.returns

theorem step (h : Kept key s) (ht : Stepped key suppress s a t) : Kept key t := by
  cases ht with
  | found a i arg object since ha hitem hcall =>
    have hk := h.setCall i (c := none) (by simp) (by simp)
    have hle : since ≤ s.taken.length := hcall.elim (fun hc => hc.2.le) fun hc => h.since i arg since (.inl hc)
    obtain ⟨arg', hmade, hkey⟩ := h.built _ hitem
    refine { hk with returns := fun r hr => ?_ }
    rcases List.mem_append.mp hr with hr | hr
    · exact h.returns r hr
    · cases List.mem_singleton.mp hr
      exact ⟨hle, ⟨arg', hmade, hkey⟩, fun ho => h.current hitem ho.gone⟩
  | missed i arg hcall =>
    refine h.setCall i (by simp) fun arg' since hc => ?_
    cases hc
    exact le_rfl
  | entered i arg since hcall hlock hitem =>
    refine { keys := h.keys, built := h.built, places := h.places, making := ?_, since := ?_, returns := h.returns }
    · intro j arg' since' hj
      obtain ⟨rfl, hc⟩ | ⟨-, hj⟩ := call_cases (s := s) (i := i) hj
      · cases hc
        exact ⟨rfl, hitem⟩
      · exact absurd ((h.making j arg' since' hj).1.symm.trans hlock) (by simp)
    · intro j arg' since' hj
      have hle := h.since i arg since (.inl hcall)
      rcases hj with hj | hj
      · obtain ⟨-, hc⟩ | ⟨-, hj⟩ := call_cases (s := s) (i := i) hj
        · cases hc
        · exact h.since j arg' since' (.inl hj)
      · obtain ⟨-, hc⟩ | ⟨-, hj⟩ := call_cases (s := s) (i := i) hj
        · cases hc
          exact hle
        · exact h.since j arg' since' (.inr hj)
  | made i arg since hcall =>
    have hle := h.since i arg since (.inr hcall)
    have hnew := (h.making i arg since hcall).2
    refine { keys := ?_, built := ?_, places := ?_, making := ?_, since := ?_, returns := ?_ }
    · rw [List.map_append, List.nodup_append]
      refine ⟨h.keys, List.nodup_singleton _, fun k hk k' hk' he => hnew ?_⟩
      rw [List.map_singleton, List.mem_singleton] at hk'
      rwa [he, hk'] at hk
    · intro e he
      rcases List.mem_append.mp he with he | he
      · obtain ⟨arg', hmade, hkey⟩ := h.built e he
        exact ⟨arg', (List.getElem?_append_left (List.getElem?_eq_some_iff.mp hmade).1).trans hmade, hkey⟩
      · cases List.mem_singleton.mp he
        exact ⟨arg, List.getElem?_concat_length, rfl⟩
    · rw [List.map_append, List.append_assoc, List.length_append, List.length_singleton, List.range_succ]
      have hp : (s.items.map Prod.snd ++ ([s.made.length] ++ s.taken.flatten)).Perm
          ((s.items.map Prod.snd ++ s.taken.flatten) ++ [s.made.length]) := by
        rw [List.append_assoc]
        exact List.perm_append_comm.append_left _
      exact hp.trans (h.places.append_right _)
    · intro j arg' since' hj
      obtain ⟨-, hc⟩ | ⟨hne, hj⟩ := call_cases (s := s) (i := i) hj
      · cases hc
      · exact absurd (h.making_unique hcall hj) hne
    · intro j arg' since' hj
      rcases hj with hj | hj
      · obtain ⟨-, hc⟩ | ⟨-, hj⟩ := call_cases (s := s) (i := i) hj
        · cases hc
        · exact h.since j arg' since' (.inl hj)
      · obtain ⟨-, hc⟩ | ⟨-, hj⟩ := call_cases (s := s) (i := i) hj
        · cases hc
        · exact h.since j arg' since' (.inr hj)
    · intro r hr
      rcases List.mem_append.mp hr with hr | hr
      · exact (h.returns r hr).mono ⟨_, rfl⟩ ⟨[], (List.append_nil _).symm⟩
      · cases List.mem_singleton.mp hr
        refine ⟨hle, ⟨arg, List.getElem?_concat_length, rfl⟩, fun ho => ?_⟩
        exact Nat.lt_irrefl _ (h.lt_made (Stale.gone ho))
  | raised i arg since hcall =>
    have hk := h.setCall i (c := none) (by simp) (by simp)
    refine { hk with making := fun j arg' since' hj => ?_ }
    obtain ⟨-, hc⟩ | ⟨hne, hj⟩ := call_cases (s := s) (i := i) hj
    · cases hc
    · exact absurd (h.making_unique hcall hj) hne
  | took i hcall hlock =>
    refine { keys := List.nodup_nil, built := by simp, places := ?_, making := ?_, since := ?_, returns := ?_ }
    · rw [List.map_nil, List.nil_append, List.flatten_append, List.flatten_singleton]
      exact List.perm_append_comm.trans h.places
    · intro j arg since hj
      obtain ⟨-, hc⟩ | ⟨-, hj⟩ := call_cases (s := s) (i := i) hj
      · cases hc
      · exact absurd ((h.making j arg since hj).1.symm.trans hlock) (by simp)
    · intro j arg since hj
      rw [List.length_append]
      refine Nat.le_add_right_of_le ?_
      rcases hj with hj | hj
      · obtain ⟨-, hc⟩ | ⟨-, hj⟩ := call_cases (s := s) (i := i) hj
        · cases hc
        · exact h.since j arg since (.inl hj)
      · obtain ⟨-, hc⟩ | ⟨-, hj⟩ := call_cases (s := s) (i := i) hj
        · cases hc
        · exact h.since j arg since (.inr hj)
    · exact fun r hr => (h.returns r hr).mono ⟨[], (List.append_nil _).symm⟩ ⟨_, rfl⟩
  | closed i raises object left hcall =>
    have hk := h.setCall i (c := some (.closing left)) (by simp) (by simp)
    exact { hk with }
  | stopped i object left hcall hsuppress =>
    have hk := h.setCall i (c := none) (by simp) (by simp)
    exact { hk with }
  | finished i hcall => exact h.setCall i (by simp) (by simp)

end Kept

theorem kept [DecidableEq κ] (h : (machine key suppress).Reachable s) : Kept key s := by
  refine h.induct (fun s hs => ?_) fun s a t hs _ ht => hs.step (step_cases ht)
  cases hs
  exact ⟨List.nodup_nil, by simp, List.Perm.refl _, by simp, by simp, by simp⟩

/-- An object that was not taken is in the cache. -/
theorem Kept.cached (h : Kept key s) {object : Nat} {arg : ρ} (hmade : s.made[object]? = some arg)
    (ho : ¬ s.Gone object) : (key arg, object) ∈ s.items := by
  have hlt := (List.getElem?_eq_some_iff.mp hmade).1
  rcases List.mem_append.mp (h.places.mem_iff.mpr (List.mem_range.mpr hlt)) with hitem | ht
  · obtain ⟨⟨k, o⟩, hmem, rfl⟩ := List.mem_map.mp hitem
    obtain ⟨arg', hmade', rfl⟩ := h.built _ hmem
    cases hmade.symm.trans hmade'
    exact hmem
  · exact absurd ht ho

/-- Of the objects that were not taken each key has one. -/
theorem Kept.unique (h : Kept key s) {o o' : Nat} {arg arg' : ρ} (hmade : s.made[o]? = some arg)
    (hmade' : s.made[o']? = some arg') (ho : ¬ s.Gone o) (ho' : ¬ s.Gone o') (hk : key arg = key arg') : o = o' :=
  congrArg Prod.snd (List.inj_on_of_nodup_map h.keys (h.cached hmade ho) (h.cached hmade' ho') hk)

/-- Two calls for one key get one object, unless one of the two was taken. -/
theorem Kept.same (h : Kept key s) {r r' : OnceReturn ρ} (hr : r ∈ s.returned) (hr' : r' ∈ s.returned)
    (hk : key r.arg = key r'.arg) (ho : ¬ s.Gone r.object) (ho' : ¬ s.Gone r'.object) : r.object = r'.object := by
  obtain ⟨-, ⟨arg, hmade, hkey⟩, -⟩ := h.returns r hr
  obtain ⟨-, ⟨arg', hmade', hkey'⟩, -⟩ := h.returns r' hr'
  exact h.unique hmade hmade' ho ho' (hkey.trans (hk.trans hkey'.symm))

/-- Only a take takes. -/
theorem taken_of_step (h : Stepped key suppress s a t) (ha : ∀ i, a ≠ .take i) : t.taken = s.taken := by
  cases h with
  | took i hcall hlock => exact absurd rfl (ha i)
  | found | missed | entered | made | raised | closed | stopped | finished => rfl

/-! ## What is closed -/

/-- What was taken is closed once, or its taker has it left to close. -/
structure Closes (s : Once ρ κ) : Prop where
  nodup : s.closed.Nodup
  closed : ∀ object ∈ s.closed, s.Gone object
  left : ∀ i left, s.calls i = some (.closing left) →
    left.Nodup ∧ (∀ object ∈ left, s.Gone object) ∧ List.Disjoint left s.closed
  apart : ∀ i j left left', i ≠ j → s.calls i = some (.closing left) → s.calls j = some (.closing left') →
    List.Disjoint left left'

namespace Closes

/-- A call that is over, or has less left to close. -/
theorem setCall (h : Closes s) (i : Nat) {c : Option (OnceCall ρ)}
    (hc : ∀ left, c = some (.closing left) → ∃ left', s.calls i = some (.closing left') ∧ left.Sublist left') :
    Closes (s.setCall i c) := by
  have hsub : ∀ j left, (s.setCall i c).calls j = some (.closing left) →
      ∃ left', s.calls j = some (.closing left') ∧ left.Sublist left' := by
    intro j left hj
    obtain ⟨rfl, hl⟩ | ⟨-, hl⟩ := call_cases hj
    · exact hc left hl
    · exact ⟨left, hl, List.Sublist.refl left⟩
  refine { nodup := h.nodup, closed := h.closed, left := ?_, apart := ?_ }
  · intro j left hj
    obtain ⟨left', hj, hs⟩ := hsub j left hj
    obtain ⟨hn, ht, hd⟩ := h.left j left' hj
    exact ⟨hn.sublist hs, fun o ho => ht o (hs.subset ho), fun o ho => hd (hs.subset ho)⟩
  · intro j j' left left' hne hj hj'
    obtain ⟨m, hj, hs⟩ := hsub j left hj
    obtain ⟨m', hj', hs'⟩ := hsub j' left' hj'
    exact fun o ho ho' => h.apart j j' m m' hne hj hj' (hs.subset ho) (hs'.subset ho')

/-- The next `close`, after which `c` is what the thread does. -/
theorem close (h : Closes s) {i object : Nat} {left : List Nat} {c : Option (OnceCall ρ)}
    (hcall : s.calls i = some (.closing (object :: left))) (hc : ∀ left', c = some (.closing left') → left' = left) :
    Closes { s.setCall i c with closed := s.closed ++ [object] } := by
  have hk := h.setCall i (c := c) fun left' hl => ⟨_, hcall, hc left' hl ▸ List.sublist_cons_self object left⟩
  obtain ⟨hn, ht, hd⟩ := h.left i _ hcall
  refine { hk with nodup := ?_, closed := ?_, left := ?_ }
  · refine List.nodup_append.mpr ⟨h.nodup, List.nodup_singleton object, fun o ho o' ho' he => ?_⟩
    cases List.mem_singleton.mp ho'
    exact hd List.mem_cons_self (he ▸ ho)
  · intro o ho
    rcases List.mem_append.mp ho with ho | ho
    · exact h.closed o ho
    · cases List.mem_singleton.mp ho
      exact ht object List.mem_cons_self
  · intro j left' hj
    obtain ⟨hn', ht', hd'⟩ := hk.left j left' hj
    refine ⟨hn', ht', fun o ho ho' => ?_⟩
    rcases List.mem_append.mp ho' with ho' | ho'
    · exact hd' ho ho'
    · cases List.mem_singleton.mp ho'
      obtain ⟨rfl, hl⟩ | ⟨hne, hj⟩ := call_cases (s := s) (i := i) hj
      · cases hc left' hl
        exact (List.nodup_cons.mp hn).1 ho
      · exact h.apart j i _ _ hne hj hcall ho List.mem_cons_self

theorem step (h : Closes s) (hk : Kept key s) (ht : Stepped key suppress s a t) : Closes t := by
  cases ht with
  | found a i arg object since ha hitem hcall =>
    have hc := h.setCall i (c := none) (by simp)
    exact { hc with }
  | missed i arg hcall => exact h.setCall i (by simp)
  | entered i arg since hcall hlock hitem =>
    have hc := h.setCall i (c := some (.making arg since)) (by simp)
    exact { hc with }
  | made i arg since hcall =>
    have hc := h.setCall i (c := none) (by simp)
    exact { hc with }
  | raised i arg since hcall =>
    have hc := h.setCall i (c := none) (by simp)
    exact { hc with }
  | took i hcall hlock =>
    have hd : List.Disjoint (s.items.map Prod.snd) s.taken.flatten := fun o ho ht =>
      (List.nodup_append.mp hk.nodup).2.2 o ho o ht rfl
    have ht : (s.taken ++ [s.items.map Prod.snd]).flatten = s.taken.flatten ++ s.items.map Prod.snd := by
      rw [List.flatten_append, List.flatten_singleton]
    have hsub : ∀ o ∈ s.taken.flatten, o ∈ (s.taken ++ [s.items.map Prod.snd]).flatten :=
      fun o ho => ht ▸ List.mem_append_left _ ho
    have hnew : ∀ o ∈ s.items.map Prod.snd, o ∈ (s.taken ++ [s.items.map Prod.snd]).flatten :=
      fun o ho => ht ▸ List.mem_append_right _ ho
    refine { nodup := h.nodup, closed := fun o ho => hsub o (h.closed o ho), left := ?_, apart := ?_ }
    · intro j left hj
      obtain ⟨rfl, hl⟩ | ⟨-, hj⟩ := call_cases (s := s) (i := i) hj
      · cases hl
        exact ⟨(List.nodup_append.mp hk.nodup).1, hnew, fun o ho ho' => hd ho (h.closed o ho')⟩
      · obtain ⟨hn, hs, hdisj⟩ := h.left j left hj
        exact ⟨hn, fun o ho => hsub o (hs o ho), hdisj⟩
    · intro j j' left left' hne hj hj' o ho ho'
      obtain ⟨rfl, hl⟩ | ⟨-, hl'⟩ := call_cases (s := s) (i := i) hj
      · obtain ⟨rfl, -⟩ | ⟨-, hl'⟩ := call_cases (s := s) (i := j) hj'
        · exact hne rfl
        · cases hl
          exact hd ho ((h.left j' left' hl').2.1 o ho')
      · obtain ⟨rfl, hl⟩ | ⟨-, hl⟩ := call_cases (s := s) (i := i) hj'
        · cases hl
          exact hd ho' ((h.left j left hl').2.1 o ho)
        · exact h.apart j j' left left' hne hl' hl ho ho'
  | closed i raises object left hcall =>
    refine h.close hcall fun left' hl => ?_
    cases hl
    rfl
  | stopped i object left hcall hsuppress => exact h.close hcall (by simp)
  | finished i hcall => exact h.setCall i (by simp)

end Closes

theorem closes [DecidableEq κ] (h : (machine key suppress).Reachable s) : Closes s := by
  refine Machine.Within.induct_with (fun s hs => kept (hs.mono fun _ _ _ => trivial)) (fun s hs => ?_)
    (fun s a t hk hs _ ht => hs.step hk (step_cases ht)) h
  cases hs
  exact ⟨List.nodup_nil, by simp, by simp, by simp⟩

/-- What was taken is closed, or somebody is about to close it. -/
def Ended (s : Once ρ κ) : Prop :=
  ∀ object, s.Gone object → object ∈ s.closed ∨ ∃ i left, s.calls i = some (.closing left) ∧ object ∈ left

/-- A thread that has nothing to close may go on. -/
theorem Ended.setCall (h : Ended s) (i : Nat) {c : Option (OnceCall ρ)}
    (hc : ∀ left, s.calls i = some (.closing left) → left = []) : Ended (s.setCall i c) := by
  intro object ho
  rcases h object ho with hclosed | ⟨j, left, hj, hleft⟩
  · exact .inl hclosed
  · have hne : j ≠ i := by
      rintro rfl
      rw [hc left hj] at hleft
      cases hleft
    exact .inr ⟨j, left, by simpa [Once.setCall, hne] using hj, hleft⟩

theorem Ended.step (h : Ended s) (ht : Stepped key true s a t) : Ended t := by
  cases ht with
  | found a i arg object since ha hitem hcall =>
    have hc := h.setCall i (c := none) fun left hl => by rcases hcall with hcall | hcall <;> simp [hcall] at hl
    exact hc
  | missed i arg hcall => exact h.setCall i fun left hl => by simp [hcall] at hl
  | entered i arg since hcall hlock hitem =>
    have hc := h.setCall i (c := some (.making arg since)) fun left hl => by simp [hcall] at hl
    exact hc
  | made i arg since hcall =>
    have hc := h.setCall i (c := none) fun left hl => by simp [hcall] at hl
    exact hc
  | raised i arg since hcall =>
    have hc := h.setCall i (c := none) fun left hl => by simp [hcall] at hl
    exact hc
  | took i hcall hlock =>
    have hc := h.setCall i (c := some (.closing (s.items.map Prod.snd))) fun left hl => by simp [hcall] at hl
    intro object ho
    rw [Gone, List.flatten_append, List.flatten_singleton] at ho
    rcases List.mem_append.mp ho with ho | ho
    · exact hc object ho
    · exact .inr ⟨i, _, by simp [Once.setCall], ho⟩
  | closed i raises object left hcall =>
    intro o ho
    rcases h o ho with hclosed | ⟨j, left', hj, hleft⟩
    · exact .inl (List.mem_append_left _ hclosed)
    · by_cases hji : j = i
      · subst hji
        cases hcall.symm.trans hj
        rcases List.mem_cons.mp hleft with rfl | hleft
        · exact .inl (List.mem_append_right _ List.mem_cons_self)
        · exact .inr ⟨j, left, by simp [Once.setCall], hleft⟩
      · exact .inr ⟨j, left', by simpa [Once.setCall, hji] using hj, hleft⟩
  | stopped i object left hcall hsuppress => cases hsuppress
  | finished i hcall =>
    refine h.setCall i fun left hl => ?_
    cases hcall.symm.trans hl
    rfl

theorem ended [DecidableEq κ] (h : (machine key true).Reachable s) : Ended s := by
  refine h.induct (fun s hs => ?_) fun s a t hs _ ht => hs.step (step_cases ht)
  cases hs
  simp [Ended, Gone]

end Once
