import Netspy.Impl.Persisting
import Netspy.Proof.ItemBuffer

/-!
# Acknowledgement after the data is persisted

`Stepped` says what each step of the threads around the item buffer does. An
item that was put is pending, or in the batch of a flush that has not persisted
it (or could not), or persisted (`placed`). A flush acknowledges the owners
of its batch whether or not their workers have finished. So requests are
acknowledged after all their items are persisted if no flush takes items of
a request whose worker has not finished (`acked_after_persist`).
-/

namespace Netspy

namespace Persisting

variable {ρ : Type}

/-! ## Where the items are -/

/-- The flush has taken `e` and not persisted it. -/
def carries (f : Flush ρ) (e : Entry ρ) : Prop :=
  match f with
  | .swapped batch | .raised batch => e ∈ batch
  | _ => False

/-- Every item put is pending, persisted or carried by a flush; no flush has
begun but those counted. -/
structure Sound (s : Persisting ρ) : Prop where
  placed : ∀ e ∈ s.produced, e ∈ s.pending ∨ e.serial ∈ s.settled ∨ ∃ j, carries (s.flushes j) e
  fresh : ∀ j, s.started ≤ j → s.flushes j = .returned

/-- Replacing what the flush `j` is by something that carries the same. -/
theorem placed_update {s : Persisting ρ} {j : Nat} {f : Flush ρ} {e : Entry ρ}
    (h : e ∈ s.pending ∨ e.serial ∈ s.settled ∨ ∃ i, carries (s.flushes i) e)
    (hf : carries (s.flushes j) e → carries f e) :
    e ∈ s.pending ∨ e.serial ∈ s.settled ∨ ∃ i, carries (Function.update s.flushes j f i) e := by
  refine h.imp_right (Or.imp_right ?_)
  rintro ⟨i, hi⟩
  by_cases hij : i = j
  · subst hij
    exact ⟨i, by rw [Function.update_self]; exact hf hi⟩
  · exact ⟨i, by rwa [Function.update_of_ne hij]⟩

theorem fresh_update {s : Persisting ρ} {j : Nat} (f : Flush ρ)
    (h : ∀ i, s.started ≤ i → s.flushes i = .returned) (hj : s.flushes j ≠ .returned) (i : Nat)
    (hi : s.started ≤ i) : Function.update s.flushes j f i = .returned := by
  have hij : i ≠ j := fun e => hj (e ▸ h i hi)
  rw [Function.update_of_ne hij]
  exact h i hi

theorem sound_swap {s : Persisting ρ} (h : Sound s) : Sound s.swap := by
  constructor
  · intro e he
    rcases h.placed e he with hp | hs | ⟨j, hj⟩
    · have hne : s.pending.isEmpty = false := by
        rw [List.isEmpty_eq_false_iff]
        exact List.ne_nil_of_mem hp
      refine .inr (.inr ⟨s.started, ?_⟩)
      simp only [swap, Function.update_self, hne]
      exact hp
    · exact .inr (.inl hs)
    · have hjs : j ≠ s.started := fun e' => by
        rw [e', h.fresh _ le_rfl] at hj
        exact hj
      exact .inr (.inr ⟨j, by simpa only [swap, Function.update_of_ne hjs] using hj⟩)
  · intro j hj
    have hjs : j ≠ s.started := fun e => by
      rw [e] at hj
      exact absurd hj (Nat.not_succ_le_self _)
    simp only [swap, Function.update_of_ne hjs]
    exact h.fresh j (Nat.le_of_succ_le hj)

theorem sound_append {s : Persisting ρ} (h : Sound s) (o : ρ) (obj : Obj) :
    Sound (s.append o obj) := by
  refine ⟨fun e he => ?_, h.fresh⟩
  rcases List.mem_append.mp he with he | he
  · exact (h.placed e he).imp_left (List.mem_append_left _)
  · exact .inl (List.mem_append_right _ he)

/-- `t` has put more items and persisted more of them than `s`. -/
def Extends (s t : Persisting ρ) : Prop := s.produced <+: t.produced ∧ s.settled ⊆ t.settled

theorem Extends.take {s t : Persisting ρ} (h : Extends s t) {n : Nat} (hn : n ≤ s.produced.length) :
    t.produced.take n = s.produced.take n := by
  obtain ⟨rest, hr⟩ := h.1
  rw [← hr, List.take_append_of_le_length hn]

theorem Extends.of_eq {s t : Persisting ρ} (h₁ : t.produced = s.produced) (h₂ : t.settled = s.settled) :
    Extends s t := by
  rw [Extends, h₁, h₂]
  exact ⟨List.prefix_rfl, fun _ => id⟩

variable [DecidableEq ρ] (lib : Stdlib) (st : Setting)

/-- The flush has an item of `o` that it has not persisted, or `o` still to
acknowledge. -/
def holds (f : Flush ρ) (o : ρ) : Bool :=
  match f with
  | .swapped batch | .raised batch => batch.any fun e => e.owner = some o
  | .acking _ todo _ => decide (o ∈ todo)
  | .returned => false

theorem holds_of_carries {f : Flush ρ} {e : Entry ρ} {o : ρ} (h : carries f e) (ho : e.owner = some o) :
    holds f o = true := by
  cases f with
  | swapped batch => exact List.any_eq_true.mpr ⟨e, h, by simp [ho]⟩
  | raised batch => exact List.any_eq_true.mpr ⟨e, h, by simp [ho]⟩
  | acking batch todo hooks => exact h.elim
  | returned => exact h.elim

theorem owns_of_mem {s : Persisting ρ} {e : Entry ρ} {o : ρ} (h : e ∈ s.pending) (ho : e.owner = some o) :
    s.owns o = true :=
  List.any_eq_true.mpr ⟨e, h, by simp [ho]⟩

theorem unsettled_eq_nil {s : Persisting ρ} {o : ρ} {n : Nat} :
    s.unsettled o n = [] ↔ ∀ e ∈ s.produced.take n, e.owner = some o → e.serial ∈ s.settled := by
  simp only [unsettled, List.filter_eq_nil_iff, List.mem_map, List.mem_filter, decide_eq_true_eq,
    not_not]
  constructor
  · intro h e he ho
    exact h _ ⟨e, ⟨he, ho⟩, rfl⟩
  · rintro h _ ⟨e, ⟨he, ho⟩, rfl⟩
    exact h e he ho

theorem mem_batchOwners {batch : List (Entry ρ)} {o : ρ} :
    o ∈ batchOwners batch ↔ ∃ e ∈ batch, e.owner = some o := by
  simp [batchOwners, ItemBuffer.mem_owners]

/-- A flush that persisted its batch holds the owners it has to acknowledge. -/
@[simp] theorem holds_startAcking (batch : List (Entry ρ)) (todo : List ρ) (o : ρ) :
    holds (startAcking batch todo) o = decide (o ∈ todo) := by
  cases todo <;> simp [startAcking, holds]

/-! ## The steps -/

/-- What one step does. -/
inductive Stepped (s : Persisting ρ) : Act ρ → Persisting ρ → Prop
  | take (o : ρ) (hp : (s.workers o).phase = .idle ∨ (s.workers o).phase = .finished) :
    Stepped s (.take o) (s.setWorker o ⟨.dispatching, false⟩)
  | put (o : ρ) (obj : Obj) (hp : (s.workers o).phase = .dispatching) :
    Stepped s (.put o obj) ((s.append o obj).setWorker o { s.workers o with deferred := true })
  | putFull (o : ρ) (obj : Obj) (hp : (s.workers o).phase = .dispatching) :
    Stepped s (.put o obj) ((s.append o obj).setWorker o { s.workers o with phase := .flushing none })
  | putReturn (o : ρ) (j : Nat) (hp : (s.workers o).phase = .flushing (some j)) :
    Stepped s (.putReturn o) (s.setWorker o ⟨.dispatching, true⟩)
  | putRaise (o : ρ) (j : Nat) (hp : (s.workers o).phase = .flushing (some j)) :
    Stepped s (.putRaise o) (s.setWorker o { s.workers o with phase := .dispatching })
  | failTask (o : ρ) (task : PyVal) (hp : (s.workers o).phase = .dispatching) :
    Stepped s (.updateTask o task false) (s.recordMark ⟨task, o, s.produced.length⟩ false)
  | hookTask (o : ρ) (task : PyVal) (hp : (s.workers o).phase = .dispatching) (ho : s.owns o = true) :
    Stepped s (.updateTask o task true)
      { s with afterPersist := s.afterPersist ++ [⟨task, o, s.produced.length⟩] }
  | markTask (o : ρ) (task : PyVal) (hp : (s.workers o).phase = .dispatching) (ho : s.owns o = false) :
    Stepped s (.updateTask o task true) (s.recordMark ⟨task, o, s.produced.length⟩ true)
  | finishDeferred (o : ρ) (hp : (s.workers o).phase = .dispatching)
      (hd : (s.workers o).deferred = true) :
    Stepped s (.finish o) (s.setWorker o { s.workers o with phase := .finished })
  | finish (o : ρ) (hp : (s.workers o).phase = .dispatching) (hd : (s.workers o).deferred = false) :
    Stepped s (.finish o) ((s.setWorker o { s.workers o with phase := .finished }).recordAck o)
  | swap : Stepped s (.swap none) s.swap
  | swapInPut (o : ρ) (hp : (s.workers o).phase = .flushing none) :
    Stepped s (.swap (some o))
      (s.swap.setWorker o { s.workers o with phase := .flushing (some s.started) })
  | persisted (j : Nat) (out : Turnout) (batch : List (Entry ρ)) (hj : s.flushes j = .swapped batch)
      (cache : List (List String)) (hb : persistBatch lib st s out batch = (true, cache)) :
    Stepped s (.persist j out)
      ({ s with cache, settled := s.settled ++ batch.map Entry.serial }.setFlush j
        (startAcking batch (batchOwners batch)))
  | raised (j : Nat) (out : Turnout) (batch : List (Entry ρ)) (hj : s.flushes j = .swapped batch)
      (cache : List (List String)) (hb : persistBatch lib st s out batch = (false, cache)) :
    Stepped s (.persist j out) ({ s with cache }.setFlush j (.raised batch))
  | popHooks (j : Nat) (batch : List (Entry ρ)) (o : ρ) (todo : List ρ)
      (hj : s.flushes j = .acking batch (o :: todo) none) :
    Stepped s (.popHooks j)
      ({ s with afterPersist := s.afterPersist.filter fun h => h.owner ≠ o }.setFlush j
        (.acking batch (o :: todo) (some (s.afterPersist.filter fun h => h.owner = o))))
  | runHook (j : Nat) (batch : List (Entry ρ)) (todo : List ρ) (h : Hook ρ) (hooks : List (Hook ρ))
      (hj : s.flushes j = .acking batch todo (some (h :: hooks))) :
    Stepped s (.runHook j) ((s.recordMark h true).setFlush j (.acking batch todo (some hooks)))
  | ack (j : Nat) (batch : List (Entry ρ)) (o : ρ) (todo : List ρ)
      (hj : s.flushes j = .acking batch (o :: todo) (some [])) :
    Stepped s (.ack j) ((s.recordAck o).setFlush j (startAcking batch todo))

theorem stepped {s t : Persisting ρ} {a : Act ρ} (h : step lib st s a = some t) :
    Stepped lib st s a t := by
  cases a with
  | take o =>
    simp only [step] at h
    split at h
    · rename_i hp
      cases h
      exact .take o (.inl hp)
    · rename_i hp
      cases h
      exact .take o (.inr hp)
    · cases h
  | put o obj =>
    simp only [step] at h
    split at h
    · rename_i hp
      cases h
      unfold put
      dsimp only
      split
      · exact .putFull o obj hp
      · exact .put o obj hp
    · cases h
  | putReturn o =>
    simp only [step] at h
    split at h
    · rename_i j hp
      split at h
      · cases h
        exact .putReturn o j hp
      · cases h
        exact .putReturn o j hp
      · cases h
    · cases h
  | putRaise o =>
    simp only [step] at h
    split at h
    · rename_i j hp
      split at h
      · cases h
        exact .putRaise o j hp
      · cases h
    · cases h
  | updateTask o task ok =>
    simp only [step] at h
    split at h
    · rename_i hp
      cases h
      unfold updateTask
      cases ok with
      | false => exact .failTask o task hp
      | true =>
        cases ho : s.owns o with
        | false => exact .markTask o task hp ho
        | true => exact .hookTask o task hp ho
    · cases h
  | finish o =>
    simp only [step] at h
    split at h
    · rename_i hp
      cases h
      split
      · rename_i hd
        exact .finishDeferred o hp (by simpa using hd)
      · rename_i hd
        exact .finish o hp (by simpa using hd)
    · cases h
  | swap worker =>
    cases worker with
    | none =>
      cases h
      exact .swap
    | some o =>
      simp only [step] at h
      split at h
      · rename_i hp
        cases h
        exact .swapInPut o hp
      · cases h
  | persist j out =>
    simp only [step] at h
    split at h
    · rename_i batch hj
      cases h
      rcases hb : persistBatch lib st s out batch with ⟨returned, cache⟩
      unfold persist
      rw [hb]
      cases returned with
      | true => exact .persisted j out batch hj cache hb
      | false => exact .raised j out batch hj cache hb
    · cases h
  | popHooks j =>
    simp only [step] at h
    split at h
    · rename_i batch o todo hj
      cases h
      exact .popHooks j batch o todo hj
    · cases h
  | runHook j =>
    simp only [step] at h
    split at h
    · rename_i batch todo hk hooks hj
      cases h
      exact .runHook j batch todo hk hooks hj
    · cases h
  | ack j =>
    simp only [step] at h
    split at h
    · rename_i batch o todo hj
      cases h
      exact .ack j batch o todo hj
    · cases h

theorem sound_step {s t : Persisting ρ} {a : Act ρ} (h : Sound s) (hs : Stepped lib st s a t) :
    Sound t := by
  cases hs with
  | take | putReturn | putRaise | finishDeferred | finish => exact ⟨h.placed, h.fresh⟩
  | failTask | hookTask | markTask => exact ⟨h.placed, h.fresh⟩
  | put o obj => exact ⟨(sound_append h o obj).placed, h.fresh⟩
  | putFull o obj => exact ⟨(sound_append h o obj).placed, h.fresh⟩
  | swap => exact sound_swap h
  | swapInPut o => exact ⟨(sound_swap h).placed, (sound_swap h).fresh⟩
  | persisted j out batch hj cache =>
    refine ⟨fun e he => ?_, fresh_update _ h.fresh (by rw [hj]; simp)⟩
    simp only [setFlush_pending, setFlush_settled, setFlush_flushes, List.mem_append]
    rcases h.placed e he with hp | hm | ⟨i, hi⟩
    · exact .inl hp
    · exact .inr (.inl (.inl hm))
    · by_cases hij : i = j
      · rw [hij, hj] at hi
        exact .inr (.inl (.inr (List.mem_map_of_mem hi)))
      · exact .inr (.inr ⟨i, by rwa [Function.update_of_ne hij]⟩)
  | raised j out batch hj cache =>
    exact ⟨fun e he => placed_update (h.placed e he) (by rw [hj]; exact id),
      fresh_update _ h.fresh (by rw [hj]; simp)⟩
  | popHooks j batch o todo hj =>
    exact ⟨fun e he => placed_update (h.placed e he) (by rw [hj]; exact id),
      fresh_update _ h.fresh (by rw [hj]; simp)⟩
  | runHook j batch todo hk hooks hj =>
    exact ⟨fun e he => placed_update (h.placed e he) (by rw [hj]; exact id),
      fresh_update _ h.fresh (by rw [hj]; simp)⟩
  | ack j batch o todo hj =>
    exact ⟨fun e he => placed_update (h.placed e he) (by rw [hj]; exact False.elim),
      fresh_update _ h.fresh (by rw [hj]; simp)⟩

theorem sound_start {s : Persisting ρ} (h : (machine lib st).start s) : Sound s := by
  obtain ⟨handled, pipelinePaths, rfl⟩ := h
  exact ⟨fun e he => (List.not_mem_nil he).elim, fun j _ => rfl⟩

theorem sound_of_within {G : Persisting ρ → Act ρ → Prop} {s : Persisting ρ}
    (h : (machine lib st).Within G s) : Sound s :=
  h.induct (I := Sound) (fun _ hs => sound_start lib st hs)
    fun _ _ _ hs _ ht => sound_step lib st hs (stepped lib st ht)

/-! ## Acknowledgement -/

/-- No flush takes an item of a request whose worker has not finished, and no
request is taken again while an item of it is pending or a flush still holds
it. -/
def FinishedFirst (s : Persisting ρ) : Act ρ → Prop
  | .take o => s.owns o = false ∧ ∀ j < s.started, holds (s.flushes j) o = false
  | .swap _ => ∀ e ∈ s.pending, ∀ o ∈ e.owner, (s.workers o).phase = .finished
  | _ => True

instance (s : Persisting ρ) (a : Act ρ) : Decidable (FinishedFirst s a) :=
  match a with
  | .take o => inferInstanceAs (Decidable (s.owns o = false ∧ ∀ j < s.started, holds (s.flushes j) o = false))
  | .swap _ => inferInstanceAs (Decidable (∀ e ∈ s.pending, ∀ o ∈ e.owner, (s.workers o).phase = .finished))
  | .put .. | .putReturn _ | .putRaise _ | .updateTask .. | .finish _ | .persist .. | .popHooks _
  | .runHook _ | .ack _ => isTrue trivial

/-- At every call of `Collector.done` the worker had finished and every item of
the request was persisted. -/
def AckedAfterPersist (s : Persisting ρ) : Prop := ∀ r ∈ s.acks, r.finished = true ∧ r.unsettled = []

/-- What such runs keep: a request that a flush holds is finished and has all
its items in that flush; a worker that has put nothing has nothing pending. -/
structure Orderly (s : Persisting ρ) : Prop where
  apart : ∀ j o, holds (s.flushes j) o = true → (s.workers o).phase = .finished ∧ s.owns o = false
  single : ∀ i j o, holds (s.flushes i) o = true → holds (s.flushes j) o = true → i = j
  quiet : ∀ o, (s.workers o).phase = .dispatching → (s.workers o).deferred = false → s.owns o = false
  nested : ∀ o j, (s.workers o).phase ≠ .flushing (some j)
  full : ∀ o, (s.workers o).phase = .flushing none → s.owns o = true
  acked : AckedAfterPersist s

/-- A step that changes no worker and no pending item, and by which no flush
comes to hold more. -/
theorem Orderly.frame {s t : Persisting ρ} (h : Orderly s) (hw : t.workers = s.workers)
    (hp : t.pending = s.pending)
    (hf : ∀ j o, holds (t.flushes j) o = true → holds (s.flushes j) o = true)
    (ha : AckedAfterPersist t) : Orderly t := by
  have ho : ∀ o, t.owns o = s.owns o := fun o => by rw [owns, owns, hp]
  refine ⟨fun j o hj => ?_, fun i j o hi hj => h.single i j o (hf i o hi) (hf j o hj), ?_, ?_, ?_, ha⟩
  · rw [hw, ho]
    exact h.apart j o (hf j o hj)
  · simpa only [hw, ho] using h.quiet
  · simpa only [hw] using h.nested
  · simpa only [hw, ho] using h.full

/-- Replacing what the flush `j` is by something that holds no more. -/
theorem holds_update {s : Persisting ρ} {j : Nat} {f : Flush ρ}
    (hf : ∀ o, holds f o = true → holds (s.flushes j) o = true) (i : Nat) (o : ρ)
    (h : holds (Function.update s.flushes j f i) o = true) : holds (s.flushes i) o = true := by
  by_cases hij : i = j
  · subst hij
    rw [Function.update_self] at h
    exact hf o h
  · rwa [Function.update_of_ne hij] at h

/-- A request whose items are neither pending nor with a flush has them all
persisted. -/
theorem settled_of_free {s : Persisting ρ} (h : Sound s) {o : ρ} (hp : s.owns o = false)
    (hf : ∀ j e, carries (s.flushes j) e → e.owner ≠ some o) : s.unsettled o s.produced.length = [] := by
  rw [unsettled_eq_nil, List.take_length]
  intro e he ho
  rcases h.placed e he with hm | hm | ⟨j, hj⟩
  · rw [owns_of_mem hm ho] at hp
    cases hp
  · exact hm
  · exact absurd ho (hf j e hj)

theorem acked_append {s : Persisting ρ} (h : AckedAfterPersist s) {o : ρ}
    (hp : (s.workers o).phase = .finished) (hu : s.unsettled o s.produced.length = []) :
    AckedAfterPersist (s.recordAck o) := by
  intro r hr
  rcases List.mem_append.mp hr with hr | hr
  · exact h r hr
  · rw [List.mem_singleton.mp hr]
    exact ⟨decide_eq_true hp, hu⟩

theorem owns_append {s : Persisting ρ} {o x : ρ} {obj : Obj} :
    (s.append o obj).owns x = true ↔ s.owns x = true ∨ o = x := by
  simp [owns, append]

theorem holds_fresh {s : Persisting ρ} (h : Sound s) {j : Nat} {o : ρ} (hj : holds (s.flushes j) o = true) :
    j < s.started := by
  by_contra hn
  rw [h.fresh j (Nat.le_of_not_lt hn)] at hj
  cases hj

theorem Orderly.setWorker {s : Persisting ρ} (h : Orderly s) {o : ρ} {w : Worker}
    (hh : ∀ j, holds (s.flushes j) o = true → w.phase = .finished)
    (hq : w.phase = .dispatching → w.deferred = false → s.owns o = false)
    (hn : ∀ j, w.phase ≠ .flushing j) : Orderly (s.setWorker o w) := by
  refine ⟨fun j x hj => ?_, h.single, fun x => ?_, fun x j => ?_, fun x => ?_, h.acked⟩
  · refine ⟨?_, (h.apart j x hj).2⟩
    by_cases hx : x = o
    · subst hx
      simpa using hh j hj
    · simpa [Function.update_of_ne hx] using (h.apart j x hj).1
  · by_cases hx : x = o
    · subst hx
      simpa using hq
    · simpa [Function.update_of_ne hx] using h.quiet x
  · by_cases hx : x = o
    · subst hx
      simpa using hn (some j)
    · simpa [Function.update_of_ne hx] using h.nested x j
  · by_cases hx : x = o
    · subst hx
      simpa using fun hf => absurd hf (hn none)
    · simpa [Function.update_of_ne hx] using h.full x

/-- A worker puts an item: from then on it has put something, or flushes. -/
theorem Orderly.put {s : Persisting ρ} (h : Orderly s) {o : ρ} (obj : Obj) {w : Worker}
    (hp : (s.workers o).phase = .dispatching)
    (hw : w.phase = .dispatching ∧ w.deferred = true ∨ w.phase = .flushing none) :
    Orderly ((s.append o obj).setWorker o w) := by
  have hne : ∀ x, x ≠ o → (s.append o obj).owns x = s.owns x := fun x hx => by
    rw [Bool.eq_iff_iff, owns_append]
    exact ⟨fun h => h.resolve_right (Ne.symm hx), .inl⟩
  have hself : (s.append o obj).owns o = true := owns_append.mpr (.inr rfl)
  refine ⟨fun j x hj => ?_, h.single, fun x => ?_, fun x j => ?_, fun x => ?_, h.acked⟩
  · have hx : x ≠ o := fun e => by
      have := (h.apart j x hj).1
      rw [e, hp] at this
      cases this
    obtain ⟨h₁, h₂⟩ := h.apart j x hj
    refine ⟨?_, (hne x hx).trans h₂⟩
    simpa [Function.update_of_ne hx] using h₁
  · by_cases hx : x = o
    · subst hx
      intro h₁ h₂
      simp only [setWorker_workers, Function.update_self] at h₁ h₂
      rcases hw with ⟨-, hd⟩ | hf
      · rw [hd] at h₂
        cases h₂
      · rw [hf] at h₁
        cases h₁
    · intro h₁ h₂
      simp only [setWorker_workers, Function.update_of_ne hx] at h₁ h₂
      exact (hne x hx).trans (h.quiet x h₁ h₂)
  · by_cases hx : x = o
    · subst hx
      rcases hw with ⟨hd, -⟩ | hf
      · simp [hd]
      · simp [hf]
    · simpa [Function.update_of_ne hx] using h.nested x j
  · by_cases hx : x = o
    · subst hx
      exact fun _ => hself
    · intro h₁
      simp only [setWorker_workers, Function.update_of_ne hx] at h₁
      exact (hne x hx).trans (h.full x h₁)

/-- A flush that takes only items of finished workers. -/
theorem Orderly.swap {s : Persisting ρ} (h : Orderly s)
    (hg : ∀ e ∈ s.pending, ∀ o ∈ e.owner, (s.workers o).phase = .finished) : Orderly s.swap := by
  have hfin : ∀ o, s.owns o = true → (s.workers o).phase = .finished := by
    intro o ho
    obtain ⟨e, he, heo⟩ := List.any_eq_true.mp ho
    exact hg e he o (of_decide_eq_true heo)
  have hholds : ∀ j o, holds (s.swap.flushes j) o = true →
      holds (s.flushes j) o = true ∧ j ≠ s.started ∨ j = s.started ∧ s.owns o = true := by
    intro j o hj
    by_cases hjs : j = s.started
    · subst hjs
      simp only [Persisting.swap, Function.update_self] at hj
      split at hj
      · cases hj
      · exact .inr ⟨rfl, hj⟩
    · simp only [Persisting.swap, Function.update_of_ne hjs] at hj
      exact .inl ⟨hj, hjs⟩
  refine ⟨fun j o hj => ⟨?_, rfl⟩, fun i j o hi hj => ?_, fun o _ _ => rfl, h.nested, fun o hf => ?_,
    h.acked⟩
  · rcases hholds j o hj with ⟨hj, -⟩ | ⟨-, ho⟩
    · exact (h.apart j o hj).1
    · exact hfin o ho
  · rcases hholds i o hi with ⟨hi, -⟩ | ⟨rfl, ho⟩
    · rcases hholds j o hj with ⟨hj, -⟩ | ⟨rfl, ho⟩
      · exact h.single i j o hi hj
      · rw [(h.apart i o hi).2] at ho
        cases ho
    · rcases hholds j o hj with ⟨hj, -⟩ | ⟨rfl, -⟩
      · rw [(h.apart j o hj).2] at ho
        cases ho
      · rfl
  · have h₁ := hfin o (h.full o hf)
    have h₂ : (s.workers o).phase = .flushing none := hf
    rw [h₂] at h₁
    cases h₁

theorem orderly_step {s t : Persisting ρ} {a : Act ρ} (hs : Sound s) (h : Orderly s)
    (hg : FinishedFirst s a) (hst : Stepped lib st s a t) : Orderly t := by
  cases hst with
  | putReturn o j hp => exact absurd hp (h.nested o j)
  | putRaise o j hp => exact absurd hp (h.nested o j)
  | failTask | hookTask | markTask => exact h.frame rfl rfl (fun _ _ => id) h.acked
  | persisted j out batch hj cache =>
    refine h.frame rfl rfl (holds_update fun o ho => ?_) h.acked
    rw [holds_startAcking, decide_eq_true_eq, mem_batchOwners] at ho
    rw [hj]
    simpa [holds] using ho
  | raised j out batch hj cache =>
    exact h.frame rfl rfl (holds_update fun o ho => by rw [hj]; exact ho) h.acked
  | popHooks j batch o todo hj =>
    exact h.frame rfl rfl (holds_update fun o ho => by rw [hj]; exact ho) h.acked
  | runHook j batch todo hk hooks hj =>
    refine h.frame rfl rfl (holds_update fun o ho => ?_) h.acked
    show holds (s.flushes j) o = true
    rw [hj]
    exact ho
  | ack j batch o todo hj =>
    have hold : holds (s.flushes j) o = true := by rw [hj]; simp [holds]
    refine h.frame rfl rfl (holds_update fun o' ho => ?_) ?_
    · rw [holds_startAcking, decide_eq_true_eq] at ho
      show holds (s.flushes j) o' = true
      rw [hj]
      simp [holds, ho]
    · refine acked_append h.acked (h.apart j o hold).1 (settled_of_free hs (h.apart j o hold).2 ?_)
      intro i e hi ho
      have hij := h.single i j o (holds_of_carries hi ho) hold
      rw [hij, hj] at hi
      exact hi
  | take o hp =>
    refine h.setWorker (fun j hj => ?_) (fun _ _ => hg.1) (by simp)
    rw [hg.2 j (holds_fresh hs hj)] at hj
    cases hj
  | put o obj hp => exact h.put obj hp (.inl ⟨hp, rfl⟩)
  | putFull o obj hp => exact h.put obj hp (.inr rfl)
  | finishDeferred o hp hd => exact h.setWorker (fun _ _ => rfl) (by simp) (by simp)
  | finish o hp hd =>
    have hfin : Orderly (s.setWorker o { s.workers o with phase := .finished }) :=
      h.setWorker (fun _ _ => rfl) (by simp) (by simp)
    refine hfin.frame rfl rfl (fun _ _ => id) (acked_append hfin.acked (by simp) ?_)
    refine settled_of_free (s := s.setWorker o _) ⟨hs.placed, hs.fresh⟩ (h.quiet o hp hd) ?_
    intro j e hj ho
    have := (h.apart j o (holds_of_carries hj ho)).1
    rw [hp] at this
    cases this
  | swap => exact h.swap hg
  | swapInPut o hp =>
    -- the item it has just put is pending, and it has not finished
    obtain ⟨e, he, heo⟩ := List.any_eq_true.mp (h.full o hp)
    have := hg e he o (of_decide_eq_true heo)
    rw [hp] at this
    cases this

theorem orderly_start {s : Persisting ρ} (h : (machine lib st).start s) : Orderly s := by
  obtain ⟨handled, pipelinePaths, rfl⟩ := h
  refine ⟨fun j o hj => ?_, fun i j o hi _ => ?_, fun _ _ _ => rfl, fun _ _ => ?_, fun o hp => ?_,
    fun r hr => ?_⟩
  · cases hj
  · cases hi
  · simp
  · cases hp
  · cases hr

/-- In every run in which no flush takes items of an unfinished request and no
request is taken again before its items are settled, each acknowledgement comes
after the worker has finished and every item it put was persisted. -/
theorem acked_after_persist {s : Persisting ρ} (h : (machine lib st).Within FinishedFirst s) :
    AckedAfterPersist s := by
  have hinv : Orderly s :=
    h.induct_with (I := Orderly) (fun s hs => sound_of_within lib st hs) (fun s hs => orderly_start lib st hs)
      fun s a t hs ho hg ht => orderly_step lib st hs ho hg (stepped lib st ht)
  exact hinv.acked

def oneRow : Obj := .dict [("id", .int 1)]

/-- A worker puts an item and finishes; then the buffer is flushed. -/
def orderlyRun : List (Act Nat) :=
  [.take 0, .put 0 oneRow, .finish 0, .swap none, .persist 0 {}, .popHooks 0, .ack 0]

/-- The buffer is flushed while the worker is still dispatching. -/
def earlyRun : List (Act Nat) :=
  [.take 0, .put 0 oneRow, .swap none, .persist 0 {}, .popHooks 0, .ack 0, .put 0 oneRow]

/-- The state after a run, or the empty one if the run is not possible. -/
def after (as : List (Act Nat)) : Persisting Nat := ((machine ItemBuffer.textOnly {}).exec {} as).getD {}

theorem exec_orderlyRun :
    (machine ItemBuffer.textOnly {}).exec {} orderlyRun = some (after orderlyRun) := rfl

theorem acked_after_persist_orderlyRun : AckedAfterPersist (after orderlyRun) :=
  acked_after_persist ItemBuffer.textOnly {}
    (.exec (.start ⟨false, none, rfl⟩) (by decide) exec_orderlyRun)

theorem earlyRun_not_acked_after_persist :
    ¬ ∀ s : Persisting Nat, (machine ItemBuffer.textOnly {}).Reachable s → AckedAfterPersist s := by
  intro h
  have he : (machine ItemBuffer.textOnly {}).exec {} earlyRun = some (after earlyRun) := rfl
  have hr : (machine ItemBuffer.textOnly {}).Reachable (after earlyRun) :=
    .exec (.start ⟨false, none, rfl⟩) he
  exact absurd (h _ hr) (by unfold AckedAfterPersist; decide)

/-! ## Done after the data is persisted -/

/-- `update_task` is called, with success, only when no flush holds the
request; and no flush takes items of a request that has a callback registered
and that another flush still holds. -/
def DataFirst (s : Persisting ρ) : Act ρ → Prop
  | .updateTask o _ true => ∀ j < s.started, holds (s.flushes j) o = false
  | .swap _ => ∀ h ∈ s.afterPersist, s.owns h.owner = true →
      ∀ j < s.started, holds (s.flushes j) h.owner = false
  | _ => True

instance (s : Persisting ρ) (a : Act ρ) : Decidable (DataFirst s a) :=
  match a with
  | .updateTask o _ true => inferInstanceAs (Decidable (∀ j < s.started, holds (s.flushes j) o = false))
  | .swap _ => inferInstanceAs (Decidable (∀ h ∈ s.afterPersist, s.owns h.owner = true →
      ∀ j < s.started, holds (s.flushes j) h.owner = false))
  | .take _ | .put .. | .putReturn _ | .putRaise _ | .updateTask _ _ false | .finish _ | .persist ..
  | .popHooks _ | .runHook _ | .ack _ => isTrue trivial

/-- A task is marked done only when every item that was put before `update_task`
was called is persisted. -/
def MarkedAfterPersist (s : Persisting ρ) : Prop := ∀ r ∈ s.marks, r.done = true → r.unsettled = []

/-- A flush that will run the callback `h` has all the items that `h` waits
for, or has persisted them. -/
def Covers (s : Persisting ρ) (f : Flush ρ) (h : Hook ρ) : Prop :=
  match f with
  | .swapped batch => holds f h.owner = true →
      ∀ e ∈ s.produced.take h.puts, e.owner = some h.owner → e.serial ∈ s.settled ∨ e ∈ batch
  | .acking _ todo _ => h.owner ∈ todo → s.unsettled h.owner h.puts = []
  | _ => True

structure Hooked (s : Persisting ρ) : Prop where
  puts : ∀ h ∈ s.afterPersist, h.puts ≤ s.produced.length
  covered : ∀ h ∈ s.afterPersist, ∀ j, Covers s (s.flushes j) h
  popped : ∀ j batch todo hooks, s.flushes j = .acking batch todo (some hooks) →
    ∀ h ∈ hooks, h.puts ≤ s.produced.length ∧ s.unsettled h.owner h.puts = []
  marked : MarkedAfterPersist s

theorem Extends.unsettled {s t : Persisting ρ} (h : Extends s t) {o : ρ} {n : Nat}
    (hn : n ≤ s.produced.length) (hu : s.unsettled o n = []) : t.unsettled o n = [] := by
  rw [unsettled_eq_nil] at hu ⊢
  rw [h.take hn]
  exact fun e he ho => h.2 (hu e he ho)

theorem Extends.covers {s t : Persisting ρ} (h : Extends s t) {f : Flush ρ} {k : Hook ρ}
    (hk : k.puts ≤ s.produced.length) (hc : Covers s f k) : Covers t f k := by
  cases f with
  | swapped batch =>
    intro hh
    rw [h.take hk]
    exact fun e he ho => (hc hh e he ho).imp_left fun hm => h.2 hm
  | acking batch todo hooks => exact fun hm => h.unsettled hk (hc hm)
  | returned => trivial
  | raised batch => trivial

/-- A step that registers no callback, pops none, and by which each flush stays
as it is. -/
theorem Hooked.frame {s t : Persisting ρ} (h : Hooked s) (he : Extends s t)
    (ha : t.afterPersist = s.afterPersist) (hf : t.flushes = s.flushes) (hm : MarkedAfterPersist t) :
    Hooked t := by
  have hlen : s.produced.length ≤ t.produced.length := he.1.length_le
  refine ⟨fun k hk => ?_, fun k hk j => ?_, fun j batch todo hooks hj k hk => ?_, hm⟩
  · rw [ha] at hk
    exact (h.puts k hk).trans hlen
  · rw [ha] at hk
    rw [hf]
    exact he.covers (h.puts k hk) (h.covered k hk j)
  · rw [hf] at hj
    obtain ⟨h₁, h₂⟩ := h.popped j batch todo hooks hj k hk
    exact ⟨h₁.trans hlen, he.unsettled h₁ h₂⟩

/-- A step of the flush `j`: what it becomes covers the callbacks, and what it
has popped is settled. -/
theorem Hooked.update {s t : Persisting ρ} (h : Hooked s) (he : Extends s t) {j : Nat} {f : Flush ρ}
    (ha : ∀ k ∈ t.afterPersist, k ∈ s.afterPersist) (hf : t.flushes = Function.update s.flushes j f)
    (hc : ∀ k ∈ t.afterPersist, Covers t f k)
    (hp : ∀ batch todo hooks, f = .acking batch todo (some hooks) →
      ∀ k ∈ hooks, k.puts ≤ s.produced.length ∧ s.unsettled k.owner k.puts = [])
    (hm : MarkedAfterPersist t) : Hooked t := by
  have hlen : s.produced.length ≤ t.produced.length := he.1.length_le
  refine ⟨fun k hk => (h.puts k (ha k hk)).trans hlen, fun k hk i => ?_,
    fun i batch todo hooks hi k hk => ?_, hm⟩
  · rw [hf]
    by_cases hij : i = j
    · subst hij
      rw [Function.update_self]
      exact hc k hk
    · rw [Function.update_of_ne hij]
      exact he.covers (h.puts k (ha k hk)) (h.covered k (ha k hk) i)
  · rw [hf] at hi
    have hold : k.puts ≤ s.produced.length ∧ s.unsettled k.owner k.puts = [] := by
      by_cases hij : i = j
      · subst hij
        rw [Function.update_self] at hi
        exact hp batch todo hooks hi k hk
      · rw [Function.update_of_ne hij] at hi
        exact h.popped i batch todo hooks hi k hk
    exact ⟨hold.1.trans hlen, he.unsettled hold.1 hold.2⟩

theorem marked_append {s : Persisting ρ} (h : MarkedAfterPersist s) {k : Hook ρ} {done : Bool}
    (hu : done = true → s.unsettled k.owner k.puts = []) : MarkedAfterPersist (s.recordMark k done) := by
  intro r hr
  rcases List.mem_append.mp hr with hr | hr
  · exact h r hr
  · rw [List.mem_singleton.mp hr]
    exact hu

theorem covers_startAcking {s : Persisting ρ} {batch : List (Entry ρ)} {todo : List ρ} {k : Hook ρ}
    (h : k.owner ∈ todo → s.unsettled k.owner k.puts = []) : Covers s (startAcking batch todo) k := by
  unfold startAcking
  split
  · trivial
  · exact h

/-- A flush that begins while no other flush holds the requests it takes items
of has all the items that their callbacks wait for. -/
theorem Hooked.swap {s : Persisting ρ} (hs : Sound s) (h : Hooked s)
    (hg : ∀ k ∈ s.afterPersist, s.owns k.owner = true →
      ∀ j < s.started, holds (s.flushes j) k.owner = false) : Hooked s.swap := by
  refine h.update (.of_eq rfl rfl) (fun _ => id) rfl (fun k hk => ?_) (fun batch todo hooks hf => ?_)
    h.marked
  · split
    · trivial
    · intro hh e he ho
      have hown : s.owns k.owner = true := hh
      rcases hs.placed e (List.mem_of_mem_take he) with hm | hm | ⟨j, hj⟩
      · exact .inr hm
      · exact .inl hm
      · have hold := holds_of_carries hj ho
        rw [hg k hk hown j (holds_fresh hs hold)] at hold
        cases hold
  · split at hf <;> cases hf

theorem hooked_step {s t : Persisting ρ} {a : Act ρ} (hs : Sound s) (h : Hooked s)
    (hg : DataFirst s a) (hst : Stepped lib st s a t) : Hooked t := by
  cases hst with
  | take | putReturn | putRaise | finishDeferred | finish =>
    exact h.frame (.of_eq rfl rfl) rfl rfl h.marked
  | put o obj | putFull o obj =>
    exact h.frame ⟨List.prefix_append _ _, fun _ => id⟩ rfl rfl h.marked
  | failTask o task hp =>
    exact h.frame (.of_eq rfl rfl) rfl rfl (marked_append h.marked (by simp))
  | hookTask o task hp ho =>
    refine ⟨fun k hk => ?_, fun k hk j => ?_, h.popped, h.marked⟩
    · rcases List.mem_append.mp hk with hk | hk
      · exact h.puts k hk
      · rw [List.mem_singleton.mp hk]
    · rcases List.mem_append.mp hk with hk | hk
      · exact h.covered k hk j
      · rw [List.mem_singleton.mp hk]
        have hfree : holds (s.flushes j) o = false := by
          by_contra hn
          have hh := eq_true_of_ne_false hn
          rw [hg j (holds_fresh hs hh)] at hh
          cases hh
        show Covers s (s.flushes j) _
        rcases hj : s.flushes j with batch | ⟨batch, todo, hooks⟩ | _ | batch
        · rw [hj] at hfree
          exact fun hh => by rw [hfree] at hh; cases hh
        · rw [hj] at hfree
          exact fun hm => absurd hm (of_decide_eq_false hfree)
        · trivial
        · trivial
  | markTask o task hp ho =>
    refine h.frame (.of_eq rfl rfl) rfl rfl (marked_append h.marked fun _ => ?_)
    refine settled_of_free hs ho fun j e hj heo => ?_
    have hh := holds_of_carries hj heo
    rw [hg j (holds_fresh hs hh)] at hh
    cases hh
  | swap => exact h.swap hs hg
  | swapInPut o hp => exact (h.swap hs hg).frame (.of_eq rfl rfl) rfl rfl h.marked
  | persisted j out batch hj cache =>
    refine h.update ⟨List.prefix_rfl, List.subset_append_left _ _⟩ (fun _ => id) rfl (fun k hk => ?_)
      (fun _ _ _ hf => ?_) h.marked
    · refine covers_startAcking fun hm => ?_
      rw [unsettled_eq_nil]
      intro e he ho
      have hc := h.covered k hk j
      rw [hj] at hc
      have hh : holds (.swapped batch) k.owner = true := by
        obtain ⟨e', he', ho'⟩ := mem_batchOwners.mp hm
        exact holds_of_carries (e := e') he' ho'
      exact List.mem_append.mpr ((hc hh e he ho).imp_right fun hb => List.mem_map_of_mem hb)
    · unfold startAcking at hf
      split at hf <;> cases hf
  | raised j out batch hj cache =>
    exact h.update (.of_eq rfl rfl) (fun _ => id) rfl (fun _ _ => trivial)
      (fun _ _ _ hf => by cases hf) h.marked
  | popHooks j batch o todo hj =>
    refine h.update (.of_eq rfl rfl) (fun k hk => (List.mem_filter.mp hk).1) rfl (fun k hk hm => ?_)
      (fun batch' todo' hooks hf k hk => ?_) h.marked
    · have hc := h.covered k (List.mem_filter.mp hk).1 j
      rw [hj] at hc
      exact hc hm
    · cases hf
      obtain ⟨hk, ho⟩ := List.mem_filter.mp hk
      have hc := h.covered k hk j
      rw [hj] at hc
      exact ⟨h.puts k hk, hc (by rw [of_decide_eq_true ho]; exact List.mem_cons_self)⟩
  | runHook j batch todo hk hooks hj =>
    have hpop := h.popped j batch todo _ hj
    refine h.update (.of_eq rfl rfl) (fun _ => id) rfl (fun k hk' hm => ?_)
      (fun batch' todo' hooks' hf k hk' => ?_)
      (marked_append h.marked fun _ => (hpop hk List.mem_cons_self).2)
    · have hc := h.covered k hk' j
      rw [hj] at hc
      exact hc hm
    · cases hf
      exact hpop k (List.mem_cons_of_mem _ hk')
  | ack j batch o todo hj =>
    refine h.update (.of_eq rfl rfl) (fun _ => id) rfl (fun k hk => ?_) (fun _ _ _ hf => ?_) h.marked
    · refine covers_startAcking fun hm => ?_
      have hc := h.covered k hk j
      rw [hj] at hc
      exact hc (List.mem_cons_of_mem _ hm)
    · unfold startAcking at hf
      split at hf <;> cases hf

theorem hooked_start {s : Persisting ρ} (h : (machine lib st).start s) : Hooked s := by
  obtain ⟨handled, pipelinePaths, rfl⟩ := h
  refine ⟨fun k hk => ?_, fun k hk => ?_, fun j batch todo hooks hj => ?_, fun r hr => ?_⟩
  · cases hk
  · cases hk
  · cases hj
  · cases hr

/-- In every run in which `update_task` is called while no flush holds the
request, and no flush takes items of a request with a callback that another
flush still holds, a task is marked done only after every item put before
`update_task` was persisted. -/
theorem marked_after_persist {s : Persisting ρ} (h : (machine lib st).Within DataFirst s) :
    MarkedAfterPersist s := by
  have hinv : Hooked s :=
    h.induct_with (I := Hooked) (fun s hs => sound_of_within lib st hs) (fun s hs => hooked_start lib st hs)
      fun s a t hs ho hg ht => hooked_step lib st hs ho hg (stepped lib st ht)
  exact hinv.marked

/-- `update_task` is called with the items still pending; then the buffer is
flushed. -/
def hookedRun : List (Act Nat) :=
  [.take 0, .put 0 oneRow, .updateTask 0 (.int 1) true, .finish 0, .swap none, .persist 0 {},
    .popHooks 0, .runHook 0, .ack 0]

theorem exec_hookedRun :
    (machine ItemBuffer.textOnly {}).exec {} hookedRun = some (after hookedRun) := rfl

theorem marked_after_persist_hookedRun : MarkedAfterPersist (after hookedRun) :=
  marked_after_persist ItemBuffer.textOnly {}
    (.exec (.start ⟨false, none, rfl⟩) (by decide) exec_hookedRun)

/-- A flush has taken the item and not persisted it when `update_task` is
called. -/
def inFlightRun : List (Act Nat) :=
  [.take 0, .put 0 oneRow, .swap none, .updateTask 0 (.int 1) true]

theorem inFlightRun_not_marked_after_persist :
    ¬ ∀ s : Persisting Nat, (machine ItemBuffer.textOnly {}).Reachable s → MarkedAfterPersist s := by
  intro h
  have he : (machine ItemBuffer.textOnly {}).exec {} inFlightRun = some (after inFlightRun) := rfl
  have hr : (machine ItemBuffer.textOnly {}).Reachable (after inFlightRun) :=
    .exec (.start ⟨false, none, rfl⟩) he
  exact absurd (h _ hr) (by unfold MarkedAfterPersist; decide)

end Persisting

end Netspy
