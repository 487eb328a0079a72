import Mathlib.Algebra.BigOperators.Group.Finset.Basic
import Mathlib.Algebra.GroupWithZero.Nat
import Mathlib.Data.List.Perm.Basic
import Netspy.Proof.AirFinish

/-!
# What the end of a crawl keeps

Each put is always in one place: in the request buffer, in the queue, in the collector's
buffer, in the hands of a worker, with the leftovers, or ended (`Conserved`). The
teardown empties the first three, each once: a history of the run tells what came to
them later (`Emptied`). So what is lost is what came late, what a flush of another thread
or a worker has when the dump is written, and what ended badly (`keeps_iff`).
-/

namespace Netspy

namespace AirScheduler

variable {st : Setting} {threads : Nat} {handled : Bool} {s t : AirScheduler} {a : AirAct} {w n : Nat}

/-! ## How often a put is somewhere -/

def hit (n : Nat) (x : Tagged AirPut) : Nat := if x.tag.serial = n then 1 else 0

def times (n : Nat) (l : List (Tagged AirPut)) : Nat := (l.map (hit n)).sum

@[simp] theorem times_nil (n : Nat) : times n [] = 0 := rfl

@[simp] theorem times_cons (n : Nat) (x : Tagged AirPut) (l : List (Tagged AirPut)) :
    times n (x :: l) = hit n x + times n l := List.sum_cons

@[simp] theorem times_append (n : Nat) (l₁ l₂ : List (Tagged AirPut)) : times n (l₁ ++ l₂) = times n l₁ + times n l₂ := by
  rw [times, List.map_append, List.sum_append, times, times]

theorem times_perm {l₁ l₂ : List (Tagged AirPut)} (h : (l₁.map Tagged.tag).Perm (l₂.map Tagged.tag)) :
    times n l₁ = times n l₂ := by
  have h := (h.map fun x => if x.serial = n then 1 else 0).sum_eq
  rwa [List.map_map, List.map_map] at h

theorem times_eraseIdx {l : List (Tagged AirPut)} {i : Nat} {x : Tagged AirPut} (h : l[i]? = some x) :
    hit n x + times n (l.eraseIdx i) = times n l := by
  obtain ⟨hlt, rfl⟩ := List.getElem?_eq_some_iff.mp h
  rw [← times_cons]
  exact times_perm ((List.getElem_cons_eraseIdx_perm hlt).map _)

theorem times_sifts {b c : BufferThreads AirPut} {out : Option (Tagged AirPut)} (h : b.Sifts c out) :
    times n b.entries = times n out.toList + times n c.entries := by
  rw [← times_append]
  refine times_perm ?_
  rw [List.map_append]
  exact h.tags

theorem times_pos {l : List (Tagged AirPut)} : 0 < times n l ↔ ∃ x ∈ l, x.tag.serial = n := by
  induction l with
  | nil => simp
  | cons y l ih =>
    rw [times_cons, hit]
    split
    · rename_i hy
      exact ⟨fun _ => ⟨y, List.mem_cons_self, hy⟩, fun _ => by omega⟩
    · simp [*]

/-- How often a put has ended. -/
def ends (n : Nat) (fates : List (Nat × AirFate)) : Nat := (fates.map fun x => if x.1 = n then 1 else 0).sum

theorem ends_cons (n m : Nat) (fate : AirFate) (fates : List (Nat × AirFate)) :
    ends n ((m, fate) :: fates) = (if m = n then 1 else 0) + ends n fates := List.sum_cons

theorem ends_append (n : Nat) (l : List (Tagged AirPut)) (fate : AirFate) (fates : List (Nat × AirFate)) :
    ends n ((l.map fun x => (x.tag.serial, fate)) ++ fates) = times n l + ends n fates := by
  induction l with
  | nil => simp
  | cons x l ih => rw [List.map_cons, List.cons_append, ends_cons, ih, times_cons, Nat.add_assoc, hit]

def hands (n threads : Nat) (workers : Nat → AirPhase) : Nat := ∑ w ∈ Finset.range threads, times n (workers w).held

/-- A worker goes on: what it has is counted anew. -/
theorem hands_update (n : Nat) {workers : Nat → AirPhase} {old : AirPhase} (phase : AirPhase) (hlt : w < threads)
    (hold : workers w = old) :
    hands n threads (Function.update workers w phase) + times n old.held = hands n threads workers + times n phase.held := by
  have hmem : w ∈ Finset.range threads := Finset.mem_range.mpr hlt
  have hrest : ∑ v ∈ (Finset.range threads).erase w, times n (Function.update workers w phase v).held =
      ∑ v ∈ (Finset.range threads).erase w, times n (workers v).held :=
    Finset.sum_congr rfl fun v hv => by rw [Function.update_of_ne (Finset.ne_of_mem_erase hv)]
  rw [hands, hands, ← Finset.add_sum_erase _ _ hmem, ← Finset.add_sum_erase _ _ hmem, hrest, Function.update_self, hold]
  omega

/-- How often a put is anywhere. -/
def placed (threads n : Nat) (s : AirScheduler) : Nat :=
  times n s.buffer.entries + times n s.queue + times n s.collected + hands n threads s.workers + times n s.leftovers +
    ends n s.fates

/-! ## Every put is in one place -/

/-- The teardown has begun to collect what is left. -/
def draining : MainPhase → Bool
  | .tearing .drainCollector | .tearing .drainQueue | .tearing .dump | .ended => true
  | _ => false

structure Conserved (threads : Nat) (s : AirScheduler) : Prop where
  once : ∀ n, placed threads n s = if n < s.puts then 1 else 0
  leftovers : draining s.main = false → s.leftovers = []
  dumpFile : s.main ≠ .ended → s.dumpFile = []

theorem Conserved.keep (hc : Conserved threads s) (hmain : t.main = s.main) (hleftovers : t.leftovers = s.leftovers)
    (hdump : t.dumpFile = s.dumpFile) (hputs : t.puts = s.puts) (h : ∀ n, placed threads n t = placed threads n s) :
    Conserved threads t := by
  refine ⟨fun n => ?_, ?_, ?_⟩
  · rw [h, hputs, hc.once]
  · rw [hmain, hleftovers]
    exact hc.leftovers
  · rw [hmain, hdump]
    exact hc.dumpFile

/-- A put is counted once more. -/
theorem Conserved.add (hc : Conserved threads s) (hmain : t.main = s.main) (hleftovers : t.leftovers = s.leftovers)
    (hdump : t.dumpFile = s.dumpFile) (hputs : t.puts = s.puts + 1)
    (h : ∀ n, placed threads n t = (if s.puts = n then 1 else 0) + placed threads n s) : Conserved threads t := by
  refine ⟨fun n => ?_, ?_, ?_⟩
  · rw [h, hputs, hc.once]
    split <;> split <;> split <;> omega
  · rw [hmain, hleftovers]
    exact hc.leftovers
  · rw [hmain, hdump]
    exact hc.dumpFile

/-- Something is put into the request buffer. -/
theorem Conserved.put (hc : Conserved threads s) (obj : Nat) (request : Request) :
    Conserved threads (s.put obj request) := by
  refine hc.add rfl rfl rfl rfl fun n => ?_
  have hput : times n (s.put obj request).buffer.entries = (if s.puts = n then 1 else 0) + times n s.buffer.entries :=
    times_perm (n := n) ((BufferThreads.entries_put s.buffer ⟨⟨s.puts, obj⟩, request⟩).map Tagged.tag)
  have hplaced : placed threads n (s.put obj request) = times n (s.put obj request).buffer.entries + times n s.queue +
    times n s.collected + hands n threads s.workers + times n s.leftovers + ends n s.fates := rfl
  rw [hplaced, hput, placed]
  omega

/-- A flush of requests begins. -/
theorem Conserved.swap (hc : Conserved threads s) (r : Option Nat) : Conserved threads (s.swap r) := by
  refine hc.keep rfl rfl rfl rfl fun n => ?_
  have hswap : times n (s.swap r).buffer.entries = times n s.buffer.entries :=
    times_perm ((BufferThreads.entries_swap s.buffer).map Tagged.tag)
  exact congrArg (· + _ + _ + _ + _ + _) hswap

/-- A worker goes on with the same requests. -/
theorem Conserved.move (hc : Conserved threads s) {old phase : AirPhase} (hlt : w < threads) (hold : s.workers w = old)
    (hheld : phase.held = old.held) : Conserved threads (s.move w phase) := by
  refine hc.keep rfl rfl rfl rfl fun n => ?_
  have h := hands_update n phase hlt hold
  rw [hheld] at h
  have h : hands n threads (s.move w phase).workers = hands n threads s.workers := Nat.add_right_cancel h
  unfold placed
  rw [h]
  rfl

/-- A worker ends its request. -/
theorem Conserved.settle (hc : Conserved threads s) {x : Tagged AirPut} {deferred : Bool} {wait : AirWait} {phase : AirPhase}
    (hlt : w < threads) (hold : s.workers w = .busy x deferred wait false) (hheld : phase.held = []) (fate : AirFate) :
    Conserved threads ((s.settle x fate).move w phase) := by
  refine hc.keep rfl rfl rfl rfl fun n => ?_
  have h := hands_update n phase hlt hold
  rw [hheld] at h
  simp only [placed, AirScheduler.move, AirScheduler.settle, ends_cons, AirPhase.held, times_cons, times_nil, hit] at h ⊢
  omega

theorem held_busy (x : Tagged AirPut) (deferred : Bool) (wait : AirWait) (retried : Bool) :
    (AirPhase.busy x deferred wait retried).held = if retried then [] else [x] := by
  cases retried with
  | true | false => rfl

theorem Conserved.work (hc : Conserved threads s) (hl : Linked threads s) {a : WorkerAct}
    (h : Worked st threads handled s w a t) : Conserved threads t := by
  have hlt {phase : AirPhase} (hw : s.workers w = phase) (hphase : phase ≠ .idle) : w < threads := hl.lt (hw ▸ hphase)
  cases h with
  | enter hw hlt | exit hw hlt => exact hc.move hlt hw rfl
  | popEmpty hw | timeout hw | begin _ hw | finishRetried _ _ _ hw | rest hw => exact hc.move (hlt hw nofun) hw rfl
  | checked _ _ _ _ hw | flushed _ _ _ _ hw | itemsFlushed _ _ _ _ _ hw =>
    exact hc.move (hlt hw nofun) hw (by rw [held_busy, held_busy])
  | putItem owner x deferred deferred' retried wait hw =>
    have h : Conserved threads (s.move w (.busy x deferred' wait retried)) :=
      hc.move (hlt hw nofun) hw (by rw [held_busy, held_busy])
    exact h.keep rfl rfl rfl rfl fun _ => rfl
  | swapItems x deferred retried hw =>
    have h : Conserved threads (s.move w (.busy x deferred (.itemFlush s.items.started) retried)) :=
      hc.move (hlt hw nofun) hw (by rw [held_busy, held_busy])
    exact h.keep rfl rfl rfl rfl fun _ => rfl
  | swap x deferred retried hw => exact (hc.swap (some w)).move (hlt hw nofun) hw (by rw [held_busy, held_busy])
  | mark x hw =>
    have h : Conserved threads (s.move w (.marked x)) := hc.move (hlt hw nofun) hw rfl
    exact h.keep rfl rfl rfl rfl fun _ => rfl
  | ack x deferred inProgress hw =>
    have h : Conserved threads (s.move w .acked) := hc.move (hlt hw nofun) hw rfl
    exact h.keep rfl rfl rfl rfl fun _ => rfl
  | pop x rest hw hcollected =>
    refine hc.keep rfl rfl rfl rfl fun n => ?_
    have h := hands_update n (.marked x) (hlt hw nofun) hw
    simp only [placed, AirScheduler.move, hcollected, AirPhase.held, times_cons, times_nil] at h ⊢
    omega
  | take i x hw hq =>
    refine hc.keep rfl rfl rfl rfl fun n => ?_
    have h := hands_update n (.took x []) (hlt hw nofun) hw
    have hx := times_eraseIdx (n := n) hq
    simp only [placed, AirScheduler.move, AirPhase.held, times_cons, times_nil] at h ⊢
    omega
  | extra i x y more hw hq =>
    refine hc.keep rfl rfl rfl rfl fun n => ?_
    have h := hands_update n (.took x (more ++ [y])) (hlt hw nofun) hw
    have hy := times_eraseIdx (n := n) hq
    simp only [placed, AirScheduler.move, AirPhase.held, times_cons, times_append, times_nil] at h ⊢
    omega
  | extend x more hw =>
    refine hc.keep rfl rfl rfl rfl fun n => ?_
    have h := hands_update n (.extended x) (hlt hw nofun) hw
    simp only [placed, AirScheduler.move, AirPhase.held, times_cons, times_append, times_nil] at h ⊢
    omega
  | put obj request x deferred retried hw =>
    exact (hc.put obj request).move (hlt hw nofun) hw (by rw [held_busy, held_busy])
  | retry obj request x deferred hw => exact (hc.put obj _).settle (hlt hw nofun) hw rfl .retried
  | finish fate x deferred hw => exact hc.settle (hlt hw nofun) hw rfl fate

theorem Conserved.buffer (hc : Conserved threads s) {a : BufferAct} (h : Buffered s a t) : Conserved threads t := by
  cases h with
  | swap => exact hc.swap none
  | filter j answer dropped b hf =>
    refine hc.keep rfl rfl rfl rfl fun n => ?_
    have h := times_sifts (n := n) (BufferThreads.sifts_filter hf).1
    simp only [placed, ends_append]
    omega
  | push j works pushed b hp =>
    refine hc.keep rfl rfl rfl rfl fun n => ?_
    have h := times_sifts (n := n) (BufferThreads.sifts_push hp)
    simp only [placed, times_append]
    omega
  | swapItems | persist | lose | ack | acked => exact hc.keep rfl rfl rfl rfl fun _ => rfl

/-- The teardown takes each place in turn. -/
theorem Conserved.tear (hc : Conserved threads s) {step : Teardown} (hm : s.main = .tearing step) (h : Torn s step t) :
    Conserved threads t := by
  have hdump : s.dumpFile = [] := hc.dumpFile (by simp [hm])
  cases h with
  | stopWorkers | flushed | itemFlush | itemsFlushed =>
    exact ⟨hc.once, fun _ => hc.leftovers (by rw [hm]; rfl), fun _ => hdump⟩
  | flush => exact ⟨(hc.swap none).once, fun _ => hc.leftovers (by rw [hm]; rfl), fun _ => hdump⟩
  | drainPending =>
    refine ⟨fun n => ?_, (by intro hd; cases hd), fun _ => hdump⟩
    have hleft := hc.leftovers (by rw [hm]; rfl)
    have h := hc.once n
    simp only [placed, BufferThreads.entries, hleft, times_append, times_nil, List.nil_append] at h ⊢
    omega
  | drainCollector =>
    refine ⟨fun n => ?_, (by intro hd; cases hd), fun _ => hdump⟩
    have h := hc.once n
    simp only [placed, times_append, times_nil] at h ⊢
    omega
  | drainQueue x queue hq =>
    refine ⟨fun n => ?_, fun hd => ?_, fun _ => hdump⟩
    · have h := hc.once n
      simp only [placed, hq, times_append, times_cons, times_nil] at h ⊢
      omega
    · rw [hm] at hd
      cases hd
  | drained => exact ⟨hc.once, (by intro hd; cases hd), fun _ => hdump⟩

theorem Conserved.steer (hc : Conserved threads s) {a : MainAct} (h : Steered st threads s a t) : Conserved threads t := by
  cases h with
  | seed obj request => exact hc.put obj request
  | seedFlush hm =>
    exact ⟨(hc.swap none).once, fun _ => hc.leftovers (by rw [hm]; rfl), fun _ => hc.dumpFile (hm ▸ nofun)⟩
  | stop => exact hc.keep rfl rfl rfl rfl fun _ => rfl
  | seedReturn _ hm | start hm | check _ hm | leave _ hm | timeUp _ hm | found _ _ _ hm | next _ _ _ _ hm | again _ _ _ hm
  | finish _ _ _ hm | tearDone hm =>
    exact ⟨hc.once, fun _ => hc.leftovers (by rw [hm]; rfl), fun _ => hc.dumpFile (hm ▸ nofun)⟩
  | tear step _ hm h => exact hc.tear hm h
  | dump => exact ⟨hc.once, nofun, fun h => absurd rfl h⟩

theorem Conserved.turn (hc : Conserved threads s) (hl : Linked threads s) (h : s.turn st threads handled a = some t) :
    Conserved threads t := by
  cases a with
  | main a => exact hc.steer (steered h)
  | worker w a => exact hc.work hl (worked h)
  | buffer a => exact hc.buffer (buffered h)

theorem Conserved.mark (hc : Conserved threads s) (slip : Bool) : Conserved threads (s.mark slip) := by
  unfold AirScheduler.mark
  split
  · rename_i hm
    exact ⟨hc.once, fun _ => hc.leftovers (by rw [hm]; rfl), fun _ => hc.dumpFile (hm ▸ nofun)⟩
  · exact hc

theorem Conserved.step (hc : Conserved threads s) (hl : Linked threads s) (h : s.step st threads handled a = some t) :
    Conserved threads t := by
  obtain ⟨u, hu, ⟨_, next, _, -, rfl⟩ | ⟨-, -, rfl⟩⟩ := step_cases h
  · exact (hc.turn hl hu).mark _
  · exact hc.turn hl hu

theorem conserved_of_reachable (h : (airMachine st threads handled).Reachable s) : Conserved threads s := by
  refine Machine.Within.induct_with (fun _ h => linked_of_reachable h) (fun u hu => ?_)
    (fun u a v hl hc _ hv => hc.step hl hv) h
  cases hu
  refine ⟨fun n => ?_, fun _ => rfl, fun _ => rfl⟩
  simp [placed, hands, ends, BufferThreads.entries, AirPhase.held]

/-! ## What comes late -/

/-- The teardown has emptied the request buffer. -/
def bufferEmptied : MainPhase → Bool
  | .tearing .drainCollector | .tearing .drainQueue | .tearing .dump => true
  | _ => false

/-- It has emptied the collector's buffer. -/
def collectorEmptied : MainPhase → Bool
  | .tearing .drainQueue | .tearing .dump => true
  | _ => false

/-- It has found the queue empty. -/
def queueEmptied : MainPhase → Bool
  | .tearing .dump => true
  | _ => false

/-- It has swapped the items of its flush. -/
def itemsEmptied : MainPhase → Bool
  | .tearing (.itemFlush (some _)) | .tearing .drainPending => true
  | main => bufferEmptied main

/-- What came to a place after the teardown had emptied it, and the flushes that the main
thread began. -/
structure AirHistory where
  late : List Nat := []
  lateItems : List AirPut := []
  flushes : List Nat := []
  itemFlushes : List Nat := []

def serials (l : List (Tagged AirPut)) : List Nat := l.map fun x => x.tag.serial

/-- What a step brings to a place. -/
def brought {α : Type} [DecidableEq α] (emptied : Bool) (old new : List α) : List α :=
  if emptied then new.filter (· ∉ old) else []

/-- The flushes that a step of the main thread begins. -/
def begun (a : AirAct) (old new : Nat) : List Nat :=
  match a with
  | .main _ => (List.range new).filter (old ≤ ·)
  | _ => []

def AirHistory.next (h : AirHistory) (s : AirScheduler) (a : AirAct) (t : AirScheduler) : AirHistory where
  late := h.late ++ brought (bufferEmptied s.main) (serials s.buffer.pending) (serials t.buffer.pending) ++
    brought (collectorEmptied s.main) (serials s.collected) (serials t.collected) ++
    brought (queueEmptied s.main) (serials s.queue) (serials t.queue)
  lateItems := h.lateItems ++ brought (itemsEmptied s.main) s.items.pending t.items.pending
  flushes := h.flushes ++ begun a s.buffer.flushes.length t.buffer.flushes.length
  itemFlushes := h.itemFlushes ++ begun a s.items.started t.items.started

/-- A crawl with its history. -/
def recorded (st : Setting) (threads : Nat) (handled : Bool) : Machine (AirScheduler × AirHistory) AirAct :=
  (airMachine st threads handled).withHistory {} AirHistory.next

/-! ## The flushes of the main thread -/

/-- A flush that is over stays so. -/
structure Grows (b c : BufferThreads AirPut) (i l : AirItems) : Prop where
  length : b.flushes.length ≤ c.flushes.length
  batch : ∀ j < b.flushes.length, b.batchOf j = [] → c.batchOf j = []
  started : i.started ≤ l.started
  holding : ∀ k < i.started, i.holding k = [] → l.holding k = []

section
variable {b c : BufferThreads AirPut} {i l : AirItems}

theorem grows_of_eq (hb : c.flushes = b.flushes) (hs : l.started = i.started) (hi : l.flushes = i.flushes) :
    Grows b c i l := by
  refine ⟨by rw [hb], fun j _ hj => ?_, by rw [hs], fun k _ hk => ?_⟩
  · rwa [BufferThreads.batchOf, hb]
  · rwa [AirItems.holding, hi]

theorem grows_swap (b : BufferThreads AirPut) (i : AirItems) : Grows b b.swap i i := by
  refine ⟨?_, fun j hlt hj => ?_, Nat.le_refl _, fun _ _ hk => hk⟩
  · rw [BufferThreads.swap, List.length_append]
    exact Nat.le_add_right ..
  · exact (b.batchOf_swap_of_ne (Nat.ne_of_lt hlt)).trans hj

theorem grows_swapItems (b : BufferThreads AirPut) (i : AirItems) (r : Option Nat) : Grows b b i (i.swap r) :=
  ⟨Nat.le_refl _, fun _ _ hj => hj, Nat.le_succ _, fun _ hlt hk =>
    (holding_swap_of_ne i r (Nat.ne_of_lt hlt)).trans hk⟩

theorem grows_drain {raises : Bool} (hb : b.Drains c raises) : Grows b c i i := by
  refine ⟨Nat.le_of_eq hb.length.symm, fun j _ hj => ?_, Nat.le_refl _, fun _ _ hk => hk⟩
  by_contra hne
  exact hb.batch j hne hj

theorem grows_setFlush {k : Nat} {f : AirItemFlush} {lost : List AirPut} (hf : ∀ batch, f ≠ .holding batch) :
    Grows b b i { i.setFlush k f with lost } := by
  refine ⟨Nat.le_refl _, fun _ _ hj => hj, Nat.le_refl _, fun _ _ hi => ?_⟩
  by_contra hne
  exact holding_of_setFlush hf hne hi

end

theorem grows_of_worked {a : WorkerAct} (h : Worked st threads handled s w a t) :
    Grows s.buffer t.buffer s.items t.items := by
  cases h with
  | swap => exact grows_swap s.buffer s.items
  | swapItems => exact grows_swapItems s.buffer s.items (some w)
  | _ => exact grows_of_eq rfl rfl rfl

theorem grows_of_buffered {a : BufferAct} (h : Buffered s a t) : Grows s.buffer t.buffer s.items t.items := by
  cases h with
  | swap => exact grows_swap s.buffer s.items
  | filter _ _ _ _ hf => exact grows_drain (BufferThreads.drains_filter hf).2
  | push _ _ _ _ hp => exact grows_drain (BufferThreads.drains_push hp).2
  | swapItems => exact grows_swapItems s.buffer s.items none
  | persist | lose | ack | acked => exact grows_setFlush nofun

theorem grows_of_torn {step : Teardown} (h : Torn s step t) : Grows s.buffer t.buffer s.items t.items := by
  cases h with
  | flush => exact grows_swap s.buffer s.items
  | itemFlush => exact grows_swapItems s.buffer s.items none
  | _ => exact grows_of_eq rfl rfl rfl

theorem grows_of_steered {a : MainAct} (h : Steered st threads s a t) : Grows s.buffer t.buffer s.items t.items := by
  cases h with
  | seedFlush => exact grows_swap s.buffer s.items
  | tear step _ _ h => exact grows_of_torn h
  | _ => exact grows_of_eq rfl rfl rfl

/-- The flush that the main thread is in. -/
def flushing : MainPhase → Option Nat
  | .seeding j | .tearing (.flush j) => j
  | _ => none

def flushingItems : MainPhase → Option Nat
  | .tearing (.itemFlush k) => k
  | _ => none

/-- What the main thread has emptied is empty at first, and its flushes end before it
goes on. -/
structure Empties (s t : AirScheduler) : Prop where
  buffer : bufferEmptied t.main = true → bufferEmptied s.main = true ∨ serials t.buffer.pending = []
  collector : collectorEmptied t.main = true → collectorEmptied s.main = true ∨ serials t.collected = []
  queue : queueEmptied t.main = true → queueEmptied s.main = true ∨ serials t.queue = []
  items : itemsEmptied t.main = true → itemsEmptied s.main = true ∨ t.items.pending = []
  flush : ∀ j, flushing s.main = some j → flushing t.main = some j ∨ s.buffer.batchOf j = []
  itemFlush : ∀ k, flushingItems s.main = some k → flushingItems t.main = some k ∨ s.items.holding k = []

theorem empties_of_main (h : t.main = s.main) : Empties s t := by
  refine ⟨?_, ?_, ?_, ?_, ?_, ?_⟩ <;> rw [h]
  · exact .inl
  · exact .inl
  · exact .inl
  · exact .inl
  · exact fun _ => .inl
  · exact fun _ => .inl

theorem empties_of_torn {step : Teardown} (hm : s.main = .tearing step) (h : Torn s step t) : Empties s t := by
  cases h with
  | stopWorkers | flush => exact ⟨nofun, nofun, nofun, nofun, by rw [hm]; exact nofun, by rw [hm]; exact nofun⟩
  | flushed j hj =>
    refine ⟨nofun, nofun, nofun, nofun, ?_, by rw [hm]; exact nofun⟩
    rw [hm]
    rintro _ ⟨⟩
    exact .inr hj
  | itemFlush => exact ⟨nofun, nofun, nofun, fun _ => .inr rfl, by rw [hm]; exact nofun, by rw [hm]; exact nofun⟩
  | itemsFlushed k hk =>
    refine ⟨nofun, nofun, nofun, fun _ => .inl (by rw [hm]; rfl), by rw [hm]; exact nofun, ?_⟩
    rw [hm]
    rintro _ ⟨⟩
    exact .inr hk
  | drainPending =>
    exact ⟨fun _ => .inr rfl, nofun, nofun, fun _ => .inl (by rw [hm]; rfl), by rw [hm]; exact nofun, by rw [hm]; exact nofun⟩
  | drainCollector =>
    exact ⟨fun _ => .inl (by rw [hm]; rfl), fun _ => .inr rfl, nofun, fun _ => .inl (by rw [hm]; rfl),
      by rw [hm]; exact nofun, by rw [hm]; exact nofun⟩
  | drainQueue => exact empties_of_main rfl
  | drained hq =>
    exact ⟨fun _ => .inl (by rw [hm]; rfl), fun _ => .inl (by rw [hm]; rfl), fun _ => .inr (congrArg serials hq),
      fun _ => .inl (by rw [hm]; rfl),
      by rw [hm]; exact nofun, by rw [hm]; exact nofun⟩

theorem empties_of_steered {a : MainAct} (h : Steered st threads s a t) : Empties s t := by
  cases h with
  | seed | stop => exact empties_of_main rfl
  | seedReturn j hm hj =>
    refine ⟨nofun, nofun, nofun, nofun, ?_, by rw [hm]; exact nofun⟩
    rw [hm]
    rintro _ ⟨⟩
    exact .inr hj
  | seedFlush hm | start hm | check _ hm | leave _ hm | timeUp _ hm | found _ _ _ hm | next _ _ _ _ hm | again _ _ _ hm
  | finish _ _ _ hm | tearDone hm | dump _ hm =>
    exact ⟨nofun, nofun, nofun, nofun, by rw [hm]; exact nofun, by rw [hm]; exact nofun⟩
  | tear step _ hm h => exact empties_of_torn hm h

/-- A flush that a step of the main thread begins is the one that it is in then. -/
theorem flushing_of_begun {a : MainAct} (h : Steered st threads s a t) {j : Nat} (hj : s.buffer.flushes.length ≤ j)
    (hlt : j < t.buffer.flushes.length) : flushing t.main = some j := by
  have hlast (hlt : j < s.buffer.swap.flushes.length) : s.buffer.flushes.length = j := by
    rw [BufferThreads.swap, List.length_append] at hlt
    exact Nat.le_antisymm hj (Nat.le_of_lt_succ hlt)
  cases h with
  | seedFlush => exact congrArg some (hlast hlt)
  | tear step _ _ h =>
    cases h with
    | flush => exact congrArg some (hlast hlt)
    | _ => exact absurd hlt (Nat.not_lt.mpr hj)
  | _ => exact absurd hlt (Nat.not_lt.mpr hj)

theorem flushingItems_of_begun {a : MainAct} (h : Steered st threads s a t) {k : Nat} (hk : s.items.started ≤ k)
    (hlt : k < t.items.started) : flushingItems t.main = some k := by
  cases h with
  | tear step _ _ h =>
    cases h with
    | itemFlush => exact congrArg some (Nat.le_antisymm hk (Nat.le_of_lt_succ hlt))
    | _ => exact absurd hlt (Nat.not_lt.mpr hk)
  | _ => exact absurd hlt (Nat.not_lt.mpr hk)

/-! ## What is there has come late -/

/-- What is in a place that the teardown has emptied came late, and what the main
thread's own flushes had is gone once it goes on. -/
structure Emptied (s : AirScheduler) (h : AirHistory) : Prop where
  buffer : bufferEmptied s.main = true → serials s.buffer.pending ⊆ h.late
  collector : collectorEmptied s.main = true → serials s.collected ⊆ h.late
  queue : queueEmptied s.main = true → serials s.queue ⊆ h.late
  items : itemsEmptied s.main = true → s.items.pending ⊆ h.lateItems
  flushes : ∀ j ∈ h.flushes, j < s.buffer.flushes.length ∧ (flushing s.main = some j ∨ s.buffer.batchOf j = [])
  itemFlushes : ∀ k ∈ h.itemFlushes, k < s.items.started ∧ (flushingItems s.main = some k ∨ s.items.holding k = [])

/-- What was there was late, and what came is brought. -/
theorem subset_brought {α : Type} [DecidableEq α] {old new late : List α} {was is : Bool}
    (h : was = true → old ⊆ late) (hempties : is = true → was = true ∨ new = []) (his : is = true) :
    new ⊆ late ++ brought was old new := by
  intro x hx
  rcases hempties his with hwas | rfl
  · by_cases hold : x ∈ old
    · exact List.mem_append_left _ (h hwas hold)
    · refine List.mem_append_right _ ?_
      rw [brought, if_pos hwas]
      exact List.mem_filter.mpr ⟨hx, decide_eq_true hold⟩
  · cases hx

theorem Emptied.next {h : AirHistory} (he : Emptied s h) (ht : Empties s t)
    (hg : Grows s.buffer t.buffer s.items t.items)
    (hf : ∀ j ∈ begun a s.buffer.flushes.length t.buffer.flushes.length,
      j < t.buffer.flushes.length ∧ flushing t.main = some j)
    (hi : ∀ k ∈ begun a s.items.started t.items.started, k < t.items.started ∧ flushingItems t.main = some k) :
    Emptied t (h.next s a t) := by
  refine ⟨fun hm => ?_, fun hm => ?_, fun hm => ?_, ?_, fun j hj => ?_, fun k hk => ?_⟩
  · exact fun x hx => List.mem_append_left _ (List.mem_append_left _ (subset_brought he.buffer ht.buffer hm hx))
  · intro x hx
    rcases List.mem_append.mp (subset_brought he.collector ht.collector hm hx) with hx | hx
    · exact List.mem_append_left _ (List.mem_append_left _ (List.mem_append_left _ hx))
    · exact List.mem_append_left _ (List.mem_append_right _ hx)
  · intro x hx
    rcases List.mem_append.mp (subset_brought he.queue ht.queue hm hx) with hx | hx
    · exact List.mem_append_left _ (List.mem_append_left _ (List.mem_append_left _ hx))
    · exact List.mem_append_right _ hx
  · exact subset_brought he.items ht.items
  · rcases List.mem_append.mp hj with hj | hj
    · obtain ⟨hlt, hj⟩ := he.flushes j hj
      refine ⟨Nat.lt_of_lt_of_le hlt hg.length, ?_⟩
      rcases hj with hj | hj
      · exact (ht.flush j hj).imp_right (hg.batch j hlt)
      · exact .inr (hg.batch j hlt hj)
    · exact ⟨(hf j hj).1, .inl (hf j hj).2⟩
  · rcases List.mem_append.mp hk with hk | hk
    · obtain ⟨hlt, hk⟩ := he.itemFlushes k hk
      refine ⟨Nat.lt_of_lt_of_le hlt hg.started, ?_⟩
      rcases hk with hk | hk
      · exact (ht.itemFlush k hk).imp_right (hg.holding k hlt)
      · exact .inr (hg.holding k hlt hk)
    · exact ⟨(hi k hk).1, .inl (hi k hk).2⟩

theorem Emptied.turn {h : AirHistory} (he : Emptied s h) (ht : s.turn st threads handled a = some t) :
    Emptied t (h.next s a t) := by
  cases a with
  | main a =>
    have hs := steered ht
    refine he.next (empties_of_steered hs) (grows_of_steered hs) (fun j hj => ?_) fun k hk => ?_
    · obtain ⟨hlt, hle⟩ := List.mem_filter.mp hj
      have hlt := List.mem_range.mp hlt
      exact ⟨hlt, flushing_of_begun hs (of_decide_eq_true hle) hlt⟩
    · obtain ⟨hlt, hle⟩ := List.mem_filter.mp hk
      have hlt := List.mem_range.mp hlt
      exact ⟨hlt, flushingItems_of_begun hs (of_decide_eq_true hle) hlt⟩
  | worker w a =>
    have hw := worked ht
    exact he.next (empties_of_main (worked_main hw)) (grows_of_worked hw) nofun nofun
  | buffer a =>
    have hb := buffered ht
    exact he.next (empties_of_main (buffered_main hb)) (grows_of_buffered hb) nofun nofun

/-- While a check is made nothing has been emptied, and the main thread is in no flush. -/
theorem Emptied.mark {h : AirHistory} (he : Emptied s h) (slip : Bool) : Emptied (s.mark slip) h := by
  unfold AirScheduler.mark
  split
  · rename_i hm
    have hf := he.flushes
    have hi := he.itemFlushes
    rw [hm] at hf hi
    exact ⟨nofun, nofun, nofun, nofun, hf, hi⟩
  · exact he

theorem Emptied.step {h : AirHistory} (he : Emptied s h) (ht : s.step st threads handled a = some t) :
    Emptied t (h.next s a t) := by
  obtain ⟨u, hu, ⟨_, next, _, -, rfl⟩ | ⟨-, -, rfl⟩⟩ := step_cases ht
  · have hnext : h.next s a (u.mark (s.slips next a)) = h.next s a u := by rw [mark_eq]; rfl
    rw [hnext]
    exact (he.turn hu).mark _
  · exact he.turn hu

theorem emptied_of_reachable {h : AirHistory} (hr : (recorded st threads handled).Reachable (s, h)) : Emptied s h := by
  refine Machine.Within.induct (I := fun x => Emptied x.1 x.2) (fun x hx => ?_) (fun x a y he _ hy => ?_) hr
  · obtain ⟨hs, hh⟩ := hx
    rw [hs, hh]
    exact ⟨nofun, nofun, nofun, nofun, nofun, nofun⟩
  · obtain ⟨hstep, hh⟩ := Machine.withHistory_step.mp hy
    rw [hh]
    exact he.step hstep

/-! ## What is lost -/

def Unpersisted (s : AirScheduler) (x : AirPut) : Prop :=
  x ∈ s.items.pending ∨ (∃ k, x ∈ s.items.holding k) ∨ x ∈ s.items.lost

/-- The ways to end after which a request need not be kept. -/
def EndsWell (s : AirScheduler) (n : Nat) : AirFate → Prop
  | .dropped | .failed | .retried => True
  | .completed => ∀ x, s.Unpersisted x → x.serial ≠ n
  | .crashed => False

/-- Each put is in the file, or was dropped, given to `_fail` or put again, or was
completed with its items persisted. -/
def Keeps (s : AirScheduler) (file : List (Tagged AirPut)) : Prop :=
  ∀ n < s.puts, (∃ x ∈ file, x.tag.serial = n) ∨ ∃ fate, (n, fate) ∈ s.fates ∧ s.EndsWell n fate

/-- An item came late and is still there, another thread's flush has it, or it was lost. -/
def Missed (s : AirScheduler) (h : AirHistory) (x : AirPut) : Prop :=
  (x ∈ s.items.pending ∧ x ∈ h.lateItems) ∨ (∃ k, k ∉ h.itemFlushes ∧ x ∈ s.items.holding k) ∨ x ∈ s.items.lost

/-- Nothing has come late to the places that are emptied, no flush of another thread and
no worker has a request, and no request has ended badly. -/
structure Settled (s : AirScheduler) (h : AirHistory) (cut : Option Nat) : Prop where
  late : ∀ x ∈ s.buffer.pending ++ s.collected ++ s.queue, x.tag.serial ∉ h.late
  flushes : ∀ j, j ∉ h.flushes → s.buffer.batchOf j = []
  workers : ∀ w, (s.workers w).held = []
  crashed : ∀ n, (n, .crashed) ∉ s.fates
  items : ∀ x, s.Missed h x → (x.serial, .completed) ∉ s.fates
  cut : ∀ k, cut = some k → s.leftovers.length ≤ k

theorem ends_pos {fates : List (Nat × AirFate)} : 0 < ends n fates ↔ ∃ fate, (n, fate) ∈ fates := by
  induction fates with
  | nil => simp [ends]
  | cons x fates ih =>
    obtain ⟨m, fate⟩ := x
    rw [ends_cons]
    split
    · rename_i hm
      subst hm
      exact ⟨fun _ => ⟨fate, List.mem_cons_self⟩, fun _ => by omega⟩
    · rename_i hm
      simp [ih, Ne.symm hm]

/-- A put that has ended once has ended in one way. -/
theorem fate_unique {fates : List (Nat × AirFate)} (h : ends n fates ≤ 1) {f g : AirFate} (hf : (n, f) ∈ fates)
    (hg : (n, g) ∈ fates) : f = g := by
  induction fates with
  | nil => cases hf
  | cons x fates ih =>
    obtain ⟨m, fate⟩ := x
    rw [ends_cons] at h
    -- a second entry would count it twice
    have hlast {e : AirFate} (he : (n, e) ∈ fates) : m ≠ n := by
      have hpos := ends_pos.mpr ⟨e, he⟩
      rintro rfl
      rw [if_pos rfl] at h
      omega
    rcases List.mem_cons.mp hf with hf' | hf'
    · cases hf'
      rcases List.mem_cons.mp hg with hg' | hg'
      · cases hg'
        rfl
      · exact absurd rfl (hlast hg')
    · rcases List.mem_cons.mp hg with hg' | hg'
      · cases hg'
        exact absurd rfl (hlast hf')
      · exact ih (by omega) hf' hg'

theorem hands_pos {workers : Nat → AirPhase} (hlt : w < threads) {x : Tagged AirPut} (hx : x ∈ (workers w).held) :
    0 < hands x.tag.serial threads workers := by
  have hw : 0 < times x.tag.serial (workers w).held := times_pos.mpr ⟨x, hx, rfl⟩
  rw [hands, ← Finset.add_sum_erase _ _ (Finset.mem_range.mpr hlt)]
  omega

/-- What a dump that is cut short leaves in the file. -/
def written (s : AirScheduler) (cut : Option Nat) : List (Tagged AirPut) := (cut.map s.leftovers.take).getD s.leftovers

theorem dump_of_turn (h : s.turn st threads handled a = some t) (hs : s.main ≠ .ended) (ht : t.main = .ended) :
    ∃ cut, a = .main (.dump cut) ∧ s.main = .tearing .dump ∧
      t = { s with
        main := .ended
        dumpFile := s.dumpFile ++ if st.DUMP_UNFINISHED_ON_EXIT then s.written cut else [] } := by
  cases a with
  | main a =>
    cases steered h with
    | dump cut hm => exact ⟨cut, rfl, hm, rfl⟩
    | stop | seed => exact absurd ht hs
    | tear step _ hm h =>
      obtain ⟨step', hstep⟩ := torn_main hm h
      exact absurd (hstep.symm.trans ht) nofun
    | _ => cases ht
  | worker w a => exact absurd ((worked_main (worked h)).symm.trans ht) hs
  | buffer a => exact absurd ((buffered_main (buffered h)).symm.trans ht) hs

/-- The dump is the last step of a run. -/
theorem dump_of_step (h : s.step st threads handled a = some t) (ht : t.main = .ended) :
    ∃ cut, a = .main (.dump cut) ∧
      t = { s with
        main := .ended
        dumpFile := s.dumpFile ++ if st.DUMP_UNFINISHED_ON_EXIT then s.written cut else [] } ∧
      s.main = .tearing .dump := by
  obtain ⟨u, hu, ⟨_, next, _, hm, rfl⟩ | ⟨-, hended, rfl⟩⟩ := step_cases h
  · have hmark : u.main = .ended := by
      unfold mark at ht
      split at ht
      · cases ht
      · exact ht
    obtain ⟨_, -, hdump, -⟩ := dump_of_turn hu (hm ▸ nofun) hmark
    exact absurd (hm.symm.trans hdump) nofun
  · obtain ⟨cut, ha, hm, h⟩ := dump_of_turn hu hended ht
    exact ⟨cut, ha, h, hm⟩

theorem mem_written {cut : Option Nat} {x : Tagged AirPut} (h : x ∈ s.written cut) : x ∈ s.leftovers := by
  cases cut with
  | none => exact h
  | some k => exact List.mem_of_mem_take h

theorem serial_mem {l : List (Tagged AirPut)} {x : Tagged AirPut} (h : x ∈ l) : x.tag.serial ∈ serials l :=
  List.mem_map.mpr ⟨x, h, rfl⟩

theorem mem_pending_or_batchOf {b : BufferThreads AirPut} {x : Tagged AirPut} (h : x ∈ b.entries) :
    x ∈ b.pending ∨ ∃ j, x ∈ b.batchOf j := by
  refine (BufferThreads.mem_entries.mp h).imp_right fun ⟨f, hf, hx⟩ => ?_
  obtain ⟨j, hj⟩ := List.mem_iff_getElem?.mp hf
  refine ⟨j, ?_⟩
  rwa [BufferThreads.batchOf, hj]

section
variable {h : AirHistory} {cut : Option Nat} (he : Emptied s h) (hm : s.main = .tearing .dump)
include he hm

/-- The main thread's own flushes are over. -/
theorem Emptied.batchOf {j : Nat} (hj : j ∈ h.flushes) : s.buffer.batchOf j = [] := by
  refine (he.flushes j hj).2.resolve_left fun h => ?_
  rw [hm] at h
  cases h

theorem Emptied.holding {k : Nat} (hk : k ∈ h.itemFlushes) : s.items.holding k = [] := by
  refine (he.itemFlushes k hk).2.resolve_left fun h => ?_
  rw [hm] at h
  cases h

/-- What is not persisted when the dump is written. -/
theorem Emptied.unpersisted_iff {x : AirPut} : s.Unpersisted x ↔ s.Missed h x := by
  have hlate : s.items.pending ⊆ h.lateItems := he.items (by rw [hm]; rfl)
  refine or_congr ⟨fun hx => ⟨hx, hlate hx⟩, And.left⟩ (or_congr_left (exists_congr fun k => ?_))
  refine ⟨fun hk => ⟨fun hmem => ?_, hk⟩, And.right⟩
  rw [he.holding hm hmem] at hk
  cases hk

/-- The teardown has emptied every place, so nothing is there that did not come late. -/
theorem Settled.empty (hs : s.Settled h cut) : s.buffer.entries = [] ∧ s.queue = [] ∧ s.collected = [] := by
  have hplaces : s.buffer.pending ++ s.collected ++ s.queue = [] := by
    refine List.eq_nil_iff_forall_not_mem.mpr fun x hx => hs.late x hx ?_
    rcases List.mem_append.mp hx with hx | hx
    · rcases List.mem_append.mp hx with hx | hx
      · exact he.buffer (by rw [hm]; rfl) (serial_mem hx)
      · exact he.collector (by rw [hm]; rfl) (serial_mem hx)
    · exact he.queue (by rw [hm]; rfl) (serial_mem hx)
  obtain ⟨hplaces, hqueue⟩ := List.append_eq_nil_iff.mp hplaces
  obtain ⟨hpending, hcollected⟩ := List.append_eq_nil_iff.mp hplaces
  refine ⟨List.eq_nil_iff_forall_not_mem.mpr fun x hx => ?_, hqueue, hcollected⟩
  rcases mem_pending_or_batchOf hx with hx | ⟨j, hx⟩
  · rw [hpending] at hx
    cases hx
  · have hj : s.buffer.batchOf j = [] := by
      by_cases hown : j ∈ h.flushes
      · exact he.batchOf hm hown
      · exact hs.flushes j hown
    rw [hj] at hx
    cases hx

/-- Nothing is elsewhere, so each put is with the leftovers or has ended. -/
theorem Settled.keeps (hs : s.Settled h cut) (hc : Conserved threads s) : s.Keeps (s.written cut) := by
  intro n hn
  obtain ⟨hbuffer, hqueue, hcollected⟩ := hs.empty he hm
  have hhands : hands n threads s.workers = 0 := Finset.sum_eq_zero fun w _ => by rw [hs.workers w, times_nil]
  have honce : placed threads n s = 1 := by rw [hc.once, if_pos hn]
  rw [placed, hbuffer, hqueue, hcollected, hhands, times_nil] at honce
  by_cases hleft : 0 < times n s.leftovers
  · refine .inl ?_
    obtain ⟨x, hx, hserial⟩ := times_pos.mp hleft
    refine ⟨x, ?_, hserial⟩
    cases cut with
    | none => exact hx
    | some k =>
      show x ∈ s.leftovers.take k
      rwa [List.take_of_length_le (hs.cut k rfl)]
  · obtain ⟨fate, hfate⟩ := ends_pos.mp (show 0 < ends n s.fates by omega)
    refine .inr ⟨fate, hfate, ?_⟩
    cases fate with
    | dropped | failed | retried => trivial
    | completed =>
      rintro x hx rfl
      exact hs.items x ((he.unpersisted_iff hm).mp hx) hfate
    | crashed => exact hs.crashed n hfate

end

theorem Conserved.placed_eq_one (hc : Conserved threads s) (hp : 0 < placed threads n s) :
    n < s.puts ∧ placed threads n s = 1 := by
  have honce := hc.once n
  split at honce
  · exact ⟨‹_›, honce⟩
  · omega

section
variable {cut : Option Nat} (hc : Conserved threads s) (hk : s.Keeps (s.written cut))
include hc hk

/-- A put that is kept is with the leftovers or has ended. -/
theorem pos_of_keeps (hp : 0 < placed threads n s) : 0 < times n s.leftovers + ends n s.fates := by
  rcases hk n (hc.placed_eq_one hp).1 with ⟨x, hx, hserial⟩ | ⟨fate, hfate, -⟩
  · have := times_pos.mpr ⟨x, mem_written hx, hserial⟩
    omega
  · have := ends_pos.mpr ⟨fate, hfate⟩
    omega

/-- So it is nowhere else. -/
theorem elsewhere_of_keeps (n : Nat) :
    times n s.buffer.entries + times n s.queue + times n s.collected + hands n threads s.workers = 0 := by
  by_contra hpos
  have hp : 0 < placed threads n s := by
    rw [placed]
    omega
  have hone := (hc.placed_eq_one hp).2
  have := pos_of_keeps hc hk hp
  rw [placed] at hone
  omega

theorem endsWell_of_keeps {fate : AirFate} (hf : (n, fate) ∈ s.fates) : s.EndsWell n fate := by
  have hpos := ends_pos.mpr ⟨fate, hf⟩
  obtain ⟨hn, hone⟩ := hc.placed_eq_one (n := n) (by rw [placed]; omega)
  rw [placed] at hone
  rcases hk n hn with ⟨x, hx, hserial⟩ | ⟨other, hother, hwell⟩
  · have := times_pos.mpr ⟨x, mem_written hx, hserial⟩
    omega
  · rwa [fate_unique (by omega) hf hother]

end

theorem eq_nil_of_times {l : List (Tagged AirPut)} (h : ∀ n, times n l = 0) : l = [] := by
  refine List.eq_nil_iff_forall_not_mem.mpr fun x hx => ?_
  exact absurd (h x.tag.serial) (Nat.ne_of_gt (times_pos.mpr ⟨x, hx, rfl⟩))

/-- A leftover that is not written is kept nowhere. -/
theorem length_le_of_keeps {k : Nat} (hc : Conserved threads s) (hk : s.Keeps (s.written (some k))) :
    s.leftovers.length ≤ k := by
  by_contra hlen
  have hlen : k < s.leftovers.length := Nat.lt_of_not_le hlen
  let x := s.leftovers[k]
  have hdrop : 0 < times x.tag.serial (s.leftovers.drop k) :=
    times_pos.mpr ⟨x, List.mem_drop_iff_getElem.mpr ⟨0, by omega, rfl⟩, rfl⟩
  have hsplit : times x.tag.serial s.leftovers =
      times x.tag.serial (s.leftovers.take k) + times x.tag.serial (s.leftovers.drop k) := by
    rw [← times_append, List.take_append_drop]
  obtain ⟨hn, hone⟩ := hc.placed_eq_one (n := x.tag.serial) (by rw [placed]; omega)
  rw [placed] at hone
  rcases hk x.tag.serial hn with hw | ⟨fate, hfate, -⟩
  · have : 0 < times x.tag.serial (s.leftovers.take k) := times_pos.mpr hw
    omega
  · have := ends_pos.mpr ⟨fate, hfate⟩
    omega

theorem Settled.of_keeps {h : AirHistory} {cut : Option Nat} (he : Emptied s h) (hm : s.main = .tearing .dump)
    (hc : Conserved threads s) (hl : Linked threads s) (hk : s.Keeps (s.written cut)) : s.Settled h cut := by
  have helse := elsewhere_of_keeps hc hk
  have hentries : s.buffer.entries = [] := eq_nil_of_times fun n => by
    have := helse n
    omega
  have hcollected : s.collected = [] := eq_nil_of_times fun n => by
    have := helse n
    omega
  have hqueue : s.queue = [] := eq_nil_of_times fun n => by
    have := helse n
    omega
  refine ⟨fun x hx => ?_, fun j _ => ?_, fun w => ?_, fun n => endsWell_of_keeps hc hk, fun x hx hf => ?_, ?_⟩
  · rw [(List.append_eq_nil_iff.mp hentries).1, hcollected, hqueue] at hx
    cases hx
  · cases hj : s.buffer.flushes[j]? with
    | none => rw [BufferThreads.batchOf, hj]; rfl
    | some f =>
      rw [BufferThreads.batchOf, hj]
      exact List.flatMap_eq_nil_iff.mp (List.append_eq_nil_iff.mp hentries).2 f (List.mem_of_getElem? hj)
  · refine List.eq_nil_iff_forall_not_mem.mpr fun x hx => ?_
    have hw : w < threads := hl.lt fun hw => by
      rw [hw] at hx
      cases hx
    have := hands_pos hw hx
    have := helse x.tag.serial
    omega
  · exact endsWell_of_keeps hc hk hf x ((he.unpersisted_iff hm).mpr hx) rfl
  · rintro k rfl
    exact length_le_of_keeps hc hk

/-- The crawl keeps every put if and only if, when the dump is written, nothing that came
late to an emptied place is there, no other flush and no worker has a request, and no
request has ended badly. -/
theorem keeps_iff (st : Setting) (threads : Nat) (handled : Bool) (hst : st.DUMP_UNFINISHED_ON_EXIT = true)
    {as : List AirAct} (he : (airMachine st threads handled).exec {} as = some t) (ht : t.main = .ended) :
    ∃ bs cut s h, as = bs ++ [AirAct.main (.dump cut)] ∧ (recorded st threads handled).exec ({}, {}) bs = some (s, h) ∧
      (t.Keeps t.dumpFile ↔ s.Settled h cut) := by
  rcases List.eq_nil_or_concat as with rfl | ⟨bs, a, rfl⟩
  · cases he
    cases ht
  · rw [List.concat_eq_append, Machine.exec_append] at he
    obtain ⟨s, hs, he⟩ := Option.bind_eq_some_iff.mp he
    obtain ⟨_, hstep, hnil⟩ := Option.bind_eq_some_iff.mp he
    cases hnil
    obtain ⟨cut, rfl, rfl, hm⟩ := dump_of_step hstep ht
    have hex : ∃ h, (recorded st threads handled).exec ({}, {}) bs = some (s, h) :=
      Machine.exec_withHistory hs ({} : AirHistory)
    obtain ⟨h, hh⟩ := hex
    refine ⟨bs, cut, s, h, List.concat_eq_append, hh, ?_⟩
    have hreach : (airMachine st threads handled).Reachable s := Machine.Reachable.exec (.start rfl) hs
    have hstart : (recorded st threads handled).Reachable ({}, {}) := .start ⟨rfl, rfl⟩
    have hemptied : Emptied s h := emptied_of_reachable (hstart.exec hh)
    have hc := conserved_of_reachable hreach
    have hfile : s.dumpFile = [] := hc.dumpFile (hm ▸ nofun)
    rw [if_pos hst, hfile, List.nil_append]
    have hkeeps : s.Keeps (s.written cut) ↔ s.Settled h cut :=
      ⟨Settled.of_keeps hemptied hm hc (linked_of_reachable hreach), fun hs => hs.keeps hemptied hm hc⟩
    exact hkeeps

/-- A crawl of one thread up to its threads' start, with one seed. -/
def oneSeed : List AirAct :=
  [.main (.seed 0 { url := "x" }), .main .seedFlush, .buffer (.filter 0 .fresh), .buffer (.push 0 true),
    .main .seedReturn, .main .start]

/-- It is stopped, and the dump is written; the queue has as many requests as `queued`. -/
def stopAndDump (queued : Nat) : List AirAct :=
  [AirAct.main .stop, .main .loop] ++ List.replicate (8 + queued) (AirAct.main .tear) ++ [AirAct.main (.dump none)]

/-- The seed is in the queue when the crawl is stopped. -/
theorem keeps_iff_oneSeed :
    ∃ t bs cut s h, (airMachine {} 1 false).exec {} (oneSeed ++ stopAndDump 1) = some t ∧ t.main = .ended ∧
      oneSeed ++ stopAndDump 1 = bs ++ [AirAct.main (.dump cut)] ∧ (recorded {} 1 false).exec ({}, {}) bs = some (s, h) ∧
        t.Keeps t.dumpFile ∧ s.Settled h cut := by
  have hran : ((airMachine {} 1 false).exec {} (oneSeed ++ stopAndDump 1)).map
      (fun t => (t.main, t.puts, serials t.dumpFile)) = some (.ended, 1, [0]) := by decide +kernel
  obtain ⟨t, he, hs⟩ := Option.map_eq_some_iff.mp hran
  obtain ⟨ht, hs⟩ := Prod.mk.inj hs
  obtain ⟨hputs, hfile⟩ := Prod.mk.inj hs
  have hk : t.Keeps t.dumpFile := by
    intro n hn
    obtain rfl : n = 0 := by omega
    have hmem : 0 ∈ serials t.dumpFile := by rw [hfile]; exact List.mem_singleton_self 0
    exact .inl (List.mem_map.mp hmem)
  obtain ⟨bs, cut, s, h, hbs, hh, hiff⟩ := keeps_iff {} 1 false rfl he ht
  exact ⟨t, bs, cut, s, h, he, ht, hbs, hh, hk, hiff.mp hk⟩

/-- A worker that outlives its join has the seed. -/
def oneBusy : List AirAct :=
  oneSeed ++ [AirAct.worker 0 .enter, .worker 0 .pop, .worker 0 (.take 0), .worker 0 .extend, .worker 0 .mark,
    .worker 0 .begin]

/-- No step of the teardown collects what a worker is at. -/
theorem oneBusy_lost : ∃ s, (airMachine {} 1 false).Reachable s ∧ s.main = .ended ∧ ¬s.Keeps s.dumpFile := by
  have hran : ((airMachine {} 1 false).exec {} (oneBusy ++ stopAndDump 0)).map
      (fun s => (s.main, s.puts, s.dumpFile.length, s.fates.length)) = some (.ended, 1, 0, 0) := by decide +kernel
  obtain ⟨s, he, hs⟩ := Option.map_eq_some_iff.mp hran
  obtain ⟨hm, hs⟩ := Prod.mk.inj hs
  obtain ⟨hputs, hs⟩ := Prod.mk.inj hs
  obtain ⟨hfile, hfates⟩ := Prod.mk.inj hs
  refine ⟨s, Machine.Reachable.exec (.start rfl) he, hm, fun hk => ?_⟩
  rcases hk 0 (by rw [hputs]; exact Nat.zero_lt_one) with ⟨x, hx, -⟩ | ⟨fate, hfate, -⟩
  · rw [List.length_eq_zero_iff.mp hfile] at hx
    cases hx
  · rw [List.length_eq_zero_iff.mp hfates] at hfate
    cases hfate

end AirScheduler

end Netspy
