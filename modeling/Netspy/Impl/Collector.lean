import Mathlib.Data.List.Basic

/-!
# `core/collector.py`

The buffer between the task queue and the workers. A request object is told
apart from others by its identity, so `ρ` is the type of identities (`id(r)`
in the source), and `_in_progress`, a dict keyed by them, is a list without
repetitions. The calls to the queue are made by who calls these functions:
`get_request` is `popBuffer`, or, if that finds nothing, the queue's answer
handed to `received`.
-/

namespace Netspy

structure Collector (ρ : Type) where
  buffer : List ρ := []
  inProgress : List ρ := []
  deriving Repr, DecidableEq

namespace Collector

variable {ρ : Type} [DecidableEq ρ]

/-- `_mark_in_progress`. -/
def mark (c : Collector ρ) (r : ρ) : Collector ρ :=
  { c with inProgress := if r ∈ c.inProgress then c.inProgress else c.inProgress ++ [r] }

/-- The first locked section of `get_request`. -/
def popBuffer (c : Collector ρ) : Option (ρ × Collector ρ) :=
  match c.buffer with
  | [] => none
  | r :: rest => some (r, { c with buffer := rest }.mark r)

/-- The rest of `get_request`, when the queue gave `first` and then `extra`. -/
def received (c : Collector ρ) (first : ρ) (extra : List ρ) : Collector ρ :=
  { c with buffer := c.buffer ++ extra }.mark first

/-- The locked section of `done`; the queue's own `done` follows it. -/
def done (c : Collector ρ) (r : ρ) : Collector ρ :=
  { c with inProgress := c.inProgress.filter (· ≠ r) }

def heldRequests (c : Collector ρ) : List ρ := c.buffer ++ c.inProgress

/-- `is_empty`, given whether the queue is. -/
def isEmpty (c : Collector ρ) (queueEmpty : Bool) : Bool :=
  c.buffer.isEmpty && c.inProgress.isEmpty && queueEmpty

def bufferedCount (c : Collector ρ) : Nat := c.buffer.length

def drain (c : Collector ρ) : List ρ × Collector ρ := (c.buffer, { c with buffer := [] })

@[simp] theorem mem_mark {c : Collector ρ} {r q : ρ} :
    q ∈ (c.mark r).inProgress ↔ q = r ∨ q ∈ c.inProgress := by
  unfold mark
  dsimp only
  split
  · exact ⟨.inr, fun h => h.elim (fun e => e ▸ ‹_›) id⟩
  · simp only [List.mem_append, List.mem_singleton]
    exact or_comm

@[simp] theorem mem_done {c : Collector ρ} {r q : ρ} :
    q ∈ (c.done r).inProgress ↔ q ≠ r ∧ q ∈ c.inProgress := by
  simp only [done, List.mem_filter, decide_eq_true_eq]
  exact and_comm

/-- The request that `get_request` returns is in progress, whether it came from
the buffer or from the queue. -/
theorem popBuffer_inProgress {c c' : Collector ρ} {r : ρ} (h : c.popBuffer = some (r, c')) :
    r ∈ c'.inProgress := by
  unfold popBuffer at h
  split at h
  · cases h
  · cases h
    simp

theorem received_inProgress (c : Collector ρ) (r : ρ) (extra : List ρ) :
    r ∈ (c.received r extra).inProgress := by
  simp [received]

/-- Calling `done` for each of `rs` removes exactly these. -/
theorem mem_foldl_done {c : Collector ρ} {rs : List ρ} {q : ρ} :
    q ∈ (rs.foldl done c).inProgress ↔ q ∉ rs ∧ q ∈ c.inProgress := by
  induction rs generalizing c with
  | nil => simp
  | cons r rs ih =>
    rw [List.foldl_cons, ih, mem_done, List.mem_cons, not_or]
    tauto

end Collector

end Netspy
