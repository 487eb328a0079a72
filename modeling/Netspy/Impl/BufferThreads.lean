import Mathlib.Data.List.Flatten
import Netspy.Impl.RequestBuffer

/-!
# The request buffer and its threads, step by step

`RequestBuffer.flush` is called by the buffer's own thread and by every thread
whose `put` fills the buffer. Between its swap, its calls to the filter and
its calls to the queue other threads may put and flush, so here each of them
is a step of its own. A request is kept with a tag `α`, by which it is told
apart. What the filter answers, and whether the queue takes a request, is
decided by who calls these functions.

No step loses a request or makes two of one, and none makes a request ask the
filter that did not have to (`Sifts`).
-/

namespace Netspy

/-- Setting one entry of a list leaves the others. -/
theorem mem_set_or {α : Type} {l : List α} {j : Nat} {x z : α} (y : α) (hj : l[j]? = some x)
    (hz : z ∈ l) : z ∈ l.set j y ∨ z = x := by
  obtain ⟨i, hi⟩ := List.mem_iff_getElem?.mp hz
  by_cases hij : j = i
  · subst hij
    exact .inr (Option.some.inj (hi.symm.trans hj))
  · refine .inl (List.mem_iff_getElem?.mpr ⟨i, ?_⟩)
    rw [List.getElem?_set_ne hij]
    exact hi

theorem mem_set_self {α : Type} {l : List α} {j : Nat} {x : α} (y : α) (hj : l[j]? = some x) :
    y ∈ l.set j y :=
  List.mem_set (List.getElem?_eq_some_iff.mp hj).1 y

structure Tagged (α : Type) where
  tag : α
  request : Request
  deriving Repr, DecidableEq

/-- A call of `flush`: what is left of its batch, and whether the first of it is
past the filter. -/
structure RequestFlush (α : Type) where
  batch : List (Tagged α)
  passed : Bool := false
  deriving Repr, DecidableEq

/-- What the flush has not asked the filter about. -/
def RequestFlush.unasked {α : Type} (f : RequestFlush α) : List (Tagged α) :=
  if f.passed then f.batch.tail else f.batch

inductive Answer where
  | fresh
  | seen
  | raised
  deriving Repr, DecidableEq

def BufferThreads.answerOf : Except Exn Bool → Answer
  | .ok true => .fresh
  | .ok false => .seen
  | .error _ => .raised

structure BufferThreads (α : Type) where
  pending : List (Tagged α) := []
  flushes : List (RequestFlush α) := []
  deriving Repr, DecidableEq

namespace BufferThreads

variable {α : Type}

def put (b : BufferThreads α) (x : Tagged α) : BufferThreads α := { b with pending := b.pending ++ [x] }

/-- The swap at the head of `flush`. -/
def swap (b : BufferThreads α) : BufferThreads α where
  pending := []
  flushes := b.flushes ++ [{ batch := b.pending }]

def setFlush (b : BufferThreads α) (j : Nat) (f : RequestFlush α) : BufferThreads α :=
  { b with flushes := b.flushes.set j f }

/-- `_requeue`, by which the flush ends. -/
def requeue (b : BufferThreads α) (j : Nat) (requests : List (Tagged α)) : BufferThreads α :=
  { b with pending := requests ++ b.pending }.setFlush j { batch := [] }

def clearFilter (x : Tagged α) : Tagged α := { x with request := { x.request with filterRepeat := false } }

/-- The request that the flush asks the filter about, or puts, next. -/
def asking (b : BufferThreads α) (j : Nat) : Option (Tagged α) :=
  match b.flushes[j]? with
  | some ⟨x :: _, false⟩ => some x
  | _ => none

def putting (b : BufferThreads α) (j : Nat) : Option (Tagged α) :=
  match b.flushes[j]? with
  | some ⟨x :: _, true⟩ => some x
  | _ => none

/-- The flush asks the filter, if the request wants it: the request it drops. -/
def filter (b : BufferThreads α) (j : Nat) (answer : Answer) :
    Option (Option (Tagged α) × BufferThreads α) :=
  match b.flushes[j]? with
  | some ⟨x :: rest, false⟩ =>
    match if x.request.filterRepeat then answer else .fresh with
    | .fresh => some (none, b.setFlush j ⟨x :: rest, true⟩)
    | .seen => some (some x, b.setFlush j ⟨rest, false⟩)
    | .raised => some (none, b.requeue j (x :: rest))
  | _ => none

/-- The flush calls `queue.put`: the request it put. -/
def push (b : BufferThreads α) (j : Nat) (works : Bool) :
    Option (Option (Tagged α) × BufferThreads α) :=
  match b.flushes[j]? with
  | some ⟨x :: rest, true⟩ =>
    if works then some (some x, b.setFlush j ⟨rest, false⟩)
    else some (none, b.requeue j (clearFilter x :: rest))
  | _ => none

/-- It put a request exactly if the call worked. -/
theorem works_of_push {b c : BufferThreads α} {j : Nat} {works : Bool} {pushed : Option (Tagged α)}
    (h : b.push j works = some (pushed, c)) : works = pushed.isSome := by
  unfold push at h
  split at h
  · split at h
    · cases h
      assumption
    · cases h
      exact Bool.eq_false_of_not_eq_true ‹_›
  · cases h

def drainPending (b : BufferThreads α) : List (Tagged α) × BufferThreads α :=
  (b.pending, { b with pending := [] })

/-! ## What is in the buffer -/

/-- What is pending or with a flush. -/
def entries (b : BufferThreads α) : List (Tagged α) := b.pending ++ b.flushes.flatMap RequestFlush.batch

def tags (b : BufferThreads α) : List α := b.entries.map Tagged.tag

/-- What the filter will be asked about. -/
def awaiting (b : BufferThreads α) : List (Tagged α) :=
  (b.pending ++ b.flushes.flatMap RequestFlush.unasked).filter (·.request.filterRepeat)

theorem mem_entries {b : BufferThreads α} {x : Tagged α} :
    x ∈ b.entries ↔ x ∈ b.pending ∨ ∃ f ∈ b.flushes, x ∈ f.batch := by
  simp only [entries, List.mem_append, List.mem_flatMap]

theorem mem_awaiting {b : BufferThreads α} {x : Tagged α} :
    x ∈ b.awaiting ↔ (x ∈ b.pending ∨ ∃ f ∈ b.flushes, x ∈ f.unasked) ∧ x.request.filterRepeat = true := by
  simp only [awaiting, List.mem_filter, List.mem_append, List.mem_flatMap]

/-- What is past the filter: its flag is cleared, or its flush will put it next. -/
def Past (b : BufferThreads α) (x : Tagged α) : Prop :=
  (x ∈ b.entries ∧ x.request.filterRepeat = false) ∨ ∃ j, b.putting j = some x

theorem awaiting_sublist (b : BufferThreads α) : b.awaiting.Sublist b.entries := by
  refine List.filter_sublist.trans ((List.Sublist.refl _).append (.flatMap_right _ fun f _ => ?_))
  unfold RequestFlush.unasked
  split
  · exact List.tail_sublist _
  · exact .refl _

theorem putting_eq_some {b : BufferThreads α} {j : Nat} {x : Tagged α} :
    b.putting j = some x ↔ ∃ rest, b.flushes[j]? = some ⟨x :: rest, true⟩ := by
  unfold putting
  split
  · rename_i y rest hj
    simp [hj]
  · rename_i hne
    simpa using fun rest h => hne x rest h

/-- An entry waits for the filter or is past it. -/
theorem awaiting_or_past {b : BufferThreads α} {x : Tagged α} (h : x ∈ b.entries) :
    x ∈ b.awaiting ∨ b.Past x := by
  by_cases hr : x.request.filterRepeat = true
  · rcases mem_entries.mp h with hp | ⟨f, hf, hx⟩
    · exact .inl (mem_awaiting.mpr ⟨.inl hp, hr⟩)
    · by_cases hu : x ∈ f.unasked
      · exact .inl (mem_awaiting.mpr ⟨.inr ⟨f, hf, hu⟩, hr⟩)
      · -- only the head of a flush that is about to put it is not unasked
        obtain ⟨batch, passed⟩ := f
        obtain ⟨j, hj⟩ := List.mem_iff_getElem?.mp hf
        cases passed with
        | false => exact absurd hx hu
        | true =>
          cases batch with
          | nil => exact absurd hx List.not_mem_nil
          | cons y rest =>
            rcases List.mem_cons.mp hx with rfl | hx
            · exact .inr (.inr ⟨j, putting_eq_some.mpr ⟨rest, hj⟩⟩)
            · exact absurd hx hu
  · exact .inr (.inl ⟨h, Bool.eq_false_of_not_eq_true hr⟩)

theorem Past.mem_entries {b : BufferThreads α} {x : Tagged α} (h : b.Past x) : x ∈ b.entries := by
  rcases h with h | ⟨j, hj⟩
  · exact h.1
  · obtain ⟨rest, hj⟩ := putting_eq_some.mp hj
    exact BufferThreads.mem_entries.mpr (.inr ⟨_, List.mem_of_getElem? hj, List.mem_cons_self⟩)

theorem entries_put (b : BufferThreads α) (x : Tagged α) : (b.put x).entries.Perm (x :: b.entries) := by
  simp only [entries, put, List.append_assoc, List.singleton_append]
  exact List.perm_middle

@[simp] theorem mem_tags_put {b : BufferThreads α} {x : Tagged α} {t : α} :
    t ∈ (b.put x).tags ↔ t = x.tag ∨ t ∈ b.tags := by
  rw [tags, ((entries_put b x).map Tagged.tag).mem_iff, List.map_cons, List.mem_cons, tags]

theorem awaiting_put {b : BufferThreads α} {x y : Tagged α} (h : y ∈ (b.put x).awaiting) :
    y ∈ b.awaiting ∨ y = x := by
  simp only [mem_awaiting, put, List.mem_append, List.mem_singleton] at h ⊢
  rcases h with ⟨(h | rfl) | h, hr⟩
  · exact .inl ⟨.inl h, hr⟩
  · exact .inr rfl
  · exact .inl ⟨.inr h, hr⟩

/-- A step from `b` to `c` that takes out `out`: the tags stay, what is in the
buffer was in it, perhaps with its flag cleared, and the filter will be asked
about nothing new. -/
structure Sifts (b c : BufferThreads α) (out : Option (Tagged α)) : Prop where
  tags : b.tags.Perm (out.toList.map Tagged.tag ++ c.tags)
  entries : ∀ x ∈ c.entries, x ∈ b.entries ∨ ∃ y ∈ b.entries, x = clearFilter y
  awaiting : c.awaiting ⊆ b.awaiting

theorem Sifts.mem_tags {b c : BufferThreads α} {out : Option (Tagged α)} (h : Sifts b c out) {t : α}
    (ht : t ∈ b.tags) : t ∈ c.tags ∨ ∃ x ∈ out, x.tag = t := by
  rcases List.mem_append.mp (h.tags.mem_iff.mp ht) with ht | ht
  · obtain ⟨x, hx, rfl⟩ := List.mem_map.mp ht
    exact .inr ⟨x, Option.mem_toList.mp hx, rfl⟩
  · exact .inl ht

theorem entries_swap (b : BufferThreads α) : b.swap.entries.Perm b.entries := by
  simp only [BufferThreads.entries, swap, List.nil_append, List.flatMap_append, List.flatMap_singleton]
  exact List.perm_append_comm

theorem sifts_swap (b : BufferThreads α) : Sifts b b.swap none := by
  refine ⟨((entries_swap b).map Tagged.tag).symm, fun x hx => .inl ((entries_swap b).mem_iff.mp hx),
    fun x hx => ?_⟩
  obtain ⟨hx, hr⟩ := mem_awaiting.mp hx
  refine mem_awaiting.mpr ⟨?_, hr⟩
  rcases hx with hx | ⟨f, hf, hx⟩
  · exact absurd hx List.not_mem_nil
  · rcases List.mem_append.mp hf with hf | hf
    · exact .inr ⟨f, hf, hx⟩
    · rw [List.mem_singleton.mp hf] at hx
      exact .inl hx

/-- The flushes around flush `j`. -/
theorem flushes_setFlush {b : BufferThreads α} {j : Nat} {f : RequestFlush α} (g : RequestFlush α)
    (hj : b.flushes[j]? = some f) :
    ∃ l₁ l₂, b.flushes = l₁ ++ f :: l₂ ∧ (b.setFlush j g).flushes = l₁ ++ g :: l₂ := by
  obtain ⟨hlt, rfl⟩ := List.getElem?_eq_some_iff.mp hj
  obtain ⟨l₁, l₂, h, -, hs⟩ := @List.exists_of_set (RequestFlush α) j g b.flushes hlt
  exact ⟨l₁, l₂, h, hs⟩

/-- The entries with those of one flush in front. -/
theorem perm_entries {b : BufferThreads α} {back pending : List (Tagged α)} {g : RequestFlush α}
    {l₁ l₂ : List (RequestFlush α)} (hp : b.pending = back ++ pending) (hf : b.flushes = l₁ ++ g :: l₂) :
    b.entries.Perm (back ++ g.batch ++
      (pending ++ l₁.flatMap RequestFlush.batch ++ l₂.flatMap RequestFlush.batch)) := by
  rw [entries, hp, hf, List.flatMap_append, List.flatMap_cons, List.append_assoc back, List.append_assoc back,
    ← List.append_assoc pending]
  exact List.perm_append_comm_assoc .. |>.append_left back

/-- A flush goes on to `g`, with `back` put back to the head of the buffer. -/
theorem sifts_setFlush {b : BufferThreads α} {j : Nat} {f : RequestFlush α} (g : RequestFlush α)
    (back : List (Tagged α)) (out : Option (Tagged α)) (hj : b.flushes[j]? = some f)
    (ht : f.batch.map Tagged.tag = out.toList.map Tagged.tag ++ (back ++ g.batch).map Tagged.tag)
    (he : ∀ x ∈ back ++ g.batch, x ∈ f.batch ∨ ∃ y ∈ f.batch, x = clearFilter y)
    (ha : ∀ x ∈ back ++ g.unasked, x.request.filterRepeat = true → x ∈ f.unasked) :
    Sifts b ({ b with pending := back ++ b.pending }.setFlush j g) out := by
  obtain ⟨l₁, l₂, h₁, h₂⟩ := @flushes_setFlush α { b with pending := back ++ b.pending } j f g hj
  have hb := perm_entries (b := b) (List.nil_append _).symm h₁
  have hc := perm_entries (b := { b with pending := back ++ b.pending }.setFlush j g) rfl h₂
  refine ⟨?_, fun x hx => ?_, fun x hxc => ?_⟩
  · refine (hb.map Tagged.tag).trans (.trans ?_ ((hc.map Tagged.tag).append_left _).symm)
    simp only [List.map_append, List.nil_append, ht, List.append_assoc]
    rfl
  · rcases List.mem_append.mp (hc.mem_iff.mp hx) with hx | hx
    · refine (he x hx).imp (fun hx => ?_) fun ⟨y, hy, h⟩ => ⟨y, ?_, h⟩
      · exact hb.mem_iff.mpr (List.mem_append_left _ hx)
      · exact hb.mem_iff.mpr (List.mem_append_left _ hy)
    · exact .inl (hb.mem_iff.mpr (List.mem_append_right _ hx))
  · obtain ⟨hm, hr⟩ := mem_awaiting.mp hxc
    have hback : x ∈ back ++ g.unasked → x ∈ b.awaiting := fun hx =>
      mem_awaiting.mpr ⟨.inr ⟨f, List.mem_of_getElem? hj, ha x hx hr⟩, hr⟩
    rcases hm with hx | ⟨e, he, hx⟩
    · rcases List.mem_append.mp hx with hx | hx
      · exact hback (List.mem_append_left _ hx)
      · exact mem_awaiting.mpr ⟨.inl hx, hr⟩
    · rcases List.mem_or_eq_of_mem_set he with he | rfl
      · exact mem_awaiting.mpr ⟨.inr ⟨e, he, hx⟩, hr⟩
      · exact hback (List.mem_append_right _ hx)

theorem asking_eq_some {b : BufferThreads α} {j : Nat} {x : Tagged α} :
    b.asking j = some x ↔ ∃ rest, b.flushes[j]? = some ⟨x :: rest, false⟩ := by
  unfold asking
  split
  · rename_i y rest hj
    simp [hj]
  · rename_i hne
    simpa using fun rest h => hne x rest h

theorem mem_awaiting_of_asking {b : BufferThreads α} {j : Nat} {x : Tagged α} (h : b.asking j = some x)
    (hr : x.request.filterRepeat = true) : x ∈ b.awaiting := by
  obtain ⟨rest, hj⟩ := asking_eq_some.mp h
  exact mem_awaiting.mpr ⟨.inr ⟨_, List.mem_of_getElem? hj, List.mem_cons_self⟩, hr⟩

theorem mem_entries_of_asking {b : BufferThreads α} {j : Nat} {x : Tagged α} (h : b.asking j = some x) :
    x ∈ b.entries := by
  obtain ⟨rest, hj⟩ := asking_eq_some.mp h
  exact mem_entries.mpr (.inr ⟨_, List.mem_of_getElem? hj, List.mem_cons_self⟩)

/-- The step that asks the filter: what it drops is what it asked about. -/
theorem sifts_filter {b c : BufferThreads α} {j : Nat} {answer : Answer} {dropped : Option (Tagged α)}
    (h : b.filter j answer = some (dropped, c)) :
    Sifts b c dropped ∧ ∀ x ∈ dropped,
      b.asking j = some x ∧ x.request.filterRepeat = true ∧ answer = .seen := by
  unfold filter at h
  split at h
  · rename_i x rest hj
    split at h
    · cases h
      refine ⟨sifts_setFlush ⟨x :: rest, true⟩ [] none hj rfl (fun _ hx => .inl hx)
        fun y hy _ => List.mem_cons_of_mem x hy, fun y hy => absurd hy (Option.not_mem_none y)⟩
    · rename_i hs
      cases h
      refine ⟨sifts_setFlush ⟨rest, false⟩ [] (some x) hj rfl (fun _ hx => .inl (List.mem_cons_of_mem x hx))
        fun y hy _ => List.mem_cons_of_mem x hy, ?_⟩
      rintro _ ⟨⟩
      refine ⟨asking_eq_some.mpr ⟨rest, hj⟩, ?_⟩
      split at hs
      · exact ⟨‹_›, hs⟩
      · cases hs
    · cases h
      refine ⟨sifts_setFlush { batch := [] } (x :: rest) none hj (by simp) (fun y hy => .inl ?_)
        fun y hy _ => ?_, fun y hy => absurd hy (Option.not_mem_none y)⟩
      · simpa using hy
      · simpa [RequestFlush.unasked] using hy
  · cases h

theorem sifts_push {b c : BufferThreads α} {j : Nat} {works : Bool} {pushed : Option (Tagged α)}
    (h : b.push j works = some (pushed, c)) : Sifts b c pushed := by
  unfold push at h
  split at h
  · rename_i x rest hj
    split at h
    · cases h
      exact sifts_setFlush ⟨rest, false⟩ [] (some x) hj rfl (fun _ hx => .inl (List.mem_cons_of_mem x hx))
        fun y hy _ => hy
    · cases h
      refine sifts_setFlush { batch := [] } (clearFilter x :: rest) none hj (by simp [clearFilter])
        (fun y hy => ?_) fun y hy hr => ?_
      · rcases List.mem_cons.mp (by simpa using hy) with rfl | hy
        · exact .inr ⟨x, List.mem_cons_self, rfl⟩
        · exact .inl (List.mem_cons_of_mem x hy)
      · rcases List.mem_cons.mp (by simpa [RequestFlush.unasked] using hy) with rfl | hy
        · cases hr
        · exact hy
  · cases h

/-! ## What is past the filter -/

theorem putting_setFlush {b : BufferThreads α} {j k : Nat} {f g : RequestFlush α} {x : Tagged α}
    (hj : b.flushes[j]? = some f) (h : (b.setFlush j g).putting k = some x) :
    b.putting k = some x ∨ ∃ rest, g = ⟨x :: rest, true⟩ := by
  obtain ⟨rest, hk⟩ := putting_eq_some.mp h
  by_cases hjk : j = k
  · subst hjk
    rw [setFlush, List.getElem?_set_self (List.getElem?_eq_some_iff.mp hj).1] at hk
    exact .inr ⟨rest, Option.some.inj hk⟩
  · rw [setFlush, List.getElem?_set_ne hjk] at hk
    exact .inl (putting_eq_some.mpr ⟨rest, hk⟩)

theorem past_put {b : BufferThreads α} {x y : Tagged α} (h : (b.put x).Past y) :
    b.Past y ∨ y = x ∧ x.request.filterRepeat = false := by
  rcases h with ⟨hy, hr⟩ | h
  · rcases List.mem_cons.mp ((entries_put b x).mem_iff.mp hy) with rfl | hy
    · exact .inr ⟨rfl, hr⟩
    · exact .inl (.inl ⟨hy, hr⟩)
  · exact .inl (.inr h)

theorem past_swap {b : BufferThreads α} {x : Tagged α} (h : b.swap.Past x) : b.Past x := by
  rcases h with ⟨hx, hr⟩ | ⟨j, hj⟩
  · exact .inl ⟨(entries_swap b).mem_iff.mp hx, hr⟩
  · obtain ⟨rest, hj⟩ := putting_eq_some.mp hj
    refine .inr ⟨j, putting_eq_some.mpr ⟨rest, ?_⟩⟩
    rw [swap, List.getElem?_append] at hj
    split at hj
    · exact hj
    · exact absurd (congrArg RequestFlush.passed (List.mem_singleton.mp (List.mem_of_getElem? hj))) (by simp)

theorem mem_entries_setFlush {b : BufferThreads α} {j : Nat} {g : RequestFlush α}
    {back : List (Tagged α)} {x : Tagged α}
    (h : x ∈ ({ b with pending := back ++ b.pending }.setFlush j g).entries) :
    x ∈ back ++ g.batch ∨ x ∈ b.entries := by
  rcases mem_entries.mp h with hx | ⟨f, hf, hx⟩
  · rcases List.mem_append.mp hx with hx | hx
    · exact .inl (List.mem_append_left _ hx)
    · exact .inr (mem_entries.mpr (.inl hx))
  · rcases List.mem_or_eq_of_mem_set hf with hf | rfl
    · exact .inr (mem_entries.mpr (.inr ⟨f, hf, hx⟩))
    · exact .inl (List.mem_append_right _ hx)

/-- A flush goes on to `g`: what is past the filter then was so before, or is
cleared in `back` or at the head of `g`. -/
theorem past_setFlush {b : BufferThreads α} {j : Nat} {f : RequestFlush α} (g : RequestFlush α)
    (back : List (Tagged α)) {x : Tagged α} (hj : b.flushes[j]? = some f) (hb : ∀ y ∈ back ++ g.batch, y ∈ f.batch ∨ b.Past y)
    (h : ({ b with pending := back ++ b.pending }.setFlush j g).Past x) :
    b.Past x ∨ ∃ rest, g = ⟨x :: rest, true⟩ := by
  rcases h with ⟨hx, hr⟩ | ⟨k, hk⟩
  · refine .inl ?_
    rcases mem_entries_setFlush hx with hx | hx
    · rcases hb x hx with hx | hx
      · exact .inl ⟨mem_entries.mpr (.inr ⟨f, List.mem_of_getElem? hj, hx⟩), hr⟩
      · exact hx
    · exact .inl ⟨hx, hr⟩
  · rcases putting_setFlush hj hk with hk | hg
    · exact .inl (.inr ⟨k, hk⟩)
    · exact .inr hg

theorem past_filter {b c : BufferThreads α} {j : Nat} {answer : Answer} {dropped : Option (Tagged α)}
    {x : Tagged α} (h : b.filter j answer = some (dropped, c)) (hx : c.Past x) :
    b.Past x ∨ b.asking j = some x ∧ x.request.filterRepeat = true ∧ answer = .fresh := by
  unfold filter at h
  split at h
  · rename_i y rest hj
    split at h
    · rename_i hfresh
      cases h
      rcases past_setFlush ⟨y :: rest, true⟩ [] hj (fun _ hz => .inl hz) hx with hx | ⟨_, hg⟩
      · exact .inl hx
      · obtain ⟨rfl, -⟩ := List.cons.inj (RequestFlush.mk.inj hg).1
        by_cases hr : y.request.filterRepeat = true
        · exact .inr ⟨asking_eq_some.mpr ⟨rest, hj⟩, hr, by rwa [if_pos hr] at hfresh⟩
        · refine .inl (.inl ⟨mem_entries_of_asking (asking_eq_some.mpr ⟨rest, hj⟩), ?_⟩)
          exact Bool.eq_false_of_not_eq_true hr
    · cases h
      rcases past_setFlush ⟨rest, false⟩ [] hj (fun _ hz => .inl (List.mem_cons_of_mem y hz)) hx with
        hx | ⟨_, hg⟩
      · exact .inl hx
      · cases hg
    · cases h
      rcases past_setFlush { batch := [] } (y :: rest) hj (fun _ hz => .inl (by simpa using hz)) hx with
        hx | ⟨_, hg⟩
      · exact .inl hx
      · cases hg
  · cases h

theorem pushed_past {b c : BufferThreads α} {j : Nat} {works : Bool} {pushed : Option (Tagged α)}
    (h : b.push j works = some (pushed, c)) : ∀ x ∈ pushed, b.Past x := by
  unfold push at h
  split at h
  · rename_i x rest hj
    split at h
    · cases h
      rintro _ ⟨⟩
      exact .inr ⟨j, putting_eq_some.mpr ⟨rest, hj⟩⟩
    · cases h
      exact fun y hy => absurd hy (Option.not_mem_none y)
  · cases h

/-- A call to the queue that fails clears the flag of the request it was to put. -/
theorem past_push {b c : BufferThreads α} {j : Nat} {works : Bool} {pushed : Option (Tagged α)}
    {x : Tagged α} (h : b.push j works = some (pushed, c)) (hx : c.Past x) :
    b.Past x ∨ ∃ y, b.Past y ∧ x = clearFilter y := by
  unfold push at h
  split at h
  · rename_i y rest hj
    have hy : b.Past y := .inr ⟨j, putting_eq_some.mpr ⟨rest, hj⟩⟩
    split at h
    · cases h
      rcases past_setFlush ⟨rest, false⟩ [] hj (fun _ hz => .inl (List.mem_cons_of_mem y hz)) hx with
        hx | ⟨_, hg⟩
      · exact .inl hx
      · cases hg
    · cases h
      rcases hx with ⟨hx, hr⟩ | ⟨k, hk⟩
      · rcases mem_entries_setFlush hx with hx | hx
        · rcases List.mem_cons.mp (by simpa using hx) with rfl | hx
          · exact .inr ⟨y, hy, rfl⟩
          · refine .inl (.inl ⟨mem_entries.mpr (.inr ⟨_, List.mem_of_getElem? hj, ?_⟩), hr⟩)
            exact List.mem_cons_of_mem y hx
        · exact .inl (.inl ⟨hx, hr⟩)
      · rcases putting_setFlush hj hk with hk | ⟨_, hg⟩
        · exact .inl (.inr ⟨k, hk⟩)
        · cases hg
  · cases h

/-- A request that the filter calls new no longer waits for it. -/
theorem awaiting_fresh {b c : BufferThreads α} {j : Nat} {x : Tagged α} {dropped : Option (Tagged α)}
    (hx : b.asking j = some x) (hr : x.request.filterRepeat = true)
    (h : b.filter j .fresh = some (dropped, c)) : b.awaiting.Perm (x :: c.awaiting) := by
  obtain ⟨rest, hj⟩ := asking_eq_some.mp hx
  simp only [filter, hj, ite_self, Option.some.injEq, Prod.mk.injEq] at h
  obtain ⟨-, rfl⟩ := h
  obtain ⟨l₁, l₂, h₁, h₂⟩ := flushes_setFlush ⟨x :: rest, true⟩ hj
  rw [awaiting, awaiting, h₁, h₂]
  refine List.Perm.trans ?_ (.of_eq (@List.filter_cons_of_pos (Tagged α) (·.request.filterRepeat) x _ hr))
  refine List.Perm.filter _ ?_
  simp only [List.flatMap_append, List.flatMap_cons, ← List.append_assoc]
  exact (List.perm_middle.append_right _)

/-! ## What each flush has -/

/-- What a flush still has. -/
def batchOf (b : BufferThreads α) (j : Nat) : List (Tagged α) := ((b.flushes[j]?).map RequestFlush.batch).getD []

section
variable {b c : BufferThreads α}

theorem batchOf_swap_of_ne (b : BufferThreads α) {j : Nat} (hj : j ≠ b.flushes.length) : b.swap.batchOf j = b.batchOf j := by
  unfold batchOf swap
  dsimp only
  rcases Nat.lt_or_ge j b.flushes.length with hlt | hge
  · rw [List.getElem?_append_left hlt]
  · rw [List.getElem?_eq_none (by simp; omega), List.getElem?_eq_none hge]

theorem batchOf_swap_self (b : BufferThreads α) : b.swap.batchOf b.flushes.length = b.pending := by
  simp [batchOf, swap]

theorem batchOf_setFlush_of_ne (b : BufferThreads α) {i j : Nat} (f : RequestFlush α) (hj : j ≠ i) :
    (b.setFlush i f).batchOf j = b.batchOf j := by
  unfold batchOf setFlush
  dsimp only
  rw [List.getElem?_set_ne (Ne.symm hj)]

theorem batchOf_ne_nil {j : Nat} {f : RequestFlush α} (h : b.flushes[j]? = some f) (hf : f.batch ≠ []) :
    b.batchOf j ≠ [] := by
  rwa [batchOf, h]

/-- What a step of a flush does to the others, and to what is pending. -/
structure Drains (b c : BufferThreads α) (raises : Bool) : Prop where
  pending : raises = false → c.pending = b.pending
  batch : ∀ j, c.batchOf j ≠ [] → b.batchOf j ≠ []
  length : c.flushes.length = b.flushes.length

theorem drains_setFlush {i : Nat} {f g : RequestFlush α} (h : b.flushes[i]? = some f) (hf : f.batch ≠ []) :
    Drains b (b.setFlush i g) false := by
  refine ⟨fun _ => rfl, fun j hj => ?_, List.length_set⟩
  by_cases hij : j = i
  · subst hij
    exact batchOf_ne_nil h hf
  · rwa [batchOf_setFlush_of_ne b g hij] at hj

theorem drains_requeue {i : Nat} {f : RequestFlush α} (requests : List (Tagged α)) (h : b.flushes[i]? = some f)
    (hf : f.batch ≠ []) : Drains b (b.requeue i requests) true := by
  refine ⟨nofun, fun j hj => ?_, List.length_set⟩
  by_cases hij : j = i
  · subst hij
    exact batchOf_ne_nil h hf
  · exact (batchOf_setFlush_of_ne { b with pending := requests ++ b.pending } { batch := [] } hij) ▸ hj

theorem drains_filter {j : Nat} {answer : Answer} {dropped : Option (Tagged α)} (h : b.filter j answer = some (dropped, c)) :
    b.batchOf j ≠ [] ∧ Drains b c (decide (answer = .raised) && (b.asking j).any (·.request.filterRepeat)) := by
  unfold filter at h
  split at h
  · rename_i x rest hj
    have hne : (⟨x :: rest, false⟩ : RequestFlush α).batch ≠ [] := List.cons_ne_nil x rest
    have hasking : b.asking j = some x := asking_eq_some.mpr ⟨rest, hj⟩
    refine ⟨batchOf_ne_nil hj hne, ?_⟩
    rw [hasking]
    split at h
    · cases h
      exact ⟨fun _ => rfl, (drains_setFlush hj hne).batch, List.length_set⟩
    · cases h
      exact ⟨fun _ => rfl, (drains_setFlush hj hne).batch, List.length_set⟩
    · rename_i hraised
      cases h
      split at hraised
      · rename_i hr
        rw [hraised, Option.any_some, hr]
        exact drains_requeue _ hj hne
      · cases hraised
  · cases h

theorem drains_push {j : Nat} {works : Bool} {pushed : Option (Tagged α)} (h : b.push j works = some (pushed, c)) :
    b.batchOf j ≠ [] ∧ Drains b c (!works) := by
  unfold push at h
  split at h
  · rename_i x rest hj
    have hne : (⟨x :: rest, true⟩ : RequestFlush α).batch ≠ [] := List.cons_ne_nil x rest
    refine ⟨batchOf_ne_nil hj hne, ?_⟩
    split at h
    · cases h
      exact ⟨fun _ => rfl, (drains_setFlush hj hne).batch, List.length_set⟩
    · rename_i hworks
      cases h
      rw [Bool.eq_false_of_not_eq_true hworks]
      exact drains_requeue _ hj hne
  · cases h

/-- A flush goes on without raising: what it gives out is what it had before. -/
theorem perm_setFlush {j : Nat} {f g : RequestFlush α} {out : Option (Tagged α)} (hj : b.flushes[j]? = some f)
    (h : f.batch = out.toList ++ g.batch) : b.entries.Perm (out.toList ++ (b.setFlush j g).entries) := by
  obtain ⟨l₁, l₂, h₁, h₂⟩ := flushes_setFlush g hj
  have hb := perm_entries (b := b) (List.nil_append _).symm h₁
  have hc := perm_entries (b := b.setFlush j g) (List.nil_append _).symm h₂
  rw [h, List.nil_append, List.append_assoc] at hb
  exact hb.trans (hc.symm.append_left _)

theorem perm_filter {j : Nat} {answer : Answer} {dropped : Option (Tagged α)} (hr : answer ≠ .raised)
    (h : b.filter j answer = some (dropped, c)) : b.entries.Perm (dropped.toList ++ c.entries) := by
  unfold filter at h
  split at h
  · rename_i x rest hj
    split at h
    · cases h
      exact perm_setFlush hj rfl
    · cases h
      exact perm_setFlush hj rfl
    · rename_i hraised
      split at hraised
      · exact absurd hraised hr
      · cases hraised
  · cases h

theorem perm_push {j : Nat} {pushed : Option (Tagged α)} (h : b.push j true = some (pushed, c)) :
    b.entries.Perm (pushed.toList ++ c.entries) := by
  unfold push at h
  split at h
  · rename_i x rest hj
    cases h
    exact perm_setFlush hj rfl
  · cases h

end

end BufferThreads

end Netspy
