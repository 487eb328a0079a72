import Netspy.Proof.ItemBuffer
import Netspy.Proof.Turn

/-!
# Which request is acknowledged

A worker acknowledges the request it took, unless it put an item into the
item buffer; then the flush that takes the item acknowledges its owner. The
owner is the request that the hooks left bound (`process_owned`). So once its
items are persisted the taken request is acknowledged exactly when there was
no item, or the hooks left the taken request itself bound, or an item of it
was waiting already (`work_acknowledged_iff`).
-/

namespace Netspy

open ItemBuffer

/-- `j'` is `j` after effects in which every item is put for `q`, and
`_deferred` tells whether the put of an item returned. -/
def Owned (q : Ref) (j j' : Job) : Prop :=
  ∃ es, j'.effects = j.effects ++ es ∧ (∀ obj o b, Effect.putItem obj o b ∈ es → o = q) ∧
    (j'.deferred = true ↔ j.deferred = true ∨ ∃ obj o, Effect.putItem obj o true ∈ es)

namespace Owned

variable {q : Ref} {j j₁ j₂ j₃ : Job}

theorem refl (q : Ref) (j : Job) : Owned q j j := ⟨[], by simp, by simp, by simp⟩

theorem trans (h₁ : Owned q j₁ j₂) (h₂ : Owned q j₂ j₃) : Owned q j₁ j₃ := by
  obtain ⟨es, he, ho, hd⟩ := h₁
  obtain ⟨es', he', ho', hd'⟩ := h₂
  refine ⟨es ++ es', by rw [he', he, List.append_assoc], ?_, ?_⟩
  · intro obj o b hm
    rcases List.mem_append.mp hm with hm | hm
    · exact ho obj o b hm
    · exact ho' obj o b hm
  · rw [hd', hd]
    simp only [List.mem_append, exists_or, or_assoc]

/-- An effect that puts no item. -/
theorem emit (h : Owned q j j₁) {e : Effect} (he : ∀ obj o b, e ≠ .putItem obj o b) :
    Owned q j (j₁.emit e) := by
  refine h.trans ⟨[e], rfl, ?_, ?_⟩
  · intro obj o b hm
    exact absurd (List.mem_singleton.mp hm).symm (he obj o b)
  · rw [Job.emit_deferred]
    refine ⟨.inl, fun hm => hm.elim id ?_⟩
    rintro ⟨obj, o, hm⟩
    exact absurd (List.mem_singleton.mp hm).symm (he obj o true)

theorem rule (q : Ref) : TurnRule q (Owned q) where
  refl := Owned.refl q
  trans := Owned.trans
  setHeap j _ := Owned.refl q j
  read j := Owned.refl q j
  emit j _ _ he := (Owned.refl q j).emit he
  putItem_raised j obj := ⟨[.putItem obj q false], rfl, by simp, by simp⟩
  putItem j obj := ⟨[.putItem obj q true], rfl, by simp, by simp⟩

end Owned

namespace ParserWorker

variable (st : Setting) (env : Env)

theorem fail_owned (q : Ref) (resp : Option Response) (exc : Option Exn) (j : Job) :
    Owned q j (fail env q resp exc j).2 := by
  have hcounted : Owned q j (j.emit (.stat "request_failed")) := (Owned.refl q j).emit (by simp)
  have hfailing : Owned q j (failing env q resp exc j) := by
    unfold failing
    dsimp only
    split
    · exact hcounted.emit (by simp)
    · exact hcounted
  obtain ⟨j₁, hhook, he⟩ := fail_rule env (Owned.rule q) resp exc j
  have howned := hfailing.trans hhook
  rcases he with he | he
  · exact he ▸ howned
  · exact he ▸ howned.emit (by simp)

theorem pause_owned (q : Ref) (resp : Option Response) (j : Job) : Owned q j (pause st env q resp j).2 := by
  unfold pause
  split
  · exact Owned.refl q j
  · split
    · have hread : Owned q j j.read := Owned.refl q j
      exact hread.emit (by simp)
    · exact Owned.refl q j

theorem retryOrFail_owned (q : Ref) (resp : Option Response) (exc : Exn) (j : Job) :
    Owned q j (retryOrFail st env q resp exc j).2 := by
  by_cases hg : GivesUp st env q exc j.heap
  · rw [retryOrFail_of_givesUp st env resp hg]
    exact fail_owned env q resp _ j
  · rw [retryOrFail_of_not_givesUp st env resp hg]
    have h₁ : Owned q j (j.emit (.stat "retry")) := (Owned.refl q j).emit (by simp)
    have h₂ := h₁.trans (pause_owned st env q resp ((j.emit (.stat "retry")).setHeap (retriedHeap env q resp exc j.heap)))
    rcases hp : pause st env q resp ((j.emit (.stat "retry")).setHeap (retriedHeap env q resp exc j.heap))
      with ⟨e | _, j'⟩ <;>
      rw [hp] at h₂
    · exact h₂
    · exact Owned.emit h₂ (by simp)

theorem retryReplacement_owned (q q' : Ref) (resp : Response) (j : Job) :
    Owned q j (retryReplacement st env q q' resp j).2 := by
  unfold retryReplacement
  split
  · exact fail_owned env q _ _ j
  · exact ((Owned.refl q j).emit (by simp)).emit (by simp)

theorem settle_owned {t : Turn} {q : Ref} (hq : t.Of q) (j : Job) : Owned q j (settle st env (t, j)).2 := by
  cases t with
  | ok q' => exact ((Owned.refl q j).emit (by simp)).emit (by simp)
  | drop => exact (Owned.refl q j).emit (by simp)
  | retry q' resp exc =>
    cases hq
    exact retryOrFail_owned st env q resp exc j
  | replace q' q'' resp =>
    cases hq
    exact retryReplacement_owned st env q q'' resp j
  | fail q' resp exc =>
    cases hq
    exact fail_owned env q (some resp) (some exc) j
  | raise e => exact .refl q j

/-- Every item that processing a request puts is owned by the request that the
hooks left bound. -/
theorem process_owned (q : Ref) (j : Job) :
    Owned (bound env q j.heap) j (process st env q j).2 := by
  rw [process_eq]
  exact (turn_rule st env (Owned.rule _)).trans (settle_owned st env (turn_of st env q j) (turn st env q j).2)

end ParserWorker

/-! ## The node -/

namespace Node

variable (lib : Stdlib) (st : Setting)

/-- `q` is not in progress, and `Collector.done` was called for it. -/
def Acked (n : Node) (q : Ref) : Prop := q ∉ n.collector.inProgress ∧ q ∈ n.doneCalls

theorem mem_foldl_done (n : Node) (os : List Ref) (q : Ref) :
    (q ∈ (os.foldl done n).collector.inProgress ↔ q ∉ os ∧ q ∈ n.collector.inProgress) ∧
      (q ∈ (os.foldl done n).doneCalls ↔ q ∈ os ∨ q ∈ n.doneCalls) ∧
      (os.foldl done n).items = n.items := by
  induction os generalizing n with
  | nil => simp
  | cons o os ih =>
    obtain ⟨h₁, h₂, h₃⟩ := ih (n.done o)
    rw [List.foldl_cons, h₁, h₂, h₃]
    simp only [done, Collector.mem_done, List.mem_append, List.mem_cons, not_or, List.not_mem_nil, or_false]
    refine ⟨?_, ?_, trivial⟩
    · rw [and_left_comm, and_assoc]
    · rw [← or_assoc, or_comm, ← or_assoc]

/-- A flush clears the buffer; the owners it acknowledges are acknowledged, and
nobody else changes. -/
theorem act_flush (n : Node) (out : Turnout) (q : Ref) :
    (n.act lib st (.flush out)).items.pending = [] ∧
      (q ∈ (n.act lib st (.flush out)).collector.inProgress ↔
        q ∉ (n.items.flush lib st out).1.acked ∧ q ∈ n.collector.inProgress) ∧
      (q ∈ (n.act lib st (.flush out)).doneCalls ↔
        q ∈ (n.items.flush lib st out).1.acked ∨ q ∈ n.doneCalls) := by
  have h := mem_foldl_done { n with items := (n.items.flush lib st out).2 }
    (n.items.flush lib st out).1.acked q
  refine ⟨?_, h.1, h.2.1⟩
  have hi : (n.act lib st (.flush out)).items = (n.items.flush lib st out).2 := h.2.2
  rw [hi]
  exact flush_pending lib st out n.items

/-- Every flush that takes an item of a request in `watch` returns, all of its
batch persisted. -/
def Persisted (watch : List Ref) : Node → List Act → Prop
  | _, [] => True
  | n, a :: as =>
    (match a with
      | .flush out => (∃ o ∈ watch, n.items.owns o = true) → Clean lib st out n.items
      | _ => True) ∧ Persisted watch (n.act lib st a) as

theorem owns_put (s : ItemBuffer Ref Unit) (obj : Obj) (o x : Ref) :
    (s.put st obj (some o)).2.owns x = true ↔ s.owns x = true ∨ x = o := by
  simp [owns, put, eq_comm (a := o)]

theorem acts_cons (n : Node) (a : Act) (as : List Act) :
    n.acts lib st (a :: as) = (n.act lib st a).acts lib st as := rfl

/-- What is acknowledged stays so. -/
theorem Acked.act {n : Node} {q : Ref} (h : Acked n q) (a : Act) : Acked (n.act lib st a) q := by
  cases a with
  | effect e => cases e <;> exact h
  | done r =>
    simp only [Acked, Node.act, Node.done, Collector.mem_done, List.mem_append] at h ⊢
    exact ⟨fun hm => h.1 hm.2, .inl h.2⟩
  | flush out =>
    obtain ⟨-, h₁, h₂⟩ := act_flush lib st n out q
    exact ⟨fun hm => h.1 (h₁.mp hm).2, h₂.mpr (.inr h.2)⟩

theorem Acked.acts {n : Node} {q : Ref} (h : Acked n q) (as : List Act) :
    Acked (n.acts lib st as) q := by
  induction as generalizing n with
  | nil => exact h
  | cons a as ih => exact ih (h.act lib st a)

theorem acked_of_done {n : Node} {q : Ref} {as : List Act} (h : Act.done q ∈ as) :
    Acked (n.acts lib st as) q := by
  induction as generalizing n with
  | nil => cases h
  | cons a as ih =>
    rcases List.mem_cons.mp h with rfl | h
    · refine Acked.acts lib st (n := n.act lib st (.done q)) ?_ as
      simp [Acked, Node.act, Node.done]
    · exact ih h

/-- A flush that takes an item of `q` acknowledges `q`, if everything was
persisted. -/
theorem acked_of_flush {n : Node} {q : Ref} {out : Turnout} (h : n.items.owns q = true)
    (hc : Clean lib st out n.items) : Acked (n.act lib st (.flush out)) q := by
  obtain ⟨-, h₁, h₂⟩ := act_flush lib st n out q
  have hm : q ∈ (n.items.flush lib st out).1.acked := by
    rw [flush_acked_of_clean lib st out hc]
    exact owns_iff.mp h
  exact ⟨fun hi => (h₁.mp hi).1 hm, h₂.mpr (.inl hm)⟩

/-- A request with an item pending is acknowledged in the end, or its item is
pending still. -/
theorem acked_or_owns {watch : List Ref} {q : Ref} (hq : q ∈ watch) {as : List Act} {n : Node}
    (hp : Persisted lib st watch n as) (h : n.items.owns q = true) :
    Acked (n.acts lib st as) q ∨ (n.acts lib st as).items.owns q = true := by
  induction as generalizing n with
  | nil => exact .inr h
  | cons a as ih =>
    obtain ⟨ha, hp⟩ := hp
    cases a with
    | effect e =>
      refine ih hp ?_
      cases e with
      | putItem obj o r => exact (owns_put st n.items obj o q).mpr (.inl h)
      | _ => exact h
    | done r => exact ih hp h
    | flush out => exact .inl ((acked_of_flush lib st h (ha ⟨q, hq, h⟩)).acts lib st as)

/-- So is a request for which an item is put. -/
theorem acked_or_owns_of_put {watch : List Ref} {q : Ref} (hq : q ∈ watch) {as : List Act} {n : Node}
    (hp : Persisted lib st watch n as) {obj : Obj} {r : Bool} (h : .effect (.putItem obj q r) ∈ as) :
    Acked (n.acts lib st as) q ∨ (n.acts lib st as).items.owns q = true := by
  induction as generalizing n with
  | nil => cases h
  | cons a as ih =>
    rcases List.mem_cons.mp h with rfl | h
    · exact acked_or_owns lib st hq (n := n.act lib st (.effect (.putItem obj q r))) hp.2
        ((owns_put st n.items obj q q).mpr (.inr rfl))
    · exact ih hp.2 h

/-- A request for which no item is put has none pending after. -/
theorem owns_acts_false {q : Ref} {as : List Act} {n : Node} (h : n.items.owns q = false)
    (hput : ∀ obj o r, Act.effect (.putItem obj o r) ∈ as → o ≠ q) :
    (n.acts lib st as).items.owns q = false := by
  induction as generalizing n with
  | nil => exact h
  | cons a as ih =>
    refine ih ?_ fun obj o r hm => hput obj o r (List.mem_cons_of_mem _ hm)
    cases a with
    | effect e =>
      cases e with
      | putItem obj o r =>
        have hne := hput obj o r List.mem_cons_self
        rw [← Bool.not_eq_true] at h ⊢
        exact fun hm => ((owns_put st n.items obj o q).mp hm).elim h (hne ∘ Eq.symm)
      | _ => exact h
    | done r => exact h
    | flush out => simp [owns, (act_flush lib st n out q).1]

/-- A request without an item pending, for which none is put and `done` is not
called, is not acknowledged. -/
theorem not_acked {q : Ref} {as : List Act} {n : Node} (h : n.items.owns q = false)
    (hn : q ∉ n.doneCalls) (hput : ∀ obj o r, Act.effect (.putItem obj o r) ∈ as → o ≠ q)
    (hdone : Act.done q ∉ as) : q ∉ (n.acts lib st as).doneCalls := by
  induction as generalizing n with
  | nil => exact hn
  | cons a as ih =>
    have hput' := fun obj o r hm => hput obj o r (List.mem_cons_of_mem _ hm)
    have hdone' : Act.done q ∉ as := fun hm => hdone (List.mem_cons_of_mem _ hm)
    have h' : (n.acts lib st [a]).items.owns q = false :=
      owns_acts_false lib st h fun obj o r hm =>
        hput obj o r (List.mem_singleton.mp hm ▸ List.mem_cons_self)
    refine ih h' ?_ hput' hdone'
    cases a with
    | effect e => cases e <;> exact hn
    | done r =>
      simp only [Node.act, Node.done, List.mem_append, List.mem_singleton, not_or]
      exact ⟨hn, fun e => hdone (e ▸ List.mem_cons_self)⟩
    | flush out =>
      intro hm
      rcases (act_flush lib st n out q).2.2.mp hm with hm | hm
      · have howns : n.items.owns q = true := by
          rw [owns_iff]
          rcases flush_acked lib st out n.items with ha | ha
          · exact ha ▸ hm
          · rw [ha] at hm
            cases hm
        rw [h] at howns
        cases howns
      · exact hn hm

/-- An item of `q` that is still pending was not flushed, and no item put after
it was. -/
theorem owns_of_owns {q b : Ref} (hne : b ≠ q) {as : List Act} {n : Node}
    (hput : ∀ obj o r, Act.effect (.putItem obj o r) ∈ as → o = b)
    (hb : n.items.owns b = true ∨ ∃ obj r, Act.effect (.putItem obj b r) ∈ as)
    (h : (n.acts lib st as).items.owns q = true) : (n.acts lib st as).items.owns b = true := by
  induction as generalizing n with
  | nil => exact hb.elim id fun ⟨_, _, hm⟩ => by cases hm
  | cons a as ih =>
    have hput' := fun obj o r hm => hput obj o r (List.mem_cons_of_mem _ hm)
    rw [acts_cons] at h ⊢
    cases a with
    | effect e =>
      refine ih hput' ?_ h
      cases e with
      | putItem obj o r =>
        rcases hb with hb | ⟨obj', r', hm⟩
        · exact .inl ((owns_put st n.items obj o b).mpr (.inl hb))
        · exact .inl ((owns_put st n.items obj o b).mpr (.inr (hput obj o r List.mem_cons_self).symm))
      | _ => exact hb.imp_right fun ⟨obj, r, hm⟩ => ⟨obj, r, by simpa using hm⟩
    | done r =>
      exact ih hput' (hb.imp_right fun ⟨obj, r, hm⟩ => ⟨obj, r, by simpa using hm⟩) h
    | flush out =>
      -- the flush cleared the buffer, and nothing is put for `q` after it
      have hcleared : (n.act lib st (.flush out)).items.owns q = false := by
        simp [owns, (act_flush lib st n out q).1]
      rw [owns_acts_false lib st hcleared fun obj o r hm => (hput' obj o r hm) ▸ hne] at h
      cases h

end Node

/-! ## The taken request -/

def Act.isFlush : Act → Bool
  | .flush _ => true
  | _ => false

variable (lib : Stdlib) (st : Setting)

/-- In the schedule `as` the worker processes the request it took, with flushes
of any threads in between and after. -/
def Schedules (env : Env) (taken : Ref) (h : Heap) (as : List Act) : Prop :=
  as.filter (fun a => !a.isFlush) = workActs st env taken h

theorem mem_schedule {env : Env} {taken : Ref} {h : Heap} {as : List Act}
    (hs : Schedules st env taken h as) {a : Act} (ha : a.isFlush = false) :
    a ∈ as ↔ a ∈ workActs st env taken h := by
  rw [← hs, List.mem_filter]
  simp [ha]

/-- Once the worker has finished a request and every item it put is persisted,
the request it took is acknowledged if and only if it put no item, or the hooks
left the taken request bound, or an item of that request was pending before. -/
theorem work_acknowledged_iff (env : Env) (taken : Ref) (h : Heap) (c : Collector Ref)
    (s : ItemBuffer Ref Unit) (as : List Act) (hs : Schedules st env taken h as)
    (hp : Node.Persisted lib st [taken, bound env taken h] ⟨c, s, []⟩ as)
    (hlast : (Node.acts lib st ⟨c, s, []⟩ as).items.owns (bound env taken h) = false) :
    Node.Acked (Node.acts lib st ⟨c, s, []⟩ as) taken ↔
      (∀ obj o, .putItem obj o true ∉ (ParserWorker.work st env taken h).1.effects) ∨
        bound env taken h = taken ∨ s.owns taken = true := by
  obtain ⟨es, he, ho, hd⟩ := ParserWorker.process_owned st env taken { heap := h }
  simp only [List.nil_append, Bool.false_eq_true, false_or] at he hd ho
  have hacts : workActs st env taken h =
      es.map .effect ++ if (ParserWorker.process st env taken { heap := h }).2.deferred then []
        else [Act.done taken] := by
    simp only [workActs, ParserWorker.work, he]
    by_cases hdef : (ParserWorker.process st env taken { heap := h }).2.deferred = true <;> simp [hdef]
  have heff : (ParserWorker.work st env taken h).1.effects = es := he
  have hput : ∀ obj o r, Act.effect (.putItem obj o r) ∈ as → o = bound env taken h := by
    intro obj o r hm
    rw [mem_schedule st hs rfl, hacts, List.mem_append, List.mem_map] at hm
    rcases hm with ⟨e, hm, heq⟩ | hm
    · cases heq
      exact ho obj o r hm
    · split at hm <;> simp at hm
  rw [heff]
  cases hdef : (ParserWorker.process st env taken { heap := h }).2.deferred with
  | false =>
    have hdone : Act.done taken ∈ as := by
      rw [mem_schedule st hs rfl, hacts, hdef]
      simp
    refine ⟨fun _ => .inl fun obj o hm => ?_, fun _ => Node.acked_of_done lib st hdone⟩
    rw [hd.mpr ⟨obj, o, hm⟩] at hdef
    cases hdef
  | true =>
    obtain ⟨obj, o, hm⟩ := hd.mp hdef
    have hitem : Act.effect (.putItem obj (bound env taken h) true) ∈ as := by
      rw [mem_schedule st hs rfl, hacts, ← ho obj o true hm]
      exact List.mem_append_left _ (List.mem_map_of_mem hm)
    constructor
    · intro hacked
      by_contra hn
      rw [not_or, not_or] at hn
      obtain ⟨-, hne, hown⟩ := hn
      refine Node.not_acked lib st (by simpa using hown) (by simp) (fun obj o r hm => ?_) ?_ hacked.2
      · exact (hput obj o r hm) ▸ hne
      · rw [mem_schedule st hs rfl, hacts, hdef]
        simp
    · rintro (hn | hb | hown)
      · exact absurd hm (hn obj o)
      · have hor := Node.acked_or_owns_of_put lib st (q := taken) (by simp) hp (hb ▸ hitem)
        refine hor.resolve_right fun howns => ?_
        rw [hb, howns] at hlast
        cases hlast
      · by_cases hb : bound env taken h = taken
        · have hor := Node.acked_or_owns_of_put lib st (q := taken) (by simp) hp (hb ▸ hitem)
          refine hor.resolve_right fun howns => ?_
          rw [hb, howns] at hlast
          cases hlast
        · have hor := Node.acked_or_owns lib st (q := taken) (by simp) hp hown
          refine hor.resolve_right fun howns => ?_
          rw [Node.owns_of_owns lib st hb hput (.inr ⟨obj, true, hitem⟩) howns] at hlast
          cases hlast

/-- A spider whose `parse` yields one item. -/
def oneItem : Env where
  download _ h := (.ok ⟨200, "http://x/a", []⟩, h)
  parse _ _ h := (.ok (some ⟨[.item (.dict [("id", .int 1)])], none⟩), h)

/-- The same spider, with a hook that replaces the request. -/
def replacing : Env := { oneItem with downloadMidware := fun _ h => (.ok (some 1), h) }

def pageHeap : Heap := fun _ => { url := "http://x/a" }

/-- The worker takes the request 0, and its item is flushed. -/
def flushAfter (env : Env) : List Act := workActs {} env 0 pageHeap ++ [Act.flush {}]

theorem persists_oneItem : Persists textOnly {} {} (Setting.ITEM_PIPELINES {}) []
    [.dict [("id", .int 1)]] := by
  refine ⟨rfl, ?_, fun k => ?_⟩
  · intro o ho
    rw [List.mem_singleton.mp ho]
    exact ⟨_, rfl⟩
  · intro ns _
    exact ⟨.inr rfl, .inl fun i _ => rfl⟩

theorem work_acknowledged_iff_oneItem :
    Node.Acked (Node.acts textOnly {} ⟨⟨[], [0]⟩, {}, []⟩ (flushAfter oneItem)) 0 ↔
      (∀ obj o, .putItem obj o true ∉ (ParserWorker.work {} oneItem 0 pageHeap).1.effects) ∨
        bound oneItem 0 pageHeap = 0 ∨ ({} : ItemBuffer Ref Unit).owns 0 = true := by
  refine work_acknowledged_iff textOnly {} oneItem 0 pageHeap ⟨[], [0]⟩ {} (flushAfter oneItem) rfl ?_ rfl
  refine ⟨trivial, trivial, trivial, fun _ => .inr ?_, trivial⟩
  exact persists_oneItem

/-- The item is persisted, and the request that was taken stays in progress. -/
theorem replacing_not_acked :
    Schedules {} replacing 0 pageHeap (flushAfter replacing) ∧
      Node.Persisted textOnly {} [0, bound replacing 0 pageHeap] ⟨⟨[], [0]⟩, {}, []⟩
        (flushAfter replacing) ∧
      (Node.acts textOnly {} ⟨⟨[], [0]⟩, {}, []⟩ (flushAfter replacing)).items.pending = [] ∧
      ¬ Node.Acked (Node.acts textOnly {} ⟨⟨[], [0]⟩, {}, []⟩ (flushAfter replacing)) 0 := by
  refine ⟨rfl, ⟨trivial, trivial, trivial, fun _ => .inr persists_oneItem, trivial⟩, rfl, fun h => ?_⟩
  have h0 : 0 ∈ (Node.acts textOnly {} ⟨⟨[], [0]⟩, {}, []⟩ (flushAfter replacing)).collector.inProgress := by
    decide
  exact h.1 h0

end Netspy
