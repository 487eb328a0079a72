import Netspy.Impl.MemoryTaskQueue

/-!
# The order of the memory queue

What is in the queue is sorted and was put, and no two entries have one number
(`Ordered`). So each `get` takes the least entry, and what waits is passed only by what
is less (`Passed`): by a higher priority, or by the same one with an earlier number.
`leaves_in_order`: whoever puts when another put has returned is not served before it,
unless the priority is higher.
-/

namespace Netspy

namespace MemoryTaskQueue

variable {q : MemoryTaskQueue}

theorem sorted_insert {e : QueueEntry} (h : q.queue.Pairwise (fun x y => x.key ≤ y.key)) :
    (q.insert e).queue.Pairwise (fun x y => x.key ≤ y.key) := by
  have : Std.Total (fun x y : QueueEntry => x.key ≤ y.key) := ⟨fun x y => le_total x.key y.key⟩
  have : IsTrans QueueEntry (fun x y => x.key ≤ y.key) := ⟨fun _ _ _ => le_trans⟩
  exact h.orderedInsert e q.queue

theorem perm_insert (q : MemoryTaskQueue) (e : QueueEntry) : (q.insert e).queue.Perm (e :: q.queue) :=
  List.perm_orderedInsert _ e q.queue

/-- A turn of `getLoop` takes the head. -/
theorem getLoop_eq (n : Nat) (q : MemoryTaskQueue) :
    getLoop n q = (q.queue.take n, { q with queue := q.queue.drop n }) := by
  induction n generalizing q with
  | zero => rfl
  | succ n ih =>
    obtain ⟨queue, seq⟩ := q
    cases queue with
    | nil => rfl
    | cons e queue => simp only [getLoop, get, ih, List.take_succ_cons, List.drop_succ_cons]

end MemoryTaskQueue

namespace QueueThreads

variable {s t u : QueueThreads} {a : QueueAct}

/-! ## What a step does -/

inductive Stepped (s : QueueThreads) : QueueThreads → Prop
  | drew (i : Nat) (request : Request) (hput : s.puts i = none) :
      Stepped s { s with
        q := (s.q.draw request).2, puts := Function.update s.puts i (some (s.q.draw request).1) }
  | put (i : Nat) (e : QueueEntry) (hput : s.puts i = some e) :
      Stepped s { s with q := s.q.insert e, puts := Function.update s.puts i none, finished := s.finished ++ [e] }
  | got (e : QueueEntry) (queue : List QueueEntry) (hqueue : s.q.queue = e :: queue) :
      Stepped s { s with q := { s.q with queue }, taken := s.taken ++ [e] }

theorem step_cases (h : s.step a = some t) : Stepped s t := by
  cases a with
  | draw i request =>
    simp only [step] at h
    split at h
    next => cases h
    next hput =>
      cases h
      exact .drew i request hput
  | put i =>
    simp only [step] at h
    split at h
    next e hput =>
      cases h
      exact .put i e hput
    next => cases h
  | get =>
    obtain ⟨⟨queue, seq⟩, puts, finished, taken⟩ := s
    cases queue with
    | nil => cases h
    | cons e queue =>
      cases h
      exact .got e queue rfl

/-! ## What is in the queue -/

structure Ordered (s : QueueThreads) : Prop where
  sorted : s.q.queue.Pairwise (fun x y => x.key ≤ y.key)
  places : (s.taken ++ s.q.queue).Perm s.finished
  seqs : (s.finished.map QueueEntry.seq).Nodup
  below : ∀ e ∈ s.finished, e.seq < s.q.seq
  drawn : ∀ i e, s.puts i = some e → e.seq < s.q.seq ∧ e.seq ∉ s.finished.map QueueEntry.seq
  apart : ∀ i j e e', i ≠ j → s.puts i = some e → s.puts j = some e' → e.seq ≠ e'.seq

theorem Ordered.step (h : Ordered s) (ht : Stepped s t) : Ordered t := by
  cases ht with
  | drew i request hput =>
    refine { sorted := h.sorted, places := h.places, seqs := h.seqs, below := ?_, drawn := ?_, apart := ?_ }
    · exact fun e he => (h.below e he).trans (Nat.lt_succ_self _)
    · intro j e hj
      obtain ⟨-, hc⟩ | ⟨-, hj⟩ := Calls.update_eq_some hj
      · cases hc
        refine ⟨Nat.lt_succ_self _, fun hm => ?_⟩
        obtain ⟨e, he, heq⟩ := List.mem_map.mp hm
        exact (h.below e he).ne heq
      · exact ⟨(h.drawn j e hj).1.trans (Nat.lt_succ_self _), (h.drawn j e hj).2⟩
    · intro j k e e' hne hj hk
      obtain ⟨rfl, hc⟩ | ⟨-, hj⟩ := Calls.update_eq_some hj
      · obtain ⟨rfl, -⟩ | ⟨-, hk⟩ := Calls.update_eq_some hk
        · exact absurd rfl hne
        · cases hc
          exact (h.drawn k e' hk).1.ne'
      · obtain ⟨-, hc⟩ | ⟨-, hk⟩ := Calls.update_eq_some hk
        · cases hc
          exact (h.drawn j e hj).1.ne
        · exact h.apart j k e e' hne hj hk
  | put i e hput =>
    obtain ⟨hlt, hnew⟩ := h.drawn i e hput
    refine { sorted := MemoryTaskQueue.sorted_insert h.sorted, places := ?_, seqs := ?_, below := ?_,
             drawn := ?_, apart := ?_ }
    · have hfront : (s.taken ++ (s.q.insert e).queue).Perm (e :: (s.taken ++ s.q.queue)) :=
        ((s.q.perm_insert e).append_left s.taken).trans List.perm_middle
      exact (hfront.trans (h.places.cons e)).trans (List.perm_append_singleton e s.finished).symm
    · rw [List.map_append, List.nodup_append]
      refine ⟨h.seqs, List.nodup_singleton _, fun x hx y hy he => hnew ?_⟩
      rw [List.map_singleton, List.mem_singleton] at hy
      rwa [he, hy] at hx
    · intro x hx
      rcases List.mem_append.mp hx with hx | hx
      · exact h.below x hx
      · rw [List.mem_singleton.mp hx]
        exact hlt
    · intro j x hj
      obtain ⟨-, hc⟩ | ⟨hne, hj⟩ := Calls.update_eq_some hj
      · cases hc
      · refine ⟨(h.drawn j x hj).1, fun hm => ?_⟩
        rw [List.map_append, List.map_singleton, List.mem_append, List.mem_singleton] at hm
        exact hm.elim (h.drawn j x hj).2 (h.apart j i x e hne hj hput)
    · intro j k x y hne hj hk
      obtain ⟨-, hc⟩ | ⟨-, hj⟩ := Calls.update_eq_some hj
      · cases hc
      · obtain ⟨-, hc⟩ | ⟨-, hk⟩ := Calls.update_eq_some hk
        · cases hc
        · exact h.apart j k x y hne hj hk
  | got e queue hqueue =>
    refine { sorted := ?_, places := ?_, seqs := h.seqs, below := h.below, drawn := h.drawn, apart := h.apart }
    · exact (List.pairwise_cons.mp (hqueue ▸ h.sorted)).2
    · have hp := h.places
      rw [hqueue] at hp
      rwa [List.append_assoc, List.singleton_append]

theorem ordered (h : machine.Reachable s) : Ordered s := by
  refine Machine.Within.induct (I := Ordered) (fun s hs => ?_) (fun s a t hs _ ht => hs.step (step_cases ht)) h
  rw [show s = {} from hs]
  exact ⟨List.Pairwise.nil, List.Perm.refl _, List.nodup_nil, by simp, by simp, by simp⟩

/-! ## Who is served first -/

/-- Since the state `s`, in which `a` waited, only entries that are not above `a` were
taken before it. -/
def Passed (s : QueueThreads) (a : QueueEntry) (t : QueueThreads) : Prop :=
  ∃ out, t.taken = s.taken ++ out ∧ (a ∈ t.q.queue ∧ (∀ e ∈ out, e.key ≤ a.key) ∨
    ∃ xs ys, out = xs ++ a :: ys ∧ ∀ e ∈ xs, e.key ≤ a.key)

theorem Passed.step {e : QueueEntry} (h : Passed s e t) (ho : Ordered t) (hu : Stepped t u) : Passed s e u := by
  obtain ⟨out, hout, hcase⟩ := h
  cases hu with
  | drew i request hput => exact ⟨out, hout, hcase⟩
  | put i x hput =>
    refine ⟨out, hout, hcase.imp_left fun hw => ⟨?_, hw.2⟩⟩
    exact (t.q.perm_insert x).mem_iff.mpr (List.mem_cons_of_mem x hw.1)
  | got x queue hqueue =>
    refine ⟨out ++ [x], by rw [hout, List.append_assoc], ?_⟩
    rcases hcase with ⟨hmem, hle⟩ | ⟨xs, ys, rfl, hle⟩
    · rw [hqueue] at hmem
      rcases List.mem_cons.mp hmem with rfl | hmem
      · exact .inr ⟨out, [], rfl, hle⟩
      · refine .inl ⟨hmem, fun y hy => ?_⟩
        rcases List.mem_append.mp hy with hy | hy
        · exact hle y hy
        · rw [List.mem_singleton.mp hy]
          exact (List.pairwise_cons.mp (hqueue ▸ ho.sorted)).1 e hmem
    · exact .inr ⟨xs, ys ++ [x], by simp, hle⟩

theorem passed_exec {e : QueueEntry} (hr : machine.Reachable s) (he : e ∈ s.q.queue) {as : List QueueAct}
    (hx : machine.exec s as = some t) : Passed s e t := by
  have hstart : Passed s e s := ⟨[], (List.append_nil _).symm, .inl ⟨he, by simp⟩⟩
  have hrun : machine.Reachable t ∧ Passed s e t := by
    refine Machine.Meets.preserves (I := fun t => machine.Reachable t ∧ Passed s e t) (G := fun _ _ => True)
      (fun u a v hu _ hv => ⟨hu.1.step trivial hv, hu.2.step (ordered hu.1) (step_cases hv)⟩)
      (Machine.Meets.of_forall (fun _ _ _ => trivial) s) hx ⟨hr, hstart⟩
  exact hrun.2

/-- In every run, what was put is in the queue or was taken, once. A request `b` whose
put begins after the put of `a` has returned (its number is not yet drawn then) leaves
after `a`, unless its priority is higher, that is, less. And `get_batch` takes what so
many calls of `get` would. -/
theorem leaves_in_order {s : QueueThreads} (h : machine.Reachable s) :
    ((s.taken ++ s.q.queue).Perm s.finished ∧ (s.finished.map QueueEntry.seq).Nodup) ∧
      (∀ as t a b, machine.exec s as = some t → a ∈ s.q.queue → b ∈ t.taken → s.q.seq ≤ b.seq →
        a.priority ≤ b.priority → ∃ xs ys, t.taken = xs ++ b :: ys ∧ a ∈ xs) ∧
      ∀ count, s.q.getBatch count =
        (s.q.queue.take (max 1 count).toNat, { s.q with queue := s.q.queue.drop (max 1 count).toNat }) := by
  have ho := ordered h
  refine ⟨⟨ho.places, ho.seqs⟩, fun as t a b hx ha hb hseq hle => ?_, fun count => MemoryTaskQueue.getLoop_eq _ _⟩
  have hltseq : a.seq < b.seq := (ho.below a (ho.places.mem_iff.mp (List.mem_append_right _ ha))).trans_le hseq
  have hlt : a.key < b.key := by
    rw [QueueEntry.key, QueueEntry.key, Prod.Lex.toLex_lt_toLex]
    rcases hle.lt_or_eq with hlt | heq
    · exact .inl hlt
    · exact .inr ⟨heq, hltseq⟩
  have hb' : b ∉ s.taken := fun hmem =>
    absurd (ho.below b (ho.places.mem_iff.mp (List.mem_append_left _ hmem))) (Nat.not_lt.mpr hseq)
  obtain ⟨out, hout, hcase⟩ := passed_exec h ha hx
  rw [hout, List.mem_append] at hb
  have hb := hb.resolve_left hb'
  rcases hcase with ⟨-, hall⟩ | ⟨xs, ys, rfl, hall⟩
  · exact absurd (hall b hb) (not_le_of_gt hlt)
  · rcases List.mem_append.mp hb with hb | hb
    · exact absurd (hall b hb) (not_le_of_gt hlt)
    · have hb : b ∈ ys := (List.mem_cons.mp hb).resolve_left fun he => hltseq.ne (congrArg QueueEntry.seq he).symm
      obtain ⟨ys, zs, rfl⟩ := List.append_of_mem hb
      exact ⟨s.taken ++ xs ++ a :: ys, zs, by rw [hout]; simp, by simp⟩

/-- One put, and then two more, of which the second is more urgent. -/
def firstPut : List QueueAct := [.draw 0 { url := "a" }, .put 0]

def morePuts : List QueueAct :=
  [.draw 1 { url := "b" }, .draw 0 { url := "c", priority := 1 }, .put 0, .put 1, .get, .get, .get]

theorem morePuts_ran : ((machine.exec {} firstPut).bind fun s => (machine.exec s morePuts).map fun t =>
    (s.q.queue, s.q.seq, t.taken)) =
      some ([⟨300, 0, { url := "a" }⟩], 1, [⟨1, 2, { url := "c", priority := 1 }⟩, ⟨300, 0, { url := "a" }⟩,
        ⟨300, 1, { url := "b" }⟩]) := by
  decide +kernel

theorem leaves_in_order_morePuts : ∃ s t, machine.exec {} firstPut = some s ∧ machine.exec s morePuts = some t ∧
    ∃ xs ys, t.taken = xs ++ ⟨300, 1, { url := "b" }⟩ :: ys ∧ ⟨300, 0, { url := "a" }⟩ ∈ xs := by
  obtain ⟨s, hs, h⟩ := Option.bind_eq_some_iff.mp morePuts_ran
  obtain ⟨t, ht, h⟩ := Option.map_eq_some_iff.mp h
  simp only [Prod.mk.injEq] at h
  obtain ⟨hqueue, hseq, htaken⟩ := h
  have hr : machine.Reachable s := Machine.Reachable.exec (.start (show machine.start {} from rfl)) hs
  exact ⟨s, t, hs, ht, (leaves_in_order hr).2.1 morePuts t _ _ ht (by simp [hqueue]) (by simp [htaken])
    hseq.le le_rfl⟩

end QueueThreads

end Netspy
