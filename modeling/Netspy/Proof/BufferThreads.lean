import Mathlib.Logic.Relation
import Netspy.Impl.BufferThreads

/-!
# A flush in steps is `flush`

The steps of one flush, taken one after the other with what the filter and the
queue answer, are `RequestBuffer.flush` (`steps_flush`).
-/

namespace Netspy

namespace BufferThreads

open Relation RequestBuffer

variable {α W : Type} (srv : Services W) (j : Nat)

/-- The buffer as `RequestBuffer` has it. -/
def toRequestBuffer (b : BufferThreads α) (dropped : List Request) (w : W) : RequestBuffer W :=
  ⟨b.pending.map Tagged.request, dropped, w⟩

/-- The next step of flush `j`, with what the services answer. -/
inductive FlushStep : BufferThreads α × List Request × W → BufferThreads α × List Request × W → Prop
  | filter {b c : BufferThreads α} {d : List Request} {w : W} (x : Tagged α) (out : Option (Tagged α))
      (hx : b.asking j = some x)
      (hf : b.filter j (answerOf (askDedup srv x.request w).1) = some (out, c)) :
    FlushStep (b, d, w) (c, d ++ (out.map Tagged.request).toList, (askDedup srv x.request w).2)
  | push {b c : BufferThreads α} {d : List Request} {w : W} (x : Tagged α) (out : Option (Tagged α))
      (hx : b.putting j = some x) (hp : b.push j (srv.put x.request w).1.isOk = some (out, c)) :
    FlushStep (b, d, w) (c, d, (srv.put x.request w).2)

variable {srv j} {b c : BufferThreads α} {x : Tagged α} {rest : List (Tagged α)}

theorem asking_head (hj : b.flushes[j]? = some ⟨x :: rest, false⟩) : b.asking j = some x := by
  simp only [asking, hj]

theorem putting_head (hj : b.flushes[j]? = some ⟨x :: rest, true⟩) : b.putting j = some x := by
  simp only [putting, hj]

/-- The filter is asked only if the request wants it. -/
theorem askDedup_fst (w : W) : answerOf (askDedup srv x.request w).1 =
    if x.request.filterRepeat then answerOf (askDedup srv x.request w).1 else .fresh := by
  split
  · rfl
  · rename_i h
    simp only [askDedup, if_neg h, answerOf]

theorem filter_head (hj : b.flushes[j]? = some ⟨x :: rest, false⟩) (w : W) :
    b.filter j (answerOf (askDedup srv x.request w).1) =
      match (askDedup srv x.request w).1 with
      | .ok true => some (none, b.setFlush j ⟨x :: rest, true⟩)
      | .ok false => some (some x, b.setFlush j ⟨rest, false⟩)
      | .error _ => some (none, b.requeue j (x :: rest)) := by
  simp only [filter, hj, ← askDedup_fst]
  cases (askDedup srv x.request w).1 with
  | error => rfl
  | ok fresh => cases fresh <;> rfl

theorem push_head (hj : b.flushes[j]? = some ⟨x :: rest, true⟩) (works : Bool) :
    b.push j works =
      if works then some (some x, b.setFlush j ⟨rest, false⟩)
      else some (none, b.requeue j (clearFilter x :: rest)) := by
  simp only [push, hj]

theorem getElem?_setFlush {f g : RequestFlush α} (hj : b.flushes[j]? = some f) :
    (b.setFlush j g).flushes[j]? = some g :=
  List.getElem?_set_self (List.getElem?_eq_some_iff.mp hj).1

theorem setFlush_setFlush (f g : RequestFlush α) : (b.setFlush j f).setFlush j g = b.setFlush j g := by
  simp only [setFlush, List.set_set]

/-- The requeue, of a request that is or is not past the filter. -/
theorem toRequestBuffer_requeue (d : List Request) (w : W) :
    (b.requeue j (x :: rest)).toRequestBuffer d w =
      RequestBuffer.requeue (b.toRequestBuffer d w) (x.request :: rest.map Tagged.request) false := by
  simp [toRequestBuffer, requeue, RequestBuffer.requeue, setFlush]

theorem toRequestBuffer_requeue_clearFilter (d : List Request) (w : W) :
    (b.requeue j (clearFilter x :: rest)).toRequestBuffer d w =
      RequestBuffer.requeue (b.toRequestBuffer d w) (x.request :: rest.map Tagged.request) true := by
  simp [toRequestBuffer, requeue, RequestBuffer.requeue, setFlush, clearFilter]

/-- A request that the filter lets pass: the call to the queue. -/
theorem steps_push {d : List Request} {w : W} (hj : b.flushes[j]? = some ⟨x :: rest, true⟩) :
    match srv.put x.request w with
    | (.error _, w') => FlushStep srv j (b, d, w) (b.requeue j (clearFilter x :: rest), d, w')
    | (.ok (), w') => FlushStep srv j (b, d, w) (b.setFlush j ⟨rest, false⟩, d, w') := by
  have hp := push_head hj (srv.put x.request w).1.isOk
  have hstep := fun out c => @FlushStep.push α W srv j b c d w x out (putting_head hj)
  split
  · rename_i e w' he
    rw [he] at hp hstep
    exact hstep none _ hp
  · rename_i w' he
    rw [he] at hp hstep
    exact hstep (some x) _ hp

/-- From any batch on, the flush goes through the steps of the loop and ends
with nothing left to do. -/
theorem steps_flushLoop (batch : List (Tagged α)) :
    ∀ (b : BufferThreads α) (d : List Request) (w : W), b.flushes[j]? = some ⟨batch, false⟩ →
      ∃ c d' w', ReflTransGen (FlushStep srv j) (b, d, w) (c, d', w') ∧
        c.flushes[j]? = some ⟨[], false⟩ ∧
        (flushLoop srv (batch.map Tagged.request) (b.toRequestBuffer d w)).2 = c.toRequestBuffer d' w' := by
  induction batch with
  | nil => exact fun b d w hj => ⟨b, d, w, .refl, hj, rfl⟩
  | cons x rest ih =>
    intro b d w hj
    have hask := fun out c => @FlushStep.filter α W srv j b c d w x out (asking_head hj)
    rw [filter_head hj] at hask
    rw [List.map_cons, flushLoop, show (b.toRequestBuffer d w).world = w from rfl]
    rcases ha : askDedup srv x.request w with ⟨fresh, w₁⟩
    rw [ha] at hask
    cases fresh with
    | error e =>
      refine ⟨_, _, w₁, .single (hask none _ rfl), getElem?_setFlush hj, ?_⟩
      rw [Option.map_none, Option.toList_none, List.append_nil]
      exact (toRequestBuffer_requeue d w₁).symm
    | ok fresh =>
      cases fresh with
      | false =>
        obtain ⟨c, d', w', hs, hc, he⟩ := ih (b.setFlush j ⟨rest, false⟩) (d ++ [x.request]) w₁
          (getElem?_setFlush hj)
        exact ⟨c, d', w', .head (hask (some x) _ rfl) hs, hc, he⟩
      | true =>
        have hpass := hask none _ rfl
        have hput := @steps_push α W srv j (b.setFlush j ⟨x :: rest, true⟩) x rest d w₁ (getElem?_setFlush hj)
        simp only [Option.map_none, Option.toList_none, List.append_nil] at hpass
        dsimp only
        rcases hp : srv.put x.request w₁ with ⟨res, w₂⟩
        rw [hp] at hput
        cases res with
        | error e =>
          refine ⟨_, d, w₂, .head hpass (.single hput), getElem?_setFlush (getElem?_setFlush hj), ?_⟩
          exact (@toRequestBuffer_requeue_clearFilter α W j b x rest d w₂).symm
        | ok =>
          simp only [setFlush_setFlush] at hput
          obtain ⟨c, d', w', hs, hc, he⟩ := ih (b.setFlush j ⟨rest, false⟩) d w₂ (getElem?_setFlush hj)
          exact ⟨c, d', w', .head hpass (.head hput hs), hc, he⟩

/-- The swap and the steps of the flush, with nobody else in between. -/
theorem steps_flush (b : BufferThreads α) (d : List Request) (w : W) :
    ∃ c d' w', ReflTransGen (FlushStep srv b.flushes.length) (b.swap, d, w) (c, d', w') ∧
      c.flushes[b.flushes.length]? = some ⟨[], false⟩ ∧
      (flush srv (b.toRequestBuffer d w)).2 = c.toRequestBuffer d' w' :=
  steps_flushLoop b.pending b.swap d w List.getElem?_concat_length

end BufferThreads

end Netspy
