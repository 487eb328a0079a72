import Mathlib.Data.List.Perm.Basic
import Netspy.Impl.Dedup
import Netspy.Impl.RequestBuffer

/-!
# Requests that can never be enqueued

A `Broken` says what fails every time: `dedup.add` on some fingerprints,
`queue.put` on some requests (and `request.fingerprint`, where the standard
library raises); nothing else fails. A flush then gets through the requests
before the first one it is stuck on, and leaves that one and everything
behind it in the buffer (`flush_spec`); no later flush gets further
(`flush_stuck`). So the requests that can be enqueued all leave the buffer
exactly when none of them is behind a stuck one (`rounds_settled_iff`).
-/

namespace Netspy

/-- What fails every time it is tried. Whether the queue takes a request does
not depend on its `filter_repeat`. -/
structure Broken where
  add : String → Bool
  put : Request → Bool
  put_flag : ∀ r b, put { r with filterRepeat := b } = put r

/-- The filter, and what the queue has been given. -/
structure Backend (φ : Type) where
  dedup : φ
  queue : List Request

namespace Broken

variable {φ : Type} [Filter φ] (lib : Stdlib) (x : Broken)

def services : Services (Backend φ) where
  fingerprint := Request.fingerprint lib
  add fp w :=
    if x.add fp then (.error "RuntimeError", w)
    else
      let (fresh, dedup) := Filter.add w.dedup fp
      (.ok fresh, { w with dedup })
  put r w := if x.put r then (.error "RuntimeError", w) else (.ok (), { w with queue := w.queue ++ [r] })

/-- Asking the filter about `r` raises. -/
def asksInVain (r : Request) : Bool :=
  match r.fingerprint lib with
  | .error _ => true
  | .ok fp => x.add fp

/-- `r` can never be enqueued: its fingerprint, the filter's answer or the
queue raises. -/
def bad (r : Request) : Bool := x.asksInVain lib r || x.put r

/-- The filter after it was asked about `r`. -/
def asked (d : φ) (r : Request) : φ :=
  if r.filterRepeat then
    match r.fingerprint lib with
    | .error _ => d
    | .ok fp => (Filter.add d fp).2
  else d

/-- Whether the filter calls `r` new. -/
def fresh (d : φ) (r : Request) : Bool :=
  if r.filterRepeat then
    match r.fingerprint lib with
    | .error _ => false
    | .ok fp => (Filter.add d fp).1
  else true

/-- A flush with the filter `d` cannot get past `r`: it has to ask the filter
in vain, or `r` is new and the queue refuses it. -/
def stuck (d : φ) (r : Request) : Bool :=
  (r.filterRepeat && x.asksInVain lib r) || (fresh lib d r && x.put r)

theorem bad_of_stuck {d : φ} {r : Request} (h : x.stuck lib d r = true) : x.bad lib r = true := by
  simp only [stuck, bad, Bool.or_eq_true, Bool.and_eq_true] at h ⊢
  exact h.imp And.right And.right

/-- What a flush that is stuck on `r` puts back in its place. -/
def putBack (r : Request) : Request :=
  if r.filterRepeat && x.asksInVain lib r then r else { r with filterRepeat := false }

theorem bad_putBack (r : Request) : x.bad lib (x.putBack lib r) = x.bad lib r := by
  unfold putBack
  split
  · rfl
  · simp only [bad, asksInVain, Request.fingerprint_filterRepeat, x.put_flag]

/-- It is stuck on it again in the next round, whatever the filter holds. -/
theorem stuck_putBack {d : φ} {r : Request} (h : x.stuck lib d r = true) (d' : φ) :
    x.stuck lib d' (x.putBack lib r) = true := by
  unfold putBack
  split
  · rename_i hr
    simp [stuck, hr]
  · rename_i hr
    simp only [stuck, Bool.or_eq_true, Bool.and_eq_true] at h hr ⊢
    obtain ⟨-, hp⟩ := h.resolve_left hr
    exact .inr ⟨rfl, by rw [x.put_flag]; exact hp⟩

theorem putBack_putBack (r : Request) : x.putBack lib (x.putBack lib r) = x.putBack lib r := by
  unfold putBack
  split
  · simp_all
  · simp

/-- The filter after it was asked about `rs` in turn. -/
def askedAll (d : φ) (rs : List Request) : φ := rs.foldl (asked lib) d

/-- A flush with the filter `d` is stuck on none of `rs`. -/
def Passes (d : φ) (rs : List Request) : Prop :=
  ∀ pre r post, rs = pre ++ r :: post → x.stuck lib (askedAll lib d pre) r = false

theorem passes_nil (d : φ) : x.Passes lib d [] := by
  intro pre r post h
  simp at h

theorem Passes.cons {d : φ} {r : Request} {rs : List Request} (h : x.stuck lib d r = false)
    (hs : x.Passes lib (asked lib d r) rs) : x.Passes lib d (r :: rs) := by
  intro pre r' post hsplit
  cases pre with
  | nil =>
    obtain ⟨rfl, -⟩ := List.cons.inj hsplit
    exact h
  | cons r₀ pre =>
    obtain ⟨rfl, h'⟩ := List.cons.inj hsplit
    exact hs pre r' post h'

end Broken

namespace RequestBuffer

open Broken

variable {φ : Type}

/-- The flush from `s` to `s'` put every request of `done` into the queue or
counted it as a duplicate, and nothing else. -/
def Accounted (s : RequestBuffer (Backend φ)) (done : List Request) (s' : RequestBuffer (Backend φ)) :
    Prop :=
  ∃ dropped queued, s'.dropped = s.dropped ++ dropped ∧ s'.world.queue = s.world.queue ++ queued ∧
    (dropped ++ queued).Perm done

theorem Accounted.cons {s s₁ s' : RequestBuffer (Backend φ)} {r : Request} {done : List Request}
    (h₁ : s₁.dropped = s.dropped ++ [r] ∧ s₁.world.queue = s.world.queue ∨
      s₁.dropped = s.dropped ∧ s₁.world.queue = s.world.queue ++ [r])
    (h : Accounted s₁ done s') : Accounted s (r :: done) s' := by
  obtain ⟨dr, q, hd, hq, hp⟩ := h
  rcases h₁ with ⟨e₁, e₂⟩ | ⟨e₁, e₂⟩
  · exact ⟨r :: dr, q, by simp [hd, e₁], by rw [hq, e₂], hp.cons r⟩
  · exact ⟨dr, r :: q, by rw [hd, e₁], by simp [hq, e₂], List.perm_middle.trans (hp.cons r)⟩

/-- Every occurrence of a request in `done` is now in the queue or among the
duplicates. -/
theorem Accounted.count {s s' : RequestBuffer (Backend φ)} {done : List Request}
    (h : Accounted s done s') (r : Request) :
    s'.dropped.count r + s'.world.queue.count r =
      s.dropped.count r + s.world.queue.count r + done.count r := by
  obtain ⟨dr, q, hd, hq, hp⟩ := h
  have := hp.count_eq r
  simp only [hd, hq, List.count_append] at this ⊢
  omega

variable [Filter φ] (lib : Stdlib) (x : Broken)

/-- One turn of the loop, on a request that the flush is not stuck on: it is
put into the queue or counted as a duplicate. -/
theorem flushLoop_cons_pass {r : Request} {rest : List Request} {s : RequestBuffer (Backend φ)}
    (h : x.stuck lib s.world.dedup r = false) :
    flushLoop (x.services lib) (r :: rest) s =
      flushLoop (x.services lib) rest
        (if fresh lib s.world.dedup r then
          { s with world := ⟨asked lib s.world.dedup r, s.world.queue ++ [r]⟩ }
        else { s with dropped := s.dropped ++ [r], world := ⟨asked lib s.world.dedup r, s.world.queue⟩ }) := by
  obtain ⟨pending, dropped, d, q⟩ := s
  cases hf : r.filterRepeat with
  | false =>
    have hp : x.put r = false := by simpa [stuck, fresh, hf] using h
    simp [flushLoop, askDedup, services, fresh, asked, hf, hp]
  | true =>
    cases hk : r.fingerprint lib with
    | error e => simp [stuck, asksInVain, hf, hk] at h
    | ok fp =>
      simp only [stuck, asksInVain, fresh, hf, hk, Bool.true_and, Bool.or_eq_false_iff, if_true] at h
      cases hn : (Filter.add d fp).1 with
      | false => simp [flushLoop, askDedup, services, fresh, asked, hf, hk, h.1, hn]
      | true =>
        have hp : x.put r = false := by simpa [hn] using h.2
        simp [flushLoop, askDedup, services, fresh, asked, hf, hk, h.1, hn, hp]

/-- One turn of the loop, on a request that the flush is stuck on: it and the
rest of the batch go back to the head of the buffer. -/
theorem flushLoop_cons_stuck {r : Request} (rest : List Request) {s : RequestBuffer (Backend φ)}
    (h : x.stuck lib s.world.dedup r = true) :
    ∃ e d, flushLoop (x.services lib) (r :: rest) s =
      (.error e, { s with pending := x.putBack lib r :: rest ++ s.pending,
                          world := ⟨d, s.world.queue⟩ }) := by
  obtain ⟨pending, dropped, d, q⟩ := s
  cases hf : r.filterRepeat with
  | false =>
    have hp : x.put r = true := by simpa [stuck, fresh, hf] using h
    exact ⟨"RuntimeError", d, by simp [flushLoop, askDedup, services, requeue, Broken.putBack, hf, hp]⟩
  | true =>
    cases hk : r.fingerprint lib with
    | error e =>
      exact ⟨e, d, by simp [flushLoop, askDedup, services, requeue, Broken.putBack, asksInVain, hf, hk]⟩
    | ok fp =>
      cases ha : x.add fp with
      | true =>
        exact ⟨"RuntimeError", d, by
          simp [flushLoop, askDedup, services, requeue, Broken.putBack, asksInVain, hf, hk, ha]⟩
      | false =>
        simp only [stuck, asksInVain, fresh, hf, hk, ha, Bool.true_and, Bool.false_or, if_true,
          Bool.and_eq_true] at h
        exact ⟨"RuntimeError", (Filter.add d fp).2, by
          simp [flushLoop, askDedup, services, requeue, Broken.putBack, asksInVain, hf, hk, ha, h.1, h.2]⟩

/-- What the loop of `flush` does with a batch: it gets through the requests
before the first one it is stuck on. -/
theorem flushLoop_spec (batch : List Request) (s : RequestBuffer (Backend φ)) :
    (∃ s', flushLoop (x.services lib) batch s = (.ok (), s') ∧ s'.pending = s.pending ∧
      Accounted s batch s' ∧ x.Passes lib s.world.dedup batch) ∨
    (∃ pre r post e s', batch = pre ++ r :: post ∧ x.Passes lib s.world.dedup pre ∧
      x.stuck lib (askedAll lib s.world.dedup pre) r = true ∧
      flushLoop (x.services lib) batch s = (.error e, s') ∧
      s'.pending = x.putBack lib r :: post ++ s.pending ∧ Accounted s pre s') := by
  induction batch generalizing s with
  | nil => exact .inl ⟨s, rfl, rfl, ⟨[], [], by simp, by simp, .nil⟩, x.passes_nil lib _⟩
  | cons r rest ih =>
    cases h : x.stuck lib s.world.dedup r with
    | true =>
      obtain ⟨e, d, he⟩ := flushLoop_cons_stuck lib x rest h
      exact .inr ⟨[], r, rest, e, _, rfl, x.passes_nil lib _, h, he, rfl,
        ⟨[], [], by simp, by simp, .nil⟩⟩
    | false =>
      rw [flushLoop_cons_pass lib x h]
      generalize hs₁ : (if fresh lib s.world.dedup r then _ else _ : RequestBuffer (Backend φ)) = s₁
      have hp : s₁.pending = s.pending := by subst hs₁; split <;> rfl
      have hd : s₁.world.dedup = asked lib s.world.dedup r := by subst hs₁; split <;> rfl
      have hq : s₁.dropped = s.dropped ++ [r] ∧ s₁.world.queue = s.world.queue ∨
          s₁.dropped = s.dropped ∧ s₁.world.queue = s.world.queue ++ [r] := by
        subst hs₁
        split
        · exact .inr ⟨rfl, rfl⟩
        · exact .inl ⟨rfl, rfl⟩
      rcases ih s₁ with ⟨s', he, hp', ha, hn⟩ | ⟨pre, b, post, e, s', rfl, hn, hb, he, hp', ha⟩
      · rw [hd] at hn
        exact .inl ⟨s', he, hp'.trans hp, ha.cons hq, hn.cons lib x h⟩
      · rw [hd] at hn hb
        exact .inr ⟨r :: pre, b, post, e, s', rfl, hn.cons lib x h, hb, he, by rw [hp', hp],
          ha.cons hq⟩

/-- No request that can be enqueued is behind one that a flush is stuck on,
with the filter that the requests before it leave. -/
def NothingBehind (s : RequestBuffer (Backend φ)) : Prop :=
  ∀ pre r post, s.pending = pre ++ r :: post →
    x.stuck lib (askedAll lib s.world.dedup pre) r = true → ∀ q ∈ post, x.bad lib q = true

/-- Between `s` and `s'`, every pending request that can be enqueued was put
into the queue or dropped as a duplicate; none is still pending. -/
def Settled (s s' : RequestBuffer (Backend φ)) : Prop :=
  ∀ r ∈ s.pending, x.bad lib r = false →
    r ∉ s'.pending ∧
      s'.dropped.count r + s'.world.queue.count r =
        s.dropped.count r + s.world.queue.count r + s.pending.count r

/-- A buffer whose first request is stuck for good: a flush leaves it as it is,
but for what the filter holds. -/
theorem flushGuarded_stuck {s : RequestBuffer (Backend φ)} {r : Request} {rest : List Request}
    (hp : s.pending = r :: rest) (hr : x.putBack lib r = r) (h : ∀ d : φ, x.stuck lib d r = true) :
    ∃ d, flushGuarded (x.services lib) s = { s with world := ⟨d, s.world.queue⟩ } := by
  obtain ⟨e, d, he⟩ := flushLoop_cons_stuck lib x (s := { s with pending := [] }) rest
    (h s.world.dedup)
  refine ⟨d, ?_⟩
  simp only [flushGuarded, flush]
  rw [hp, he]
  simp [hr, ← hp]

theorem rounds_stuck {r : Request} {rest : List Request} (hr : x.putBack lib r = r)
    (h : ∀ d : φ, x.stuck lib d r = true) (n : Nat) {s : RequestBuffer (Backend φ)}
    (hp : s.pending = r :: rest) :
    ∃ d, rounds (x.services lib) n s = { s with world := ⟨d, s.world.queue⟩ } := by
  induction n generalizing s with
  | zero => exact ⟨s.world.dedup, rfl⟩
  | succ n ih =>
    obtain ⟨d, hd⟩ := flushGuarded_stuck lib x hp hr h
    simp only [rounds, hd]
    exact ih (s := { s with world := ⟨d, s.world.queue⟩ }) hp

theorem rounds_empty (n : Nat) {s : RequestBuffer (Backend φ)} (hp : s.pending = []) :
    rounds (x.services lib) n s = s := by
  induction n with
  | zero => rfl
  | succ n ih =>
    have hf : flushGuarded (x.services lib) s = s := by
      simp only [flushGuarded, flush, hp, flushLoop]
      cases s; cases hp; rfl
    simp only [rounds, hf, ih]

/-- What any positive number of rounds leaves: the first one got through the
requests before the first stuck one, and the others changed nothing. -/
theorem rounds_spec (n : Nat) (s : RequestBuffer (Backend φ)) :
    ((rounds (x.services lib) (n + 1) s).pending = [] ∧
      Accounted s s.pending (rounds (x.services lib) (n + 1) s) ∧
      x.Passes lib s.world.dedup s.pending) ∨
    (∃ pre r post, s.pending = pre ++ r :: post ∧ x.Passes lib s.world.dedup pre ∧
      x.stuck lib (askedAll lib s.world.dedup pre) r = true ∧
      (rounds (x.services lib) (n + 1) s).pending = x.putBack lib r :: post ∧
      Accounted s pre (rounds (x.services lib) (n + 1) s)) := by
  have hr : rounds (x.services lib) (n + 1) s =
      rounds (x.services lib) n (flushLoop (x.services lib) s.pending { s with pending := [] }).2 := rfl
  rcases flushLoop_spec lib x s.pending { s with pending := [] } with
    ⟨s', he, hp, ha, hn⟩ | ⟨pre, r, post, e, s', hs, hn, hb, he, hp, ha⟩
  · rw [hr, he, rounds_empty lib x n hp]
    exact .inl ⟨hp, ha, hn⟩
  · simp only [List.append_nil] at hp
    obtain ⟨d, hd⟩ := rounds_stuck lib x (x.putBack_putBack lib r) (x.stuck_putBack lib hb) n hp
    rw [hr, he, hd]
    exact .inr ⟨pre, r, post, hs, hn, hb, hp, ha⟩

/-- Behind a stuck request are only requests behind the first stuck one. -/
theorem mem_behind_first {d : φ} {pre pre' post post' : List Request} {r r' q : Request}
    (hn : x.Passes lib d pre) (hs : pre ++ r :: post = pre' ++ r' :: post')
    (hb : x.stuck lib (askedAll lib d pre') r' = true) (hq : q ∈ post') : q ∈ post := by
  rcases List.append_eq_append_iff.mp hs with ⟨a, rfl, ha⟩ | ⟨c, rfl, hc⟩
  · cases a with
    | nil =>
      obtain ⟨-, rfl⟩ := List.cons.inj ha
      exact hq
    | cons _ a =>
      obtain ⟨-, rfl⟩ := List.cons.inj ha
      exact List.mem_append_right _ (List.mem_cons_of_mem _ hq)
  · cases c with
    | nil =>
      obtain ⟨-, rfl⟩ := List.cons.inj hc
      exact hq
    | cons _ c =>
      obtain ⟨rfl, -⟩ := List.cons.inj hc
      rw [hn pre' r' c rfl] at hb
      cases hb

/-- After any positive number of flush rounds in which only broken requests
fail, every request that can be enqueued has left the buffer if and only if
none was behind one that a flush is stuck on. -/
theorem rounds_settled_iff (n : Nat) (s : RequestBuffer (Backend φ)) :
    Settled lib x s (rounds (x.services lib) (n + 1) s) ↔ NothingBehind lib x s := by
  rcases rounds_spec lib x n s with ⟨hp, ha, hn⟩ | ⟨pre, r, post, hs, hn, hb, hp, ha⟩
  · refine ⟨fun _ pre r post hs hb => ?_, fun _ r hr _ => ⟨by simp [hp], ha.count r⟩⟩
    rw [hn pre r post hs] at hb
    cases hb
  · constructor
    · -- a request behind the first stuck one is still pending
      intro h pre' r' post' hs' hb' q hq
      have hpost : q ∈ post := mem_behind_first lib x hn (hs ▸ hs') hb' hq
      by_contra hgood
      refine (h q ?_ (by simpa using hgood)).1 ?_
      · rw [hs]; exact List.mem_append_right _ (List.mem_cons_of_mem _ hpost)
      · rw [hp]; exact List.mem_cons_of_mem _ hpost
    · intro h q hq hgood
      have hpost : q ∉ post := fun hm => by rw [h pre r post hs hb q hm] at hgood; cases hgood
      have hbad : x.bad lib r = true := x.bad_of_stuck lib hb
      have hne : q ≠ r := fun e => by rw [e, hbad] at hgood; cases hgood
      have hne' : q ≠ x.putBack lib r := fun e => by
        rw [e, x.bad_putBack, hbad] at hgood; cases hgood
      refine ⟨by simp [hp, hne', hpost], ?_⟩
      have hc := ha.count q
      rw [hs, List.count_append, List.count_cons_of_ne hne.symm, List.count_eq_zero_of_not_mem hpost]
      exact hc

/-- The standard library on the two URLs of `blockedBuffer`: `http://[` has an
opening bracket without a closing one. -/
def twoUrls : Stdlib where
  urlsplit url := if url = "http://[" then .error "ValueError" else .ok ⟨"http", "x", "/a", "", ""⟩
  parseQsl _ := []
  urlencode _ := ""
  urlunsplit p := p.scheme ++ "://" ++ p.netloc ++ p.path
  dumpsSorted _ := .ok "{}"
  str _ := "None"
  repr _ := "None"
  md5 text := if text = "GET|http://x/a|" then "5b4b137b1230e6b5ba739c14729c7e81" else text
  lower name := name

def nothingBroken : Broken := ⟨fun _ => false, fun _ => false, fun _ _ => rfl⟩

/-- A request without a fingerprint at the head of the buffer, and one with a
fingerprint behind it. -/
def blockedBuffer : RequestBuffer (Backend LiteFilter) :=
  ⟨[{ url := "http://[" }, { url := "http://x/a" }], [], ⟨{}, []⟩⟩

theorem blockedBuffer_not_settled :
    ¬ ∀ n, Settled twoUrls nothingBroken blockedBuffer
      (rounds (nothingBroken.services twoUrls) (n + 1) blockedBuffer) := by
  intro h
  have h₂ := h 1 { url := "http://x/a" } (by decide) (by decide)
  exact absurd h₂.1 (by decide)

end RequestBuffer

end Netspy
