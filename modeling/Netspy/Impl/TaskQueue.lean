import Mathlib.Data.String.Basic
import Netspy.Framework.ZSet
import Netspy.Impl.Request
import Netspy.Impl.Setting

/-!
# `core/task_queue.py`: `RedisTaskQueue`

The two sorted sets of the queue, `z_requests` (scored by priority) and
`z_inflight` (scored by the time at which the lease ends), and what each
Redis call or Lua script does to them in one step. Times are in microseconds,
so the `.3f` of a time is the nearest multiple of 1000.

The texts in the sets are what `put` wrote, so `_decode` succeeds on them; the
requests that it gives are the business of who calls these functions.
-/

namespace Netspy

/-- `f"{t:.3f}"`. -/
def toMillis (t : Nat) : Nat := (t + 500) / 1000 * 1000

theorem toMillis_mono {a b : Nat} (h : a ≤ b) : toMillis a ≤ toMillis b :=
  Nat.mul_le_mul_right 1000 (Nat.div_le_div_right (Nat.add_le_add_right h 500))

theorem toMillis_le (t : Nat) : toMillis t ≤ t + 500 := Nat.div_mul_le_self _ _

theorem le_toMillis (t : Nat) : t ≤ toMillis t + 499 := by
  unfold toMillis
  omega

structure RedisTaskQueue where
  queue : ZSet String := ∅
  inflight : ZSet String := ∅

/-- `tools.dumps_json(request.to_dict())` and `_decode`. -/
structure Codec where
  dumps : Request → String
  loads : String → Request

namespace RedisTaskQueue

variable (st : Setting) (codec : Codec)

def put (q : RedisTaskQueue) (r : Request) : RedisTaskQueue :=
  { q with queue := q.queue.zadd (codec.dumps r) r.priority }

/-- `_TAKE_LUA` with its `ZPOPMIN`, and `_take` without leases. -/
def take (q : RedisTaskQueue) (now count : Nat) : List String × RedisTaskQueue :=
  let (out, queue) := q.queue.zpopmin (max 1 count)
  if st.SPIDER_TASK_LEASE = 0 then (out, { q with queue })
  else
    let deadline := toMillis (now + st.SPIDER_TASK_LEASE)
    (out, { queue, inflight := out.foldl (fun z m => z.zadd m deadline) q.inflight })

/-- The `bzpopmin` of `get`: the member is gone before its lease is recorded. -/
def bzpopmin (q : RedisTaskQueue) : Option (String × RedisTaskQueue) :=
  match q.queue.zpopmin 1 with
  | (m :: _, queue) => some (m, { q with queue })
  | ([], _) => none

/-- The rest of `get` after `bzpopmin`; this deadline is not rounded. -/
def recordLease (q : RedisTaskQueue) (now : Nat) (member : String) : RedisTaskQueue :=
  if st.SPIDER_TASK_LEASE = 0 then q
  else { q with inflight := q.inflight.zadd member (now + st.SPIDER_TASK_LEASE : Nat) }

def doneMember (q : RedisTaskQueue) (member : String) : RedisTaskQueue :=
  { q with inflight := q.inflight.zrem member }

/-- `ZRANGEBYSCORE` of `_RECLAIM_LUA`. -/
def expired (q : RedisTaskQueue) (now limit : Nat) : List String :=
  q.inflight.zrangebyscore (toMillis now) (max 1 limit)

/-- `reclaim_expired`, with whether its call succeeds: what it moved. -/
def reclaimExpired (q : RedisTaskQueue) (now limit : Nat) (works : Bool) : Nat × RedisTaskQueue :=
  if st.SPIDER_TASK_LEASE = 0 ∨ works = false then (0, q)
  else
    let expired := q.expired now limit
    (expired.length,
      { queue := expired.foldl (fun z m => z.zadd m 0) q.queue
        inflight := expired.foldl ZSet.zrem q.inflight })

def renew (q : RedisTaskQueue) (now : Nat) (tokens : List String) : RedisTaskQueue :=
  if st.SPIDER_TASK_LEASE = 0 then q
  else
    let deadline := toMillis (now + st.SPIDER_TASK_LEASE)
    { q with inflight := tokens.foldl (fun z m => z.zaddXX m deadline) q.inflight }

def inflightCount (q : RedisTaskQueue) : Nat := q.inflight.zcard

def qsize (q : RedisTaskQueue) : Nat := q.queue.zcard

def empty (q : RedisTaskQueue) : Bool := q.qsize == 0

theorem empty_iff {q : RedisTaskQueue} : q.empty = true ↔ ∀ m, m ∉ q.queue := by
  rw [empty, beq_iff_eq, qsize, ZSet.zcard_eq_zero]

/-! ## Where the members are after each call -/

section
variable {st codec} {q : RedisTaskQueue} {m : String}

@[simp] theorem mem_queue_put {r : Request} : m ∈ (q.put codec r).queue ↔ m = codec.dumps r ∨ m ∈ q.queue :=
  ZSet.mem_zadd

@[simp] theorem inflight_put {r : Request} : (q.put codec r).inflight = q.inflight := rfl

theorem take_fst (now count : Nat) : (q.take st now count).1 = (q.queue.zpopmin (max 1 count)).1 := by
  unfold take
  dsimp only
  split <;> rfl

theorem mem_queue_take {now count : Nat} :
    m ∈ q.queue ↔ m ∈ (q.take st now count).1 ∨ m ∈ (q.take st now count).2.queue := by
  have hq : (q.take st now count).2.queue = (q.queue.zpopmin (max 1 count)).2 := by
    unfold take
    dsimp only
    split <;> rfl
  rw [take_fst, hq]
  exact ZSet.mem_zpopmin

theorem inflight_take_subset {now count : Nat} (h : m ∈ (q.take st now count).2.inflight) :
    m ∈ (q.take st now count).1 ∨ m ∈ q.inflight := by
  unfold take at h ⊢
  dsimp only at h ⊢
  split at h
  · exact .inr h
  · rw [if_neg ‹_›]
    exact ZSet.mem_foldl_zadd.mp h

/-- With leases on, what is taken is in flight in the same step. -/
theorem mem_inflight_take {now count : Nat} (hl : 0 < st.SPIDER_TASK_LEASE) :
    m ∈ (q.take st now count).2.inflight ↔ m ∈ (q.take st now count).1 ∨ m ∈ q.inflight := by
  unfold take
  dsimp only
  rw [if_neg (Nat.pos_iff_ne_zero.mp hl)]
  exact ZSet.mem_foldl_zadd

theorem not_mem_queue_take {now count : Nat} (h : m ∈ (q.take st now count).1) :
    m ∉ (q.take st now count).2.queue := by
  have hq : (q.take st now count).2.queue = (q.queue.zpopmin (max 1 count)).2 := by
    unfold take
    dsimp only
    split <;> rfl
  rw [take_fst] at h
  rw [hq]
  exact ZSet.not_mem_zpopmin h

/-- What is taken gets the deadline of the call, and the others keep theirs. -/
theorem row_take {now count : Nat} {y : Int} (hl : 0 < st.SPIDER_TASK_LEASE) :
    (y, m) ∈ (q.take st now count).2.inflight.rows ↔
      (m ∈ (q.take st now count).1 ∧ y = toMillis (now + st.SPIDER_TASK_LEASE)) ∨
        (m ∉ (q.take st now count).1 ∧ (y, m) ∈ q.inflight.rows) := by
  unfold take
  dsimp only
  rw [if_neg (Nat.pos_iff_ne_zero.mp hl)]
  exact ZSet.row_foldl_zadd

theorem take_one {now : Nat} {p : String} {rest : List String} (h : (q.take st now 1).1 = p :: rest) :
    rest = [] := by
  have hlen : (q.queue.zpopmin 1).1.length ≤ 1 := List.length_take_le 1 _
  rw [take_fst, max_self] at h
  rw [h] at hlen
  exact List.eq_nil_of_length_eq_zero (by simpa using hlen)

theorem mem_bzpopmin {p : String} {q' : RedisTaskQueue} (h : q.bzpopmin = some (p, q')) :
    p ∈ q.queue ∧ q'.inflight = q.inflight ∧ (m ∈ q.queue ↔ m = p ∨ m ∈ q'.queue) := by
  unfold bzpopmin at h
  split at h
  · rename_i x rest queue hq
    cases h
    have hrest : rest = [] := by
      have hlen : (q.queue.zpopmin 1).1.length ≤ 1 := List.length_take_le 1 _
      rw [hq] at hlen
      exact List.eq_nil_of_length_eq_zero (by simpa using hlen)
    have hm : ∀ a, a ∈ q.queue ↔ a = p ∨ a ∈ queue := by
      intro a
      rw [ZSet.mem_zpopmin (n := 1), hq, hrest, List.mem_singleton]
    exact ⟨(hm p).mpr (.inl rfl), rfl, hm m⟩
  · cases h

theorem not_mem_bzpopmin {p : String} {q' : RedisTaskQueue} (h : q.bzpopmin = some (p, q')) :
    p ∉ q'.queue := by
  unfold bzpopmin at h
  split at h
  · rename_i x rest queue hq
    cases h
    have hp : p ∈ (q.queue.zpopmin 1).1 := by rw [hq]; exact List.mem_cons_self
    have hnot := ZSet.not_mem_zpopmin hp
    rwa [hq] at hnot
  · cases h

theorem inflight_recordLease_subset {now : Nat} {p : String} (h : m ∈ (q.recordLease st now p).inflight) :
    m = p ∨ m ∈ q.inflight := by
  unfold recordLease at h
  split at h
  · exact .inr h
  · exact ZSet.mem_zadd.mp h

theorem mem_inflight_recordLease {now : Nat} {p : String} (hl : 0 < st.SPIDER_TASK_LEASE) :
    m ∈ (q.recordLease st now p).inflight ↔ m = p ∨ m ∈ q.inflight := by
  rw [recordLease, if_neg (Nat.pos_iff_ne_zero.mp hl)]
  exact ZSet.mem_zadd

theorem row_recordLease {now : Nat} {p : String} {y : Int} (hl : 0 < st.SPIDER_TASK_LEASE) :
    (y, m) ∈ (q.recordLease st now p).inflight.rows ↔
      (y = (now + st.SPIDER_TASK_LEASE : Nat) ∧ m = p) ∨ ((y, m) ∈ q.inflight.rows ∧ m ≠ p) := by
  rw [recordLease, if_neg (Nat.pos_iff_ne_zero.mp hl)]
  exact ZSet.row_zadd

@[simp] theorem queue_recordLease {now : Nat} {p : String} : (q.recordLease st now p).queue = q.queue := by
  unfold recordLease
  split <;> rfl

@[simp] theorem mem_inflight_doneMember {p : String} :
    m ∈ (q.doneMember p).inflight ↔ m ∈ q.inflight ∧ m ≠ p := ZSet.mem_zrem

@[simp] theorem queue_doneMember {p : String} : (q.doneMember p).queue = q.queue := rfl

/-- A reclaim moves members from `z_inflight` to `z_requests` and loses none. -/
theorem mem_reclaimExpired {now limit : Nat} {works : Bool} :
    (m ∈ q.queue ∨ m ∈ q.inflight) ↔
      m ∈ (q.reclaimExpired st now limit works).2.queue ∨
        m ∈ (q.reclaimExpired st now limit works).2.inflight := by
  unfold reclaimExpired
  split
  · rfl
  · dsimp only
    rw [ZSet.mem_foldl_zadd, ZSet.mem_foldl_zrem]
    have he : m ∈ q.expired now limit → m ∈ q.inflight := fun h => by
      obtain ⟨y, hy, -⟩ := ZSet.mem_zrangebyscore.mp h
      exact ZSet.mem_of_row hy
    tauto

/-- What is in the queue stays there, and nothing comes to be in flight. -/
theorem queue_subset_reclaimExpired {now limit : Nat} {works : Bool} (h : m ∈ q.queue) :
    m ∈ (q.reclaimExpired st now limit works).2.queue := by
  unfold reclaimExpired
  split
  · exact h
  · exact ZSet.mem_foldl_zadd.mpr (.inr h)

theorem inflight_reclaimExpired_subset {now limit : Nat} {works : Bool}
    (h : m ∈ (q.reclaimExpired st now limit works).2.inflight) : m ∈ q.inflight := by
  unfold reclaimExpired at h
  split at h
  · exact h
  · exact (ZSet.mem_foldl_zrem.mp h).1

/-- What it moves: the members whose score is not above the time in
milliseconds and with fewer than `limit` members before them. -/
theorem mem_expired {now limit : Nat} (hlim : 0 < limit) :
    m ∈ q.expired now limit ↔
      ∃ y, (y, m) ∈ q.inflight.rows ∧ y ≤ toMillis now ∧ q.inflight.zrank m < limit := by
  rw [expired, max_eq_right hlim]
  exact ZSet.mem_zrangebyscore

theorem reclaimExpired_of_mem {now limit : Nat} (hl : 0 < st.SPIDER_TASK_LEASE)
    (h : m ∈ q.expired now limit) :
    m ∉ (q.reclaimExpired st now limit true).2.inflight ∧
      m ∈ (q.reclaimExpired st now limit true).2.queue := by
  unfold reclaimExpired
  rw [if_neg (by simpa using Nat.pos_iff_ne_zero.mp hl)]
  exact ⟨fun hm => (ZSet.mem_foldl_zrem.mp hm).2 h, ZSet.mem_foldl_zadd.mpr (.inl h)⟩

theorem reclaimExpired_of_not_mem {now limit : Nat} {works : Bool} (hm : m ∈ q.inflight)
    (h : st.SPIDER_TASK_LEASE = 0 ∨ works = false ∨ m ∉ q.expired now limit) :
    m ∈ (q.reclaimExpired st now limit works).2.inflight := by
  unfold reclaimExpired
  split
  · exact hm
  · rename_i hc
    exact ZSet.mem_foldl_zrem.mpr ⟨hm, by tauto⟩

theorem row_reclaimExpired_iff {now limit : Nat} {y : Int} (hl : 0 < st.SPIDER_TASK_LEASE) :
    (y, m) ∈ (q.reclaimExpired st now limit true).2.inflight.rows ↔
      (y, m) ∈ q.inflight.rows ∧ m ∉ q.expired now limit := by
  unfold reclaimExpired
  rw [if_neg (by simpa using Nat.pos_iff_ne_zero.mp hl)]
  exact ZSet.row_foldl_zrem

theorem mem_queue_reclaimExpired {now limit : Nat} (hl : 0 < st.SPIDER_TASK_LEASE) :
    m ∈ (q.reclaimExpired st now limit true).2.queue ↔ m ∈ q.expired now limit ∨ m ∈ q.queue := by
  unfold reclaimExpired
  rw [if_neg (by simpa using Nat.pos_iff_ne_zero.mp hl)]
  exact ZSet.mem_foldl_zadd

/-- A member has expired if its score is not above the time, whatever the limit. -/
theorem row_of_expired {now limit : Nat} (h : m ∈ q.expired now limit) :
    ∃ y, (y, m) ∈ q.inflight.rows ∧ y ≤ toMillis now := by
  obtain ⟨y, hy, hle, -⟩ := ZSet.mem_zrangebyscore.mp h
  exact ⟨y, hy, hle⟩

theorem row_renew_iff {now : Nat} {tokens : List String} {y : Int} (hl : 0 < st.SPIDER_TASK_LEASE) :
    (y, m) ∈ (q.renew st now tokens).inflight.rows ↔
      (m ∈ tokens ∧ m ∈ q.inflight ∧ y = toMillis (now + st.SPIDER_TASK_LEASE)) ∨
        (¬ (m ∈ tokens ∧ m ∈ q.inflight) ∧ (y, m) ∈ q.inflight.rows) := by
  rw [renew, if_neg (Nat.pos_iff_ne_zero.mp hl)]
  exact ZSet.row_foldl_zaddXX

@[simp] theorem queue_renew {now : Nat} {tokens : List String} : (q.renew st now tokens).queue = q.queue := by
  unfold renew
  split <;> rfl

@[simp] theorem mem_inflight_renew {now : Nat} {tokens : List String} :
    m ∈ (q.renew st now tokens).inflight ↔ m ∈ q.inflight := by
  unfold renew
  split
  · rfl
  · exact ZSet.mem_foldl_zaddXX

end

end RedisTaskQueue

end Netspy
