import Netspy.Impl.Exit

/-!
# Requests at the exits of a node

What is left of a request that was given up, and of those a node holds when it
shuts down, however the calls to Redis end. A request that is given up is kept
only by the `RPUSH`, or because its acknowledgement fails too; `_on_shutdown`
keeps what it reads up to the first that cannot be serialised, and it does not read
the collector's `_in_progress`.
-/

namespace Netspy

namespace NodeExit

variable (st : Setting) (codec : Serializer)

/-- A call of `ZREM` for the request takes the member away. -/
def Settles (zrem : RedisCall) (r : Request) (m : String) : Prop :=
  zrem.reaches = true ∧ r.leaseToken = some m ∧ m ≠ ""

theorem queueDone_eq (zrem : RedisCall) (r : Request) (s : NodeExit) :
    s.queueDone zrem r = { s with tasks := (s.queueDone zrem r).tasks } := by
  unfold queueDone
  cases r.leaseToken with
  | none => rfl
  | some token => dsimp only; split_ifs <;> rfl

theorem queue_queueDone (zrem : RedisCall) (r : Request) (s : NodeExit) :
    (s.queueDone zrem r).tasks.queue = s.tasks.queue := by
  unfold queueDone
  cases r.leaseToken with
  | none => rfl
  | some token => dsimp only; split_ifs <;> rfl

theorem mem_inflight_queueDone {zrem : RedisCall} {r : Request} {s : NodeExit} {m : String} :
    m ∈ (s.queueDone zrem r).tasks.inflight ↔ m ∈ s.tasks.inflight ∧ ¬ Settles zrem r m := by
  unfold queueDone Settles
  cases r.leaseToken with
  | none => simp
  | some token =>
    dsimp only
    split_ifs with h
    · rw [RedisTaskQueue.mem_inflight_doneMember]
      refine and_congr_right fun _ => ⟨fun hm hs => hm (Option.some.inj hs.2.1).symm, fun hs hm => ?_⟩
      exact hs ⟨h.2, congrArg some hm.symm, hm ▸ h.1⟩
    · refine ⟨fun hm => ⟨hm, fun hs => h ⟨?_, hs.1⟩⟩, And.left⟩
      rw [Option.some.inj hs.2.1]
      exact hs.2.2

/-! ## A request that is given up -/

/-- Where a member is once a request was given up. -/
theorem holds_giveUp {rpush zrem : RedisCall} {r : Request} {s : NodeExit} {m : String} :
    (s.giveUp codec rpush zrem r).Holds st m ↔
      (m ∈ s.tasks.queue ∨ (0 < st.SPIDER_TASK_LEASE ∧ m ∈ s.tasks.inflight ∧ ¬ Settles zrem r m) ∨
        m ∈ s.failedRequests ∨ m ∈ s.dumpFile) ∨ (rpush.reaches = true ∧ codec.dumps r = some m) := by
  unfold Holds giveUp collectorDone
  rw [queue_queueDone, mem_inflight_queueDone, queueDone_eq]
  unfold onFailedRequest
  cases hd : codec.dumps r with
  | none => simp
  | some text =>
    cases rpush.reaches with
    | false => simp
    | true =>
      simp only [if_true, List.mem_append, List.mem_singleton, true_and, Option.some.injEq, eq_comm (a := text)]
      tauto

/-- A request that is given up is kept exactly if it can be serialised and the `RPUSH`
reaches Redis, or it is held elsewhere and that is not taken away. -/
theorem kept_giveUp_iff {rpush zrem : RedisCall} {r : Request} {s : NodeExit} :
    (s.giveUp codec rpush zrem r).Kept st codec r ↔
      (rpush.reaches = true ∧ (codec.dumps r).isSome) ∨ ∃ m, Payload codec r m ∧ (m ∈ s.tasks.queue ∨
        (0 < st.SPIDER_TASK_LEASE ∧ m ∈ s.tasks.inflight ∧ ¬ Settles zrem r m) ∨
        m ∈ s.failedRequests ∨ m ∈ s.dumpFile) := by
  unfold Kept
  simp only [holds_giveUp]
  constructor
  · rintro ⟨m, hm, h | ⟨hr, hd⟩⟩
    · exact .inr ⟨m, hm, h⟩
    · exact .inl ⟨hr, hd ▸ rfl⟩
  · rintro (⟨hr, hd⟩ | ⟨m, hm, h⟩)
    · obtain ⟨m, hd⟩ := Option.isSome_iff_exists.mp hd
      exact ⟨m, .inr ⟨r.filterRepeat, hd⟩, .inr ⟨hr, hd⟩⟩
    · exact ⟨m, hm, .inl h⟩

/-! ## The shutdown -/

/-- A `put` returns. -/
def Returns (call : RedisCall) (r : Request) : Prop := call = .works ∧ (codec.dumps r).isSome

instance (call : RedisCall) (r : Request) : Decidable (Returns codec call r) := inferInstanceAs (Decidable (_ ∧ _))

/-- The leftovers whose `put` returns, each with its place. -/
def pushed (puts : Nat → RedisCall) : Nat → List Request → List (Nat × Request)
  | _, [] => []
  | i, r :: rest => if Returns codec (puts i) (clearFilter r) then (i, clearFilter r) :: pushed puts (i + 1) rest else []

/-- The leftovers that are to be dumped. -/
def unpushed (puts : Nat → RedisCall) : Nat → List Request → List Request
  | _, [] => []
  | i, r :: rest => if Returns codec (puts i) (clearFilter r) then unpushed puts (i + 1) rest else clearFilter r :: rest

/-- A text that the shutdown writes for a leftover. -/
def Written (puts : Nat → RedisCall) (i : Nat) (ls : List Request) (m : String) : Prop :=
  (∃ p ∈ pushed codec puts i ls, codec.dumps p.2 = some m) ∨ m ∈ appendRequests codec (unpushed codec puts i ls)

/-- The leftovers from the first on that cannot be serialised. -/
def cutOff (ls : List Request) : List Request := ls.dropWhile fun r => (codec.dumps r).isSome

theorem appendRequests_cons {r : Request} {line : String} (h : codec.dumps r = some line) (rest : List Request) :
    appendRequests codec (r :: rest) = line :: appendRequests codec rest := by
  rw [appendRequests, h]

theorem cutOff_cons_of_none {r : Request} (h : codec.dumps r = none) (rest : List Request) :
    cutOff codec (r :: rest) = r :: rest :=
  List.dropWhile_cons_of_neg (p := fun r => (codec.dumps r).isSome) (by rw [h]; exact Bool.false_ne_true)

theorem cutOff_cons_of_some {r : Request} {line : String} (h : codec.dumps r = some line) (rest : List Request) :
    cutOff codec (r :: rest) = cutOff codec rest :=
  List.dropWhile_cons_of_pos (p := fun r => (codec.dumps r).isSome) (by rw [h]; rfl)

theorem mem_appendRequests {ls : List Request} {r : Request} (h : r ∈ ls) (hcut : r ∉ cutOff codec ls) :
    ∃ line, codec.dumps r = some line ∧ line ∈ appendRequests codec ls := by
  induction ls with
  | nil => exact absurd h List.not_mem_nil
  | cons l ls ih =>
    cases hd : codec.dumps l with
    | none =>
      rw [cutOff_cons_of_none codec hd] at hcut
      exact absurd h hcut
    | some line =>
      rw [cutOff_cons_of_some codec hd] at hcut
      rw [appendRequests_cons codec hd]
      rcases List.mem_cons.mp h with rfl | h
      · exact ⟨line, hd, List.mem_cons_self⟩
      · obtain ⟨line', hd', hm⟩ := ih h hcut
        exact ⟨line', hd', List.mem_cons_of_mem _ hm⟩

/-- Every leftover before the cut is written, up to its filter flag. -/
theorem exists_written (puts : Nat → RedisCall) {ls : List Request} {r : Request} (h : r ∈ ls)
    (hcut : r ∉ cutOff codec ls) (i : Nat) :
    ∃ b m, codec.dumps { r with filterRepeat := b } = some m ∧ Written codec puts i ls m := by
  induction ls generalizing i with
  | nil => exact absurd h List.not_mem_nil
  | cons l ls ih =>
    obtain ⟨line, hl⟩ : ∃ line, codec.dumps l = some line := by
      by_contra hnone
      rw [cutOff_cons_of_none codec (by simpa [Option.eq_none_iff_forall_ne_some] using hnone)] at hcut
      exact hcut h
    rw [cutOff_cons_of_some codec hl] at hcut
    have hflag : (codec.dumps (clearFilter l)).isSome = (codec.dumps l).isSome := codec.flag l false
    rw [hl] at hflag
    obtain ⟨line, hline⟩ := Option.isSome_iff_exists.mp hflag
    unfold Written pushed unpushed
    split_ifs with hp
    · rcases List.mem_cons.mp h with rfl | h
      · exact ⟨false, line, hline, .inl ⟨(i, clearFilter r), List.mem_cons_self, hline⟩⟩
      · obtain ⟨b, m, hd, ⟨p, hpm, hdp⟩ | hu⟩ := ih h hcut (i + 1)
        · exact ⟨b, m, hd, .inl ⟨p, List.mem_cons_of_mem _ hpm, hdp⟩⟩
        · exact ⟨b, m, hd, .inr hu⟩
    · rw [appendRequests_cons codec hline]
      rcases List.mem_cons.mp h with rfl | h
      · exact ⟨false, line, hline, .inr List.mem_cons_self⟩
      · obtain ⟨line', hd, hm⟩ := mem_appendRequests codec h hcut
        exact ⟨r.filterRepeat, line', hd, .inr (List.mem_cons_of_mem _ hm)⟩

variable {st codec}

/-- A `put` that returns has stored the request. -/
theorem queuePut_returns {call : RedisCall} {r : Request} {s : NodeExit} (h : Returns codec call r) :
    ∃ payload, codec.dumps r = some payload ∧
      s.queuePut codec call r =
        (true, { s with tasks := { s.tasks with queue := s.tasks.queue.zadd payload r.priority } }) := by
  obtain ⟨rfl, hd⟩ := h
  obtain ⟨payload, hd⟩ := Option.isSome_iff_exists.mp hd
  refine ⟨payload, hd, ?_⟩
  unfold queuePut
  rw [hd]
  rfl

/-- One that raises may have stored it, and the request is the first that is dumped. -/
theorem queuePut_raises {call : RedisCall} {r : Request} {s : NodeExit} (h : ¬ Returns codec call r) :
    (s.queuePut codec call r).1 = false ∧ ((s.queuePut codec call r).2 = s ∨ ∃ payload, codec.dumps r = some payload ∧
      (s.queuePut codec call r).2 = { s with tasks := { s.tasks with queue := s.tasks.queue.zadd payload r.priority } }) := by
  unfold queuePut
  cases hd : codec.dumps r with
  | none => exact ⟨rfl, .inl rfl⟩
  | some payload =>
    have hcall : call ≠ .works := fun hw => h ⟨hw, hd ▸ rfl⟩
    refine ⟨decide_eq_false hcall, ?_⟩
    dsimp only
    split
    · exact .inr ⟨payload, rfl, rfl⟩
    · exact .inl rfl

/-- Where a member is after the loop. -/
theorem holds_pushBack (hdump : st.DUMP_UNFINISHED_ON_EXIT = true) {puts zrems : Nat → RedisCall} {ls : List Request}
    {i : Nat} {s : NodeExit} {m : String} :
    (pushBack st codec puts zrems i ls s).Holds st m ↔
      (m ∈ s.tasks.queue ∨ (0 < st.SPIDER_TASK_LEASE ∧ m ∈ s.tasks.inflight ∧
          ∀ p ∈ pushed codec puts i ls, ¬ Settles (zrems p.1) p.2 m) ∨
        m ∈ s.failedRequests ∨ m ∈ s.dumpFile) ∨ Written codec puts i ls m := by
  induction ls generalizing i s with
  | nil => simp [pushBack, pushed, unpushed, appendRequests, Written, Holds]
  | cons r rest ih =>
    unfold pushBack Written pushed unpushed
    by_cases hp : Returns codec (puts i) (clearFilter r)
    · obtain ⟨payload, hd, hput⟩ := queuePut_returns (s := s) hp
      simp only [hput, if_pos hp, if_true]
      rw [ih, queue_queueDone, mem_inflight_queueDone, queueDone_eq]
      simp only [ZSet.mem_zadd, List.forall_mem_cons, List.exists_mem_cons_iff, Written, and_assoc, hd,
        Option.some.injEq, eq_comm (a := payload)]
      exact iff_of_eq (by ac_rfl)
    · obtain ⟨hfalse, hput⟩ := queuePut_raises (s := s) hp
      simp only [hfalse, if_neg hp, Bool.false_eq_true, if_false]
      simp only [dumpRequests, hdump, if_true, Holds, List.mem_append, List.not_mem_nil, false_and, exists_false,
        false_or, false_imp_iff, implies_true, and_true]
      rcases hput with hput | ⟨payload, hd, hput⟩
      · rw [hput]
        tauto
      · rw [hput, appendRequests_cons codec hd]
        simp only [ZSet.mem_zadd, List.mem_cons]
        tauto

/-- What a request needs to be kept that is not read, or not written: it is in the queue,
the list or the file, it is in flight and no leftover takes its member away, or a
leftover is written as one of its texts. -/
def Stays (st : Setting) (codec : Serializer) (puts zrems : Nat → RedisCall) (s : NodeExit) (r : Request) : Prop :=
  ∃ m, Payload codec r m ∧ ((m ∈ s.tasks.queue ∨ (0 < st.SPIDER_TASK_LEASE ∧ m ∈ s.tasks.inflight ∧
      ∀ p ∈ pushed codec puts 0 s.leftovers, ¬ Settles (zrems p.1) p.2 m) ∨
    m ∈ s.failedRequests ∨ m ∈ s.dumpFile) ∨ Written codec puts 0 s.leftovers m)

theorem kept_onShutdown_iff (hdump : st.DUMP_UNFINISHED_ON_EXIT = true) {puts zrems : Nat → RedisCall} {s : NodeExit}
    {r : Request} : (s.onShutdown st codec puts zrems).Kept st codec r ↔ s.Stays st codec puts zrems r :=
  exists_congr fun _ => and_congr_right fun _ => holds_pushBack hdump

/-- The leftovers before the cut are kept whatever fails. -/
theorem stays_leftover (puts zrems : Nat → RedisCall) {s : NodeExit} {r : Request} (h : r ∈ s.leftovers)
    (hcut : r ∉ cutOff codec s.leftovers) : s.Stays st codec puts zrems r := by
  obtain ⟨b, m, hd, hw⟩ := exists_written codec puts h hcut 0
  exact ⟨m, .inr ⟨b, hd⟩, .inr hw⟩

/-- At both exits: a request that is given up is kept exactly if it is pushed to
the failed list or stays where it was, and all that a node holds when it shuts
down is kept exactly if each request in progress stays, and each leftover from the first
on that cannot be serialised. -/
theorem exits_keep_iff (st : Setting) (codec : Serializer) (hdump : st.DUMP_UNFINISHED_ON_EXIT = true) (s : NodeExit) :
    (∀ rpush zrem r, (s.giveUp codec rpush zrem r).Kept st codec r ↔
      (rpush.reaches = true ∧ (codec.dumps r).isSome) ∨ ∃ m, Payload codec r m ∧ (m ∈ s.tasks.queue ∨
        (0 < st.SPIDER_TASK_LEASE ∧ m ∈ s.tasks.inflight ∧ ¬ Settles zrem r m) ∨
        m ∈ s.failedRequests ∨ m ∈ s.dumpFile)) ∧
      ∀ puts zrems, (∀ r ∈ s.leftovers ++ s.inProgress, (s.onShutdown st codec puts zrems).Kept st codec r) ↔
        ∀ r ∈ cutOff codec s.leftovers ++ s.inProgress, s.Stays st codec puts zrems r := by
  refine ⟨fun rpush zrem r => kept_giveUp_iff st codec, fun puts zrems => ?_⟩
  simp only [kept_onShutdown_iff hdump, List.forall_mem_append]
  refine and_congr_left fun _ => ⟨fun h r hr => h r (List.dropWhile_subset _ hr), fun h r hr => ?_⟩
  by_cases hcut : r ∈ cutOff codec s.leftovers
  · exact h r hcut
  · exact stays_leftover puts zrems hr hcut

def urls : Serializer where
  dumps r := some r.url
  flag _ _ := rfl

def takenRequest : Request := { url := "a", leaseToken := some "a" }

/-- A node that holds one request, with its lease. -/
def oneTaken : NodeExit where
  tasks := { inflight := (∅ : ZSet String).zadd "a" 600000000 }
  inProgress := [takenRequest]

theorem payload_takenRequest {m : String} (h : Payload urls takenRequest m) : m = "a" := by
  rcases h with h | ⟨b, h⟩ <;> exact (Option.some.inj h).symm

/-- The `RPUSH` fails, the acknowledgement works, and the request is nowhere. -/
theorem failedPush_not_kept : ¬ (oneTaken.giveUp urls .fails .works takenRequest).Kept {} urls takenRequest := by
  rw [kept_giveUp_iff]
  rintro (h | ⟨m, hm, h⟩)
  · exact absurd h.1 (by decide)
  · obtain rfl := payload_takenRequest hm
    rcases h with h | ⟨-, -, h⟩ | h | h
    · exact absurd h (by decide)
    · exact h ⟨rfl, rfl, by decide⟩
    · exact absurd h List.not_mem_nil
    · exact absurd h List.not_mem_nil

/-- Without leases, a request whose worker has not finished is nowhere. -/
theorem exits_keep_iff_noLeases :
    ¬ ∀ r ∈ oneTaken.leftovers ++ oneTaken.inProgress,
      (oneTaken.onShutdown { SPIDER_TASK_LEASE := 0 } urls (fun _ => .works) fun _ => .works).Kept
        { SPIDER_TASK_LEASE := 0 } urls r := by
  rw [(exits_keep_iff { SPIDER_TASK_LEASE := 0 } urls rfl oneTaken).2]
  intro h
  obtain ⟨m, -, (h | ⟨h, -⟩ | h | h) | ⟨p, hp, -⟩ | hl⟩ := h takenRequest (by decide)
  · exact absurd h (List.not_mem_nil)
  · exact absurd h (by decide)
  · exact absurd h List.not_mem_nil
  · exact absurd h List.not_mem_nil
  · exact absurd hp List.not_mem_nil
  · exact absurd hl List.not_mem_nil

end NodeExit

end Netspy
