import Netspy.Proof.Cluster

/-!
# Where the yielded requests of a node are

A request that was put into the request buffer is held by its node, in the
memory or in the dump of failed requests, until it is dropped by the filter
or put into the queue (`Placed`). No step loses one, whatever fails and
whenever the nodes are killed (`placed_step`).
-/

namespace Netspy

namespace RedisScheduler

/-- What is only in the memory of the node, or in its dump of failed requests. -/
def held (nd : RedisScheduler) : List Origin :=
  nd.requestBuffer.tags.map Buffered.origin ++ (nd.leftovers ++ nd.dumped).filterMap Leftover.origin

theorem mem_held {nd : RedisScheduler} {o : Origin} :
    o ∈ nd.held ↔ (∃ t ∈ nd.requestBuffer.tags, t.origin = o) ∨
      ∃ l, (l ∈ nd.leftovers ∨ l ∈ nd.dumped) ∧ l.origin = some o := by
  simp only [held, List.mem_append, List.mem_map, List.mem_filterMap]

theorem held_buffer {nd : RedisScheduler} {b : BufferThreads Buffered} {out : Option (Tagged Buffered)}
    (hb : nd.requestBuffer.Sifts b out) {o : Origin} (h : o ∈ nd.held) :
    o ∈ { nd with requestBuffer := b }.held ∨ ∃ x ∈ out, x.tag.origin = o := by
  rcases mem_held.mp h with ⟨t, ht, ho⟩ | hl
  · rcases hb.mem_tags ht with ht | ⟨x, hx, rfl⟩
    · exact .inl (mem_held.mpr (.inl ⟨t, ht, ho⟩))
    · exact .inr ⟨x, hx, ho⟩
  · exact .inl (mem_held.mpr (.inr hl))

theorem held_swap {nd : RedisScheduler} {o : Origin} (h : o ∈ nd.held) : o ∈ nd.swap.held :=
  (held_buffer (BufferThreads.sifts_swap nd.requestBuffer) h).resolve_right
    fun ⟨x, hx, _⟩ => Option.not_mem_none x hx

theorem held_drain {codec : Codec} {nd : RedisScheduler} {o : Origin} (hl : nd.leftovers = [])
    (h : o ∈ nd.held) : o ∈ (nd.drain codec).held := by
  rcases mem_held.mp h with ⟨t, ht, rfl⟩ | ⟨l, hm, ho⟩
  · obtain ⟨x, hx, rfl⟩ := List.mem_map.mp ht
    rcases BufferThreads.mem_entries.mp hx with hx | hf
    · refine mem_held.mpr (.inr ⟨leftoverOfBuffered x, .inl ?_, rfl⟩)
      exact List.mem_append_left _ (List.mem_map_of_mem hx)
    · refine mem_held.mpr (.inl ⟨x.tag, List.mem_map_of_mem ?_, rfl⟩)
      exact BufferThreads.mem_entries.mpr (.inr hf)
  · rw [hl] at hm
    exact mem_held.mpr (.inr ⟨l, .inr (hm.resolve_left List.not_mem_nil), ho⟩)

/-! ## One node -/

/-- Where the yielded requests of a node are; a node that has not started has no
workers, and one that has not shut down nothing to push back. -/
structure Placed (nd : RedisScheduler) : Prop where
  placed : ∀ o ∈ nd.yielded, o ∈ nd.held ∨ o.serial ∈ nd.dropped ∨ ∃ m, (o, m) ∈ nd.landed
  absent : nd.status = .absent → nd.workers = []
  staying : nd.status = .absent ∨ nd.status = .running → nd.leftovers = []

theorem Placed.congr {nd nd' : RedisScheduler} (h : Placed nd) (hy : nd'.yielded = nd.yielded)
    (hh : ∀ o ∈ nd.held, o ∈ nd'.held ∨ o.serial ∈ nd'.dropped ∨ ∃ m, (o, m) ∈ nd'.landed)
    (hd : nd.dropped ⊆ nd'.dropped) (hl : nd.landed ⊆ nd'.landed)
    (ha : nd'.status = .absent → nd'.workers = [])
    (hs : nd'.status = .absent ∨ nd'.status = .running → nd'.leftovers = []) : Placed nd' := by
  refine ⟨fun o ho => ?_, ha, hs⟩
  rcases h.placed o (hy ▸ ho) with hm | hm | ⟨m, hm⟩
  · exact hh o hm
  · exact .inr (.inl (hd hm))
  · exact .inr (.inr ⟨m, hl hm⟩)

theorem Placed.yieldRequest {nd : RedisScheduler} (h : Placed nd) (parent token : Option Nat) (r : Request) :
    Placed (nd.yieldRequest parent token r) := by
  refine ⟨fun o ho => ?_, h.absent, h.staying⟩
  rcases List.mem_append.mp ho with ho | ho
  · rcases h.placed o ho with hm | hm
    · refine .inl (mem_held.mpr ?_)
      rcases mem_held.mp hm with ⟨t, ht, hto⟩ | hm
      · exact .inl ⟨t, BufferThreads.mem_tags_put.mpr (.inr ht), hto⟩
      · exact .inr hm
    · exact .inr hm
  · rw [List.mem_singleton.mp ho]
    exact .inl (mem_held.mpr (.inl ⟨_, BufferThreads.mem_tags_put.mpr (.inl rfl), rfl⟩))

/-- A worker that has a state is not absent, whatever it goes on to. -/
theorem Placed.absent_setWorker {nd : RedisScheduler} (h : Placed nd) {w : Nat} {x : WorkerState}
    (hw : nd.workers[w]? = some x) (y : WorkerState) (ha : nd.status = .absent) :
    (nd.setWorker w y).workers = [] := by
  rw [h.absent ha] at hw
  cases hw

/-- A step of a worker on fields that do not say where requests are. -/
theorem Placed.setWorker {nd nd' : RedisScheduler} (h : Placed nd) {w : Nat} {x : WorkerState}
    (hw : nd.workers[w]? = some x) (y : WorkerState)
    (he : nd' = { nd with
      collector := nd'.collector
      items := nd'.items
      taken := nd'.taken
      workers := nd.workers.set w y }) : Placed nd' := by
  rw [he]
  exact ⟨h.placed, h.absent_setWorker hw y, h.staying⟩

theorem Placed.swap {nd : RedisScheduler} (h : Placed nd) : Placed nd.swap :=
  h.congr rfl (fun _ ho => .inl (held_swap ho)) (List.Subset.refl _) (List.Subset.refl _) h.absent h.staying

/-- A step of a flush: what it takes out of the buffer is dropped or landed. -/
theorem Placed.buffer {nd nd' : RedisScheduler} (h : Placed nd) {out : Option (Tagged Buffered)}
    (hb : nd.requestBuffer.Sifts nd'.requestBuffer out)
    (he : nd' = { nd with
      requestBuffer := nd'.requestBuffer
      dropped := nd'.dropped
      landed := nd'.landed })
    (hd : nd.dropped ⊆ nd'.dropped) (hl : nd.landed ⊆ nd'.landed)
    (ho : ∀ x ∈ out, x.tag.origin.serial ∈ nd'.dropped ∨ ∃ m, (x.tag.origin, m) ∈ nd'.landed) :
    Placed nd' := by
  refine h.congr (by rw [he]) (fun o hh => ?_) hd hl (by rw [he]; exact h.absent)
    (by rw [he]; exact h.staying)
  rcases held_buffer hb hh with hh | ⟨x, hx, rfl⟩
  · rw [he]
    exact .inl hh
  · exact .inr (ho x hx)

/-- The shutdown pushes a request back. -/
theorem Placed.pushBack {nd nd' : RedisScheduler} (h : Placed nd) {l : Leftover} {rest : List Leftover}
    (hl : nd.leftovers = l :: rest)
    (he : nd' = { nd with leftovers := rest, settling := nd'.settling, landed := nd'.landed })
    (hsub : nd.landed ⊆ nd'.landed)
    (hland : ∀ o, l.origin = some o → ∃ m, (o, m) ∈ nd'.landed) : Placed nd' := by
  refine h.congr (by rw [he]) (fun o ho => ?_) (by rw [he]; exact List.Subset.refl _) hsub
    (by rw [he]; exact h.absent) fun hst => ?_
  · have hheld : ∀ q, (∃ t ∈ nd.requestBuffer.tags, t.origin = q) ∨
        (∃ x, (x ∈ rest ∨ x ∈ nd.dumped) ∧ x.origin = some q) → q ∈ nd'.held := fun q hq => by
      rw [he]
      exact mem_held.mpr hq
    rcases mem_held.mp ho with hb | ⟨x, hx, hxo⟩
    · exact .inl (hheld o (.inl hb))
    · rw [hl, List.mem_cons, or_assoc] at hx
      rcases hx with rfl | hx
      · exact .inr (.inr (hland o hxo))
      · exact .inl (hheld o (.inr ⟨x, hx, hxo⟩))
  · have hnil : nd.leftovers = [] := h.staying (by rw [he] at hst; exact hst)
    rw [hl] at hnil
    cases hnil

theorem Placed.drain {codec : Codec} {nd : RedisScheduler} (h : Placed nd) (hr : nd.status = .running) :
    Placed (nd.drain codec) :=
  h.congr rfl (fun _ ho => .inl (held_drain (h.staying (.inr hr)) ho)) (List.Subset.refl _)
    (List.Subset.refl _) nofun fun e => e.elim nofun nofun

/-- A step by which the filter drops nothing: the requests are numbered on, and
what is in the buffer, or will be asked about, was so or is new. -/
structure Steady (nd nd' : RedisScheduler) : Prop where
  yielded : nd.yielded <+: nd'.yielded
  entries : ∀ x ∈ nd'.requestBuffer.entries,
    (∃ y ∈ nd.requestBuffer.entries, ∃ b, x = ⟨y.tag, { y.request with filterRepeat := b }⟩) ∨
      nd.yielded.length ≤ x.tag.origin.serial ∧ x.tag.origin.serial < nd'.yielded.length
  awaiting : ∀ x ∈ nd'.requestBuffer.awaiting,
    x ∈ nd.requestBuffer.awaiting ∨ nd.yielded.length ≤ x.tag.origin.serial
  dropped : nd'.dropped = nd.dropped

theorem Steady.buffer {nd nd' : RedisScheduler} {out : Option (Tagged Buffered)}
    (hb : nd.requestBuffer.Sifts nd'.requestBuffer out) (hy : nd'.yielded = nd.yielded)
    (hd : nd'.dropped = nd.dropped) : Steady nd nd' := by
  refine ⟨hy ▸ List.prefix_refl _, fun x hx => .inl ?_, fun x hx => .inl (hb.awaiting hx), hd⟩
  rcases hb.entries x hx with hx | ⟨y, hy, rfl⟩
  · exact ⟨x, hx, x.request.filterRepeat, rfl⟩
  · exact ⟨y, hy, false, rfl⟩

theorem Steady.of_eq {nd nd' : RedisScheduler} (hb : nd'.requestBuffer = nd.requestBuffer)
    (hy : nd'.yielded = nd.yielded) (hd : nd'.dropped = nd.dropped) : Steady nd nd' := by
  refine ⟨hy ▸ List.prefix_refl _, fun x hx => .inl ?_, fun x hx => .inl (hb ▸ hx), hd⟩
  exact ⟨x, hb ▸ hx, x.request.filterRepeat, rfl⟩

theorem Steady.trans {nd₁ nd₂ nd₃ : RedisScheduler} (h : Steady nd₁ nd₂) (h' : Steady nd₂ nd₃) :
    Steady nd₁ nd₃ := by
  refine ⟨h.yielded.trans h'.yielded, fun x hx => ?_, fun x hx => ?_, h'.dropped.trans h.dropped⟩
  · rcases h'.entries x hx with ⟨y, hy, b, rfl⟩ | ⟨hle, hlt⟩
    · rcases h.entries y hy with ⟨z, hz, b', rfl⟩ | ⟨hle, hlt⟩
      · exact .inl ⟨z, hz, b, rfl⟩
      · exact .inr ⟨hle, hlt.trans_le h'.yielded.length_le⟩
    · exact .inr ⟨h.yielded.length_le.trans hle, hlt⟩
  · rcases h'.awaiting x hx with hx | hle
    · exact h.awaiting x hx
    · exact .inr (h.yielded.length_le.trans hle)

theorem steady_yieldRequest (nd : RedisScheduler) (parent token : Option Nat) (r : Request) :
    Steady nd (nd.yieldRequest parent token r) := by
  refine ⟨List.prefix_append .., fun x hx => ?_, fun x hx => ?_, rfl⟩
  · rcases List.mem_cons.mp ((BufferThreads.entries_put ..).mem_iff.mp hx) with rfl | hx
    · exact .inr ⟨le_rfl, by simp [RedisScheduler.yieldRequest]⟩
    · exact .inl ⟨x, hx, x.request.filterRepeat, rfl⟩
  · rcases BufferThreads.awaiting_put hx with hx | rfl
    · exact .inl hx
    · exact .inr le_rfl

theorem steady_drain (codec : Codec) (nd : RedisScheduler) : Steady nd (nd.drain codec) := by
  refine ⟨List.prefix_refl _, fun x hx => .inl ⟨x, ?_, x.request.filterRepeat, rfl⟩, fun x hx => .inl ?_, rfl⟩
  · exact BufferThreads.mem_entries.mpr
      (.inr ((BufferThreads.mem_entries.mp hx).resolve_left List.not_mem_nil))
  · obtain ⟨hm, hr⟩ := BufferThreads.mem_awaiting.mp hx
    exact BufferThreads.mem_awaiting.mpr ⟨.inr (hm.resolve_left List.not_mem_nil), hr⟩

end RedisScheduler

open RedisScheduler

theorem LocalStep.steady {nd nd' : RedisScheduler} {a : NodeAct} (h : LocalStep nd a nd')
    (ha : ∀ j answer, a ≠ .filter j answer) : Steady nd nd' := by
  cases h with
  | seed | yieldRequest | putRetry | convert => exact steady_yieldRequest ..
  | swap | endPoll => exact .buffer (BufferThreads.sifts_swap nd.requestBuffer) rfl rfl
  | pushRaised j b hp => exact .buffer (BufferThreads.sifts_push hp) rfl rfl
  | filter j answer => exact absurd rfl (ha j answer)
  | _ => exact .of_eq rfl rfl rfl

theorem LocalStep.placed {nd nd' : RedisScheduler} {a : NodeAct} (h : LocalStep nd a nd') (hn : Placed nd) :
    Placed nd' := by
  cases h with
  | seed | yieldRequest | putRetry | convert => exact hn.yieldRequest ..
  | popBuffer _ _ _ hw => exact hn.setWorker hw _ rfl
  | getNone _ hw | timeout _ hw => exact hn.setWorker hw _ rfl
  | putItem _ _ _ _ hw => exact hn.setWorker hw _ rfl
  | finishDeferred _ _ _ hw => exact hn.setWorker hw _ rfl
  | swap => exact hn.swap
  | endPoll =>
    have hp : Placed { nd with poller := { nd.poller with phase := .waiting } } :=
      ⟨hn.placed, hn.absent, hn.staying⟩
    exact hp.swap
  | filter j answer dropped b hf =>
    refine hn.buffer (BufferThreads.sifts_filter hf).1 rfl (List.subset_append_left ..)
      (List.Subset.refl _) fun x hx => .inl (List.mem_append_right _ ?_)
    rw [Option.mem_def.mp hx]
    exact List.mem_singleton.mpr rfl
  | pushRaised j b hp =>
    exact hn.buffer (BufferThreads.sifts_push hp) rfl (List.Subset.refl _) (List.Subset.refl _)
      fun x hx => absurd hx (Option.not_mem_none x)
  | pushBackRaised l rest hl hs =>
    refine hn.congr rfl (fun o ho => .inl (mem_held.mpr ?_)) (List.Subset.refl _) (List.Subset.refl _)
      hn.absent fun _ => rfl
    rcases mem_held.mp ho with hb | ⟨x, hx, hxo⟩
    · exact .inl hb
    · exact .inr ⟨x, .inr (List.mem_append.mpr hx.symm), hxo⟩
  | count | swapItems | failItems | fetchNone | fetch | resetPolls | nextTask =>
    exact ⟨hn.placed, hn.absent, hn.staying⟩

namespace Cluster

/-! ## All nodes -/

variable {ν : Type} [DecidableEq ν] {st : Setting} {codec : Codec} {s t : Cluster ν}

theorem placed_update (h : ∀ i, Placed (s.nodes i)) {n : ν} {nd : RedisScheduler}
    (ht : t.nodes = Function.update s.nodes n nd) (hp : Placed nd) : ∀ i, Placed (t.nodes i) := by
  rw [ht]
  exact (Function.forall_update_iff s.nodes fun _ => Placed).mpr ⟨hp, fun i _ => h i⟩

theorem placed_setNode (h : ∀ i, Placed (s.nodes i)) {n : ν} {nd : RedisScheduler} (hp : Placed nd) :
    ∀ i, Placed ((s.setNode n nd).nodes i) :=
  placed_update h (setNode_nodes s n nd) hp

theorem placed_queueDone (h : ∀ i, Placed (s.nodes i)) (n : ν) (k : Nat) (works : Bool) :
    ∀ i, Placed ((s.queueDone n k works).nodes i) := by
  rcases queueDone_cases s n k works with ⟨m, -, he⟩ | he
  · rw [he]
    exact placed_update h rfl ⟨(h n).placed, (h n).absent, (h n).staying⟩
  · rwa [he]

theorem placed_collectorDone (h : ∀ i, Placed (s.nodes i)) (n : ν) (k : Nat) (works : Bool) :
    ∀ i, Placed ((s.collectorDone n k works).nodes i) := by
  refine placed_queueDone (placed_setNode h ?_) n k works
  exact ⟨(h n).placed, (h n).absent, (h n).staying⟩

theorem placed_step {a : ClusterAct ν} (h : ∀ i, Placed (s.nodes i)) (hs : Stepped st codec s a t) :
    ∀ i, Placed (t.nodes i) := by
  cases hs with
  | tick | beat | renew | pollIgnored => exact h
  | join n => exact placed_update h rfl ⟨nofun, nofun, fun _ => rfl⟩
  | kill n => exact placed_update h rfl ⟨(h n).placed, nofun, fun e => e.elim nofun nofun⟩
  | inNode n a nd hl => exact placed_update h rfl (hl.placed (h n))
  | get n w m rest q hw | getBatch n w k ms q extra hw =>
    exact placed_update h rfl ((h n).setWorker hw _ rfl)
  | bzpopmin n w m q hw => exact placed_update h rfl ((h n).setWorker hw _ rfl)
  | lease n w m hw => exact placed_update h rfl ((h n).setWorker hw _ rfl)
  | finish n w k works hw =>
    exact placed_collectorDone (placed_setNode h ((h n).setWorker hw _ rfl)) n k works
  | push n j x b hp =>
    refine placed_update h rfl ((h n).buffer (BufferThreads.sifts_push hp) rfl (List.Subset.refl _)
      (List.subset_append_left ..) ?_)
    rintro _ ⟨⟩
    exact .inr ⟨_, List.mem_append_right _ (List.mem_singleton.mpr rfl)⟩
  | ackOwner n j k rest works =>
    refine placed_collectorDone (placed_setNode h ?_) n k works
    exact ⟨(h n).placed, (h n).absent, (h n).staying⟩
  | pollTask n | pollReclaim n | read n | readIdle n | readBusy n =>
    exact placed_update h rfl ⟨(h n).placed, (h n).absent, (h n).staying⟩
  | drain n hr => exact placed_update h rfl ((h n).drain hr)
  | pushBack n l rest hl =>
    refine placed_update h rfl ((h n).pushBack hl rfl (List.subset_append_left ..) fun o ho => ?_)
    exact ⟨codec.dumps l.request, List.mem_append_right _ (by simp [ho])⟩
  | pushDone n k works =>
    refine placed_queueDone (placed_setNode h ?_) n k works
    exact ⟨(h n).placed, (h n).absent, (h n).staying⟩

/-! ## What the filter drops -/

theorem steady_update {n : ν} {nd : RedisScheduler} (ht : t.nodes = Function.update s.nodes n nd)
    (h : Steady (s.nodes n) nd) (i : ν) : Steady (s.nodes i) (t.nodes i) := by
  rw [ht]
  by_cases hin : i = n
  · subst hin
    rwa [Function.update_self]
  · rw [Function.update_of_ne hin]
    exact .of_eq rfl rfl rfl

theorem steady_queueDone (n : ν) (k : Nat) (works : Bool) (i : ν) :
    Steady (s.nodes i) ((s.queueDone n k works).nodes i) := by
  rcases queueDone_cases s n k works with ⟨m, -, he⟩ | he
  · rw [he]
    refine steady_update rfl ?_ i
    exact .of_eq rfl rfl rfl
  · rw [he]
    exact .of_eq rfl rfl rfl

theorem steady_collectorDone (n : ν) (k : Nat) (works : Bool) (i : ν) :
    Steady (s.nodes i) ((s.collectorDone n k works).nodes i) := by
  refine Steady.trans (steady_update (setNode_nodes s n _) ?_ i) (steady_queueDone n k works i)
  exact .of_eq rfl rfl rfl

/-- Every step of a node but that of the filter. -/
theorem steady_step {n : ν} {a : NodeAct} (hs : Stepped st codec s (.node n a) t)
    (ha : ∀ j answer, a ≠ .filter j answer) (i : ν) : Steady (s.nodes i) (t.nodes i) := by
  cases hs with
  | inNode _ _ nd hl => exact steady_update rfl (hl.steady ha) i
  | push _ j x b hp =>
    refine steady_update rfl ?_ i
    exact .buffer (BufferThreads.sifts_push hp) rfl rfl
  | drain => exact steady_update rfl (steady_drain codec _) i
  | beat | renew | pollIgnored => exact .of_eq rfl rfl rfl
  | finish _ w k works | ackOwner _ j k rest works =>
    refine Steady.trans (steady_update (setNode_nodes s n _) ?_ i) (steady_collectorDone n k works i)
    exact .of_eq rfl rfl rfl
  | pushDone _ k works =>
    refine Steady.trans (steady_update (setNode_nodes s n _) ?_ i) (steady_queueDone n k works i)
    exact .of_eq rfl rfl rfl
  | get | getBatch | bzpopmin | lease | pollTask | pollReclaim | read | readIdle | readBusy | pushBack =>
    refine steady_update rfl ?_ i
    exact .of_eq rfl rfl rfl

/-- In every state of every run. -/
theorem placed_reachable (h : (machine st codec).Reachable s) : ∀ n, Placed (s.nodes n) := by
  refine h.induct (I := fun s => ∀ n, Placed (s.nodes n)) (fun s hs n => ?_)
    fun _ _ _ hp _ ht => placed_step hp (stepped ht)
  rw [hs.1 n]
  exact ⟨nofun, fun _ => rfl, fun _ => rfl⟩

end Cluster

end Netspy
