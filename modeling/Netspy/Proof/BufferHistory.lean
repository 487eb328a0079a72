import Netspy.Impl.BufferHistory

/-!
# No request is lost, and none is enqueued twice

Every request put is in one place: in the buffer, enqueued, drained or dropped.
The filter has seen a fingerprint exactly if it called one request with that
fingerprint new, and that request is not dropped and does not ask again; of
the requests that must ask the filter, only such a request is enqueued.
-/

namespace Netspy

namespace BufferHistory

open BufferThreads

variable {lib : Stdlib} {s t : BufferHistory}

/-- What left the buffer. -/
def gone (s : BufferHistory) : List (Tagged Nat) := s.enqueued ++ s.drained ++ s.dropped

/-- The entry is the request put under its tag, perhaps with its flag cleared. -/
def AsPut (s : BufferHistory) (x : Tagged Nat) : Prop :=
  ∃ r ∈ s.puts[x.tag]?, x.request = r ∨ x.request = { r with filterRepeat := false }

structure Sound (lib : Stdlib) (s : BufferHistory) : Prop where
  /-- Every request put is somewhere, and nowhere else. -/
  perm : (List.range s.puts.length).Perm (s.buffer.tags ++ s.gone.map Tagged.tag)
  asPut : ∀ x ∈ s.buffer.entries ++ s.gone, s.AsPut x
  past : ∀ x, s.buffer.Past x ∨ x ∈ s.enqueued →
    ∀ r ∈ s.puts[x.tag]?, r.filterRepeat = true → x.tag ∈ s.fresh
  awaiting : ∀ x ∈ s.buffer.awaiting, x.tag ∉ s.fresh
  dropped : ∀ x ∈ s.dropped, x.tag ∉ s.fresh ∧ ∃ key ∈ s.dedup.seen, s.Filters lib key x.tag
  seen : ∀ key ∈ s.dedup.seen, ∃ i ∈ s.fresh, s.Filters lib key i
  fresh : ∀ i ∈ s.fresh, ∃ key ∈ s.dedup.seen, s.Filters lib key i
  once : ∀ key, ∀ i ∈ s.fresh, ∀ j ∈ s.fresh, s.Filters lib key i → s.Filters lib key j → i = j

theorem AsPut.clearFilter {x : Tagged Nat} (h : s.AsPut x) : s.AsPut (clearFilter x) := by
  obtain ⟨r, hr, hx⟩ := h
  refine ⟨r, hr, .inr ?_⟩
  rcases hx with hx | hx <;> simp only [BufferThreads.clearFilter, hx]

/-- A request that has its flag still is the one put. -/
theorem AsPut.filters {x : Tagged Nat} {key : String} (h : s.AsPut x)
    (hr : x.request.filterRepeat = true) (hk : x.request.fingerprint lib = .ok key) :
    s.Filters lib key x.tag := by
  obtain ⟨r, hp, hx | hx⟩ := h
  · exact ⟨r, hp, hx ▸ hr, hx ▸ hk⟩
  · rw [hx] at hr
    cases hr

theorem Filters.key_eq {k k' : String} {i : Nat} (h : s.Filters lib k i) (h' : s.Filters lib k' i) :
    k = k' := by
  obtain ⟨r, hr, -, hk⟩ := h
  obtain ⟨r', hr', -, hk'⟩ := h'
  obtain rfl : r = r' := Option.some.inj (hr.symm.trans hr')
  exact Except.ok.inj (hk.symm.trans hk')

theorem Filters.lt {k : String} {i : Nat} (h : s.Filters lib k i) : i < s.puts.length := by
  obtain ⟨r, hr, -⟩ := h
  exact (List.getElem?_eq_some_iff.mp hr).1

/-! ## Putting -/

theorem getElem?_put {r : Request} {i : Nat} (h : i < s.puts.length) :
    (s.put r).puts[i]? = s.puts[i]? := List.getElem?_append_left h

theorem filters_put {r : Request} {key : String} {i : Nat} (h : i < s.puts.length) :
    (s.put r).Filters lib key i ↔ s.Filters lib key i := by
  unfold Filters
  rw [getElem?_put h]

theorem AsPut.put {x : Tagged Nat} {r : Request} (h : s.AsPut x) : (s.put r).AsPut x := by
  obtain ⟨q, hq, hx⟩ := h
  exact ⟨q, (getElem?_put (List.getElem?_eq_some_iff.mp hq).1).trans hq, hx⟩

theorem Sound.tag_lt (h : Sound lib s) {i : Nat} (hi : i ∈ s.buffer.tags ++ s.gone.map Tagged.tag) :
    i < s.puts.length := List.mem_range.mp (h.perm.mem_iff.mpr hi)

theorem Sound.fresh_lt (h : Sound lib s) {i : Nat} (hi : i ∈ s.fresh) : i < s.puts.length := by
  obtain ⟨key, -, hk⟩ := h.fresh i hi
  exact hk.lt

theorem Sound.put (h : Sound lib s) (r : Request) : Sound lib (s.put r) := by
  have hlt {x : Tagged Nat} (hx : x ∈ s.buffer.entries ++ s.gone) : x.tag < s.puts.length :=
    h.tag_lt (by rw [tags, ← List.map_append]; exact List.mem_map_of_mem hx)
  have hself : (s.put r).puts[s.puts.length]? = some r := List.getElem?_concat_length
  refine ⟨?_, fun x hx => ?_, fun x hx q hq hr => ?_, fun x hx => ?_, fun x hx => ?_, fun key hk => ?_,
    fun i hi => ?_, fun key i hi j hj hki hkj => ?_⟩
  · have hp : (s.put r).buffer.tags.Perm (s.puts.length :: s.buffer.tags) :=
      (entries_put s.buffer ⟨s.puts.length, r⟩).map Tagged.tag
    refine .trans ?_ (hp.append_right _).symm
    rw [BufferHistory.put, List.length_append, List.length_singleton, List.range_succ]
    exact (List.perm_append_singleton _ _).trans (h.perm.cons _)
  · rcases List.mem_append.mp hx with hx | hx
    · rcases List.mem_cons.mp ((entries_put _ _).mem_iff.mp hx) with rfl | hx
      · exact ⟨r, hself, .inl rfl⟩
      · exact (h.asPut x (List.mem_append_left _ hx)).put
    · exact (h.asPut x (List.mem_append_right _ hx)).put
  · have hold : s.buffer.Past x ∨ x ∈ s.enqueued → x.tag ∈ s.fresh := fun hx => by
      refine h.past x hx q ((getElem?_put (hlt ?_)).symm.trans hq) hr
      rcases hx with hx | hx
      · exact List.mem_append_left _ hx.mem_entries
      · exact List.mem_append_right _ (List.mem_append_left _ (List.mem_append_left _ hx))
    rcases hx with hx | hx
    · rcases past_put hx with hx | ⟨rfl, hf⟩
      · exact hold (.inl hx)
      · obtain rfl : r = q := Option.some.inj (hself.symm.trans hq)
        rw [hr] at hf
        cases hf
    · exact hold (.inr hx)
  · rcases awaiting_put hx with hx | rfl
    · exact h.awaiting x hx
    · exact fun hf => absurd (h.fresh_lt hf) (Nat.lt_irrefl _)
  · obtain ⟨hn, key, hk, hf⟩ := h.dropped x hx
    exact ⟨hn, key, hk, (filters_put hf.lt).mpr hf⟩
  · obtain ⟨i, hi, hf⟩ := h.seen key hk
    exact ⟨i, hi, (filters_put hf.lt).mpr hf⟩
  · obtain ⟨key, hk, hf⟩ := h.fresh i hi
    exact ⟨key, hk, (filters_put hf.lt).mpr hf⟩
  · exact h.once key i hi j hj ((filters_put (h.fresh_lt hi)).mp hki) ((filters_put (h.fresh_lt hj)).mp hkj)

/-! ## Moving on -/

/-- What the steps other than `put` do to the requests: none is lost, no request
gets past the filter, and one that is dropped waits for the filter, which has
seen its fingerprint. -/
structure Moves (lib : Stdlib) (s t : BufferHistory) : Prop where
  puts : t.puts = s.puts
  tags : (s.buffer.tags ++ s.gone.map Tagged.tag).Perm (t.buffer.tags ++ t.gone.map Tagged.tag)
  entries : ∀ x ∈ t.buffer.entries ++ t.gone,
    x ∈ s.buffer.entries ++ s.gone ∨ ∃ y ∈ s.buffer.entries, x = clearFilter y
  awaiting : t.buffer.awaiting ⊆ s.buffer.awaiting
  enqueued : ∀ x ∈ t.enqueued, x ∈ s.enqueued ∨ s.buffer.Past x
  dropped : ∀ x ∈ t.dropped, x ∈ s.dropped ∨
    x ∈ s.buffer.awaiting ∧ ∃ key ∈ s.dedup.seen, x.request.fingerprint lib = .ok key

theorem Moves.filters (h : Moves lib s t) {key : String} {i : Nat} :
    t.Filters lib key i ↔ s.Filters lib key i := by
  unfold Filters
  rw [h.puts]

theorem Moves.asPut (h : Moves lib s t) {x : Tagged Nat} (hx : s.AsPut x) : t.AsPut x := by
  unfold AsPut
  rwa [h.puts]

/-- A step of which nothing gets past the filter. -/
theorem Sound.move (hs : Sound lib s) (h : Moves lib s t) (hd : t.dedup = s.dedup)
    (hf : t.fresh = s.fresh)
    (hp : ∀ x, t.buffer.Past x → s.buffer.Past x ∨ ∃ y, s.buffer.Past y ∧ x = clearFilter y) :
    Sound lib t := by
  refine ⟨?_, fun x hx => ?_, fun x hx q hq hr => ?_, fun x hx => ?_, fun x hx => ?_, fun key hk => ?_,
    fun i hi => ?_, fun key i hi j hj hki hkj => ?_⟩
  · rw [h.puts]
    exact hs.perm.trans h.tags
  · rcases h.entries x hx with hx | ⟨y, hy, rfl⟩
    · exact h.asPut (hs.asPut x hx)
    · exact h.asPut (hs.asPut y (List.mem_append_left _ hy)).clearFilter
  · rw [h.puts] at hq
    rw [hf]
    have hold (hx : s.buffer.Past x ∨ x ∈ s.enqueued) : x.tag ∈ s.fresh := hs.past x hx q hq hr
    rcases hx with hx | hx
    · rcases hp x hx with hx | ⟨y, hy, rfl⟩
      · exact hold (.inl hx)
      · exact hs.past y (.inl hy) q hq hr
    · exact hold ((h.enqueued x hx).symm)
  · rw [hf]
    exact hs.awaiting x (h.awaiting hx)
  · rw [hf, hd]
    rcases h.dropped x hx with hx | ⟨hx, key, hk, hfp⟩
    · obtain ⟨hn, key, hk, hfl⟩ := hs.dropped x hx
      exact ⟨hn, key, hk, h.filters.mpr hfl⟩
    · have hput : s.AsPut x := hs.asPut x (List.mem_append_left _ (s.buffer.awaiting_sublist.subset hx))
      exact ⟨hs.awaiting x hx, key, hk, h.filters.mpr (hput.filters (mem_awaiting.mp hx).2 hfp)⟩
  · rw [hf]
    obtain ⟨i, hi, hfl⟩ := hs.seen key (hd ▸ hk)
    exact ⟨i, hi, h.filters.mpr hfl⟩
  · rw [hd]
    obtain ⟨key, hk, hfl⟩ := hs.fresh i (hf ▸ hi)
    exact ⟨key, hk, h.filters.mpr hfl⟩
  · exact hs.once key i (hf ▸ hi) j (hf ▸ hj) (h.filters.mp hki) (h.filters.mp hkj)

/-- The filter calls a request new, whose fingerprint it has not seen. -/
theorem Sound.fresh_step (hs : Sound lib s) (h : Moves lib s t) {j : Nat} {x : Tagged Nat} {key : String}
    (hx : s.buffer.asking j = some x) (hr : x.request.filterRepeat = true)
    (hfp : x.request.fingerprint lib = .ok key) (hk : key ∉ s.dedup.seen)
    (hc : s.buffer.filter j .fresh = some (none, t.buffer)) (hd : t.dedup.seen = key :: s.dedup.seen)
    (hf : t.fresh = s.fresh ++ [x.tag]) (hdr : t.dropped = s.dropped) : Sound lib t := by
  have hput : s.AsPut x := hs.asPut x (List.mem_append_left _ (mem_entries_of_asking hx))
  have hnew : s.Filters lib key x.tag := hput.filters hr hfp
  -- no other request with its fingerprint was called new
  have hnone (i : Nat) (hi : i ∈ s.fresh) : ¬ s.Filters lib key i := fun hfl => by
    obtain ⟨k, hks, hfk⟩ := hs.fresh i hi
    exact hk (hfk.key_eq hfl ▸ hks)
  have hmem {i : Nat} : i ∈ t.fresh ↔ i ∈ s.fresh ∨ i = x.tag := by
    rw [hf, List.mem_append, List.mem_singleton]
  have hperm := awaiting_fresh hx hr hc
  have hnodup : (s.buffer.tags ++ s.gone.map Tagged.tag).Nodup := hs.perm.nodup_iff.mp List.nodup_range
  have hunique : x.tag ∉ t.buffer.awaiting.map Tagged.tag := by
    have hsub := (s.buffer.awaiting_sublist.map Tagged.tag).nodup (List.nodup_append.mp hnodup).1
    exact (List.nodup_cons.mp ((hperm.map Tagged.tag).nodup_iff.mp hsub)).1
  refine ⟨?_, fun y hy => ?_, fun y hy q hq hqr => ?_, fun y hy hyf => ?_, fun y hy => ?_, fun k hks => ?_,
    fun i hi => ?_, fun k i hi j hj hki hkj => ?_⟩
  · rw [h.puts]
    exact hs.perm.trans h.tags
  · rcases h.entries y hy with hy | ⟨z, hz, rfl⟩
    · exact h.asPut (hs.asPut y hy)
    · exact h.asPut (hs.asPut z (List.mem_append_left _ hz)).clearFilter
  · rw [h.puts] at hq
    have hold (hy : s.buffer.Past y ∨ y ∈ s.enqueued) : y.tag ∈ t.fresh :=
      hmem.mpr (.inl (hs.past y hy q hq hqr))
    rcases hy with hy | hy
    · rcases past_filter hc hy with hy | ⟨hxy, -, -⟩
      · exact hold (.inl hy)
      · exact hmem.mpr (.inr (congrArg Tagged.tag (Option.some.inj (hxy.symm.trans hx))))
    · exact hold ((h.enqueued y hy).symm)
  · rcases hmem.mp hyf with hyf | hyf
    · exact hs.awaiting y (h.awaiting hy) hyf
    · exact hunique (hyf ▸ List.mem_map_of_mem hy)
  · rw [hdr] at hy
    obtain ⟨hn, k, hks, hfk⟩ := hs.dropped y hy
    refine ⟨fun hyf => ?_, k, hd ▸ List.mem_cons_of_mem key hks, h.filters.mpr hfk⟩
    rcases hmem.mp hyf with hyf | hyf
    · exact hn hyf
    · exact hk (hfk.key_eq (hyf ▸ hnew) ▸ hks)
  · rw [hd] at hks
    rcases List.mem_cons.mp hks with rfl | hks
    · exact ⟨x.tag, hmem.mpr (.inr rfl), h.filters.mpr hnew⟩
    · obtain ⟨i, hi, hfl⟩ := hs.seen k hks
      exact ⟨i, hmem.mpr (.inl hi), h.filters.mpr hfl⟩
  · rw [hd]
    rcases hmem.mp hi with hi | rfl
    · obtain ⟨k, hks, hfl⟩ := hs.fresh i hi
      exact ⟨k, List.mem_cons_of_mem key hks, h.filters.mpr hfl⟩
    · exact ⟨key, List.mem_cons_self, h.filters.mpr hnew⟩
  · rw [h.filters] at hki hkj
    rcases hmem.mp hi with hi | rfl <;> rcases hmem.mp hj with hj | rfl
    · exact hs.once k i hi j hj hki hkj
    · exact absurd (hkj.key_eq hnew ▸ hki) (hnone i hi)
    · exact absurd (hki.key_eq hnew ▸ hkj) (hnone j hj)
    · rfl

/-! ## The steps -/

theorem moves_of_sifts {out : Option (Tagged Nat)} (hp : t.puts = s.puts)
    (h : Sifts s.buffer t.buffer out) (hg : t.gone.Perm (out.toList ++ s.gone))
    (ho : ∀ x ∈ out, x ∈ s.buffer.entries)
    (he : ∀ x ∈ t.enqueued, x ∈ s.enqueued ∨ s.buffer.Past x)
    (hd : ∀ x ∈ t.dropped, x ∈ s.dropped ∨
      x ∈ s.buffer.awaiting ∧ ∃ key ∈ s.dedup.seen, x.request.fingerprint lib = .ok key) :
    Moves lib s t := by
  refine ⟨hp, ?_, fun x hx => ?_, h.awaiting, he, hd⟩
  · refine (h.tags.append_right _).trans (.trans ?_ ((hg.map Tagged.tag).append_left _).symm)
    rw [List.map_append, List.append_assoc]
    exact List.perm_append_comm_assoc ..
  · rcases List.mem_append.mp hx with hx | hx
    · exact (h.entries x hx).imp_left (List.mem_append_left _)
    · refine .inl ?_
      rcases List.mem_append.mp (hg.mem_iff.mp hx) with hx | hx
      · exact List.mem_append_left _ (ho x (Option.mem_toList.mp hx))
      · exact List.mem_append_right _ hx

theorem gone_enqueue (s : BufferHistory) (out : Option (Tagged Nat)) :
    ({ s with enqueued := s.enqueued ++ out.toList } : BufferHistory).gone.Perm (out.toList ++ s.gone) := by
  simp only [gone, List.append_assoc]
  exact List.perm_append_comm_assoc ..

theorem gone_drop (s : BufferHistory) (out : Option (Tagged Nat)) :
    ({ s with dropped := s.dropped ++ out.toList } : BufferHistory).gone.Perm (out.toList ++ s.gone) := by
  rw [gone, ← List.append_assoc]
  exact List.perm_append_comm

theorem Sound.swap (hs : Sound lib s) : Sound lib { s with buffer := s.buffer.swap } :=
  hs.move (moves_of_sifts rfl (sifts_swap s.buffer) (.refl _) (fun x hx => absurd hx (Option.not_mem_none x))
    (fun _ => .inl) fun _ => .inl) rfl rfl fun _ hx => .inl (past_swap hx)

theorem Sound.drainPending (hs : Sound lib s) : Sound lib s.drainPending := by
  have hsub : s.drainPending.buffer.entries ⊆ s.buffer.entries := fun x hx =>
    List.mem_append_right _ hx
  have hgone : s.drainPending.gone.Perm (s.buffer.pending ++ s.gone) := by
    simp only [BufferHistory.drainPending, BufferThreads.drainPending, gone, List.append_assoc]
    exact ((List.perm_append_comm_assoc ..).append_left _).trans (List.perm_append_comm_assoc ..)
  refine hs.move ⟨rfl, ?_, fun x hx => .inl ?_, fun x hx => ?_, fun _ => .inl, fun _ => .inl⟩ rfl rfl
    fun x hx => .inl ?_
  · refine .trans ?_ ((hgone.map Tagged.tag).append_left _).symm
    rw [tags, BufferThreads.entries, List.map_append, List.map_append, List.append_assoc]
    exact List.perm_append_comm_assoc ..
  · rcases List.mem_append.mp hx with hx | hx
    · exact List.mem_append_left _ (hsub hx)
    · rcases List.mem_append.mp (hgone.mem_iff.mp hx) with hx | hx
      · exact List.mem_append_left _ (List.mem_append_left _ hx)
      · exact List.mem_append_right _ hx
  · obtain ⟨hx, hr⟩ := mem_awaiting.mp hx
    exact mem_awaiting.mpr ⟨hx.imp_left fun h => absurd h List.not_mem_nil, hr⟩
  · exact hx.imp_left fun h => ⟨hsub h.1, h.2⟩

theorem Sound.push {j : Nat} {raised : Option Exn} (hs : Sound lib s) (h : push lib s j raised = some t) :
    Sound lib t := by
  simp only [BufferHistory.push, Option.bind_eq_bind, Option.bind_eq_some_iff, Option.pure_def,
    Option.some.injEq, Prod.exists] at h
  obtain ⟨x, -, pushed, buffer, hp, rfl⟩ := h
  have hd : ((services lib raised).put x.request s.dedup).2 = s.dedup := by cases raised <;> rfl
  have hpast : ∀ y ∈ pushed, s.buffer.Past y := pushed_past hp
  refine hs.move (moves_of_sifts rfl (sifts_push hp) (gone_enqueue s pushed) (fun y hy => (hpast y hy).mem_entries)
    (fun y hy => ?_) fun _ => .inl) hd rfl fun y hy => past_push hp hy
  exact (List.mem_append.mp hy).imp_right fun hy => hpast y (Option.mem_toList.mp hy)

/-- What the filter answers a flush, and what it has seen then. -/
theorem askDedup_cases (raised : Option Exn) (r : Request) (d : LiteFilter) :
    (r.filterRepeat = false ∧ RequestBuffer.askDedup (services lib raised) r d = (.ok true, d)) ∨
    (r.filterRepeat = true ∧ ((∃ e, RequestBuffer.askDedup (services lib raised) r d = (.error e, d)) ∨
      ∃ key, r.fingerprint lib = .ok key ∧
        RequestBuffer.askDedup (services lib raised) r d = (.ok (d.add key).1, (d.add key).2))) := by
  by_cases hr : r.filterRepeat = true
  · refine .inr ⟨hr, ?_⟩
    rw [RequestBuffer.askDedup, if_pos hr]
    cases hfp : r.fingerprint lib with
    | error e => exact .inl ⟨e, by simp only [services, hfp]⟩
    | ok key =>
      cases raised with
      | some e => exact .inl ⟨e, by simp only [services, hfp]⟩
      | none => exact .inr ⟨key, rfl, by simp only [services, hfp]⟩
  · exact .inl ⟨Bool.eq_false_of_not_eq_true hr, by rw [RequestBuffer.askDedup, if_neg hr]⟩

theorem Sound.ask {j : Nat} {raised : Option Exn} (hs : Sound lib s) (h : ask lib s j raised = some t) :
    Sound lib t := by
  simp only [BufferHistory.ask, Option.bind_eq_bind, Option.bind_eq_some_iff, Option.pure_def,
    Option.some.injEq, Prod.exists] at h
  obtain ⟨x, hx, dropped, buffer, hf, rfl⟩ := h
  obtain ⟨hsift, hdrop⟩ := sifts_filter hf
  have hentry : ∀ y ∈ dropped, y ∈ s.buffer.entries := fun y hy => mem_entries_of_asking (hdrop y hy).1
  have hmoves {u : BufferHistory} (hb : u.buffer = buffer) (hp : u.puts = s.puts)
      (he : u.enqueued = s.enqueued) (hr : u.drained = s.drained)
      (hd : u.dropped = s.dropped ++ dropped.toList)
      (hseen : ∀ y ∈ dropped, ∃ key ∈ s.dedup.seen, y.request.fingerprint lib = .ok key) :
      Moves lib s u := by
    refine moves_of_sifts hp (hb ▸ hsift) ?_ hentry (fun y hy => .inl (he ▸ hy)) fun y hy => ?_
    · rw [gone, he, hr, hd]
      exact gone_drop s dropped
    · refine (List.mem_append.mp (hd ▸ hy)).imp_right fun hy => ?_
      obtain ⟨hask, hr, -⟩ := hdrop y (Option.mem_toList.mp hy)
      exact ⟨mem_awaiting_of_asking hask hr, hseen y (Option.mem_toList.mp hy)⟩
  rcases @askDedup_cases lib raised x.request s.dedup with ⟨hr, ha⟩ | ⟨hr, ⟨e, ha⟩ | ⟨key, hfp, ha⟩⟩
  · -- not asked
    simp only [ha, answerOf] at hf hdrop
    refine hs.move (hmoves rfl rfl rfl rfl rfl fun y hy => ?_) ?_ ?_ fun y hy => .inl ?_
    · cases (hdrop y hy).2.2
    · rw [ha]
    · simp only [hr, Bool.false_and, Bool.false_eq_true, if_false, List.append_nil]
    · rcases past_filter hf hy with hy | ⟨hxy, hyr, -⟩
      · exact hy
      · rw [← Option.some.inj (hx.symm.trans hxy), hr] at hyr
        cases hyr
  · -- the call raises
    simp only [ha, answerOf] at hf hdrop
    refine hs.move (hmoves rfl rfl rfl rfl rfl fun y hy => ?_) ?_ ?_ fun y hy => .inl ?_
    · cases (hdrop y hy).2.2
    · rw [ha]
    · rw [ha, show (Except.toOption (.error e : Except Exn Bool) == some true) = false from rfl, Bool.and_false]
      exact List.append_nil _
    · exact (past_filter hf hy).resolve_right fun h => nomatch h.2.2
  · by_cases hk : key ∈ s.dedup.seen
    · -- a repeat
      rw [LiteFilter.add, if_pos hk] at ha
      simp only [ha, answerOf] at hf hdrop
      refine hs.move (hmoves rfl rfl rfl rfl rfl fun y hy => ⟨key, hk, ?_⟩) ?_ ?_ fun y hy => .inl ?_
      · rw [← Option.some.inj (hx.symm.trans (hdrop y hy).1)]
        exact hfp
      · rw [ha]
      · rw [ha, show (Except.toOption (.ok false : Except Exn Bool) == some true) = false from rfl, Bool.and_false]
        exact List.append_nil _
      · exact (past_filter hf hy).resolve_right fun h => nomatch h.2.2
    · rw [LiteFilter.add, if_neg hk] at ha
      simp only [ha, answerOf] at hf hdrop
      obtain rfl : dropped = none := Option.eq_none_iff_forall_not_mem.mpr fun y hy => nomatch (hdrop y hy).2.2
      refine hs.fresh_step (hmoves rfl rfl rfl rfl rfl fun y hy => absurd hy (Option.not_mem_none y)) hx hr hfp
        hk hf ?_ ?_ (List.append_nil _)
      · rw [ha]
      · rw [ha, hr]
        rfl

theorem sound_step (call : BufferCall) (hs : Sound lib s) (h : step lib s call = some t) : Sound lib t := by
  cases call with
  | put r => cases h; exact hs.put r
  | putRetry r => cases h; exact hs.put _
  | swap => cases h; exact hs.swap
  | ask j raised => exact hs.ask h
  | push j raised => exact hs.push h
  | drainPending => cases h; exact hs.drainPending

theorem sound_start : Sound lib {} := by
  have hentries {x : Tagged Nat} : x ∉ ({} : BufferThreads Nat).entries := List.not_mem_nil
  refine ⟨.refl _, fun x hx => absurd hx List.not_mem_nil, fun x hx => ?_,
    fun x hx => absurd hx List.not_mem_nil, fun x hx => absurd hx List.not_mem_nil,
    fun key hk => absurd hk List.not_mem_nil, fun i hi => absurd hi List.not_mem_nil,
    fun key i hi => absurd hi List.not_mem_nil⟩
  rcases hx with hx | hx
  · exact absurd hx.mem_entries hentries
  · exact absurd hx List.not_mem_nil

theorem sound_reachable (h : (machine lib).Reachable s) : Sound lib s := by
  refine h.induct (I := Sound lib) (fun s hs => ?_) fun s call t hi _ ht => sound_step call hi ht
  rw [show s = {} from hs]
  exact sound_start

/-- A request that the filter called new is still there. -/
theorem Sound.kept (hs : Sound lib s) {i : Nat} (hi : i ∈ s.fresh) : s.Kept i := by
  have hm := hs.perm.mem_iff.mp (List.mem_range.mpr (hs.fresh_lt hi))
  simp only [gone, List.map_append, List.mem_append] at hm
  rcases hm with hm | (hm | hm) | hm
  · obtain ⟨x, hx, rfl⟩ := List.mem_map.mp hm
    exact .inl ⟨x, (awaiting_or_past hx).resolve_left fun ha => hs.awaiting x ha hi, rfl⟩
  · exact .inr (.inl hm)
  · exact .inr (.inr hm)
  · obtain ⟨x, hx, rfl⟩ := List.mem_map.mp hm
    exact absurd hi (hs.dropped x hx).1

/-- A list with different images that are all equal. -/
theorem length_le_one {α β : Type} {l : List α} {f : α → β} (hn : (l.map f).Nodup)
    (h : ∀ x ∈ l, ∀ y ∈ l, f x = f y) : l.length ≤ 1 := by
  match l with
  | [] => exact Nat.zero_le 1
  | [_] => exact Nat.le_refl 1
  | x :: y :: rest =>
    refine absurd ?_ (List.nodup_cons.mp hn).1
    rw [h x List.mem_cons_self y (List.mem_cons_of_mem x List.mem_cons_self)]
    exact List.mem_cons_self

/-- At every moment every request put is in exactly one place, as it was put but
perhaps for its flag, and one that was dropped had the fingerprint of another
one that was put with `filter_repeat`, is past the filter and was not dropped;
and of the requests put with `filter_repeat` that have one fingerprint at most
one is ever enqueued. -/
theorem neither_loses_nor_duplicates (h : (machine lib).Reachable s) :
    (List.range s.puts.length).Perm (s.buffer.pending.map Tagged.tag ++
      (s.buffer.flushes.flatMap RequestFlush.batch).map Tagged.tag ++ s.enqueued.map Tagged.tag ++
      s.drained.map Tagged.tag ++ s.dropped.map Tagged.tag) ∧
    (∀ x ∈ s.buffer.entries ++ s.gone, s.AsPut x) ∧
    (∀ x ∈ s.dropped, ∃ key j, j ≠ x.tag ∧ s.Filters lib key x.tag ∧ s.Filters lib key j ∧ s.Kept j) ∧
    ∀ key, (s.enqueued.filter fun x => s.Filters lib key x.tag).length ≤ 1 := by
  have hs : Sound lib s := sound_reachable h
  refine ⟨?_, hs.asPut, fun x hx => ?_, fun key => ?_⟩
  · have hp := hs.perm
    simp only [tags, BufferThreads.entries, gone, List.map_append] at hp
    simpa only [List.append_assoc] using hp
  · obtain ⟨hn, key, hk, hf⟩ := hs.dropped x hx
    obtain ⟨j, hj, hfj⟩ := hs.seen key hk
    exact ⟨key, j, fun e => hn (e ▸ hj), hf, hfj, hs.kept hj⟩
  · -- two of them would both be new to the filter, so they are one, and no tag is there twice
    have hnodup : (s.enqueued.map Tagged.tag).Nodup := by
      have hp := hs.perm.nodup_iff.mp List.nodup_range
      simp only [gone, List.map_append, List.append_assoc] at hp
      exact (List.nodup_append.mp (List.nodup_append.mp hp).2.1).1
    have hfresh {x : Tagged Nat} (hx : x ∈ s.enqueued) (hf : s.Filters lib key x.tag) : x.tag ∈ s.fresh := by
      obtain ⟨r, hr, hrf, -⟩ := hf
      exact hs.past x (.inr hx) r hr hrf
    refine length_le_one (((List.filter_sublist).map Tagged.tag).nodup hnodup) fun x hx y hy => ?_
    rw [List.mem_filter, decide_eq_true_eq] at hx hy
    exact hs.once key _ (hfresh hx.1 hx.2) _ (hfresh hy.1 hy.2) hx.2 hy.2

/-- A library by which the fingerprint is the text `GET|url|`. -/
def textLib : Stdlib where
  urlsplit url := .ok ⟨"", "", url, "", ""⟩
  parseQsl _ := []
  urlencode _ := ""
  urlunsplit parts := parts.path
  dumpsSorted _ := .ok ""
  str _ := ""
  repr _ := ""
  md5 text := text
  lower text := text

/-- Two requests for one page and a retry. The queue fails the first one, which
the next flush enqueues; the filter fails the second one, and then drops it. -/
def transientFailure : List BufferCall :=
  [.put { url := "a" }, .put { url := "a" }, .putRetry { url := "b" }, .swap, .ask 0 none,
    .push 0 (some "ConnectionError"), .swap, .ask 1 none, .push 1 none, .ask 1 (some "ConnectionError"),
    .swap, .ask 2 none, .ask 2 none, .put { url := "c" }, .drainPending, .push 2 none]

def afterFailure : BufferHistory := ((machine textLib).exec {} transientFailure).getD {}

theorem neither_loses_nor_duplicates_afterFailure :
    (List.range 4).Perm [0, 2, 3, 1] ∧ afterFailure.dropped.map Tagged.tag = [1] ∧
    (∃ key j, j ≠ 1 ∧ afterFailure.Filters textLib key 1 ∧ afterFailure.Filters textLib key j ∧
      afterFailure.Kept j) := by
  have hr : (machine textLib).Reachable afterFailure :=
    .exec (.start rfl) (Machine.exec_getD (by decide +kernel) _)
  obtain ⟨hp, -, hd, -⟩ := neither_loses_nor_duplicates hr
  refine ⟨?_, by decide +kernel, ?_⟩
  · exact hp
  · exact hd ⟨1, { url := "a" }⟩ (by decide +kernel)

end BufferHistory

end Netspy
