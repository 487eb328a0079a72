import Netspy.Impl.ClientThreads
import Netspy.Proof.Downloader

/-!
# Clients that are closed while they are used

A client that a worker closes because it was dropped from the cache is used by no
other, as long as each download ends before its client can be dropped: fewer keys
than the cache holds are asked for meanwhile (`closes_unused`). The cache does not
know who uses what it drops, so as soon as more are asked for, it drops a client
that is in use.
-/

namespace Netspy

namespace ProxyClientCache

variable {κ β : Type} [DecidableEq κ] {items : ProxyClientCache κ β} {proxy : κ} {factory : β} {capacity : Nat}

/-- What is not cached any more is to be closed. -/
theorem mem_evicted {e : κ × β} (he : e ∈ items)
    (hgone : e.1 ∉ Lru.keys (items.getOrCreate proxy factory capacity).2.2) :
    e.2 ∈ (items.getOrCreate proxy factory capacity).2.1 := by
  revert hgone
  unfold getOrCreate
  split
  · intro hgone
    refine absurd ?_ hgone
    unfold Lru.keys
    rw [List.map_append, List.mem_append]
    by_cases hk : e.1 = proxy
    · exact .inr (hk ▸ List.mem_cons_self)
    · exact .inl (List.mem_map_of_mem (List.mem_filter.mpr ⟨he, by simpa using hk⟩))
  · intro hgone
    have hmem : e ∈ items ++ [(proxy, factory)] := List.mem_append_left _ he
    dsimp only at hgone ⊢
    rw [← List.take_append_drop ((items ++ [(proxy, factory)]).length - max capacity 1) (items ++ [(proxy, factory)])]
      at hmem
    rcases List.mem_append.mp hmem with hmem | hmem
    · exact List.mem_map_of_mem hmem
    · exact absurd (List.mem_map_of_mem hmem) hgone

/-- What is to be closed was cached, and is not any more. -/
theorem of_mem_evicted (hn : (items.map Prod.snd).Nodup) (hf : factory ∉ items.map Prod.snd) {v : β}
    (hv : v ∈ (items.getOrCreate proxy factory capacity).2.1) :
    v ∈ items.map Prod.snd ∧ v ∉ (items.getOrCreate proxy factory capacity).2.2.map Prod.snd := by
  revert hv
  unfold getOrCreate
  split
  · nofun
  · intro hv
    dsimp only at hv ⊢
    have hle : (items ++ [(proxy, factory)]).length - max capacity 1 ≤ items.length := by
      rw [List.length_append, List.length_singleton]
      omega
    have hall : ((items ++ [(proxy, factory)]).map Prod.snd).Nodup := by
      rw [List.map_append]
      exact hn.append (List.nodup_singleton _) fun w hw hw' => hf ((List.mem_singleton.mp hw' : w = factory) ▸ hw)
    constructor
    · rw [List.take_append_of_le_length hle] at hv
      rw [List.map_take] at hv
      exact List.mem_of_mem_take hv
    · rw [List.map_take] at hv
      rw [List.map_drop]
      exact fun hv' => List.disjoint_take_drop hall (Nat.le_refl _) hv hv'

end ProxyClientCache

namespace ClientThreads

/-- No thread closes a client that another one uses. -/
def ClosesUnused (s : ClientThreads) (a : ClientAct) : Prop :=
  ∀ v ∈ s.closing a, ∀ i j u, a = .close i → j ≠ i → s.workers j = some u → u.client ≠ v

/-- Where a thread asks for a client, those that others use of the same cache were
asked for with fewer than its capacity other keys since. -/
def KeepsUsed (p : Pooling) (s : ClientThreads) : ClientAct → Prop
  | .getOrCreate i proxy =>
    ∀ key, p.key i proxy = some key → ∀ j u, s.workers j = some u → p.cache j = p.cache i →
      Lru.Recent (max p.capacity 1) (key :: s.asked (p.cache i)) u.key
  | .close _ | .finish _ => True

/-- What is cached, used and dropped. -/
structure Inv (p : Pooling) (s : ClientThreads) : Prop where
  follows : ∀ c, Lru.Follows (max p.capacity 1) (s.asked c) (s.caches c)
  fresh : ∀ c, ∀ e ∈ s.caches c, e.2 < s.made
  apart : ∀ c c' e e', e ∈ s.caches c → e' ∈ s.caches c' → e.2 = e'.2 → c = c' ∧ e = e'
  used : ∀ j u, s.workers j = some u → (u.key, u.client) ∈ s.caches (p.cache j)
  dropped : ∀ i u, s.workers i = some u → ∀ v ∈ u.evicted, v < s.made ∧ ∀ c, ∀ e ∈ s.caches c, e.2 ≠ v

theorem Inv.start (p : Pooling) : Inv p {} where
  follows _ := Lru.Follows.nil _
  fresh _ := List.forall_mem_nil _
  apart _ _ _ _ he := absurd he List.not_mem_nil
  used _ _ := nofun
  dropped _ _ := nofun

section
variable {p : Pooling} {s t : ClientThreads}

theorem Inv.clients_nodup (h : Inv p s) (c : Nat) : ((s.caches c).map Prod.snd).Nodup := by
  have hn : (s.caches c).Nodup := .of_map Prod.fst (h.follows c).nodup
  exact hn.map_on fun e he e' he' heq => (h.apart c c e e' he he' heq).2

theorem Inv.made_new (h : Inv p s) (c : Nat) : s.made ∉ (s.caches c).map Prod.snd := by
  intro hm
  obtain ⟨e, he, heq⟩ := List.mem_map.mp hm
  exact absurd (h.fresh c e he) (by omega)

/-! ## What `get_or_create` leaves -/

/-- What a cache has after a call for it. -/
theorem Inv.get_items (h : Inv p s) (i : Nat) (key : Option String) :
    (s.get p i key).caches (p.cache i) = Lru.touch (max p.capacity 1) (s.caches (p.cache i)) key s.made := by
  unfold get
  dsimp only
  rw [Function.update_self, ProxyClientCache.getOrCreate_items (h.follows _).length_le]

theorem get_items_ne {i c : Nat} (hc : c ≠ p.cache i) (key : Option String) : (s.get p i key).caches c = s.caches c :=
  Function.update_of_ne hc _ _

theorem get_workers_ne {i j : Nat} (hj : j ≠ i) (key : Option String) : (s.get p i key).workers j = s.workers j :=
  Function.update_of_ne hj _ _

/-- What the calling thread has after it. -/
theorem get_workers_self (p : Pooling) (s : ClientThreads) (i : Nat) (key : Option String) :
    (s.get p i key).workers i =
      some
        { key
          client := ((s.caches (p.cache i)).getOrCreate key s.made p.capacity).1
          evicted := ((s.caches (p.cache i)).getOrCreate key s.made p.capacity).2.1 } := by
  unfold get
  dsimp only
  rw [Function.update_self]

/-- A cached client was cached before, or is the one that was made. -/
theorem Inv.get_mem (h : Inv p s) {i c : Nat} {key : Option String} {e : Option String × Nat}
    (he : e ∈ (s.get p i key).caches c) : e ∈ s.caches c ∨ c = p.cache i ∧ e = (key, s.made) := by
  by_cases hc : c = p.cache i
  · subst hc
    rw [h.get_items] at he
    exact (Lru.mem_or_of_mem_touch he).imp_right fun he => ⟨rfl, he⟩
  · rw [get_items_ne hc] at he
    exact .inl he

/-- What the calling thread has to close was cached, and is not any more. -/
theorem Inv.get_evicted (h : Inv p s) {i : Nat} {key : Option String} {v : Nat}
    (hv : v ∈ ((s.caches (p.cache i)).getOrCreate key s.made p.capacity).2.1) :
    v < s.made ∧ ∀ c, ∀ e ∈ (s.get p i key).caches c, e.2 ≠ v := by
  obtain ⟨hwas, hgone⟩ := ProxyClientCache.of_mem_evicted (h.clients_nodup _) (h.made_new _) hv
  obtain ⟨d, hd, rfl⟩ := List.mem_map.mp hwas
  have hlt := h.fresh _ d hd
  refine ⟨hlt, fun c e he heq => ?_⟩
  rcases h.get_mem he with hold | ⟨-, rfl⟩
  · obtain ⟨rfl, rfl⟩ := h.apart _ _ e d hold hd heq
    rw [h.get_items, ← ProxyClientCache.getOrCreate_items (h.follows _).length_le] at he
    exact hgone (List.mem_map_of_mem he)
  · exact absurd hlt (by rw [← heq]; exact Nat.lt_irrefl _)

/-- A client that is used stays cached if its key was asked for recently. -/
theorem Inv.get_used (h : Inv p s) {i j : Nat} {key : Option String} {u : ClientUse} (hu : s.workers j = some u)
    (hc : p.cache j = p.cache i) (hr : Lru.Recent (max p.capacity 1) (key :: s.asked (p.cache i)) u.key) :
    (u.key, u.client) ∈ (s.get p i key).caches (p.cache j) := by
  have hmem := h.used j u hu
  rw [hc] at hmem ⊢
  rw [h.get_items]
  have hfollows := (h.follows (p.cache i)).touch key s.made
  exact Lru.mem_touch_of_mem (h.follows _).nodup hmem ((Lru.mem_keys_iff hfollows).mpr hr)

/-- One whose key was not is dropped. -/
theorem Inv.get_unused (h : Inv p s) {i j : Nat} {key : Option String} {u : ClientUse} (hu : s.workers j = some u)
    (hc : p.cache j = p.cache i) (hr : ¬ Lru.Recent (max p.capacity 1) (key :: s.asked (p.cache i)) u.key) :
    u.client ∈ ((s.caches (p.cache i)).getOrCreate key s.made p.capacity).2.1 := by
  have hmem := h.used j u hu
  rw [hc] at hmem
  have hfollows := (h.follows (p.cache i)).touch key s.made
  apply ProxyClientCache.mem_evicted hmem
  rw [ProxyClientCache.getOrCreate_items (h.follows _).length_le, Lru.mem_keys_iff hfollows]
  exact hr

theorem Inv.get (h : Inv p s) {i : Nat} {key : Option String}
    (hg : ∀ j u, s.workers j = some u → p.cache j = p.cache i →
      Lru.Recent (max p.capacity 1) (key :: s.asked (p.cache i)) u.key) : Inv p (s.get p i key) where
  follows c := by
    by_cases hc : c = p.cache i
    · subst hc
      rw [h.get_items]
      unfold ClientThreads.get
      dsimp only
      rw [Function.update_self]
      exact (h.follows _).touch key s.made
    · rw [get_items_ne hc]
      unfold ClientThreads.get
      dsimp only
      rw [Function.update_of_ne hc]
      exact h.follows c
  fresh c e he := by
    rcases h.get_mem he with he | ⟨-, rfl⟩
    · exact Nat.lt_succ_of_lt (h.fresh c e he)
    · exact Nat.lt_succ_self s.made
  apart c c' e e' he he' heq := by
    rcases h.get_mem he with he | ⟨hc, rfl⟩ <;> rcases h.get_mem he' with he' | ⟨hc', rfl⟩
    · exact h.apart c c' e e' he he' heq
    · exact absurd (h.fresh c e he) (by rw [heq]; exact Nat.lt_irrefl _)
    · exact absurd (h.fresh c' e' he') (by rw [← heq]; exact Nat.lt_irrefl _)
    · exact ⟨hc.trans hc'.symm, rfl⟩
  used j u hu := by
    by_cases hj : j = i
    · subst hj
      rw [get_workers_self] at hu
      cases hu
      rw [h.get_items]
      exact ProxyClientCache.getOrCreate_self _ _ _ _
    · rw [get_workers_ne hj] at hu
      by_cases hc : p.cache j = p.cache i
      · exact h.get_used hu hc (hg j u hu hc)
      · rw [get_items_ne hc]
        exact h.used j u hu
  dropped j u hu v hv := by
    by_cases hj : j = i
    · subst hj
      rw [get_workers_self] at hu
      cases hu
      obtain ⟨hlt, hgone⟩ := h.get_evicted hv
      exact ⟨Nat.lt_succ_of_lt hlt, hgone⟩
    · rw [get_workers_ne hj] at hu
      obtain ⟨hlt, hgone⟩ := h.dropped j u hu v hv
      refine ⟨Nat.lt_succ_of_lt hlt, fun c e he => ?_⟩
      rcases h.get_mem he with he | ⟨-, rfl⟩
      · exact hgone c e he
      · exact (Nat.ne_of_lt hlt).symm

/-- Threads that close or end what they have leave the caches as they are. -/
theorem Inv.of_workers (h : Inv p s) {workers : Nat → Option ClientUse}
    (hw : ∀ j u, workers j = some u →
      ∃ u', s.workers j = some u' ∧ u.key = u'.key ∧ u.client = u'.client ∧ u.evicted ⊆ u'.evicted) :
    Inv p { s with workers } where
  follows := h.follows
  fresh := h.fresh
  apart := h.apart
  used j u hu := by
    obtain ⟨u', hu', hk, hc, -⟩ := hw j u hu
    rw [hk, hc]
    exact h.used j u' hu'
  dropped j u hu v hv := by
    obtain ⟨u', hu', -, -, he⟩ := hw j u hu
    exact h.dropped j u' hu' v (he hv)

theorem Inv.step (h : Inv p s) {a : ClientAct} (hg : KeepsUsed p s a) (ht : step p s a = some t) : Inv p t := by
  cases a with
  | getOrCreate i proxy =>
    simp only [ClientThreads.step] at ht
    split at ht
    · rename_i key hi hkey
      cases ht
      exact h.get (hg key hkey)
    · cases ht
  | close i =>
    simp only [ClientThreads.step] at ht
    split at ht
    · rename_i key client v evicted hi
      cases ht
      refine h.of_workers fun j u hu => ?_
      by_cases hj : j = i
      · subst hj
        rw [Function.update_self] at hu
        cases hu
        exact ⟨_, hi, rfl, rfl, List.subset_cons_self v evicted⟩
      · rw [Function.update_of_ne hj] at hu
        exact ⟨u, hu, rfl, rfl, List.Subset.refl _⟩
    · cases ht
  | finish i =>
    simp only [ClientThreads.step] at ht
    split at ht
    · cases ht
      refine h.of_workers fun j u hu => ?_
      by_cases hj : j = i
      · subst hj
        rw [Function.update_self] at hu
        cases hu
      · rw [Function.update_of_ne hj] at hu
        exact ⟨u, hu, rfl, rfl, List.Subset.refl _⟩
    · cases ht

theorem Inv.within (h : (machine p).Within (KeepsUsed p) s) : Inv p s :=
  h.induct (fun _ hs => hs ▸ Inv.start p) fun _ _ _ hi hg ht => hi.step hg ht

/-- What a thread has dropped, no thread uses. -/
theorem Inv.unused (h : Inv p s) {i j : Nat} {u w : ClientUse} (hu : s.workers i = some u) (hw : s.workers j = some w)
    {v : Nat} (hv : v ∈ u.evicted) : w.client ≠ v :=
  (h.dropped i u hu v hv).2 _ _ (h.used j w hw)

/-- A call drops no client that is used exactly if the keys of those were asked for recently. -/
theorem Inv.keepsUsed_iff (h : Inv p s) {i : Nat} {proxy : Option String}
    (ht : ClientThreads.step p s (.getOrCreate i proxy) = some t) :
    KeepsUsed p s (.getOrCreate i proxy) ↔
      ∀ u, t.workers i = some u → ∀ v ∈ u.evicted, ∀ j w, t.workers j = some w → w.client ≠ v := by
  constructor
  · exact fun hg u hu v hv j w hw => (h.step hg ht).unused hu hw hv
  · intro hunused key hkey j u hu hc
    simp only [ClientThreads.step, hkey] at ht
    split at ht
    · rename_i hi hkey'
      cases hkey'
      cases ht
      have hj : j ≠ i := by
        rintro rfl
        rw [hu] at hi
        cases hi
      by_contra hr
      exact hunused _ (get_workers_self p s i key) _ (h.get_unused hu hc hr) j u ((get_workers_ne hj key).trans hu) rfl
    · cases ht

end

/-- In a run in which each call of `get_or_create` finds that for all clients in
use fewer keys than the capacity were asked for since they were, no thread closes
a client that another one uses. A call drops a client in use exactly if it does
not find that. -/
theorem closes_unused (d : Downloader) (st : Setting) (concurrency : Nat) {s : ClientThreads}
    (h : (machine (d.pooling st concurrency)).Within (KeepsUsed (d.pooling st concurrency)) s) :
    (∀ a, ClosesUnused s a) ∧
      ∀ i proxy t, step (d.pooling st concurrency) s (.getOrCreate i proxy) = some t →
        (KeepsUsed (d.pooling st concurrency) s (.getOrCreate i proxy) ↔
          ∀ u, t.workers i = some u → ∀ v ∈ u.evicted, ∀ j w, t.workers j = some w → w.client ≠ v) := by
  have hi := Inv.within h
  refine ⟨fun a v hv i j u ha _ hu => ?_, fun i proxy t ht => hi.keepsUsed_iff ht⟩
  subst ha
  obtain ⟨w, hw, hhead⟩ := Option.bind_eq_some_iff.mp hv
  exact hi.unused hw hu (List.mem_of_head? hhead)

/-- One client is cached. -/
def oneClient : Setting := { SESSION_CACHE_SIZE := 1 }

/-- A worker that is done before the next one asks for another proxy. -/
theorem closes_unused_inTurn :
    ∃ s : ClientThreads, s.closing (.close 1) = some 0 ∧ ∀ a, ClosesUnused s a := by
  let p := Downloader.httpx.pooling oneClient 2
  have hfirst : (machine p).Within (KeepsUsed p) (({} : ClientThreads).get p 0 (some "http://a")) :=
    Machine.Within.step (a := ClientAct.getOrCreate 0 (some "http://a")) (.start rfl) (fun _ _ _ _ hu => nomatch hu) rfl
  have hdone := Machine.Within.step (a := ClientAct.finish 0) hfirst trivial rfl
  have hnext := Machine.Within.step (a := ClientAct.getOrCreate 1 (some "http://b")) hdone (fun _ _ j _ hu => by
    by_cases hj : j = 0
    · subst hj
      cases hu
    · dsimp only at hu
      rw [Function.update_of_ne hj, get_workers_ne hj] at hu
      cases hu) rfl
  exact ⟨_, rfl, (closes_unused .httpx oneClient 2 hnext).1⟩

/-- A second proxy is asked for while the first one is in use. -/
def overtaking : List ClientAct := [.getOrCreate 0 (some "http://a"), .getOrCreate 1 (some "http://b")]

theorem closes_used :
    (∃ s, (machine (Downloader.httpx.pooling oneClient 2)).exec {} overtaking = some s ∧ ¬ ClosesUnused s (.close 1)) ∧
    (∃ s, (machine (Downloader.curl.pooling oneClient 2)).exec {} overtaking = some s ∧ ¬ ClosesUnused s (.close 1)) ∧
    (∃ s, (machine (Downloader.asyncHttpx.pooling oneClient 2)).exec {} overtaking = some s ∧
      ¬ ClosesUnused s (.close 1)) := by
  refine ⟨⟨_, rfl, fun h => ?_⟩, ⟨_, rfl, fun h => ?_⟩, ⟨_, rfl, fun h => ?_⟩⟩
  · exact h 0 rfl 1 0 _ rfl (by decide) rfl rfl
  · exact h 0 rfl 1 0 _ rfl (by decide) rfl rfl
  · exact h 0 rfl 1 0 _ rfl (by decide) rfl rfl

end ClientThreads

end Netspy
