import Netspy.Impl.CacheLock

/-!
# No client is lost

A factory's client goes into the cache, from there into the list of the call that evicts
it or of a `drain`, and never anywhere else (`Sound.places`). The cache is in the order
in which its clients were used last, so that what is evicted is what was not used for the
longest time (`Sound.order`). A call that finds its client evicts nothing, and so the
cache stays as large as it is (`one_place`).
-/

namespace Netspy

/-! ## Lists of lists -/

/-- What is in one of some lists that have nothing in common is in no other. -/
theorem index_unique {α : Type} {ls : List (List α)} (h : ls.flatten.Nodup) {a : α} {i j : Nat} {xs ys : List α}
    (hi : ls[i]? = some xs) (hj : ls[j]? = some ys) (hx : a ∈ xs) (hy : a ∈ ys) : i = j := by
  have hdisjoint := List.pairwise_iff_getElem.mp (List.nodup_flatten.mp h).2
  obtain ⟨hi', rfl⟩ := List.getElem?_eq_some_iff.mp hi
  obtain ⟨hj', rfl⟩ := List.getElem?_eq_some_iff.mp hj
  rcases Nat.lt_trichotomy i j with hlt | heq | hlt
  · exact absurd hy (hdisjoint i j hi' hj' hlt hx)
  · exact heq
  · exact absurd hx (hdisjoint j i hj' hi' hlt hy)

namespace CacheThreads

variable {κ : Type} [DecidableEq κ] {s t : CacheThreads κ} {a : CacheLockAct κ}

/-! ## What a step does -/

/-- Everything that a step can do. -/
inductive Stepped (s : CacheThreads κ) : CacheThreads κ → Prop
  | configured (size : Int) : Stepped s { s with SESSION_CACHE_SIZE := size }
  | found (proxy : κ) (capacity : Option Int) (client : Nat) (hlock : s.lock = none)
      (hlookup : s.items.lookup proxy = some client) :
      Stepped s { s with
        items := moveToEnd s.items proxy client
        returned := s.returned ++ [⟨proxy, client, [], s.limit capacity, false⟩]
        used := client :: s.used }
  | missed (i : Nat) (proxy : κ) (capacity : Option Int) (hlock : s.lock = none) (hlookup : s.items.lookup proxy = none) :
      Stepped s { s with lock := some (i, .creating proxy capacity) }
  | raised (i : Nat) (proxy : κ) (capacity : Option Int) (hlock : s.lock = some (i, .creating proxy capacity)) :
      Stepped s { s with lock := none }
  | created (i : Nat) (proxy : κ) (capacity : Option Int) (hlock : s.lock = some (i, .creating proxy capacity)) :
      Stepped s { s with
        items := setItem s.items proxy s.made
        lock := some (i, .evicting proxy s.made (s.limit capacity) [])
        made := s.made + 1
        used := s.made :: s.used }
  | popped (i : Nat) (proxy k : κ) (client old : Nat) (limit : Int) (evicted : List Nat) (items : ProxyClientCache κ Nat)
      (hlock : s.lock = some (i, .evicting proxy client limit evicted)) (hitems : s.items = (k, old) :: items)
      (hlt : limit < s.items.length) :
      Stepped s { s with items, lock := some (i, .evicting proxy client limit (evicted ++ [old])) }
  | finished (i : Nat) (proxy : κ) (client : Nat) (limit : Int) (evicted : List Nat)
      (hlock : s.lock = some (i, .evicting proxy client limit evicted)) (hle : s.items.length ≤ limit) :
      Stepped s { s with lock := none, returned := s.returned ++ [⟨proxy, client, evicted, limit, true⟩] }
  | drained (hlock : s.lock = none) :
      Stepped s { s with items := [], drained := s.drained ++ [s.items.map Prod.snd] }

theorem step_cases (h : s.step a = some t) : Stepped s t := by
  cases a with
  | configure size =>
    cases h
    exact .configured size
  | getOrCreate i proxy capacity =>
    simp only [step] at h
    split at h
    next => cases h
    next hlock =>
      have hlock : s.lock = none := Option.not_isSome_iff_eq_none.mp hlock
      split at h
      next client hlookup =>
        cases h
        exact .found proxy capacity client hlock hlookup
      next hlookup =>
        cases h
        exact .missed i proxy capacity hlock hlookup
  | factory i raises =>
    simp only [step] at h
    split at h
    next j proxy capacity hlock =>
      split at h
      next hi =>
        subst hi
        split at h
        · cases h
          exact .raised i proxy capacity hlock
        · cases h
          exact .created i proxy capacity hlock
      next => cases h
    next => cases h
  | popitem i =>
    simp only [step] at h
    split at h
    next j proxy client limit evicted k old items hlock hitems =>
      split at h
      next hi =>
        obtain ⟨rfl, hlt⟩ := hi
        cases h
        exact .popped i proxy k client old limit evicted items hlock hitems hlt
      next => cases h
    next => cases h
  | finish i =>
    simp only [step] at h
    split at h
    next j proxy client limit evicted hlock =>
      split at h
      next hi =>
        obtain ⟨rfl, hle⟩ := hi
        cases h
        exact .finished i proxy client limit evicted hlock hle
      next => cases h
    next => cases h
  | drain i =>
    simp only [step] at h
    split at h
    next => cases h
    next hlock =>
      cases h
      exact .drained (Option.not_isSome_iff_eq_none.mp hlock)

/-! ## A whole call -/

theorem exec_cons (s : CacheThreads κ) (a : CacheLockAct κ) (as : List (CacheLockAct κ)) :
    (machine κ).exec s (a :: as) = (s.step a).bind fun t => (machine κ).exec t as := rfl

/-- The first entries are evicted, one after the other. -/
theorem exec_popitems {i : Nat} {proxy : κ} {client : Nat} {limit : Int} {evicted : List Nat} {n : Nat}
    (hlock : s.lock = some (i, .evicting proxy client limit evicted)) (hpos : 0 ≤ limit)
    (hn : n = 0 ∨ n + limit ≤ s.items.length) :
    (machine κ).exec s (List.replicate n (.popitem i)) =
      some { s with
        items := s.items.drop n
        lock := some (i, .evicting proxy client limit (evicted ++ (s.items.take n).map Prod.snd)) } := by
  induction n generalizing s evicted with
  | zero =>
    rw [List.take_zero, List.map_nil, List.append_nil, ← hlock]
    rfl
  | succ n ih =>
    cases hitems : s.items with
    | nil =>
      rw [hitems, List.length_nil] at hn
      omega
    | cons kv items =>
      rw [hitems, List.length_cons] at hn
      have hstep : s.step (.popitem i) =
          some { s with items, lock := some (i, .evicting proxy client limit (evicted ++ [kv.2])) } := by
        simp only [step, hlock, hitems, List.length_cons]
        rw [if_pos ⟨trivial, by omega⟩]
      rw [List.replicate_succ, exec_cons, hstep, Option.bind_some, ih rfl (by dsimp only; omega)]
      simp only [List.drop_succ_cons, List.take_succ_cons, List.map_cons, List.append_assoc, List.singleton_append]

/-- A call that no other step comes between does what `getOrCreate` does. -/
theorem exec_call (hlock : s.lock = none) (i : Nat) (proxy : κ) (capacity : Option Int) :
    let made := s.items.getOrCreate proxy s.made (capacity.getD s.SESSION_CACHE_SIZE).toNat
    ∃ as t created, (machine κ).exec s as = some t ∧ t.lock = none ∧ t.items = made.2.2 ∧
      t.returned = s.returned ++ [⟨proxy, made.1, made.2.1, s.limit capacity, created⟩] := by
  dsimp only
  unfold ProxyClientCache.getOrCreate
  cases hlookup : s.items.lookup proxy with
  | some client =>
    refine ⟨[.getOrCreate i proxy capacity], { s with
      items := moveToEnd s.items proxy client
      returned := s.returned ++ [⟨proxy, client, [], s.limit capacity, false⟩]
      used := client :: s.used }, false, ?_, hlock, rfl, rfl⟩
    rw [exec_cons]
    simp only [step, hlock, hlookup]
    rfl
  | none =>
    have hset : setItem s.items proxy s.made = s.items ++ [(proxy, s.made)] := by
      rw [setItem, hlookup]
      rfl
    -- the call after its factory
    let u : CacheThreads κ := { s with
      items := s.items ++ [(proxy, s.made)]
      lock := some (i, .evicting proxy s.made (s.limit capacity) [])
      made := s.made + 1
      used := s.made :: s.used }
    have hcreate : (machine κ).exec s [.getOrCreate i proxy capacity, .factory i false] = some u := by
      have hask : s.step (.getOrCreate i proxy capacity) = some { s with lock := some (i, .creating proxy capacity) } := by
        simp only [step, hlock, hlookup]
        rfl
      rw [exec_cons, hask, Option.bind_some, exec_cons]
      simp only [step, hset]
      rfl
    obtain ⟨n, hn⟩ : ∃ n, n = u.items.length - max (capacity.getD s.SESSION_CACHE_SIZE).toNat 1 := ⟨_, rfl⟩
    have hlen : u.items.length = s.items.length + 1 := List.length_append
    have hlimit : s.limit capacity = max (capacity.getD s.SESSION_CACHE_SIZE) 1 := rfl
    have hpop := exec_popitems (s := u) rfl (by omega) (n := n) (by omega)
    refine ⟨[CacheLockAct.getOrCreate i proxy capacity, .factory i false] ++
      List.replicate n (CacheLockAct.popitem i) ++ [CacheLockAct.finish i],
      { u with
        items := u.items.drop n
        lock := none
        returned := s.returned ++ [⟨proxy, s.made, (u.items.take n).map Prod.snd, s.limit capacity, true⟩] },
      true, ?_, rfl, ?_, ?_⟩
    · rw [Machine.exec_append, Machine.exec_append, hcreate, Option.bind_some, hpop, Option.bind_some]
      rw [exec_cons]
      have hle : ((u.items.drop n).length : Int) ≤ s.limit capacity := by
        rw [List.length_drop]
        omega
      simp only [step, u] at hle ⊢
      rw [if_pos ⟨trivial, hle⟩]
      rfl
    · rw [hn]
    · rw [hn]

/-! ## The order of the cache -/

omit [DecidableEq κ] in
theorem ordered_use {items : ProxyClientCache κ Nat} {used : List Nat} {client : Nat}
    (h : items.Pairwise fun a b => b.2 ∈ Lru.since a.2 used) (hother : ∀ kv ∈ items, kv.2 ≠ client) (proxy : κ) :
    (items ++ [(proxy, client)]).Pairwise fun a b => b.2 ∈ Lru.since a.2 (client :: used) := by
  refine List.pairwise_append.mpr ⟨?_, List.pairwise_singleton _ _, fun kv hkv kv' hkv' => ?_⟩
  · exact h.imp_of_mem fun ha _ hab => Lru.mem_since_cons (hother _ ha) hab
  · rw [List.mem_singleton.mp hkv']
    exact Lru.mem_since_cons_self (hother kv hkv) used

/-- The entry that is used is taken out, and put at the end. -/
theorem moveToEnd_eq {items : ProxyClientCache κ Nat} {proxy : κ} {client : Nat} (hkeys : (items.map Prod.fst).Nodup)
    (h : items.lookup proxy = some client) :
    ∃ before after, items = before ++ (proxy, client) :: after ∧
      moveToEnd items proxy client = (before ++ after) ++ [(proxy, client)] := by
  obtain ⟨before, after, rfl, -⟩ := List.lookup_eq_some_iff.mp h
  refine ⟨before, after, rfl, ?_⟩
  rw [List.map_append, List.map_cons, List.nodup_middle, List.nodup_cons, ← List.map_append] at hkeys
  have hothers : (before ++ after).filter (·.1 ≠ proxy) = before ++ after := by
    refine List.filter_eq_self.mpr fun kv hkv => decide_eq_true fun hk => ?_
    have hmem := List.mem_map_of_mem (f := Prod.fst) hkv
    rw [hk] at hmem
    exact hkeys.1 hmem
  rw [moveToEnd, List.filter_append, List.filter_cons_of_neg (by simp), ← List.filter_append, hothers]

theorem moveToEnd_perm {items : ProxyClientCache κ Nat} {proxy : κ} {client : Nat} (hkeys : (items.map Prod.fst).Nodup)
    (h : items.lookup proxy = some client) : (moveToEnd items proxy client).Perm items := by
  obtain ⟨before, after, rfl, hmoved⟩ := moveToEnd_eq hkeys h
  rw [hmoved]
  exact (List.perm_append_singleton _ _).trans List.perm_middle.symm

/-! ## What holds between the steps -/

/-- The lists that clients go to from the cache. -/
def lists (s : CacheThreads κ) : List (List Nat) := s.evictedLists ++ s.drained

/-- What a call knows that evicts: its client was used last, and what it has evicted was
used before all that is left. -/
structure Evicts (items : ProxyClientCache κ Nat) (clients : List Nat) (proxy : κ) (client : Nat) (limit : Int)
    (evicted : List Nat) : Prop where
  pos : 1 ≤ limit
  last : items.getLast? = some (proxy, client)
  used : clients.head? = some client
  older : ∀ old ∈ evicted, ∀ kv ∈ items, kv.2 ∈ Lru.since old clients

structure Sound (s : CacheThreads κ) : Prop where
  keys : (s.items.map Prod.fst).Nodup
  places : (s.items.map Prod.snd ++ s.lists.flatten).Perm (List.range s.made)
  order : s.items.Pairwise fun a b => b.2 ∈ Lru.since a.2 s.used
  absent : ∀ i proxy capacity, s.lock = some (i, .creating proxy capacity) → s.items.lookup proxy = none
  evicts : ∀ i proxy client limit evicted, s.lock = some (i, .evicting proxy client limit evicted) →
    Evicts s.items s.used proxy client limit evicted

theorem Sound.nodup (h : s.Sound) : (s.items.map Prod.snd ++ s.lists.flatten).Nodup :=
  h.places.nodup_iff.mpr List.nodup_range

theorem Sound.lt_made (h : s.Sound) {kv : κ × Nat} (hkv : kv ∈ s.items) : kv.2 < s.made :=
  List.mem_range.mp (h.places.mem_iff.mp (List.mem_append_left _ (List.mem_map_of_mem hkv)))

theorem sound_found (hs : s.Sound) {proxy : κ} {client : Nat} (capacity : Option Int) (hlock : s.lock = none)
    (hlookup : s.items.lookup proxy = some client) :
    Sound { s with
      items := moveToEnd s.items proxy client
      returned := s.returned ++ [⟨proxy, client, [], s.limit capacity, false⟩]
      used := client :: s.used } := by
  obtain ⟨before, after, hitems, hmoved⟩ := moveToEnd_eq hs.keys hlookup
  have hperm := moveToEnd_perm hs.keys hlookup
  have hothers : ∀ kv ∈ before ++ after, kv.2 ≠ client := by
    have hnodup := (List.nodup_append.mp hs.nodup).1
    rw [hitems, List.map_append, List.map_cons, List.nodup_middle, List.nodup_cons, ← List.map_append] at hnodup
    intro kv hkv heq
    have hmem := List.mem_map_of_mem (f := Prod.snd) hkv
    rw [heq] at hmem
    exact hnodup.1 hmem
  have horder : (before ++ after).Pairwise fun a b => b.2 ∈ Lru.since a.2 s.used := by
    have h := hs.order
    rw [hitems] at h
    exact h.sublist (List.Sublist.append_left (List.sublist_cons_self _ _) _)
  refine ⟨(hperm.map _).nodup_iff.mpr hs.keys, ?_, ?_, fun _ _ _ hl => ?_, fun _ _ _ _ _ hl => ?_⟩
  · have hlists : ({ s with
        items := moveToEnd s.items proxy client
        returned := s.returned ++ [⟨proxy, client, [], s.limit capacity, false⟩]
        used := client :: s.used } : CacheThreads κ).lists.flatten = s.lists.flatten := by
      simp [lists, evictedLists, hlock]
    rw [hlists]
    exact ((hperm.map _).append_right _).trans hs.places
  · rw [hmoved]
    exact ordered_use horder hothers proxy
  · rw [hlock] at hl
    cases hl
  · rw [hlock] at hl
    cases hl

theorem sound_created (hs : s.Sound) {i : Nat} {proxy : κ} {capacity : Option Int}
    (hlock : s.lock = some (i, .creating proxy capacity)) :
    Sound { s with
      items := setItem s.items proxy s.made
      lock := some (i, .evicting proxy s.made (s.limit capacity) [])
      made := s.made + 1
      used := s.made :: s.used } := by
  have habsent := hs.absent i proxy capacity hlock
  have hitems : setItem s.items proxy s.made = s.items ++ [(proxy, s.made)] := by
    rw [setItem, habsent]
    rfl
  have hnew : proxy ∉ s.items.map Prod.fst := Lru.lookup_eq_none_iff.mp habsent
  refine ⟨?_, ?_, ?_, nofun, ?_⟩
  · rw [hitems, List.map_append]
    exact hs.keys.append (List.nodup_singleton _) fun k hk hk' => hnew ((List.mem_singleton.mp hk' : k = proxy) ▸ hk)
  · rw [hitems]
    have hlists : ({ s with
        items := s.items ++ [(proxy, s.made)]
        lock := some (i, .evicting proxy s.made (s.limit capacity) [])
        made := s.made + 1
        used := s.made :: s.used } : CacheThreads κ).lists.flatten = s.lists.flatten := by
      simp [lists, evictedLists, hlock]
    rw [hlists, List.range_succ, List.map_append]
    have hmoved : (s.items.map Prod.snd ++ [s.made] ++ s.lists.flatten).Perm
        (s.items.map Prod.snd ++ s.lists.flatten ++ [s.made]) := by
      rw [List.append_assoc, List.append_assoc]
      exact (List.perm_append_comm).append_left _
    exact hmoved.trans (hs.places.append_right _)
  · rw [hitems]
    exact ordered_use hs.order (fun kv hkv => (hs.lt_made hkv).ne) proxy
  · intro j proxy' client limit evicted hl
    cases hl
    refine ⟨le_max_right _ _, ?_, rfl, nofun⟩
    rw [hitems]
    exact List.getLast?_concat

theorem sound_popped (hs : s.Sound) {i : Nat} {proxy k : κ} {client old : Nat} {limit : Int} {evicted : List Nat}
    {items : ProxyClientCache κ Nat} (hlock : s.lock = some (i, .evicting proxy client limit evicted))
    (hitems : s.items = (k, old) :: items) (hlt : limit < s.items.length) :
    Sound { s with items, lock := some (i, .evicting proxy client limit (evicted ++ [old])) } := by
  have hevicts := hs.evicts _ _ _ _ _ hlock
  have horder := hs.order
  have hkeys := hs.keys
  rw [hitems, List.pairwise_cons] at horder
  rw [hitems] at hkeys hlt
  refine ⟨(List.nodup_cons.mp hkeys).2, ?_, horder.2, nofun, ?_⟩
  · have hlists : s.lists.flatten = (s.returned.map CacheReturn.evicted).flatten ++ evicted ++ s.drained.flatten := by
      simp [lists, evictedLists, hlock]
    have hplaces := hs.places
    rw [hlists, hitems] at hplaces
    refine List.Perm.trans ?_ hplaces
    simp only [lists, evictedLists, List.flatten_append, List.flatten_cons, List.flatten_nil, List.append_nil,
      List.map_cons]
    -- the client goes from the head of the cache to the end of the list
    rw [List.perm_iff_count]
    intro x
    simp only [List.count_append, List.count_cons, List.count_nil]
    omega
  · intro j proxy' client' limit' evicted' hl
    cases hl
    obtain ⟨hpos, hlast, hused, holder⟩ := hevicts
    rw [hitems] at hlast holder
    refine ⟨hpos, ?_, hused, fun old' hold kv hkv => ?_⟩
    · cases items with
      | nil =>
        simp only [List.length_singleton] at hlt
        omega
      | cons kv items => exact hlast
    · rcases List.mem_append.mp hold with hold | hold
      · exact holder old' hold kv (List.mem_cons_of_mem _ hkv)
      · rw [List.mem_singleton.mp hold]
        exact horder.1 kv hkv

theorem sound_step (hs : s.Sound) (h : Stepped s t) : t.Sound := by
  cases h with
  | configured size => exact ⟨hs.keys, hs.places, hs.order, hs.absent, hs.evicts⟩
  | found proxy capacity client hlock hlookup => exact sound_found hs capacity hlock hlookup
  | missed i proxy capacity hlock hlookup =>
    refine ⟨hs.keys, ?_, hs.order, fun _ _ _ hl => ?_, nofun⟩
    · have hplaces := hs.places
      simp only [lists, evictedLists, hlock] at hplaces
      exact hplaces
    · cases hl
      exact hlookup
  | raised i proxy capacity hlock =>
    refine ⟨hs.keys, ?_, hs.order, nofun, nofun⟩
    have hplaces := hs.places
    simp only [lists, evictedLists, hlock] at hplaces
    exact hplaces
  | created i proxy capacity hlock => exact sound_created hs hlock
  | popped i proxy k client old limit evicted items hlock hitems hlt => exact sound_popped hs hlock hitems hlt
  | finished i proxy client limit evicted hlock hle =>
    refine ⟨hs.keys, ?_, hs.order, nofun, nofun⟩
    have hplaces := hs.places
    simp only [lists, evictedLists, hlock] at hplaces
    simpa only [lists, evictedLists, List.map_append, List.map_cons, List.map_nil, List.append_nil] using hplaces
  | drained hlock =>
    refine ⟨List.nodup_nil, ?_, List.Pairwise.nil, fun _ _ _ hl => ?_, fun _ _ _ _ _ hl => ?_⟩
    · refine List.Perm.trans ?_ hs.places
      simp only [lists, List.map_nil, List.nil_append, List.flatten_append, List.flatten_cons, List.flatten_nil,
        List.append_nil]
      rw [← List.append_assoc]
      exact List.perm_append_comm
    · rw [hlock] at hl
      cases hl
    · rw [hlock] at hl
      cases hl

theorem sound (h : (machine κ).Reachable s) : s.Sound := by
  refine h.induct (I := Sound) (fun s hs => ?_) fun s a t hs _ ht => sound_step hs (step_cases ht)
  rw [hs]
  exact ⟨List.nodup_nil, .refl _, .nil, nofun, nofun⟩

/-! ## The place of a client -/

omit [DecidableEq κ] in
theorem mem_flatten_getElem? {ls : List (List Nat)} {client : Nat} :
    client ∈ ls.flatten ↔ ∃ call : Nat, ∃ clients ∈ ls[call]?, client ∈ clients := by
  rw [List.mem_flatten]
  constructor
  · rintro ⟨clients, hmem, hclient⟩
    obtain ⟨call, hcall⟩ := List.mem_iff_getElem?.mp hmem
    exact ⟨call, clients, hcall, hclient⟩
  · rintro ⟨call, clients, hcall, hclient⟩
    exact ⟨clients, List.mem_of_getElem? hcall, hclient⟩

theorem Sound.exists_place (h : s.Sound) {client : Nat} (hmade : client < s.made) : ∃ place, s.Holds client place := by
  have hmem := h.places.mem_iff.mpr (List.mem_range.mpr hmade)
  rw [lists, List.flatten_append, List.mem_append, List.mem_append] at hmem
  rcases hmem with hmem | hmem | hmem
  · obtain ⟨⟨proxy, client'⟩, hkv, rfl⟩ := List.mem_map.mp hmem
    exact ⟨.cached proxy, hkv⟩
  · obtain ⟨call, hcall⟩ := mem_flatten_getElem?.mp hmem
    exact ⟨.evicted call, hcall⟩
  · obtain ⟨call, hcall⟩ := mem_flatten_getElem?.mp hmem
    exact ⟨.drained call, hcall⟩

theorem Sound.place_unique (h : s.Sound) {client : Nat} {p q : ClientPlace κ} (hp : s.Holds client p)
    (hq : s.Holds client q) : p = q := by
  obtain ⟨hcached, hlists, hapart⟩ := List.nodup_append.mp h.nodup
  rw [lists, List.flatten_append] at hlists hapart
  obtain ⟨hevicted, hdrained, hapart'⟩ := List.nodup_append.mp hlists
  have hcache {proxy : κ} (hc : (proxy, client) ∈ s.items) : client ∉ s.evictedLists.flatten ++ s.drained.flatten :=
    fun hl => hapart client (List.mem_map_of_mem hc) client hl rfl
  have hevict {call : Nat} (he : s.Holds client (.evicted call)) : client ∈ s.evictedLists.flatten :=
    mem_flatten_getElem?.mpr ⟨call, he⟩
  have hdrain {call : Nat} (hd : s.Holds client (.drained call)) : client ∈ s.drained.flatten :=
    mem_flatten_getElem?.mpr ⟨call, hd⟩
  cases p with
  | cached proxy =>
    cases q with
    | cached proxy' => exact congrArg (fun kv => ClientPlace.cached kv.1) (List.inj_on_of_nodup_map hcached hp hq rfl)
    | evicted call => exact absurd (List.mem_append_left _ (hevict hq)) (hcache hp)
    | drained call => exact absurd (List.mem_append_right _ (hdrain hq)) (hcache hp)
  | evicted call =>
    cases q with
    | cached proxy => exact absurd (List.mem_append_left _ (hevict hp)) (hcache hq)
    | evicted call' =>
      obtain ⟨xs, hxs, hx⟩ := hp
      obtain ⟨ys, hys, hy⟩ := hq
      rw [index_unique hevicted hxs hys hx hy]
    | drained call' => exact absurd rfl (hapart' client (hevict hp) client (hdrain hq))
  | drained call =>
    cases q with
    | cached proxy => exact absurd (List.mem_append_right _ (hdrain hp)) (hcache hq)
    | evicted call' => exact absurd rfl (hapart' client (hevict hq) client (hdrain hp))
    | drained call' =>
      obtain ⟨xs, hxs, hx⟩ := hp
      obtain ⟨ys, hys, hy⟩ := hq
      rw [index_unique hdrained hxs hys hx hy]

/-! ## What a call returns -/

/-- What holds when a `get_or_create` returns. -/
structure Served (s t : CacheThreads κ) (r : CacheReturn κ) : Prop where
  client : r.client ∉ r.evicted
  last : t.items.getLast? = some (r.proxy, r.client)
  used : t.used.head? = some r.client
  older : ∀ old ∈ r.evicted, ∀ kv ∈ t.items, kv.2 ∈ Lru.since old t.used
  size : if r.created then t.items.length ≤ r.limit else r.evicted = [] ∧ t.items.Perm s.items

theorem served (hs : s.Sound) (h : Stepped s t) {r : CacheReturn κ} (hr : t.returned = s.returned ++ [r]) : Served s t r := by
  cases h with
  | found proxy capacity client hlock hlookup =>
    obtain rfl := List.singleton_inj.mp (List.append_cancel_left hr)
    exact ⟨List.not_mem_nil, List.getLast?_concat, rfl, nofun, rfl, moveToEnd_perm hs.keys hlookup⟩
  | finished i proxy client limit evicted hlock hle =>
    obtain rfl := List.singleton_inj.mp (List.append_cancel_left hr)
    obtain ⟨-, hlast, hused, holder⟩ := hs.evicts _ _ _ _ _ hlock
    refine ⟨fun hmem => ?_, hlast, hused, holder, hle⟩
    exact Lru.not_mem_since client s.used (holder client hmem (proxy, client) (List.mem_of_getLast? hlast))
  | _ => exact absurd hr.symm (by simp)

/-- A factory that raises leaves the cache as it is. -/
theorem items_raised {i : Nat} (h : s.step (.factory i true) = some t) : t.items = s.items := by
  simp only [step] at h
  split at h
  next =>
    split at h
    next =>
      cases h
      rfl
    next => cases h
  next => cases h

/-- In every run each client that a factory returned has one place. A call that returns
has a client that it did not evict and that was used last, and evicted what was used
before all that is left; if it created its client, no more are left than its limit, and
else all are, as after a call that raises. -/
theorem one_place (h : (machine κ).Reachable s) :
    (∀ client < s.made, ∃! place, s.Holds client place) ∧ (∀ clients ∈ s.evictedLists ++ s.drained, clients.Nodup) ∧
      (∀ a t r, s.step a = some t → t.returned = s.returned ++ [r] →
        r.client ∉ r.evicted ∧ t.items.getLast? = some (r.proxy, r.client) ∧ t.used.head? = some r.client ∧
          (∀ old ∈ r.evicted, ∀ kv ∈ t.items, kv.2 ∈ Lru.since old t.used) ∧
          if r.created then t.items.length ≤ r.limit else r.evicted = [] ∧ t.items.Perm s.items) ∧
      ∀ i t, s.step (.factory i true) = some t → t.items = s.items := by
  have hs := sound h
  refine ⟨fun client hmade => ?_, ?_, fun a t r ht hr => ?_, fun i t => items_raised⟩
  · obtain ⟨place, hplace⟩ := hs.exists_place hmade
    exact ⟨place, hplace, fun other hother => hs.place_unique hother hplace⟩
  · exact (List.nodup_flatten.mp (List.nodup_append.mp hs.nodup).2.1).1
  · obtain ⟨hclient, hlast, hused, holder, hsize⟩ := served hs (step_cases ht) hr
    exact ⟨hclient, hlast, hused, holder, hsize⟩

/-- A second call that may keep one entry, before its `return`. -/
def evictOne : List (CacheLockAct String) :=
  [.getOrCreate 0 "a" none, .factory 0 false, .finish 0, .getOrCreate 1 "b" (some 1), .factory 1 false, .popitem 1]

theorem one_place_evictOne : ∃ s t r, (machine String).exec {} evictOne = some s ∧ s.step (.finish 1) = some t ∧
    t.returned = s.returned ++ [r] ∧ (∃! place, s.Holds 0 place) ∧ r.client ∉ r.evicted ∧ r.evicted = [0] := by
  have hexec : (machine String).exec {} evictOne = some _ := rfl
  have h := one_place (Machine.Reachable.exec (.start (by rfl)) hexec)
  exact ⟨_, _, _, hexec, rfl, rfl, h.1 0 (by decide), (h.2.2.1 (.finish 1) _ _ rfl rfl).1, rfl⟩

/-- Two are cached when the size is set to one; a call that finds its client leaves both. -/
def shrunk : List (CacheLockAct String) :=
  [.getOrCreate 0 "a" none, .factory 0 false, .finish 0, .getOrCreate 0 "b" none, .factory 0 false, .finish 0, .configure 1]

theorem found_overfull : ∃ s t r, (machine String).exec { SESSION_CACHE_SIZE := 2 } shrunk = some s ∧
    s.step (.getOrCreate 0 "b" none) = some t ∧ t.returned = s.returned ++ [r] ∧ r.limit = 1 ∧ t.items.length = 2 :=
  ⟨_, _, _, rfl, rfl, rfl, rfl, rfl⟩

end CacheThreads

end Netspy
