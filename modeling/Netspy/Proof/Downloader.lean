import Netspy.Impl.Downloader

/-!
# Whose `verify` a request is sent with

The downloaders of threads send each request through a client that was built with
the request's own `verify`. The asynchronous one does so exactly if a request
without a proxy asks for what the downloader does, and one with a proxy for what
the last one did whose client it gets (`verify_own_iff`).

What a loop has for its proxies is a cache of what was used last (`Lru`), so what
it has for a request follows from the earlier ones (`Serves`).
-/

namespace Netspy

/-- Each request is sent through a client that checks certificates as it asks. -/
def VerifiesAsAsked (own : Verify) (ran : List (Download × Client)) : Prop :=
  ∀ e ∈ ran, e.2.verify = e.1.effective own

instance (own : Verify) (ran : List (Download × Client)) : Decidable (VerifiesAsAsked own ran) :=
  inferInstanceAs (Decidable (∀ e ∈ ran, e.2.verify = e.1.effective own))

/-- The proxies that a loop was asked for, and with which `verify`, the last first. -/
def askedOn (own : Verify) (loops i : Nat) (xs : List Download) : List (String × Verify) :=
  (xs.filterMap fun x =>
    if x.cookies = false ∧ shardIndex x.thread loops = i then x.proxy.map fun p => (p, x.effective own) else none).reverse

/-- What `_download` finds for `x` after `earlier` is what `x` asks for: a request
without a proxy asks for what the downloader does, and one with a proxy for what
the last one did, if there is a client for the proxy. -/
def FindsSame (cap loops : Nat) (own : Verify) (earlier : List Download) (x : Download) : Prop :=
  x.cookies = true ∨
    match x.proxy with
    | none => x.effective own = own
    | some proxy =>
      let asked := askedOn own loops (shardIndex x.thread loops) earlier
      Lru.Recent cap (Lru.keys asked) proxy → asked.lookup proxy = some (x.effective own)

/-! ## The cache -/

namespace ProxyClientCache

variable {κ β : Type} [DecidableEq κ] {items : ProxyClientCache κ β} {capacity : Nat}

theorem getOrCreate_client (items : ProxyClientCache κ β) (proxy : κ) (factory : β) (capacity : Nat) :
    (items.getOrCreate proxy factory capacity).1 = (items.lookup proxy).getD factory := by
  unfold getOrCreate
  cases items.lookup proxy <;> rfl

theorem getOrCreate_items (hlen : items.length ≤ max capacity 1) (proxy : κ) (factory : β) :
    (items.getOrCreate proxy factory capacity).2.2 = Lru.touch (max capacity 1) items proxy factory := by
  unfold getOrCreate Lru.touch
  split
  · rename_i client h
    have hlt : (items.filter (·.1 ≠ proxy)).length < items.length :=
      List.length_filter_lt_length_iff_exists.mpr ⟨_, Lru.mem_of_lookup h, by simp⟩
    have hzero : (items.filter (·.1 ≠ proxy) ++ [(proxy, client)]).length - max capacity 1 = 0 := by
      rw [List.length_append, List.length_singleton]
      omega
    rw [h]
    dsimp only [Option.getD_some]
    rw [hzero, List.drop_zero]
  · rename_i h
    have hall : items.filter (·.1 ≠ proxy) = items :=
      List.filter_eq_self.mpr fun e he => by
        simpa using fun heq : e.1 = proxy => Lru.lookup_eq_none_iff.mp h (List.mem_map.mpr ⟨e, he, heq⟩)
    rw [hall, h]
    rfl

/-- The client is in the cache after the call. -/
theorem getOrCreate_self (items : ProxyClientCache κ β) (proxy : κ) (factory : β) (capacity : Nat) :
    (proxy, (items.getOrCreate proxy factory capacity).1) ∈ Lru.touch (max capacity 1) items proxy factory := by
  rw [getOrCreate_client]
  exact Lru.mem_touch_self (Nat.lt_of_lt_of_le Nat.zero_lt_one (Nat.le_max_right capacity 1)) _ _ _

/-- What is cached after a call was there before, or is new. -/
theorem mem_getOrCreate {proxy : κ} {factory : β} {e : κ × β}
    (he : e ∈ (items.getOrCreate proxy factory capacity).2.2) : e ∈ items ∨ e = (proxy, factory) := by
  revert he
  unfold getOrCreate
  split
  · rename_i client hl
    intro he
    rcases List.mem_append.mp he with he | he
    · exact .inl (List.mem_of_mem_filter he)
    · exact .inl (List.mem_singleton.mp he ▸ Lru.mem_of_lookup hl)
  · intro he
    exact (List.mem_append.mp (List.mem_of_mem_drop he)).imp_right List.mem_singleton.mp

/-- What is got was built for its key, as all that is kept. -/
theorem getOrCreate_built {P : κ → β → Prop} (h : ∀ e ∈ items, P e.1 e.2) {proxy : κ} {factory : β} (hf : P proxy factory)
    (capacity : Nat) :
    P proxy (items.getOrCreate proxy factory capacity).1 ∧
      ∀ e ∈ (items.getOrCreate proxy factory capacity).2.2, P e.1 e.2 := by
  rw [getOrCreate_client]
  refine ⟨?_, fun e he => ?_⟩
  · cases hlookup : items.lookup proxy with
    | none => exact hf
    | some client => exact h _ (Lru.mem_of_lookup hlookup)
  · rcases mem_getOrCreate he with he | rfl
    · exact h e he
    · exact hf

end ProxyClientCache

/-! ## Downloaders of threads -/

namespace SessionDownloader

/-- Those that are kept were built with the `verify` of the downloader. -/
def KeepsOwn (own : Verify) (d : SessionDownloader) : Prop :=
  d.verify = own ∧ ∀ e ∈ d.clients, e.2.verify = own

theorem clientFor_keeps {own : Verify} {d : SessionDownloader} (h : d.KeepsOwn own) (x : Download) :
    (d.clientFor x).1.verify = x.effective own ∧ (d.clientFor x).2.KeepsOwn own := by
  obtain ⟨rfl, hclients⟩ := h
  unfold clientFor
  dsimp only
  split
  · rename_i hsession
    have hsame : x.effective d.verify = d.verify := by
      simp only [Bool.and_eq_true, decide_eq_true_eq] at hsession
      exact hsession.2
    have hown : (makeClient x.proxy d.verify).verify = d.verify := rfl
    obtain ⟨hclient, hkept⟩ := ProxyClientCache.getOrCreate_built (P := fun _ c => Client.verify c = d.verify) hclients hown
      d.capacity
    rw [hsame]
    exact ⟨hclient, rfl, hkept⟩
  · exact ⟨rfl, rfl, hclients⟩

/-- Every client that carries a request is its own, or was built like all that are kept. -/
theorem verifies (d : SessionDownloader) (hnew : d.clients = []) (xs : List Download) :
    VerifiesAsAsked d.verify (Server.record clientFor d xs) := by
  have hkeeps : d.KeepsOwn d.verify := ⟨rfl, by rw [hnew]; exact List.forall_mem_nil _⟩
  have hstep (d' : SessionDownloader) (x : Download) (h : d'.KeepsOwn d.verify) := clientFor_keeps h x
  exact Server.record_forall hstep hkeeps xs

end SessionDownloader

/-! ## The downloader of event loops -/

/-- What is known of a loop after the downloads `h`, if each was sent as it asks. -/
structure AsyncShard.Serves (cap loops : Nat) (own : Verify) (h : List Download) (i : Nat) (shard : AsyncShard) : Prop where
  client : shard.client.verify = own
  follows : Lru.Follows cap (Lru.keys (askedOn own loops i h)) shard.proxied
  last : ∀ e ∈ shard.proxied, (askedOn own loops i h).lookup e.1 = some e.2.verify

theorem askedOn_append (own : Verify) (loops i : Nat) (h : List Download) (x : Download) :
    askedOn own loops i (h ++ [x]) =
      (if x.cookies = false ∧ shardIndex x.thread loops = i then x.proxy.map fun p => (p, x.effective own)
        else none).toList ++
        askedOn own loops i h := by
  unfold askedOn
  rw [List.filterMap_append, List.reverse_append]
  congr 1
  rw [List.filterMap_cons, List.filterMap_nil]
  split <;> rename_i hx <;> rw [hx] <;> rfl

/-- A loop after a download that takes one of its clients for proxies, with the client. -/
theorem AsyncShard.Serves.asked {st : Setting} {loops : Nat} {own : Verify} {h : List Download} {i : Nat}
    {shard : AsyncShard} (hs : shard.Serves (max st.SESSION_CACHE_SIZE 1) loops own h i) {x : Download} {proxy : String}
    (hx : x.cookies = false ∧ shardIndex x.thread loops = i) (hp : x.proxy = some proxy) {client : Client}
    (hc : client = (shard.proxied.lookup proxy).getD ⟨some proxy, x.effective own⟩) (hok : client.verify = x.effective own) :
    AsyncShard.Serves (max st.SESSION_CACHE_SIZE 1) loops own (h ++ [x]) i
      { shard with
        proxied := (shard.proxied.getOrCreate proxy ⟨some proxy, x.effective own⟩ st.SESSION_CACHE_SIZE).2.2 } := by
  have hasked : askedOn own loops i (h ++ [x]) = (proxy, x.effective own) :: askedOn own loops i h := by
    rw [askedOn_append, if_pos hx, hp]
    rfl
  have hitems := ProxyClientCache.getOrCreate_items hs.follows.length_le proxy (⟨some proxy, x.effective own⟩ : Client)
  refine ⟨hs.client, ?_, fun e he => ?_⟩
  · rw [hasked, hitems]
    exact hs.follows.touch proxy _
  · rw [hasked]
    rw [hitems] at he
    rcases Lru.mem_touch he with rfl | ⟨he, hne⟩
    · rw [List.lookup_cons_self, ← hc, hok]
    · rw [List.lookup_cons, beq_false_of_ne hne]
      exact hs.last e he

/-- A loop that a download takes no client for a proxy of. -/
theorem AsyncShard.Serves.other {cap loops : Nat} {own : Verify} {h : List Download} {i : Nat} {shard : AsyncShard}
    (hs : shard.Serves cap loops own h i) {x : Download}
    (hx : (x.cookies = false ∧ shardIndex x.thread loops = i) → x.proxy = none) :
    shard.Serves cap loops own (h ++ [x]) i := by
  have hasked : askedOn own loops i (h ++ [x]) = askedOn own loops i h := by
    rw [askedOn_append]
    split
    · rename_i hi
      rw [hx hi]
      rfl
    · rfl
  exact ⟨hs.client, hasked ▸ hs.follows, hasked ▸ hs.last⟩

namespace AsyncHttpxDownloader

structure Serves (st : Setting) (loops : Nat) (own : Verify) (h : List Download) (d : AsyncHttpxDownloader) : Prop where
  asks : d.verify = own
  count : d.loops = loops
  capacity : d.capacity = st.SESSION_CACHE_SIZE
  shards : ∀ i, (d.shards i).Serves (max st.SESSION_CACHE_SIZE 1) loops own h i

section
variable {st : Setting} {loops : Nat} {own : Verify} {h : List Download} {d : AsyncHttpxDownloader}

theorem serves_init (st : Setting) (concurrency : Nat) (own : Verify) :
    (init st concurrency own).Serves st (shardCount concurrency st.ASYNC_THREADS_PER_LOOP) own [] where
  asks := rfl
  count := rfl
  capacity := rfl
  shards _ := ⟨rfl, Lru.Follows.nil _, List.forall_mem_nil _⟩

/-- The client for a proxy, before it is asked for. -/
theorem client_asked (hd : d.Serves st loops own h) {x : Download} {proxy : String} (hc : x.cookies = false)
    (hp : x.proxy = some proxy) :
    (d.download x).1 =
      ((d.shards (shardIndex x.thread loops)).proxied.lookup proxy).getD ⟨some proxy, x.effective own⟩ := by
  unfold download
  rw [hd.count, hd.asks, hc, hp]
  exact ProxyClientCache.getOrCreate_client _ _ _ _

/-- A download is sent as it asks exactly if what it finds is. -/
theorem download_iff (hd : d.Serves st loops own h) (x : Download) :
    (d.download x).1.verify = x.effective own ↔ FindsSame (max st.SESSION_CACHE_SIZE 1) loops own h x := by
  cases hc : x.cookies with
  | true =>
    refine iff_of_true ?_ (.inl hc)
    unfold download
    rw [hc, hd.asks]
    rfl
  | false =>
    unfold FindsSame
    rw [hc, or_iff_right (by decide)]
    cases hp : x.proxy with
    | none =>
      unfold download
      rw [hd.count, hc, hp]
      show (d.shards (shardIndex x.thread loops)).client.verify = x.effective own ↔ _
      rw [(hd.shards _).client]
      exact eq_comm
    | some proxy =>
      have hs := hd.shards (shardIndex x.thread loops)
      rw [client_asked hd hc hp]
      dsimp only
      rw [← Lru.mem_keys_iff hs.follows]
      cases hl : (d.shards (shardIndex x.thread loops)).proxied.lookup proxy with
      | none => exact iff_of_true rfl fun hm => absurd hm (Lru.lookup_eq_none_iff.mp hl)
      | some client =>
        have hmem := Lru.mem_of_lookup hl
        have hlast := hs.last _ hmem
        have hkey : proxy ∈ Lru.keys (d.shards (shardIndex x.thread loops)).proxied := List.mem_map_of_mem hmem
        rw [Option.getD_some, hlast, Option.some.injEq]
        exact ⟨fun he _ => he, fun he => he hkey⟩

/-- What is known stays so after a download that is sent as it asks. -/
theorem serves_download (hd : d.Serves st loops own h) {x : Download} (hok : (d.download x).1.verify = x.effective own) :
    (d.download x).2.Serves st loops own (h ++ [x]) := by
  cases hc : x.cookies with
  | true =>
    have hsame : (d.download x).2 = d := by
      unfold download
      rw [hc]
      rfl
    rw [hsame]
    exact { hd with shards := fun i => (hd.shards i).other fun hx => absurd (hc ▸ hx.1) (by decide) }
  | false =>
    cases hp : x.proxy with
    | none =>
      have hsame : (d.download x).2 = d := by
        unfold download
        rw [hc, hp]
        rfl
      rw [hsame]
      exact { hd with shards := fun i => (hd.shards i).other fun _ => hp }
    | some proxy =>
      have hafter : (d.download x).2 = (d.clientForProxy (shardIndex x.thread loops) proxy (x.effective own)).2 := by
        unfold download
        rw [hd.count, hd.asks, hc, hp]
        rfl
      rw [client_asked hd hc hp] at hok
      rw [hafter]
      refine ⟨hd.asks, hd.count, hd.capacity, fun i => ?_⟩
      by_cases hi : shardIndex x.thread loops = i
      · subst hi
        have hshard := (hd.shards (shardIndex x.thread loops)).asked ⟨hc, rfl⟩ hp rfl hok
        unfold clientForProxy
        rw [hd.capacity]
        dsimp only
        rw [Function.update_self]
        exact hshard
      · unfold clientForProxy
        dsimp only
        rw [Function.update_of_ne (Ne.symm hi)]
        exact (hd.shards i).other fun hx => absurd hx.2 hi

end

end AsyncHttpxDownloader

/-- A downloader of threads sends every request through a client that was built
with the request's `verify`, whatever came before. The asynchronous one does so
exactly if each request asks for what it finds: without a proxy, what the
downloader asks for, and with one, what the last request did that got the client
of this proxy on the same loop, if that is still cached. -/
theorem verify_own_iff (st : Setting) (concurrency : Nat) (own : Verify) (xs : List Download) :
    (∀ useSession, VerifiesAsAsked own
      (Server.record SessionDownloader.clientFor (HttpxDownloader st concurrency own useSession) xs)) ∧
    (∀ useSession, VerifiesAsAsked own
      (Server.record SessionDownloader.clientFor (CurlDownloader st concurrency own useSession) xs)) ∧
    (VerifiesAsAsked own (Server.record AsyncHttpxDownloader.download (.init st concurrency own) xs) ↔
      ∀ before x after, xs = before ++ x :: after →
        FindsSame (max st.SESSION_CACHE_SIZE 1) (shardCount concurrency st.ASYNC_THREADS_PER_LOOP) own before x) := by
  refine ⟨fun useSession => ?_, fun useSession => ?_, ?_⟩
  · exact SessionDownloader.verifies (HttpxDownloader st concurrency own useSession) rfl xs
  · exact SessionDownloader.verifies (CurlDownloader st concurrency own useSession) rfl xs
  · have hinit := AsyncHttpxDownloader.serves_init st concurrency own
    have hcond (h : List Download) (d : AsyncHttpxDownloader) (x : Download)
        (hd : d.Serves st (shardCount concurrency st.ASYNC_THREADS_PER_LOOP) own h) := d.download_iff hd x
    have hkeep (h : List Download) (d : AsyncHttpxDownloader) (x : Download)
        (hd : d.Serves st (shardCount concurrency st.ASYNC_THREADS_PER_LOOP) own h)
        (hok : (d.download x).1.verify = x.effective own) := d.serves_download hd hok
    exact Server.record_forall_iff hcond hkeep hinit xs

/-- A request of a proxy that does not say what to verify goes through the client
that was built for one that switched it off, and one that switches it off, without
a proxy, through the default client. -/
theorem async_verify_shared :
    ¬ VerifiesAsAsked (.bool true) (Server.record AsyncHttpxDownloader.download (.init {} 4 (.bool true))
      [{ thread := 0, proxy := some "http://p", verify := some (.bool false) },
        { thread := 0, proxy := some "http://p" }]) ∧
    ¬ VerifiesAsAsked (.bool true) (Server.record AsyncHttpxDownloader.download (.init {} 4 (.bool true))
      [{ thread := 0, proxy := none, verify := some (.bool false) }]) := by
  decide

end Netspy
