import Netspy.Framework.Json.Number
import Netspy.Impl.CookieJars
import Netspy.Proof.Downloader

/-!
# One cookie jar for each proxy

Two caches of the same capacity, one of clients for a proxy and a shard, one of
jars for a proxy: while fewer other clients than the capacity were asked for, so
were fewer other jars, so a jar outlives the clients that were built with it
(`Lru.Recent.coarser`). This needs that the key of a client tells its proxy, which
it does but for `None` and the text `"None"`, and that both are asked for as often: a
client that cannot be made leaves its jar in the cache (`SessionJars.oneJar_iff`).

The clients of an event loop are as many as the cache of jars holds for one loop,
but the jars of all loops are in it, and a default client never asks for its jar
again. Its jar stays as long as fewer proxies are asked for than there is room for
jars (`AsyncJars.oneJar_room_iff`).
-/

namespace Netspy

/-! ## The keys of the clients -/

/-- A text ends in `#` and digits in one way. -/
theorem append_hash_inj {xs ys : List Char} {m n : Nat}
    (h : xs ++ '#' :: Nat.toDigits 10 m = ys ++ '#' :: Nat.toDigits 10 n) : xs = ys ∧ m = n := by
  have htake (k : Nat) (rest : List Char) :
      ((Nat.toDigits 10 k).reverse ++ '#' :: rest).takeWhile (· ≠ '#') = (Nat.toDigits 10 k).reverse := by
    rw [List.takeWhile_append_of_pos, List.takeWhile_cons_of_neg (by decide), List.append_nil]
    intro c hc
    have hdigit := Json.isDigit_toDigits (List.mem_reverse.mp hc)
    exact decide_eq_true fun he => absurd (he ▸ hdigit) (by decide)
  have hrev := congrArg List.reverse h
  simp only [List.reverse_append, List.reverse_cons, List.append_assoc, List.singleton_append] at hrev
  have hdigits : (Nat.toDigits 10 m).reverse = (Nat.toDigits 10 n).reverse := by
    rw [← htake m, hrev, htake n]
  rw [hdigits] at hrev
  refine ⟨List.reverse_injective (List.cons.inj (List.append_cancel_left hrev)).2, ?_⟩
  rw [← Json.natOf_toDigits m, List.reverse_injective hdigits, Json.natOf_toDigits]

theorem sessionKey_inj {p q : Option String} {m n shards : Nat} (h : sessionKey p m shards = sessionKey q n shards) :
    p.getD "None" = q.getD "None" ∧ (1 < shards → shardIndex m shards = shardIndex n shards) ∧ (shards ≤ 1 → p = q) := by
  unfold sessionKey at h
  split at h
  · rename_i hs
    exact ⟨by rw [h], fun hlt => absurd hs (Nat.not_le.mpr hlt), fun _ => h⟩
  · rename_i hs
    have hchars := congrArg String.toList (Option.some.inj h)
    simp only [String.toList_append, List.append_assoc] at hchars
    have hdigits (k : Nat) : "#".toList ++ (toString k).toList = '#' :: Nat.toDigits 10 k := by
      show '#' :: (String.ofList (Nat.toDigits 10 k)).toList = _
      rw [String.toList_ofList]
    rw [hdigits, hdigits] at hchars
    obtain ⟨hproxy, hshard⟩ := append_hash_inj hchars
    exact ⟨String.toList_injective hproxy, fun _ => hshard, fun hle => absurd hle hs⟩

namespace SessionJars

/-- The key that the client of a call is cached under. -/
def keyOf (shards : Nat) (call : SessionCall) : Option String := sessionKey call.proxy call.thread shards

/-- The calls that return a client. -/
def given (d : SessionJars) : List SessionCall → List SessionCall
  | [] => []
  | x :: xs =>
    let (client, d) := d.sessionClient x
    if client.isSome then x :: d.given xs else d.given xs

/-- For each of these calls: the client that is cached for its proxy and shard has
the jar that is cached for the proxy. -/
def OneJar (d : SessionJars) (got : List SessionCall) : Prop :=
  ∀ x ∈ got, ∀ jar, (keyOf d.shards x, jar) ∈ d.clients → (x.proxy, jar) ∈ d.jars

/-- After calls that returned these clients, the last first: one can be made for the
call, or fewer than `cap` others were returned since the one that it asks for. -/
def gets (shards cap : Nat) (got : List SessionCall) (x : SessionCall) : Bool :=
  x.builds || decide (Lru.Recent cap (got.map (keyOf shards)) (keyOf shards x))

/-- Of the calls `h`, the last first, those that return a client. -/
def answered (shards cap : Nat) : List SessionCall → List SessionCall
  | [] => []
  | x :: h => if gets shards cap (answered shards cap h) x then x :: answered shards cap h else answered shards cap h

/-- No shard returns both a client without a proxy and one of the proxy `"None"`. -/
def Told (shards : Nat) (got : List SessionCall) : Prop :=
  1 < shards → ∀ x ∈ got, ∀ y ∈ got, x.proxy = none → y.proxy = some "None" →
    shardIndex x.thread shards ≠ shardIndex y.thread shards

/-- If fewer than `cap` other clients were returned since a client was, fewer than
`cap` other proxies were asked for since its proxy was. -/
def Outlived (shards cap : Nat) (h : List SessionCall) : Prop :=
  ∀ x ∈ answered shards cap h, Lru.Recent cap ((answered shards cap h).map (keyOf shards)) (keyOf shards x) →
    Lru.Recent cap (h.map SessionCall.proxy) x.proxy

/-- What both caches hold at most. -/
def room (st : Setting) (shards : Nat) : Nat := max (max st.SESSION_CACHE_SIZE 1 * shards) 1

/-- The caches after the calls `h`, the last first. -/
structure Tracks (shards capacity : Nat) (h : List SessionCall) (d : SessionJars) : Prop where
  count : d.shards = shards
  size : d.capacity = capacity
  clients : Lru.Follows (max capacity 1) ((answered shards (max capacity 1) h).map (keyOf shards)) d.clients
  jars : Lru.Follows (max capacity 1) (h.map SessionCall.proxy) d.jars
  fresh : ∀ e ∈ d.jars, e.2 < d.made
  apart : ∀ e ∈ d.jars, ∀ e' ∈ d.jars, e.2 = e'.2 → e = e'

theorem Tracks.init (st : Setting) (shards : Nat) :
    Tracks shards (max st.SESSION_CACHE_SIZE 1 * shards) [] (init st shards) where
  count := rfl
  size := rfl
  clients := Lru.Follows.nil _
  jars := Lru.Follows.nil _
  fresh := List.forall_mem_nil _
  apart := List.forall_mem_nil _

theorem answered_cons_of {shards cap : Nat} {h : List SessionCall} {x : SessionCall}
    (hx : gets shards cap (answered shards cap h) x = true) :
    answered shards cap (x :: h) = x :: answered shards cap h := if_pos hx

theorem answered_cons_of_not {shards cap : Nat} {h : List SessionCall} {x : SessionCall}
    (hx : ¬ gets shards cap (answered shards cap h) x = true) :
    answered shards cap (x :: h) = answered shards cap h := if_neg hx

theorem answered_mono {shards cap : Nat} (xs h : List SessionCall) :
    answered shards cap h ⊆ answered shards cap (xs ++ h) := by
  induction xs with
  | nil => exact List.Subset.refl _
  | cons x xs ih =>
    rw [List.cons_append, answered]
    split
    · exact List.subset_cons_of_subset x ih
    · exact ih

/-- If every client can be made, all calls return one. -/
theorem answered_of_builds {shards cap : Nat} {h : List SessionCall} (hb : ∀ x ∈ h, x.builds = true) :
    answered shards cap h = h := by
  induction h with
  | nil => rfl
  | cons x h ih =>
    have ih := ih fun y hy => hb y (List.mem_cons_of_mem x hy)
    rw [answered_cons_of (by rw [gets, hb x List.mem_cons_self, Bool.true_or]), ih]

section
variable {shards capacity : Nat} {h : List SessionCall} {d : SessionJars}

theorem Tracks.builds_iff (ht : Tracks shards capacity h d) (x : SessionCall) :
    (x.builds || (d.clients.lookup (keyOf shards x)).isSome) =
      gets shards (max capacity 1) (answered shards (max capacity 1) h) x := by
  unfold gets
  congr 1
  rw [Bool.eq_iff_iff, decide_eq_true_iff, ← Lru.mem_keys_iff ht.clients, List.lookup_isSome_iff]
  exact ⟨fun ⟨e, he, hk⟩ => beq_iff_eq.mp hk ▸ List.mem_map_of_mem he,
    fun hk => (List.mem_map.mp hk).imp fun e ⟨he, hk⟩ => ⟨he, beq_iff_eq.mpr hk.symm⟩⟩

/-- What a call leaves: its jar is cached, and its client, if it returns one, which has
the jar if it is new. -/
theorem Tracks.call (ht : Tracks shards capacity h d) (x : SessionCall) :
    ∃ jar, (x.proxy, jar) ∈ (d.sessionClient x).2.jars ∧
      (d.sessionClient x).2.jars = Lru.touch (max capacity 1) d.jars x.proxy d.made ∧
      if gets shards (max capacity 1) (answered shards (max capacity 1) h) x then
        (d.sessionClient x).1.isSome ∧ (∃ client, (keyOf shards x, client) ∈ (d.sessionClient x).2.clients) ∧
          (d.sessionClient x).2.clients = Lru.touch (max capacity 1) d.clients (keyOf shards x) jar
      else ¬ (d.sessionClient x).1.isSome ∧ (d.sessionClient x).2.clients = d.clients := by
  have hjars := ProxyClientCache.getOrCreate_items (ht.size ▸ ht.jars.length_le) x.proxy d.made
  have hclients (jar : Nat) := ProxyClientCache.getOrCreate_items (ht.size ▸ ht.clients.length_le) (keyOf shards x) jar
  have hjar := ProxyClientCache.getOrCreate_self d.jars x.proxy d.made d.capacity
  have hclient (jar : Nat) := ProxyClientCache.getOrCreate_self d.clients (keyOf shards x) jar d.capacity
  rw [ht.size] at hjars hclients hjar hclient
  rw [← hjars] at hjar
  have hbuilds := ht.builds_iff x
  unfold sessionClient jarFor
  dsimp only
  rw [ht.size, ht.count]
  unfold keyOf at hbuilds hclients hclient ⊢
  rw [hbuilds]
  split
  · exact ⟨_, hjar, hjars, rfl, ⟨_, hclients _ ▸ hclient _⟩, hclients _⟩
  · exact ⟨_, hjar, hjars, Bool.false_ne_true, rfl⟩

theorem Tracks.step (ht : Tracks shards capacity h d) (x : SessionCall) :
    Tracks shards capacity (x :: h) (d.sessionClient x).2 := by
  obtain ⟨jar, -, hjars, hclients⟩ := ht.call x
  have hold {e : Option String × Nat} (he : e ∈ (d.sessionClient x).2.jars) : e ∈ d.jars ∨ e = (x.proxy, d.made) := by
    rw [hjars] at he
    exact Lru.mem_or_of_mem_touch he
  have hkept : (d.sessionClient x).2.shards = d.shards ∧ (d.sessionClient x).2.capacity = d.capacity ∧
      (d.sessionClient x).2.made = d.made + 1 := by
    unfold sessionClient
    dsimp only
    split <;> exact ⟨rfl, rfl, rfl⟩
  obtain ⟨hcount, hcapacity, hmade⟩ := hkept
  refine ⟨hcount.trans ht.count, hcapacity.trans ht.size, ?_, ?_, fun e he => ?_, fun e he e' he' heq => ?_⟩
  · split at hclients
    · rename_i hgets
      rw [answered_cons_of hgets, hclients.2.2]
      exact ht.clients.touch _ jar
    · rename_i hgets
      rw [answered_cons_of_not hgets, hclients.2]
      exact ht.clients
  · rw [hjars]
    exact ht.jars.touch _ d.made
  · rw [hmade]
    rcases hold he with he | rfl
    · exact Nat.lt_succ_of_lt (ht.fresh e he)
    · exact Nat.lt_succ_self d.made
  · rcases hold he with he | rfl <;> rcases hold he' with he' | rfl
    · exact ht.apart e he e' he' heq
    · exact absurd (ht.fresh e he) (by rw [heq]; exact Nat.lt_irrefl _)
    · exact absurd (ht.fresh e' he') (by rw [← heq]; exact Nat.lt_irrefl _)
    · rfl

/-- If the keys tell the proxies, a call keeps the clients with their jars as long as
their proxies were asked for recently. -/
theorem Tracks.oneJar (ht : Tracks shards capacity h d) {x : SessionCall}
    (hkeys : ∀ y ∈ answered shards (max capacity 1) (x :: h), ∀ z ∈ answered shards (max capacity 1) (x :: h),
      keyOf shards y = keyOf shards z → y.proxy = z.proxy)
    (hout : Outlived shards (max capacity 1) (x :: h)) (ho : OneJar d (answered shards (max capacity 1) h)) :
    OneJar (d.sessionClient x).2 (answered shards (max capacity 1) (x :: h)) := by
  intro y hy jar hjar
  obtain ⟨new, hnew, hjars, hclients⟩ := ht.call x
  have hcount := (ht.step x).count
  rw [hcount] at hjar
  have hrecent := (Lru.mem_keys_iff (ht.step x).clients).mp (List.mem_map_of_mem hjar)
  have hstays {e : Option String × Nat} (he : e ∈ d.jars) (hp : e.1 = y.proxy) : e ∈ (d.sessionClient x).2.jars := by
    rw [hjars]
    apply Lru.mem_touch_of_mem ht.jars.nodup he
    rw [← hjars, Lru.mem_keys_iff (ht.step x).jars, hp]
    exact hout y hy hrecent
  -- a client that was there was returned to a call `z` with the same key, hence the same proxy
  have hwas (hold : (keyOf shards y, jar) ∈ d.clients) : (y.proxy, jar) ∈ (d.sessionClient x).2.jars := by
    obtain ⟨z, hz, hkey⟩ := List.mem_map.mp ((Lru.mem_keys_iff ht.clients).mp (List.mem_map_of_mem hold)).1
    have hproxy : z.proxy = y.proxy := hkeys z (answered_mono [x] h hz) y hy hkey
    refine hstays ?_ rfl
    rw [← hproxy]
    refine ho z hz jar ?_
    rw [ht.count, hkey]
    exact hold
  split at hclients
  · rename_i hgets
    rw [hclients.2.2] at hjar
    rcases Lru.mem_or_of_mem_touch hjar with hold | heq
    · exact hwas hold
    · obtain ⟨hkey, rfl⟩ := Prod.mk.inj heq
      have hx : x ∈ answered shards (max capacity 1) (x :: h) := by
        rw [answered_cons_of hgets]
        exact List.mem_cons_self
      rw [hkeys y hy x hx hkey]
      exact hnew
  · rw [hclients.2] at hjar
    exact hwas hjar

/-- The clients that are cached have their jars: their proxies were asked for
recently. -/
theorem Tracks.outlived (ht : Tracks shards capacity h d) (ho : OneJar d (answered shards (max capacity 1) h)) :
    Outlived shards (max capacity 1) h := by
  intro x hx hrecent
  obtain ⟨⟨key, jar⟩, hjar, hkey⟩ := List.mem_map.mp ((Lru.mem_keys_iff ht.clients).mpr hrecent)
  change key = keyOf shards x at hkey
  subst hkey
  rw [← Lru.mem_keys_iff ht.jars]
  exact List.mem_map_of_mem (ho x hx jar (by rw [ht.count]; exact hjar))

/-- If every client can be made, the jars are asked for as often as the clients. -/
theorem outlived_of_builds {cap : Nat} (hb : ∀ x ∈ h, x.builds = true)
    (hkeys : ∀ y ∈ h, ∀ z ∈ h, keyOf shards y = keyOf shards z → y.proxy = z.proxy) : Outlived shards cap h := by
  intro x hx hrecent
  rw [answered_of_builds hb] at hx hrecent
  exact hrecent.coarser hkeys hx

end

theorem after_append (d : SessionJars) (xs : List SessionCall) (x : SessionCall) :
    d.after (xs ++ [x]) = ((d.after xs).sessionClient x).2 := by
  unfold after
  rw [List.foldl_append]
  rfl

theorem given_append (d : SessionJars) (xs : List SessionCall) (x : SessionCall) :
    d.given (xs ++ [x]) = d.given xs ++ if ((d.after xs).sessionClient x).1.isSome then [x] else [] := by
  induction xs generalizing d with
  | nil => rfl
  | cons y xs ih =>
    rw [List.cons_append, given, given]
    dsimp only
    rw [ih]
    split
    · rfl
    · rfl

theorem tracks_after (st : Setting) (shards : Nat) (xs : List SessionCall) :
    Tracks shards (max st.SESSION_CACHE_SIZE 1 * shards) xs.reverse ((init st shards).after xs) := by
  induction xs using List.reverseRecOn with
  | nil => exact .init st shards
  | append_singleton xs x ih =>
    rw [after_append, List.reverse_concat]
    exact ih.step x

/-- The calls that return a client, by what was asked for. -/
theorem given_eq (st : Setting) (shards : Nat) (xs : List SessionCall) :
    (init st shards).given xs = (answered shards (room st shards) xs.reverse).reverse := by
  induction xs using List.reverseRecOn with
  | nil => rfl
  | append_singleton xs x ih =>
    obtain ⟨jar, -, -, hcall⟩ := (tracks_after st shards xs).call x
    rw [given_append, ih, List.reverse_concat]
    split at hcall
    · rename_i hgets
      have hcons : answered shards (room st shards) (x :: xs.reverse) = _ := answered_cons_of hgets
      rw [if_pos hcall.1, hcons, List.reverse_cons]
    · rename_i hgets
      have hskip : answered shards (room st shards) (x :: xs.reverse) = _ := answered_cons_of_not hgets
      rw [if_neg hcall.1, hskip, List.append_nil]

theorem oneJar_given {st : Setting} {shards : Nat} {d : SessionJars} {xs : List SessionCall} :
    OneJar d ((init st shards).given xs) ↔ OneJar d (answered shards (room st shards) xs.reverse) := by
  unfold OneJar
  rw [given_eq]
  simp only [List.mem_reverse]

theorem oneJar_after {st : Setting} {shards : Nat} {xs : List SessionCall}
    (hkeys : ∀ y ∈ answered shards (room st shards) xs.reverse, ∀ z ∈ answered shards (room st shards) xs.reverse,
      keyOf shards y = keyOf shards z → y.proxy = z.proxy)
    (hout : ∀ before after, xs = before ++ after → Outlived shards (room st shards) before.reverse) :
    OneJar ((init st shards).after xs) (answered shards (room st shards) xs.reverse) := by
  induction xs using List.reverseRecOn with
  | nil => exact List.forall_mem_nil _
  | append_singleton xs x ih =>
    rw [List.reverse_concat] at hkeys ⊢
    have hsub : answered shards (room st shards) xs.reverse ⊆ answered shards (room st shards) (x :: xs.reverse) :=
      answered_mono [x] xs.reverse
    have ih := ih (fun y hy z hz => hkeys y (hsub hy) z (hsub hz)) fun before after he =>
      hout before (after ++ [x]) (by rw [he, List.append_assoc])
    have hlast := hout (xs ++ [x]) [] (List.append_nil _).symm
    rw [List.reverse_concat] at hlast
    rw [after_append]
    exact (tracks_after st shards xs).oneJar hkeys hlast ih

/-- The keys of a downloader tell the proxies of these calls, if no shard returns
both a client without a proxy and one of the proxy `"None"`. -/
theorem keys_tell {shards : Nat} {got : List SessionCall} (h : Told shards got) :
    ∀ y ∈ got, ∀ z ∈ got, keyOf shards y = keyOf shards z → y.proxy = z.proxy := by
  intro y hy z hz hkey
  obtain ⟨htext, hshard, hone⟩ := sessionKey_inj hkey
  rcases Nat.lt_or_ge 1 shards with hlt | hle
  · cases hp : y.proxy with
    | none =>
      cases hq : z.proxy with
      | none => rfl
      | some q =>
        rw [hp, hq] at htext
        exact absurd (hshard hlt) (h hlt y hy z hz hp (hq.trans (congrArg some htext.symm)))
    | some p =>
      cases hq : z.proxy with
      | none =>
        rw [hp, hq] at htext
        exact absurd (hshard hlt).symm (h hlt z hz y hy hq (hp.trans (congrArg some htext)))
      | some q =>
        rw [hp, hq] at htext
        exact congrArg some htext
  · exact hone hle

/-- A client that is returned twice, for two proxies, has the jar of one of them. -/
theorem not_oneJar {st : Setting} {shards : Nat} {before : List SessionCall} {x y : SessionCall}
    (hx : x ∈ answered shards (room st shards) before.reverse)
    (hy : y ∈ answered shards (room st shards) (y :: before.reverse))
    (hgot : (((init st shards).after before).sessionClient y).1.isSome) (hkey : keyOf shards x = keyOf shards y)
    (hne : x.proxy ≠ y.proxy) :
    ¬ OneJar (((init st shards).after before).sessionClient y).2
      (answered shards (room st shards) (y :: before.reverse)) := by
  intro ho
  have ht := tracks_after st shards before
  obtain ⟨jar, -, -, hcall⟩ := ht.call y
  have hapart := (ht.step y).apart
  have hcount := (ht.step y).count
  split at hcall
  · obtain ⟨-, ⟨client, hclient⟩, -⟩ := hcall
    have hown := ho y hy client (by rw [hcount]; exact hclient)
    have hother := ho x (answered_mono [y] before.reverse hx) client (by rw [hcount, hkey]; exact hclient)
    exact hne (Prod.mk.inj (hapart _ hother _ hown rfl)).1
  · exact absurd hgot hcall.1

theorem keys_of_oneJar {st : Setting} {shards : Nat} {xs : List SessionCall}
    (h : ∀ before after, xs = before ++ after →
      OneJar ((init st shards).after before) (answered shards (room st shards) before.reverse)) :
    ∀ y ∈ answered shards (room st shards) xs.reverse, ∀ z ∈ answered shards (room st shards) xs.reverse,
      keyOf shards y = keyOf shards z → y.proxy = z.proxy := by
  induction xs using List.reverseRecOn with
  | nil => exact List.forall_mem_nil _
  | append_singleton xs x ih =>
    have ih := ih fun before after he => h before (after ++ [x]) (by rw [he, List.append_assoc])
    have hlast := h (xs ++ [x]) [] (List.append_nil _).symm
    rw [after_append, List.reverse_concat] at hlast
    rw [List.reverse_concat]
    obtain ⟨jar, -, -, hcall⟩ := (tracks_after st shards xs).call x
    split at hcall
    · rename_i hgets
      have hcons : answered shards (room st shards) (x :: xs.reverse) = x :: answered shards (room st shards) xs.reverse :=
        answered_cons_of hgets
      have hself : x ∈ answered shards (room st shards) (x :: xs.reverse) := hcons ▸ List.mem_cons_self
      have hnew {y : SessionCall} (hy : y ∈ answered shards (room st shards) xs.reverse)
          (hkey : keyOf shards y = keyOf shards x) : y.proxy = x.proxy := by
        by_contra hne
        exact not_oneJar hy hself hcall.1 hkey hne hlast
      intro y hy z hz hkey
      rw [hcons] at hy hz
      rcases List.mem_cons.mp hy with hyx | hy <;> rcases List.mem_cons.mp hz with hzx | hz
      · rw [hyx, hzx]
      · rw [hyx] at hkey ⊢
        exact (hnew hz hkey.symm).symm
      · rw [hzx] at hkey ⊢
        exact hnew hy hkey
      · exact ih y hy z hz hkey
    · rename_i hgets
      have hskip : answered shards (room st shards) (x :: xs.reverse) = answered shards (room st shards) xs.reverse :=
        answered_cons_of_not hgets
      rw [hskip]
      exact ih

/-- After every call each client that was returned, and is cached still, has the jar
that is cached for its proxy, exactly if no shard returns both a client without a
proxy and one of the proxy `"None"`, and calls that raise never ask for so many
proxies that a jar goes before the client. -/
theorem oneJar_iff (st : Setting) (shards : Nat) (calls : List SessionCall) :
    (∀ before after, calls = before ++ after → OneJar ((init st shards).after before) ((init st shards).given before)) ↔
      Told shards (answered shards (room st shards) calls.reverse) ∧
        ∀ before after, calls = before ++ after → Outlived shards (room st shards) before.reverse := by
  constructor
  · intro h
    have h (before after : List SessionCall) (he : calls = before ++ after) := oneJar_given.mp (h before after he)
    refine ⟨fun hlt x hx y hy hp hq hshard => ?_, fun before after he =>
        (tracks_after st shards before).outlived (h before after he)⟩
    have hkey : keyOf shards x = keyOf shards y := by
      unfold keyOf sessionKey
      rw [if_neg (Nat.not_le.mpr hlt), if_neg (Nat.not_le.mpr hlt), hp, hq, hshard]
      rfl
    have hproxy := keys_of_oneJar h x hx y hy hkey
    rw [hp, hq] at hproxy
    cases hproxy
  · rintro ⟨htold, hout⟩ before after rfl
    rw [oneJar_given]
    have hsub : answered shards (room st shards) before.reverse ⊆
        answered shards (room st shards) (before ++ after).reverse := by
      rw [List.reverse_append]
      exact answered_mono after.reverse before.reverse
    refine oneJar_after (keys_tell fun hlt x hx y hy => htold hlt x (hsub hx) y (hsub hy)) fun first rest he => ?_
    exact hout first (rest ++ after) (by rw [he, List.append_assoc])

/-- If every client can be made, the first of the two is all that it takes. -/
theorem oneJar_of_builds {st : Setting} {shards : Nat} {calls : List SessionCall} (hb : ∀ x ∈ calls, x.builds = true)
    (htold : Told shards calls) {before after : List SessionCall} (he : calls = before ++ after) :
    OneJar ((init st shards).after before) ((init st shards).given before) := by
  subst he
  have hrev {xs : List SessionCall} (hx : xs ⊆ before ++ after) : ∀ x ∈ xs.reverse, x.builds = true := fun x hm =>
    hb x (hx (List.mem_reverse.mp hm))
  have hkeys {xs : List SessionCall} (hx : xs ⊆ before ++ after) :
      ∀ y ∈ xs.reverse, ∀ z ∈ xs.reverse, keyOf shards y = keyOf shards z → y.proxy = z.proxy :=
    keys_tell fun hlt x hxs y hys => htold hlt x (hx (List.mem_reverse.mp hxs)) y (hx (List.mem_reverse.mp hys))
  rw [oneJar_given]
  have hbefore : before ⊆ before ++ after := List.subset_append_left before after
  refine oneJar_after (by rw [answered_of_builds (hrev hbefore)]; exact hkeys hbefore) fun first rest he => ?_
  have hfirst : first ⊆ before ++ after := fun x hx => hbefore (he ▸ List.mem_append_left rest hx)
  exact outlived_of_builds (hrev hfirst) (hkeys hfirst)

/-- With two shards: the client that is built for no proxy is the one that is
cached for the proxy `"None"`, which has a jar of its own. -/
theorem jar_of_none :
    ¬ OneJar ((init {} 2).after [⟨none, 0, true⟩, ⟨some "None", 0, true⟩])
      ((init {} 2).given [⟨none, 0, true⟩, ⟨some "None", 0, true⟩]) := by
  intro h
  exact absurd (h ⟨some "None", 0, true⟩ (by decide) 0 (by decide)) (by decide)

/-- With room for one: a proxy that no client can be made with takes the place of the
jar of a client that is cached still. -/
example : ¬ OneJar ((init { SESSION_CACHE_SIZE := 1 } 1).after [⟨some "http://p1", 0, true⟩, ⟨some "socks4://p2", 0, false⟩])
    [⟨some "http://p1", 0, true⟩] := by
  intro h
  exact absurd (h ⟨some "http://p1", 0, true⟩ (by decide) 0 (by decide)) (by decide)

end SessionJars

namespace AsyncJars

/-- Each cached client has the jar that is cached for its proxy, and each default
client the one that is cached for none. -/
def OneJar (d : AsyncJars) : Prop :=
  (∀ i < d.loops, ∀ jar, d.defaults i = some jar → (none, jar) ∈ d.jars) ∧
    ∀ i < d.loops, ∀ e ∈ d.proxied i, (some e.1, e.2) ∈ d.jars

/-- What the jars were asked for: after the calls `h`, the last first, and before
them for the default clients. -/
def asked (h : List (Nat × String)) : List (Option String) := h.map (fun call => some call.2) ++ [none]

/-- The caches after the calls `h`, the last first. -/
structure Tracks (loops capacity : Nat) (h : List (Nat × String)) (d : AsyncJars) : Prop where
  count : d.loops = loops
  room : d.jarCapacity = capacity
  jars : Lru.Follows (max capacity 1) (asked h) d.jars
  default : ∀ i < loops, d.defaults i = some 0

/-- The loops are set up with one jar, which the first of them makes. -/
theorem setup_jars {d : AsyncJars} (h : d.jars = [] ∧ d.made = 0 ∨ d.jars = [(none, 0)]) (i : Nat) :
    (d.setup i).jars = [(none, 0)] ∧ (d.setup i).defaults = Function.update d.defaults i (some 0) := by
  unfold setup jarFor ProxyClientCache.getOrCreate
  rcases h with ⟨hjars, hmade⟩ | hjars
  · rw [hjars, hmade]
    dsimp only [List.lookup_nil, List.nil_append, List.length_singleton]
    rw [Nat.sub_eq_zero_of_le (Nat.le_max_right _ 1)]
    exact ⟨rfl, rfl⟩
  · rw [hjars]
    exact ⟨rfl, rfl⟩

theorem setup_after {d : AsyncJars} (hnew : d.jars = []) (hmade : d.made = 0) (n : Nat) :
    let after := (List.range (n + 1)).foldl setup d
    after.loops = d.loops ∧ after.jarCapacity = d.jarCapacity ∧ after.jars = [(none, 0)] ∧ after.proxied = d.proxied ∧
      ∀ i < n + 1, after.defaults i = some 0 := by
  induction n with
  | zero =>
    obtain ⟨hjars, hdefaults⟩ := setup_jars (.inl ⟨hnew, hmade⟩) 0
    refine ⟨rfl, rfl, hjars, rfl, fun i hi => ?_⟩
    rw [Nat.lt_one_iff.mp hi]
    exact (congrFun hdefaults 0).trans (Function.update_self ..)
  | succ n ih =>
    obtain ⟨hloops, hcapacity, hjars, hproxied, hdefault⟩ := ih
    rw [List.range_succ, List.foldl_append]
    obtain ⟨hjars, hdefaults⟩ := setup_jars (.inr hjars) (n + 1)
    refine ⟨hloops, hcapacity, hjars, hproxied, fun i hi => ?_⟩
    rw [List.foldl_cons, List.foldl_nil, hdefaults]
    rcases Nat.lt_succ_iff_lt_or_eq.mp hi with hlt | rfl
    · rw [Function.update_of_ne (Nat.ne_of_lt hlt)]
      exact hdefault i hlt
    · exact Function.update_self ..

/-- `SESSION_CACHE_SIZE` for each loop. -/
theorem tracks_init (st : Setting) (loops : Nat) :
    Tracks (max loops 1) (max st.SESSION_CACHE_SIZE 1 * max loops 1) [] (init st loops) ∧
      (init st loops).jars = [(none, 0)] ∧ ∀ i, (init st loops).proxied i = [] := by
  have hone : max loops 1 = (max loops 1 - 1) + 1 := (Nat.sub_add_cancel (Nat.le_max_right _ 1)).symm
  obtain ⟨hloops, hcapacity, hjars, hproxied, hdefault⟩ := @setup_after
    { loops := max loops 1, capacity := st.SESSION_CACHE_SIZE, jarCapacity := max st.SESSION_CACHE_SIZE 1 * max loops 1 }
    rfl rfl (max loops 1 - 1)
  rw [← hone] at hloops hcapacity hjars hproxied hdefault
  refine ⟨⟨hloops, hcapacity, ?_, hdefault⟩, hjars, congrFun hproxied⟩
  show Lru.Follows _ [none] ((List.range (max loops 1)).foldl setup _).jars
  have htouch (capacity : Nat) : Lru.touch (max capacity 1) [] (none : Option String) 0 = [(none, 0)] := by
    show List.drop (1 - max capacity 1) [(none, 0)] = _
    rw [Nat.sub_eq_zero_of_le (Nat.le_max_right capacity 1)]
    rfl
  rw [hjars, ← htouch]
  exact (Lru.Follows.nil _).touch none 0

section
variable {loops capacity : Nat} {h : List (Nat × String)} {d : AsyncJars}

theorem Tracks.jarFor (ht : Tracks loops capacity h d) (proxy : String) :
    (some proxy, (d.jarFor (some proxy)).1) ∈ (d.jarFor (some proxy)).2.jars ∧
      (d.jarFor (some proxy)).2.jars = Lru.touch (max capacity 1) d.jars (some proxy) d.made := by
  have hjars := ProxyClientCache.getOrCreate_items (ht.room ▸ ht.jars.length_le) (some proxy) d.made
  have hjar := ProxyClientCache.getOrCreate_self d.jars (some proxy) d.made d.jarCapacity
  rw [← hjars] at hjar
  rw [ht.room] at hjars
  refine ⟨hjar, ?_⟩
  unfold AsyncJars.jarFor
  rw [ht.room]
  exact hjars

theorem Tracks.step (ht : Tracks loops capacity h d) (x : Nat × String) :
    Tracks loops capacity (x :: h) (d.clientForProxy x) := by
  refine ⟨ht.count, ht.room, ?_, ht.default⟩
  show Lru.Follows _ (some x.2 :: asked h) (d.jarFor (some x.2)).2.jars
  rw [(ht.jarFor x.2).2]
  exact ht.jars.touch _ d.made

theorem card_some (h : List (Nat × String)) :
    (h.map fun call => some call.2).toFinset.card = (h.map Prod.snd).toFinset.card := by
  have hmap : (h.map fun call => some call.2).toFinset = (h.map Prod.snd).toFinset.map Function.Embedding.some := by
    ext proxy
    simp only [List.mem_toFinset, List.mem_map, Finset.mem_map, Function.Embedding.some_apply]
    exact ⟨fun ⟨call, hc, he⟩ => ⟨call.2, ⟨call, hc, rfl⟩, he⟩, fun ⟨_, ⟨call, hc, hp⟩, he⟩ => ⟨call, hc, hp ▸ he⟩⟩
  rw [hmap, Finset.card_map]

/-- The jar of the default clients stays as long as fewer proxies were asked for
than there is room for jars. -/
theorem Tracks.default_iff (ht : Tracks loops capacity h d) (hcapacity : 0 < capacity) :
    none ∈ Lru.keys d.jars ↔ (h.map Prod.snd).toFinset.card < capacity := by
  have hnone : none ∉ h.map fun call => some call.2 := by simp
  have hsince : Lru.since none (asked h) = h.map fun call => some call.2 := by
    unfold Lru.since asked
    rw [List.takeWhile_append_of_pos, List.takeWhile_cons_of_neg (by simp), List.append_nil]
    exact fun proxy hp => decide_eq_true fun he => hnone (he ▸ hp)
  rw [Lru.mem_keys_iff ht.jars, Lru.Recent, hsince, card_some, Nat.max_eq_left hcapacity]
  exact and_iff_right (List.mem_append_right _ List.mem_cons_self)

/-- As long as that is so, no jar goes. -/
theorem Tracks.stays (ht : Tracks loops capacity h d) {x : Nat × String}
    (hroom : ((x :: h).map Prod.snd).toFinset.card < capacity) {e : Option String × Nat} (he : e ∈ d.jars) :
    e ∈ (d.clientForProxy x).jars := by
  have hasked : (asked (x :: h)).toFinset.card ≤ max capacity 1 := by
    unfold asked
    rw [List.toFinset_append, List.toFinset_cons, List.toFinset_nil]
    calc _ ≤ _ + 1 := Finset.card_union_le _ _
      _ ≤ capacity := by rw [card_some]; exact hroom
      _ ≤ _ := Nat.le_max_left _ _
  show e ∈ (d.jarFor (some x.2)).2.jars
  rw [(ht.jarFor x.2).2]
  apply Lru.mem_touch_of_mem ht.jars.nodup he
  rw [← (ht.jarFor x.2).2]
  refine (Lru.mem_keys_iff (ht.step x).jars).mpr (Lru.recent_of_card_le hasked ?_)
  exact List.mem_cons_of_mem _ ((Lru.mem_keys_iff ht.jars).mp (List.mem_map_of_mem he)).1

theorem Tracks.oneJar (ht : Tracks loops capacity h d) {x : Nat × String}
    (hroom : ((x :: h).map Prod.snd).toFinset.card < capacity) (ho : OneJar d) : OneJar (d.clientForProxy x) := by
  refine ⟨fun i hi jar hj => ht.stays hroom (ho.1 i hi jar hj), fun i hi e he => ?_⟩
  have hproxied : (d.clientForProxy x).proxied = Function.update d.proxied (shardIndex x.1 d.loops)
      ((d.proxied (shardIndex x.1 d.loops)).getOrCreate x.2 (d.jarFor (some x.2)).1 d.capacity).2.2 := rfl
  rw [hproxied] at he
  by_cases hself : i = shardIndex x.1 d.loops
  · subst hself
    rw [Function.update_self] at he
    rcases ProxyClientCache.mem_getOrCreate he with hold | rfl
    · exact ht.stays hroom (ho.2 _ hi e hold)
    · exact (ht.jarFor x.2).1
  · rw [Function.update_of_ne hself] at he
    exact ht.stays hroom (ho.2 i hi e he)

end

theorem after_append (d : AsyncJars) (xs : List (Nat × String)) (x : Nat × String) :
    d.after (xs ++ [x]) = (d.after xs).clientForProxy x := by
  unfold after
  rw [List.foldl_append]
  rfl

theorem tracks_after (st : Setting) (loops : Nat) (xs : List (Nat × String)) :
    Tracks (max loops 1) (max st.SESSION_CACHE_SIZE 1 * max loops 1) xs.reverse ((init st loops).after xs) := by
  induction xs using List.reverseRecOn with
  | nil => exact (tracks_init st loops).1
  | append_singleton xs x ih =>
    rw [after_append, List.reverse_concat]
    exact ih.step x

theorem oneJar_init (st : Setting) (loops : Nat) : OneJar (init st loops) := by
  obtain ⟨ht, hjars, hproxied⟩ := tracks_init st loops
  refine ⟨fun i hi jar hj => ?_, fun i _ e he => ?_⟩
  · rw [ht.count] at hi
    rw [hjars, ← Option.some.inj ((ht.default i hi).symm.trans hj)]
    exact List.mem_cons_self
  · rw [hproxied] at he
    exact absurd he List.not_mem_nil

theorem oneJar_after {st : Setting} {loops : Nat} {xs : List (Nat × String)}
    (hroom : (xs.map Prod.snd).toFinset.card < max st.SESSION_CACHE_SIZE 1 * max loops 1) :
    OneJar ((init st loops).after xs) := by
  induction xs using List.reverseRecOn with
  | nil => exact oneJar_init st loops
  | append_singleton xs x ih =>
    have hfewer : (xs.map Prod.snd).toFinset.card ≤ ((xs ++ [x]).map Prod.snd).toFinset.card :=
      Finset.card_le_card (Lru.toFinset_subset (List.map_subset _ (List.subset_append_left xs [x])))
    rw [after_append]
    refine (tracks_after st loops xs).oneJar ?_ (ih (Nat.lt_of_le_of_lt hfewer hroom))
    rw [← List.reverse_concat, List.map_reverse, List.toFinset_reverse]
    exact hroom

/-- After every call each cached client has the jar that is cached for its proxy,
exactly if fewer proxies are asked for than there is room for jars: the default
clients need one. -/
theorem oneJar_room_iff (st : Setting) (loops : Nat) (calls : List (Nat × String)) :
    (∀ before after, calls = before ++ after → OneJar ((init st loops).after before)) ↔
      (calls.map Prod.snd).toFinset.card < max st.SESSION_CACHE_SIZE 1 * max loops 1 := by
  constructor
  · intro h
    have ht := tracks_after st loops calls
    have hloops : 0 < max loops 1 := Nat.lt_of_lt_of_le Nat.zero_lt_one (Nat.le_max_right loops 1)
    have hdefault := (h calls [] (List.append_nil calls).symm).1 0 (by rw [ht.count]; exact hloops) 0 (ht.default 0 hloops)
    have hcapacity : 0 < max st.SESSION_CACHE_SIZE 1 * max loops 1 :=
      Nat.mul_pos (Nat.lt_of_lt_of_le Nat.zero_lt_one (Nat.le_max_right _ 1)) hloops
    have hcard := (ht.default_iff hcapacity).mp (List.mem_map_of_mem hdefault)
    rw [List.map_reverse, List.toFinset_reverse] at hcard
    exact hcard
  · rintro h before after rfl
    refine oneJar_after (Nat.lt_of_le_of_lt (Finset.card_le_card (Lru.toFinset_subset ?_)) h)
    exact List.map_subset _ (List.subset_append_left before after)

/-- With room for one jar, the first proxy takes the place of the jar of the
default client. -/
theorem default_jar_gone : ¬ OneJar ((init { SESSION_CACHE_SIZE := 1 } 1).after [(0, "http://10.0.0.1:8080")]) := by
  intro h
  exact absurd (h.1 0 (by decide) 0 (by decide)) (by decide)

end AsyncJars

end Netspy
