import Netspy.Framework.Assoc
import Netspy.Impl.RequestCookies

/-!
# Cookies of one account at a time

What a request carried at first stays in its `custom` under one key, through every copy
and every trip through JSON, since `from_dict` puts each entry where `__init__` would
(`lookup_of_fromDict`). So each attempt starts from the same cookies (`own_cookies`).
-/

namespace Netspy

open UserPoolMiddleware

/-! ## Dicts -/

theorem nodup_filter_keys {p : String × PyVal → Bool} {d : Dict} (h : (d.map Prod.fst).Nodup) :
    ((d.filter p).map Prod.fst).Nodup := h.sublist (List.filter_sublist.map _)

namespace UserPoolMiddleware

theorem lookup_setKey (d : Dict) (key : String) (value : PyVal) (k : String) :
    (setKey d key value).lookup k = if k = key then some value else d.lookup k := List.lookup_set key value d k

theorem nodup_setKey {d : Dict} (h : (d.map Prod.fst).Nodup) (key : String) (value : PyVal) :
    ((setKey d key value).map Prod.fst).Nodup := by
  unfold setKey
  split
  next hsome =>
    have hkeys : (d.map fun kv => if kv.1 = key then (key, value) else kv).map Prod.fst = d.map Prod.fst := by
      rw [List.map_map]
      refine List.map_congr_left fun kv _ => ?_
      dsimp only [Function.comp_apply]
      split
      next hk => exact hk.symm
      next => rfl
    rw [hkeys]
    exact h
  next hnone =>
    have hnot : key ∉ d.map Prod.fst := by
      intro hmem
      obtain ⟨kv, hkv, rfl⟩ := List.mem_map.mp hmem
      exact hnone (List.lookup_isSome_iff.mpr ⟨kv, hkv, beq_self_eq_true _⟩)
    rw [List.map_append, List.nodup_append]
    refine ⟨h, List.nodup_singleton key, fun k hk k' hk' => ?_⟩
    rw [List.mem_singleton.mp hk']
    rintro rfl
    exact hnot hk

end UserPoolMiddleware

/-! ## `from_dict` -/

section
variable {upper : String → String} {r : DecodedRequest}

theorem keywordsOf_entries (d : Dict) : keywordsOf (d.map fun kv => (.str kv.1, kv.2)) = .ok d := by
  induction d with
  | nil => rfl
  | cons kv d ih =>
    rw [List.map_cons, keywordsOf, ih]
    rfl

/-- Where `__init__` puts a keyword that is no parameter. -/
theorem lookup_of_init {url method : PyVal} {keywords : Dict} (h : DecodedRequest.init upper url method keywords = .ok r) :
    ((r.requestsKwargs.map Prod.fst).Nodup ∧ (r.custom.map Prod.fst).Nodup) ∧
      ∀ key, key ∉ parameters →
        r.requestsKwargs.lookup key = (if key ∈ httpKeys then keywords.lookup key else none) ∧
          r.custom.lookup key = if key ∈ httpKeys then none else keywords.lookup key := by
  unfold DecodedRequest.init at h
  by_cases hnodup : (["self", "url", "method"] ++ keywords.map Prod.fst).Nodup
  · simp only [hnodup] at h
    cases hupper : upperOf upper method with
    | error e =>
      rw [hupper] at h
      cases h
    | ok m =>
      rw [hupper] at h
      cases h
      have hkeys : (keywords.map Prod.fst).Nodup := (List.nodup_append.mp hnodup).2.1
      refine ⟨⟨nodup_filter_keys (nodup_filter_keys hkeys), nodup_filter_keys (nodup_filter_keys hkeys)⟩, fun key hkey => ?_⟩
      have hothers : (keywords.filter fun kv => kv.1 ∉ parameters).lookup key = keywords.lookup key :=
        (List.lookup_filter_of (p := fun k => decide (k ∉ parameters))).trans (if_pos (decide_eq_true hkey))
      constructor
      · refine (List.lookup_filter_of (p := fun k => decide (k ∈ httpKeys))).trans ?_
        rw [hothers]
        simp only [decide_eq_true_eq]
      · refine (List.lookup_filter_of (p := fun k => decide (k ∉ httpKeys))).trans ?_
        rw [hothers]
        by_cases hhttp : key ∈ httpKeys
        · simp [hhttp]
        · simp [hhttp]
  · simp only [hnodup] at h
    cases h

/-- `value or {}` of a dict. -/
theorem ofDict_or (d : Dict) :
    (if (Request.ofDict d).truthy then Request.ofDict d else .dict []) = Request.ofDict d := by
  cases d with
  | nil => rfl
  | cons kv d => rfl

/-- The keywords that have a name in `from_dict` are parameters. -/
theorem lookup_known {data : List (PyVal × PyVal)} {key : String} (h : key ∉ parameters) :
    ((("callback" :: serializable).filterMap fun k => (data.lookup (.str k)).map (k, ·)) : Dict).lookup key = none := by
  rw [List.lookup_eq_none_iff]
  intro kv hkv
  obtain ⟨k, hk, hkv⟩ := List.mem_filterMap.mp hkv
  obtain ⟨v, -, rfl⟩ := Option.map_eq_some_iff.mp hkv
  have hparam : k ∈ parameters := by
    rcases List.mem_cons.mp hk with rfl | hk
    · decide
    · exact List.mem_append_right _ hk
  simpa using fun he : key = k => h (he ▸ hparam)

/-- The keys that have a name in `from_dict` are looked up after the others are popped. -/
theorem lookup_popped (kvs : List (PyVal × PyVal)) {key : String} (h : key ∈ "callback" :: serializable) :
    ((((kvs.filter (·.1 ≠ .str "url")).filter (·.1 ≠ .str "method")).filter (·.1 ≠ .str "requests_kwargs")).filter
      (·.1 ≠ .str "custom")).lookup (.str key) = kvs.lookup (.str key) := by
  have hne : ∀ key ∈ "callback" :: serializable,
      key ≠ "url" ∧ key ≠ "method" ∧ key ≠ "requests_kwargs" ∧ key ≠ "custom" := by decide
  obtain ⟨hurl, hmethod, hrk, hcu⟩ := hne key h
  rw [List.lookup_filter_ne (by simpa using hcu), List.lookup_filter_ne (by simpa using hrk),
    List.lookup_filter_ne (by simpa using hmethod), List.lookup_filter_ne (by simpa using hurl)]

/-- What `from_dict` gives to `__init__`. -/
theorem fromDict_dict {kvs : List (PyVal × PyVal)} {url : PyVal} {requestsKwargs custom : Dict}
    (hurl : kvs.lookup (.str "url") = some url)
    (hrk : kvs.lookup (.str "requests_kwargs") = some (Request.ofDict requestsKwargs))
    (hcu : kvs.lookup (.str "custom") = some (Request.ofDict custom)) :
    fromDict upper (.dict kvs) =
      DecodedRequest.init upper url ((kvs.lookup (.str "method")).getD (.str "GET"))
        ((("callback" :: serializable).filterMap fun key =>
          (kvs.lookup (.str key)).map (key, ·)) ++ requestsKwargs ++ custom) := by
  have hmethod : (popItem (popItem kvs "url" .none).2 "method" (.str "GET")).1 =
      (kvs.lookup (.str "method")).getD (.str "GET") := by
    show ((kvs.filter (·.1 ≠ .str "url")).lookup (.str "method")).getD (.str "GET") = _
    rw [List.lookup_filter_ne (by simp)]
  have hrk' : (popItem (popItem (popItem kvs "url" .none).2 "method" (.str "GET")).2 "requests_kwargs" (.dict [])).1 =
      Request.ofDict requestsKwargs := by
    show (((kvs.filter (·.1 ≠ .str "url")).filter (·.1 ≠ .str "method")).lookup (.str "requests_kwargs")).getD _ = _
    rw [List.lookup_filter_ne (by simp), List.lookup_filter_ne (by simp), hrk]
    rfl
  have hcu' : (popItem (popItem (popItem (popItem kvs "url" .none).2 "method" (.str "GET")).2 "requests_kwargs"
      (.dict [])).2 "custom" (.dict [])).1 = Request.ofDict custom := by
    show ((((kvs.filter (·.1 ≠ .str "url")).filter (·.1 ≠ .str "method")).filter
      (·.1 ≠ .str "requests_kwargs")).lookup (.str "custom")).getD _ = _
    rw [List.lookup_filter_ne (by simp), List.lookup_filter_ne (by simp), List.lookup_filter_ne (by simp), hcu]
    rfl
  have hknown : ("callback" :: serializable).filterMap (fun key =>
      ((popItem (popItem (popItem (popItem kvs "url" .none).2 "method" (.str "GET")).2 "requests_kwargs" (.dict [])).2
        "custom" (.dict [])).2.lookup (.str key)).map (key, ·)) =
        ("callback" :: serializable).filterMap fun key => (kvs.lookup (.str key)).map (key, ·) :=
    List.filterMap_congr fun key hkey => by rw [← lookup_popped kvs hkey]; rfl
  unfold fromDict
  simp only [dictOf, bind, Except.bind, hurl]
  rw [hmethod, hrk', hcu', ofDict_or, ofDict_or]
  simp only [Request.ofDict, keywordsOf_entries, hknown]

/-- A `from_dict` of these two dicts gives what `__init__` makes of their entries. -/
theorem init_of_fromDict {kvs : List (PyVal × PyVal)} {requestsKwargs custom : Dict}
    (hrk : kvs.lookup (.str "requests_kwargs") = some (Request.ofDict requestsKwargs))
    (hcu : kvs.lookup (.str "custom") = some (Request.ofDict custom)) (h : fromDict upper (.dict kvs) = .ok r) :
    ∃ url method keywords, DecodedRequest.init upper url method keywords = .ok r ∧
      ∀ key, key ∉ parameters → keywords.lookup key = (requestsKwargs.lookup key).or (custom.lookup key) := by
  cases hurl : kvs.lookup (.str "url") with
  | none =>
    unfold fromDict at h
    simp only [dictOf, bind, Except.bind, hurl] at h
    cases h
  | some url =>
    rw [fromDict_dict hurl hrk hcu] at h
    refine ⟨url, _, _, h, fun key hkey => ?_⟩
    rw [List.lookup_append, List.lookup_append, lookup_known hkey, Option.none_or]

end

/-! ## JSON -/

section
variable {str : PyVal → String}

theorem lookup_entries (d : Dict) (key : String) :
    (d.map fun kv => ((.str kv.1, kv.2) : PyVal × PyVal)).lookup (.str key) = d.lookup key := by
  induction d with
  | nil => rfl
  | cons kv d ih =>
    rw [List.map_cons, List.lookup_cons, List.lookup_cons, ih]
    by_cases hk : key = kv.1
    · simp [hk]
    · have hb : (PyVal.str key == PyVal.str kv.1) = false := beq_eq_false_iff_ne.mpr fun he => hk (PyVal.str.inj he)
      simp only [hb, beq_eq_false_iff_ne.mpr hk]

/-- A dict that JSON has made of another one. -/
structure Reloads (str : PyVal → String) (d d' : Dict) : Prop where
  keys : d'.map Prod.fst = d.map Prod.fst
  of_none : ∀ key, d.lookup key = none → d'.lookup key = none
  of_some : ∀ key v, d.lookup key = some v → ∃ v', reloaded str v = .ok v' ∧ d'.lookup key = some v'

theorem reloadedPairs_entries {d : Dict} {ps : List (PyVal × PyVal)}
    (h : reloadedPairs str (d.map fun kv => (.str kv.1, kv.2)) = .ok ps) :
    ∃ d' : Dict, ps = d'.map (fun kv => (.str kv.1, kv.2)) ∧ Reloads str d d' := by
  induction d generalizing ps with
  | nil =>
    cases h
    exact ⟨[], rfl, rfl, fun _ h => h, fun _ _ h => by cases h⟩
  | cons kv d ih =>
    rw [List.map_cons, reloadedPairs] at h
    cases hv : reloaded str kv.2 with
    | error e =>
      simp only [hv, jsonKey, bind, Except.bind] at h
      cases h
    | ok v =>
      cases hrest : reloadedPairs str (d.map fun kv => (.str kv.1, kv.2)) with
      | error e =>
        simp only [hv, hrest, jsonKey, bind, Except.bind] at h
        cases h
      | ok rest =>
        simp only [hv, hrest, jsonKey, bind, Except.bind] at h
        cases h
        obtain ⟨d', rfl, hd⟩ := ih hrest
        refine ⟨(kv.1, v) :: d', rfl, ?_, fun key hnone => ?_, fun key w hsome => ?_⟩
        · rw [List.map_cons, List.map_cons, hd.keys]
        · rw [List.lookup_cons] at hnone ⊢
          cases hk : key == kv.1 with
          | true =>
            rw [hk] at hnone
            cases hnone
          | false =>
            rw [hk] at hnone
            exact hd.of_none key hnone
        · rw [List.lookup_cons] at hsome ⊢
          cases hk : key == kv.1 with
          | true =>
            rw [hk] at hsome
            cases hsome
            exact ⟨v, hv, rfl⟩
          | false =>
            rw [hk] at hsome
            exact hd.of_some key w hsome

/-- Distinct keys are set one after the other. -/
theorem foldl_setItem {acc ps : List (PyVal × PyVal)} (h : ((acc ++ ps).map Prod.fst).Nodup) :
    ps.foldl (fun d kv => PyVal.setItem d kv.1 kv.2) acc = acc ++ ps := by
  induction ps generalizing acc with
  | nil => rw [List.append_nil]; rfl
  | cons kv ps ih =>
    have hnew : (acc.lookup kv.1).isSome = false := by
      rw [List.map_append, List.nodup_append] at h
      by_contra hsome
      obtain ⟨p, hp, hk⟩ := List.lookup_isSome_iff.mp (Bool.not_eq_false _ ▸ hsome)
      exact h.2.2 p.1 (List.mem_map_of_mem hp) kv.1 List.mem_cons_self (eq_of_beq hk).symm
    rw [List.foldl_cons, PyVal.setItem, hnew, if_neg Bool.false_ne_true]
    have happ : acc ++ kv :: ps = (acc ++ [kv]) ++ ps := by simp
    rw [happ] at h ⊢
    exact ih h

theorem reloaded_ofDict {d : Dict} (hnodup : (d.map Prod.fst).Nodup) {v : PyVal}
    (h : reloaded str (Request.ofDict d) = .ok v) : ∃ d', v = Request.ofDict d' ∧ Reloads str d d' := by
  unfold Request.ofDict at h
  rw [reloaded] at h
  cases hps : reloadedPairs str (d.map fun kv => (.str kv.1, kv.2)) with
  | error e =>
    rw [hps] at h
    cases h
  | ok ps =>
    rw [hps] at h
    cases h
    obtain ⟨d', rfl, hd⟩ := reloadedPairs_entries hps
    have hkeys : ((d'.map fun kv => ((.str kv.1, kv.2) : PyVal × PyVal)).map Prod.fst).Nodup := by
      have hstr : (d'.map fun kv => ((.str kv.1, kv.2) : PyVal × PyVal)).map Prod.fst =
          (d'.map Prod.fst).map PyVal.str := by
        rw [List.map_map, List.map_map]
        rfl
      rw [hstr, hd.keys]
      exact hnodup.map fun _ _ => PyVal.str.inj
    refine ⟨d', ?_, hd⟩
    exact congrArg PyVal.dict (foldl_setItem (by simpa using hkeys))

theorem reloaded_scalar {v : PyVal} (h : v.isScalar) : reloaded str v = .ok v := by
  cases v with
  | none | bool _ | int _ | float _ | str _ => rfl
  | _ => cases h

theorem reloaded_falsy {v : PyVal} (h : v.truthy = false) : reloaded str v = .ok v := by
  cases v with
  | none | bool _ | int _ | float _ | str _ => rfl
  | list xs =>
    cases xs with
    | nil => rfl
    | cons x xs => cases h
  | dict kvs =>
    cases kvs with
    | nil => rfl
    | cons kv kvs => cases h
  | callable _ | obj _ => cases h

/-- A dict of cookies comes back as it was. -/
theorem reloaded_cookies (c : Cookies) : reloaded str (.dict c.entries) = .ok (.dict c.entries) := by
  have hpairs : ∀ d : Dict, (∀ kv ∈ d, kv.2.isScalar) →
      reloadedPairs str (d.map fun kv => (.str kv.1, kv.2)) = .ok (d.map fun kv => (.str kv.1, kv.2)) := by
    intro d hd
    induction d with
    | nil => rfl
    | cons kv d ih =>
      rw [List.map_cons, reloadedPairs, reloaded_scalar (hd kv List.mem_cons_self),
        ih fun other hother => hd other (List.mem_cons_of_mem kv hother)]
      rfl
  have hkeys : (c.entries.map Prod.fst).Nodup := by
    have hstr : c.entries.map Prod.fst = (c.items.map Prod.fst).map PyVal.str := by
      rw [Cookies.entries, List.map_map, List.map_map]
      rfl
    rw [hstr]
    exact c.nodup.map fun _ _ => PyVal.str.inj
  have hreloaded : reloadedPairs str c.entries = .ok c.entries := hpairs c.items c.scalar
  rw [reloaded, hreloaded]
  exact congrArg (fun kvs => Except.ok (PyVal.dict kvs)) (foldl_setItem (by simpa using hkeys))

theorem Cookies.Given.reloaded {c : Cookies} {v v' : PyVal} (h : c.Given v) (hv : reloaded str v = .ok v') : c.Given v' := by
  unfold Cookies.Given at h
  split at h
  next htruthy =>
    rw [h, reloaded_cookies] at hv
    cases hv
    exact (if_pos (h ▸ htruthy)).mpr rfl
  next hfalsy =>
    rw [reloaded_falsy (by simpa using hfalsy)] at hv
    cases hv
    exact (if_neg hfalsy).mpr h

end

/-! ## What is carried -/

theorem Reloads.given {str : PyVal → String} {c : Cookies} {d d' : Dict} (hd : Reloads str d d')
    (h : c.Given (d.get "cookies")) : c.Given (d'.get "cookies") := by
  unfold Dict.get at h ⊢
  cases hlookup : d.lookup "cookies" with
  | none =>
    rw [hd.of_none _ hlookup]
    rwa [hlookup] at h
  | some v =>
    obtain ⟨v', hv, hlookup'⟩ := hd.of_some _ _ hlookup
    rw [hlookup'] at ⊢
    rw [hlookup] at h
    exact h.reloaded hv

/-- A request that carries these cookies, before its first attempt or after. -/
structure Cookies.Carried (c : Cookies) (r : DecodedRequest) : Prop where
  dicts : (r.requestsKwargs.map Prod.fst).Nodup ∧ (r.custom.map Prod.fst).Nodup
  noBase : r.requestsKwargs.lookup baseCookiesKey = none
  noCookies : r.custom.lookup "cookies" = none
  own : r.custom.lookup baseCookiesKey = some (.dict c.entries) ∨
    r.custom.lookup baseCookiesKey = none ∧ c.Given (r.requestsKwargs.get "cookies")

section
variable {upper : String → String} {str : PyVal → String} {c : Cookies} {r r' : DecodedRequest}

theorem carried_of_init {url method : PyVal} {keywords : Dict}
    (h : DecodedRequest.init upper url method keywords = .ok r)
    (hown : keywords.lookup baseCookiesKey = some (.dict c.entries) ∨
      keywords.lookup baseCookiesKey = none ∧ c.Given (keywords.get "cookies")) : c.Carried r := by
  obtain ⟨hdicts, hlookup⟩ := lookup_of_init h
  obtain ⟨hbase, hcustom⟩ := hlookup baseCookiesKey (by decide)
  obtain ⟨hcookies, hnone⟩ := hlookup "cookies" (by decide)
  refine ⟨hdicts, hbase, hnone, ?_⟩
  have hcustom : r.custom.lookup baseCookiesKey = keywords.lookup baseCookiesKey := hcustom
  have hget : r.requestsKwargs.get "cookies" = keywords.get "cookies" :=
    congrArg (fun v : Option PyVal => v.getD .none) hcookies
  rw [hcustom, hget]
  exact hown

/-- What `from_dict` makes of dicts that carry the cookies. -/
theorem carried_of_fromDict {kvs : List (PyVal × PyVal)} {requestsKwargs custom : Dict}
    (hrk : kvs.lookup (.str "requests_kwargs") = some (Request.ofDict requestsKwargs))
    (hcu : kvs.lookup (.str "custom") = some (Request.ofDict custom)) (h : fromDict upper (.dict kvs) = .ok r)
    (hnoBase : requestsKwargs.lookup baseCookiesKey = none) (hnoCookies : custom.lookup "cookies" = none)
    (hown : custom.lookup baseCookiesKey = some (.dict c.entries) ∨
      custom.lookup baseCookiesKey = none ∧ c.Given (requestsKwargs.get "cookies")) : c.Carried r := by
  obtain ⟨url, method, keywords, hinit, hlookup⟩ := init_of_fromDict hrk hcu h
  apply carried_of_init hinit
  have hget : keywords.get "cookies" = requestsKwargs.get "cookies" := by
    unfold Dict.get
    rw [hlookup "cookies" (by decide), hnoCookies, Option.or_none]
  rw [hlookup baseCookiesKey (by decide), hnoBase, Option.none_or, hget]
  exact hown

theorem Cookies.Carried.copy (h : c.Carried r) (hcopy : r.copy upper = .ok r') : c.Carried r' := by
  unfold DecodedRequest.copy at hcopy
  cases hnew : fromDict upper (Request.ofDict r.toDict) with
  | error e =>
    rw [hnew] at hcopy
    cases hcopy
  | ok new =>
    rw [hnew] at hcopy
    have hcarried : c.Carried new :=
      carried_of_fromDict (lookup_entries r.toDict "requests_kwargs") (lookup_entries r.toDict "custom") hnew h.noBase
        h.noCookies h.own
    cases hcopy
    split
    · exact ⟨hcarried.dicts, hcarried.noBase, hcarried.noCookies, hcarried.own⟩
    · exact hcarried

theorem Cookies.Carried.requeued (h : c.Carried r) (hreq : r.requeued str upper = .ok r') : c.Carried r' := by
  unfold DecodedRequest.requeued at hreq
  cases hv : reloaded str (Request.ofDict r.toDict) with
  | error e =>
    rw [hv] at hreq
    cases hreq
  | ok v =>
    rw [hv] at hreq
    have hnodup : (r.toDict.map Prod.fst).Nodup := by simp [DecodedRequest.toDict]
    obtain ⟨d, rfl, hd⟩ := reloaded_ofDict hnodup hv
    obtain ⟨rk', hrk', hrkd⟩ := hd.of_some "requests_kwargs" _ rfl
    obtain ⟨cu', hcu', hcud⟩ := hd.of_some "custom" _ rfl
    obtain ⟨rk, rfl, hrk⟩ := reloaded_ofDict h.dicts.1 hrk'
    obtain ⟨cu, rfl, hcu⟩ := reloaded_ofDict h.dicts.2 hcu'
    apply carried_of_fromDict ((lookup_entries d _).trans hrkd) ((lookup_entries d _).trans hcud) hreq
      (hrk.of_none _ h.noBase) (hcu.of_none _ h.noCookies)
    rcases h.own with hset | ⟨hnone, hgiven⟩
    · obtain ⟨v, hv, hbase⟩ := hcu.of_some _ _ hset
      rw [reloaded_cookies] at hv
      cases hv
      exact .inl hbase
    · exact .inr ⟨hcu.of_none _ hnone, hrk.given hgiven⟩

/-! ## An attempt -/

theorem dictOf_given {v : PyVal} (h : c.Given v) : dictOf (if v.truthy then v else .dict []) = .ok c.entries := by
  unfold Cookies.Given at h
  split
  next htruthy =>
    rw [(if_pos htruthy).mp h]
    rfl
  next hfalsy =>
    have hitems : c.items = [] := (if_neg hfalsy).mp h
    rw [Cookies.entries, hitems]
    rfl

theorem baseOf_carried (h : c.Carried r) :
    ∃ custom, baseOf r.requestsKwargs r.custom = .ok (c.entries, custom) ∧
      c.Carried { r with custom } ∧ custom.lookup baseCookiesKey = some (.dict c.entries) := by
  rcases h.own with hset | ⟨hnone, hgiven⟩
  · have hget : r.custom.get baseCookiesKey = .dict c.entries := by rw [Dict.get, hset]; rfl
    refine ⟨r.custom, ?_, h, hset⟩
    unfold baseOf
    rw [hget]
    rfl
  · have hget : r.custom.get baseCookiesKey = .none := by rw [Dict.get, hnone]; rfl
    have hlookup : (setKey r.custom baseCookiesKey (.dict c.entries)).lookup baseCookiesKey = some (.dict c.entries) :=
      (lookup_setKey _ _ _ _).trans (if_pos rfl)
    refine ⟨setKey r.custom baseCookiesKey (.dict c.entries), ?_,
        ⟨⟨h.dicts.1, nodup_setKey h.dicts.2 _ _⟩, h.noBase, ?_, .inl hlookup⟩, hlookup⟩
    · unfold baseOf
      rw [hget]
      dsimp only
      rw [dictOf_given hgiven]
      rfl
    · exact (lookup_setKey _ _ _ _).trans ((if_neg (by decide)).trans h.noCookies)

theorem lookup_withCookies (d : Dict) (cookies : List (PyVal × PyVal)) :
    (withCookies d cookies).lookup "cookies" = if cookies = [] then none else some (.dict cookies) := by
  unfold withCookies
  split
  · exact (List.lookup_filter_of (p := fun k => decide (k ≠ "cookies"))).trans (if_neg (by decide))
  · exact (lookup_setKey _ _ _ _).trans (if_pos rfl)

theorem carried_withCookies (h : c.Carried r) (hbase : r.custom.lookup baseCookiesKey = some (.dict c.entries))
    (cookies : List (PyVal × PyVal)) : c.Carried { r with requestsKwargs := withCookies r.requestsKwargs cookies } := by
  have hnodup : ((withCookies r.requestsKwargs cookies).map Prod.fst).Nodup := by
    unfold withCookies
    split
    · exact nodup_filter_keys h.dicts.1
    · exact nodup_setKey h.dicts.1 _ _
  refine ⟨⟨hnodup, h.dicts.2⟩, ?_, h.noCookies, .inl hbase⟩
  show (withCookies r.requestsKwargs cookies).lookup baseCookiesKey = none
  unfold withCookies
  split
  · exact (List.lookup_filter_of (p := fun k => decide (k ≠ "cookies"))).trans ((if_pos (by decide)).trans h.noBase)
  · exact (lookup_setKey _ _ _ _).trans ((if_neg (by decide)).trans h.noBase)

theorem merged_overlaid {user : User} {cookies : List (PyVal × PyVal)}
    (h : merged c.entries user.cookies = .ok cookies) : cookies = c.overlaid (some user) := by
  obtain ⟨username, value⟩ := user
  cases value with
  | dict kvs =>
    cases h
    rfl
  | _ => cases h

end

namespace Attempts

variable {st : Setting} {str : PyVal → String} {upper : String → String} {c : Cookies} {s t : Attempts}

/-- What is so between the steps. -/
structure Inv (c : Cookies) (s : Attempts) : Prop where
  carried : c.Carried s.request
  user : ∀ account, s.sent = some account → s.user = account
  cookies : ∀ account, s.sent = some account →
    s.request.requestsKwargs.lookup "cookies" =
      if c.overlaid account = [] then none else some (.dict (c.overlaid account))
  reports : ∀ report ∈ s.reports, report.2 = some report.1

/-- Between attempts only what the request carries matters. -/
theorem Inv.unsent (h : c.Carried s.request) (hsent : s.sent = none)
    (hreports : ∀ report ∈ s.reports, report.2 = some report.1) :
    Inv c s where
  carried := h
  user account hs := by rw [hsent] at hs; cases hs
  cookies account hs := by rw [hsent] at hs; cases hs
  reports := hreports

theorem processRequest_inv (h : Inv c s) (account : Option User) : Inv c (s.processRequest st account) := by
  obtain ⟨custom, hbase, hcarried, hcustom⟩ := baseOf_carried h.carried
  unfold processRequest
  rw [hbase]
  dsimp only
  have hunsent : Inv c { s with request := { s.request with custom }, user := none, sent := none } :=
    Inv.unsent hcarried rfl h.reports
  cases account with
  | none =>
    dsimp only
    split
    next =>
      refine ⟨carried_withCookies hcarried hcustom c.entries, fun account hs => ?_, fun account hs => ?_, h.reports⟩
      · cases hs
        rfl
      · cases hs
        exact lookup_withCookies _ _
    next => exact hunsent
  | some user =>
    dsimp only
    cases hmerged : merged c.entries user.cookies with
    | error e => exact hunsent
    | ok cookies =>
      rw [merged_overlaid hmerged]
      refine ⟨carried_withCookies hcarried hcustom _, fun account hs => ?_, fun account hs => ?_, h.reports⟩
      · cases hs
        rfl
      · cases hs
        exact lookup_withCookies _ _

/-- The copy for the next attempt carries the cookies too. -/
theorem loginRetry_carried {r r' : DecodedRequest} (h : c.Carried r) (hretry : loginRetry upper r = .ok r') :
    c.Carried r' := by
  unfold loginRetry at hretry
  cases hcopy : r.copy upper with
  | error e =>
    rw [hcopy] at hretry
    cases hretry
  | ok copy =>
    obtain ⟨custom, hbase, hcarried, hcustom⟩ := baseOf_carried (h.copy hcopy)
    rw [hcopy] at hretry
    simp only [bind, Except.bind, hbase] at hretry
    cases hretry
    have hset := carried_withCookies hcarried hcustom c.entries
    exact ⟨hset.dicts, hset.noBase, hset.noCookies, hset.own⟩

theorem processResponse_inv (h : Inv c s) {account : Option User} (hsent : s.sent = some account) (loggedIn : Bool) :
    Inv c (s.processResponse upper account loggedIn) := by
  have hreports : ∀ report ∈ s.reports ++ s.user.toList.map (·, account), report.2 = some report.1 := by
    intro report hreport
    rcases List.mem_append.mp hreport with hreport | hreport
    · exact h.reports report hreport
    · obtain ⟨user, huser, rfl⟩ := List.mem_map.mp hreport
      rw [← h.user account hsent]
      exact Option.mem_toList.mp huser
  unfold processResponse
  dsimp only
  split
  next => exact Inv.unsent h.carried rfl hreports
  next =>
    split
    next => exact Inv.unsent h.carried rfl hreports
    next request hretry => exact Inv.unsent (loginRetry_carried h.carried hretry) rfl hreports

theorem retry_carried {r r' : DecodedRequest} (h : c.Carried r) (hleaves : LeavesCookies r r') : c.Carried r' := by
  obtain ⟨hdicts, hsame⟩ := hleaves
  obtain ⟨hcookies, hnoCookies⟩ := hsame "cookies" (by simp)
  obtain ⟨hnoBase, hbase⟩ := hsame baseCookiesKey (by simp)
  refine ⟨hdicts, hnoBase.trans h.noBase, hnoCookies.trans h.noCookies, ?_⟩
  unfold Dict.get
  rw [hbase, hcookies]
  exact h.own

theorem step_inv (h : Inv c s) {a : AttemptAct} (hstep : s.step st str upper a = some t) : Inv c t := by
  cases a with
  | processRequest account =>
    cases hstep
    exact processRequest_inv h account
  | processResponse loggedIn =>
    obtain ⟨account, hsent, rfl⟩ := Option.map_eq_some_iff.mp hstep
    exact processResponse_inv h hsent loggedIn
  | retry r =>
    simp only [step] at hstep
    split at hstep
    next hleaves =>
      cases hstep
      exact Inv.unsent (retry_carried h.carried hleaves) rfl h.reports
    next => cases hstep
  | requeue =>
    obtain ⟨request, hreq, rfl⟩ := Option.map_eq_some_iff.mp hstep
    have hok : s.request.requeued str upper = .ok request := by
      cases hr : s.request.requeued str upper with
      | error e => rw [hr] at hreq; cases hreq
      | ok r => rw [hr] at hreq; cases hreq; rfl
    exact Inv.unsent (h.carried.requeued hok) rfl h.reports

/-- After a `process_request` that returned, the request has its own cookies with those of
the account of this attempt over them, and no others; and no other account is ever
reported. -/
theorem own_cookies (h : (machine st str upper c).Reachable s) :
    (∀ account, s.sent = some account →
      s.request.requestsKwargs.lookup "cookies" =
        if c.overlaid account = [] then none else some (.dict (c.overlaid account))) ∧
      ∀ report ∈ s.reports, report.2 = some report.1 := by
  have hinv : Inv c s := by
    apply h.induct
    · intro s ⟨url, method, keywords, hinit, hgiven, hnone, hs⟩
      rw [hs]
      exact Inv.unsent (carried_of_init hinit (.inr ⟨hnone, hgiven⟩)) rfl fun _ hr => absurd hr List.not_mem_nil
    · intro s a t hs _ hstep
      exact step_inv hs hstep
  exact ⟨hinv.cookies, hinv.reports⟩

/-- A request with a cookie of its own. -/
def langRequest : DecodedRequest where
  url := .str "u"
  method := "GET"
  callback := .none
  priority := .int 300
  retryTimes := .int 0
  filterRepeat := .bool true
  autoRequest := .bool true
  useSession := .none
  randomUserAgent := .none
  impersonate := .none
  render := .bool false
  renderTime := .none
  waitFor := .none
  downloadMidware := .none
  parserName := .none
  cbKwargs := .dict []
  requestsKwargs := [("cookies", .dict [(.str "lang", .str "zh")])]
  custom := []

def langCookies : Cookies where
  items := [("lang", .str "zh")]
  nodup := by decide
  scalar := by decide

def alice : User := ⟨"alice", .dict [(.str "sid", .str "ALICE"), (.str "device", .str "ALICE-PHONE")]⟩

def bob : User := ⟨"bob", .dict [(.str "sid", .str "BOB")]⟩

/-- The login of alice fails, and the request goes to another node, where bob is next. -/
theorem own_cookies_switch :
    ∃ s, (machine {} (fun _ => "") id langCookies).exec { request := langRequest }
        [.processRequest (some alice), .processResponse false, .requeue, .processRequest (some bob)] = some s ∧
      s.request.requestsKwargs.lookup "cookies" = some (.dict [(.str "lang", .str "zh"), (.str "sid", .str "BOB")]) ∧
      s.reports ≠ [] ∧ ∀ report ∈ s.reports, report.2 = some report.1 := by
  have hrun : ((machine {} (fun _ => "") id langCookies).exec { request := langRequest }
      [.processRequest (some alice), .processResponse false, .requeue, .processRequest (some bob)]).map
        (fun s => (s.sent, s.reports)) = some (some (some bob), [(alice, some alice)]) := by decide +kernel
  obtain ⟨s, hs, hsent⟩ := Option.map_eq_some_iff.mp hrun
  have hstart : (machine {} (fun _ => "") id langCookies).start { request := langRequest } :=
    ⟨.str "u", .str "GET", [("cookies", .dict [(.str "lang", .str "zh")])], rfl, rfl, rfl, rfl⟩
  have hown := own_cookies (Machine.Reachable.exec (.start hstart) hs)
  refine ⟨s, hs, ?_, ?_, hown.2⟩
  · exact (hown.1 (some bob) (congrArg Prod.fst hsent)).trans (by decide)
  · rw [show s.reports = _ from congrArg Prod.snd hsent]
    exact List.cons_ne_nil _ _

end Attempts

end Netspy
