import Netspy.Framework.Json.RoundTrip
import Netspy.Impl.RequestTrips
import Netspy.Proof.RequestCookies

/-!
# A request survives the queue

A request that JSON can hold comes back as itself (`Sound.roundTrip`): its text reads as
the dict it was written from, `from_dict` sorts the names of the three dicts as
`__init__` did, since no name is in two of them, and what `__init__` does to a value it
does once. Changes to what a retry changes leave it so (`survives`).
-/

namespace Netspy

/-! ## JSON -/

section
variable {str : PyVal → String}

mutual

theorem encoded_toPy : ∀ j : Json, encoded str (toPy j) = .ok j
  | .null => rfl
  | .bool _ => rfl
  | .int _ => rfl
  | .float _ => rfl
  | .str _ => rfl
  | .arr vs => by
    rw [toPy, encoded, encodedList_toPy vs]
    rfl
  | .obj kvs => by
    rw [toPy, encoded, encodedPairs_toPy kvs]
    rfl

theorem encodedList_toPy : ∀ vs : List Json, encodedList str (toPyList vs) = .ok vs
  | [] => rfl
  | v :: vs => by
    rw [toPyList, encodedList, encoded_toPy v, encodedList_toPy vs]
    rfl

theorem encodedPairs_toPy : ∀ kvs : List (String × Json), encodedPairs str (toPyPairs kvs) = .ok kvs
  | [] => rfl
  | (k, v) :: kvs => by
    rw [toPyPairs, encodedPairs, encoded_toPy v, encodedPairs_toPy kvs]
    rfl

end

/-- A JSON value comes back from its text. -/
theorem loadsJson_dumpsJson (v : JsonValue) : (dumpsJson str v.value).bind loadsJson = .ok v.value := by
  have htext : dumpsJson str v.value = .ok (Json.dumps v.json) := by
    unfold dumpsJson JsonValue.value
    rw [encoded_toPy]
    rfl
  rw [htext, Except.bind, loadsJson, Json.loads_dumps v.wf]
  rfl

theorem map_fst_toPyPairs (kvs : List (String × Json)) : (toPyPairs kvs).map Prod.fst = (kvs.map Prod.fst).map .str := by
  induction kvs with
  | nil => rfl
  | cons kv kvs ih =>
    rw [toPyPairs, List.map_cons, ih]
    rfl

mutual

/-- `reloaded` is the same trip without its text. -/
theorem reloaded_toPy : ∀ j : Json, j.WF → reloaded str (toPy j) = .ok (toPy j)
  | .null, _ => rfl
  | .bool _, _ => rfl
  | .int _, _ => rfl
  | .float _, _ => rfl
  | .str _, _ => rfl
  | .arr vs, h => by
    rw [toPy, reloaded, reloadedList_toPy vs h]
    rfl
  | .obj kvs, h => by
    have hkeys : (([] ++ toPyPairs kvs).map Prod.fst).Nodup := by
      rw [List.nil_append, map_fst_toPyPairs]
      exact h.1.map fun _ _ he => PyVal.str.inj he
    rw [toPy, reloaded, reloadedPairs_toPy kvs h.2]
    exact congrArg (fun d => Except.ok (PyVal.dict d)) (foldl_setItem hkeys)

theorem reloadedList_toPy : ∀ vs : List Json, Json.WFElems vs → reloadedList str (toPyList vs) = .ok (toPyList vs)
  | [], _ => rfl
  | v :: vs, h => by
    rw [toPyList, reloadedList, reloaded_toPy v h.1, reloadedList_toPy vs h.2]
    rfl

theorem reloadedPairs_toPy : ∀ kvs : List (String × Json), Json.WFMembers kvs →
    reloadedPairs str (toPyPairs kvs) = .ok (toPyPairs kvs)
  | [], _ => rfl
  | (k, v) :: kvs, h => by
    rw [toPyPairs, reloadedPairs, reloaded_toPy v h.1, reloadedPairs_toPy kvs h.2]
    rfl

end

/-- A dict of JSON values is one. -/
theorem exists_members {d : Dict} (h : ∀ kv ∈ d, ∃ v : JsonValue, v.value = kv.2) :
    ∃ kvs : List (String × Json), Json.WFMembers kvs ∧ kvs.map Prod.fst = d.map Prod.fst ∧
      toPyPairs kvs = d.map fun kv => (.str kv.1, kv.2) := by
  induction d with
  | nil => exact ⟨[], trivial, rfl, rfl⟩
  | cons kv d ih =>
    obtain ⟨v, hv⟩ := h kv List.mem_cons_self
    obtain ⟨kvs, hwf, hkeys, hpairs⟩ := ih fun kv' hkv' => h kv' (List.mem_cons_of_mem kv hkv')
    refine ⟨(kv.1, v.json) :: kvs, ⟨v.wf, hwf⟩, ?_, ?_⟩
    · rw [List.map_cons, List.map_cons, hkeys]
    · have hv : toPy v.json = kv.2 := hv
      rw [toPyPairs, hpairs, hv]
      rfl

theorem exists_str (text : String) : ∃ v : JsonValue, v.value = .str text := ⟨⟨.str text, trivial⟩, rfl⟩

theorem exists_none : ∃ v : JsonValue, v.value = .none := ⟨⟨.null, trivial⟩, rfl⟩

theorem exists_bool (b : Bool) : ∃ v : JsonValue, v.value = .bool b := ⟨⟨.bool b, trivial⟩, rfl⟩

theorem exists_int (n : Int) : ∃ v : JsonValue, v.value = .int n := ⟨⟨.int n, trivial⟩, rfl⟩

end

open UserPoolMiddleware

theorem mem_setKey {d : Dict} {key : String} {value : PyVal} {kv : String × PyVal} (h : kv ∈ setKey d key value) :
    kv = (key, value) ∨ kv ∈ d := by
  unfold setKey at h
  split at h
  · obtain ⟨kv', hkv', he⟩ := List.mem_map.mp h
    split at he
    · exact .inl he.symm
    · exact .inr (he ▸ hkv')
  · rcases List.mem_append.mp h with h | h
    · exact .inr h
    · exact .inl (List.mem_singleton.mp h)

/-- A dict of JSON values under names of one kind. -/
structure JsonEntries (name : String → Prop) (d : Dict) : Prop where
  nodup : (d.map Prod.fst).Nodup
  names : ∀ kv ∈ d, name kv.1
  json : ∀ kv ∈ d, ∃ v : JsonValue, v.value = kv.2

namespace JsonEntries

variable {name : String → Prop} {d : Dict}

theorem exists_ofDict (h : JsonEntries name d) : ∃ v : JsonValue, v.value = Request.ofDict d := by
  obtain ⟨kvs, hwf, hkeys, hpairs⟩ := exists_members h.json
  exact ⟨⟨.obj kvs, hkeys ▸ h.nodup, hwf⟩, congrArg PyVal.dict hpairs⟩

theorem setKey (h : JsonEntries name d) (key : String) (hkey : name key) {value : PyVal}
    (hvalue : ∃ v : JsonValue, v.value = value) : JsonEntries name (setKey d key value) where
  nodup := nodup_setKey h.nodup key value
  names kv hkv := by
    rcases mem_setKey hkv with rfl | hkv
    · exact hkey
    · exact h.names kv hkv
  json kv hkv := by
    rcases mem_setKey hkv with rfl | hkv
    · exact hvalue
    · exact h.json kv hkv

theorem filter (h : JsonEntries name d) (p : String × PyVal → Bool) : JsonEntries name (d.filter p) where
  nodup := nodup_filter_keys h.nodup
  names kv hkv := h.names kv (List.mem_of_mem_filter hkv)
  json kv hkv := h.json kv (List.mem_of_mem_filter hkv)

end JsonEntries

namespace RequestTrips

variable {str : PyVal → String} {upper : String → String} {r r' : DecodedRequest}

/-! ## What comes back -/

/-- A request that JSON can hold, with each name in its place. -/
structure Sound (upper : String → String) (r : DecodedRequest) : Prop where
  url : ∃ text, r.url = .str text
  method : upper r.method = r.method
  callback : r.callback = .none ∨ ∃ name, r.callback = .str name
  leaseToken : r.leaseToken = none
  cbKwargs : (if r.cbKwargs.truthy then r.cbKwargs else .dict []) = r.cbKwargs
  http : JsonEntries (· ∈ httpKeys) r.requestsKwargs
  custom : JsonEntries (fun key => key ∉ httpKeys ∧ key ∉ parameters) r.custom
  entries : JsonEntries (fun _ => True) r.toDict

/-- The keyword arguments that `from_dict` finds. -/
def knownOf (r : DecodedRequest) : Dict :=
  ("callback" :: serializable).filterMap fun key => (r.toDict.lookup key).map (key, ·)

theorem fromDict_toDict (r : DecodedRequest) : fromDict upper (Request.ofDict r.toDict) =
    DecodedRequest.init upper r.url (.str r.method) (knownOf r ++ r.requestsKwargs ++ r.custom) := by
  have hlookup (key : String) := lookup_entries r.toDict key
  refine (fromDict_dict (hlookup "url") (hlookup "requests_kwargs") (hlookup "custom")).trans ?_
  simp only [hlookup]
  rfl

/-- The names that `from_dict` gives to `__init__`: no name is given twice. -/
theorem Sound.nodup_keywords (h : Sound upper r) :
    (["self", "url", "method"] ++ (knownOf r ++ r.requestsKwargs ++ r.custom).map Prod.fst).Nodup := by
  have hparameters : ∀ key ∈ ["self", "url", "method"] ++ "callback" :: serializable, key ∈ parameters := by decide
  have hdisjoint : ∀ key ∈ httpKeys, key ∉ ["self", "url", "method"] ++ "callback" :: serializable := by decide
  have hknown : (knownOf r).map Prod.fst = "callback" :: serializable := rfl
  rw [List.map_append, List.map_append, hknown, ← List.append_assoc, ← List.append_assoc, List.nodup_append,
    List.nodup_append]
  refine ⟨⟨by decide, h.http.nodup, fun key hkey key' hkey' => ?_⟩, h.custom.nodup, fun key hkey key' hkey' => ?_⟩
  · obtain ⟨kv, hkv, rfl⟩ := List.mem_map.mp hkey'
    rintro rfl
    exact hdisjoint kv.1 (h.http.names kv hkv) hkey
  · obtain ⟨kv, hkv, rfl⟩ := List.mem_map.mp hkey'
    rintro rfl
    rcases List.mem_append.mp hkey with hkey | hkey
    · exact (h.custom.names kv hkv).2 (hparameters kv.1 hkey)
    · obtain ⟨kv', hkv', he⟩ := List.mem_map.mp hkey
      exact (h.custom.names kv hkv).1 (he ▸ h.http.names kv' hkv')

/-- The keyword arguments that are no parameters. -/
theorem Sound.others (h : Sound upper r) :
    (knownOf r ++ r.requestsKwargs ++ r.custom).filter (fun kv => kv.1 ∉ parameters) = r.requestsKwargs ++ r.custom := by
  have hknown : (knownOf r).filter (fun kv => kv.1 ∉ parameters) = [] := rfl
  have hhttp : ∀ key ∈ httpKeys, key ∉ parameters := by decide
  rw [List.append_assoc, List.filter_append, hknown, List.nil_append, List.filter_eq_self]
  intro kv hkv
  rcases List.mem_append.mp hkv with hkv | hkv
  · exact decide_eq_true (hhttp kv.1 (h.http.names kv hkv))
  · exact decide_eq_true (h.custom.names kv hkv).2

theorem Sound.requestsKwargs (h : Sound upper r) :
    (r.requestsKwargs ++ r.custom).filter (fun kv => kv.1 ∈ httpKeys) = r.requestsKwargs := by
  have hhttp : r.requestsKwargs.filter (fun kv => kv.1 ∈ httpKeys) = r.requestsKwargs :=
    List.filter_eq_self.mpr fun kv hkv => decide_eq_true (h.http.names kv hkv)
  have hcustom : r.custom.filter (fun kv => kv.1 ∈ httpKeys) = [] :=
    List.filter_eq_nil_iff.mpr fun kv hkv => by simpa using (h.custom.names kv hkv).1
  rw [List.filter_append, hhttp, hcustom, List.append_nil]

theorem Sound.customs (h : Sound upper r) :
    (r.requestsKwargs ++ r.custom).filter (fun kv => kv.1 ∉ httpKeys) = r.custom := by
  have hhttp : r.requestsKwargs.filter (fun kv => kv.1 ∉ httpKeys) = [] :=
    List.filter_eq_nil_iff.mpr fun kv hkv => by simpa using h.http.names kv hkv
  have hcustom : r.custom.filter (fun kv => kv.1 ∉ httpKeys) = r.custom :=
    List.filter_eq_self.mpr fun kv hkv => decide_eq_true (h.custom.names kv hkv).1
  rw [List.filter_append, hhttp, hcustom, List.nil_append]

theorem Sound.callbackName (h : Sound upper r) : r.callbackName = r.callback := by
  unfold DecodedRequest.callbackName
  rcases h.callback with hnone | ⟨name, hname⟩
  · rw [hnone]
  · rw [hname]

theorem init_toDict (h : Sound upper r) :
    DecodedRequest.init upper r.url (.str r.method) (knownOf r ++ r.requestsKwargs ++ r.custom) = .ok r := by
  have hinit : DecodedRequest.init upper r.url (.str r.method) (knownOf r ++ r.requestsKwargs ++ r.custom) =
      .ok { r with
        method := upper r.method
        callback := r.callbackName
        leaseToken := none
        cbKwargs := if r.cbKwargs.truthy then r.cbKwargs else .dict []
        requestsKwargs := (r.requestsKwargs ++ r.custom).filter fun kv => kv.1 ∈ httpKeys
        custom := (r.requestsKwargs ++ r.custom).filter fun kv => kv.1 ∉ httpKeys } := by
    unfold DecodedRequest.init
    simp only [h.nodup_keywords, h.others]
    rfl
  rw [hinit, h.method, h.callbackName, h.cbKwargs, h.requestsKwargs, h.customs, ← h.leaseToken]

/-- A request that JSON can hold comes back as itself. -/
theorem Sound.roundTrip (h : Sound upper r) : r.roundTrip str upper = .ok r := by
  obtain ⟨v, hv⟩ := h.entries.exists_ofDict
  have htrip : (dumpsJson str v.value).bind loadsJson = .ok v.value := loadsJson_dumpsJson v
  rw [hv] at htrip
  unfold DecodedRequest.roundTrip
  cases htext : dumpsJson str (Request.ofDict r.toDict) with
  | error e =>
    rw [htext] at htrip
    cases htrip
  | ok text =>
    rw [htext] at htrip
    have htrip : loadsJson text = .ok (Request.ofDict r.toDict) := htrip
    simp only [bind, Except.bind, htrip]
    rw [fromDict_toDict, init_toDict h]

theorem Sound.step_roundTrip (h : Sound upper r) : (machine str upper).step r .roundTrip = some r := by
  show (r.roundTrip str upper).toOption = some r
  rw [h.roundTrip]
  rfl

/-- Without the text it is the same trip. -/
theorem Sound.requeued (h : Sound upper r) : r.requeued str upper = r.roundTrip str upper := by
  obtain ⟨v, hv⟩ := h.entries.exists_ofDict
  have hreload : reloaded str v.value = .ok v.value := reloaded_toPy v.json v.wf
  rw [hv] at hreload
  rw [h.roundTrip, DecodedRequest.requeued, hreload]
  exact (fromDict_toDict r).trans (init_toDict h)

/-! ## What is changed -/

/-- What `__init__` does to `cb_kwargs` it does once. -/
theorem orDict_orDict (v : PyVal) :
    (if (if v.truthy then v else .dict []).truthy then if v.truthy then v else .dict [] else .dict []) =
      if v.truthy then v else .dict [] := by
  by_cases h : v.truthy
  · simp only [h, if_true]
  · simp only [h]
    rfl

/-- What `__init__` makes of names and values that JSON keeps. -/
theorem sound_of_init (hupper : ∀ text, upper (upper text) = upper text) {url method : String} {keywords : Dict}
    (hkeywords : Serialisable keywords) (h : DecodedRequest.init upper (.str url) (.str method) keywords = .ok r) :
    Sound upper r := by
  obtain ⟨⟨hhttp, hcustom⟩, -⟩ := lookup_of_init h
  have hmem {name : String} {value : PyVal} (hlookup : keywords.lookup name = some value) : (name, value) ∈ keywords := by
    obtain ⟨xs, ys, rfl, -⟩ := List.lookup_eq_some_iff.mp hlookup
    exact List.mem_append_right xs List.mem_cons_self
  have harg (name : String) (hname : name ≠ "render_script") {default : PyVal}
      (hdefault : ∃ v : JsonValue, v.value = default) :
      ∃ v : JsonValue, v.value = (keywords.lookup name).getD default := by
    cases hlookup : keywords.lookup name with
    | none => exact hdefault
    | some value => exact hkeywords.json (name, value) (hmem hlookup) hname
  have hcallback : (keywords.lookup "callback").getD .none = .none ∨
      ∃ name, (keywords.lookup "callback").getD .none = .str name := by
    cases hlookup : keywords.lookup "callback" with
    | none => exact .inl rfl
    | some value => exact hkeywords.callback value (hmem hlookup)
  have hother : ∀ kv ∈ keywords.filter (fun kv => kv.1 ∉ parameters),
      kv.1 ∉ parameters ∧ ∃ v : JsonValue, v.value = kv.2 := by
    intro kv hkv
    obtain ⟨hkv, hname⟩ := List.mem_filter.mp hkv
    have hname : kv.1 ∉ parameters := of_decide_eq_true hname
    have hrender : "render_script" ∈ parameters := by decide
    exact ⟨hname, hkeywords.json kv hkv fun he => hname (he ▸ hrender)⟩
  unfold DecodedRequest.init at h
  by_cases hnodup : (["self", "url", "method"] ++ keywords.map Prod.fst).Nodup
  · simp only [hnodup] at h
    cases h
    have hhttp : JsonEntries (· ∈ httpKeys)
        ((keywords.filter fun kv => kv.1 ∉ parameters).filter fun kv => kv.1 ∈ httpKeys) :=
      ⟨hhttp, fun kv hkv => of_decide_eq_true (List.mem_filter.mp hkv).2,
        fun kv hkv => (hother kv (List.mem_of_mem_filter hkv)).2⟩
    have hcustom : JsonEntries (fun key => key ∉ httpKeys ∧ key ∉ parameters)
        ((keywords.filter fun kv => kv.1 ∉ parameters).filter fun kv => kv.1 ∉ httpKeys) :=
      ⟨hcustom, fun kv hkv => ⟨of_decide_eq_true (List.mem_filter.mp hkv).2, (hother kv (List.mem_of_mem_filter hkv)).1⟩,
        fun kv hkv => (hother kv (List.mem_of_mem_filter hkv)).2⟩
    have hcbKwargs (v : PyVal) (hv : ∃ j : JsonValue, j.value = v) :
        ∃ j : JsonValue, j.value = if v.truthy then v else .dict [] := by
      split
      · exact hv
      · exact ⟨⟨.obj [], List.nodup_nil, trivial⟩, rfl⟩
    refine ⟨⟨url, rfl⟩, hupper method, hcallback, rfl, orDict_orDict _, hhttp, hcustom,
      by simp [DecodedRequest.toDict], fun _ _ => trivial, ?_⟩
    simp only [DecodedRequest.toDict, List.forall_mem_cons]
    refine ⟨exists_str url, exists_str (upper method), ?_, harg "priority" (by decide) (exists_int 300),
      harg "retry_times" (by decide) (exists_int 0), harg "filter_repeat" (by decide) (exists_bool true),
      harg "auto_request" (by decide) (exists_bool true), harg "use_session" (by decide) exists_none,
      harg "random_user_agent" (by decide) exists_none, harg "impersonate" (by decide) exists_none,
      harg "render" (by decide) (exists_bool false), harg "render_time" (by decide) exists_none,
      harg "wait_for" (by decide) exists_none, harg "download_midware" (by decide) exists_none,
      harg "parser_name" (by decide) exists_none, hcbKwargs _ (harg "cb_kwargs" (by decide) exists_none),
      hhttp.exists_ofDict, hcustom.exists_ofDict, fun _ hkv => absurd hkv List.not_mem_nil⟩
    unfold DecodedRequest.callbackName
    rcases hcallback with hnone | ⟨name, hname⟩
    · simp only [hnone]
      exact exists_none
    · simp only [hname]
      exact exists_str name
  · simp only [hnodup] at h
    cases h

theorem Sound.step (h : Sound upper r) {a : TripAct} (hstep : (machine str upper).step r a = some r') : Sound upper r' := by
  cases a with
  | retryTimes n =>
    cases hstep
    exact { h with entries := h.entries.setKey "retry_times" trivial (exists_int n) }
  | filterRepeat b =>
    cases hstep
    exact { h with entries := h.entries.setKey "filter_repeat" trivial (exists_bool b) }
  | cookies v =>
    cases hstep
    have hhttp := h.http.setKey "cookies" (by decide) ⟨v, rfl⟩
    exact { h with http := hhttp, entries := h.entries.setKey "requests_kwargs" trivial hhttp.exists_ofDict }
  | noCookies =>
    cases hstep
    have hhttp := h.http.filter fun kv => kv.1 ≠ "cookies"
    exact { h with http := hhttp, entries := h.entries.setKey "requests_kwargs" trivial hhttp.exists_ofDict }
  | baseCookies v =>
    cases hstep
    have hcustom := h.custom.setKey baseCookiesKey (by decide) ⟨v, rfl⟩
    exact { h with custom := hcustom, entries := h.entries.setKey "custom" trivial hcustom.exists_ofDict }
  | roundTrip =>
    rw [h.step_roundTrip] at hstep
    cases hstep
    exact h

/-- A request that the constructor made with values that JSON keeps comes back from the
queue as it was, and so does what came back, whatever was changed before. -/
theorem survives (hupper : ∀ text, upper (upper text) = upper text) (h : (machine str upper).Reachable r) :
    ∃ r', r.roundTrip str upper = .ok r' ∧ r'.toDict = r.toDict ∧
      (∀ lib : Stdlib, r'.fingerprint lib = r.fingerprint lib ∧ (r.fingerprint lib).isSome) ∧
      (∀ name, name ≠ "render_script" → r'.getAttribute name = r.getAttribute name) ∧
      r'.roundTrip str upper = .ok r' := by
  have hsound : Sound upper r := by
    apply h.induct
    · intro r ⟨url, method, keywords, hkeywords, hinit⟩
      exact sound_of_init hupper hkeywords hinit
    · intro r a r' hr _ hstep
      exact hr.step hstep
  have htrip : r.roundTrip str upper = .ok r := hsound.roundTrip
  refine ⟨r, htrip, rfl, fun lib => ⟨rfl, ?_⟩, fun _ _ => rfl, htrip⟩
  obtain ⟨url, hurl⟩ := hsound.url
  rw [DecodedRequest.fingerprint, hurl]
  rfl

/-- `upper`, on the methods of the run below. -/
def upperPost (text : String) : String := if text = "post" then "POST" else text

theorem upperPost_upperPost (text : String) : upperPost (upperPost text) = upperPost text := by
  unfold upperPost
  by_cases h : text = "post"
  · simp [h]
  · simp [h]

/-- `Request("u", "post", callback="parse", cb_kwargs={"page": 2}, cookies={"lang": "zh"}, tag="abc")`. -/
def listRequest : DecodedRequest :=
  { Attempts.langRequest with
    method := "POST"
    callback := .str "parse"
    cbKwargs := .dict [(.str "page", .int 2)]
    custom := [("tag", .str "abc")] }

/-- The names of `listRequest`. -/
def listKeywords : Dict :=
  [("callback", .str "parse"), ("cb_kwargs", .dict [(.str "page", .int 2)]), ("cookies", .dict [(.str "lang", .str "zh")]),
    ("tag", .str "abc")]

theorem listKeywords_serialisable : Serialisable listKeywords where
  callback value hvalue := by
    have hvalue : value = .str "parse" := by simpa [listKeywords] using hvalue
    exact .inr ⟨"parse", hvalue⟩
  json := by
    simp only [listKeywords, List.forall_mem_cons]
    exact ⟨fun _ => exists_str "parse", fun _ => ⟨⟨.obj [("page", .int 2)], List.nodup_singleton _, trivial, trivial⟩, rfl⟩,
      fun _ => ⟨⟨.obj [("lang", .str "zh")], List.nodup_singleton _, trivial, trivial⟩, rfl⟩, fun _ => exists_str "abc",
      fun _ hkv => absurd hkv List.not_mem_nil⟩

/-- It is retried on another node, without its cookies. -/
theorem survives_retry :
    ∃ r, (machine (fun _ => "") upperPost).exec listRequest [.roundTrip, .retryTimes 1, .filterRepeat false, .noCookies] =
        some r ∧ r.requestsKwargs = [] ∧
      ∃ r', r.roundTrip (fun _ => "") upperPost = .ok r' ∧ r'.toDict = r.toDict ∧
        r'.getAttribute "tag" = .ok (.str "abc") := by
  have hinit : DecodedRequest.init upperPost (.str "u") (.str "post") listKeywords = .ok listRequest := rfl
  have hstart : (machine (fun _ => "") upperPost).start listRequest :=
    ⟨"u", "post", listKeywords, listKeywords_serialisable, hinit⟩
  have hsound : Sound upperPost listRequest := sound_of_init upperPost_upperPost listKeywords_serialisable hinit
  have htrip : (machine (fun _ => "") upperPost).step listRequest .roundTrip = some listRequest :=
    hsound.step_roundTrip
  have hrun : (machine (fun _ => "") upperPost).exec listRequest
      [.roundTrip, .retryTimes 1, .filterRepeat false, .noCookies] =
        some { listRequest with retryTimes := .int 1, filterRepeat := .bool false, requestsKwargs := [] } := by
    rw [Machine.exec_cons, htrip]
    rfl
  obtain ⟨r', htrip', hdict, -, hattribute, -⟩ := survives upperPost_upperPost (Machine.Reachable.exec (.start hstart) hrun)
  exact ⟨_, hrun, rfl, r', htrip', hdict, hattribute "tag" (by decide)⟩

end RequestTrips

end Netspy
