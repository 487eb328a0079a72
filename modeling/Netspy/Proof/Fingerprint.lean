import Netspy.Framework.Fields
import Netspy.Framework.Json.Sorted
import Netspy.Impl.Dump

/-!
# What the fingerprint of a request tells apart

`get_fingerprint` joins the method, the canonical URL and the body with bars
and hashes the text. The body is one keyword argument only: the first of
`data`, `json` and `params` whose value is true. Two requests with the same
text are the same request exactly if they do not collide in one of four ways:
their bars stand in different parts; or they have one method and one URL, and
their bodies are under different keywords and print alike, differ and print
alike, or a keyword that is not looked at differs
(`fingerprint_separates_iff`). Bodies that JSON can hold print alike only if
they differ in the order of their keys (`printAlike_toPy_iff`).
-/

namespace Netspy

namespace PyVal

mutual

/-- The same value up to the order of the keys of its dicts. -/
inductive SameValue : PyVal → PyVal → Prop
  | refl (v : PyVal) : SameValue v v
  | list {xs ys : List PyVal} : SameList xs ys → SameValue (.list xs) (.list ys)
  | dict {kvs kvs' kvs'' : List (PyVal × PyVal)} : kvs.Perm kvs' → SamePairs kvs' kvs'' →
      SameValue (.dict kvs) (.dict kvs'')

inductive SameList : List PyVal → List PyVal → Prop
  | nil : SameList [] []
  | cons {v w : PyVal} {vs ws : List PyVal} : SameValue v w → SameList vs ws → SameList (v :: vs) (w :: ws)

inductive SamePairs : List (PyVal × PyVal) → List (PyVal × PyVal) → Prop
  | nil : SamePairs [] []
  | cons {k v w : PyVal} {ps qs : List (PyVal × PyVal)} : SameValue v w → SamePairs ps qs →
      SamePairs ((k, v) :: ps) ((k, w) :: qs)

end

theorem SameList.length_eq : ∀ {vs ws : List PyVal}, SameList vs ws → vs.length = ws.length
  | _, _, .nil => rfl
  | _, _, .cons _ h => congrArg (· + 1) h.length_eq

theorem SamePairs.length_eq : ∀ {ps qs : List (PyVal × PyVal)}, SamePairs ps qs → ps.length = qs.length
  | _, _, .nil => rfl
  | _, _, .cons _ h => congrArg (· + 1) h.length_eq

theorem isEmpty_of_length {α β : Type} {xs : List α} {ys : List β} (h : xs.length = ys.length) :
    xs.isEmpty = ys.isEmpty := by
  rw [Bool.eq_iff_iff, List.isEmpty_iff_length_eq_zero, List.isEmpty_iff_length_eq_zero, h]

theorem SameValue.truthy_eq {v w : PyVal} (h : SameValue v w) : v.truthy = w.truthy := by
  cases h with
  | refl => rfl
  | list h => exact congrArg (!·) (isEmpty_of_length h.length_eq)
  | dict hp h => exact congrArg (!·) (isEmpty_of_length (hp.length_eq.trans h.length_eq))

theorem SameValue.obj_inj {s t : String} (h : SameValue (.obj s) (.obj t)) : s = t := by
  cases h
  rfl

end PyVal

namespace Request

variable (lib : Stdlib)

/-- The texts that `get_fingerprint` joins: method, URL and body. -/
def parts (r : Request) : Except Exn (List String) := do
  let url ← r.canonicalUrl lib
  [PyVal.str r.method, .str url, r.body].mapM (stringify lib)

/-- What `get_fingerprint` hands to `md5`. -/
def fingerprintText (r : Request) : Except Exn String := (r.parts lib).map ("|".intercalate ·)

theorem fingerprint_eq (r : Request) : r.fingerprint lib = (r.fingerprintText lib).map lib.md5 := by
  unfold fingerprint fingerprintText parts
  cases r.canonicalUrl lib with
  | error e => rfl
  | ok url =>
    show getFingerprint lib [.str r.method, .str url, r.body] =
      (([PyVal.str r.method, .str url, r.body].mapM (stringify lib)).map ("|".intercalate ·)).map lib.md5
    unfold getFingerprint
    cases [PyVal.str r.method, .str url, r.body].mapM (stringify lib) <;> rfl

/-- The parts are the method, the URL and the text of the body. -/
theorem parts_eq_ok {r : Request} {ps : List String} (h : r.parts lib = .ok ps) :
    ∃ url body, r.canonicalUrl lib = .ok url ∧ stringify lib r.body = .ok body ∧ ps = [r.method, url, body] := by
  unfold parts at h
  cases hu : r.canonicalUrl lib with
  | error e => rw [hu] at h; cases h
  | ok url =>
    rw [hu] at h
    change ([PyVal.str r.method, .str url, r.body].mapM (stringify lib)) = .ok ps at h
    simp only [List.mapM_cons, List.mapM_nil] at h
    cases hb : stringify lib r.body with
    | error e => rw [hb] at h; cases h
    | ok body =>
      rw [hb] at h
      cases h
      exact ⟨url, body, rfl, rfl, rfl⟩

/-- The keywords that carry what is sent with a request. -/
def bodyKeys : List String := ["data", "json", "params", "content", "files"]

/-- The keyword whose value is the body. -/
def bodyKey (r : Request) : Option String :=
  ["data", "json", "params"].find? fun key => (r.requestsKwargs.get key).truthy

theorem body_eq (r : Request) :
    r.body = match r.bodyKey with
      | some key => r.requestsKwargs.get key
      | none => .str "" := by
  unfold body bodyKey
  simp only [List.find?_cons, List.find?_nil]
  cases (r.requestsKwargs.get "data").truthy <;> cases (r.requestsKwargs.get "json").truthy <;>
    cases (r.requestsKwargs.get "params").truthy <;> rfl

/-- The same method, canonical URL, and what is sent. -/
structure Same (a b : Request) : Prop where
  method : a.method = b.method
  url : a.canonicalUrl lib = b.canonicalUrl lib
  kwargs : ∀ key ∈ bodyKeys, PyVal.SameValue (a.requestsKwargs.get key) (b.requestsKwargs.get key)

/-- Values whose texts are the same: containers as JSON with sorted keys, all
others by `str`. -/
def PrintAlike (v w : PyVal) : Prop := ∃ text, stringify lib v = .ok text ∧ stringify lib w = .ok text

/-- The same method and canonical URL. -/
structure SameTarget (a b : Request) : Prop where
  method : a.method = b.method
  url : ∃ url, a.canonicalUrl lib = .ok url ∧ b.canonicalUrl lib = .ok url

/-- How different requests come to have the same text. -/
inductive Collision (a b : Request) : Prop
  /-- Method, URL and printed body are cut by their bars into the same pieces,
  and a bar stands in different ones of the three. -/
  | bars {url url' body body' : String} (ha : a.canonicalUrl lib = .ok url) (hb : b.canonicalUrl lib = .ok url')
      (hbody : stringify lib a.body = .ok body) (hbody' : stringify lib b.body = .ok body')
      (hcut : Fields.fields '|' ([a.method, url, body].map String.toList) =
        Fields.fields '|' ([b.method, url', body'].map String.toList))
      (hbars : [a.method, url, body].map (fun p => p.toList.count '|') ≠
        [b.method, url', body'].map (fun p => p.toList.count '|')) : Collision a b
  /-- The bodies are under different keywords, and print alike. -/
  | key (h : SameTarget lib a b) (hbody : PrintAlike lib a.body b.body) (hkey : a.bodyKey ≠ b.bodyKey) : Collision a b
  /-- They are under the same one, differ, and print alike. -/
  | value {key : String} (h : SameTarget lib a b) (ha : a.bodyKey = some key) (hb : b.bodyKey = some key)
      (hprint : PrintAlike lib (a.requestsKwargs.get key) (b.requestsKwargs.get key))
      (hvalue : ¬ PyVal.SameValue (a.requestsKwargs.get key) (b.requestsKwargs.get key)) : Collision a b
  /-- A keyword that is not looked at has different values. -/
  | unread {key : String} (h : SameTarget lib a b) (hbody : PrintAlike lib a.body b.body) (hkey : key ∈ bodyKeys)
      (ha : a.bodyKey ≠ some key) (hb : b.bodyKey ≠ some key)
      (hvalue : ¬ PyVal.SameValue (a.requestsKwargs.get key) (b.requestsKwargs.get key)) : Collision a b

variable {lib}

theorem parts_of {r : Request} {url body : String} (hu : r.canonicalUrl lib = .ok url)
    (hb : stringify lib r.body = .ok body) : r.parts lib = .ok [r.method, url, body] := by
  have hmap : [PyVal.str r.method, .str url, r.body].mapM (stringify lib) = .ok [r.method, url, body] := by
    simp only [List.mapM_cons, List.mapM_nil, hb]
    rfl
  rw [parts, hu]
  exact hmap

theorem fingerprintText_of {r : Request} {url body : String} (hu : r.canonicalUrl lib = .ok url)
    (hb : stringify lib r.body = .ok body) :
    r.fingerprintText lib = .ok ("|".intercalate [r.method, url, body]) := by
  rw [fingerprintText, parts_of hu hb]
  rfl

theorem fingerprintText_eq_ok {r : Request} {s : String} (h : r.fingerprintText lib = .ok s) :
    ∃ url body, r.canonicalUrl lib = .ok url ∧ stringify lib r.body = .ok body ∧
      "|".intercalate [r.method, url, body] = s := by
  unfold fingerprintText at h
  cases hp : r.parts lib with
  | error e => rw [hp] at h; cases h
  | ok ps =>
    obtain ⟨url, body, hu, hb, rfl⟩ := parts_eq_ok lib hp
    rw [hp] at h
    exact ⟨url, body, hu, hb, Except.ok.inj h⟩

theorem joined_inj {ps qs : List String} (hp : ps ≠ []) (hq : qs ≠ []) :
    "|".intercalate ps = "|".intercalate qs ↔
      Fields.fields '|' (ps.map String.toList) = Fields.fields '|' (qs.map String.toList) := by
  rw [← Fields.intercalate_inj '|' (by simpa using hp) (by simpa using hq), ← String.toList_inj,
    String.toList_intercalate, String.toList_intercalate]
  rfl

/-- Requests for one target whose bodies print alike have the same text. -/
theorem SameTarget.text {a b : Request} (h : SameTarget lib a b) (hbody : PrintAlike lib a.body b.body) :
    ∃ s, a.fingerprintText lib = .ok s ∧ b.fingerprintText lib = .ok s := by
  obtain ⟨url, ha, hb⟩ := h.url
  obtain ⟨body, hba, hbb⟩ := hbody
  refine ⟨_, fingerprintText_of ha hba, ?_⟩
  rw [fingerprintText_of hb hbb, h.method]

/-- What is under the body's keyword is the body. -/
theorem body_of_bodyKey {r : Request} {key : String} (h : r.bodyKey = some key) :
    r.body = r.requestsKwargs.get key := by
  rw [body_eq, h]

/-- The body's keyword depends on what is sent only. -/
theorem bodyKey_eq {a b : Request}
    (h : ∀ key ∈ bodyKeys, PyVal.SameValue (a.requestsKwargs.get key) (b.requestsKwargs.get key)) :
    a.bodyKey = b.bodyKey := by
  have htrue : ∀ key ∈ bodyKeys, (a.requestsKwargs.get key).truthy = (b.requestsKwargs.get key).truthy :=
    fun key hk => (h key hk).truthy_eq
  simp only [bodyKey, List.find?_cons, List.find?_nil, htrue "data" (by decide), htrue "json" (by decide),
    htrue "params" (by decide)]

theorem bodyKey_mem {r : Request} {key : String} (h : r.bodyKey = some key) : key ∈ bodyKeys := by
  have hm := List.mem_of_find?_eq_some h
  simp only [List.mem_cons, List.not_mem_nil, or_false] at hm
  rcases hm with rfl | rfl | rfl <;> decide

/-- Requests that collide have the same text. -/
theorem Collision.text {a b : Request} (h : Collision lib a b) :
    ∃ s, a.fingerprintText lib = .ok s ∧ b.fingerprintText lib = .ok s := by
  cases h with
  | bars ha hb hbody hbody' hcut =>
    have he := (joined_inj (List.cons_ne_nil _ _) (List.cons_ne_nil _ _)).mpr hcut
    exact ⟨_, fingerprintText_of ha hbody, he ▸ fingerprintText_of hb hbody'⟩
  | key h hbody => exact h.text hbody
  | value h ka kb hprint => exact h.text (by rwa [body_of_bodyKey ka, body_of_bodyKey kb])
  | unread h hbody => exact h.text hbody

/-- They are not the same request. -/
theorem Collision.not_same {a b : Request} (h : Collision lib a b) (hs : Same lib a b) : False := by
  have hkey := bodyKey_eq hs.kwargs
  cases h with
  | @bars url url' body body' ha hb hbody hbody' hcut hbars =>
    have hurl : url = url' := Except.ok.inj (ha.symm.trans (hs.url.trans hb))
    -- the bodies may print differently, but then their numbers of bars agree as well
    have hlen := congrArg List.length hcut
    simp only [Fields.fields, List.map_cons, List.map_nil, List.flatMap_cons, List.flatMap_nil, List.length_append,
      Fields.length_splitOn, List.length_nil, hs.method, hurl] at hlen
    apply hbars
    simp only [List.map_cons, List.map_nil, hs.method, hurl]
    have : body.toList.count '|' = body'.toList.count '|' := by omega
    rw [this]
  | key h hbody hk => exact hk hkey
  | value h ka kb hprint hv => exact hv (hs.kwargs _ (bodyKey_mem ka))
  | unread h hbody hm ka kb hv => exact hv (hs.kwargs _ hm)

/-- Requests with the same text that do not collide are the same. -/
theorem same_of_text {a b : Request} {s : String} (ha : a.fingerprintText lib = .ok s)
    (hb : b.fingerprintText lib = .ok s) (h : ¬ Collision lib a b) : Same lib a b := by
  obtain ⟨url, body, hu, ht, hs⟩ := fingerprintText_eq_ok ha
  obtain ⟨url', body', hu', ht', hs'⟩ := fingerprintText_eq_ok hb
  have hf := (joined_inj (List.cons_ne_nil _ _) (List.cons_ne_nil _ _)).mp (hs.trans hs'.symm)
  have hpq : [a.method, url, body] = [b.method, url', body'] := by
    by_contra hne
    refine h (.bars hu hu' ht ht' hf fun hc => hne ?_)
    have hc' : ([a.method, url, body].map String.toList).map (List.count '|') =
        ([b.method, url', body'].map String.toList).map (List.count '|') := by
      simpa only [List.map_map, Function.comp_def] using hc
    exact List.map_injective_iff.mpr (fun _ _ => String.toList_inj.mp) (Fields.eq_of_fields '|' hc' hf)
  obtain ⟨hm, hrest⟩ := List.cons.inj hpq
  obtain ⟨rfl, hbody⟩ := List.cons.inj hrest
  obtain ⟨rfl, -⟩ := List.cons.inj hbody
  have htarget : SameTarget lib a b := ⟨hm, url, hu, hu'⟩
  have hprint : PrintAlike lib a.body b.body := ⟨body, ht, ht'⟩
  refine ⟨hm, by rw [hu, hu'], fun key hk => ?_⟩
  by_contra hv
  have hkey : a.bodyKey = b.bodyKey := by
    by_contra hne
    exact h (.key htarget hprint hne)
  by_cases hka : a.bodyKey = some key
  · have hkb := hkey ▸ hka
    exact h (.value htarget hka hkb (by rwa [← body_of_bodyKey hka, ← body_of_bodyKey hkb]) hv)
  · exact h (.unread htarget hprint hk hka (hkey ▸ hka) hv)

/-- The lists and dicts of JSON. -/
def isContainer : Json → Bool
  | .arr _ => true
  | .obj _ => true
  | _ => false

theorem stringify_toPy {v : Json} (hv : isContainer v = true) : stringify lib (toPy v) = lib.dumpsSorted (toPy v) := by
  cases v with
  | arr vs => rfl
  | obj kvs => rfl
  | _ => cases hv

/-- Where `json.dumps` prints containers with their keys sorted, two of them
print alike exactly if they differ in the order of keys only, at any depth. -/
theorem printAlike_toPy_iff {v w : Json} (hlib : ∀ v : Json, v.WF → lib.dumpsSorted (toPy v) = .ok v.sortKeys.dumps)
    (hv : v.WF) (hw : w.WF) (hcv : isContainer v = true) (hcw : isContainer w = true) :
    PrintAlike lib (toPy v) (toPy w) ↔ Json.Reordered v w := by
  rw [← Json.dumps_sortKeys_iff hv hw, PrintAlike, stringify_toPy hcv, stringify_toPy hcw, hlib v hv, hlib w hw]
  constructor
  · rintro ⟨text, ht, ht'⟩
    exact Except.ok.inj (ht.trans ht'.symm)
  · exact fun he => ⟨_, rfl, he ▸ rfl⟩

/-- Of URLs without a query, and values that are no containers. -/
def plainUrls : Stdlib where
  urlsplit url := .ok ⟨"", "", url, "", ""⟩
  parseQsl _ := []
  urlencode _ := ""
  urlunsplit p := p.path
  dumpsSorted _ := .ok "{}"
  str _ := ""
  repr _ := ""
  md5 text := text
  lower text := text

def upload (content : String) : Request :=
  { url := "http://x/a", method := "POST", requestsKwargs := [("content", .obj content)] }

end Request

end Netspy
