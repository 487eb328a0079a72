import Netspy.Framework.Url.Query

/-!
# The parts of a URL

`urlsplit` and `urlunsplit` of `urllib.parse`, on lists of characters, as they are in
the releases of CPython since 3.10. What the checks of a network location accept,
`check`, is left open: they look it up in tables of Unicode and parse IPv6 addresses.
Parts that come of a split are split off again from the URL they are put together to by
the last of the three `urlunsplit`, also with another query (`split_unsplit`).
-/

namespace Url

structure Parts where
  scheme : List Char
  netloc : List Char
  path : List Char
  query : List Char
  fragment : List Char
  deriving DecidableEq

/-- What `urlunsplit` does without a network location: `older`, as in 3.12.3, puts a path
that begins with two slashes together as it is; `patched`, as in 3.11.10, puts two more
before it, and a slash before any other path of a scheme of `uses_netloc`; `current`
leaves that one slash out. -/
inductive Unsplit where
  | older
  | patched
  | current
  deriving DecidableEq

/-- A release of CPython, from 3.10 on. -/
structure Release where
  /-- `urlsplit` strips control characters and spaces, since 3.10.12 and 3.11.4. -/
  strips : Bool
  /-- A scheme begins with a letter, since 3.10.9 and 3.11.1. -/
  letter : Bool
  unsplit : Unsplit
  deriving DecidableEq

/-- A C0 control character or a space. -/
def isStripped (c : Char) : Bool := c.toNat ≤ 0x20

/-- Of `_UNSAFE_URL_BYTES_TO_REMOVE`. -/
def isRemoved (c : Char) : Bool := c = '\t' || c = '\r' || c = '\n'

def isSchemeChar (c : Char) : Bool := c.isAlphanum || c = '+' || c = '-' || c = '.'

/-- What is before the first colon. -/
def beforeColon (url : List Char) : List Char := url.takeWhile (· ≠ ':')

def hasScheme (v : Release) (url : List Char) : Bool :=
  url.contains ':' && (beforeColon url).head?.any (fun c => !v.letter || c.isAlpha) && (beforeColon url).all isSchemeChar

def splitScheme (v : Release) (url : List Char) : List Char × List Char :=
  if hasScheme v url then ((beforeColon url).map Char.toLower, url.drop ((beforeColon url).length + 1)) else ([], url)

def isDelimiter (c : Char) : Bool := c = '/' || c = '?' || c = '#'

/-- `_splitnetloc(url, 2)` if `url[:2] == "//"`. -/
def splitNetloc : List Char → List Char × List Char
  | '/' :: '/' :: rest => (rest.takeWhile fun c => !isDelimiter c, rest.dropWhile fun c => !isDelimiter c)
  | url => ([], url)

/-- The brackets and `_checknetloc`, which accepts the empty one. -/
def isNetloc (check : List Char → Bool) (netloc : List Char) : Bool :=
  netloc.contains '[' == netloc.contains ']' && (netloc.isEmpty || check netloc)

/-- `urlsplit`, or `none` for a `ValueError`. -/
def split (v : Release) (check : List Char → Bool) (url : List Char) : Option Parts :=
  let url := (if v.strips then url.dropWhile isStripped else url).filter fun c => !isRemoved c
  let (scheme, url) := splitScheme v url
  let (netloc, url) := splitNetloc url
  let (url, fragment) := partition '#' url
  let (path, query) := partition '?' url
  if isNetloc check netloc then some ⟨scheme, netloc, path, query, fragment⟩ else none

/-- `uses_netloc`. -/
def usesNetloc : List (List Char) :=
  ["", "ftp", "http", "gopher", "nntp", "telnet", "imap", "wais", "file", "mms", "https", "shttp", "snews", "prospero",
    "rtsp", "rtsps", "rtspu", "rsync", "svn", "svn+ssh", "sftp", "nfs", "git", "git+ssh", "ws", "wss",
    "itms-services"].map String.toList

/-- `if url and url[:1] != "/": url = "/" + url`. -/
def withSlash (path : List Char) : List Char := if path ≠ [] ∧ path.head? ≠ some '/' then '/' :: path else path

/-- What `urlunsplit` puts between the scheme and the query. -/
def hier (u : Unsplit) (p : Parts) : List Char :=
  match u with
  | .older =>
    if p.netloc ≠ [] ∨ p.scheme ≠ [] ∧ p.scheme ∈ usesNetloc ∧ p.path.take 2 ≠ ['/', '/'] then
      ['/', '/'] ++ p.netloc ++ withSlash p.path
    else p.path
  | .patched =>
    if p.netloc ≠ [] ∨ (p.scheme ≠ [] ∧ p.scheme ∈ usesNetloc) ∨ p.path.take 2 = ['/', '/'] then
      ['/', '/'] ++ p.netloc ++ withSlash p.path
    else p.path
  | .current =>
    if p.netloc ≠ [] then ['/', '/'] ++ p.netloc ++ withSlash p.path
    else if p.path.take 2 = ['/', '/'] then ['/', '/'] ++ p.path
    else if p.scheme ≠ [] ∧ p.scheme ∈ usesNetloc ∧ (p.path = [] ∨ p.path.head? = some '/') then
      ['/', '/'] ++ p.path
    else p.path

/-- `urlunsplit`. -/
def unsplit (u : Unsplit) (p : Parts) : List Char :=
  let url := hier u p
  let url := if p.scheme ≠ [] then p.scheme ++ ':' :: url else url
  let url := if p.query ≠ [] then url ++ '?' :: p.query else url
  if p.fragment ≠ [] then url ++ '#' :: p.fragment else url

/-! ## What the parts of a split are -/

structure Parts.WF (v : Release) (check : List Char → Bool) (p : Parts) : Prop where
  scheme : p.scheme = [] ∨ (p.scheme.head?.any (fun c => !v.letter || c.isAlpha) = true ∧
    p.scheme.all isSchemeChar = true ∧ p.scheme.map Char.toLower = p.scheme)
  netloc : ∀ c ∈ p.netloc, isDelimiter c = false ∧ isRemoved c = false
  checked : isNetloc check p.netloc = true
  path : ∀ c ∈ p.path, c ≠ '?' ∧ c ≠ '#' ∧ isRemoved c = false
  rooted : p.netloc ≠ [] → p.path = [] ∨ p.path.head? = some '/'
  /-- Without a scheme the path is not taken for one, and begins a URL. -/
  bare : p.scheme = [] → p.netloc = [] →
    hasScheme v p.path = false ∧ (v.strips = true → p.path.head?.any isStripped = false)

variable {v : Release}

theorem isAlpha_iff {c : Char} : c.isAlpha = true ↔ 65 ≤ c.val ∧ c.val ≤ 90 ∨ 97 ≤ c.val ∧ c.val ≤ 122 := by
  show (decide (65 ≤ c.val ∧ c.val ≤ 90) || decide (97 ≤ c.val) && decide (c.val ≤ 122)) = true ↔ _
  simp only [Bool.or_eq_true, Bool.and_eq_true, decide_eq_true_eq]

theorem schemeChar_lt {c : Char} (h : isSchemeChar c = true) : c.toNat < 128 := by
  simp only [isSchemeChar, Char.isAlphanum, isAlpha_iff, Char.isDigit, Bool.or_eq_true, Bool.and_eq_true,
    decide_eq_true_eq, ge_iff_le, UInt32.le_iff_toNat_le] at h
  rcases h with ((((⟨-, h⟩ | ⟨-, h⟩) | ⟨-, h⟩) | rfl) | rfl) | rfl
  · exact Nat.lt_of_le_of_lt h (by decide)
  · exact Nat.lt_of_le_of_lt h (by decide)
  · exact Nat.lt_of_le_of_lt h (by decide)
  · decide
  · decide
  · decide

theorem forall_ascii {p : Char → Bool} (h : (List.range 128).all (fun n => p (Char.ofNat n)) = true) {c : Char}
    (hc : c.toNat < 128) : p c = true := by
  have hp := List.all_eq_true.mp h c.toNat (List.mem_range.mpr hc)
  rwa [Char.ofNat_toNat] at hp

theorem schemeChar_lower {c : Char} (h : isSchemeChar c = true) : isSchemeChar c.toLower = true ∧
    c.toLower.toLower = c.toLower ∧ (c.isAlpha = true → c.toLower.isAlpha = true) := by
  have hp := forall_ascii (p := fun c => !isSchemeChar c || (isSchemeChar c.toLower && c.toLower.toLower == c.toLower &&
    (!c.isAlpha || c.toLower.isAlpha))) (by decide +kernel) (schemeChar_lt h)
  simp only [h, Bool.not_true, Bool.false_or, Bool.and_eq_true, beq_iff_eq, Bool.or_eq_true, Bool.not_eq_true'] at hp
  refine ⟨hp.1.1, hp.1.2, fun ha => hp.2.resolve_left ?_⟩
  rw [ha]
  decide

theorem mem_takeWhile_append {p : Char → Bool} {xs : List Char} (h : ∃ c ∈ xs, p c = false) (ys : List Char) :
    (xs ++ ys).takeWhile p = xs.takeWhile p := by
  induction xs with
  | nil => obtain ⟨c, hc, -⟩ := h; exact absurd hc List.not_mem_nil
  | cons x xs ih =>
    rw [List.cons_append, List.takeWhile_cons, List.takeWhile_cons]
    cases hx : p x with
    | false => rfl
    | true =>
      have hxs : ∃ c ∈ xs, p c = false := by
        obtain ⟨c, hc, hp⟩ := h
        rcases List.mem_cons.mp hc with rfl | hc
        · rw [hx] at hp
          cases hp
        · exact ⟨c, hc, hp⟩
      exact congrArg (x :: ·) (ih hxs)

/-- Whether there is a scheme depends on what is before the first colon. -/
theorem hasScheme_append {xs : List Char} (h : ':' ∈ xs) (ys : List Char) : hasScheme v (xs ++ ys) = hasScheme v xs := by
  have hbefore : beforeColon (xs ++ ys) = beforeColon xs := mem_takeWhile_append ⟨':', h, by decide⟩ ys
  have hc : (xs ++ ys).contains ':' = true := List.contains_iff_mem.mpr (List.mem_append_left ys h)
  unfold hasScheme
  rw [hbefore, hc, List.contains_iff_mem.mpr h]

theorem hasScheme_of_not_mem {xs : List Char} (h : ':' ∉ xs) : hasScheme v xs = false := by
  have hc : xs.contains ':' = false := by
    rw [← Bool.not_eq_true, List.contains_iff_mem]
    exact h
  rw [hasScheme, hc, Bool.false_and, Bool.false_and]

theorem hasScheme_slash (cs : List Char) : hasScheme v ('/' :: cs) = false := by
  have hall : (beforeColon ('/' :: cs)).all isSchemeChar = false := by
    rw [beforeColon, List.takeWhile_cons]
    rfl
  rw [hasScheme, hall, Bool.and_false]

theorem splitScheme_of {url : List Char} (h : hasScheme v url = false) : splitScheme v url = ([], url) := by
  rw [splitScheme, h]
  rfl

/-- The path that is split off what follows the network location. -/
def pathOf (rest : List Char) : List Char := (partition '?' (partition '#' rest).1).1

theorem pathOf_starts (rest : List Char) : pathOf rest <+: rest :=
  (List.takeWhile_prefix _).trans (List.takeWhile_prefix _)

theorem mem_pathOf {rest : List Char} {c : Char} (h : c ∈ pathOf rest) : c ≠ '?' ∧ c ≠ '#' := by
  have hc : c ∈ (partition '#' rest).1 := (List.takeWhile_prefix _).subset h
  unfold pathOf partition at h
  unfold partition at hc
  exact ⟨by simpa using List.mem_takeWhile_imp h, by simpa using List.mem_takeWhile_imp hc⟩

/-- The path begins where what is split begins, if there is one. -/
theorem pathOf_head (rest : List Char) : pathOf rest = [] ∨ (pathOf rest).head? = rest.head? := by
  obtain ⟨tail, htail⟩ := pathOf_starts rest
  cases hp : pathOf rest with
  | nil => exact .inl rfl
  | cons c cs =>
    rw [hp] at htail
    exact .inr (by rw [← htail]; rfl)

/-- After a network location the path is empty or begins with a slash. -/
theorem pathOf_rooted (cs : List Char) :
    pathOf (cs.dropWhile fun c => !isDelimiter c) = [] ∨
      (pathOf (cs.dropWhile fun c => !isDelimiter c)).head? = some '/' := by
  rcases pathOf_head (cs.dropWhile fun c => !isDelimiter c) with h | h
  · exact .inl h
  · cases hd : cs.dropWhile fun c => !isDelimiter c with
    | nil => exact .inl rfl
    | cons c rest =>
      have hc : isDelimiter c = true := by
        have := List.head?_dropWhile_not (fun c => !isDelimiter c) cs
        rw [hd] at this
        simpa using this
      simp only [isDelimiter, Bool.or_eq_true, decide_eq_true_eq] at hc
      rcases hc with (rfl | rfl) | rfl
      · rw [hd] at h
        exact .inr h
      · exact .inl rfl
      · exact .inl rfl

/-- The text that is split: it begins with no character that is stripped. -/
def cleaned (v : Release) (url : List Char) : List Char :=
  (if v.strips then url.dropWhile isStripped else url).filter fun c => !isRemoved c

theorem isStripped_of_removed {c : Char} (h : isRemoved c = true) : isStripped c = true := by
  simp only [isRemoved, Bool.or_eq_true, decide_eq_true_eq] at h
  rcases h with (rfl | rfl) | rfl <;> decide

theorem not_removed_of_mem_cleaned {url : List Char} {c : Char} (h : c ∈ cleaned v url) : isRemoved c = false := by
  simpa using (List.mem_filter.mp h).2

theorem cleaned_head (hv : v.strips = true) (url : List Char) : (cleaned v url).head?.any isStripped = false := by
  unfold cleaned
  rw [if_pos hv]
  cases hd : url.dropWhile isStripped with
  | nil => rfl
  | cons c cs =>
    have hc : isStripped c = false := by
      have := List.head?_dropWhile_not isStripped url
      rw [hd] at this
      simpa using this
    have hr : isRemoved c = false := by
      rw [← Bool.not_eq_true]
      intro h
      rw [isStripped_of_removed h] at hc
      cases hc
    rw [List.filter_cons_of_pos (by rw [hr]; rfl)]
    exact hc

theorem cleaned_eq_self {url : List Char} (hh : v.strips = true → url.head?.any isStripped = false)
    (hr : ∀ c ∈ url, isRemoved c = false) : cleaned v url = url := by
  unfold cleaned
  have hd : (if v.strips then url.dropWhile isStripped else url) = url := by
    split
    · rename_i hv
      cases url with
      | nil => rfl
      | cons c cs => exact List.dropWhile_cons_of_neg (by simpa using hh hv)
    · rfl
  rw [hd]
  exact List.filter_eq_self.mpr fun c hc => by rw [hr c hc]; rfl

/-- The scheme is empty exactly if there is none. -/
theorem hasScheme_of_nil {url : List Char} (h : (splitScheme v url).1 = []) : hasScheme v url = false := by
  unfold splitScheme at h
  split at h
  · rename_i hs
    have hnil : beforeColon url = [] := List.map_eq_nil_iff.mp h
    rw [hasScheme, hnil] at hs
    simp at hs
  · exact Bool.not_eq_true _ ▸ ‹¬ _›

theorem mem_splitScheme {url : List Char} {c : Char} (h : c ∈ (splitScheme v url).2) : c ∈ url := by
  unfold splitScheme at h
  split at h
  · exact List.mem_of_mem_drop h
  · exact h

theorem splitScheme_wf (url : List Char) : (splitScheme v url).1 = [] ∨
    ((splitScheme v url).1.head?.any (fun c => !v.letter || c.isAlpha) = true ∧
      (splitScheme v url).1.all isSchemeChar = true ∧ (splitScheme v url).1.map Char.toLower = (splitScheme v url).1) := by
  unfold splitScheme
  split
  · rename_i hs
    simp only [hasScheme, Bool.and_eq_true] at hs
    obtain ⟨⟨-, halpha⟩, hall⟩ := hs
    have hchar : ∀ c ∈ beforeColon url, isSchemeChar c = true := List.all_eq_true.mp hall
    refine .inr ⟨?_, ?_, ?_⟩
    · cases hb : beforeColon url with
      | nil =>
        rw [hb] at halpha
        cases halpha
      | cons c cs =>
        rw [hb] at halpha
        have hlower := (schemeChar_lower (hchar c (hb ▸ List.mem_cons_self))).2.2
        simp only [List.head?_cons, Option.any_some, List.map_cons, Bool.or_eq_true] at halpha ⊢
        exact halpha.imp_right hlower
    · rw [List.all_eq_true]
      intro c hc
      obtain ⟨d, hd, rfl⟩ := List.mem_map.mp hc
      exact (schemeChar_lower (hchar d hd)).1
    · rw [List.map_map]
      exact List.map_congr_left fun c hc => (schemeChar_lower (hchar c hc)).2.1
  · exact .inl rfl

/-- What follows a network location, and where there is none, the whole. -/
theorem splitNetloc_cases (url : List Char) :
    (∃ rest, url = '/' :: '/' :: rest ∧ splitNetloc url =
      (rest.takeWhile fun c => !isDelimiter c, rest.dropWhile fun c => !isDelimiter c)) ∨
      (url.take 2 ≠ ['/', '/'] ∧ splitNetloc url = ([], url)) := by
  unfold splitNetloc
  split
  · exact .inl ⟨_, rfl, rfl⟩
  · rename_i hno
    refine .inr ⟨fun h => ?_, rfl⟩
    match url, h with
    | a :: b :: rest, h =>
      simp only [List.take_succ_cons, List.take_zero, List.cons.injEq, and_true] at h
      exact hno rest (by rw [h.1, h.2])

theorem splitNetloc_of {url : List Char} (h : url.take 2 ≠ ['/', '/']) : splitNetloc url = ([], url) := by
  rcases splitNetloc_cases url with ⟨rest, rfl, -⟩ | ⟨-, hs⟩
  · exact absurd rfl h
  · exact hs

/-- After two slashes it is what is before the next delimiter. -/
theorem splitNetloc_slashes {netloc rest : List Char} (hn : ∀ c ∈ netloc, isDelimiter c = false)
    (hr : rest.head?.all isDelimiter = true) : splitNetloc ('/' :: '/' :: (netloc ++ rest)) = (netloc, rest) := by
  have hnot : ∀ c ∈ netloc, (!isDelimiter c) = true := fun c hc => by rw [hn c hc]; rfl
  have hstop : rest.takeWhile (fun c => !isDelimiter c) = [] ∧ rest.dropWhile (fun c => !isDelimiter c) = rest := by
    cases rest with
    | nil => exact ⟨rfl, rfl⟩
    | cons c cs =>
      have hc : (!isDelimiter c) = false := by
        rw [show isDelimiter c = true from hr]
        rfl
      rw [List.takeWhile_cons, List.dropWhile_cons, hc]
      exact ⟨rfl, rfl⟩
  rw [splitNetloc, List.takeWhile_append_of_pos hnot, List.dropWhile_append_of_pos hnot, hstop.1, hstop.2, List.append_nil]

theorem wf_split {check : List Char → Bool} {url : List Char} {p : Parts} (h : split v check url = some p) :
    p.WF v check := by
  unfold split at h
  obtain ⟨hcheck, ht⟩ := Option.ite_none_right_eq_some.mp h
  cases ht
  have hnotRemoved {c : Char} (hc : c ∈ (splitScheme v (cleaned v url)).2) : isRemoved c = false :=
    not_removed_of_mem_cleaned (mem_splitScheme hc)
  have hsub {c : Char} (hc : c ∈ (splitNetloc (splitScheme v (cleaned v url)).2).1 ∨
      c ∈ (splitNetloc (splitScheme v (cleaned v url)).2).2) : isRemoved c = false := by
    refine hnotRemoved ?_
    rcases splitNetloc_cases (splitScheme v (cleaned v url)).2 with ⟨rest, hrest, hs⟩ | ⟨-, hs⟩
    · rw [hs] at hc
      rw [hrest]
      refine List.mem_cons_of_mem _ (List.mem_cons_of_mem _ ?_)
      exact hc.elim (fun h => (List.takeWhile_prefix _).subset h) fun h => (List.dropWhile_suffix _).subset h
    · rw [hs] at hc
      exact hc.resolve_left List.not_mem_nil
  refine ⟨splitScheme_wf _, fun c hc => ⟨?_, hsub (.inl hc)⟩, hcheck, fun c hc => ?_, fun hn => ?_, fun hs hn => ?_⟩
  · rcases splitNetloc_cases (splitScheme v (cleaned v url)).2 with ⟨rest, -, hs⟩ | ⟨-, hs⟩
    · have hc : c ∈ (splitNetloc (splitScheme v (cleaned v url)).2).1 := hc
      rw [hs] at hc
      simpa using List.mem_takeWhile_imp hc
    · have hc : c ∈ (splitNetloc (splitScheme v (cleaned v url)).2).1 := hc
      rw [hs] at hc
      exact absurd hc List.not_mem_nil
  · obtain ⟨hq, hh⟩ := mem_pathOf hc
    exact ⟨hq, hh, hsub (.inr ((pathOf_starts _).subset hc))⟩
  · have hn : (splitNetloc (splitScheme v (cleaned v url)).2).1 ≠ [] := hn
    show pathOf (splitNetloc (splitScheme v (cleaned v url)).2).2 = [] ∨
      (pathOf (splitNetloc (splitScheme v (cleaned v url)).2).2).head? = some '/'
    rcases splitNetloc_cases (splitScheme v (cleaned v url)).2 with ⟨rest, -, hs⟩ | ⟨-, hs⟩
    · rw [hs]
      exact pathOf_rooted rest
    · rw [hs] at hn
      exact absurd rfl hn
  · have hno : hasScheme v (cleaned v url) = false := hasScheme_of_nil hs
    show hasScheme v (pathOf (splitNetloc (splitScheme v (cleaned v url)).2).2) = false ∧
      (v.strips = true → (pathOf (splitNetloc (splitScheme v (cleaned v url)).2).2).head?.any isStripped = false)
    rw [splitScheme_of hno]
    rcases splitNetloc_cases (cleaned v url) with ⟨rest, -, hs⟩ | ⟨-, hs⟩
    · -- the path is empty or begins with a slash
      rw [hs]
      rcases pathOf_rooted rest with hp | hp
      · rw [hp]
        exact ⟨rfl, fun _ => rfl⟩
      · refine ⟨?_, fun _ => by rw [hp]; rfl⟩
        obtain ⟨cs, hcs⟩ := List.head?_eq_some_iff.mp hp
        rw [hcs]
        exact hasScheme_slash cs
    · rw [hs]
      obtain ⟨tail, htail⟩ := pathOf_starts (cleaned v url)
      constructor
      · by_cases hc : ':' ∈ pathOf (cleaned v url)
        · rw [← hasScheme_append hc tail, htail]
          exact hno
        · exact hasScheme_of_not_mem hc
      · intro hv
        rcases pathOf_head (cleaned v url) with hp | hp
        · rw [hp]
          rfl
        · rw [hp]
          exact cleaned_head hv url

/-! ## Splitting what was put together -/

theorem withSlash_of {path : List Char} (h : path = [] ∨ path.head? = some '/') : withSlash path = path :=
  if_neg fun hn => h.elim hn.1 hn.2

theorem withSlash_cases (path : List Char) : withSlash path = path ∧ (path = [] ∨ path.head? = some '/') ∨
    withSlash path = '/' :: path ∧ path ≠ [] ∧ path.head? ≠ some '/' := by
  by_cases h : path ≠ [] ∧ path.head? ≠ some '/'
  · exact .inr ⟨if_pos h, h⟩
  · have h : path = [] ∨ path.head? = some '/' := by tauto
    exact .inl ⟨withSlash_of h, h⟩

theorem withSlash_starts (path : List Char) : withSlash path = [] ∨ (withSlash path).head? = some '/' := by
  rcases withSlash_cases path with ⟨he, h⟩ | ⟨he, -⟩
  · rw [he]
    exact h
  · rw [he]
    exact .inr rfl

theorem head_of_take {path : List Char} (h : path.take 2 = ['/', '/']) : path.head? = some '/' := by
  cases path with
  | nil => cases h
  | cons c cs => exact congrArg some (List.cons.inj h).1

/-- It is the network location and the path after two slashes, or a path. -/
theorem hier_cases (u : Unsplit) (p : Parts) : hier u p = '/' :: '/' :: (p.netloc ++ withSlash p.path) ∨
    (hier u p = p.path ∧ p.netloc = []) := by
  cases u with
  | older | patched =>
    unfold hier
    dsimp only
    split
    · exact .inl rfl
    · rename_i h
      exact .inr ⟨rfl, by tauto⟩
  | current =>
    unfold hier
    dsimp only
    split
    · exact .inl rfl
    · rename_i hn
      have hnil : p.netloc = [] := Classical.not_not.mp hn
      split
      · rename_i ht
        refine .inl ?_
        rw [hnil, withSlash_of (.inr (head_of_take ht))]
        rfl
      · split
        · rename_i hu
          refine .inl ?_
          rw [hnil, withSlash_of hu.2.2]
          rfl
        · exact .inr ⟨rfl, hnil⟩

/-- In the last of the releases a path gets no slash that it does not have, and does not
begin with two where there is no network location before it. -/
theorem hier_current {check : List Char → Bool} {p : Parts} (hp : p.WF v check) :
    (hier .current p = '/' :: '/' :: (p.netloc ++ p.path) ∧ (p.path = [] ∨ p.path.head? = some '/')) ∨
      (hier .current p = p.path ∧ p.netloc = [] ∧ p.path.take 2 ≠ ['/', '/']) := by
  unfold hier
  dsimp only
  split
  · rename_i hn
    rw [withSlash_of (hp.rooted hn)]
    exact .inl ⟨rfl, hp.rooted hn⟩
  · rename_i hn
    have hnil : p.netloc = [] := Classical.not_not.mp hn
    split
    · rename_i ht
      exact .inl ⟨by rw [hnil]; rfl, .inr (head_of_take ht)⟩
    · rename_i ht
      split
      · rename_i hu
        exact .inl ⟨by rw [hnil]; rfl, hu.2.2⟩
      · exact .inr ⟨rfl, hnil, ht⟩

/-- A query with its question mark. -/
def queryPart (query : List Char) : List Char := if query ≠ [] then '?' :: query else []

theorem unsplit_eq (u : Unsplit) (p : Parts) (query : List Char) : unsplit u { p with query, fragment := [] } =
    (if p.scheme ≠ [] then p.scheme ++ [':'] else []) ++ (hier u p ++ queryPart query) := by
  have hhier : hier u { p with query, fragment := [] } = hier u p := by cases u <;> rfl
  unfold unsplit
  rw [hhier]
  simp only [ne_eq, not_true_eq_false, if_false]
  show (if query ≠ [] then (if p.scheme ≠ [] then p.scheme ++ ':' :: hier u p else hier u p) ++ '?' :: query
    else if p.scheme ≠ [] then p.scheme ++ ':' :: hier u p else hier u p) = _
  unfold queryPart
  split <;> split <;> simp

/-- No character that a query is written with divides a URL. -/
theorem queryChar_spec {c : Char} (h : isQueryChar c = true) : c ≠ ':' ∧ c ≠ '#' ∧ isRemoved c = false := by
  refine ⟨fun e => ?_, fun e => ?_, ?_⟩
  · rw [e] at h
    exact absurd h (by decide)
  · rw [e] at h
    exact absurd h (by decide)
  · rw [← Bool.not_eq_true]
    intro hr
    simp only [isRemoved, Bool.or_eq_true, decide_eq_true_eq] at hr
    rcases hr with (rfl | rfl) | rfl <;> exact absurd h (by decide)

theorem schemeChar_spec {c : Char} (h : isSchemeChar c = true) : c ≠ ':' ∧ isRemoved c = false := by
  refine ⟨fun e => ?_, ?_⟩
  · rw [e] at h
    exact absurd h (by decide)
  · rw [← Bool.not_eq_true]
    intro hr
    simp only [isRemoved, Bool.or_eq_true, decide_eq_true_eq] at hr
    rcases hr with (rfl | rfl) | rfl <;> exact absurd h (by decide)

theorem not_stripped_of_schemeChar {c : Char} (h : isSchemeChar c = true) : isStripped c = false := by
  have hp := forall_ascii (p := fun c => !isSchemeChar c || !isStripped c) (by decide +kernel) (schemeChar_lt h)
  simpa [h] using hp

section
variable {check : List Char → Bool} {p : Parts} (hp : p.WF v check) (u : Unsplit) {query : List Char}
  (hq : ∀ c ∈ query, isQueryChar c = true)
include hp hq

omit hp in
theorem mem_queryPart {c : Char} (h : c ∈ queryPart query) : c ≠ ':' ∧ c ≠ '#' ∧ isRemoved c = false := by
  unfold queryPart at h
  split at h
  · rcases List.mem_cons.mp h with rfl | h
    · decide
    · exact queryChar_spec (hq c h)
  · exact absurd h List.not_mem_nil

theorem not_removed_hier {c : Char} (h : c ∈ hier u p ++ queryPart query) : isRemoved c = false := by
  rcases List.mem_append.mp h with h | h
  · rcases hier_cases u p with he | ⟨he, -⟩
    · rw [he] at h
      simp only [List.mem_cons, List.mem_append] at h
      rcases h with rfl | rfl | h | h
      · decide
      · decide
      · exact (hp.netloc c h).2
      · rcases withSlash_cases p.path with ⟨hs, -⟩ | ⟨hs, -⟩
        · exact (hp.path c (hs ▸ h)).2.2
        · rw [hs] at h
          rcases List.mem_cons.mp h with rfl | h
          · decide
          · exact (hp.path c h).2.2
    · rw [he] at h
      exact (hp.path c h).2.2
  · exact (mem_queryPart hq h).2.2

/-- Without a scheme nothing of it is taken for one, and nothing is stripped. -/
theorem bare_hier (hs : p.scheme = []) : hasScheme v (hier u p ++ queryPart query) = false ∧
    (v.strips = true → (hier u p ++ queryPart query).head?.any isStripped = false) := by
  rcases hier_cases u p with he | ⟨he, hn⟩
  · rw [he]
    exact ⟨hasScheme_slash _, fun _ => rfl⟩
  · obtain ⟨hno, hhead⟩ := hp.bare hs hn
    rw [he]
    constructor
    · by_cases hc : ':' ∈ p.path
      · rw [hasScheme_append hc, hno]
      · refine hasScheme_of_not_mem fun hm => ?_
        exact (List.mem_append.mp hm).elim hc fun h => (mem_queryPart hq h).1 rfl
    · intro hv
      have hhead := hhead hv
      cases hpath : p.path with
      | nil =>
        unfold queryPart
        split <;> rfl
      | cons c cs =>
        rw [hpath] at hhead
        exact hhead

theorem splitScheme_unsplit : splitScheme v (unsplit u { p with query, fragment := [] }) =
    (p.scheme, hier u p ++ queryPart query) := by
  rw [unsplit_eq]
  rcases hp.scheme with hs | ⟨halpha, hall, hlower⟩
  · rw [hs, if_neg (fun h => h rfl), List.nil_append]
    exact splitScheme_of (bare_hier hp u hq hs).1
  · have hne : p.scheme ≠ [] := fun h => by
      rw [h] at halpha
      cases halpha
    have hcolon : ∀ c ∈ p.scheme, decide (c ≠ ':') = true := fun c hc =>
      decide_eq_true (schemeChar_spec (List.all_eq_true.mp hall c hc)).1
    rw [if_pos hne, List.append_assoc]
    have hbefore : beforeColon (p.scheme ++ ([':'] ++ (hier u p ++ queryPart query))) = p.scheme := by
      unfold beforeColon
      rw [List.takeWhile_append_of_pos hcolon]
      simp
    have hcontains : (p.scheme ++ ([':'] ++ (hier u p ++ queryPart query))).contains ':' = true :=
      List.contains_iff_mem.mpr (List.mem_append_right _ List.mem_cons_self)
    have hhas : hasScheme v (p.scheme ++ ([':'] ++ (hier u p ++ queryPart query))) = true := by
      unfold hasScheme
      rw [hbefore, hcontains, halpha, hall]
      rfl
    rw [splitScheme, hhas, if_pos rfl, hbefore, hlower]
    refine congrArg (p.scheme, ·) ?_
    rw [← List.append_assoc]
    exact List.drop_left' (by simp)

theorem cleaned_unsplit : cleaned v (unsplit u { p with query, fragment := [] }) =
    unsplit u { p with query, fragment := [] } := by
  rw [unsplit_eq]
  refine cleaned_eq_self (fun hv => ?_) fun c hc => ?_
  · rcases hp.scheme with hs | ⟨-, hall, -⟩
    · rw [hs, if_neg (fun h => h rfl), List.nil_append]
      exact (bare_hier hp u hq hs).2 hv
    · cases hs : p.scheme with
      | nil =>
        rw [if_neg (fun h => h rfl), List.nil_append]
        exact (bare_hier hp u hq hs).2 hv
      | cons c cs =>
        rw [hs] at hall
        exact not_stripped_of_schemeChar (List.all_eq_true.mp hall c List.mem_cons_self)
  · rcases List.mem_append.mp hc with hc | hc
    · rcases hp.scheme with hs | ⟨-, hall, -⟩
      · rw [hs, if_neg (fun h => h rfl)] at hc
        exact absurd hc List.not_mem_nil
      · split at hc
        · rcases List.mem_append.mp hc with hc | hc
          · exact (schemeChar_spec (List.all_eq_true.mp hall c hc)).2
          · obtain rfl := List.mem_singleton.mp hc
            decide
        · exact absurd hc List.not_mem_nil
    · exact not_removed_hier hp u hq hc

omit hq in
theorem splitNetloc_hier : splitNetloc (hier .current p ++ queryPart query) = (p.netloc, p.path ++ queryPart query) := by
  have hmark : (queryPart query).head?.all isDelimiter = true := by
    unfold queryPart
    split <;> rfl
  rcases hier_current hp with ⟨he, hroot⟩ | ⟨he, hn, ht⟩
  · rw [he, List.cons_append, List.cons_append, List.append_assoc]
    refine splitNetloc_slashes (fun c hc => (hp.netloc c hc).1) ?_
    cases hpath : p.path with
    | nil => exact hmark
    | cons c cs =>
      rw [hpath] at hroot
      obtain rfl : c = '/' := Option.some.inj (hroot.resolve_left (List.cons_ne_nil _ _))
      rfl
  · rw [he, hn]
    refine splitNetloc_of fun h => ?_
    match hpath : p.path, h, ht with
    | [], h, _ =>
      unfold queryPart at h
      split at h
      · rw [List.nil_append, List.take_succ_cons] at h
        exact absurd (List.cons.inj h).1 (by decide)
      · cases h
    | [c], h, _ =>
      unfold queryPart at h
      split at h
      · rw [List.singleton_append, List.take_succ_cons, List.take_succ_cons] at h
        exact absurd (List.cons.inj (List.cons.inj h).2).1 (by decide)
      · cases h
    | c :: d :: cs, h, ht => exact ht h

omit hp hq in
theorem partition_queryPart {xs : List Char} (h : '?' ∉ xs) : partition '?' (xs ++ queryPart query) = (xs, query) := by
  unfold queryPart
  split
  · exact partition_append h query
  · rename_i hnil
    rw [List.append_nil, partition_of_not_mem h, Classical.not_not.mp hnil]

/-- The parts, with this query, are split off from what they are put together to. -/
theorem split_unsplit : split v check (unsplit .current { p with query, fragment := [] }) =
    some { p with query, fragment := [] } := by
  have hhash : '#' ∉ p.path ++ queryPart query := fun h =>
    (List.mem_append.mp h).elim (fun h => (hp.path _ h).2.1 rfl) fun h => (mem_queryPart hq h).2.1 rfl
  have hquery : partition '?' (p.path ++ queryPart query) = (p.path, query) :=
    partition_queryPart fun h => (hp.path _ h).1 rfl
  unfold split
  rw [show (if v.strips then List.dropWhile isStripped (unsplit .current { p with query, fragment := [] })
      else unsplit .current { p with query, fragment := [] }).filter (fun c => !isRemoved c) =
    unsplit .current { p with query, fragment := [] } from cleaned_unsplit hp .current hq]
  simp only [splitScheme_unsplit hp .current hq, splitNetloc_hier hp, partition_of_not_mem hhash, hquery]
  exact if_pos hp.checked

end

end Url
