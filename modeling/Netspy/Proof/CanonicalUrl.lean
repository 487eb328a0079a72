import Netspy.Framework.Url.Unsplit
import Netspy.Impl.CanonicalUrl
import Netspy.Proof.Fingerprint

/-!
# What the normalisation of a URL forgets

The query of the canonical URL is parsed as the same pairs of texts, so the order is
forgotten and the fragment, and which bytes were replaced by U+FFFD. What is before the
query is told in the last releases of CPython only (`canonicalUrl_forgets_iff`).
-/

namespace Netspy

namespace Request

variable (v : Url.Release) (check : List Char → Bool) (lib : Stdlib)

/-- `_canonical_url` of a request of this URL. -/
def canonicalUrlOf (url : String) : Except Exn String := canonicalUrl (urllib v check lib) { url }

/-- `urlsplit` gives the same scheme, network location and path for both, and the
queries have the same pairs of bytes, in any order. -/
def SamePage (u w : String) : Prop :=
  ∀ p q, (urllib v check lib).urlsplit u = .ok p → (urllib v check lib).urlsplit w = .ok q →
  p.scheme = q.scheme ∧ p.netloc = q.netloc ∧ p.path = q.path ∧
    (Url.rawPairs p.query.toList).Perm (Url.rawPairs q.query.toList)

/-- Every name and value of the query is the bytes of a text without U+FFFD. -/
def QueryIsText (u : String) : Prop := ∀ p, (urllib v check lib).urlsplit u = .ok p →
  ∀ b ∈ Url.rawPairs p.query.toList, Url.IsText b.1 ∧ Url.IsText b.2

/-- The five parts on lists of characters. -/
def partsOf (s : SplitResult) : Url.Parts :=
  ⟨s.scheme.toList, s.netloc.toList, s.path.toList, s.query.toList, s.fragment.toList⟩

/-- No other network location and path of the scheme are put together to the same
text. -/
def PageIsAlone (u : String) : Prop := ∀ p, (urllib v check lib).urlsplit u = .ok p →
  Url.Alone v.unsplit check (partsOf p)

/-! ## On lists of characters -/

/-- The pairs in the order in which they are written. -/
def sortedTexts (ps : List (List Char × List Char)) : List (List Char × List Char) :=
  (sortedPairs (ps.map fun p => (.ofList p.1, .ofList p.2))).map fun p => (p.1.toList, p.2.toList)

theorem sortedTexts_perm (ps : List (List Char × List Char)) : (sortedTexts ps).Perm ps := by
  have hperm : (sortedPairs (ps.map fun p => (String.ofList p.1, String.ofList p.2))).Perm _ :=
    List.perm_insertionSort _ _
  refine (hperm.map _).trans ?_
  rw [List.map_map]
  refine List.Perm.of_eq ((List.map_congr_left fun p _ => ?_).trans (List.map_id _))
  show ((String.ofList p.1).toList, (String.ofList p.2).toList) = p
  rw [String.toList_ofList, String.toList_ofList]

/-- The order of Python's tuples of strings. -/
def pairLe (a b : String × String) : Prop := a.1 < b.1 ∨ a.1 = b.1 ∧ a.2 ≤ b.2

instance (a b : String × String) : Decidable (pairLe a b) :=
  inferInstanceAs (Decidable (a.1 < b.1 ∨ a.1 = b.1 ∧ a.2 ≤ b.2))

instance : Std.Total pairLe where
  total a b := by
    by_cases he : a.1 = b.1
    · exact (String.le_total a.2 b.2).imp (fun h => .inr ⟨he, h⟩) fun h => .inr ⟨he.symm, h⟩
    · by_cases hlt : a.1 < b.1
      · exact .inl (.inl hlt)
      · have hle : b.1 ≤ a.1 := String.not_lt.mp hlt
        refine .inr (.inl (String.not_le.mp fun h => he (String.le_antisymm h hle)))

instance : IsTrans (String × String) pairLe where
  trans a b c := by
    rintro (h | ⟨h, hl⟩) (h' | ⟨h', hl'⟩)
    · exact .inl (String.lt_trans h h')
    · exact .inl (h' ▸ h)
    · exact .inl (h ▸ h')
    · exact .inr ⟨h.trans h', String.le_trans hl hl'⟩

theorem sortedPairs_sorted (ps : List (String × String)) : sortedPairs (sortedPairs ps) = sortedPairs ps :=
  List.Pairwise.insertionSort_eq (r := pairLe) (List.pairwise_insertionSort pairLe ps)

/-- Sorting again changes nothing. -/
theorem sortedTexts_sorted (ps : List (List Char × List Char)) : sortedTexts (sortedTexts ps) = sortedTexts ps := by
  have hback (qs : List (String × String)) :
      (qs.map fun p => (p.1.toList, p.2.toList)).map (fun p => (String.ofList p.1, String.ofList p.2)) = qs := by
    rw [List.map_map]
    refine (List.map_congr_left fun p _ => ?_).trans (List.map_id _)
    show (String.ofList p.1.toList, String.ofList p.2.toList) = p
    rw [String.ofList_toList, String.ofList_toList]
  unfold sortedTexts
  rw [hback, sortedPairs_sorted]

/-- The parts of the canonical URL. -/
def canonicalParts (p : Url.Parts) : Url.Parts :=
  { p with query := Url.urlencode (sortedTexts (Url.parseQsl p.query)), fragment := [] }

/-- The five parts as `urlsplit` gives them. -/
def ofParts (p : Url.Parts) : SplitResult :=
  ⟨.ofList p.scheme, .ofList p.netloc, .ofList p.path, .ofList p.query, .ofList p.fragment⟩

theorem partsOf_ofParts (p : Url.Parts) : partsOf (ofParts p) = p := by
  simp only [partsOf, ofParts, String.toList_ofList]

theorem urlsplit_some {url : String} {p : Url.Parts} (h : Url.split v check url.toList = some p) :
    (urllib v check lib).urlsplit url = .ok (ofParts p) := by
  simp only [urllib, h]
  rfl

theorem urlsplit_none {url : String} (h : Url.split v check url.toList = none) :
    (urllib v check lib).urlsplit url = .error "ValueError" := by
  simp only [urllib, h]

theorem parseQsl_urllib (query : List Char) : (urllib v check lib).parseQsl (.ofList query) =
    (Url.parseQsl query).map fun p => (.ofList p.1, .ofList p.2) := by
  show (Url.parseQsl (String.ofList query).toList).map _ = _
  rw [String.toList_ofList]

theorem urlencode_urllib (ps : List (List Char × List Char)) :
    (urllib v check lib).urlencode (sortedPairs (ps.map fun p => (.ofList p.1, .ofList p.2))) =
      .ofList (Url.urlencode (sortedTexts ps)) := rfl

theorem urlunsplit_urllib (p : Url.Parts) :
    (urllib v check lib).urlunsplit (ofParts p) = .ofList (Url.unsplit v.unsplit p) := by
  show String.ofList (Url.unsplit v.unsplit (partsOf (ofParts p))) = _
  rw [partsOf_ofParts]

theorem canonicalUrlOf_some {url : String} {p : Url.Parts} (h : Url.split v check url.toList = some p) :
    canonicalUrlOf v check lib url = .ok (.ofList (Url.unsplit v.unsplit (canonicalParts p))) := by
  have hquery : (urllib v check lib).urlencode (sortedPairs ((urllib v check lib).parseQsl (ofParts p).query)) =
      .ofList (canonicalParts p).query := by
    rw [show (ofParts p).query = .ofList p.query from rfl, parseQsl_urllib, urlencode_urllib]
    rfl
  rw [← urlunsplit_urllib v check lib]
  unfold canonicalUrlOf canonicalUrl
  rw [urlsplit_some v check lib h]
  simp only [bind, Except.bind, hquery]
  rfl

theorem canonicalUrlOf_none {url : String} (h : Url.split v check url.toList = none) :
    canonicalUrlOf v check lib url = .error "ValueError" := by
  unfold canonicalUrlOf canonicalUrl
  rw [urlsplit_none v check lib h]
  rfl

/-! ## What is forgotten -/

theorem canonicalParts_query (p : Url.Parts) : ∀ c ∈ (canonicalParts p).query, Url.isQueryChar c = true := by
  intro c hc
  have hc : c ∈ Url.urlencode (sortedTexts (Url.parseQsl p.query)) := hc
  rw [Url.urlencode_eq] at hc
  exact Url.encodePairs_isQueryChar hc

variable {v check} in
/-- Two URLs with one canonical URL have the same scheme and text before the query, and
the same pairs of texts. -/
theorem texts_of_canonical {u w : List Char} {p q : Url.Parts} (hu : Url.split v check u = some p)
    (hw : Url.split v check w = some q)
    (h : Url.unsplit v.unsplit (canonicalParts p) = Url.unsplit v.unsplit (canonicalParts q)) :
    p.scheme = q.scheme ∧ Url.hier v.unsplit p = Url.hier v.unsplit q ∧
      (Url.parseQsl p.query).Perm (Url.parseQsl q.query) := by
  obtain ⟨hscheme, hhier, hquery⟩ :=
    Url.unsplit_inj (Url.wf_split hu) (Url.wf_split hw) (canonicalParts_query p) (canonicalParts_query q) h
  have hsorted := congrArg Url.parseQsl hquery
  rw [show (canonicalParts p).query = Url.urlencode (sortedTexts (Url.parseQsl p.query)) from rfl,
    show (canonicalParts q).query = Url.urlencode (sortedTexts (Url.parseQsl q.query)) from rfl,
    Url.parseQsl_urlencode, Url.parseQsl_urlencode] at hsorted
  exact ⟨hscheme, hhier, (sortedTexts_perm _).symm.trans (hsorted ▸ sortedTexts_perm _)⟩

variable {v check} in
/-- Parts with the scheme and the text before the query, and any pairs of bytes for the
texts, make a URL with the same canonical one. -/
theorem canonical_of_parts {p q : Url.Parts} (hq : q.WF v check) (hs : q.scheme = p.scheme)
    (hh : Url.hier v.unsplit q = Url.hier v.unsplit p) {rs : List (List UInt8 × List UInt8)}
    (hr : rs.map Url.decodePair = sortedTexts (Url.parseQsl p.query)) :
    ∃ w q', Url.split v check w = some q' ∧ q'.netloc = q.netloc ∧ q'.path = q.path ∧ Url.rawPairs q'.query = rs ∧
      Url.unsplit v.unsplit (canonicalParts q') = Url.unsplit v.unsplit (canonicalParts p) := by
  refine ⟨_, _, Url.split_unsplit hq fun c hc => Url.encodePairs_isQueryChar hc, rfl, rfl, Url.rawPairs_encodePairs rs, ?_⟩
  have hquery : (canonicalParts { q with query := Url.encodePairs rs, fragment := [] }).query = (canonicalParts p).query := by
    show Url.urlencode (sortedTexts (Url.parseQsl (Url.encodePairs rs))) = Url.urlencode (sortedTexts (Url.parseQsl p.query))
    rw [Url.parseQsl_eq, Url.rawPairs_encodePairs, hr, sortedTexts_sorted]
  have hcanon : canonicalParts { q with query := Url.encodePairs rs, fragment := [] } =
      { q with query := (canonicalParts p).query, fragment := [] } := by
    rw [← hquery]
    rfl
  rw [hcanon]
  exact Url.unsplit_congr hs hh _

theorem samePage_iff {u w : String} {p q : Url.Parts} (hu : Url.split v check u.toList = some p)
    (hw : Url.split v check w.toList = some q) : SamePage v check lib u w ↔
      p.scheme = q.scheme ∧ p.netloc = q.netloc ∧ p.path = q.path ∧
        (Url.rawPairs p.query).Perm (Url.rawPairs q.query) := by
  unfold SamePage
  rw [urlsplit_some v check lib hu, urlsplit_some v check lib hw]
  constructor
  · intro h
    have h := h _ _ rfl rfl
    simpa only [ofParts, String.ofList_inj, String.toList_ofList] using h
  · rintro h _ _ ⟨⟩ ⟨⟩
    simpa only [ofParts, String.ofList_inj, String.toList_ofList] using h

theorem queryIsText_iff {u : String} {p : Url.Parts} (hu : Url.split v check u.toList = some p) :
    QueryIsText v check lib u ↔ ∀ t ∈ Url.parseQsl p.query, Url.isReplaced t = false := by
  unfold QueryIsText
  rw [urlsplit_some v check lib hu, Url.parseQsl_eq, List.forall_mem_map]
  constructor
  · intro h b hb
    refine Url.isReplaced_eq_false.mpr (h _ rfl b ?_)
    rwa [show (ofParts p).query = .ofList p.query from rfl, String.toList_ofList]
  · rintro h _ ⟨⟩ b hb
    rw [show (ofParts p).query = .ofList p.query from rfl, String.toList_ofList] at hb
    exact Url.isReplaced_eq_false.mp (h b hb)

theorem pageIsAlone_iff {u : String} {p : Url.Parts} (hu : Url.split v check u.toList = some p) :
    PageIsAlone v check lib u ↔ Url.Alone v.unsplit check p := by
  unfold PageIsAlone
  rw [urlsplit_some v check lib hu]
  constructor
  · intro h
    have halone := h _ rfl
    rwa [partsOf_ofParts] at halone
  · rintro h _ ⟨⟩
    rwa [partsOf_ofParts]

/-- The pairs of bytes are those of the texts, where nothing was replaced. -/
theorem rawPairs_of_text {query : List Char} (h : ∀ t ∈ Url.parseQsl query, Url.isReplaced t = false) :
    (Url.parseQsl query).map Url.encodePair = Url.rawPairs query := by
  rw [Url.parseQsl_eq, List.forall_mem_map] at h
  rw [Url.parseQsl_eq, List.map_map]
  exact (List.map_congr_left fun b hb => Url.encodePair_decodePair (h b hb)).trans (List.map_id _)

/-- The query of the search for a word, in GBK. -/
def gbkParts (query : String) : Url.Parts := ⟨"http".toList, "a".toList, "/".toList, query.toList, []⟩

/-- CPython 3.13. -/
def lastRelease : Url.Release := ⟨true, true, .current⟩

end Request

end Netspy
