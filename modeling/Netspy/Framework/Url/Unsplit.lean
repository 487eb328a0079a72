import Netspy.Framework.Url.Split

/-!
# What `urlunsplit` tells apart

Two network locations and paths of one scheme may be put together to the same text:
before `urlunsplit` was patched, each URL with a network location has another one that
has it in its path, and after that a path may still get the slash that another one has.
`Alone` says of which parts this is not so (`alone_iff`), and from the text the scheme
and the query can be told in every release (`unsplit_inj`).
-/

namespace Url

/-- A scheme that is followed by two slashes. -/
def usesSlashes (scheme : List Char) : Prop := scheme ≠ [] ∧ scheme ∈ usesNetloc

instance (scheme : List Char) : Decidable (usesSlashes scheme) := inferInstanceAs (Decidable (_ ∧ _))

/-- No other network location and path of the scheme are put together to the same
text. -/
def Alone (u : Unsplit) (check : List Char → Bool) (p : Parts) : Prop :=
  match u with
  | .older =>
    p.netloc = [] ∧
      match p.path with
      | '/' :: '/' :: rest =>
        let netloc := rest.takeWhile fun c => !isDelimiter c
        if netloc = [] then usesSlashes p.scheme → rest.take 2 = ['/', '/'] else isNetloc check netloc = false
      | _ => ¬ usesSlashes p.scheme
  | .patched =>
    p.netloc = [] → usesSlashes p.scheme → p.path = [] ∨ p.path = ['/'] ∨ p.path.take 2 = ['/', '/']
  | .current => True

variable {v : Release} {u : Unsplit} {check : List Char → Bool} {p q : Parts}

/-- What is put together has no question mark. -/
theorem not_mem_hier (hp : p.WF v check) : '?' ∉ hier u p := by
  have hpath : '?' ∉ p.path := fun h => (hp.path _ h).1 rfl
  intro h
  rcases hier_cases u p with he | ⟨he, -⟩
  · rw [he] at h
    simp only [List.mem_cons, List.mem_append] at h
    rcases h with h | h | h | h
    · exact absurd h (by decide)
    · exact absurd h (by decide)
    · exact absurd (hp.netloc _ h).1 (by decide)
    · rcases withSlash_cases p.path with ⟨hs, -⟩ | ⟨hs, -⟩
      · exact hpath (hs ▸ h)
      · rw [hs] at h
        exact (List.mem_cons.mp h).elim (by decide) hpath
  · exact hpath (he ▸ h)

/-- The text tells the scheme, the query and what is between them. -/
theorem unsplit_inj (hp : p.WF v check) (hq : q.WF v check) {a b : List Char} (ha : ∀ c ∈ a, isQueryChar c = true)
    (hb : ∀ c ∈ b, isQueryChar c = true)
    (h : unsplit u { p with query := a, fragment := [] } = unsplit u { q with query := b, fragment := [] }) :
    p.scheme = q.scheme ∧ hier u p = hier u q ∧ a = b := by
  have hsplit := splitScheme_unsplit hp u ha
  rw [h, splitScheme_unsplit hq u hb] at hsplit
  obtain ⟨hscheme, hrest⟩ := Prod.mk.inj hsplit
  have hparts := congrArg (partition '?') hrest
  rw [partition_queryPart (not_mem_hier hp), partition_queryPart (not_mem_hier hq)] at hparts
  obtain ⟨hhier, hquery⟩ := Prod.mk.inj hparts
  exact ⟨hscheme.symm, hhier.symm, hquery.symm⟩

theorem unsplit_congr (hs : p.scheme = q.scheme) (hh : hier u p = hier u q) (query : List Char) :
    unsplit u { p with query, fragment := [] } = unsplit u { q with query, fragment := [] } := by
  rw [unsplit_eq, unsplit_eq, hs, hh]

theorem head_all_of_starts {path : List Char} (h : path = [] ∨ path.head? = some '/') :
    path.head?.all isDelimiter = true := by
  rcases h with rfl | h
  · rfl
  · rw [h]
    rfl

/-! ## The last release -/

theorem eq_of_hier_current (hp : p.WF v check) (hq : q.WF v check) (h : hier .current q = hier .current p) :
    q.netloc = p.netloc ∧ q.path = p.path := by
  have hsplit : splitNetloc (hier .current q ++ queryPart []) = (q.netloc, q.path ++ queryPart []) := splitNetloc_hier hq
  have hsplit' : splitNetloc (hier .current p ++ queryPart []) = (p.netloc, p.path ++ queryPart []) := splitNetloc_hier hp
  simp only [queryPart, ne_eq, not_true_eq_false, if_false, List.append_nil] at hsplit hsplit'
  rw [h, hsplit'] at hsplit
  obtain ⟨hn, hpath⟩ := Prod.mk.inj hsplit
  exact ⟨hn.symm, hpath.symm⟩

/-- A path that begins with a slash once another one is put before it has begun with one. -/
theorem take_cons_slash {path : List Char} (hne : path ≠ []) (hhead : path.head? ≠ some '/') :
    ('/' :: path).take 2 ≠ ['/', '/'] := by
  cases path with
  | nil => exact absurd rfl hne
  | cons c cs =>
    rw [List.take_succ_cons, List.take_succ_cons]
    exact fun h => hhead (congrArg some (List.cons.inj (List.cons.inj h).2).1)

/-! ## The patched releases -/

/-- The text tells the network location, and the path but for its first slash. -/
theorem splitNetloc_patched (hp : p.WF v check) : splitNetloc (hier .patched p) =
    (p.netloc, if usesSlashes p.scheme then withSlash p.path else p.path) := by
  unfold hier
  dsimp only
  split
  · rename_i h
    rw [List.append_assoc, List.cons_append, List.cons_append, List.nil_append,
      splitNetloc_slashes (fun c hc => (hp.netloc c hc).1) (head_all_of_starts (withSlash_starts _))]
    split
    · rfl
    · rename_i hu
      refine congrArg (p.netloc, ·) (withSlash_of ?_)
      rcases h with hn | hs | ht
      · exact hp.rooted hn
      · exact absurd hs hu
      · exact .inr (head_of_take ht)
  · rename_i h
    have hn : p.netloc = [] := by tauto
    have hu : ¬ usesSlashes p.scheme := fun hu => h (.inr (.inl hu))
    rw [splitNetloc_of fun ht => h (.inr (.inr ht)), hn, if_neg hu]

theorem eq_of_hier_patched (hp : p.WF v check) (hq : q.WF v check) (halone : Alone .patched check p)
    (hs : q.scheme = p.scheme) (h : hier .patched q = hier .patched p) : q.netloc = p.netloc ∧ q.path = p.path := by
  have hsplit := splitNetloc_patched hq
  rw [h, splitNetloc_patched hp, hs] at hsplit
  obtain ⟨hn, hpath⟩ := Prod.mk.inj hsplit
  refine ⟨hn.symm, ?_⟩
  split at hpath
  · rename_i hu
    by_cases hnil : p.netloc = []
    · have hroot : p.path = [] ∨ p.path.head? = some '/' := by
        rcases halone hnil hu with hp | hp | hp
        · exact .inl hp
        · exact .inr (by rw [hp]; rfl)
        · exact .inr (head_of_take hp)
      rw [withSlash_of hroot] at hpath
      rcases withSlash_cases q.path with ⟨he, -⟩ | ⟨he, hne, hhead⟩
      · exact (hpath.trans he).symm
      · -- the path of `p` would be that of `q` after a slash
        rw [he] at hpath
        rcases halone hnil hu with hp | hp | hp
        · rw [hp] at hpath
          cases hpath
        · rw [hp] at hpath
          exact absurd (List.cons.inj hpath).2.symm hne
        · exact absurd (hpath ▸ hp) (take_cons_slash hne hhead)
    · rw [withSlash_of (hp.rooted hnil), withSlash_of (hq.rooted (hn ▸ hnil))] at hpath
      exact hpath.symm
  · exact hpath.symm

/-- With a scheme, any path without a network location is that of a URL. -/
theorem WF_of_path (hp : p.WF v check) (hs : p.scheme ≠ []) {path : List Char}
    (hpath : ∀ c ∈ path, c ≠ '?' ∧ c ≠ '#' ∧ isRemoved c = false) : Parts.WF v check { p with netloc := [], path } where
  scheme := hp.scheme
  netloc := List.forall_mem_nil _
  checked := rfl
  path := hpath
  rooted h := absurd rfl h
  bare h := absurd h hs

theorem exists_other_patched (hp : p.WF v check) (h : ¬ Alone .patched check p) :
    ∃ netloc path, Parts.WF v check { p with netloc, path } ∧ hier .patched { p with netloc, path } = hier .patched p ∧
      ¬ (netloc = p.netloc ∧ path = p.path) := by
  simp only [Alone, Classical.not_imp, not_or] at h
  obtain ⟨hn, hu, hne, hone, ht⟩ := h
  have hslash {path : List Char} : hier .patched { p with netloc := [], path } = '/' :: '/' :: withSlash path :=
    if_pos (.inr (.inl hu))
  have hself : hier .patched p = '/' :: '/' :: withSlash p.path := by
    rw [← hslash, ← hn]
  cases hpath : p.path with
  | nil => exact absurd hpath hne
  | cons c cs =>
    rw [hpath] at hone ht hself
    by_cases hc : c = '/'
    · subst hc
      have hcs : cs ≠ [] := fun h => hone (by rw [h])
      have hhead : cs.head? ≠ some '/' := by
        intro hh
        obtain ⟨ds, rfl⟩ := List.head?_eq_some_iff.mp hh
        exact ht rfl
      refine ⟨[], cs, WF_of_path hp hu.1 fun d hd => hp.path d (hpath ▸ List.mem_cons_of_mem _ hd), ?_, fun h => ?_⟩
      · have hroot : withSlash ('/' :: cs) = '/' :: cs := withSlash_of (.inr rfl)
        rw [hslash, hself, hroot]
        exact congrArg (fun l => '/' :: '/' :: l) (if_pos ⟨hcs, hhead⟩)
      · exact absurd (congrArg List.length h.2) (by simp)
    · refine ⟨[], '/' :: c :: cs, WF_of_path hp hu.1 fun d hd => ?_, ?_, fun h => ?_⟩
      · rcases List.mem_cons.mp hd with rfl | hd
        · decide
        · exact hp.path d (hpath ▸ hd)
      · have hroot : withSlash ('/' :: c :: cs) = '/' :: c :: cs := withSlash_of (.inr rfl)
        have hpre : withSlash (c :: cs) = '/' :: c :: cs :=
          if_pos ⟨List.cons_ne_nil c cs, fun h => hc (Option.some.inj h)⟩
        rw [hslash, hself, hroot, hpre]
      · exact absurd (congrArg List.length h.2) (by simp)

/-! ## The older releases -/

theorem hier_older_of (h : p.netloc ≠ [] ∨ usesSlashes p.scheme ∧ p.path.take 2 ≠ ['/', '/']) :
    hier .older p = '/' :: '/' :: (p.netloc ++ withSlash p.path) := by
  have h : p.netloc ≠ [] ∨ p.scheme ≠ [] ∧ p.scheme ∈ usesNetloc ∧ p.path.take 2 ≠ ['/', '/'] :=
    h.imp_right and_assoc.mp
  unfold hier
  dsimp only
  rw [if_pos h]
  rfl

theorem hier_older_of_not (hn : p.netloc = []) (h : ¬ (usesSlashes p.scheme ∧ p.path.take 2 ≠ ['/', '/'])) :
    hier .older p = p.path := by
  have h : ¬ (p.netloc ≠ [] ∨ p.scheme ≠ [] ∧ p.scheme ∈ usesNetloc ∧ p.path.take 2 ≠ ['/', '/']) := by
    rintro (hn' | h')
    · exact hn' hn
    · exact h (and_assoc.mpr h')
  unfold hier
  dsimp only
  exact if_neg h

theorem eq_of_hier_older (hq : q.WF v check) (halone : Alone .older check p)
    (hs : q.scheme = p.scheme) (h : hier .older q = hier .older p) : q.netloc = p.netloc ∧ q.path = p.path := by
  obtain ⟨hn, hpath⟩ := halone
  have hnetloc : ∀ c ∈ q.netloc, isDelimiter c = false := fun c hc => (hq.netloc c hc).1
  split at hpath
  · rename_i rest hrest
    rw [hier_older_of_not hn fun hu => hu.2 (by rw [hrest]; rfl), hrest] at h
    by_cases hq' : q.netloc ≠ [] ∨ usesSlashes q.scheme ∧ q.path.take 2 ≠ ['/', '/']
    · -- then `rest` is the network location of `q` and its path
      rw [hier_older_of hq'] at h
      have hsplit := congrArg splitNetloc h
      rw [splitNetloc_slashes hnetloc (head_all_of_starts (withSlash_starts _))] at hsplit
      obtain ⟨hloc, hrestpath⟩ := Prod.mk.inj hsplit
      have hloc : q.netloc = rest.takeWhile fun c => !isDelimiter c := hloc
      have hrest' : rest = q.netloc ++ withSlash q.path := (List.cons.inj (List.cons.inj h).2).2.symm
      dsimp only at hpath
      split at hpath
      · rename_i hempty
        rw [hempty] at hloc
        rcases hq' with hq' | ⟨hu, ht⟩
        · exact absurd hloc hq'
        · have htake := hpath (hs ▸ hu)
          rw [hrest', hloc, List.nil_append] at htake
          rcases withSlash_cases q.path with ⟨he, -⟩ | ⟨he, hne, hhead⟩
          · exact absurd (he ▸ htake) ht
          · exact absurd (he ▸ htake) (take_cons_slash hne hhead)
      · have hchecked := hq.checked
        rw [hloc, hpath] at hchecked
        cases hchecked
    · obtain ⟨hqn, hqu⟩ := not_or.mp hq'
      have hqn : q.netloc = [] := Classical.not_not.mp hqn
      rw [hier_older_of_not hqn hqu] at h
      exact ⟨hqn.trans hn.symm, h.trans hrest.symm⟩
  · rename_i hno
    have htake : p.path.take 2 ≠ ['/', '/'] := by
      intro ht
      rcases splitNetloc_cases p.path with ⟨rest, hrest, -⟩ | ⟨hnot, -⟩
      · exact hno rest hrest
      · exact hnot ht
    rw [hier_older_of_not hn fun hu => hpath hu.1] at h
    by_cases hq' : q.netloc ≠ [] ∨ usesSlashes q.scheme ∧ q.path.take 2 ≠ ['/', '/']
    · rw [hier_older_of hq'] at h
      exact absurd (by rw [← h]; rfl) htake
    · obtain ⟨hqn, hqu⟩ := not_or.mp hq'
      have hqn : q.netloc = [] := Classical.not_not.mp hqn
      rw [hier_older_of_not hqn hqu] at h
      exact ⟨hqn.trans hn.symm, h⟩

/-- A network location, or two slashes more, can be in the path. -/
theorem other_of_slashes (hp : p.WF v check) (h : p.netloc ≠ [] ∨ usesSlashes p.scheme ∧ p.path.take 2 ≠ ['/', '/']) :
    ∃ path, Parts.WF v check { p with netloc := [], path } ∧ hier .older { p with netloc := [], path } = hier .older p ∧
      ¬ ([] = p.netloc ∧ path = p.path) := by
  refine ⟨'/' :: '/' :: (p.netloc ++ withSlash p.path), ?_, ?_, ?_⟩
  · refine ⟨hp.scheme, List.forall_mem_nil _, rfl, fun c hc => ?_, fun hn => absurd rfl hn,
      fun _ _ => ⟨hasScheme_slash _, fun _ => rfl⟩⟩
    simp only [List.mem_cons, List.mem_append] at hc
    have hslash : '/' ≠ '?' ∧ '/' ≠ '#' ∧ isRemoved '/' = false := by decide
    rcases hc with rfl | rfl | hc | hc
    · exact hslash
    · exact hslash
    · obtain ⟨hdel, hrem⟩ := hp.netloc c hc
      refine ⟨fun e => ?_, fun e => ?_, hrem⟩
      · rw [e] at hdel
        exact absurd hdel (by decide)
      · rw [e] at hdel
        exact absurd hdel (by decide)
    · rcases withSlash_cases p.path with ⟨he, -⟩ | ⟨he, -⟩
      · exact hp.path c (he ▸ hc)
      · rw [he] at hc
        rcases List.mem_cons.mp hc with rfl | hc
        · exact hslash
        · exact hp.path c hc
  · rw [hier_older_of h]
    exact hier_older_of_not rfl fun hu => hu.2 rfl
  · rintro ⟨hn, hpath⟩
    rcases h with h | ⟨-, ht⟩
    · exact h hn.symm
    · exact ht (by rw [← hpath]; rfl)

theorem exists_other_older (hp : p.WF v check) (h : ¬ Alone .older check p) :
    ∃ netloc path, Parts.WF v check { p with netloc, path } ∧ hier .older { p with netloc, path } = hier .older p ∧
      ¬ (netloc = p.netloc ∧ path = p.path) := by
  by_cases hslashes : p.netloc ≠ [] ∨ usesSlashes p.scheme ∧ p.path.take 2 ≠ ['/', '/']
  · exact ⟨[], other_of_slashes hp hslashes⟩
  · obtain ⟨hn, hu⟩ := not_or.mp hslashes
    have hn : p.netloc = [] := Classical.not_not.mp hn
    have hself := hier_older_of_not hn hu
    have h := fun hpath => h ⟨hn, hpath⟩
    split at h
    · rename_i rest hrest
      have hchars : ∀ c ∈ rest, c ≠ '?' ∧ c ≠ '#' ∧ isRemoved c = false := fun c hc =>
        hp.path c (by rw [hrest]; exact List.mem_cons_of_mem _ (List.mem_cons_of_mem _ hc))
      -- what follows a network location in a path begins with a slash
      have hstarts : ∀ cs ⊆ rest, cs.head?.all isDelimiter = true → cs = [] ∨ cs.head? = some '/' := by
        intro cs hsub hdel
        cases cs with
        | nil => exact .inl rfl
        | cons c cs =>
          obtain ⟨hq, hh, -⟩ := hchars c (hsub List.mem_cons_self)
          have hc : isDelimiter c = true := hdel
          simp only [isDelimiter, Bool.or_eq_true, decide_eq_true_eq] at hc
          exact .inr (congrArg some ((hc.resolve_right hh).resolve_right hq))
      have hdrop : (rest.dropWhile fun c => !isDelimiter c).head?.all isDelimiter = true := by
        cases hd : rest.dropWhile fun c => !isDelimiter c with
        | nil => rfl
        | cons c cs =>
          have := List.head?_dropWhile_not (fun c => !isDelimiter c) rest
          rw [hd] at this
          simpa using this
      have happend := List.takeWhile_append_dropWhile (p := fun c => !isDelimiter c) (l := rest)
      dsimp only at h
      split at h
      · rename_i hempty
        obtain ⟨hused, ht⟩ := Classical.not_imp.mp h
        rw [hempty, List.nil_append] at happend
        have hroot := hstarts rest (List.Subset.refl _) (happend ▸ hdrop)
        refine ⟨[], rest, WF_of_path hp hused.1 hchars, ?_, fun he => ?_⟩
        · have hother : hier .older { p with netloc := [], path := rest } = '/' :: '/' :: ([] ++ withSlash rest) :=
            hier_older_of (p := { p with netloc := [], path := rest }) (.inr ⟨hused, ht⟩)
          rw [hother, withSlash_of hroot, hself, hrest]
          rfl
        · have hlen := congrArg List.length (he.2.trans hrest)
          rw [List.length_cons, List.length_cons] at hlen
          omega
      · rename_i hloc
        refine ⟨rest.takeWhile fun c => !isDelimiter c, rest.dropWhile fun c => !isDelimiter c, ?_, ?_, fun he =>
            hloc (he.1.trans hn)⟩
        · have hroot := hstarts _ (List.dropWhile_subset _) hdrop
          refine ⟨hp.scheme, fun c hc => ⟨?_, (hchars c (List.takeWhile_subset _ hc)).2.2⟩, ?_,
            fun c hc => hchars c (List.dropWhile_subset _ hc), fun _ => hroot, fun _ he => absurd he hloc⟩
          · simpa using List.mem_takeWhile_imp hc
          · exact Bool.not_eq_false _ ▸ h
        · rw [hier_older_of (p := { p with netloc := _, path := _ }) (.inl hloc),
            withSlash_of (hstarts _ (List.dropWhile_subset _) hdrop), hself, hrest]
          exact congrArg (fun l => '/' :: '/' :: l) happend
    · rename_i hno
      refine absurd ⟨Classical.not_not.mp h, fun ht => ?_⟩ hu
      rcases splitNetloc_cases p.path with ⟨rest, hrest, -⟩ | ⟨hnot, -⟩
      · exact hno rest hrest
      · exact hnot ht

/-- Parts are alone exactly if every URL of the scheme that is put together to the same
text has their network location and path. -/
theorem alone_iff (hp : p.WF v check) : Alone u check p ↔
    ∀ q : Parts, q.WF v check → q.scheme = p.scheme → hier u q = hier u p → q.netloc = p.netloc ∧ q.path = p.path := by
  constructor
  · intro halone q hq hs he
    cases u with
    | older => exact eq_of_hier_older hq halone hs he
    | patched => exact eq_of_hier_patched hp hq halone hs he
    | current => exact eq_of_hier_current hp hq he
  · intro hall
    by_contra halone
    have hother : ∃ netloc path, Parts.WF v check { p with netloc, path } ∧ hier u { p with netloc, path } = hier u p ∧
        ¬ (netloc = p.netloc ∧ path = p.path) := by
      cases u with
      | older => exact exists_other_older hp halone
      | patched => exact exists_other_patched hp halone
      | current => exact absurd trivial halone
    obtain ⟨netloc, path, hwf, he, hne⟩ := hother
    exact hne (hall _ hwf rfl he)

end Url
