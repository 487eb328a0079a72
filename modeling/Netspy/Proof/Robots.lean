import Netspy.Impl.Robots

/-!
# Two readings of one text

`parse_crawl_delay` keeps the last Crawl-delay below each name, and looks for the agent's
whole name, then for `*` (`parseCrawlDelay_eq`). `can_fetch` divides the text in another
way (`parse_groups`) and takes the first group with a name that is part of the agent's
(`entryFor_iff`). They agree only where the last delay below the name is one of that group
(`sameGroup_iff`).
-/

namespace Netspy

namespace Robots

variable {F : Type} (lib : Lib F)

/-! ## What `parse_crawl_delay` keeps -/

/-- A line as the loop reads it. -/
def Delays.read (s : Delays F) : RobotsLine F → Delays F
  | .agent name => { s with group := (if s.seenRule then [] else s.group) ++ [name], seenRule := false }
  | .delay seconds =>
    { s with seenRule := true, delays := s.group.foldl (fun delays agent => (agent, seconds) :: delays) s.delays }
  | .rule => { s with seenRule := true }

theorem readLine_eq (s : Delays F) (raw : List Char) :
    s.readLine lib raw = ((robotsLine lib raw).map s.read).getD s := by
  unfold Delays.readLine robotsLine
  cases field lib raw with
  | none => rfl
  | some kv =>
    obtain ⟨key, value⟩ := kv
    simp only [Option.bind_some]
    split
    next => rfl
    next =>
      split
      next =>
        cases lib.float value with
        | none => rfl
        | some seconds => rfl
      next =>
        split
        next => rfl
        next => rfl

theorem foldl_readLine (raws : List (List Char)) (s : Delays F) :
    raws.foldl (Delays.readLine lib) s = (raws.filterMap (robotsLine lib)).foldl Delays.read s := by
  induction raws generalizing s with
  | nil => rfl
  | cons raw raws ih =>
    rw [List.foldl_cons, ih, readLine_eq]
    cases h : robotsLine lib raw with
    | none => rw [List.filterMap_cons_none h]; rfl
    | some line => rw [List.filterMap_cons_some h]; rfl

/-- The group is the last run of user-agent lines above, which goes on unless there was a
rule since. -/
structure Delays.At (s : Delays F) (above : List (RobotsLine F)) : Prop where
  group : s.group = (lastRun above).reverse
  seenRule : s.seenRule = above.head?.any fun line => !line.isAgent

theorem lastRun_agent (name : List Char) (above : List (RobotsLine F)) :
    lastRun (.agent name :: above) =
      name :: if above.head?.any fun line => !line.isAgent then [] else lastRun above := by
  unfold lastRun
  cases above with
  | nil => rfl
  | cons line above =>
    cases line with
    | agent other => rfl
    | delay seconds => rfl
    | rule => rfl

theorem Delays.At.read {s : Delays F} {above : List (RobotsLine F)} (h : s.At above) (line : RobotsLine F) :
    (s.read line).At (line :: above) := by
  cases line with
  | agent name =>
    refine ⟨?_, rfl⟩
    rw [lastRun_agent, List.reverse_cons]
    show (if s.seenRule then [] else s.group) ++ [name] = _
    rw [h.seenRule]
    split
    · rfl
    · rw [h.group]
  | delay seconds => exact ⟨h.group, rfl⟩
  | rule => exact ⟨h.group, rfl⟩

theorem lookup_setAll (name : List Char) (seconds : F) (group : List (List Char)) (delays : List (List Char × F)) :
    (group.foldl (fun delays agent => (agent, seconds) :: delays) delays).lookup name =
      if name ∈ group then some seconds else delays.lookup name := by
  induction group generalizing delays with
  | nil => simp
  | cons agent group ih =>
    rw [List.foldl_cons, ih, List.lookup_cons]
    by_cases hname : name = agent
    · simp [hname]
    · simp [hname, beq_eq_false_iff_ne.mpr hname]

/-- What is kept for a name is the last of the delays below it. -/
theorem lookup_read {s : Delays F} {above : List (RobotsLine F)} (h : s.At above) (name : List Char)
    (lines : List (RobotsLine F)) :
    (lines.foldl Delays.read s).delays.lookup name = (belowIn name above lines).getLast?.or (s.delays.lookup name) := by
  induction lines generalizing s above with
  | nil => rfl
  | cons line lines ih =>
    rw [List.foldl_cons, ih (h.read line)]
    cases line with
    | agent other => rfl
    | rule => rfl
    | delay seconds =>
      have hkept : (s.read (.delay seconds)).delays.lookup name =
          if name ∈ lastRun above then some seconds else s.delays.lookup name := by
        show (s.group.foldl _ s.delays).lookup name = _
        rw [lookup_setAll, h.group]
        simp only [List.mem_reverse]
      rw [hkept, belowIn, List.getLast?_append]
      split
      · rw [Option.or_assoc]
        rfl
      · rw [List.getLast?_nil, Option.or_none]

theorem parseCrawlDelay_eq (text useragent : List Char) :
    parseCrawlDelay lib text useragent =
      (below lib text (lib.lower useragent)).getLast?.or (below lib text ['*']).getLast? := by
  have hat : ({} : Delays F).At [] := ⟨rfl, rfl⟩
  unfold parseCrawlDelay below
  rw [foldl_readLine]
  dsimp only
  rw [lookup_read hat, lookup_read hat]
  simp only [List.lookup_nil, Option.or_none]

/-! ## The groups of `urllib.robotparser` -/

/-- A line as `parse` reads it, where nothing raises. -/
def Parsing.read (s : Parsing F) : GroupLine F → Parsing F
  | .blank => s.endEntry
  | .agent name =>
    let s := if s.state = .rules then { s with parser := s.parser.addEntry s.entry, entry := {} } else s
    { s with entry := { s.entry with useragents := s.entry.useragents ++ [name] }, state := .agents }
  | .rule delay =>
    if s.state = .start then s
    else { s with entry := { s.entry with delays := s.entry.delays ++ delay.toList }, state := .rules }

theorem field_nil : field lib ([] : List Char) = none := rfl

theorem readField_eq {s s' : Parsing F} {raw key value : List Char} (hraw : raw ≠ [])
    (hfield : field lib raw = some (key, value)) (h : s.readField lib key value = some s') :
    s' = ((groupLine lib raw).map s.read).getD s := by
  unfold Parsing.readField at h
  unfold groupLine
  rw [if_neg hraw, hfield, Option.bind_some]
  dsimp only
  split at h
  · rename_i hkey
    rw [if_pos hkey]
    exact (Option.some.inj h).symm
  · rename_i hkey
    rw [if_neg hkey]
    split at h
    · rename_i hrule
      rw [if_pos hrule]
      rw [Option.map_some, Option.getD_some]
      unfold Parsing.read
      dsimp only
      split at h
      · rename_i hstart
        rw [if_pos hstart]
        exact (Option.some.inj h).symm
      · rename_i hstart
        rw [if_neg hstart]
        split at h
        · cases h
        · split at h
          · rename_i hdelay
            rw [if_pos hdelay]
            exact (Option.some.inj h).symm
          · rename_i hdelay
            rw [if_neg hdelay, Option.toList_none, List.append_nil]
            exact (Option.some.inj h).symm
    · rename_i hrule
      rw [if_neg hrule]
      exact (Option.some.inj h).symm

theorem readGroupLine_eq {s s' : Parsing F} {raw : List Char} (h : s.readLine lib raw = some s') :
    s' = ((groupLine lib raw).map s.read).getD s := by
  unfold Parsing.readLine at h
  by_cases hraw : raw = []
  · subst hraw
    rw [if_pos rfl, field_nil] at h
    exact (Option.some.inj h).symm
  · rw [if_neg hraw] at h
    cases hfield : field lib raw with
    | none =>
      rw [hfield] at h
      unfold groupLine
      rw [if_neg hraw, hfield]
      exact (Option.some.inj h).symm
    | some kv =>
      rw [hfield] at h
      exact readField_eq lib hraw hfield h

theorem foldlM_readLine {raws : List (List Char)} {s s' : Parsing F}
    (h : raws.foldlM (Parsing.readLine lib) s = some s') :
    s' = (raws.filterMap (groupLine lib)).foldl Parsing.read s := by
  induction raws generalizing s with
  | nil => exact (Option.some.inj h).symm
  | cons raw raws ih =>
    rw [List.foldlM_cons] at h
    obtain ⟨t, ht, h⟩ := Option.bind_eq_some_iff.mp h
    have := readGroupLine_eq lib ht
    rw [ih h, this]
    cases hline : groupLine lib raw with
    | none => rw [List.filterMap_cons_none hline]; rfl
    | some line => rw [List.filterMap_cons_some hline]; rfl

/-- What `parse` has at the end of the text. -/
def Parsing.finish (s : Parsing F) : RobotFileParser F :=
  if s.state = .rules then s.parser.addEntry s.entry else s.parser

/-- The rest of the text adds its groups: with names above it in the middle of a run of
names, and after what it adds to the group in the middle of rules. -/
theorem finish_foldl (lines : List (GroupLine F)) (s : Parsing F) :
    (s.state = .start → s.entry = {} →
      (lines.foldl Parsing.read s).finish = (groupsFrom [] lines).foldl RobotFileParser.addEntry s.parser) ∧
    (s.state = .agents → s.entry.useragents ≠ [] → s.entry.delays = [] →
      (lines.foldl Parsing.read s).finish =
        (groupsFrom s.entry.useragents lines).foldl RobotFileParser.addEntry s.parser) ∧
    (s.state = .rules →
      (lines.foldl Parsing.read s).finish =
        ({ s.entry with delays := s.entry.delays ++ ruleDelays lines } :: groupsFrom [] lines).foldl
          RobotFileParser.addEntry s.parser) := by
  induction lines generalizing s with
  | nil =>
    refine ⟨fun h _ => ?_, fun h _ _ => ?_, fun h => ?_⟩
    · simp [Parsing.finish, h, groupsFrom]
    · simp [Parsing.finish, h, groupsFrom]
    · simp [Parsing.finish, h, groupsFrom, ruleDelays]
  | cons line lines ih =>
    rw [List.foldl_cons]
    cases line with
    | blank =>
      refine ⟨fun h he => ?_, fun h _ _ => ?_, fun h => ?_⟩
      · have := (ih (s.read .blank)).1
        simp only [Parsing.read, Parsing.endEntry, h] at this ⊢
        simpa [groupsFrom, he] using this
      · have := (ih (s.read .blank)).1
        simp only [Parsing.read, Parsing.endEntry, h] at this ⊢
        simpa [groupsFrom] using this
      · have := (ih (s.read .blank)).1
        simp only [Parsing.read, Parsing.endEntry, h] at this ⊢
        simpa [groupsFrom, ruleDelays] using this
    | agent name =>
      refine ⟨fun h he => ?_, fun h hne hd => ?_, fun h => ?_⟩
      · have := (ih (s.read (.agent name))).2.1
        simp only [Parsing.read, h, he, reduceCtorEq, if_false] at this ⊢
        simpa [groupsFrom] using this
      · have := (ih (s.read (.agent name))).2.1
        simp only [Parsing.read, h, hd, reduceCtorEq, if_false] at this ⊢
        simpa [groupsFrom] using this
      · have := (ih (s.read (.agent name))).2.1
        simp only [Parsing.read, h, if_true] at this ⊢
        simpa [groupsFrom, ruleDelays] using this
    | rule delay =>
      refine ⟨fun h he => ?_, fun h hne hd => ?_, fun h => ?_⟩
      · have := (ih (s.read (.rule delay))).1
        simp only [Parsing.read, h, if_true] at this ⊢
        simpa [groupsFrom] using this trivial he
      · obtain ⟨agent, agents, hagents⟩ := List.exists_cons_of_ne_nil hne
        have := (ih (s.read (.rule delay))).2.2
        simp only [Parsing.read, h, hd, reduceCtorEq, if_false, List.nil_append] at this ⊢
        simpa [groupsFrom, ruleDelays, hagents] using this
      · have := (ih (s.read (.rule delay))).2.2
        simp only [Parsing.read, h, reduceCtorEq, if_false] at this ⊢
        simpa [groupsFrom, ruleDelays] using this

/-- The parser has the groups of the text. -/
theorem parse_groups {text : List Char} {p : RobotFileParser F} (h : RobotFileParser.parse lib text = some p) :
    p = (groups lib text).foldl RobotFileParser.addEntry {} := by
  obtain ⟨s, hs, rfl⟩ := Option.map_eq_some_iff.mp h
  rw [foldlM_readLine lib hs]
  exact (finish_foldl _ {}).1 rfl rfl

theorem entries_foldl (gs : List (Entry F)) (p : RobotFileParser F) :
    (gs.foldl RobotFileParser.addEntry p).entries = p.entries ++ gs.filter fun g => ['*'] ∉ g.useragents := by
  induction gs generalizing p with
  | nil => simp
  | cons g gs ih =>
    rw [List.foldl_cons, ih, RobotFileParser.addEntry]
    by_cases hg : ['*'] ∈ g.useragents
    · simp [hg]
    · simp [hg]

theorem defaultEntry_foldl (gs : List (Entry F)) (p : RobotFileParser F) :
    (gs.foldl RobotFileParser.addEntry p).defaultEntry =
      p.defaultEntry.or (gs.find? fun g => ['*'] ∈ g.useragents) := by
  induction gs generalizing p with
  | nil => simp
  | cons g gs ih =>
    rw [List.foldl_cons, ih, RobotFileParser.addEntry]
    by_cases hg : ['*'] ∈ g.useragents
    · simp [hg]
    · simp [hg]

theorem appliesTo_iff {group : Entry F} (h : ['*'] ∉ group.useragents) (useragent : List Char) :
    group.appliesTo lib useragent = true ↔ Names lib useragent group := by
  unfold Entry.appliesTo Names
  rw [List.any_eq_true]
  refine exists_congr fun name => and_congr_right fun hname => ?_
  have hne : name ≠ ['*'] := fun he => h (he ▸ hname)
  simp [hne]

/-- The entry that `can_fetch` asks is the group that applies. -/
theorem entryFor_iff {text : List Char} {p : RobotFileParser F} (h : RobotFileParser.parse lib text = some p)
    (useragent : List Char) (group : Entry F) :
    p.entryFor lib useragent = some group ↔ Applies lib text useragent group := by
  have hp := parse_groups lib h
  have hentries : p.entries = (groups lib text).filter fun g => ['*'] ∉ g.useragents := by
    rw [hp, entries_foldl]
    rfl
  have hdefault : p.defaultEntry = (groups lib text).find? fun g => ['*'] ∈ g.useragents := by
    rw [hp, defaultEntry_foldl]
    rfl
  unfold RobotFileParser.entryFor
  rw [hentries, hdefault, List.find?_filter, Option.or_eq_some_iff, List.find?_eq_some_iff_append,
    List.find?_eq_some_iff_append, List.find?_eq_none]
  simp only [decide_eq_true_eq, Bool.not_eq_true', not_and]
  constructor
  · rintro (⟨⟨hstar, hgroup⟩, before, after, he, hbefore⟩ | ⟨hnone, hgroup, before, after, he, hbefore⟩)
    · refine .named before after he ⟨hstar, (appliesTo_iff lib hstar useragent).mp hgroup⟩ fun other ho hs hn => ?_
      exact of_decide_eq_false (hbefore other ho) ⟨hs, (appliesTo_iff lib hs useragent).mpr hn⟩
    · refine .wild before after he hgroup (fun other ho => by simpa using hbefore other ho) fun other ho hs hn => ?_
      exact hnone other ho hs ((appliesTo_iff lib hs useragent).mpr hn)
  · intro ha
    cases ha with
    | named before after he hgroup hbefore =>
      refine .inl ⟨⟨hgroup.1, (appliesTo_iff lib hgroup.1 useragent).mpr hgroup.2⟩, before, after, he, fun other ho => ?_⟩
      exact decide_eq_false fun ht => hbefore other ho ht.1 ((appliesTo_iff lib ht.1 useragent).mp ht.2)
    | wild before after he hgroup hbefore hnone =>
      refine .inr ⟨fun other ho hs ht => ?_, hgroup, before, after, he, fun other ho => by simpa using hbefore other ho⟩
      exact hnone other ho hs ((appliesTo_iff lib hs useragent).mp ht)

/-- The delay is declared in the group of which the rules are applied, if and only if the
one that stands last below the name is, or none does and none is declared. -/
theorem sameGroup_iff (text useragent : List Char) :
    SameGroup lib text useragent ↔
      ((RobotFileParser.parse lib text).isSome = true → ReadsGroup lib text useragent) := by
  unfold SameGroup
  rw [parseCrawlDelay_eq]
  cases hp : RobotFileParser.parse lib text with
  | none => simp
  | some p =>
    have happ := entryFor_iff lib hp useragent
    simp only [Option.some.injEq, forall_eq', Option.isSome_some, forall_const, Option.mem_def, happ]
    constructor
    · intro h
      refine ⟨fun seconds hs => ?_, fun hown seconds hs => ?_, fun hown hwild => ?_⟩
      · rw [Option.mem_def.mp hs] at h
        exact h
      · rw [hown, List.getLast?_nil, Option.none_or, Option.mem_def.mp hs] at h
        exact h
      · rw [hown, hwild] at h
        exact h
    · intro h
      cases hown : (below lib text (lib.lower useragent)).getLast? with
      | some seconds => exact h.own seconds hown
      | none =>
        have hown := List.getLast?_eq_none_iff.mp hown
        cases hwild : (below lib text ['*']).getLast? with
        | some seconds => exact h.wild hown seconds hwild
        | none => exact h.neither hown (List.getLast?_eq_none_iff.mp hwild)

/-- Two groups, the second one for every agent. -/
def twoGroups : List Char :=
  "User-agent: bot\nCrawl-delay: 9\n\nUser-agent: *\nCrawl-delay: 1".toList

def plainLib : Lib (List Char) where
  lower := List.map Char.toLower
  float := some
  raises _ _ := false

/-- An agent with a version gets the rules of one group and the delay of another. -/
theorem version_otherGroup :
    parseCrawlDelay plainLib twoGroups "Bot/2".toList = some ['1'] ∧
      (RobotFileParser.parse plainLib twoGroups).map (fun p => p.entryFor plainLib "Bot/2".toList) =
        some (some { useragents := ["bot".toList], delays := [['9']] }) ∧
      ¬ SameGroup plainLib twoGroups "Bot/2".toList := by
  have hdelay : parseCrawlDelay plainLib twoGroups "Bot/2".toList = some ['1'] := by decide +kernel
  have hentry : (RobotFileParser.parse plainLib twoGroups).map (fun p => p.entryFor plainLib "Bot/2".toList) =
      some (some { useragents := ["bot".toList], delays := [['9']] }) := by decide +kernel
  refine ⟨hdelay, hentry, fun h => ?_⟩
  obtain ⟨p, hp, he⟩ := Option.map_eq_some_iff.mp hentry
  have hsame := h p hp
  rw [hdelay, he] at hsame
  obtain ⟨entry, hin, hmem⟩ := hsame
  cases Option.some.inj hin
  exact absurd hmem (by decide)

end Robots

end Netspy
