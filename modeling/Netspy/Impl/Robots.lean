import Mathlib.Data.List.Infix
import Netspy.Framework.Lines
import Netspy.Framework.Url.Query

/-!
# `network/robots.py`

`parse_crawl_delay`, and how `urllib.robotparser` divides the same text into entries and
chooses the one that it asks. Texts are lists of characters. What the rules of an entry
allow is left out, and so are sitemaps and request rates. `delays` has the Crawl-delays
among the lines of an entry that `float` reads; `urllib` itself would read whole numbers
only.
-/

namespace Netspy

namespace Robots

/-- What the parsers call. The numbers that `float` gives are a type `F`. -/
structure Lib (F : Type) where
  lower : List Char → List Char
  float : List Char → Option F
  /-- Whether `int` or `urlparse` raises on the value of a line with this key. -/
  raises : List Char → List Char → Bool

/-- `str.strip`. -/
def strip (cs : List Char) : List Char := ((cs.dropWhile Lines.isSpace).reverse.dropWhile Lines.isSpace).reverse

/-- `urllib.parse.unquote`. -/
def unquote (cs : List Char) : List Char := Utf8.decodeReplace (Url.unquoteToBytes cs)

variable {F : Type} (lib : Lib F)

/-- The key of a line, in lower case, and its value. -/
def field (raw : List Char) : Option (List Char × List Char) :=
  let line := strip (raw.takeWhile (· ≠ '#'))
  if line.contains ':' then
    let (key, value) := Url.partition ':' line
    some (lib.lower (strip key), strip value)
  else none

def userAgent : List Char := "user-agent".toList
def crawlDelay : List Char := "crawl-delay".toList

/-! ## `parse_crawl_delay` -/

-- of this name, as the definitions below have it in their memberships
local instance lawfulBEqText : LawfulBEq (List Char) := inferInstance

/-- The variables of its loop. The last value of a key of `delays` comes first. -/
structure Delays (F : Type) where
  delays : List (List Char × F) := []
  group : List (List Char) := []
  seenRule : Bool := false

/-- A turn of the loop over the lines. -/
def Delays.readLine (s : Delays F) (raw : List Char) : Delays F :=
  match field lib raw with
  | none => s
  | some (key, value) =>
    if key = userAgent then
      { s with group := (if s.seenRule then [] else s.group) ++ [lib.lower value], seenRule := false }
    else if key = crawlDelay then
      match lib.float value with
      | none => { s with seenRule := true }
      | some seconds =>
        { s with seenRule := true, delays := s.group.foldl (fun delays agent => (agent, seconds) :: delays) s.delays }
    else if key ∈ ["allow".toList, "disallow".toList, "sitemap".toList] then { s with seenRule := true }
    else s

def parseCrawlDelay (text useragent : List Char) : Option F :=
  let s := (Lines.splitlines text).foldl (Delays.readLine lib) {}
  (s.delays.lookup (lib.lower useragent)).or (s.delays.lookup ['*'])

/-! ## `urllib.robotparser` -/

structure Entry (F : Type) where
  useragents : List (List Char) := []
  delays : List F := []
  deriving DecidableEq

inductive ParseState where
  | start
  /-- Saw a user-agent line. -/
  | agents
  /-- Saw an allow or disallow line. -/
  | rules
  deriving Repr, DecidableEq

structure RobotFileParser (F : Type) where
  entries : List (Entry F) := []
  defaultEntry : Option (Entry F) := none
  deriving DecidableEq

/-- `_add_entry`. -/
def RobotFileParser.addEntry (p : RobotFileParser F) (entry : Entry F) : RobotFileParser F :=
  if ['*'] ∈ entry.useragents then { p with defaultEntry := p.defaultEntry.or (some entry) }
  else { p with entries := p.entries ++ [entry] }

/-- The variables of the loop of `parse`. -/
structure Parsing (F : Type) where
  parser : RobotFileParser F := {}
  entry : Entry F := {}
  state : ParseState := .start

/-- What an empty line does. -/
def Parsing.endEntry (s : Parsing F) : Parsing F :=
  match s.state with
  | .start => s
  | .agents => { s with entry := {}, state := .start }
  | .rules => { parser := s.parser.addEntry s.entry, entry := {}, state := .start }

/-- A line with a key; `none` if it raises. -/
def Parsing.readField (s : Parsing F) (key value : List Char) : Option (Parsing F) :=
  if key = userAgent then
    let s := if s.state = .rules then { s with parser := s.parser.addEntry s.entry, entry := {} } else s
    some { s with entry := { s.entry with useragents := s.entry.useragents ++ [unquote value] }, state := .agents }
  else if key ∈ ["disallow".toList, "allow".toList, crawlDelay, "request-rate".toList] then
    if s.state = .start then some s
    else if lib.raises key (unquote value) then none
    else if key = crawlDelay then
      some { s with entry := { s.entry with delays := s.entry.delays ++ (lib.float value).toList }, state := .rules }
    else some { s with state := .rules }
  else some s

/-- A turn of the loop over the lines. -/
def Parsing.readLine (s : Parsing F) (raw : List Char) : Option (Parsing F) :=
  let s := if raw = [] then s.endEntry else s
  match field lib raw with
  | none => some s
  | some (key, value) => s.readField lib key value

/-- `parse`. -/
def RobotFileParser.parse (text : List Char) : Option (RobotFileParser F) :=
  ((Lines.splitlines text).foldlM (Parsing.readLine lib) {}).map fun s =>
    if s.state = .rules then s.parser.addEntry s.entry else s.parser

/-- `applies_to`. -/
def Entry.appliesTo (entry : Entry F) (useragent : List Char) : Bool :=
  entry.useragents.any fun agent =>
    decide (agent = ['*']) || decide (lib.lower agent <:+: lib.lower (useragent.takeWhile (· ≠ '/')))

/-- The entry of which `can_fetch` applies the rules. -/
def RobotFileParser.entryFor (p : RobotFileParser F) (useragent : List Char) : Option (Entry F) :=
  (p.entries.find? fun entry => entry.appliesTo lib useragent).or p.defaultEntry

/-- The Crawl-delay is declared in the group of which the rules are applied, and there is
none only if that group declares none. -/
def SameGroup (text useragent : List Char) : Prop :=
  ∀ p, RobotFileParser.parse lib text = some p →
    match parseCrawlDelay lib text useragent with
    | some seconds => ∃ entry ∈ p.entryFor lib useragent, seconds ∈ entry.delays
    | none => ∀ entry ∈ p.entryFor lib useragent, entry.delays = []

/-! ## The text -/

/-- What a line is to a group. -/
inductive RobotsLine (F : Type) where
  | agent (name : List Char)
  | delay (seconds : F)
  | rule
  deriving DecidableEq

def RobotsLine.isAgent : RobotsLine F → Bool
  | .agent _ => true
  | _ => false

def RobotsLine.name : RobotsLine F → Option (List Char)
  | .agent name => some name
  | _ => none

/-- The lines of a text that make up its groups. -/
def robotsLine (raw : List Char) : Option (RobotsLine F) :=
  (field lib raw).bind fun (key, value) =>
    if key = userAgent then some (.agent (lib.lower value))
    else if key = crawlDelay then some (((lib.float value).map .delay).getD .rule)
    else if key ∈ ["allow".toList, "disallow".toList, "sitemap".toList] then some .rule
    else none

/-- The names of the last run of user-agent lines, in lines that are read upwards. -/
def lastRun (above : List (RobotsLine F)) : List (List Char) :=
  ((above.dropWhile fun line => !line.isAgent).takeWhile RobotsLine.isAgent).filterMap RobotsLine.name

/-- The Crawl-delays that stand below a name, which is in the last run of user-agent lines
above them. -/
def belowIn (name : List Char) : List (RobotsLine F) → List (RobotsLine F) → List F
  | _, [] => []
  | above, .delay seconds :: lines =>
    (if name ∈ lastRun above then [seconds] else []) ++ belowIn name (.delay seconds :: above) lines
  | above, line :: lines => belowIn name (line :: above) lines

def below (text name : List Char) : List F := belowIn name [] ((Lines.splitlines text).filterMap (robotsLine lib))

/-- What a line is to `urllib.robotparser`: an empty line ends a group. -/
inductive GroupLine (F : Type) where
  | blank
  | agent (name : List Char)
  /-- A line below the names, with its Crawl-delay if it has one. -/
  | rule (delay : Option F)
  deriving DecidableEq

def groupLine (raw : List Char) : Option (GroupLine F) :=
  if raw = [] then some .blank
  else
    (field lib raw).bind fun (key, value) =>
      if key = userAgent then some (.agent (unquote value))
      else if key ∈ ["disallow".toList, "allow".toList, crawlDelay, "request-rate".toList] then
        some (.rule (if key = crawlDelay then lib.float value else none))
      else none

/-- The Crawl-delays of the rules that come first. -/
def ruleDelays : List (GroupLine F) → List F
  | .rule delay :: lines => delay.toList ++ ruleDelays lines
  | _ => []

/-- The groups of the lines: names one below the other, and the rules right below them.
`names` are right above the lines. -/
def groupsFrom : List (List Char) → List (GroupLine F) → List (Entry F)
  | _, [] => []
  | _, .blank :: lines => groupsFrom [] lines
  | names, .agent name :: lines => groupsFrom (names ++ [name]) lines
  | [], .rule _ :: lines => groupsFrom [] lines
  | name :: names, .rule delay :: lines => ⟨name :: names, ruleDelays (.rule delay :: lines)⟩ :: groupsFrom [] lines

def groups (text : List Char) : List (Entry F) := groupsFrom [] ((Lines.splitlines text).filterMap (groupLine lib))

/-- A name of the group, in lower case, is part of the agent up to its version. -/
def Names (useragent : List Char) (group : Entry F) : Prop :=
  ∃ name ∈ group.useragents, lib.lower name <:+: lib.lower (useragent.takeWhile (· ≠ '/'))

/-- The group that applies to an agent: the first one not for `*` that names it; where
there is none, the first one for `*`. -/
inductive Applies (text useragent : List Char) (group : Entry F) : Prop
  | named (before after : List (Entry F)) (h : groups lib text = before ++ group :: after)
      (hgroup : ['*'] ∉ group.useragents ∧ Names lib useragent group)
      (hbefore : ∀ other ∈ before, ['*'] ∉ other.useragents → ¬Names lib useragent other) : Applies text useragent group
  | wild (before after : List (Entry F)) (h : groups lib text = before ++ group :: after)
      (hgroup : ['*'] ∈ group.useragents) (hbefore : ∀ other ∈ before, ['*'] ∉ other.useragents)
      (hnone : ∀ other ∈ groups lib text, ['*'] ∉ other.useragents → ¬Names lib useragent other) :
      Applies text useragent group

/-- The last Crawl-delay below the whole agent name, or else below `*`, is one of the
group that applies; where there is neither, that group has none. -/
structure ReadsGroup (text useragent : List Char) : Prop where
  own : ∀ seconds ∈ (below lib text (lib.lower useragent)).getLast?,
    ∃ group, Applies lib text useragent group ∧ seconds ∈ group.delays
  wild : below lib text (lib.lower useragent) = [] → ∀ seconds ∈ (below lib text ['*']).getLast?,
    ∃ group, Applies lib text useragent group ∧ seconds ∈ group.delays
  neither : below lib text (lib.lower useragent) = [] → below lib text ['*'] = [] →
    ∀ group, Applies lib text useragent group → group.delays = []

end Robots

end Netspy
