import Ragx.AnswerTables
import Ragx.NetworkXGraphStore

/-!
# Topic summaries

`build_topics` groups the entities of a store, by type or by community, and summarizes each
group. Summaries are kept for the whole process, under a digest of the members' names. The
automatic rebuild compares the number of entities with an attribute of the store.
-/
namespace Ragx

/-- What is read of a graph store: only the in-memory store has the tables. -/
structure GraphAttributes where
  entities : Option (KeyedTable Entity.nameNorm) := none
  relations : Option (KeyedTable Relation.key) := none
  lastTopicBuildCount : Option ℕ := none

/-- The in-memory store never has a count. -/
def NetworkXGraphStore.attributes {G : Type} (s : NetworkXGraphStore G) : GraphAttributes where
  entities := some s.entities
  relations := some s.relations

namespace GraphAttributes

def getAllEntities (store : GraphAttributes) : List Entity :=
  (store.entities.map (·.values)).getD []

def getAllRelations (store : GraphAttributes) : List Relation :=
  (store.relations.map (·.values)).getD []

end GraphAttributes

/-! ## Texts -/

def hexDigits (width n : ℕ) : List Char :=
  let digits := Nat.toDigits 16 n
  List.replicate (width - digits.length) '0' ++ digits

/-- One character of a quoted text. -/
def reprChar (isPrintable : Char → Bool) (quote c : Char) : List Char :=
  if c = quote ∨ c = '\\' then ['\\', c]
  else if c = '\t' then ['\\', 't']
  else if c = '\n' then ['\\', 'n']
  else if c = '\r' then ['\\', 'r']
  else if isPrintable c then [c]
  else if c.toNat < 0x100 then '\\' :: 'x' :: hexDigits 2 c.toNat
  else if c.toNat < 0x10000 then '\\' :: 'u' :: hexDigits 4 c.toNat
  else '\\' :: 'U' :: hexDigits 8 c.toNat

/-- `repr(text)`: double quotes only around a text with single quotes and no double ones. -/
def reprText (isPrintable : Char → Bool) (text : String) : String :=
  let quote := if '\'' ∈ text.toList ∧ '"' ∉ text.toList then '"' else '\''
  String.ofList (quote :: text.toList.flatMap (reprChar isPrintable quote) ++ [quote])

/-- `str(texts)` of a list. -/
def reprList (isPrintable : Char → Bool) (texts : List String) : String :=
  "[" ++ ", ".intercalate (texts.map (reprText isPrintable)) ++ "]"

example : reprList (fun _ => true) ["a", "it's", ""] = "['a', \"it's\", '']" := by decide +kernel

/-! ## Groups -/

structure TopicGroup where
  title : String
  members : List Entity

/-- `greedyModularity` gives the communities of a graph, each in the order in which its set
is gone through, or `NetworkXAlgorithmError`. -/
structure TopicEnv where
  sha256 : String → String
  isPrintable : Char → Bool
  setOrder : List String → List String
  greedyModularity : List String → List (String × String × ℚ) → Option (List (List String))

def communityMinMembers : ℕ := 3

def topicSummaryLimit : ℕ := 200

/-- The three members of the highest confidence. -/
def topMembers (members : List Entity) : List Entity :=
  (members.insertionSort fun a b => b.confidence ≤ a.confidence).take 3

def typeGroups (entities : List Entity) : List TopicGroup :=
  let byType := OrderedDict.accumulate Entity.type (fun old e => old.getD [] ++ [e]) .empty entities
  byType.entries.map fun entry => ⟨s!"{entry.1} 类实体", entry.2⟩

def communityTitle (members : List Entity) : String :=
  let title := " / ".intercalate ((topMembers members).map (·.name))
  if title = "" then (members.head?.map (·.type)).getD "" else title

namespace TopicEnv

variable (env : TopicEnv)

def communities (entities : List Entity) (relations : List Relation) : List (List String) :=
  let nodes := firstSeen (entities.map (·.entityId))
  let edges := (relations.filter fun r => r.headId ∈ nodes ∧ r.tailId ∈ nodes).map fun r =>
    (r.headId, r.tailId, r.weight)
  if edges.isEmpty then [env.setOrder nodes]
  else (env.greedyModularity nodes edges).getD [env.setOrder nodes]

def communityGroups (entities : List Entity) (relations : List Relation) : List TopicGroup :=
  let idToEntity := OrderedDict.ofList (entities.map fun e => (e.entityId, e))
  (env.communities entities relations).filterMap fun community =>
    let members := community.filterMap idToEntity.get?
    if members.length < communityMinMembers then none
    else some ⟨communityTitle members, members⟩

/-- The groups that `build_topics` goes through. -/
def groups (store : GraphAttributes) : List TopicGroup :=
  let entities := store.getAllEntities
  if entities.isEmpty then []
  else if entities.length < 1000 then typeGroups entities
  else env.communityGroups entities store.getAllRelations

/-! ## Summaries -/

def cacheKey (members : List Entity) : String :=
  env.sha256 ("|".intercalate ((members.map (·.nameNorm)).insertionSort (· ≤ ·)))

def summaryText (members : List Entity) : String :=
  "实体群: " ++ ", ".intercalate (members.map (·.name)) ++ "\n描述: " ++
    reprList env.isPrintable (members.map (·.description))

end TopicEnv

def topicRequest (summaryText : String) : ChatRequest where
  messages := [⟨"user", s!"为以下实体群生成一段主题摘要（≤{topicSummaryLimit}字）：\n" ++ summaryText⟩]
  role := .synthesize
  temperature := 0

/-- The descriptions of the members of the highest confidence. -/
def fallbackText (members : List Entity) : String :=
  let described := (topMembers members).filter (·.description ≠ "")
  String.ofList (("；".intercalate (described.map fun e => s!"{e.name}：{e.description}")).toList.take
    topicSummaryLimit)

abbrev TopicLlm := ChatRequest → Except Exc ChatResponse

/-- `_SUMMARY_CACHE`, of the whole process. -/
abbrev SummaryCache := OrderedDict String String

/-- The mean of the vectors that are not empty; the first of them gives the dimension. -/
def computeCentroid (members : List Entity) : Except Exc (List ℚ) :=
  let withVector := members.filter fun e => !e.vector.isEmpty
  match withVector with
  | [] => .ok []
  | first :: _ => (List.range first.vector.length).mapM fun i => do
    let column ← withVector.mapM fun e =>
      match e.vector[i]? with
      | some x => .ok x
      | none => .error (.foreign "list index out of range")
    return column.sum / withVector.length

namespace TopicEnv

variable (env : TopicEnv)

/-- A summary that is not in the cache; a failed call leaves the text it was made with. -/
def freshSummary (llm : Option TopicLlm) (members : List Entity) : String :=
  let summaryText := env.summaryText members
  let answered :=
    match llm with
    | none => summaryText
    | some chat =>
      match chat (topicRequest summaryText) with
      | .ok resp => resp.text
      | .error _ => summaryText
  if answered.length < 10 then fallbackText members else answered

def generateSummary (llm : Option TopicLlm) (members : List Entity) (cache : SummaryCache) :
    SummaryCache × String :=
  match cache.get? (env.cacheKey members) with
  | some cached => (cache, cached)
  | none =>
    let summaryText := env.freshSummary llm members
    (cache.insert (env.cacheKey members) summaryText, summaryText)

/-- The loop over the groups. An exception leaves the summaries so far in the cache. -/
def summarizeGroups (llm : Option TopicLlm) (kbId : String) (newId : ℕ → String) :
    ℕ → List TopicGroup → SummaryCache → SummaryCache × Except Exc (List TopicSummary)
  | _, [], cache => (cache, .ok [])
  | n, group :: groups, cache =>
    let summarized := env.generateSummary llm group.members cache
    match computeCentroid group.members with
    | .error e => (summarized.1, .error e)
    | .ok centroid =>
      let rest := summarizeGroups llm kbId newId (n + 1) groups summarized.1
      let topic : TopicSummary := {
        topicId := newId n
        kbId := kbId
        title := group.title
        summary := summarized.2
        memberEntityIds := group.members.map (·.entityId)
        vector := centroid }
      (rest.1, rest.2.map (topic :: ·))

def buildTopics (llm : Option TopicLlm) (kbId : String) (newId : ℕ → String)
    (store : GraphAttributes) (cache : SummaryCache) :
    SummaryCache × Except Exc (List TopicSummary) :=
  env.summarizeGroups llm kbId newId 0 (env.groups store) cache

end TopicEnv

/-! ## Rebuilds -/

structure KbStats where
  currentEntityCount : ℕ
  lastTopicBuildEntityCount : ℕ

def GraphAttributes.getKbStats (store : GraphAttributes) : KbStats where
  currentEntityCount := store.getAllEntities.length
  lastTopicBuildEntityCount := store.lastTopicBuildCount.getD 0

/-- The delta of the automatic rebuild. -/
def KbStats.Grown (stats : KbStats) : Prop :=
  0 < stats.lastTopicBuildEntityCount ∧
    (1 / 5 : ℚ) < ((stats.currentEntityCount : ℚ) - stats.lastTopicBuildEntityCount) /
      stats.lastTopicBuildEntityCount

instance (stats : KbStats) : Decidable stats.Grown := inferInstanceAs (Decidable (_ ∧ _))

/-- Without a rebuild there is no result. -/
def TopicEnv.maybeRebuildTopics (env : TopicEnv) (llm : Option TopicLlm) (kbId : String)
    (newId : ℕ → String) (manual : Bool) (store : GraphAttributes) (cache : SummaryCache) :
    SummaryCache × Option (Except Exc (List TopicSummary)) :=
  if manual = true ∨ store.getKbStats.Grown then
    let built := env.buildTopics llm kbId newId store cache
    (built.1, some built.2)
  else (cache, none)

end Ragx
