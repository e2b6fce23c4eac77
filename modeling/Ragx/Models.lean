import Mathlib.Algebra.Order.Ring.Rat
import Ragx.OrderedDict

/-!
# Domain models

The data that travels between the layers: chunks and their embeddings, scored
hits, the filter language, citations, query results and the error tree. Field
names follow the source; scores, vectors and prices are exact rationals.
-/
namespace Ragx

/-- A JSON value, as metadata and filter clauses carry it. -/
inductive Json where
  | null
  | bool (b : Bool)
  | num (q : ℚ)
  | str (s : String)
  | arr (xs : List Json)
  | obj (members : List (String × Json))

namespace Json

/-- Python's truth value. -/
def truthy : Json → Bool
  | .null => false
  | .bool b => b
  | .num q => q != 0
  | .str s => s != ""
  | .arr xs => !xs.isEmpty
  | .obj members => !members.isEmpty

/-- The strings of an array; other members are ignored. -/
def strings : Json → List String
  | .arr xs => xs.filterMap fun x => match x with | .str s => some s | _ => none
  | _ => []

/-- The numbers of an array; other members are ignored. -/
def numbers : Json → List ℚ
  | .arr xs => xs.filterMap fun x => match x with | .num q => some q | _ => none
  | _ => []

/-- Member of an object under a key, read as a number. -/
def numberAt (key : String) : Json → Option ℚ
  | .obj members =>
    match OrderedDict.lookupIn key members with
    | some (.num q) => some q
    | _ => none
  | _ => none

def member? (key : String) : Json → Option Json
  | .obj members => OrderedDict.lookupIn key members
  | _ => none

end Json

abbrev Metadata := OrderedDict String Json

inductive AtomType where
  | text
  | image
  | table
  | formula
deriving DecidableEq, Repr

/-- Atomic content unit produced by a parser. -/
structure Atom where
  atomId : String
  docId : String
  type : AtomType
  text : Option String := none
  payloadRef : Option String := none
  page : Option ℤ := none
  bbox : Option (ℚ × ℚ × ℚ × ℚ) := none
  contentHash : String := ""
  context : Option String := none
  metadata : Metadata := .empty

/-- Description of a non-text atom. -/
structure AtomDescription where
  atomId : String
  description : String
  confidence : ℚ
  model : String
  cached : Bool := false
deriving DecidableEq, Repr

/-- The retrieval unit. -/
structure Chunk where
  chunkId : String
  docId : String
  kbId : String
  atomIds : List String
  text : String
  tokenCount : ℕ
  page : Option ℤ := none
  bbox : Option (ℚ × ℚ × ℚ × ℚ) := none
  metadata : Metadata := .empty
  edited : Bool := false
  version : ℤ := 1

/-- A chunk with its embedding attached. -/
structure EmbeddedChunk extends Chunk where
  vector : List ℚ

inductive RetrievalSource where
  | dense
  | bm25
  | graphLow
  | graphHigh
deriving DecidableEq, Repr

/-- The source names in the order Python sorts them. -/
def RetrievalSource.alphabetical : List RetrievalSource := [.bm25, .dense, .graphHigh, .graphLow]

/-- One retrieval hit with its route-local score. -/
structure ScoredChunk where
  chunk : Chunk
  score : ℚ
  source : RetrievalSource

/-- Canonical filter operators. -/
inductive FilterOp where
  | eq | ne | gt | ge | lt | le | isIn | contains
deriving DecidableEq, Repr

structure FilterClause where
  field : String
  op : FilterOp
  value : Json

/-- Metadata filter: all `and` clauses, and one of the `or` clauses if there are any. -/
structure FilterExpr where
  and_ : Option (List FilterClause) := none
  or_ : Option (List FilterClause) := none

structure Entity where
  entityId : String
  kbId : String
  name : String
  nameNorm : String
  type : String
  description : String
  sourceDocIds : List String
  confidence : ℚ
  vector : List ℚ := []
  metadata : Metadata := .empty

structure Relation where
  relationId : String
  kbId : String
  headId : String
  tailId : String
  type : String
  description : String
  weight : ℚ := 1
  sourceDocIds : List String := []

structure SubGraph where
  entities : List Entity := []
  relations : List Relation := []

structure TopicSummary where
  topicId : String
  kbId : String
  title : String
  summary : String
  memberEntityIds : List String := []
  vector : List ℚ := []

structure Citation where
  chunkId : String
  docId : String
  filename : String
  page : Option ℤ
  snippet : String
  score : ℚ

structure TokenUsage where
  promptTokens : ℕ := 0
  completionTokens : ℕ := 0
  total : ℕ := 0
  estimated : Bool := false
deriving DecidableEq, Repr

/-- Roles map to role-scoped provider and model configuration. -/
inductive LLMRole where
  | extract
  | rewrite
  | plan
  | synthesize
  | generate
  | describe
  | embed
  | rerank
deriving DecidableEq, Repr

def LLMRole.value : LLMRole → String
  | .extract => "extract"
  | .rewrite => "rewrite"
  | .plan => "plan"
  | .synthesize => "synthesize"
  | .generate => "generate"
  | .describe => "describe"
  | .embed => "embed"
  | .rerank => "rerank"

/-- All roles, sorted by value. -/
def LLMRole.alphabetical : List LLMRole :=
  [.describe, .embed, .extract, .generate, .plan, .rerank, .rewrite, .synthesize]

structure ChatMessage where
  role : String
  content : String
deriving DecidableEq, Repr

structure ChatRequest where
  messages : List ChatMessage := []
  role : LLMRole := .generate
  model : Option String := none
  temperature : ℚ := 1 / 5
  maxTokens : Option ℕ := none
  jsonMode : Bool := false
  kbId : String := "default"
  traceId : Option String := none
  cacheable : Bool := false

/-- Flattened message text, the semantic cache's key input. -/
def ChatRequest.messagesText (req : ChatRequest) : String :=
  "\n".intercalate (req.messages.map (·.content))

structure ChatResponse where
  text : String
  usage : TokenUsage := {}
  model : Option String := none
  cached : Bool := false
deriving DecidableEq, Repr

inductive QueryMode where
  | fast
  | standard
  | agentic
deriving DecidableEq, Repr

/-- The `mode` key of a request override. -/
inductive OverrideMode where
  | auto
  | fast
  | standard
  | agentic
deriving DecidableEq, Repr

structure RequestOverride where
  rerankTopK : Option ℕ := none
  budgets : Option (OrderedDict String ℚ) := none
  mode : Option OverrideMode := none

/-- States of an ingest task; the five stages stand in the order in which they run. -/
inductive TaskStatus where
  | pending
  | parsing
  | processing
  | chunking
  | embedding
  | kgBuilding
  | done
  | failed
deriving DecidableEq, Repr

structure IngestTask where
  taskId : String
  docId : String
  kbId : String
  status : TaskStatus := .pending
  progress : ℚ := 0
  error : Option String := none
  attempts : ℕ := 0
deriving DecidableEq, Repr

/-- Classes of the exception tree that some handler tells apart; `foreign` is
any exception outside the tree. -/
inductive ExcClass where
  | config
  | auth
  | rateLimit
  | ingest
  | unsupportedFormat
  | chunkTooLarge
  | chunkNotFound
  | editConflict
  | llm
  | allProvidersFailed
  | circuitOpen
  | budgetExceeded
  | cacheBackend
  | structuredParse
  | agentic
  | agenticPlan
  | agenticTasksFailed
  | pluginContract
  | storeUnavailable
  | filterValidation
  | graphBuild
  | graphStoreUnavailable
  | timeout
  | pluginTimeout
  | foreign
deriving DecidableEq, Repr

structure Exc where
  cls : ExcClass
  code : ℕ
  message : String
  details : List (String × Json) := []

/-- An exception from outside the tree. -/
def Exc.foreign (message : String) : Exc := { cls := .foreign, code := 0, message }

/-- `exc.details.get("retryable", True)`. -/
def Exc.retryable (e : Exc) : Bool :=
  ((OrderedDict.lookupIn "retryable" e.details).map Json.truthy).getD true

/-- `isinstance(exc, LLMError)`. -/
def Exc.isLLMError (e : Exc) : Bool :=
  match e.cls with
  | .llm | .allProvidersFailed | .circuitOpen | .budgetExceeded | .cacheBackend
  | .structuredParse => true
  | _ => false

/-- `isinstance(exc, AgenticError)`. -/
def Exc.isAgenticError (e : Exc) : Bool :=
  match e.cls with
  | .agentic | .agenticPlan | .agenticTasksFailed => true
  | _ => false

def kbAccessError (kbId : String) : Exc where
  cls := .auth
  code := 1003
  message := "kb not authorised for this key"
  details := [("kb_id", .str kbId)]

/-- An absent or empty allow-list restricts nothing. -/
def requireKbAccess (kbAcl : Option (List String)) (kbId : String) : Except Exc Unit :=
  match kbAcl with
  | some (kb :: kbs) => if kbId ∈ kb :: kbs then .ok () else .error (kbAccessError kbId)
  | _ => .ok ()

/-- `needle in text`. -/
def containsText (needle text : String) : Bool :=
  text.toList.tails.any fun rest => needle.toList.isPrefixOf rest

/-- Python's `xs[:k]`: a negative bound counts from the end. -/
def sliceTo {α : Type*} (xs : List α) (k : ℤ) : List α :=
  if 0 ≤ k then xs.take k.toNat else xs.take (xs.length - (-k).toNat)

theorem sliceTo_of_nonneg {α : Type*} (xs : List α) {k : ℤ} (hk : 0 ≤ k) :
    sliceTo xs k = xs.take k.toNat := if_pos hk

theorem mem_of_mem_sliceTo {α : Type*} {xs : List α} {k : ℤ} {x : α}
    (h : x ∈ sliceTo xs k) : x ∈ xs := by
  unfold sliceTo at h
  split_ifs at h
  · exact List.mem_of_mem_take h
  · exact List.mem_of_mem_take h

end Ragx
