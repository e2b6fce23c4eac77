import Ragx.CircuitBreaker
import Ragx.Commands
import Ragx.Models

/-!
# The cost gate in front of the image model

Descriptions are cached by content hash. Atoms without a cached one are described in batches,
a share of those with low confidence once more by the large model. Batches are in flight at
the same time and complete in any order.
-/
namespace Ragx

/-- Runs all commands, also behind one that raises; the first exception is raised. -/
def Command.gather {σ ε : Type*} : List (Command σ ε) → Command σ ε
  | [] => skip
  | c :: cs => fun s => ((gather cs (c s).1).1, (c s).2 <|> (gather cs (c s).1).2)

abbrev DescriptionCache := OrderedDict String AtomDescription

/-- A description plugin with its options. -/
structure Processor where
  describe : List Atom → Except Exc (List AtomDescription)

structure DegradationConfig where
  confidenceThreshold : ℚ := 3 / 4
  maxUpgradeRatio : ℚ := 3 / 10

/-- The order in which the batches of one call complete. -/
structure Completion where
  order : List (List Atom) → List (List Atom)
  perm : ∀ batches, (order batches).Perm batches

/-- `xs[i : i + size]` for every `i` of `range(0, len(xs), size)`. -/
def batchesOf (size : ℤ) (xs : List Atom) : Except Exc (List (List Atom)) :=
  if size = 0 then .error (.foreign "range() arg 3 must not be zero")
  else if size < 0 then .ok []
  else .ok ((List.range ((xs.length + size.toNat - 1) / size.toNat)).map fun i =>
    (xs.drop (i * size.toNat)).take size.toNat)

/-- `{a.atom_id: a for a in atoms}`. -/
def byId (atoms : List Atom) : OrderedDict String Atom :=
  .ofList (atoms.map fun a => (a.atomId, a))

/-- What the batches of a call write to. -/
structure BatchState where
  results : DescriptionCache := .empty
  cache : DescriptionCache

/-- The result is stored before the atom is looked up for its hash. -/
def recordDescription (atoms : List Atom) (d : AtomDescription) : Command BatchState Exc := fun s =>
  match (byId atoms).get? d.atomId with
  | none => ({ s with results := s.results.insert d.atomId d }, some (.foreign s!"'{d.atomId}'"))
  | some a =>
    ({ results := s.results.insert d.atomId d, cache := s.cache.insert a.contentHash d }, none)

def runBatch (processor : Processor) (atoms batch : List Atom) : Command BatchState Exc := fun s =>
  match processor.describe batch with
  | .error e => (s, some e)
  | .ok descs => Command.forEach (recordDescription atoms) descs s

def fallback (atom : Atom) : AtomDescription where
  atomId := atom.atomId
  description := atom.text.getD ""
  confidence := if atom.text.getD "" = "" then 0 else 1
  model := "passthrough"

/-- A result of this call, else a cached description, else the text itself. -/
def BatchState.describes (s : BatchState) (atom : Atom) : AtomDescription :=
  ((s.results.get? atom.atomId) <|> s.cache.get? atom.contentHash).getD (fallback atom)

/-- The cache afterwards, and one description for each atom. -/
def batchDescribe (processor : Processor) (completion : Completion) (maxBatchSize : ℤ)
    (atoms : List Atom) (cache : DescriptionCache) :
    DescriptionCache × Except Exc (List AtomDescription) :=
  let toProcess := atoms.filter fun a => (cache.get? a.contentHash).isNone
  match batchesOf maxBatchSize toProcess with
  | .error e => (cache, .error e)
  | .ok batches =>
    let done := Command.gather ((completion.order batches).map (runBatch processor atoms)) { cache }
    (done.1.cache, match done.2 with
      | some e => .error e
      | none => .ok (atoms.map done.1.describes))

/-- The small model first; the large one for the first few that it is unsure of. -/
def describeWithDegradation (small large : Processor) (completion completion' : Completion)
    (maxBatchSize : ℤ) (cfg : DegradationConfig) (atoms : List Atom) (cache : DescriptionCache) :
    DescriptionCache × Except Exc (List AtomDescription) :=
  match batchDescribe small completion maxBatchSize atoms cache with
  | (cache, .error e) => (cache, .error e)
  | (cache, .ok descs) =>
    let lowConf := descs.filter fun d => d.confidence < cfg.confidenceThreshold
    let upgradeN := min (lowConf.length : ℤ) (truncate (atoms.length * cfg.maxUpgradeRatio))
    let toUpgrade := sliceTo lowConf upgradeN
    if toUpgrade.isEmpty then (cache, .ok descs)
    else
      let selected := toUpgrade.mapM fun d =>
        match (byId atoms).get? d.atomId with
        | none => Except.error (Exc.foreign s!"'{d.atomId}'")
        | some a => .ok a
      match selected with
      | .error e => (cache, .error e)
      | .ok selected =>
        match batchDescribe large completion' maxBatchSize selected cache with
        | (cache, .error e) => (cache, .error e)
        | (cache, .ok upgraded) =>
          let upgradedMap : DescriptionCache := .ofList (upgraded.map fun d => (d.atomId, d))
          (cache, .ok (descs.map fun d => (upgradedMap.get? d.atomId).getD d))

def nonText (atoms : List Atom) : List Atom := atoms.filter (·.type ≠ .text)

/-- The entry point; without a large model the small one takes its place. -/
def processAtoms (vlmEnabled : Bool) (small large : Option Processor)
    (completion completion' : Completion) (maxBatchSize : ℤ) (cfg : DegradationConfig)
    (atoms : List Atom) (cache : DescriptionCache) :
    DescriptionCache × Except Exc (List AtomDescription) :=
  if !vlmEnabled || (nonText atoms).isEmpty then (cache, .ok [])
  else
    match small with
    | none => (cache, .ok [])
    | some small =>
      describeWithDegradation small (large.getD small) completion completion' maxBatchSize cfg
        (nonText atoms) cache

/-! ## One description for each atom -/

section Lengths

variable {processor small large : Processor} {completion completion' : Completion}
  {maxBatchSize : ℤ} {cfg : DegradationConfig} {atoms : List Atom} {cache : DescriptionCache}
  {descs : List AtomDescription}

theorem length_batchDescribe
    (h : (batchDescribe processor completion maxBatchSize atoms cache).2 = .ok descs) :
    descs.length = atoms.length := by
  unfold batchDescribe at h
  dsimp only at h
  cases hbatches : batchesOf maxBatchSize
      (atoms.filter fun a => (cache.get? a.contentHash).isNone) with
  | error e =>
    rw [hbatches] at h
    cases h
  | ok batches =>
    rw [hbatches] at h
    dsimp only at h
    cases hdone : (Command.gather ((completion.order batches).map (runBatch processor atoms))
        { cache }).2 with
    | some e =>
      rw [hdone] at h
      cases h
    | none =>
      rw [hdone] at h
      cases h
      exact List.length_map _

/-- Escalation replaces descriptions and keeps their number. -/
theorem length_describeWithDegradation
    (h : (describeWithDegradation small large completion completion' maxBatchSize cfg atoms
      cache).2 = .ok descs) : descs.length = atoms.length := by
  unfold describeWithDegradation at h
  cases hfirst : batchDescribe small completion maxBatchSize atoms cache with
  | mk cache₁ first =>
    rw [hfirst] at h
    cases first with
    | error e => cases h
    | ok descs₁ =>
      have hlength := length_batchDescribe (congrArg Prod.snd hfirst)
      dsimp only at h
      split_ifs at h
      · cases h
        exact hlength
      · split at h
        · cases h
        · split at h
          · cases h
          · cases h
            rw [List.length_map, hlength]

theorem length_processAtoms
    (h : (processAtoms true (some small) (some large) completion completion' maxBatchSize cfg atoms
      cache).2 = .ok descs) : descs.length = (nonText atoms).length := by
  unfold processAtoms at h
  split_ifs at h with hempty
  · cases h
    rw [Bool.not_true, Bool.false_or, List.isEmpty_iff] at hempty
    rw [hempty]
    rfl
  · exact length_describeWithDegradation h

end Lengths

end Ragx
