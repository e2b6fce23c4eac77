import Ragx.NetworkXGraphStore
import Ragx.Sequencing

/-!
# Merging extracted entities into the graph store

An extracted entity is merged into the stored entity with the same normalized name, or into
a stored near neighbour of the same type whose description vector is close enough, or it
becomes a new entity. The decision reads the store and changes nothing.
-/
namespace Ragx

structure ExtractedEntity where
  name : String
  type : String
  description : String
  confidence : ℚ

structure ExtractedRelation where
  head : String
  tail : String
  type : String
  description : String
  weight : ℚ := 1

structure ExtractionResult where
  entities : List ExtractedEntity := []
  relations : List ExtractedRelation := []

/-- The Unicode database, as far as names need it. -/
structure UnicodeTables where
  nfkc : String → String
  lower : String → String
  isSpace : Char → Bool
  isWord : Char → Bool

namespace UnicodeTables

/-- `s.strip()`. -/
def strip (u : UnicodeTables) (s : List Char) : List Char :=
  ((s.dropWhile u.isSpace).reverse.dropWhile u.isSpace).reverse

/-- `re.sub(r"\s+", " ", s)`; `open_` says that the run of blanks before has its blank. -/
def collapseBlanks (u : UnicodeTables) (open_ : Bool) : List Char → List Char
  | [] => []
  | c :: cs =>
    if u.isSpace c then
      if open_ then collapseBlanks u true cs else ' ' :: collapseBlanks u true cs
    else c :: collapseBlanks u false cs

/-- The key under which entities are deduplicated. -/
def normalizeName (u : UnicodeTables) (name : String) : String :=
  let s := (u.lower (String.ofList (u.strip (u.nfkc name).toList))).toList
  let s := s.filter fun c => u.isWord c || u.isSpace c
  String.ofList (u.collapseBlanks false s)

end UnicodeTables

def confidenceMin : ℚ := 1 / 2

def similarityThreshold : ℚ := 23 / 25

/-- Entities below the confidence floor go, and of two with one name the last stays in the
place of the first; relations between entities that are left stay. -/
def filterLowConfidence (result : ExtractionResult) : ExtractionResult :=
  let kept := result.entities.filter fun e => confidenceMin ≤ e.confidence
  let valid : OrderedDict String ExtractedEntity := .ofList (kept.map fun e => (e.name, e))
  { entities := valid.values
    relations := result.relations.filter fun r => r.head ∈ valid.keys && r.tail ∈ valid.keys }

/-- The endpoints of a relation that stays are names of entities that stay. -/
theorem exists_entity_of_mem_valid {result : ExtractionResult} {r : ExtractedRelation}
    (h : r ∈ (filterLowConfidence result).relations) :
    (∃ e ∈ (filterLowConfidence result).entities, e.name = r.head) ∧
      ∃ e ∈ (filterLowConfidence result).entities, e.name = r.tail := by
  have hname (pairs : List ExtractedEntity) (name : String)
      (hmem : name ∈ (OrderedDict.ofList (pairs.map fun e => (e.name, e))).keys) :
      ∃ e ∈ (OrderedDict.ofList (pairs.map fun e => (e.name, e))).values, e.name = name := by
    obtain ⟨entry, hentry, rfl⟩ := List.mem_map.mp hmem
    obtain ⟨e, _, rfl⟩ := List.mem_map.mp (OrderedDict.mem_entries_ofList hentry)
    exact ⟨e, List.mem_map.mpr ⟨_, hentry, rfl⟩, rfl⟩
  have hkeys := (List.mem_filter.mp h).2
  rw [Bool.and_eq_true, decide_eq_true_eq, decide_eq_true_eq] at hkeys
  exact ⟨hname _ _ hkeys.1, hname _ _ hkeys.2⟩

/-- What the graph build takes from outside: the Unicode database, the outcome of the
extraction of a chunk (none when it gave up), the embedder and the cosine. -/
structure KgEnv where
  unicode : UnicodeTables
  extractAuto : Chunk → Except Exc (Option ExtractionResult)
  embed : List String → Except Exc (List (List ℚ))
  cosine : List ℚ → List ℚ → ℚ

namespace KgEnv

variable {G : Type} (env : KgEnv)

/-- `(await embedder.embed([text]))[0]`. -/
def embedOne (text : String) : Except Exc (List ℚ) := do
  match ← env.embed [text] with
  | [] => .error (.foreign "list index out of range")
  | vector :: _ => return vector

/-- The vector of the first stored entity with the id. -/
def entityVector (s : NetworkXGraphStore G) (entityId : String) : List ℚ :=
  ((s.entities.values.find? fun e => e.entityId == entityId).map (·.vector)).getD []

/-- One candidate of the search for the most similar near neighbour. -/
def considerCandidate (s : NetworkXGraphStore G) (ext : ExtractedEntity) (nameNorm : String)
    (vector : List ℚ) (best : Option Entity × ℚ) (candidate : Entity) : Option Entity × ℚ :=
  let candidateVector := entityVector s candidate.entityId
  if candidate.nameNorm = nameNorm ∨ candidateVector = [] ∨
      vector.length ≠ candidateVector.length then best
  else
    let similarity := env.cosine vector candidateVector
    if similarityThreshold ≤ similarity ∧ candidate.type = ext.type ∧ best.2 < similarity then
      (some candidate, similarity)
    else best

def nearNeighbour (s : NetworkXGraphStore G) (ext : ExtractedEntity) (vector : List ℚ) :
    Option Entity :=
  ((s.matchEntities env.cosine vector 5).foldl
    (env.considerCandidate s ext (env.unicode.normalizeName ext.name) vector) (none, 0)).1

/-- What an extracted entity is merged into. -/
inductive Resolution where
  | exact (existing : Entity)
  | near (best : Entity)
  | new (vector : List ℚ)

def resolve (s : NetworkXGraphStore G) (ext : ExtractedEntity) : Except Exc Resolution :=
  match s.entities.get? (env.unicode.normalizeName ext.name) with
  | some existing => .ok (.exact existing)
  | none => do
    let vector ← env.embedOne ext.description
    match env.nearNeighbour s ext vector with
    | some best => return .near best
    | none => return .new vector

/-- The stored entity that an extracted one is merged into. -/
def Resolution.target : Resolution → Option Entity
  | .exact existing => some existing
  | .near best => some best
  | .new _ => none

/-- The entity that is upserted for an extracted one. -/
def mergedEntity (kbId docId freshId : String) (ext : ExtractedEntity) : Resolution → Entity
  | .exact existing =>
    { entityId := existing.entityId
      kbId := kbId
      name := if ext.name.length ≤ existing.name.length then existing.name else ext.name
      nameNorm := env.unicode.normalizeName ext.name
      type := existing.type
      description :=
        if ext.description.length ≤ existing.description.length then existing.description
        else ext.description
      sourceDocIds := sortedUnion existing.sourceDocIds [docId]
      confidence := max existing.confidence ext.confidence
      vector := existing.vector }
  | .near best =>
    { entityId := best.entityId
      kbId := kbId
      name := best.name
      nameNorm := best.nameNorm
      type := best.type
      description := best.description
      sourceDocIds := sortedUnion best.sourceDocIds [docId]
      confidence := max best.confidence ext.confidence
      vector := best.vector }
  | .new vector =>
    { entityId := freshId
      kbId := kbId
      name := ext.name
      nameNorm := env.unicode.normalizeName ext.name
      type := ext.type
      description := ext.description
      sourceDocIds := [docId]
      confidence := ext.confidence
      vector := vector }

@[simp]
theorem kbId_mergedEntity (kbId docId freshId : String) (ext : ExtractedEntity)
    (r : Resolution) : (env.mergedEntity kbId docId freshId ext r).kbId = kbId := by
  cases r with
  | exact existing => rfl
  | near best => rfl
  | new vector => rfl

theorem considerCandidate_cases (s : NetworkXGraphStore G) (ext : ExtractedEntity)
    (nameNorm : String) (vector : List ℚ) (best : Option Entity × ℚ) (candidate : Entity) :
    (env.considerCandidate s ext nameNorm vector best candidate).1 = best.1 ∨
      (env.considerCandidate s ext nameNorm vector best candidate).1 = some candidate := by
  unfold considerCandidate
  dsimp only
  split_ifs
  · exact Or.inl rfl
  · exact Or.inr rfl
  · exact Or.inl rfl

/-- A near neighbour is one of the stored entities. -/
theorem mem_of_nearNeighbour {s : NetworkXGraphStore G} {ext : ExtractedEntity}
    {vector : List ℚ} {best : Entity} (h : env.nearNeighbour s ext vector = some best) :
    best ∈ s.entities.values := by
  have hloop (candidates : List Entity) (hc : ∀ c ∈ candidates, c ∈ s.entities.values)
      (acc : Option Entity × ℚ) (hacc : ∀ e ∈ acc.1, e ∈ s.entities.values) :
      ∀ e ∈ (candidates.foldl (env.considerCandidate s ext
        (env.unicode.normalizeName ext.name) vector) acc).1, e ∈ s.entities.values := by
    induction candidates generalizing acc with
    | nil => exact hacc
    | cons c candidates ih =>
      refine ih (fun c' hc' => hc c' (List.mem_cons_of_mem c hc')) _ fun e he => ?_
      rcases env.considerCandidate_cases s ext (env.unicode.normalizeName ext.name) vector acc c
        with h | h
      · exact hacc e (h ▸ he)
      · rw [h] at he
        cases he
        exact hc c List.mem_cons_self
  refine hloop _ (fun c hc => NetworkXGraphStore.mem_matchEntities hc) (none, 0) ?_ best h
  exact fun e he => absurd he (Option.not_mem_none e)

/-- What a resolution says of the store. -/
def Resolves (s : NetworkXGraphStore G) (ext : ExtractedEntity) : Resolution → Prop
  | .exact existing => s.entities.get? (env.unicode.normalizeName ext.name) = some existing
  | .near best => s.entities.get? (env.unicode.normalizeName ext.name) = none ∧
      s.entities.get? best.nameNorm = some best
  | .new _ => s.entities.get? (env.unicode.normalizeName ext.name) = none

theorem resolves_of_resolve {s : NetworkXGraphStore G} {ext : ExtractedEntity} {r : Resolution}
    (h : env.resolve s ext = .ok r) : env.Resolves s ext r := by
  unfold resolve at h
  cases hget : s.entities.get? (env.unicode.normalizeName ext.name) with
  | some existing =>
    rw [hget] at h
    cases h
    exact hget
  | none =>
    rw [hget] at h
    obtain ⟨vector, _, hrest⟩ := bind_eq_ok_iff.mp h
    cases hnear : env.nearNeighbour s ext vector with
    | some best =>
      rw [hnear] at hrest
      cases hrest
      exact ⟨hget, KeyedTable.mem_values.mp (env.mem_of_nearNeighbour hnear)⟩
    | none =>
      rw [hnear] at hrest
      cases hrest
      exact hget

/-- An entity that is merged carries the name and the id of a stored one. -/
theorem mergedEntity_of_target {s : NetworkXGraphStore G} {ext : ExtractedEntity}
    {r : Resolution} {t : Entity} (h : env.Resolves s ext r) (ht : r.target = some t)
    (kbId docId freshId : String) :
    s.entities.get? t.nameNorm = some t ∧
      (env.mergedEntity kbId docId freshId ext r).nameNorm = t.nameNorm ∧
      (env.mergedEntity kbId docId freshId ext r).entityId = t.entityId := by
  cases r with
  | exact existing =>
    cases ht
    have hkey := KeyedTable.key_of_get? h
    exact ⟨hkey ▸ h, hkey.symm, rfl⟩
  | near best =>
    cases ht
    exact ⟨h.2, rfl, rfl⟩
  | new vector => cases ht

/-- An entity that is not merged carries its own name, which is not stored, and the new id. -/
theorem mergedEntity_of_new {s : NetworkXGraphStore G} {ext : ExtractedEntity}
    {r : Resolution} (h : env.Resolves s ext r) (ht : r.target = none)
    (kbId docId freshId : String) :
    s.entities.get? (env.unicode.normalizeName ext.name) = none ∧
      (env.mergedEntity kbId docId freshId ext r).nameNorm = env.unicode.normalizeName ext.name ∧
      (env.mergedEntity kbId docId freshId ext r).entityId = freshId ∧
      (env.mergedEntity kbId docId freshId ext r).name = ext.name := by
  cases r with
  | exact existing => cases ht
  | near best => cases ht
  | new vector => exact ⟨h, rfl, rfl, rfl⟩

end KgEnv

end Ragx
