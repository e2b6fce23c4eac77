import Ragx.EventRuns
import Ragx.MetadataStore

/-!
# Concurrent edits of one chunk

`PUT` rewrites a chunk and reindexes it, `PATCH` merges metadata. Each edit is a task
that yields at every await: it reads the row, compares its version with the
caller's, and later writes the row back without looking again. The main result
says for which interleavings the version still works as a lock.
-/
namespace Ragx

/-! ## Requests -/

inductive EditBody where
  | put (text : String) (metadata : Option Metadata)
  | patch (metadata : Metadata)

/-- An edit with the version its caller saw; `kbAcl` is the allow-list of an
authenticated key. -/
structure EditRequest where
  body : EditBody
  version : ℤ
  kbAcl : Option (List String) := none

def chunkNotFoundError (chunkId : String) : Exc where
  cls := .chunkNotFound
  code := 3001
  message := "chunk not found"
  details := [("chunk_id", .str chunkId)]

namespace EditRequest

def metadata (req : EditRequest) : Metadata :=
  match req.body with
  | .put _ metadata => metadata.getD .empty
  | .patch metadata => metadata

/-- The chunk that the edit writes back, made from the chunk it read. -/
def rewrite (countTokens : String → ℕ) (req : EditRequest) (base : Chunk) : Chunk :=
  match req.body with
  | .put text metadata =>
    { base with
      text := text
      tokenCount := countTokens text
      metadata := base.metadata.update (metadata.getD .empty).entries
      version := base.version + 1
      edited := true }
  | .patch metadata =>
    { base with
      metadata := base.metadata.update metadata.entries
      version := base.version + 1 }

/-- The chunk has the edit's text and every metadata value of the edit. -/
def ContainedIn (req : EditRequest) (chunk : Chunk) : Prop :=
  (∀ text metadata, req.body = .put text metadata → chunk.text = text) ∧
    ∀ entry ∈ req.metadata.entries, chunk.metadata.get? entry.1 = some entry.2

theorem containedIn_rewrite (countTokens : String → ℕ) (req : EditRequest) (base : Chunk) :
    req.ContainedIn (req.rewrite countTokens base) := by
  obtain ⟨body, version, kbAcl⟩ := req
  cases body with
  | put text metadata =>
    refine ⟨fun text' metadata' h => by cases h; rfl, fun entry he => ?_⟩
    exact OrderedDict.get?_update_of_mem _ (metadata.getD .empty).nodup he
  | patch metadata =>
    refine ⟨nofun, fun entry he => ?_⟩
    exact OrderedDict.get?_update_of_mem _ metadata.nodup he

@[simp]
theorem version_rewrite (countTokens : String → ℕ) (req : EditRequest) (base : Chunk) :
    (req.rewrite countTokens base).version = base.version + 1 := by
  unfold rewrite
  split <;> rfl

end EditRequest

/-! ## One edit -/

/-- Where an edit stands between two awaits. `checked` and `cleared` hold the chunk as read
by its last version check, the later stages the chunk as written. -/
inductive EditStage where
  | submitted
  | admitted
  | checked (base : Chunk)
  | cleared (base : Chunk)
  | saved (chunk : Chunk)
  | embedded (chunk : Chunk)
  | upserted (chunk : Chunk)
  | reported (chunk : Chunk)
  | failed (e : Exc)

namespace EditStage

def isReported : EditStage → Bool
  | .reported _ => true
  | _ => false

/-- Written, and on the way to its report. -/
def isInFlight : EditStage → Bool
  | .saved _ => true
  | .embedded _ => true
  | .upserted _ => true
  | _ => false

/-- Written, and reported or on the way to it. -/
def hasLanded (stage : EditStage) : Bool := stage.isInFlight || stage.isReported

/-- The chunk as last read, by an edit that has not written yet. -/
def base? : EditStage → Option Chunk
  | .checked base => some base
  | .cleared base => some base
  | _ => none

end EditStage

structure ChunkEdit where
  request : EditRequest
  stage : EditStage

namespace ChunkEdit

/-- The route's own read and check. -/
def firstCheck (chunkId : String) (req : EditRequest) (stored : Option Chunk) : EditStage :=
  match stored with
  | none => .failed (chunkNotFoundError chunkId)
  | some chunk =>
    match requireKbAccess req.kbAcl chunk.kbId with
    | .error e => .failed e
    | .ok () =>
      if chunk.version ≠ req.version then
        .failed {
          cls := .editConflict, code := 3002, message := "version conflict"
          details := [("expected", .num chunk.version), ("provided", .num req.version)] }
      else match req.body with
        | .put .. => .admitted
        | .patch _ => .checked chunk

/-- The read and check at the start of the reindex. -/
def secondCheck (chunkId : String) (req : EditRequest) (stored : Option Chunk) : EditStage :=
  match stored with
  | none => .failed (chunkNotFoundError chunkId)
  | some chunk =>
    if chunk.version ≠ req.version then
      .failed {
        cls := .editConflict, code := 3002, message := "version mismatch"
        details := [("expected", .num req.version), ("actual", .num chunk.version)] }
    else .checked chunk

/-- The stage behind the next await and the row after it. The await may raise; after a `PUT`
has upserted its vector it only invalidates the cache, whose failures are swallowed. -/
def advance (countTokens : String → ℕ) (chunkId : String) (stored : Option Chunk)
    (raised : Option Exc) (edit : ChunkEdit) : Option (EditStage × Option Chunk) :=
  let req := edit.request
  let save (base : Chunk) : EditStage × Option Chunk :=
    (.saved (req.rewrite countTokens base),
      some (saveChunk stored (req.rewrite countTokens base)))
  match edit.stage, req.body, raised with
  | .reported _, _, _ => none
  | .failed _, _, _ => none
  | .upserted chunk, _, _ => some (.reported chunk, stored)
  | .saved chunk, .patch _, _ => some (.reported chunk, stored)
  | _, _, some e => some (.failed e, stored)
  | .submitted, _, none => some (firstCheck chunkId req stored, stored)
  | .admitted, _, none => some (secondCheck chunkId req stored, stored)
  | .checked base, .put .., none => some (.cleared base, stored)
  | .checked base, .patch _, none => some (save base)
  | .cleared base, _, none => some (save base)
  | .saved chunk, .put .., none => some (.embedded chunk, stored)
  | .embedded chunk, _, none => some (.upserted chunk, stored)

/-- The chunk read before, if the next await writes the row. -/
def savingBase (edit : ChunkEdit) (raised : Option Exc) : Option Chunk :=
  match edit.stage, edit.request.body, raised with
  | .checked base, .patch _, none => some base
  | .cleared base, _, none => some base
  | _, _, _ => none

theorem not_landed_of_base {stage : EditStage} {base : Chunk} (h : stage.base? = some base) :
    stage.hasLanded = false := by
  cases stage <;> first | rfl | cases h

/-- A check that passes keeps a chunk of the caller's version. -/
theorem firstCheck_spec (chunkId : String) (req : EditRequest) (stored : Option Chunk) :
    (firstCheck chunkId req stored).hasLanded = false ∧
      ∀ base ∈ (firstCheck chunkId req stored).base?, base.version = req.version := by
  unfold firstCheck
  split
  · exact ⟨rfl, fun _ h => absurd h (Option.not_mem_none _)⟩
  · split
    · exact ⟨rfl, fun _ h => absurd h (Option.not_mem_none _)⟩
    · split_ifs with hv
      · exact ⟨rfl, fun _ h => absurd h (Option.not_mem_none _)⟩
      · split
        · exact ⟨rfl, fun _ h => absurd h (Option.not_mem_none _)⟩
        · refine ⟨rfl, fun base hb => ?_⟩
          cases hb
          exact not_not.mp hv

theorem secondCheck_spec (chunkId : String) (req : EditRequest) (stored : Option Chunk) :
    (secondCheck chunkId req stored).hasLanded = false ∧
      ∀ base ∈ (secondCheck chunkId req stored).base?, base.version = req.version := by
  unfold secondCheck
  split
  · exact ⟨rfl, fun _ h => absurd h (Option.not_mem_none _)⟩
  · split_ifs with hv
    · exact ⟨rfl, fun _ h => absurd h (Option.not_mem_none _)⟩
    · refine ⟨rfl, fun base hb => ?_⟩
      cases hb
      exact not_not.mp hv

/-- An edit that raises leaves the row as it is, and has no base any more. -/
theorem advance_of_raised {countTokens : String → ℕ} {chunkId : String}
    {stored stored' : Option Chunk} {e : Exc} {edit : ChunkEdit} {stage' : EditStage}
    (h : edit.advance countTokens chunkId stored (some e) = some (stage', stored')) :
    stored' = stored ∧ stage'.base? = none ∧
      (edit.stage.hasLanded = false ∧ stage'.hasLanded = false ∨ edit.stage.isInFlight = true) := by
  obtain ⟨req, stage⟩ := edit
  cases stage with
  | submitted | admitted | checked base | cleared base =>
    cases h
    exact ⟨rfl, rfl, Or.inl ⟨rfl, rfl⟩⟩
  | saved chunk =>
    obtain ⟨body, version, kbAcl⟩ := req
    cases body with
    | put text metadata =>
      cases h
      exact ⟨rfl, rfl, Or.inr rfl⟩
    | patch metadata =>
      cases h
      exact ⟨rfl, rfl, Or.inr rfl⟩
  | embedded chunk | upserted chunk =>
    cases h
    exact ⟨rfl, rfl, Or.inr rfl⟩
  | reported chunk | failed e' => cases h

/-- What one await can do: write the row, move on in front of the write, or move on
behind it. -/
theorem advance_cases {countTokens : String → ℕ} {chunkId : String} {stored stored' : Option Chunk}
    {raised : Option Exc} {edit : ChunkEdit} {stage' : EditStage}
    (h : edit.advance countTokens chunkId stored raised = some (stage', stored')) :
    (∃ base, edit.savingBase raised = some base ∧ edit.stage.base? = some base ∧
      stage' = .saved (edit.request.rewrite countTokens base) ∧
      stored' = some (saveChunk stored (edit.request.rewrite countTokens base))) ∨
    (stored' = stored ∧ edit.stage.hasLanded = false ∧ stage'.hasLanded = false ∧
      ∀ base ∈ stage'.base?, base.version = edit.request.version ∨ edit.stage.base? = some base) ∨
    (stored' = stored ∧ edit.stage.isInFlight = true ∧ stage'.base? = none ∧
      (raised = none → stage'.hasLanded = true)) := by
  cases raised with
  | some e =>
    obtain ⟨hstored, hbase, ⟨hbefore, hafter⟩ | hflight⟩ := advance_of_raised h
    · refine Or.inr (Or.inl ⟨hstored, hbefore, hafter, fun base hb => ?_⟩)
      rw [hbase] at hb
      cases hb
    · exact Or.inr (Or.inr ⟨hstored, hflight, hbase, nofun⟩)
  | none =>
    obtain ⟨req, stage⟩ := edit
    cases stage with
    | submitted =>
      have hcheck := firstCheck_spec chunkId req stored
      cases h
      exact Or.inr (Or.inl ⟨rfl, rfl, hcheck.1, fun base hb => Or.inl (hcheck.2 base hb)⟩)
    | admitted =>
      have hcheck := secondCheck_spec chunkId req stored
      cases h
      exact Or.inr (Or.inl ⟨rfl, rfl, hcheck.1, fun base hb => Or.inl (hcheck.2 base hb)⟩)
    | checked base =>
      obtain ⟨body, version, kbAcl⟩ := req
      cases body with
      | put text metadata =>
        cases h
        exact Or.inr (Or.inl ⟨rfl, rfl, rfl, fun base hb => Or.inr hb⟩)
      | patch metadata =>
        cases h
        exact Or.inl ⟨base, rfl, rfl, rfl, rfl⟩
    | cleared base =>
      cases h
      exact Or.inl ⟨base, rfl, rfl, rfl, rfl⟩
    | saved chunk =>
      obtain ⟨body, version, kbAcl⟩ := req
      cases body with
      | put text metadata =>
        cases h
        exact Or.inr (Or.inr ⟨rfl, rfl, rfl, fun _ => rfl⟩)
      | patch metadata =>
        cases h
        exact Or.inr (Or.inr ⟨rfl, rfl, rfl, fun _ => rfl⟩)
    | embedded chunk | upserted chunk =>
      cases h
      exact Or.inr (Or.inr ⟨rfl, rfl, rfl, fun _ => rfl⟩)
    | reported chunk | failed e => cases h

end ChunkEdit

/-! ## Runs -/

inductive EditEvent where
  | submit (req : EditRequest)
  | advance (i : ℕ) (raised : Option Exc)

/-- The row of one chunk and all edits of it so far. -/
structure EditRun where
  stored : Option Chunk
  edits : List ChunkEdit := []

namespace EditRun

variable (countTokens : String → ℕ) (chunkId : String)

def step (w : EditRun) : EditEvent → Option EditRun
  | .submit req => some { w with edits := w.edits ++ [⟨req, .submitted⟩] }
  | .advance i raised =>
    match w.edits[i]? with
    | none => none
    | some edit =>
      (edit.advance countTokens chunkId w.stored raised).map fun next =>
        { stored := next.2, edits := w.edits.set i ⟨edit.request, next.1⟩ }

/-- No two reported edits carried the same version. -/
def OneSuccessPerVersion (w : EditRun) : Prop :=
  ((w.edits.filter (·.stage.isReported)).map (·.request.version)).Nodup

instance (w : EditRun) : Decidable w.OneSuccessPerVersion :=
  inferInstanceAs (Decidable (List.Nodup _))

/-- The version has grown by one for every edit that is reported or on the way to it. -/
def VersionCounts (v₀ : ℤ) (w : EditRun) : Prop :=
  ∀ chunk ∈ w.stored, chunk.version = v₀ + w.edits.countP (·.stage.hasLanded)

/-- The version works as an optimistic lock in this step. -/
structure LockHolds (v₀ : ℤ) (w : EditRun) (e : EditEvent) (w' : EditRun) : Prop where
  one_success : w'.OneSuccessPerVersion
  version_counts : w'.VersionCounts v₀
  /-- A reported change is in the row at the moment of the report. -/
  reported_contained : ∀ i raised, e = .advance i raised → ∀ edit ∈ w'.edits[i]?,
    edit.stage.isReported = true → ∀ chunk ∈ w'.stored, edit.request.ContainedIn chunk
  /-- No write based on an older version takes a reported change away. -/
  not_lost : ∀ i raised, e = .advance i raised → ∀ edit ∈ w.edits[i]?,
    ∀ base ∈ edit.savingBase raised, ∀ other ∈ w.edits, other.stage.isReported = true →
      base.version < other.request.version + 1 →
        ∀ chunk ∈ w'.stored, other.request.ContainedIn chunk

/-- A write finds the version it read, and keeps the changes of edits written but not yet
reported; nothing raises between a write and its report. -/
def Undisturbed (w : EditRun) (e : EditEvent) (_ : EditRun) : Prop :=
  match e with
  | .submit _ => True
  | .advance i raised => ∀ edit ∈ w.edits[i]?,
    (∀ base ∈ edit.savingBase raised, ∀ chunk ∈ w.stored, chunk.version = base.version ∧
      ∀ other ∈ w.edits, other.stage.isInFlight = true →
        other.request.ContainedIn (edit.request.rewrite countTokens base)) ∧
    (edit.stage.isInFlight = true → raised = none)

/-- What holds between the steps of an undisturbed run. -/
structure Serial (v₀ : ℤ) (w : EditRun) : Prop where
  exists_row : ∃ chunk, w.stored = some chunk
  version_counts : w.VersionCounts v₀
  landed_lt : ∀ edit ∈ w.edits, edit.stage.hasLanded = true →
    ∀ chunk ∈ w.stored, edit.request.version < chunk.version
  landed_ne : ∀ (i j : ℕ) (a b : ChunkEdit), w.edits[i]? = some a → w.edits[j]? = some b → i ≠ j →
    a.stage.hasLanded = true → b.stage.hasLanded = true → a.request.version ≠ b.request.version
  base_version : ∀ edit ∈ w.edits, ∀ base ∈ edit.stage.base?, base.version = edit.request.version
  inFlight_contained : ∀ edit ∈ w.edits, edit.stage.isInFlight = true →
    ∀ chunk ∈ w.stored, edit.request.ContainedIn chunk

variable {countTokens chunkId} {v₀ : ℤ} {w w' : EditRun}

theorem step_advance {i : ℕ} {raised : Option Exc}
    (hs : w.step countTokens chunkId (.advance i raised) = some w') :
    ∃ edit stage', w.edits[i]? = some edit ∧
      edit.advance countTokens chunkId w.stored raised = some (stage', w'.stored) ∧
      w'.edits = w.edits.set i ⟨edit.request, stage'⟩ := by
  unfold step at hs
  dsimp only at hs
  split at hs
  · cases hs
  · rename_i edit hedit
    obtain ⟨next, hnext, rfl⟩ := Option.map_eq_some_iff.mp hs
    exact ⟨edit, next.1, hedit, hnext, rfl⟩

/-- An edit after the step is the one that moved or one of the others. -/
theorem edit_of_set {edits : List ChunkEdit} {i j : ℕ} {new edit : ChunkEdit}
    (h : (edits.set i new)[j]? = some edit) :
    (j = i ∧ edit = new) ∨ (j ≠ i ∧ edits[j]? = some edit) := by
  rw [List.getElem?_set] at h
  split_ifs at h with hij hlt
  · cases h
    exact Or.inl ⟨hij.symm, rfl⟩
  · exact Or.inr ⟨Ne.symm hij, h⟩

theorem countP_landed_set {edits : List ChunkEdit} {i : ℕ} {edit new : ChunkEdit}
    (h : edits[i]? = some edit) :
    ((edits.set i new).countP (·.stage.hasLanded) : ℤ) =
      edits.countP (·.stage.hasLanded) - (if edit.stage.hasLanded then 1 else 0) +
        (if new.stage.hasLanded then 1 else 0) := by
  obtain ⟨hi, rfl⟩ := List.getElem?_eq_some_iff.mp h
  rw [List.countP_set hi]
  have hpos : edits[i].stage.hasLanded = true → 0 < edits.countP (·.stage.hasLanded) :=
    fun hl => List.countP_pos_iff.mpr ⟨_, List.getElem_mem hi, hl⟩
  cases hl : edits[i].stage.hasLanded with
  | true =>
    have := hpos hl
    simp only [if_true]
    push_cast
    omega
  | false => simp

theorem hasLanded_of_isInFlight {stage : EditStage} (h : stage.isInFlight = true) :
    stage.hasLanded = true := by rw [EditStage.hasLanded, h, Bool.true_or]

theorem hasLanded_of_isReported {stage : EditStage} (h : stage.isReported = true) :
    stage.hasLanded = true := by rw [EditStage.hasLanded, h, Bool.or_true]

theorem containedIn_saveChunk {req : EditRequest} {stored : Option Chunk} {chunk : Chunk}
    (h : req.ContainedIn chunk) : req.ContainedIn (saveChunk stored chunk) := by
  cases stored <;> exact h

@[simp]
theorem version_saveChunk (stored : Option Chunk) (chunk : Chunk) :
    (saveChunk stored chunk).version = chunk.version := by
  cases stored <;> rfl

/-- A step that leaves the row alone keeps the order of the landed edits. -/
theorem serial_of_move {i : ℕ} {edit : ChunkEdit} {stage' : EditStage} (hw : Serial v₀ w)
    (hedit : w.edits[i]? = some edit) (hedits : w'.edits = w.edits.set i ⟨edit.request, stage'⟩)
    (hstored : w'.stored = w.stored) (hland : stage'.hasLanded = edit.stage.hasLanded)
    (hflight : stage'.isInFlight = true → edit.stage.isInFlight = true)
    (hbase : ∀ base ∈ stage'.base?,
      base.version = edit.request.version ∨ edit.stage.base? = some base) :
    Serial v₀ w' := by
  have hin : edit ∈ w.edits := List.mem_of_getElem? hedit
  have hmem : ∀ e ∈ w'.edits, e = ⟨edit.request, stage'⟩ ∨ e ∈ w.edits := by
    intro e he
    rw [hedits] at he
    exact (List.mem_or_eq_of_mem_set he).symm
  constructor
  · rw [hstored]
    exact hw.exists_row
  · intro chunk hc
    rw [hstored] at hc
    rw [hw.version_counts chunk hc, hedits, countP_landed_set hedit, hland, Int.sub_add_cancel]
  · intro e he hl chunk hc
    rw [hstored] at hc
    rcases hmem e he with rfl | he
    · exact hw.landed_lt edit hin (hland ▸ hl) chunk hc
    · exact hw.landed_lt e he hl chunk hc
  · intro j k a b ha hb hne hla hlb
    rw [hedits] at ha hb
    rcases edit_of_set ha with ⟨rfl, rfl⟩ | ⟨_, ha'⟩
    · rcases edit_of_set hb with ⟨rfl, rfl⟩ | ⟨_, hb'⟩
      · exact absurd rfl hne
      · exact hw.landed_ne j k edit b hedit hb' hne (hland ▸ hla) hlb
    · rcases edit_of_set hb with ⟨rfl, rfl⟩ | ⟨_, hb'⟩
      · exact hw.landed_ne j k a edit ha' hedit hne hla (hland ▸ hlb)
      · exact hw.landed_ne j k a b ha' hb' hne hla hlb
  · intro e he base hb
    rcases hmem e he with rfl | he
    · rcases hbase base hb with hv | hb
      · exact hv
      · exact hw.base_version edit hin base hb
    · exact hw.base_version e he base hb
  · intro e he hf chunk hc
    rw [hstored] at hc
    rcases hmem e he with rfl | he
    · exact hw.inFlight_contained edit hin (hflight hf) chunk hc
    · exact hw.inFlight_contained e he hf chunk hc

/-- A write that finds the version it read lands behind all edits landed before. -/
theorem serial_of_write {i : ℕ} {edit : ChunkEdit} {base row : Chunk} (hw : Serial v₀ w)
    (hedit : w.edits[i]? = some edit) (hbase : edit.stage.base? = some base)
    (hrow : w.stored = some row) (hversion : row.version = base.version)
    (hkeeps : ∀ other ∈ w.edits, other.stage.isInFlight = true →
      other.request.ContainedIn (edit.request.rewrite countTokens base))
    (hedits : w'.edits =
      w.edits.set i ⟨edit.request, .saved (edit.request.rewrite countTokens base)⟩)
    (hstored : w'.stored =
      some (saveChunk w.stored (edit.request.rewrite countTokens base))) : Serial v₀ w' := by
  have hin : edit ∈ w.edits := List.mem_of_getElem? hedit
  have hreq : base.version = edit.request.version := hw.base_version edit hin base hbase
  have hnot : edit.stage.hasLanded = false := ChunkEdit.not_landed_of_base hbase
  have hnew : ∀ chunk ∈ w'.stored, chunk.version = base.version + 1 := by
    intro chunk hc
    rw [hstored] at hc
    cases hc
    rw [version_saveChunk, EditRequest.version_rewrite]
  have hmem : ∀ e ∈ w'.edits,
      e = ⟨edit.request, .saved (edit.request.rewrite countTokens base)⟩ ∨ e ∈ w.edits := by
    intro e he
    rw [hedits] at he
    exact (List.mem_or_eq_of_mem_set he).symm
  have hlower : ∀ e ∈ w.edits, e.stage.hasLanded = true →
      e.request.version < edit.request.version := by
    intro e he hl
    have hlt := hw.landed_lt e he hl row hrow
    omega
  constructor
  · exact ⟨_, hstored⟩
  · intro chunk hc
    have hold := hw.version_counts row hrow
    rw [hnew chunk hc, hedits, countP_landed_set hedit, hnot, ← hversion, hold]
    simp [EditStage.hasLanded, EditStage.isInFlight]
    omega
  · intro e he hl chunk hc
    rw [hnew chunk hc]
    rcases hmem e he with rfl | he
    · exact hreq ▸ Int.lt_succ base.version
    · have := hlower e he hl
      omega
  · intro j k a b ha hb hne hla hlb
    rw [hedits] at ha hb
    rcases edit_of_set ha with ⟨rfl, rfl⟩ | ⟨_, ha'⟩
    · rcases edit_of_set hb with ⟨rfl, rfl⟩ | ⟨_, hb'⟩
      · exact absurd rfl hne
      · exact (hlower b (List.mem_of_getElem? hb') hlb).ne'
    · rcases edit_of_set hb with ⟨rfl, rfl⟩ | ⟨_, hb'⟩
      · exact (hlower a (List.mem_of_getElem? ha') hla).ne
      · exact hw.landed_ne j k a b ha' hb' hne hla hlb
  · intro e he b hb
    rcases hmem e he with rfl | he
    · cases hb
    · exact hw.base_version e he b hb
  · intro e he hf chunk hc
    rw [hstored] at hc
    cases hc
    refine containedIn_saveChunk ?_
    rcases hmem e he with rfl | he
    · exact EditRequest.containedIn_rewrite countTokens edit.request base
    · exact hkeeps e he hf

theorem nodup_versions_of_ne {edits : List ChunkEdit}
    (h : ∀ (i j : ℕ) (a b : ChunkEdit), edits[i]? = some a → edits[j]? = some b → i ≠ j →
      a.stage.hasLanded = true → b.stage.hasLanded = true →
      a.request.version ≠ b.request.version) :
    ((edits.filter (·.stage.isReported)).map (·.request.version)).Nodup := by
  rw [List.Nodup, List.pairwise_map, List.pairwise_filter, List.pairwise_iff_getElem]
  intro i j hi hj hlt hri hrj
  exact h i j _ _ (List.getElem?_eq_getElem hi) (List.getElem?_eq_getElem hj) hlt.ne
    (hasLanded_of_isReported hri) (hasLanded_of_isReported hrj)

/-- A new edit has not landed. -/
theorem serial_submit {req : EditRequest} (hw : Serial v₀ w) (hstored : w'.stored = w.stored)
    (hedits : w'.edits = w.edits ++ [⟨req, .submitted⟩]) : Serial v₀ w' := by
  have hmem : ∀ e ∈ w'.edits, e ∈ w.edits ∨ e = ⟨req, .submitted⟩ := by
    intro e he
    rw [hedits] at he
    simpa using he
  have hget : ∀ (j : ℕ) (e : ChunkEdit), w'.edits[j]? = some e → e.stage.hasLanded = true →
      w.edits[j]? = some e := by
    intro j e he hl
    rw [hedits, List.getElem?_append] at he
    split_ifs at he
    · exact he
    · obtain rfl := List.mem_singleton.mp (List.mem_of_getElem? he)
      cases hl
  constructor
  · rw [hstored]
    exact hw.exists_row
  · intro chunk hc
    rw [hstored] at hc
    rw [hw.version_counts chunk hc, hedits, List.countP_append]
    rfl
  · intro e he hl chunk hc
    rw [hstored] at hc
    rcases hmem e he with he | rfl
    · exact hw.landed_lt e he hl chunk hc
    · cases hl
  · intro j k a b ha hb hne hla hlb
    exact hw.landed_ne j k a b (hget j a ha hla) (hget k b hb hlb) hne hla hlb
  · intro e he base hb
    rcases hmem e he with he | rfl
    · exact hw.base_version e he base hb
    · cases hb
  · intro e he hf chunk hc
    rw [hstored] at hc
    rcases hmem e he with he | rfl
    · exact hw.inFlight_contained e he hf chunk hc
    · cases hf

/-- What an await of one edit keeps, if nothing disturbs it. -/
theorem serial_advance {i : ℕ} {raised : Option Exc} {edit : ChunkEdit} {stage' : EditStage}
    (hw : Serial v₀ w) (hu : Undisturbed countTokens w (.advance i raised) w')
    (hedit : w.edits[i]? = some edit)
    (hadvance : edit.advance countTokens chunkId w.stored raised = some (stage', w'.stored))
    (hedits : w'.edits = w.edits.set i ⟨edit.request, stage'⟩) : Serial v₀ w' := by
  obtain ⟨row, hrow⟩ := hw.exists_row
  obtain ⟨hsave, hquiet⟩ := hu edit hedit
  rcases ChunkEdit.advance_cases hadvance with
    ⟨base, hsaving, hbase, hstage, hstored⟩ | ⟨hstored, hnot, hnot', hbase⟩ |
      ⟨hstored, hflight, hbase, hland⟩
  · obtain ⟨hversion, hkeeps⟩ := hsave base hsaving row hrow
    exact serial_of_write hw hedit hbase hrow hversion hkeeps (hstage ▸ hedits) hstored
  · refine serial_of_move hw hedit hedits hstored (hnot'.trans hnot.symm) ?_ hbase
    intro hflight
    rw [hasLanded_of_isInFlight hflight] at hnot'
    cases hnot'
  · refine serial_of_move hw hedit hedits hstored ?_ (fun _ => hflight) ?_
    · rw [hland (hquiet hflight), hasLanded_of_isInFlight hflight]
    · rw [hbase]
      exact fun _ h => absurd h (Option.not_mem_none _)

theorem lockHolds_step {e : EditEvent} (hw : Serial v₀ w)
    (hs : w.step countTokens chunkId e = some w') (hu : Undisturbed countTokens w e w') :
    LockHolds v₀ w e w' ∧ Serial v₀ w' := by
  cases e with
  | submit req =>
    cases hs
    have hw' : Serial v₀ { w with edits := w.edits ++ [⟨req, .submitted⟩] } :=
      serial_submit hw rfl rfl
    refine ⟨⟨nodup_versions_of_ne hw'.landed_ne, hw'.version_counts, ?_, ?_⟩, hw'⟩
    · intro _ _ h
      cases h
    · intro _ _ h
      cases h
  | advance i raised =>
    obtain ⟨edit, stage', hedit, hadvance, hedits⟩ := step_advance hs
    obtain ⟨row, hrow⟩ := hw.exists_row
    have hsave := (hu edit hedit).1
    have hin : edit ∈ w.edits := List.mem_of_getElem? hedit
    have hi : i < w.edits.length := (List.getElem?_eq_some_iff.mp hedit).1
    have hnew : w'.edits[i]? = some ⟨edit.request, stage'⟩ := by
      rw [hedits, List.getElem?_set_self hi]
    have hw' : Serial v₀ w' := serial_advance hw hu hedit hadvance hedits
    refine ⟨⟨nodup_versions_of_ne hw'.landed_ne, hw'.version_counts, ?_, ?_⟩, hw'⟩
    · rintro i' raised' heq edit' hedit' hreported chunk hc
      cases heq
      rw [hnew] at hedit'
      cases hedit'
      rcases ChunkEdit.advance_cases hadvance with
        ⟨base, _, _, hstage, _⟩ | ⟨_, _, hnot', _⟩ | ⟨hstored, hflight, _, _⟩
      · rw [hstage] at hreported
        cases hreported
      · rw [hasLanded_of_isReported hreported] at hnot'
        cases hnot'
      · rw [hstored] at hc
        exact hw.inFlight_contained edit hin hflight chunk hc
    · rintro i' raised' heq edit' hedit' base hsaving other hother hreported hlt
      cases heq
      rw [hedit] at hedit'
      cases hedit'
      -- the write found its own version, so it is not older than any reported edit
      have hversion := (hsave base hsaving row hrow).1
      have hbelow := hw.landed_lt other hother (hasLanded_of_isReported hreported) row hrow
      omega

/-- In an undisturbed run from a stored chunk the version is an optimistic lock: one
success per version, one version per success, and no reported change is lost. -/
theorem lockHolds_of_undisturbed {countTokens : String → ℕ} {chunkId : String} {chunk : Chunk}
    {events : List EditEvent}
    (h : EveryStep (step countTokens chunkId) (Undisturbed countTokens)
      { stored := some chunk } events) :
    EveryStep (step countTokens chunkId) (LockHolds chunk.version)
      { stored := some chunk } events := by
  refine EveryStep.of_invariant (I := Serial chunk.version)
    (fun _ _ _ => lockHolds_step) ?_ h
  constructor
  · exact ⟨chunk, rfl⟩
  · intro c hc
    cases hc
    exact (Int.add_zero _).symm
  · exact fun e he => absurd he List.not_mem_nil
  · exact fun i j a b ha => absurd (List.mem_of_getElem? ha) List.not_mem_nil
  · exact fun e he => absurd he List.not_mem_nil
  · exact fun e he => absurd he List.not_mem_nil

def sampleChunk : Chunk where
  chunkId := "chk_1"
  docId := "doc_1"
  kbId := "default"
  atomIds := []
  text := "text"
  tokenCount := 1

def tagEdit (tag : String) : EditRequest where
  body := .patch (.ofList [("tag", .str tag)])
  version := 1

theorem undisturbed_singleEdit :
    EveryStep (step String.length "chk_1") (Undisturbed String.length)
      { stored := some sampleChunk }
      [.submit (tagEdit "a"), .advance 0 none, .advance 0 none, .advance 0 none] := by
  simp [EveryStep, step, Undisturbed, ChunkEdit.advance, ChunkEdit.firstCheck,
    ChunkEdit.savingBase, tagEdit, sampleChunk, requireKbAccess, EditStage.isInFlight]

theorem lockHolds_singleEdit :
    EveryStep (step String.length "chk_1") (LockHolds 1) { stored := some sampleChunk }
      [.submit (tagEdit "a"), .advance 0 none, .advance 0 none, .advance 0 none] :=
  lockHolds_of_undisturbed undisturbed_singleEdit

/-- Both edits read version 1 before either of them writes. -/
theorem interleavedEdits_not_lockHolds :
    ¬ EveryStep (step String.length "chk_1") (LockHolds 1) { stored := some sampleChunk }
      [.submit (tagEdit "a"), .submit (tagEdit "b"), .advance 0 none, .advance 1 none,
        .advance 0 none, .advance 0 none, .advance 1 none, .advance 1 none] := by
  intro h
  have hone := h.imp (Q := fun _ _ w' => w'.OneSuccessPerVersion) fun _ _ _ hl => hl.one_success
  revert hone
  decide

end EditRun

end Ragx
