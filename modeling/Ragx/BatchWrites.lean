import Ragx.ChunkContents
import Ragx.FullTextSync
import Ragx.MetadataStore

/-!
# Batches that raise

A batch is written one item at a time. One store commits each statement and checks an item just
before its own; the other commits once at the end, and leaves its transaction open when an
insert raises. In both, what was written before the refused item stays, so a batch is atomic
only if that changes nothing.
-/
namespace Ragx

namespace Command

variable {σ ε α : Type*}

/-- A loop that refuses some items does the items before the first refused one. -/
theorem forEach_refusing {body : α → Command σ ε} (refuse : σ → α → Option ε) {f : σ → α → σ}
    (hok : ∀ x s, refuse s x = none → body x s = (f s x, none))
    (hno : ∀ x s e, refuse s x = some e → body x s = (s, some e))
    (hkeep : ∀ s x, refuse (f s x) = refuse s) (xs : List α) (s : σ) :
    forEach body xs s =
      ((xs.takeWhile fun x => (refuse s x).isNone).foldl f s, xs.findSome? (refuse s)) := by
  induction xs generalizing s with
  | nil => rfl
  | cons x xs ih =>
    cases hx : refuse s x with
    | some e =>
      have hbody := hno x s e hx
      have hraised : (body x s).2 = some e := by rw [hbody]
      refine (andThen_of_some hraised).trans ?_
      simp [hbody, hx]
    | none =>
      have hbody := hok x s hx
      have hraised : (body x s).2 = none := by rw [hbody]
      refine (andThen_of_none hraised).trans ?_
      rw [hbody, ih, hkeep]
      simp [hx]

end Command

namespace OrderedDict

variable {κ α β : Type*} [DecidableEq κ]

/-- The last item of each key finds its own value stored. -/
def Restores (key : β → κ) (f : Option α → β → α) (d : OrderedDict κ α) (xs : List β) : Prop :=
  ∀ k, ∀ x ∈ (xs.filter fun y => decide (key y = k)).getLast?,
    ∃ old ∈ d.get? k, f (some old) x = old

/-- A loop whose items overwrite all that an earlier one wrote changes nothing exactly if it
restores what is stored. -/
theorem accumulate_eq_self_iff (key : β → κ) {f : Option α → β → α}
    (habsorb : ∀ v x y, f (some (f (some v) x)) y = f (some v) y) (d : OrderedDict κ α)
    (xs : List β) : d.accumulate key f xs = d ↔ Restores key f d xs := by
  have hlast (v : α) (ys : List β) (z : β) :
      f (ys.foldl (fun old x => some (f old x)) (some v)) z = f (some v) z := by
    induction ys generalizing v with
    | nil => rfl
    | cons y ys ih => exact (ih (f (some v) y)).trans (habsorb v y z)
  constructor
  · intro h k x hx
    obtain ⟨ys, hys⟩ := List.getLast?_eq_some_iff.mp hx
    have hget := get?_accumulate key f d xs k
    rw [h, hys, List.foldl_append] at hget
    cases hd : d.get? k with
    | none => simp [hd] at hget
    | some old =>
      refine ⟨old, rfl, ?_⟩
      simp only [hd, List.foldl_cons, List.foldl_nil, hlast, Option.some.injEq] at hget
      exact hget.symm
  · intro h
    refine eq_of_keys_of_get? (keys_accumulate_of_subset key f fun x hx => ?_) fun k => ?_
    · have hmem : x ∈ xs.filter fun y => decide (key y = key x) := by simp [hx]
      obtain ⟨z, hz⟩ := Option.ne_none_iff_exists'.mp
        (mt List.getLast?_eq_none_iff.mp (List.ne_nil_of_mem hmem))
      obtain ⟨old, hold, _⟩ := h (key x) z hz
      exact List.mem_map_of_mem (mem_entries.mpr hold)
    · rw [get?_accumulate]
      rcases List.eq_nil_or_concat (xs.filter fun y => decide (key y = k)) with hnil | ⟨ys, z, hys⟩
      · rw [hnil, List.foldl_nil]
      · rw [List.concat_eq_append] at hys
        have hz : z ∈ (xs.filter fun y => decide (key y = k)).getLast? := by simp [hys]
        obtain ⟨old, hold, hsame⟩ := h k z hz
        have hget : d.get? k = some old := hold
        rw [hys, List.foldl_append, hget]
        simp only [List.foldl_cons, List.foldl_nil, hlast, hsame]

end OrderedDict

/-! ## The vector store -/

namespace ChunkTable

variable (c : ColumnCodecs)

/-- The columns that a reader sees, by chunk id: all but the row number. -/
def columns (t : ChunkTable) : OrderedDict String ChunkRow :=
  t.rows.mapValues fun row => { row with rowid := 0 }

/-- What a statement does to the columns under its chunk id. -/
def writeColumns (stored : Option ChunkRow) (chunk : EmbeddedChunk) : ChunkRow :=
  match stored with
  | none => .ofChunk c 0 chunk
  | some old => old.onConflict (.ofChunk c 0 chunk)

theorem columns_write (t : ChunkTable) (chunk : EmbeddedChunk) :
    (write c chunk t).columns = t.columns.accumulate (·.chunkId) (writeColumns c) [chunk] :=
  mapValues_write c _ (writeColumns c) (fun _ => rfl) fun _ _ => rfl

end ChunkTable

namespace OpenVectorStore

variable (c : ColumnCodecs)

/-- The chunks before the first one that is refused. -/
def accepted (s : OpenVectorStore) (chunks : List EmbeddedChunk) : List EmbeddedChunk :=
  chunks.takeWhile fun x => (s.refusal x).isNone

def writeChunk (s : OpenVectorStore) (chunk : EmbeddedChunk) : OpenVectorStore :=
  { s with table := s.table.write c chunk }

theorem upsert_eq (s : OpenVectorStore) (chunks : List EmbeddedChunk) :
    s.upsert c chunks =
      ((s.accepted chunks).foldl (writeChunk c) s, chunks.findSome? s.refusal) := by
  have hok (x : EmbeddedChunk) (s : OpenVectorStore) (h : s.refusal x = none) :
      upsertOne c x s = (writeChunk c s x, none) := by
    simp only [upsertOne, h, writeChunk]
  have hno (x : EmbeddedChunk) (s : OpenVectorStore) (e : Exc) (h : s.refusal x = some e) :
      upsertOne c x s = (s, some e) := by
    simp only [upsertOne, h]
  exact Command.forEach_refusing refusal hok hno (fun _ _ => rfl) chunks s

theorem columns_foldl_writeChunk (s : OpenVectorStore) (chunks : List EmbeddedChunk) :
    (chunks.foldl (writeChunk c) s).table.columns =
      s.table.columns.accumulate (·.chunkId) (ChunkTable.writeColumns c) chunks := by
  induction chunks generalizing s with
  | nil => rfl
  | cons x xs ih =>
    rw [List.foldl_cons, ih, writeChunk, ChunkTable.columns_write]
    rfl

theorem columns_upsert (s : OpenVectorStore) (chunks : List EmbeddedChunk) :
    (s.upsert c chunks).1.table.columns =
      s.table.columns.accumulate (·.chunkId) (ChunkTable.writeColumns c) (s.accepted chunks) := by
  rw [upsert_eq, columns_foldl_writeChunk]

theorem columns_delete (s : OpenVectorStore) (chunkIds : List String) :
    (s.delete chunkIds).table.columns =
      chunkIds.foldl (fun m id => m.erase id) s.table.columns := by
  show (chunkIds.foldl (fun t id => t.deleteRow id) s.table).columns = _
  generalize s.table = t
  induction chunkIds generalizing t with
  | nil => rfl
  | cons id ids ih => rw [List.foldl_cons, List.foldl_cons, ih, ChunkTable.columns,
      ChunkTable.mapValues_deleteRow, ChunkTable.columns]

/-- What a reader sees after a call depends on what a reader saw before it. -/
theorem columns_apply_congr {s s' : OpenVectorStore} (hkb : s'.kbId = s.kbId)
    (hdim : s'.dimension = s.dimension) (h : s'.table.columns = s.table.columns) (w : StoreWrite) :
    (apply c s' w).table.columns = (apply c s w).table.columns := by
  cases w with
  | upsert chunks =>
    have haccepted : s'.accepted chunks = s.accepted chunks := by
      simp only [accepted, refusal, hkb, hdim]
    show (s'.upsert c chunks).1.table.columns = (s.upsert c chunks).1.table.columns
    rw [columns_upsert, columns_upsert, h, haccepted]
  | delete chunkIds =>
    show (s'.delete chunkIds).table.columns = (s.delete chunkIds).table.columns
    rw [columns_delete, columns_delete, h]

theorem configuration_foldl_writeChunk (s : OpenVectorStore) (chunks : List EmbeddedChunk) :
    (chunks.foldl (writeChunk c) s).kbId = s.kbId ∧
      (chunks.foldl (writeChunk c) s).dimension = s.dimension := by
  induction chunks generalizing s with
  | nil => exact ⟨rfl, rfl⟩
  | cons x xs ih => exact ih (writeChunk c s x)

/-- No call changes the configuration. -/
theorem configuration_apply (s : OpenVectorStore) (w : StoreWrite) :
    (apply c s w).kbId = s.kbId ∧ (apply c s w).dimension = s.dimension := by
  cases w with
  | upsert chunks =>
    show (s.upsert c chunks).1.kbId = s.kbId ∧ (s.upsert c chunks).1.dimension = s.dimension
    rw [upsert_eq]
    exact configuration_foldl_writeChunk c s (s.accepted chunks)
  | delete chunkIds => exact ⟨rfl, rfl⟩

theorem columns_runWrites_congr {s s' : OpenVectorStore} (hkb : s'.kbId = s.kbId)
    (hdim : s'.dimension = s.dimension) (h : s'.table.columns = s.table.columns)
    (writes : List StoreWrite) :
    (runWrites c s' writes).table.columns = (runWrites c s writes).table.columns := by
  induction writes generalizing s s' with
  | nil => exact h
  | cons w ws ih =>
    have hs := configuration_apply c s w
    have hs' := configuration_apply c s' w
    apply ih
    · rw [hs'.1, hs.1, hkb]
    · rw [hs'.2, hs.2, hdim]
    · exact columns_apply_congr c hkb hdim h w

/-- If the call raises, no later reader can tell that it was made. -/
def UpsertAtomic (s : OpenVectorStore) (chunks : List EmbeddedChunk) : Prop :=
  (s.upsert c chunks).2 ≠ none → ∀ later : List StoreWrite,
    (runWrites c (s.upsert c chunks).1 later).table.columns =
      (runWrites c s later).table.columns

/-- The chunks before the first refused one rewrite what is stored. -/
def UpsertHarmless (s : OpenVectorStore) (chunks : List EmbeddedChunk) : Prop :=
  s.table.columns.Restores (·.chunkId) (ChunkTable.writeColumns c) (s.accepted chunks)

theorem upsertAtomic_iff (s : OpenVectorStore) (chunks : List EmbeddedChunk) :
    s.UpsertAtomic c chunks ↔ (∀ x ∈ chunks, s.refusal x = none) ∨ s.UpsertHarmless c chunks := by
  have habsorb (v : ChunkRow) (x y : EmbeddedChunk) :
      ChunkTable.writeColumns c (some (ChunkTable.writeColumns c (some v) x)) y =
        ChunkTable.writeColumns c (some v) y := rfl
  have hsame := OrderedDict.accumulate_eq_self_iff (fun x : EmbeddedChunk => x.chunkId)
    habsorb s.table.columns (s.accepted chunks)
  have hraised : (s.upsert c chunks).2 = none ↔ ∀ x ∈ chunks, s.refusal x = none := by
    rw [upsert_eq]
    simp
  constructor
  · intro hatomic
    by_cases hok : (s.upsert c chunks).2 = none
    · exact Or.inl (hraised.mp hok)
    · have hnow := hatomic hok []
      have hcolumns : (s.upsert c chunks).1.table.columns = s.table.columns := hnow
      rw [columns_upsert] at hcolumns
      exact Or.inr (hsame.mp hcolumns)
  · intro hcondition hno later
    have hharmless : s.UpsertHarmless c chunks :=
      hcondition.resolve_left fun hall => hno (hraised.mpr hall)
    have hconfiguration := configuration_apply c s (.upsert chunks)
    apply columns_runWrites_congr c hconfiguration.1 hconfiguration.2
    show (s.upsert c chunks).1.table.columns = s.table.columns
    rw [columns_upsert]
    exact hsame.mpr hharmless

end OpenVectorStore

/-! ## The metadata store -/

structure MetadataTables where
  atoms : OrderedDict String Atom
  chunks : OrderedDict String Chunk

/-- The one connection: it reads what its open transaction has written. -/
structure MetadataConnection where
  committed : MetadataTables
  working : MetadataTables

/-- What preparing and running the insert of an item raises. -/
structure InsertErrors where
  atom : Atom → Option Exc
  chunk : Chunk → Option Exc

def MetadataTables.insertAtom (t : MetadataTables) (atom : Atom) : MetadataTables :=
  { t with atoms := t.atoms.insert atom.atomId (saveAtom (t.atoms.get? atom.atomId) atom) }

def MetadataTables.insertChunk (t : MetadataTables) (chunk : Chunk) : MetadataTables :=
  { t with chunks := t.chunks.insert chunk.chunkId (saveChunk (t.chunks.get? chunk.chunkId) chunk) }

namespace MetadataConnection

variable {α : Type*} (errors : InsertErrors)

def commit : Command MetadataConnection Exc := fun s => ({ s with committed := s.working }, none)

def execute (raises : α → Option Exc) (insert : MetadataTables → α → MetadataTables) (x : α) :
    Command MetadataConnection Exc := fun s =>
  match raises x with
  | some e => (s, some e)
  | none => ({ s with working := insert s.working x }, none)

/-- The inserts of a batch and the commit after them. Nothing rolls back. -/
def saveBatch (raises : α → Option Exc) (insert : MetadataTables → α → MetadataTables)
    (batch : List α) : Command MetadataConnection Exc :=
  (Command.forEach (execute raises insert) batch).andThen commit

def saveAtoms (atoms : List Atom) : Command MetadataConnection Exc :=
  saveBatch errors.atom .insertAtom atoms

def saveChunks (chunks : List Chunk) : Command MetadataConnection Exc :=
  saveBatch errors.chunk .insertChunk chunks

end MetadataConnection

/-- A later operation: one of the two, or one that writes to another table and commits. -/
inductive MetadataWrite where
  | saveAtoms (atoms : List Atom)
  | saveChunks (chunks : List Chunk)
  | other

namespace MetadataConnection

variable {α : Type*} (errors : InsertErrors)

def apply (s : MetadataConnection) : MetadataWrite → MetadataConnection
  | .saveAtoms atoms => (saveAtoms errors atoms s).1
  | .saveChunks chunks => (saveChunks errors chunks s).1
  | .other => (commit s).1

def runWrites (s : MetadataConnection) (writes : List MetadataWrite) : MetadataConnection :=
  writes.foldl (apply errors) s

/-- The items before the first one that raises. -/
def inserted (raises : α → Option Exc) (batch : List α) : List α :=
  batch.takeWhile fun x => (raises x).isNone

/-- If the call raises, no later reader can tell that it was made. -/
def SaveAtomic (call : Command MetadataConnection Exc) (s : MetadataConnection) : Prop :=
  (call s).2 ≠ none →
    ∀ later : List MetadataWrite, runWrites errors (call s).1 later = runWrites errors s later

section

variable (raises : α → Option Exc) (insert : MetadataTables → α → MetadataTables)

theorem forEach_execute (batch : List α) (s : MetadataConnection) :
    Command.forEach (execute raises insert) batch s =
      ({ s with working := (inserted raises batch).foldl insert s.working },
        batch.findSome? raises) := by
  have hok (x : α) (s : MetadataConnection) (h : raises x = none) :
      execute raises insert x s = ({ s with working := insert s.working x }, none) := by
    simp only [execute, h]
  have hno (x : α) (s : MetadataConnection) (e : Exc) (h : raises x = some e) :
      execute raises insert x s = (s, some e) := by
    simp only [execute, h]
  have hfold (xs : List α) (s : MetadataConnection) :
      xs.foldl (fun s x => { s with working := insert s.working x }) s =
        { s with working := xs.foldl insert s.working } := by
    induction xs generalizing s with
    | nil => rfl
    | cons x xs ih => exact ih { s with working := insert s.working x }
  rw [Command.forEach_refusing (fun _ => raises) hok hno (fun _ _ => rfl), hfold]
  rfl

/-- A batch is atomic exactly if nothing raises or what was inserted changes nothing. -/
theorem saveAtomic_iff (batch : List α) (s : MetadataConnection) :
    SaveAtomic errors (saveBatch raises insert batch) s ↔
      (∀ x ∈ batch, raises x = none) ∨
        (inserted raises batch).foldl insert s.working = s.working := by
  have hloop := forEach_execute raises insert batch s
  cases hfirst : batch.findSome? raises with
  | none =>
    have hnone : (saveBatch raises insert batch s).2 = none := by
      have hraised : (Command.forEach (execute raises insert) batch s).2 = none := by
        rw [hloop, hfirst]
      rw [saveBatch, Command.andThen_of_none hraised]
      rfl
    have hall : ∀ x ∈ batch, raises x = none := List.findSome?_eq_none_iff.mp hfirst
    exact iff_of_true (fun hraised => absurd hnone hraised) (Or.inl hall)
  | some e =>
    have hraised : (Command.forEach (execute raises insert) batch s).2 = some e := by
      rw [hloop, hfirst]
    have hcall : saveBatch raises insert batch s =
        ({ s with working := (inserted raises batch).foldl insert s.working }, some e) := by
      rw [saveBatch, Command.andThen_of_some hraised, hloop, hfirst]
    have hsome : ¬ ∀ x ∈ batch, raises x = none := by
      intro hall
      rw [List.findSome?_eq_none_iff.mpr hall] at hfirst
      simp at hfirst
    constructor
    · intro hatomic
      have hnow := hatomic (by simp [hcall]) []
      have hstate : (saveBatch raises insert batch s).1 = s := hnow
      rw [hcall] at hstate
      exact Or.inr (congrArg working hstate)
    · intro hcondition _ later
      rw [hcall, hcondition.resolve_left hsome]

end

def AtomsHarmless (s : MetadataConnection) (atoms : List Atom) : Prop :=
  s.working.atoms.Restores (·.atomId) saveAtom (inserted errors.atom atoms)

def ChunksHarmless (s : MetadataConnection) (chunks : List Chunk) : Prop :=
  s.working.chunks.Restores (·.chunkId) saveChunk (inserted errors.chunk chunks)

theorem saveAtoms_atomic_iff (s : MetadataConnection) (atoms : List Atom) :
    SaveAtomic errors (saveAtoms errors atoms) s ↔
      (∀ x ∈ atoms, errors.atom x = none) ∨ s.AtomsHarmless errors atoms := by
  have hfold (xs : List Atom) (t : MetadataTables) :
      xs.foldl MetadataTables.insertAtom t =
        { t with atoms := t.atoms.accumulate (·.atomId) saveAtom xs } := by
    induction xs generalizing t with
    | nil => rfl
    | cons x xs ih => exact ih (t.insertAtom x)
  have hsame := OrderedDict.accumulate_eq_self_iff (fun x : Atom => x.atomId)
    (f := saveAtom) (fun _ _ _ => rfl) s.working.atoms (inserted errors.atom atoms)
  rw [saveAtoms, saveAtomic_iff, hfold, AtomsHarmless, ← hsame]
  refine or_congr Iff.rfl ⟨fun h => congrArg MetadataTables.atoms h, fun h => ?_⟩
  rw [h]

theorem saveChunks_atomic_iff (s : MetadataConnection) (chunks : List Chunk) :
    SaveAtomic errors (saveChunks errors chunks) s ↔
      (∀ x ∈ chunks, errors.chunk x = none) ∨ s.ChunksHarmless errors chunks := by
  have hfold (xs : List Chunk) (t : MetadataTables) :
      xs.foldl MetadataTables.insertChunk t =
        { t with chunks := t.chunks.accumulate (·.chunkId) saveChunk xs } := by
    induction xs generalizing t with
    | nil => rfl
    | cons x xs ih => exact ih (t.insertChunk x)
  have hsame := OrderedDict.accumulate_eq_self_iff (fun x : Chunk => x.chunkId)
    (f := saveChunk) (fun _ _ _ => rfl) s.working.chunks (inserted errors.chunk chunks)
  rw [saveChunks, saveAtomic_iff, hfold, ChunksHarmless, ← hsame]
  refine or_congr Iff.rfl ⟨fun h => congrArg MetadataTables.chunks h, fun h => ?_⟩
  rw [h]

end MetadataConnection

/-- A batch is atomic exactly if nothing in it is refused, or the items before the first refused
one rewrite what is stored. -/
theorem batch_atomic_iff (c : ColumnCodecs) (store : OpenVectorStore)
    (batch : List EmbeddedChunk) (errors : InsertErrors) (connection : MetadataConnection)
    (atoms : List Atom) (chunks : List Chunk) :
    (store.UpsertAtomic c batch ↔
        (∀ x ∈ batch, store.refusal x = none) ∨ store.UpsertHarmless c batch) ∧
      (connection.SaveAtomic errors (MetadataConnection.saveAtoms errors atoms) ↔
        (∀ x ∈ atoms, errors.atom x = none) ∨ connection.AtomsHarmless errors atoms) ∧
      (connection.SaveAtomic errors (MetadataConnection.saveChunks errors chunks) ↔
        (∀ x ∈ chunks, errors.chunk x = none) ∨ connection.ChunksHarmless errors chunks) :=
  ⟨store.upsertAtomic_iff c batch, connection.saveAtoms_atomic_iff errors atoms,
    connection.saveChunks_atomic_iff errors chunks⟩

section Sample

open HeldChunks

/-- The second chunk belongs to another knowledge base. -/
def foreignSecond : List EmbeddedChunk :=
  [sampleChunk "doc_1" "a", { sampleChunk "doc_1" "b" with chunkId := "chk_2", kbId := "kb_2" }]

/-- A page number does not fit in 64 bits. -/
def pageErrors : InsertErrors where
  atom _ := none
  chunk x :=
    if x.page.all fun p => decide (-2 ^ 63 ≤ p ∧ p < 2 ^ 63) then none
    else some (.foreign "Python int too large to convert to SQLite INTEGER")

def overflowSecond : List Chunk :=
  [(sampleChunk "doc_1" "a").toChunk,
    { (sampleChunk "doc_1" "b").toChunk with chunkId := "chk_2", page := some (2 ^ 63) }]

def noTables : MetadataConnection := ⟨⟨.empty, .empty⟩, ⟨.empty, .empty⟩⟩

theorem not_batch_atomic_bad_second :
    ¬ (OpenVectorStore.opened "kb" 1 "ragx.db").UpsertAtomic sampleCodecs foreignSecond ∧
      ¬ noTables.SaveAtomic pageErrors
        (MetadataConnection.saveChunks pageErrors overflowSecond) := by
  constructor
  · intro h
    have hnow := h (by decide) []
    have hkeys := congrArg OrderedDict.keys hnow
    exact absurd hkeys (by decide)
  · intro h
    have hlater := h (by decide) [.other]
    have hkeys := congrArg (fun s => s.committed.chunks.keys) hlater
    exact absurd hkeys (by decide)

end Sample

end Ragx
