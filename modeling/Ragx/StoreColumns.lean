import Ragx.ChunkContents
import Ragx.JsonTexts
import Ragx.MetadataStore
import Ragx.RowCodecs
import Ragx.SubmitIngest

/-!
# The columns of the metadata store

Metadata, boxes, ids of atoms and produced ids stand in the columns of the store as JSON texts, and
kinds and stages by their names. The main result is that nobody notices: whatever calls are made,
they are replied to as by tables that hold the documents, atoms and chunks themselves.
-/
namespace Ragx

open JsonTexts

/-! ## Columns -/

def AtomType.value : AtomType → String
  | .text => "text"
  | .image => "image"
  | .table => "table"
  | .formula => "formula"

/-- `AtomType(value)`, which raises for other names. -/
def AtomType.ofValue? (value : String) : Option AtomType :=
  [AtomType.text, .image, .table, .formula].find? fun type => type.value = value

def TaskStatus.value : TaskStatus → String
  | .pending => "pending"
  | .parsing => "parsing"
  | .processing => "processing"
  | .chunking => "chunking"
  | .embedding => "embedding"
  | .kgBuilding => "kg_building"
  | .done => "done"
  | .failed => "failed"

section Columns

variable (fmt : NumberFormat)

def jsonColumn (style : Style) (v : Json) : String := String.ofList (encode style fmt v)

def readColumn (column : String) : Option Json := loads fmt column.toList

/-- A box, which is not there in an empty column. -/
def readBox (column : Option String) : Option (Option (ℚ × ℚ × ℚ × ℚ)) :=
  match column.filter (· ≠ "") with
  | none => some none
  | some text => ((readColumn fmt text).bind bboxOf).map some

def readDict (column : String) : Option Metadata :=
  match readColumn fmt (orDefault column "{}") with
  | some (.obj members) => some (.ofList members)
  | _ => none

def textOf? : Json → Option String
  | .str s => some s
  | _ => none

def readTexts (column : String) : Option (List String) :=
  match readColumn fmt (orDefault column "[]") with
  | some (.arr xs) => xs.mapM textOf?
  | _ => none

variable {fmt}

theorem readColumn_jsonColumn (style : Style) {v : Json} (h : Valid fmt v) :
    readColumn fmt (jsonColumn fmt style v) = some v := by
  rw [readColumn, jsonColumn, String.toList_ofList, loads_encode style h]

theorem jsonColumn_ne (style : Style) {v : Json} (h : Valid fmt v) :
    jsonColumn fmt style v ≠ "" := by
  obtain ⟨c, rest, htext, -⟩ := startsValue_encode style h
  intro hempty
  have htoList := congrArg String.toList hempty
  rw [jsonColumn, String.toList_ofList, htext] at htoList
  cases htoList

theorem readDict_jsonColumn (style : Style) {m : Metadata} (h : Valid fmt (metadataJson m)) :
    readDict fmt (jsonColumn fmt style (metadataJson m)) = some m := by
  rw [readDict, orDefault, if_neg (jsonColumn_ne style h), readColumn_jsonColumn style h]
  exact congrArg some (ofList_entries m)

theorem valid_textsJson (texts : List String) : Valid fmt (textsJson texts) := by
  simp [textsJson]

theorem mapM_textOf? (texts : List String) : (texts.map Json.str).mapM textOf? = some texts := by
  induction texts with
  | nil => rfl
  | cons text texts ih => simp [textOf?, ih]

theorem readTexts_jsonColumn (style : Style) (texts : List String) :
    readTexts fmt (jsonColumn fmt style (textsJson texts)) = some texts := by
  have h : Valid fmt (textsJson texts) := valid_textsJson texts
  rw [readTexts, orDefault, if_neg (jsonColumn_ne style h), readColumn_jsonColumn style h]
  exact mapM_textOf? texts

theorem readBox_jsonColumn (style : Style) {box : Option (ℚ × ℚ × ℚ × ℚ)}
    (h : ∀ b ∈ box, Valid fmt (bboxJson b)) :
    readBox fmt (box.map fun b => jsonColumn fmt style (bboxJson b)) = some box := by
  cases box with
  | none => rfl
  | some b =>
    have hb := h b rfl
    have hbox : bboxOf (bboxJson b) = some b := rfl
    simp [readBox, Option.filter, jsonColumn_ne style hb, readColumn_jsonColumn style hb, hbox]

end Columns

theorem AtomType.ofValue?_value (type : AtomType) : ofValue? type.value = some type := by
  cases type <;> decide

/-! ## Rows -/

/-- `content or b""`. -/
def DocContent.orEmpty : DocContent → DocContent
  | .text "" => .bytes []
  | content => content

structure DocRow where
  docId : Option String
  kbId : String
  filename : String
  mimetype : String
  docHash : String
  sourceUri : Option String
  content : DocContent
  metadata : String

structure AtomRow where
  atomId : String
  docId : String
  type : String
  text : Option String
  payloadRef : Option String
  page : Option ℤ
  bbox : Option String
  contentHash : String
  context : Option String
  metadata : String

structure ChunkRecord where
  chunkId : String
  docId : String
  kbId : String
  atomIds : String
  text : String
  tokenCount : ℕ
  page : Option ℤ
  bbox : Option String
  metadata : String
  edited : ℤ
  version : ℤ

section Rows

variable (fmt : NumberFormat)

namespace DocRow

def ofDoc (doc : RawDocument) : DocRow where
  docId := doc.docId
  kbId := doc.kbId
  filename := doc.filename
  mimetype := doc.mimetype
  docHash := doc.docHash
  sourceUri := doc.sourceUri
  content := doc.content
  metadata := jsonColumn fmt .dumpsText (metadataJson doc.metadata)

def toDoc (row : DocRow) : Option RawDocument :=
  (readDict fmt row.metadata).map fun metadata => {
    docId := row.docId
    kbId := row.kbId
    filename := row.filename
    mimetype := row.mimetype
    content := row.content.orEmpty
    docHash := row.docHash
    sourceUri := row.sourceUri
    metadata }

end DocRow

/-- An empty text would be read as empty bytes. -/
def RawDocument.Storable (doc : RawDocument) : Prop :=
  doc.content ≠ .text "" ∧ Valid fmt (metadataJson doc.metadata)

namespace AtomRow

def ofAtom (atom : Atom) : AtomRow where
  atomId := atom.atomId
  docId := atom.docId
  type := atom.type.value
  text := atom.text
  payloadRef := atom.payloadRef
  page := atom.page
  bbox := atom.bbox.map fun b => jsonColumn fmt .dumps (bboxJson b)
  contentHash := atom.contentHash
  context := atom.context
  metadata := jsonColumn fmt .dumpsText (metadataJson atom.metadata)

/-- The document of the row is not in the list. -/
def onConflict (old excluded : AtomRow) : AtomRow :=
  { excluded with docId := old.docId }

/-- `_row_to_atom` -/
def toAtom (row : AtomRow) : Option Atom := do
  let type ← AtomType.ofValue? row.type
  let bbox ← readBox fmt row.bbox
  let metadata ← readDict fmt row.metadata
  return {
    atomId := row.atomId
    docId := row.docId
    type
    text := row.text
    payloadRef := row.payloadRef
    page := row.page
    bbox
    contentHash := row.contentHash
    context := row.context
    metadata }

end AtomRow

def Atom.Storable (atom : Atom) : Prop :=
  (∀ b ∈ atom.bbox, Valid fmt (bboxJson b)) ∧ Valid fmt (metadataJson atom.metadata)

namespace ChunkRecord

def ofChunk (chunk : Chunk) : ChunkRecord where
  chunkId := chunk.chunkId
  docId := chunk.docId
  kbId := chunk.kbId
  atomIds := jsonColumn fmt .dumpsText (textsJson chunk.atomIds)
  text := chunk.text
  tokenCount := chunk.tokenCount
  page := chunk.page
  bbox := chunk.bbox.map fun b => jsonColumn fmt .dumps (bboxJson b)
  metadata := jsonColumn fmt .dumpsText (metadataJson chunk.metadata)
  edited := if chunk.edited then 1 else 0
  version := chunk.version

/-- The document, the knowledge base and the atoms of the row are not in the list. -/
def onConflict (old excluded : ChunkRecord) : ChunkRecord :=
  { excluded with
    chunkId := old.chunkId
    docId := old.docId
    kbId := old.kbId
    atomIds := old.atomIds }

def toChunk (row : ChunkRecord) : Option Chunk := do
  let atomIds ← readTexts fmt row.atomIds
  let bbox ← readBox fmt row.bbox
  let metadata ← readDict fmt row.metadata
  return {
    chunkId := row.chunkId
    docId := row.docId
    kbId := row.kbId
    atomIds
    text := row.text
    tokenCount := row.tokenCount
    page := row.page
    bbox
    metadata
    edited := row.edited != 0
    version := row.version }

end ChunkRecord

def Chunk.Storable (chunk : Chunk) : Prop :=
  (∀ b ∈ chunk.bbox, Valid fmt (bboxJson b)) ∧ Valid fmt (metadataJson chunk.metadata)

variable {fmt}

namespace DocRow

theorem toDoc_ofDoc {doc : RawDocument} (h : doc.Storable fmt) :
    (ofDoc fmt doc).toDoc fmt = some doc := by
  have hcontent : doc.content.orEmpty = doc.content := by
    unfold DocContent.orEmpty
    split
    · exact absurd ‹_› h.1
    · rfl
  simp [ofDoc, toDoc, readDict_jsonColumn .dumpsText h.2, hcontent]

/-- What a row says of its document without a look at the metadata. -/
theorem of_toDoc {row : DocRow} {doc : RawDocument} (h : row.toDoc fmt = some doc) :
    row.kbId = doc.kbId ∧ row.docHash = doc.docHash := by
  obtain ⟨_, -, rfl⟩ := Option.map_eq_some_iff.mp h
  exact ⟨rfl, rfl⟩

end DocRow

namespace AtomRow

theorem toAtom_ofAtom {atom : Atom} (h : atom.Storable fmt) :
    (ofAtom fmt atom).toAtom fmt = some atom := by
  simp [ofAtom, toAtom, AtomType.ofValue?_value, readBox_jsonColumn .dumps h.1,
    readDict_jsonColumn .dumpsText h.2]

theorem docId_of_toAtom {row : AtomRow} {atom : Atom} (h : row.toAtom fmt = some atom) :
    row.docId = atom.docId := by
  simp only [toAtom, Option.bind_eq_bind, Option.bind_eq_some_iff] at h
  obtain ⟨_, -, _, -, _, -, h⟩ := h
  cases h
  rfl

theorem toAtom_onConflict {old : AtomRow} {stored atom : Atom} (h : atom.Storable fmt)
    (hold : old.toAtom fmt = some stored) :
    (old.onConflict (ofAtom fmt atom)).toAtom fmt = some (saveAtom (some stored) atom) := by
  simp [onConflict, ofAtom, toAtom, AtomType.ofValue?_value, readBox_jsonColumn .dumps h.1,
    readDict_jsonColumn .dumpsText h.2, saveAtom, docId_of_toAtom hold]

end AtomRow

namespace ChunkRecord

theorem edited_ofChunk (edited : Bool) : ((if edited then (1 : ℤ) else 0) != 0) = edited := by
  cases edited <;> rfl

theorem toChunk_ofChunk {chunk : Chunk} (h : chunk.Storable fmt) :
    (ofChunk fmt chunk).toChunk fmt = some chunk := by
  simp [ofChunk, toChunk, readTexts_jsonColumn, readBox_jsonColumn .dumps h.1,
    readDict_jsonColumn .dumpsText h.2, edited_ofChunk]

/-- What a conflicting insert leaves in a row is read as it was. -/
theorem of_toChunk {row : ChunkRecord} {chunk : Chunk} (h : row.toChunk fmt = some chunk) :
    row.chunkId = chunk.chunkId ∧ row.docId = chunk.docId ∧ row.kbId = chunk.kbId ∧
      readTexts fmt row.atomIds = some chunk.atomIds := by
  simp only [toChunk, Option.bind_eq_bind, Option.bind_eq_some_iff] at h
  obtain ⟨_, hatoms, _, -, _, -, h⟩ := h
  cases h
  exact ⟨rfl, rfl, rfl, hatoms⟩

theorem toChunk_onConflict {old : ChunkRecord} {stored chunk : Chunk} (h : chunk.Storable fmt)
    (hold : old.toChunk fmt = some stored) :
    (old.onConflict (ofChunk fmt chunk)).toChunk fmt = some (saveChunk (some stored) chunk) := by
  obtain ⟨hid, hdoc, hkb, hatoms⟩ := of_toChunk hold
  simp [onConflict, ofChunk, toChunk, hid, hdoc, hkb, hatoms, readBox_jsonColumn .dumps h.1,
    readDict_jsonColumn .dumpsText h.2, saveChunk, edited_ofChunk]

end ChunkRecord

variable (fmt)

/-- There is no conflicting insert of a document. -/
def docCodec : RowCodec DocRow RawDocument where
  encode := DocRow.ofDoc fmt
  decode := DocRow.toDoc fmt
  onConflict old _ := old
  merge old _ := old
  Storable := RawDocument.Storable fmt
  decode_encode := DocRow.toDoc_ofDoc
  decode_onConflict _ h := h

def atomCodec : RowCodec AtomRow Atom where
  encode := AtomRow.ofAtom fmt
  decode := AtomRow.toAtom fmt
  onConflict := AtomRow.onConflict
  merge old := saveAtom (some old)
  Storable := Atom.Storable fmt
  decode_encode := AtomRow.toAtom_ofAtom
  decode_onConflict := AtomRow.toAtom_onConflict

def chunkCodec : RowCodec ChunkRecord Chunk where
  encode := ChunkRecord.ofChunk fmt
  decode := ChunkRecord.toChunk fmt
  onConflict := ChunkRecord.onConflict
  merge old := saveChunk (some old)
  Storable := Chunk.Storable fmt
  decode_encode := ChunkRecord.toChunk_ofChunk
  decode_onConflict := ChunkRecord.toChunk_onConflict

def idsCodec : RowCodec String (List String) where
  encode ids := jsonColumn fmt .dumps (textsJson ids)
  decode := readTexts fmt
  onConflict _ excluded := excluded
  merge _ ids := ids
  Storable _ := True
  decode_encode _ := readTexts_jsonColumn .dumps _
  decode_onConflict _ _ := readTexts_jsonColumn .dumps _

end Rows

/-! ## The store -/

inductive MetadataCall where
  | saveDoc (doc : RawDocument)
  | getDoc (docId : String)
  | findDocByHash (kbId docHash : String)
  | saveCheckpoint (taskId : String) (stage : TaskStatus) (producedIds : List String)
  | getCheckpoint (taskId : String) (stage : TaskStatus)
  | saveAtoms (atoms : List Atom)
  | getAtoms (docId : String)
  | saveChunks (chunks : List Chunk)
  | getChunk (chunkId : String)
  | getChunksByDoc (docId : String)

/-- A call that raises has changed nothing. -/
inductive MetadataReply where
  | saved
  | raised
  | document (found : Option RawDocument)
  | producedIds (found : Option (List String))
  | atoms (found : List Atom)
  | chunk (found : Option Chunk)
  | chunks (found : List Chunk)

def MetadataReply.orRaised {α : Type} (reply : α → MetadataReply) : Option α → MetadataReply
  | none => .raised
  | some a => reply a

/-- The reply of a look-up for one row, if the row can be read. -/
def MetadataReply.ofRow {ρ α : Type} (reply : Option α → MetadataReply) (decode : ρ → Option α) :
    Option ρ → MetadataReply
  | none => reply none
  | some row => .orRaised (fun a => reply (some a)) (decode row)

/-- The tables as SQLite has them. -/
structure MetadataDb where
  documents : OrderedDict (Option String) DocRow := .empty
  checkpoints : OrderedDict (String × String) String := .empty
  atoms : OrderedDict String AtomRow := .empty
  chunks : OrderedDict String ChunkRecord := .empty

def MetadataDb.call (fmt : NumberFormat) (db : MetadataDb) :
    MetadataCall → MetadataDb × MetadataReply
  | .saveDoc doc =>
    match db.documents.get? doc.docId with
    | some _ => (db, .raised)
    | none => ({ db with documents := db.documents.insert doc.docId (.ofDoc fmt doc) }, .saved)
  | .getDoc docId => (db, .ofRow .document (DocRow.toDoc fmt) (db.documents.get? (some docId)))
  | .findDocByHash kbId docHash =>
    (db, .ofRow .document (DocRow.toDoc fmt)
      (db.documents.values.find? fun row => row.kbId = kbId ∧ row.docHash = docHash))
  | .saveCheckpoint taskId stage producedIds =>
    ({ db with
      checkpoints := db.checkpoints.insert (taskId, stage.value)
        (jsonColumn fmt .dumps (textsJson producedIds)) }, .saved)
  | .getCheckpoint taskId stage =>
    (db, .ofRow .producedIds (readTexts fmt) (db.checkpoints.get? (taskId, stage.value)))
  | .saveAtoms atoms =>
    ({ db with atoms := upsertAll AtomRow.onConflict (·.atomId) (.ofAtom fmt) db.atoms atoms },
      .saved)
  | .getAtoms docId =>
    (db, .orRaised .atoms ((selectRows db.atoms (·.docId = docId)).mapM (AtomRow.toAtom fmt)))
  | .saveChunks chunks =>
    ({ db with
      chunks := upsertAll ChunkRecord.onConflict (·.chunkId) (.ofChunk fmt) db.chunks chunks },
      .saved)
  | .getChunk chunkId => (db, .ofRow .chunk (ChunkRecord.toChunk fmt) (db.chunks.get? chunkId))
  | .getChunksByDoc docId =>
    (db, .orRaised .chunks
      ((selectRows db.chunks (·.docId = docId)).mapM (ChunkRecord.toChunk fmt)))

/-- Tables that hold the documents, the atoms and the chunks themselves. -/
structure ValueTables where
  documents : OrderedDict (Option String) RawDocument := .empty
  checkpoints : OrderedDict (String × String) (List String) := .empty
  atoms : OrderedDict String Atom := .empty
  chunks : OrderedDict String Chunk := .empty

def ValueTables.call (tables : ValueTables) : MetadataCall → ValueTables × MetadataReply
  | .saveDoc doc =>
    match tables.documents.get? doc.docId with
    | some _ => (tables, .raised)
    | none => ({ tables with documents := tables.documents.insert doc.docId doc }, .saved)
  | .getDoc docId => (tables, .document (tables.documents.get? (some docId)))
  | .findDocByHash kbId docHash =>
    (tables, .document
      (tables.documents.values.find? fun doc => doc.kbId = kbId ∧ doc.docHash = docHash))
  | .saveCheckpoint taskId stage producedIds =>
    ({ tables with
      checkpoints := tables.checkpoints.insert (taskId, stage.value) producedIds }, .saved)
  | .getCheckpoint taskId stage =>
    (tables, .producedIds (tables.checkpoints.get? (taskId, stage.value)))
  | .saveAtoms atoms => ({ tables with atoms := saveAtoms tables.atoms atoms }, .saved)
  | .getAtoms docId => (tables, .atoms (selectRows tables.atoms (·.docId = docId)))
  | .saveChunks chunks => ({ tables with chunks := saveChunks tables.chunks chunks }, .saved)
  | .getChunk chunkId => (tables, .chunk (tables.chunks.get? chunkId))
  | .getChunksByDoc docId => (tables, .chunks (selectRows tables.chunks (·.docId = docId)))

/-- What a call writes can be read again. -/
def MetadataCall.Storable (fmt : NumberFormat) : MetadataCall → Prop
  | .saveDoc doc => doc.Storable fmt
  | .saveAtoms atoms => ∀ atom ∈ atoms, atom.Storable fmt
  | .saveChunks chunks => ∀ chunk ∈ chunks, chunk.Storable fmt
  | _ => True

section Calls

variable {fmt : NumberFormat}

theorem MetadataReply.ofRow_eq {ρ α : Type} {c : RowCodec ρ α} (reply : Option α → MetadataReply)
    {row : Option ρ} {a : Option α} (h : row.map c.decode = a.map some) :
    MetadataReply.ofRow reply c.decode row = reply a := by
  cases row with
  | none =>
    cases a with
    | none => rfl
    | some a => cases h
  | some row =>
    cases a with
    | none => cases h
    | some a =>
      rw [ofRow, Option.some.inj h]
      rfl

/-- The rows of all tables stand for their values. -/
structure StandFor (fmt : NumberFormat) (db : MetadataDb) (tables : ValueTables) : Prop where
  documents : (docCodec fmt).Stands db.documents tables.documents
  checkpoints : (idsCodec fmt).Stands db.checkpoints tables.checkpoints
  atoms : (atomCodec fmt).Stands db.atoms tables.atoms
  chunks : (chunkCodec fmt).Stands db.chunks tables.chunks

/-- Every call does the same to the values as to their rows, and has the same reply. -/
theorem StandFor.call {db : MetadataDb} {tables : ValueTables} (h : StandFor fmt db tables)
    {c : MetadataCall} (hc : c.Storable fmt) :
    StandFor fmt (db.call fmt c).1 (tables.call c).1 ∧ (db.call fmt c).2 = (tables.call c).2 := by
  cases c with
  | saveDoc doc =>
    have hget := h.documents.get? doc.docId
    simp only [MetadataDb.call, ValueTables.call]
    cases hrow : db.documents.get? doc.docId with
    | none =>
      cases hdoc : tables.documents.get? doc.docId with
      | none =>
        refine ⟨{ h with documents := ?_ }, rfl⟩
        exact h.documents.insert ((docCodec fmt).decode_encode hc) doc.docId
      | some found =>
        rw [hrow, hdoc] at hget
        cases hget
    | some row =>
      cases hdoc : tables.documents.get? doc.docId with
      | none =>
        rw [hrow, hdoc] at hget
        cases hget
      | some found => exact ⟨h, rfl⟩
  | getDoc docId => exact ⟨h, MetadataReply.ofRow_eq _ (h.documents.get? (some docId))⟩
  | findDocByHash kbId docHash =>
    refine ⟨h, MetadataReply.ofRow_eq _ (h.documents.find? fun row doc hdoc => ?_)⟩
    obtain ⟨hkb, hhash⟩ := DocRow.of_toDoc hdoc
    rw [hkb, hhash]
  | saveCheckpoint taskId stage producedIds =>
    refine ⟨{ h with checkpoints := ?_ }, rfl⟩
    exact h.checkpoints.insert ((idsCodec fmt).decode_encode trivial) _
  | getCheckpoint taskId stage =>
    exact ⟨h, MetadataReply.ofRow_eq _ (h.checkpoints.get? (taskId, stage.value))⟩
  | saveAtoms atoms =>
    have hall := h.atoms.upsertAll (·.atomId) hc
    refine ⟨{ h with atoms := ?_ }, rfl⟩
    rwa [show (atomCodec fmt).merge = fun old a => saveAtom (some old) a from rfl,
      upsertAll_id (fun _ => rfl)] at hall
  | getAtoms docId =>
    refine ⟨h, congrArg (MetadataReply.orRaised .atoms) (h.atoms.select fun row atom hatom => ?_)⟩
    rw [AtomRow.docId_of_toAtom hatom]
  | saveChunks chunks =>
    have hall := h.chunks.upsertAll (·.chunkId) hc
    refine ⟨{ h with chunks := ?_ }, rfl⟩
    rwa [show (chunkCodec fmt).merge = fun old a => saveChunk (some old) a from rfl,
      upsertAll_id (fun _ => rfl)] at hall
  | getChunk chunkId => exact ⟨h, MetadataReply.ofRow_eq _ (h.chunks.get? chunkId)⟩
  | getChunksByDoc docId =>
    refine ⟨h, congrArg (MetadataReply.orRaised .chunks)
      (h.chunks.select fun row chunk hchunk => ?_)⟩
    rw [(ChunkRecord.of_toChunk hchunk).2.1]

end Calls

/-- Whatever calls are made, the store replies as tables would that hold the documents, the atoms
and the chunks themselves. -/
theorem MetadataDb.replies_eq (fmt : NumberFormat) {calls : List MetadataCall}
    (h : ∀ call ∈ calls, call.Storable fmt) :
    repliesOf (MetadataDb.call fmt) {} calls = repliesOf ValueTables.call {} calls := by
  have hcall : ∀ c ∈ calls, ∀ db tables, StandFor fmt db tables →
      StandFor fmt (db.call fmt c).1 (tables.call c).1 ∧ (db.call fmt c).2 = (tables.call c).2 :=
    fun c hmem _ _ hstand => hstand.call (h c hmem)
  exact repliesOf_congr hcall
    ⟨RowCodec.stands_empty, RowCodec.stands_empty, RowCodec.stands_empty, RowCodec.stands_empty⟩

/-- An atom with a box and nested metadata, saved for one document and then for another. -/
def boxedAtom (docId : String) : Atom where
  atomId := "doc_1#0001"
  docId := docId
  type := .table
  text := some "a | b"
  bbox := some (0, 0, 1, 1)
  metadata := .ofList [("rows", .arr [.num 2, .str "\"two\"\n"])]

theorem MetadataDb.replies_eq_boxedAtom :
    repliesOf (MetadataDb.call integerFormat) {}
        [.saveAtoms [boxedAtom "doc_1"], .saveAtoms [boxedAtom "doc_2"], .getAtoms "doc_1"] =
      repliesOf ValueTables.call {}
        [.saveAtoms [boxedAtom "doc_1"], .saveAtoms [boxedAtom "doc_2"], .getAtoms "doc_1"] := by
  have hatom (docId : String) : (boxedAtom docId).Storable integerFormat := by
    have hzero : integerFormat.Exact 0 := integerFormat.exact_int 0
    have hone : integerFormat.Exact 1 := integerFormat.exact_int 1
    have htwo : integerFormat.Exact 2 := integerFormat.exact_int 2
    constructor
    · rintro b hb
      cases hb
      simp [bboxJson, hzero, hone]
    · change Valid integerFormat (.obj [("rows", .arr [.num 2, .str "\"two\"\n"])])
      simp [htwo]
  refine replies_eq integerFormat ?_
  simp [MetadataCall.Storable, hatom]

end Ragx
