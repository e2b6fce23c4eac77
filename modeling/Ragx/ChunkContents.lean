import Ragx.ChunkTable
import Ragx.EventRuns
import Ragx.IngestPipeline

/-!
# The chunk table as a map

What the columns say of each chunk id, against the map of the chunks that were upserted last
and not deleted since. The update branch of an upsert leaves the document and the atoms of the
first upsert, and a database in memory is a new one after a start, so the two agree in the runs
that avoid both.
-/
namespace Ragx

namespace ColumnCodecs

/-- The text of a value is not empty and reads back as the value. -/
def Keeps (c : ColumnCodecs) (v : Json) : Prop := c.dumps v ≠ "" ∧ c.loads (c.dumps v) = v

/-- Everything about the chunk that is encoded reads back as it was. -/
structure ReadsBack (c : ColumnCodecs) (chunk : EmbeddedChunk) : Prop where
  atomIds : c.Keeps (textsJson chunk.atomIds)
  bbox : ∀ b, chunk.bbox = some b → c.Keeps (bboxJson b)
  metadata : c.Keeps (metadataJson chunk.metadata)
  vector : c.frombytes (c.tobytes chunk.vector) = chunk.vector

end ColumnCodecs

theorem strings_textsJson (texts : List String) : (textsJson texts).strings = texts := by
  induction texts with
  | nil => rfl
  | cons text texts ih =>
    simp only [textsJson, Json.strings] at ih
    simp [textsJson, Json.strings, ih]

/-- A dictionary is the one that its entries make. -/
theorem ofList_entries (m : Metadata) : OrderedDict.ofList m.entries = m := by
  have hentries (es : List (String × Json)) (hn : (es.map Prod.fst).Nodup) :
      (OrderedDict.ofList es).entries = es := by
    induction es using List.reverseRecOn with
    | nil => rfl
    | append_singleton es e ih =>
      rw [List.map_append, List.nodup_append] at hn
      have hrest := ih hn.1
      have hnew : e.1 ∉ (OrderedDict.ofList es).entries.map Prod.fst := by
        rw [hrest]
        exact fun hm => hn.2.2 e.1 hm e.1 (by simp) rfl
      have hlast : OrderedDict.ofList (es ++ [e]) =
          (OrderedDict.ofList es).insert e.1 e.2 := OrderedDict.update_append _ _ _
      rw [hlast]
      refine (OrderedDict.writeIn_of_notMem hnew).trans ?_
      rw [hrest]
  obtain ⟨es, hn⟩ := m
  have h := hentries es hn
  cases hd : OrderedDict.ofList es with
  | mk es' hn' =>
    rw [hd] at h
    cases h
    rfl

namespace ChunkRow

variable {c : ColumnCodecs} {chunk : EmbeddedChunk}

theorem loads_orDefault {v : Json} (h : c.Keeps v) (default : String) :
    c.loads (orDefault (c.dumps v) default) = v := by
  rw [orDefault, if_neg h.1, h.2]

theorem bbox_ofChunk (h : c.ReadsBack chunk) :
    ((chunk.bbox.map fun b => c.dumps (bboxJson b)).filter (· ≠ "")).bind
      (fun b => bboxOf (c.loads b)) = chunk.bbox := by
  cases hb : chunk.bbox with
  | none => rfl
  | some b =>
    obtain ⟨hne, hloads⟩ := h.bbox b hb
    have hbox : bboxOf (bboxJson b) = some b := rfl
    simp [Option.filter, hne, hloads, hbox]

/-- A new row reads back as the chunk. -/
theorem toEmbedded_ofChunk (h : c.ReadsBack chunk) (rowid : ℕ) :
    (ofChunk c rowid chunk).toEmbedded c = chunk := by
  have hmetadata : metadataOf (metadataJson chunk.metadata) = chunk.metadata :=
    ofList_entries chunk.metadata
  have hedited : ((if chunk.edited then (1 : ℤ) else 0) != 0) = chunk.edited := by
    cases chunk.edited <;> rfl
  simp only [toEmbedded, toChunk, ofChunk, loads_orDefault h.atomIds, loads_orDefault h.metadata,
    bbox_ofChunk h, strings_textsJson, hmetadata, h.vector, hedited]

/-- An updated row reads back as the old chunk with what the statement lists. -/
theorem toEmbedded_onConflict (h : c.ReadsBack chunk) (old : ChunkRow) (rowid : ℕ) :
    (old.onConflict (ofChunk c rowid chunk)).toEmbedded c =
      upsertRow (some (old.toEmbedded c)) chunk := by
  have hmetadata : metadataOf (metadataJson chunk.metadata) = chunk.metadata :=
    ofList_entries chunk.metadata
  have hedited : ((if chunk.edited then (1 : ℤ) else 0) != 0) = chunk.edited := by
    cases chunk.edited <;> rfl
  simp only [toEmbedded, toChunk, onConflict, ofChunk, loads_orDefault h.metadata,
    bbox_ofChunk h, hmetadata, h.vector, hedited, upsertRow, saveChunk, Option.map_some]

end ChunkRow

namespace ChunkTable

variable (c : ColumnCodecs)

/-- What the rows say, by chunk id. -/
def contents (t : ChunkTable) : OrderedDict String EmbeddedChunk :=
  t.rows.mapValues (ChunkRow.toEmbedded c)

variable {c} {t : ChunkTable} {chunk : EmbeddedChunk}

theorem values_contents : (t.contents c).values = t.rows.values.map (ChunkRow.toEmbedded c) := by
  simp [contents, OrderedDict.values, OrderedDict.mapValues, Function.comp_def]

/-- A statement does to the contents what an upsert does to the rows by their chunk ids. -/
theorem contents_write (h : c.ReadsBack chunk) :
    (write c chunk t).contents c = upsert (t.contents c) [chunk] :=
  mapValues_write c _ upsertRow (ChunkRow.toEmbedded_ofChunk h)
    fun old rowid => ChunkRow.toEmbedded_onConflict h old rowid

theorem contents_deleteRow (id : String) :
    (t.deleteRow id).contents c = (t.contents c).erase id :=
  mapValues_deleteRow _ id

theorem contents_foldl_deleteRow (ids : List String) :
    (ids.foldl (fun t id => t.deleteRow id) t).contents c =
      ids.foldl (fun m id => m.erase id) (t.contents c) := by
  induction ids generalizing t with
  | nil => rfl
  | cons id ids ih => rw [List.foldl_cons, List.foldl_cons, ih, contents_deleteRow]

end ChunkTable

/-! ## The map -/

inductive ChunkCall where
  | upsert (chunks : List EmbeddedChunk)
  | delete (chunkIds : List String)
  | startup

def ChunkCall.chunks : ChunkCall → List EmbeddedChunk
  | .upsert chunks => chunks
  | .delete _ | .startup => []

/-- The store, and the chunks that were upserted last and not deleted since. -/
structure HeldChunks where
  store : OpenVectorStore
  held : OrderedDict String EmbeddedChunk

namespace HeldChunks

variable (c : ColumnCodecs)

def putAll (m : OrderedDict String EmbeddedChunk) (chunks : List EmbeddedChunk) :
    OrderedDict String EmbeddedChunk :=
  chunks.foldl (fun m x => m.insert x.chunkId x) m

/-- Chunks of the store's knowledge base and dimension are written. -/
def step (s : HeldChunks) : ChunkCall → Option HeldChunks
  | .upsert chunks =>
    if ∀ x ∈ chunks, x.kbId = s.store.kbId ∧ x.vector.length = s.store.dimension then
      some ⟨(s.store.upsert c chunks).1, putAll s.held chunks⟩
    else none
  | .delete chunkIds =>
    some ⟨s.store.delete chunkIds, chunkIds.foldl (fun m id => m.erase id) s.held⟩
  | .startup => some ⟨s.store.startup, s.held⟩

/-- The store has exactly what is held, and a search that asks for enough returns all of it. -/
def Represents (s : HeldChunks) : Prop :=
  s.store.table.contents c = s.held ∧
    ∀ (db : Sqlite) (vector : List ℚ) (extra : ℕ), vector.length = s.store.dimension →
      ∃ hits, s.store.searchDense c db vector (s.held.values.length + extra) none = .ok hits ∧
        (hits.map (·.chunk)).Perm (s.held.values.map (·.toChunk))

/-- Each chunk that is stored already has the document and the atoms that it had. -/
def KeepsOrigin (m : OrderedDict String EmbeddedChunk) : List EmbeddedChunk → Prop
  | [] => True
  | x :: xs =>
    (∀ old ∈ m.get? x.chunkId, old.docId = x.docId ∧ old.atomIds = x.atomIds) ∧
      KeepsOrigin (m.insert x.chunkId x) xs

/-- The call writes no other document or atoms over stored ones, and opens no empty database in
the place of one with chunks. -/
def Steady (s : HeldChunks) : ChunkCall → HeldChunks → Prop
  | .upsert chunks, _ => KeepsOrigin s.held chunks
  | .delete _, _ => True
  | .startup, _ => OpenVectorStore.Private s.store.path → s.held.keys = []

instance : ∀ (m : OrderedDict String EmbeddedChunk) (chunks : List EmbeddedChunk),
    Decidable (KeepsOrigin m chunks)
  | _, [] => isTrue trivial
  | m, x :: xs =>
    have := instDecidableKeepsOrigin (m.insert x.chunkId x) xs
    inferInstanceAs (Decidable (_ ∧ _))

instance (s : HeldChunks) : ∀ (call : ChunkCall) (s' : HeldChunks), Decidable (Steady s call s')
  | .upsert chunks, _ => inferInstanceAs (Decidable (KeepsOrigin s.held chunks))
  | .delete _, _ => isTrue trivial
  | .startup, _ => inferInstanceAs (Decidable (_ → _))

variable {c} {s s' : HeldChunks}

/-- What is held is keyed by its own id and belongs to the store. -/
structure Mirrors (c : ColumnCodecs) (s : HeldChunks) : Prop where
  contents : s.store.table.contents c = s.held
  own : ∀ id x, s.held.get? id = some x → x.chunkId = id ∧ x.kbId = s.store.kbId

theorem represents_of_contents (h : s.store.table.contents c = s.held) : s.Represents c := by
  have hvalues : s.held.values = s.store.table.rows.values.map (ChunkRow.toEmbedded c) := by
    rw [← h, ChunkTable.values_contents]
  refine ⟨h, fun db vector extra hlength => ?_⟩
  have hcount : s.held.values.length = s.store.table.rows.values.length := by
    rw [hvalues, List.length_map]
  have htop : (s.store.table.rows.values.length : ℤ) ≤ s.held.values.length + extra := by omega
  obtain ⟨hits, hsearch, hperm⟩ := OpenVectorStore.chunks_searchDense c db hlength htop
  refine ⟨hits, hsearch, ?_⟩
  rw [hvalues, List.map_map]
  exact hperm

/-- An update that keeps the columns it does not list leaves the new chunk. -/
theorem upsertRow_eq_of_origin {old x : EmbeddedChunk} (hid : old.chunkId = x.chunkId)
    (hdoc : old.docId = x.docId) (hkb : old.kbId = x.kbId) (hatoms : old.atomIds = x.atomIds) :
    upsertRow (some old) x = x := by
  obtain ⟨⟨id, doc, kb, atoms, text, tokens, page, bbox, metadata, edited, version⟩, vector⟩ := x
  simp only at hid hdoc hkb hatoms
  simp only [upsertRow, saveChunk, Option.map_some, hid, hdoc, hkb, hatoms]

theorem upsertOne_of_own {x : EmbeddedChunk} {store : OpenVectorStore}
    (hkb : x.kbId = store.kbId) (hdim : x.vector.length = store.dimension) :
    OpenVectorStore.upsertOne c x store =
      ({ store with table := store.table.write c x }, none) := by
  have hnone : store.refusal x = none := by
    simp [OpenVectorStore.refusal, hkb, hdim]
  simp only [OpenVectorStore.upsertOne, hnone]

theorem mirrors_write (hs : Mirrors c s) {x : EmbeddedChunk} (hkb : x.kbId = s.store.kbId)
    (hread : c.ReadsBack x)
    (hkeep : ∀ old ∈ s.held.get? x.chunkId, old.docId = x.docId ∧ old.atomIds = x.atomIds) :
    Mirrors c ⟨{ s.store with table := s.store.table.write c x }, s.held.insert x.chunkId x⟩ := by
  constructor
  · have hrow : upsertRow (s.held.get? x.chunkId) x = x := by
      cases hold : s.held.get? x.chunkId with
      | none => rfl
      | some old =>
        obtain ⟨hdoc, hatoms⟩ := hkeep old hold
        obtain ⟨hid, hkb'⟩ := hs.own x.chunkId old hold
        exact upsertRow_eq_of_origin hid hdoc (hkb'.trans hkb.symm) hatoms
    show (s.store.table.write c x).contents c = s.held.insert x.chunkId x
    rw [ChunkTable.contents_write hread, hs.contents]
    show s.held.insert x.chunkId (upsertRow (s.held.get? x.chunkId) x) = _
    rw [hrow]
  · intro id y hget
    rw [OrderedDict.get?_insert] at hget
    split_ifs at hget with hid
    · cases hget
      exact ⟨hid, hkb⟩
    · exact hs.own id y hget

theorem mirrors_upsert (hs : Mirrors c s) {chunks : List EmbeddedChunk}
    (hown : ∀ x ∈ chunks, x.kbId = s.store.kbId ∧ x.vector.length = s.store.dimension)
    (hread : ∀ x ∈ chunks, c.ReadsBack x) (hkeep : KeepsOrigin s.held chunks) :
    Mirrors c ⟨(s.store.upsert c chunks).1, putAll s.held chunks⟩ := by
  induction chunks generalizing s with
  | nil => exact hs
  | cons x xs ih =>
    obtain ⟨hkb, hdim⟩ := hown x List.mem_cons_self
    have hx := upsertOne_of_own (c := c) hkb hdim
    have hloop : s.store.upsert c (x :: xs) =
        OpenVectorStore.upsert c xs { s.store with table := s.store.table.write c x } := by
      have hnone : (OpenVectorStore.upsertOne c x s.store).2 = none := by rw [hx]
      refine (Command.andThen_of_none hnone).trans ?_
      rw [hx]
      rfl
    have hhead := mirrors_write hs hkb (hread x List.mem_cons_self) hkeep.1
    rw [hloop]
    exact ih hhead (fun y hy => hown y (List.mem_cons_of_mem x hy))
      (fun y hy => hread y (List.mem_cons_of_mem x hy)) hkeep.2

theorem mirrors_delete (hs : Mirrors c s) (chunkIds : List String) :
    Mirrors c ⟨s.store.delete chunkIds, chunkIds.foldl (fun m id => m.erase id) s.held⟩ := by
  have hsub (ids : List String) (m : OrderedDict String EmbeddedChunk) (id : String)
      (x : EmbeddedChunk) (hget : (ids.foldl (fun m id => m.erase id) m).get? id = some x) :
      m.get? id = some x := by
    induction ids generalizing m with
    | nil => exact hget
    | cons y ids ih =>
      have hrest := ih (m.erase y) hget
      rw [OrderedDict.erase, OrderedDict.get?_filterKeys] at hrest
      split_ifs at hrest
      exact hrest
  constructor
  · show (chunkIds.foldl (fun t id => t.deleteRow id) s.store.table).contents c = _
    rw [ChunkTable.contents_foldl_deleteRow, hs.contents]
  · exact fun id x hget => hs.own id x (hsub chunkIds s.held id x hget)

theorem mirrors_startup (hs : Mirrors c s)
    (hsteady : OpenVectorStore.Private s.store.path → s.held.keys = []) :
    Mirrors c ⟨s.store.startup, s.held⟩ := by
  refine ⟨?_, hs.own⟩
  by_cases hpath : OpenVectorStore.Private s.store.path
  · have hempty : s.held = .empty := by
      have hentries := List.map_eq_nil_iff.mp (hsteady hpath)
      cases hheld : s.held with
      | mk es hn =>
        rw [hheld] at hentries
        cases hentries
        rfl
    rw [OpenVectorStore.startup, if_pos hpath, hempty]
    rfl
  · rw [OpenVectorStore.startup, if_neg hpath]
    exact hs.contents

/-- A steady run keeps the store equal to the map. -/
theorem run_represents (c : ColumnCodecs) (kbId : String) (dimension : ℕ) (path : String)
    (calls : List ChunkCall) (hread : ∀ call ∈ calls, ∀ x ∈ call.chunks, c.ReadsBack x)
    (hsteady : EveryStep (step c) Steady ⟨⟨kbId, dimension, path, .empty⟩, .empty⟩ calls) :
    EveryStep (step c) (fun _ _ s' => s'.Represents c)
      ⟨⟨kbId, dimension, path, .empty⟩, .empty⟩ calls := by
  have hempty : Mirrors c ⟨⟨kbId, dimension, path, .empty⟩, .empty⟩ := by
    refine ⟨rfl, fun id x hget => ?_⟩
    simp at hget
  have hguard := hsteady.and (everyStep_of_forall (fun call hcall _ _ => hread call hcall) _)
  refine EveryStep.of_invariant (fun s call s' hs hstep hguard => ?_) hempty hguard
  suffices hs' : Mirrors c s' from ⟨represents_of_contents hs'.contents, hs'⟩
  obtain ⟨hsteady, hread⟩ := hguard
  cases call with
  | upsert chunks =>
    rw [step] at hstep
    split_ifs at hstep with hown
    cases hstep
    exact mirrors_upsert hs hown hread hsteady
  | delete chunkIds =>
    cases hstep
    exact mirrors_delete hs chunkIds
  | startup =>
    cases hstep
    exact mirrors_startup hs hsteady

section Sample

/-- The texts and blobs of the values in the examples. -/
def sampleCodecs : ColumnCodecs where
  dumps v := match v with | .arr _ => "[]" | _ => "{}"
  loads text := if text = "[]" then .arr [] else .obj []
  tobytes v := if v = [1] then [0, 0, 0, 0, 0, 0, 0xF0, 0x3F] else []
  frombytes blob := if blob = [0, 0, 0, 0, 0, 0, 0xF0, 0x3F] then [1] else []

def sampleChunk (docId text : String) : EmbeddedChunk where
  chunkId := "chk_1"
  docId := docId
  kbId := "kb"
  atomIds := []
  text := text
  tokenCount := 1
  vector := [1]

theorem readsBack_sampleChunk (docId text : String) :
    sampleCodecs.ReadsBack (sampleChunk docId text) := by
  constructor
  · exact ⟨by simp [sampleCodecs, textsJson], by simp [sampleCodecs, textsJson, sampleChunk]⟩
  · intro b hb
    simp [sampleChunk] at hb
  · exact ⟨by simp [sampleCodecs, metadataJson], by
      simp [sampleCodecs, metadataJson, sampleChunk, OrderedDict.empty]⟩
  · simp [sampleCodecs, sampleChunk]

/-- A chunk that is written again with another text, over a start of a database file. -/
def rewritten : List ChunkCall :=
  [.upsert [sampleChunk "doc_1" "a"], .startup, .upsert [sampleChunk "doc_1" "b"],
    .delete ["chk_1"]]

theorem run_represents_rewritten :
    EveryStep (step sampleCodecs) (fun _ _ s' => s'.Represents sampleCodecs)
      ⟨⟨"kb", 1, "ragx.db", .empty⟩, .empty⟩ rewritten := by
  refine run_represents sampleCodecs "kb" 1 "ragx.db" rewritten ?_ (by decide)
  intro call hcall x hx
  simp only [rewritten, List.mem_cons, List.not_mem_nil, or_false] at hcall
  rcases hcall with rfl | rfl | rfl | rfl
  · rw [List.mem_singleton.mp hx]
    exact readsBack_sampleChunk "doc_1" "a"
  · cases hx
  · rw [List.mem_singleton.mp hx]
    exact readsBack_sampleChunk "doc_1" "b"
  · cases hx

/-- A chunk that is written again for another document. -/
def moved : List ChunkCall :=
  [.upsert [sampleChunk "doc_1" "a"], .upsert [sampleChunk "doc_2" "a"]]

/-- The documents that the rows name, and those that the map names. -/
def documents (s : HeldChunks) : List String × List String :=
  ((s.store.table.contents sampleCodecs).values.map (·.docId), s.held.values.map (·.docId))

theorem documents_moved :
    (run (step sampleCodecs) ⟨⟨"kb", 1, "ragx.db", .empty⟩, .empty⟩ moved).map documents =
      some (["doc_1"], ["doc_2"]) := by
  decide

theorem not_represents_moved :
    ¬ EveryStep (step sampleCodecs) (fun _ _ s' => s'.Represents sampleCodecs)
      ⟨⟨"kb", 1, "ragx.db", .empty⟩, .empty⟩ moved := by
  intro h
  obtain ⟨t, hrun, hdocs⟩ := Option.map_eq_some_iff.mp documents_moved
  have hstart : Represents sampleCodecs ⟨⟨"kb", 1, "ragx.db", .empty⟩, .empty⟩ :=
    represents_of_contents rfl
  have ht : t.Represents sampleCodecs :=
    run_invariant_of_guarded (I := Represents sampleCodecs) (fun _ _ _ _ _ h => h) hstart h hrun
  rw [documents, ht.1] at hdocs
  have hsame := (Prod.mk.inj hdocs).1.symm.trans (Prod.mk.inj hdocs).2
  simp at hsame

end Sample

end HeldChunks

end Ragx
