import Mathlib.Data.List.Sort
import Ragx.Models

/-!
# The metadata store

The rows that one document has in the tables of atoms and chunks, keyed by
their ids. A conflicting insert updates the row but keeps the columns that it does
not list. Every operation ends with its commit, and reads sort by id.
-/
namespace Ragx

/-- The upsert of the atoms table: it keeps the row's document. -/
def saveAtom (stored : Option Atom) (atom : Atom) : Atom :=
  match stored with
  | none => atom
  | some old => { atom with docId := old.docId }

def saveAtoms (rows : OrderedDict String Atom) (atoms : List Atom) : OrderedDict String Atom :=
  rows.accumulate (·.atomId) saveAtom atoms

def getAtoms (rows : OrderedDict String Atom) : List Atom :=
  rows.values.insertionSort fun a b => a.atomId ≤ b.atomId

/-- Saving the same atoms again changes nothing. -/
theorem saveAtoms_saveAtoms (atoms : List Atom) :
    saveAtoms (saveAtoms .empty atoms) atoms = saveAtoms .empty atoms :=
  OrderedDict.accumulate_accumulate_empty (f := saveAtom) Atom.atomId (fun _ => rfl)
    (fun _ _ _ => rfl) atoms

/-- The upsert of the chunks table: it keeps the row's document, knowledge base and atoms. -/
def saveChunk (stored : Option Chunk) (chunk : Chunk) : Chunk :=
  match stored with
  | none => chunk
  | some old =>
    { old with
      text := chunk.text
      tokenCount := chunk.tokenCount
      page := chunk.page
      bbox := chunk.bbox
      metadata := chunk.metadata
      edited := chunk.edited
      version := chunk.version }

def saveChunks (rows : OrderedDict String Chunk) (chunks : List Chunk) :
    OrderedDict String Chunk :=
  rows.accumulate (·.chunkId) saveChunk chunks

def getChunksByDoc (rows : OrderedDict String Chunk) : List Chunk :=
  rows.values.insertionSort fun a b => a.chunkId ≤ b.chunkId

@[simp]
theorem saveChunk_self (chunk : Chunk) : saveChunk (some chunk) chunk = chunk := rfl

theorem mem_getChunksByDoc {rows : OrderedDict String Chunk} {chunk : Chunk} :
    chunk ∈ getChunksByDoc rows ↔ ∃ id, rows.get? id = some chunk := by
  rw [getChunksByDoc, List.mem_insertionSort, OrderedDict.values, List.mem_map]
  constructor
  · rintro ⟨⟨id, row⟩, hrow, rfl⟩
    exact ⟨id, OrderedDict.mem_entries.mp hrow⟩
  · rintro ⟨id, h⟩
    exact ⟨(id, chunk), OrderedDict.mem_entries.mpr h, rfl⟩

end Ragx
