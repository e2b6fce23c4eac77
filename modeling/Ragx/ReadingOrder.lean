import Ragx.IngestPipeline
import Ragx.TextParser

/-!
# Reading order in the stores

Rows are read back sorted by id. The ids of atoms are numbers with four digits, and the ids
of chunks are numerals of a time and of random bits.
-/
namespace Ragx

/-! ## Ids -/

/-- What an id is made of: the clock in milliseconds and 80 random bits. -/
structure IdDraw where
  millis : ℕ
  randomBits : ℕ
  randomBits_lt : randomBits < 2 ^ 80

/-- The number behind a ULID. -/
def IdDraw.value (draw : IdDraw) : ℕ := draw.millis <<< 80 ||| draw.randomBits

/-- Crockford's base 32. -/
def ulidAlphabet : List Char := "0123456789ABCDEFGHJKMNPQRSTVWXYZ".toList

def ulid (draw : IdDraw) : String :=
  String.ofList <| (List.range 26).reverse.map fun index =>
    ulidAlphabet.getD ((draw.value >>> (index * 5)) &&& 0x1F) '0'

/-- `new_id("chk_")`. -/
def newChunkId (draw : IdDraw) : String := "chk_" ++ ulid draw

def ulidChar (digit : Fin 32) : Char := ulidAlphabet.getD digit '0'

theorem strictMono_ulidChar : StrictMono ulidChar := by
  unfold StrictMono
  decide +kernel

theorem ulid_eq (draw : IdDraw) :
    ulid draw = String.ofList ((digits 32 26 draw.value).map ulidChar) := by
  rw [ulid, digits_eq_map, List.map_map]
  refine congrArg String.ofList (List.map_congr_left fun index _ => ?_)
  have hdigit : (draw.value >>> (index * 5)) &&& 0x1F = draw.value / 32 ^ index % 32 := by
    rw [Nat.shiftRight_eq_div_pow, Nat.mul_comm, Nat.pow_mul]
    exact Nat.and_two_pow_sub_one_eq_mod _ 5
  rw [hdigit]
  rfl

theorem newChunkId_lt_iff (draw draw' : IdDraw) :
    newChunkId draw < newChunkId draw' ↔ draw.value % 2 ^ 130 < draw'.value % 2 ^ 130 := by
  rw [newChunkId, newChunkId, ulid_eq, ulid_eq, string_append_lt_append_iff,
    map_lt_map_iff strictMono_ulidChar, digits_lt_iff]
  norm_num

theorem sequenceId_lt_iff (docId : String) {m n : ℕ} (hm : m < 10000) (hn : n < 10000) :
    sequenceId docId m < sequenceId docId n ↔ m < n := by
  rw [sequenceId, sequenceId, string_append_lt_append_iff, zeroPad_lt_iff hm hn]

/-- The first id with five digits comes before the last one with four. -/
theorem sequenceId_10000_lt (docId : String) : sequenceId docId 10000 < sequenceId docId 9999 := by
  rw [sequenceId, sequenceId, string_append_lt_append_iff]
  decide

/-! ## Reading sorted -/

section Accumulate

variable {α : Type} {key : α → String} {f : Option α → α → α}

theorem key_of_mem_accumulate (hnone : ∀ x, f none x = x)
    (hkey : ∀ v x, key v = key x → key (f (some v) x) = key x) {xs : List α} {e : String × α}
    (h : e ∈ (OrderedDict.accumulate key f .empty xs).entries) : key e.2 = e.1 := by
  induction xs using List.reverseRecOn generalizing e with
  | nil => cases h
  | append_singleton xs x ih =>
    rw [OrderedDict.accumulate_append] at h
    rcases OrderedDict.mem_of_mem_writeIn h with rfl | h
    · cases hold : (OrderedDict.accumulate key f .empty xs).get? (key x) with
      | none => exact congrArg key (hnone x)
      | some v => exact hkey v x (ih (OrderedDict.mem_entries.mpr hold))
    · exact ih h

/-- Upserted rows come back in their order exactly when the keys rise. -/
theorem insertionSort_accumulate_eq_iff (hnone : ∀ x, f none x = x)
    (hkey : ∀ v x, key v = key x → key (f (some v) x) = key x) (xs : List α) :
    ((OrderedDict.accumulate key f .empty xs).values.insertionSort fun a b => key a ≤ key b) = xs ↔
      xs.Pairwise fun a b => key a < key b := by
  constructor
  · intro h
    have hsorted : xs.Pairwise fun a b => key a ≤ key b := by
      rw [← h]
      have : Std.Total fun a b : α => key a ≤ key b := ⟨fun a b => String.le_total (key a) (key b)⟩
      have : IsTrans α fun a b => key a ≤ key b := ⟨fun a b c => String.le_trans⟩
      exact List.pairwise_insertionSort _ _
    have hnodup : (xs.map key).Nodup := by
      have hperm := (List.perm_insertionSort (fun a b : α => key a ≤ key b)
        (OrderedDict.accumulate key f .empty xs).values).map key
      rw [h] at hperm
      refine hperm.nodup_iff.mpr ?_
      have hkeys : (OrderedDict.accumulate key f .empty xs).values.map key =
          (OrderedDict.accumulate key f .empty xs).keys := by
        rw [OrderedDict.values, OrderedDict.keys, List.map_map]
        exact List.map_congr_left fun e he => key_of_mem_accumulate hnone hkey he
      rw [hkeys]
      exact (OrderedDict.accumulate key f .empty xs).nodup
    rw [List.Nodup, List.pairwise_map] at hnodup
    refine hsorted.imp₂ (fun a b hle hne => String.not_le.mp fun hge => ?_) hnodup
    exact hne (String.le_antisymm hle hge)
  · intro h
    have hnodup : (xs.map key).Nodup := by
      rw [List.Nodup, List.pairwise_map]
      refine h.imp fun {a b} hlt (heq : key a = key b) => ?_
      rw [heq] at hlt
      exact String.lt_irrefl (key b) hlt
    have hvalues : (OrderedDict.accumulate key f .empty xs).values = xs := by
      rw [OrderedDict.values, OrderedDict.entries_accumulate_of_nodup key f hnodup, List.map_map]
      simp [Function.comp_def, hnone]
    rw [hvalues]
    exact List.Pairwise.insertionSort_eq (h.imp fun hlt => String.not_lt.mp (String.lt_asymm hlt))

end Accumulate

theorem getAtoms_saveAtoms_eq_iff (atoms : List Atom) :
    getAtoms (saveAtoms .empty atoms) = atoms ↔
      atoms.Pairwise fun a b => a.atomId < b.atomId :=
  insertionSort_accumulate_eq_iff (fun _ => rfl) (fun _ _ _ => rfl) atoms

theorem getChunksByDoc_saveChunks_eq_iff (chunks : List Chunk) :
    getChunksByDoc (saveChunks .empty chunks) = chunks ↔
      chunks.Pairwise fun a b => a.chunkId < b.chunkId :=
  insertionSort_accumulate_eq_iff (fun _ => rfl) (fun _ _ h => h) chunks

/-! ## A document in the stores -/

theorem map_atomId_parseText (env : ChunkerEnv) (parser : TextMarkdownParser) (docId : String)
    (text : List Char) :
    (parseText env parser docId text).map (·.atomId) =
      (List.range (parseText env parser docId text).length).map (sequenceId docId) := by
  unfold parseText
  split_ifs
  · rfl
  · rw [List.map_map, List.length_map, List.length_zipIdx, List.range_eq_range',
      ← List.zipIdx_map_snd, List.map_map]
    rfl

/-- The numbered ids rise as long as four digits are enough. -/
theorem pairwise_sequenceId_iff (docId : String) (count : ℕ) :
    ((List.range count).map (sequenceId docId)).Pairwise (· < ·) ↔ count ≤ 10000 := by
  rw [List.pairwise_map]
  constructor
  · intro h
    by_contra hcount
    have hwrong := List.pairwise_iff_getElem.mp h 9999 10000 (by simp; omega) (by simp; omega)
      (by omega)
    rw [List.getElem_range, List.getElem_range] at hwrong
    exact String.lt_asymm hwrong (sequenceId_10000_lt docId)
  · intro hcount
    refine List.pairwise_lt_range.imp_of_mem fun hm hn hlt => ?_
    rw [List.mem_range] at hm hn
    exact (sequenceId_lt_iff docId (by omega) (by omega)).mpr hlt

/-- The chunks of a document with the ids that were drawn for them. -/
def drawnChunks (drawn : List (IdDraw × Chunk)) : List Chunk :=
  IngestEnv.identified (drawn.map fun e => newChunkId e.1) (drawn.map (·.2))

theorem map_chunkId_drawnChunks (drawn : List (IdDraw × Chunk)) :
    (drawnChunks drawn).map (·.chunkId) = drawn.map fun e => newChunkId e.1 := by
  rw [drawnChunks, IngestEnv.identified, List.map_map]
  exact List.map_fst_zip (by simp)

/-- A document comes back in reading order exactly when its atoms have four-digit numbers and
the ids of its chunks were drawn with rising numbers. -/
theorem reading_order_iff (env : ChunkerEnv) (parser : TextMarkdownParser) (docId : String)
    (text : List Char) (drawn : List (IdDraw × Chunk)) :
    (getAtoms (saveAtoms .empty (parseText env parser docId text)) =
        parseText env parser docId text ∧
      getChunksByDoc (saveChunks .empty (drawnChunks drawn)) = drawnChunks drawn) ↔
    (parseText env parser docId text).length ≤ 10000 ∧
      drawn.Pairwise fun a b => a.1.value % 2 ^ 130 < b.1.value % 2 ^ 130 := by
  have hatoms : ((parseText env parser docId text).Pairwise fun a b => a.atomId < b.atomId) ↔
      (parseText env parser docId text).length ≤ 10000 := by
    rw [← pairwise_sequenceId_iff docId, ← map_atomId_parseText, List.pairwise_map]
  have hchunks : ((drawnChunks drawn).Pairwise fun a b => a.chunkId < b.chunkId) ↔
      drawn.Pairwise fun a b => a.1.value % 2 ^ 130 < b.1.value % 2 ^ 130 := by
    rw [← List.pairwise_map (f := Chunk.chunkId) (R := (· < ·)), map_chunkId_drawnChunks,
      List.pairwise_map]
    simp only [newChunkId_lt_iff]
  rw [getAtoms_saveAtoms_eq_iff, getChunksByDoc_saveChunks_eq_iff, hatoms, hchunks]

/-- Two chunks whose ids are drawn in one millisecond, the first with the larger bits. -/
def sameMillisecond : List (IdDraw × Chunk) := [
  ({ millis := 1700000000000, randomBits := 2, randomBits_lt := by decide },
    { chunkId := "", docId := "doc_1", kbId := "default", atomIds := ["doc_1#0000"],
      text := "First.", tokenCount := 2 }),
  ({ millis := 1700000000000, randomBits := 1, randomBits_lt := by decide },
    { chunkId := "", docId := "doc_1", kbId := "default", atomIds := ["doc_1#0001"],
      text := "Second.", tokenCount := 2 })]

/-- The chunks come back in the other order. -/
theorem chunks_of_one_millisecond_are_swapped :
    (getChunksByDoc (saveChunks .empty (drawnChunks sameMillisecond))).map (·.text) =
        ["Second.", "First."] ∧
      (drawnChunks sameMillisecond).map (·.text) = ["First.", "Second."] := by
  decide +kernel

end Ragx
