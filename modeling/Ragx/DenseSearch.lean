import Ragx.App
import Ragx.Cosines
import Ragx.TopRanked

/-!
# Dense search

The rows that pass the filter, scored by their cosines, most similar first. The search is the
same over any ordered scores. Over the reals its scores are at most one, and they are negative
for rows that point away from the query: these are returned like others, with their scores as
they are.
-/
namespace Ragx

structure DenseHit (K : Type) where
  chunk : Chunk
  score : K

def DenseHit.scored (hit : DenseHit ℚ) : ScoredChunk where
  chunk := hit.chunk
  score := hit.score
  source := .dense

namespace SqliteVectorStore

def matching (db : Sqlite) (store : SqliteVectorStore) (filter : Option FilterExpr) :
    List EmbeddedChunk :=
  store.rows.filter fun row => satisfiedBy db filter row.toChunk

section Scores

variable {K : Type} [LinearOrder K] (cosine : List ℚ → List ℚ → K)

def denseHit (vector : List ℚ) (row : EmbeddedChunk) : DenseHit K where
  chunk := row.toChunk
  score := cosine vector row.vector

/-- The matching rows with their scores, as far as they are asked for. -/
def denseHits (db : Sqlite) (store : SqliteVectorStore) (vector : List ℚ) (topK : ℤ)
    (filter : Option FilterExpr) : List (DenseHit K) :=
  let scored := (store.matching db filter).map (denseHit cosine vector)
  (scored.insertionSort fun a b => b.score ≤ a.score).take (max topK 0).toNat

/-- `search_dense` with the scores of a cosine. -/
def searchDenseBy (db : Sqlite) (store : SqliteVectorStore) (vector : List ℚ) (topK : ℤ)
    (filter : Option FilterExpr) : Except Exc (List (DenseHit K)) :=
  if vector.length ≠ store.dimension then
    .error {
      cls := .pluginContract, code := 9004, message := "query vector dimension mismatch"
      details := [("expected", .num store.dimension), ("got", .num vector.length)] }
  else .ok (store.denseHits cosine db vector topK filter)

theorem topRanked_denseHits (db : Sqlite) (store : SqliteVectorStore) (vector : List ℚ) (topK : ℤ)
    (filter : Option FilterExpr) :
    TopRanked (·.score) (max topK 0).toNat
      ((store.matching db filter).map (denseHit cosine vector))
      (store.denseHits cosine db vector topK filter) := by
  have hperm := ((store.matching db filter).map (denseHit cosine vector)).perm_insertionSort
    fun a b => b.score ≤ a.score
  refine ⟨(IsBest.take_of_sorted ?_ _).of_perm hperm, ?_⟩
  · exact List.pairwise_insertionSort (fun a b : DenseHit K => b.score ≤ a.score) _
  · rw [denseHits, List.length_take, hperm.length_eq]

end Scores

/-- With the floating-point cosine it is the store's search. -/
theorem searchDense_eq (db : Sqlite) (store : SqliteVectorStore) (vector : List ℚ) (topK : ℤ)
    (filter : Option FilterExpr) :
    store.searchDense db vector topK filter =
      (store.searchDenseBy db.cosine db vector topK filter).map (List.map DenseHit.scored) := by
  unfold searchDense searchDenseBy denseHits
  split_ifs with hlength
  · rfl
  · simp only [Except.map, Except.ok.injEq]
    rw [List.map_take, List.map_insertionSort (fun a b : DenseHit ℚ => b.score ≤ a.score)
      (fun a b : ScoredChunk => b.score ≤ a.score), List.map_map]
    · rfl
    · exact fun _ _ _ _ => Iff.rfl

/-- What a dense search owes its caller. -/
structure DenseAnswer (db : Sqlite) (store : SqliteVectorStore) (vector : List ℚ) (topK : ℤ)
    (filter : Option FilterExpr) (hits : List (DenseHit ℝ)) : Prop where
  length : (hits.length : ℤ) = min (max topK 0) (store.matching db filter).length
  passing : ∀ hit ∈ hits, hit.chunk ∈ store.chunks ∧ satisfiedBy db filter hit.chunk = true
  ranked : hits.Pairwise fun a b => b.score ≤ a.score
  unit : ∀ hit ∈ hits, 0 ≤ hit.score ∧ hit.score ≤ 1
  nearest : ∀ row ∈ store.matching db filter, row.toChunk ∉ hits.map (·.chunk) →
    ∀ row' ∈ store.matching db filter, row'.toChunk ∈ hits.map (·.chunk) →
      cosineSimilarity vector row.vector ≤ cosineSimilarity vector row'.vector

/-- The vector does not point away from the query. -/
def Near (vector : List ℚ) (row : EmbeddedChunk) : Prop :=
  0 ≤ (PairSums.ofLists vector row.vector).dot

instance (vector : List ℚ) : DecidablePred (Near vector) := fun row =>
  inferInstanceAs (Decidable (0 ≤ (PairSums.ofLists vector row.vector).dot))

/-- If a matching chunk points away from the query, as many as are asked for do not. -/
def OppositeLeftOut (db : Sqlite) (store : SqliteVectorStore) (vector : List ℚ) (topK : ℤ)
    (filter : Option FilterExpr) : Prop :=
  ∀ row ∈ store.matching db filter, ¬ Near vector row →
    (max topK 0).toNat ≤ (store.matching db filter).countP fun row => Near vector row

instance (db : Sqlite) (store : SqliteVectorStore) (vector : List ℚ) (topK : ℤ)
    (filter : Option FilterExpr) : Decidable (OppositeLeftOut db store vector topK filter) :=
  inferInstanceAs (Decidable (∀ row ∈ store.matching db filter, ¬ Near vector row →
    (max topK 0).toNat ≤ (store.matching db filter).countP fun row => Near vector row))

variable {db : Sqlite} {store : SqliteVectorStore} {vector : List ℚ} {filter : Option FilterExpr}

theorem eq_of_toChunk {row row' : EmbeddedChunk} (hrow : row ∈ store.rows)
    (hrow' : row' ∈ store.rows) (h : row.toChunk = row'.toChunk) : row = row' :=
  List.inj_on_of_nodup_map store.ids_nodup hrow hrow' (congrArg Chunk.chunkId h)

/-- No score is negative exactly if what points away is left out. -/
theorem denseHits_nonneg_iff (db : Sqlite) (store : SqliteVectorStore) (vector : List ℚ) (topK : ℤ)
    (filter : Option FilterExpr) :
    (∀ hit ∈ store.denseHits cosineSimilarity db vector topK filter, 0 ≤ hit.score) ↔
      OppositeLeftOut db store vector topK filter := by
  have hcount : ((store.matching db filter).map (denseHit cosineSimilarity vector)).countP
      (fun hit => decide (0 ≤ hit.score)) =
        (store.matching db filter).countP fun row => Near vector row := by
    rw [List.countP_map]
    refine List.countP_congr fun row _ => ?_
    rw [Function.comp_apply, decide_eq_true_iff, decide_eq_true_iff]
    exact cosineSimilarity_nonneg_iff vector row.vector
  rw [(store.topRanked_denseHits cosineSimilarity db vector topK filter).forall_best_iff
    fun a b hle ha => le_trans ha hle, hcount]
  simp only [List.forall_mem_map, denseHit, cosineSimilarity_nonneg_iff]
  rfl

section Sample

/-- A chunk in the direction of the query and one in the opposite direction. -/
def oppositeChunks : SqliteVectorStore where
  kbId := "kb"
  dimension := 2
  rows :=
    [{ defaultChunk with kbId := "kb", vector := [1, 0] },
      { defaultChunk with chunkId := "chk_2", kbId := "kb", vector := [-1, 0] }]
  kb_scoped := by simp
  dimension_eq := by simp
  ids_nodup := by decide

end Sample

end SqliteVectorStore

end Ragx
