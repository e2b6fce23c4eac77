import Ragx.App
import Ragx.ChunkContents
import Ragx.FullTextSync
import Ragx.Fusion
import Ragx.TopRanked

/-!
# The scores of a keyword search

The rank of an entry that matches is negative, and the best rank is the smallest. The score of a
hit falls as its rank gets better, so the hits, best rank first, have increasing scores: the
search ranks them only where all that it returns have the same rank.
-/
namespace Ragx

/-- Better hits score no less, and in a weighted fusion the keyword route gives them no less. -/
structure KeywordRanked (hits : List ScoredChunk) : Prop where
  scores : hits.Pairwise fun a b => b.score ≤ a.score
  shares : ∀ (cfg : RetrievalConfig) (raw : RouteResults), ("bm25", hits) ∈ raw.entries →
    0 ≤ cfg.rrfWeights.getD "bm25" 0 → ∃ before share after,
      weightedContributions cfg raw = before ++ share ++ after ∧
        share.map Contribution.hit = hits ∧ share.Pairwise fun a b => b.amount ≤ a.amount

/-- What one route adds in a weighted fusion. -/
def weightedShare (cfg : RetrievalConfig) (route : String × List ScoredChunk) :
    List Contribution :=
  route.2.map fun sc =>
    ⟨sc, cfg.rrfWeights.getD route.1 0 * normalise (route.2.map (·.score)) sc.score⟩

theorem weightedContributions_eq (cfg : RetrievalConfig) (raw : RouteResults) :
    weightedContributions cfg raw = raw.entries.flatMap (weightedShare cfg) := rfl

/-- The shares follow from the scores, for any fusion. -/
theorem keywordRanked_iff_scores {hits : List ScoredChunk} :
    KeywordRanked hits ↔ hits.Pairwise fun a b => b.score ≤ a.score := by
  refine ⟨KeywordRanked.scores, fun hscores => ⟨hscores, ?_⟩⟩
  intro cfg raw hmem hweight
  obtain ⟨front, back, hentries⟩ := List.append_of_mem hmem
  refine ⟨front.flatMap (weightedShare cfg), weightedShare cfg ("bm25", hits),
    back.flatMap (weightedShare cfg), ?_, ?_, ?_⟩
  · rw [weightedContributions_eq, hentries, List.flatMap_append, List.flatMap_cons,
      List.append_assoc]
  · rw [weightedShare, List.map_map]
    exact List.map_id hits
  · rw [weightedShare, List.pairwise_map]
    refine hscores.imp fun {a b} hle => mul_le_mul_of_nonneg_left ?_ hweight
    exact (normalise_strictMono _).monotone hle

/-- No rank in the list is better. -/
def BestRank {α : Type*} (rank : α → ℚ) (found : List α) (a : α) : Prop :=
  ∀ b ∈ found, rank a ≤ rank b

instance {α : Type*} (rank : α → ℚ) (found : List α) : DecidablePred (BestRank rank found) :=
  fun a => inferInstanceAs (Decidable (∀ b ∈ found, rank a ≤ rank b))

/-- `1.0 / (1.0 + max(0.0, bm25_score))` of a negative rank. -/
theorem rankScore_le_iff {a b : ℚ} (ha : a < 0) (hb : b < 0) :
    1 / (1 + max 0 (-a)) ≤ 1 / (1 + max 0 (-b)) ↔ a ≤ b := by
  rw [max_eq_right (by linarith), max_eq_right (by linarith),
    one_div_le_one_div (by linarith) (by linarith)]
  constructor
  · intro h
    linarith
  · intro h
    linarith

/-- The first `k` in the order of their ranks, negative all, have non-increasing scores exactly if
each has the best rank. -/
theorem scores_take_sorted_iff {α : Type*} {rank : α → ℚ} {found : List α}
    (hneg : ∀ a ∈ found, rank a < 0) (k : ℕ) :
    let taken := (found.insertionSort fun a b => rank a ≤ rank b).take k
    (taken.Pairwise fun a b => 1 / (1 + max 0 (-rank b)) ≤ 1 / (1 + max 0 (-rank a))) ↔
      ∀ a ∈ taken, BestRank rank found a := by
  have hperm := found.perm_insertionSort fun a b => rank a ≤ rank b
  have hsorted := found.pairwise_insertionSort fun a b => rank a ≤ rank b
  generalize (found.insertionSort fun a b => rank a ≤ rank b) = sorted at hperm hsorted
  have hmem : ∀ a ∈ sorted.take k, a ∈ found := fun a ha =>
    hperm.subset (List.mem_of_mem_take ha)
  constructor
  · intro hscores a ha b hb
    cases sorted with
    | nil => simp at ha
    | cons first rest =>
      -- the first row has the best rank, and what follows scores no more than it
      have hfirst : rank first ≤ rank b := by
        rcases List.mem_cons.mp (hperm.symm.subset hb) with rfl | hrest
        · exact le_rfl
        · exact (List.pairwise_cons.mp hsorted).1 b hrest
      cases k with
      | zero => simp at ha
      | succ k =>
        rw [List.take_succ_cons] at ha hscores hmem
        rcases List.mem_cons.mp ha with rfl | hrest
        · exact hfirst
        · have hle := (List.pairwise_cons.mp hscores).1 a hrest
          have hback := (rankScore_le_iff (hneg a (hmem a ha))
            (hneg first (hmem first List.mem_cons_self))).mp hle
          exact hback.trans hfirst
  · intro hbest
    refine List.pairwise_of_forall_mem_list fun a ha b hb => ?_
    exact (rankScore_le_iff (hneg b (hmem b hb)) (hneg a (hmem a ha))).mpr
      (hbest b hb a (hmem a ha))

namespace FullTextEngine

/-- The rank of what matches is negative. -/
def NegativeRanks (engine : FullTextEngine) : Prop :=
  ∀ es phrase isMatch, engine.phrase phrase = .ok isMatch →
    ∀ e ∈ es, isMatch e.2 = true → engine.bm25 es phrase e.1 < 0

end FullTextEngine

namespace OpenVectorStore

variable (c : ColumnCodecs) (db : Sqlite) (engine : FullTextEngine)

/-- The rows that a keyword search finds, before it takes the first of them. -/
def found (s : OpenVectorStore) (filter : Option FilterExpr) (isMatch : String → Bool)
    (es : List (ℕ × String)) : List ChunkRow :=
  (joined isMatch s.table.rows.values es).filter fun row => satisfiedBy db filter (row.toChunk c)

/-- If some row that is found has not the best rank, as many rows as are asked for have it. -/
def BestRankShared (s : OpenVectorStore) (query : String) (topK : ℤ)
    (filter : Option FilterExpr) : Prop :=
  ∀ es isMatch, s.table.index = some es → engine.phrase (queryPhrase query) = .ok isMatch →
    let rows := s.found c db filter isMatch es
    let rank := fun row : ChunkRow => engine.bm25 es (queryPhrase query) row.rowid
    ∀ row ∈ rows, ¬ BestRank rank rows row →
      (max topK 0).toNat ≤ rows.countP fun row => BestRank rank rows row

/-- What a keyword search returns, if it returns, is ranked. -/
def ReturnsRanked (s : OpenVectorStore) (query : String) (topK : ℤ)
    (filter : Option FilterExpr) : Prop :=
  ∀ hits, searchKeyword c db engine s query topK filter = .ok hits → KeywordRanked hits

variable {c db engine}

theorem searchKeyword_eq {s : OpenVectorStore} {es : List (ℕ × String)} {query : String}
    {isMatch : String → Bool} (hindex : s.table.index = some es)
    (hphrase : engine.phrase (queryPhrase query) = .ok isMatch) (topK : ℤ)
    (filter : Option FilterExpr) :
    searchKeyword c db engine s query topK filter =
      .ok (keywordHits c db filter (fun row => engine.bm25 es (queryPhrase query) row.rowid) topK
        (joined isMatch s.table.rows.values es)) := by
  rw [searchKeyword, hindex]
  simp only [hphrase]
  rfl

/-- A row that is found has an entry that matches. -/
theorem rank_found_neg (hneg : engine.NegativeRanks) {s : OpenVectorStore}
    {filter : Option FilterExpr} {isMatch : String → Bool} {es : List (ℕ × String)}
    {phrase : String} (hphrase : engine.phrase phrase = .ok isMatch) {row : ChunkRow}
    (hrow : row ∈ s.found c db filter isMatch es) : engine.bm25 es phrase row.rowid < 0 := by
  obtain ⟨other, _, hjoin⟩ := List.mem_flatMap.mp (List.mem_filter.mp hrow).1
  obtain ⟨e, he, rfl⟩ := List.mem_map.mp hjoin
  obtain ⟨hentry, hmatch⟩ := List.mem_filter.mp he
  rw [Bool.and_eq_true, decide_eq_true_eq] at hmatch
  rw [← hmatch.1]
  exact hneg es phrase isMatch hphrase e hentry hmatch.2

section Sample

open HeldChunks

/-- Two chunks, of one and of two words, and the ranks that the engine gives them for the word. -/
def foxes : List EmbeddedChunk :=
  [sampleChunk "doc_1" "fox", { sampleChunk "doc_1" "fox fox" with chunkId := "chk_2" }]

def foxEngine : FullTextEngine where
  phrase := fun _ => .ok fun text => text == "fox" || text == "fox fox"
  bm25 := fun _ _ rowid => if rowid = 2 then -44 / 35000000 else -22 / 19000000

theorem negativeRanks_foxEngine : foxEngine.NegativeRanks := by
  intro es phrase isMatch _ e _ _
  simp only [foxEngine]
  split_ifs
  · norm_num
  · norm_num

def foxStore : OpenVectorStore :=
  runWrites sampleCodecs (opened "kb" 1 "ragx.db") [.upsert foxes]

end Sample

end OpenVectorStore

end Ragx
