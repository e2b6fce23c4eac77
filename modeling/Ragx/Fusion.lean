import Mathlib.Algebra.Order.Field.Basic
import Mathlib.Algebra.Order.Field.Rat
import Mathlib.Data.List.MinMax
import Mathlib.Data.List.Sort
import Mathlib.Tactic.Linarith
import Mathlib.Tactic.Ring
import Ragx.BestPrefix
import Ragx.Models

/-!
# Fusion of the recall routes and the final cut

Every route contributes an amount to each chunk it returns: its weight over the
shifted rank, or its weight times the min-max normalised score. The fused list
stands in the order in which the chunks were first seen, the scores are
normalised to the unit interval, and the cut to 20 candidates and then to
`rerankTopK` is taken from the front of that list.
-/
namespace Ragx

inductive FusionStrategy where
  | rrf
  | weighted
deriving DecidableEq, Repr

structure RetrievalConfig where
  denseTopK : ℤ := 20
  bm25TopK : ℤ := 20
  graphLowTopK : ℤ := 10
  graphNeighborsHops : ℤ := 1
  graphNeighborsLimit : ℤ := 30
  graphHighTopK : ℤ := 3
  rrfK : ℕ := 60
  rrfWeights : OrderedDict String ℚ :=
    .ofList [("dense", 1), ("bm25", 1), ("graph_low", 4 / 5), ("graph_high", 3 / 5)]
  fusionStrategy : FusionStrategy := .rrf
  rerankTopK : ℤ := 8
  contextTokenBudget : ℤ := 4096
  quotaDenseBm25 : ℚ := 7 / 10
  quotaGraph : ℚ := 3 / 10

/-- One fused hit with the routes it came from. -/
structure RetrievalHit where
  chunk : Chunk
  rrfScore : ℚ
  sources : List RetrievalSource := []
  rerankScore : Option ℚ := none

/-- Results by route name, in the order in which the routes were started. -/
abbrev RouteResults := OrderedDict String (List ScoredChunk)

/-! ## Min-max normalisation -/

def minOf : List ℚ → ℚ
  | [] => 0
  | v :: vs => vs.foldl min v

def maxOf : List ℚ → ℚ
  | [] => 0
  | v :: vs => vs.foldl max v

/-- `(smax - smin) or 1.0`. -/
def rangeOf (vals : List ℚ) : ℚ :=
  if maxOf vals - minOf vals = 0 then 1 else maxOf vals - minOf vals

def normalise (vals : List ℚ) (v : ℚ) : ℚ := (v - minOf vals) / rangeOf vals

theorem foldl_min_le_foldl_max (vs : List ℚ) {a b : ℚ} (h : a ≤ b) :
    vs.foldl min a ≤ vs.foldl max b := by
  induction vs generalizing a b with
  | nil => exact h
  | cons v vs ih => exact ih ((min_le_left a v).trans (h.trans (le_max_left b v)))

theorem rangeOf_pos (vals : List ℚ) : 0 < rangeOf vals := by
  have hle : minOf vals ≤ maxOf vals := by
    cases vals with
    | nil => exact le_rfl
    | cons v vs => exact foldl_min_le_foldl_max vs le_rfl
  unfold rangeOf
  split_ifs with h
  · exact one_pos
  · exact lt_of_le_of_ne (sub_nonneg.mpr hle) (Ne.symm h)

theorem normalise_strictMono (vals : List ℚ) : StrictMono (normalise vals) := by
  intro a b hab
  exact div_lt_div_of_pos_right (sub_lt_sub_right hab _) (rangeOf_pos vals)

/-! ## Contributions and their accumulation -/

/-- What one route adds to the score of one chunk it returned. -/
structure Contribution where
  hit : ScoredChunk
  amount : ℚ

def Contribution.chunkId (c : Contribution) : String := c.hit.chunk.chunkId

/-- Reciprocal rank: weight over `rrfK` plus the rank, counted from one. -/
def rrfContributions (cfg : RetrievalConfig) (raw : RouteResults) : List Contribution :=
  raw.entries.flatMap fun route =>
    (route.2.zipIdx 1).map fun sc =>
      ⟨sc.1, cfg.rrfWeights.getD route.1 0 / ((cfg.rrfK + sc.2 : ℕ) : ℚ)⟩

/-- Weighted rank: the route's scores are normalised before they are weighted. -/
def weightedContributions (cfg : RetrievalConfig) (raw : RouteResults) : List Contribution :=
  raw.entries.flatMap fun route =>
    route.2.map fun sc =>
      ⟨sc, cfg.rrfWeights.getD route.1 0 * normalise (route.2.map (·.score)) sc.score⟩

def contributions (cfg : RetrievalConfig) (raw : RouteResults) : List Contribution :=
  match cfg.fusionStrategy with
  | .weighted => weightedContributions cfg raw
  | .rrf => rrfContributions cfg raw

/-- The values that `scores`, `sources` and `chunks` hold for one chunk id. -/
structure FusedEntry where
  score : ℚ
  sources : List RetrievalSource
  chunk : Chunk

def addContribution (old : Option FusedEntry) (c : Contribution) : FusedEntry where
  score := (old.map (·.score)).getD 0 + c.amount
  sources := ((old.map (·.sources)).getD []).insert c.hit.source
  chunk := c.hit.chunk

/-- The three dictionaries after the loops over routes and hits. -/
def fusedDict (cs : List Contribution) : OrderedDict String FusedEntry :=
  .accumulate Contribution.chunkId addContribution .empty cs

/-- The common end of both strategies: normalise and list in dictionary order. -/
def fusedHits (d : OrderedDict String FusedEntry) : List RetrievalHit :=
  d.values.map fun e =>
    { chunk := e.chunk
      rrfScore := normalise (d.values.map (·.score)) e.score
      sources := RetrievalSource.alphabetical.filter (· ∈ e.sources) }

def rrfFuse (cfg : RetrievalConfig) (raw : RouteResults) : List RetrievalHit :=
  fusedHits (fusedDict (rrfContributions cfg raw))

def weightedFuse (cfg : RetrievalConfig) (raw : RouteResults) : List RetrievalHit :=
  fusedHits (fusedDict (weightedContributions cfg raw))

def fuse (cfg : RetrievalConfig) (raw : RouteResults) : List RetrievalHit :=
  match cfg.fusionStrategy with
  | .weighted => weightedFuse cfg raw
  | .rrf => rrfFuse cfg raw

theorem fuse_eq (cfg : RetrievalConfig) (raw : RouteResults) :
    fuse cfg raw = fusedHits (fusedDict (contributions cfg raw)) := by
  unfold fuse contributions
  cases cfg.fusionStrategy <;> rfl

/-- What a chunk id collects from all routes together. -/
def totalOf (cs : List Contribution) (cid : String) : ℚ :=
  ((cs.filter fun c => decide (c.chunkId = cid)).map (·.amount)).sum

/-- The totals of the chunks in the order in which the routes first return them. -/
def arrivalTotals (cfg : RetrievalConfig) (raw : RouteResults) : List ℚ :=
  (firstSeen ((contributions cfg raw).map Contribution.chunkId)).map
    (totalOf (contributions cfg raw))

/-- Running the update over one chunk's contributions adds them up. -/
theorem score_foldl_addContribution (cs : List Contribution) (old : Option FusedEntry) :
    ((cs.foldl (fun o c => some (addContribution o c)) old).map (·.score)).getD 0 =
      (old.map (·.score)).getD 0 + (cs.map (·.amount)).sum := by
  induction cs generalizing old with
  | nil => simp
  | cons c cs ih =>
    rw [List.foldl_cons, ih]
    simp only [Option.map_some, Option.getD_some, addContribution, List.map_cons, List.sum_cons]
    ring

theorem score_fusedDict {cs : List Contribution} {e : String × FusedEntry}
    (he : e ∈ (fusedDict cs).entries) : e.2.score = totalOf cs e.1 := by
  have h := OrderedDict.entry_of_accumulate Contribution.chunkId addContribution he
  have hs := score_foldl_addContribution (cs.filter fun c => decide (c.chunkId = e.1)) none
  rw [← h] at hs
  simpa [totalOf] using hs

/-- The accumulated scores, in dictionary order, are the totals in arrival order. -/
theorem scores_fusedDict (cs : List Contribution) :
    (fusedDict cs).values.map (·.score) =
      (firstSeen (cs.map Contribution.chunkId)).map (totalOf cs) := by
  have hkeys : (fusedDict cs).keys = firstSeen (cs.map Contribution.chunkId) :=
    OrderedDict.keys_accumulate_empty _ _ cs
  rw [← hkeys, OrderedDict.values, OrderedDict.keys, List.map_map, List.map_map]
  exact List.map_congr_left fun e he => score_fusedDict he

/-- A fold over contributions ends with the chunk of the last of them. -/
theorem chunk_foldl_addContribution {cs : List Contribution} {old : Option FusedEntry}
    {e : FusedEntry} (h : some e = cs.foldl (fun o c => some (addContribution o c)) old) :
    some e = old ∨ ∃ c ∈ cs, e.chunk = c.hit.chunk := by
  induction cs generalizing old with
  | nil => exact Or.inl h
  | cons c cs ih =>
    rcases ih h with h | ⟨d, hd, he⟩
    · exact Or.inr ⟨c, List.mem_cons_self, congrArg FusedEntry.chunk (Option.some.inj h)⟩
    · exact Or.inr ⟨d, List.mem_cons_of_mem c hd, he⟩

theorem mem_contributions {cfg : RetrievalConfig} {raw : RouteResults} {c : Contribution}
    (h : c ∈ contributions cfg raw) : ∃ route ∈ raw.entries, c.hit ∈ route.2 := by
  unfold contributions at h
  cases hs : cfg.fusionStrategy with
  | rrf =>
    rw [hs] at h
    obtain ⟨route, hroute, hc⟩ := List.mem_flatMap.mp h
    obtain ⟨sc, hsc, rfl⟩ := List.mem_map.mp hc
    exact ⟨route, hroute, List.fst_mem_of_mem_zipIdx hsc⟩
  | weighted =>
    rw [hs] at h
    obtain ⟨route, hroute, hc⟩ := List.mem_flatMap.mp h
    obtain ⟨sc, hsc, rfl⟩ := List.mem_map.mp hc
    exact ⟨route, hroute, hsc⟩

/-- Every hit of a route contributes. -/
theorem contributions_ne_nil {cfg : RetrievalConfig} {raw : RouteResults}
    {route : String × List ScoredChunk} (hr : route ∈ raw.entries) (hne : route.2 ≠ []) :
    contributions cfg raw ≠ [] := by
  obtain ⟨sc, hsc⟩ := List.exists_mem_of_ne_nil _ hne
  unfold contributions
  cases cfg.fusionStrategy with
  | rrf =>
    have hz : route.2.zipIdx 1 ≠ [] := fun h => hne (List.zipIdx_eq_nil_iff.mp h)
    obtain ⟨p, hp⟩ := List.exists_mem_of_ne_nil _ hz
    exact List.ne_nil_of_mem (List.mem_flatMap.mpr ⟨route, hr, List.mem_map_of_mem hp⟩)
  | weighted =>
    exact List.ne_nil_of_mem (List.mem_flatMap.mpr ⟨route, hr, List.mem_map_of_mem hsc⟩)

/-- Every fused hit carries a chunk that some route returned. -/
theorem mem_fuse {cfg : RetrievalConfig} {raw : RouteResults} {h : RetrievalHit}
    (hm : h ∈ fuse cfg raw) :
    ∃ route ∈ raw.entries, ∃ sc ∈ route.2, sc.chunk = h.chunk := by
  rw [fuse_eq] at hm
  obtain ⟨entry, hentry, rfl⟩ := List.mem_map.mp hm
  obtain ⟨e, he, rfl⟩ := List.mem_map.mp hentry
  have hfold := OrderedDict.entry_of_accumulate Contribution.chunkId addContribution he
  rcases chunk_foldl_addContribution hfold with habs | ⟨c, hc, hchunk⟩
  · exact absurd habs (Option.some_ne_none _)
  · obtain ⟨route, hroute, hhit⟩ := mem_contributions (List.mem_filter.mp hc).1
    exact ⟨route, hroute, c.hit, hhit, hchunk.symm⟩

theorem length_fuse (cfg : RetrievalConfig) (raw : RouteResults) :
    (fuse cfg raw).length =
      (firstSeen ((contributions cfg raw).map Contribution.chunkId)).length := by
  have h := congrArg List.length (scores_fusedDict (contributions cfg raw))
  rw [List.length_map, List.length_map] at h
  rw [fuse_eq, fusedHits, List.length_map, h]

/-- The fused scores are an increasing image of the arrival totals. -/
theorem rrfScores_fuse (cfg : RetrievalConfig) (raw : RouteResults) :
    (fuse cfg raw).map (·.rrfScore) =
      (arrivalTotals cfg raw).map (normalise (arrivalTotals cfg raw)) := by
  rw [fuse_eq, fusedHits, List.map_map, arrivalTotals, ← scores_fusedDict, List.map_map]
  rfl

/-! ## Candidates, rerank and the final cut -/

/-- A reranker may fail; it scores the chunks it keeps. -/
abbrev Reranker := String → List Chunk → ℤ → Except Exc (List (String × ℚ))

/-- The candidates: at most 20 hits from the front. -/
def candidates (fused : List RetrievalHit) : List RetrievalHit :=
  fused.take (min fused.length 20)

def RetrievalHit.rerankKey (h : RetrievalHit) : ℚ := h.rerankScore.getD 0

def rerank (cfg : RetrievalConfig) (reranker : Option Reranker) (query : String)
    (fused : List RetrievalHit) : Except Exc (List RetrievalHit) :=
  if fused.isEmpty then .ok []
  else match reranker with
    | some r => do
      let results ← r query ((candidates fused).map (·.chunk)) cfg.rerankTopK
      let id2score := OrderedDict.ofList results
      let out := (candidates fused).filterMap fun h =>
        (id2score.get? h.chunk.chunkId).map fun s => { h with rerankScore := some s }
      return sliceTo (out.insertionSort fun a b => b.rerankKey ≤ a.rerankKey) cfg.rerankTopK
    | none => .ok (sliceTo (candidates fused) cfg.rerankTopK)

/-- The part of `retrieve` that follows the recall. -/
def fuseAndRerank (cfg : RetrievalConfig) (reranker : Option Reranker) (query : String)
    (raw : RouteResults) : Except Exc (List RetrievalHit) :=
  rerank cfg reranker query (fuse cfg raw)

theorem candidates_eq_take (fused : List RetrievalHit) : candidates fused = fused.take 20 := by
  rw [candidates, ← List.take_take, List.take_of_length_le (i := fused.length)]
  rw [List.length_take]
  exact min_le_right _ _

/-- Without a reranker the result is a prefix of the fused list. -/
theorem rerank_none (cfg : RetrievalConfig) (query : String) (fused : List RetrievalHit)
    (hk : 0 ≤ cfg.rerankTopK) :
    rerank cfg none query fused = .ok (fused.take (min cfg.rerankTopK 20).toNat) := by
  unfold rerank
  split_ifs with h
  · rw [List.isEmpty_iff.mp h, List.take_nil]
  · simp only
    rw [sliceTo_of_nonneg _ hk, candidates_eq_take, List.take_take]
    congr 2
    omega

/-- Reranking and cutting only select among the fused hits. -/
theorem mem_rerank {cfg : RetrievalConfig} {reranker : Option Reranker} {query : String}
    {fused out : List RetrievalHit} {h : RetrievalHit}
    (hr : rerank cfg reranker query fused = .ok out) (hm : h ∈ out) :
    ∃ h' ∈ fused, h'.chunk = h.chunk := by
  unfold rerank at hr
  split_ifs at hr
  · cases hr
    exact absurd hm List.not_mem_nil
  · cases reranker with
    | none =>
      cases hr
      exact ⟨h, List.mem_of_mem_take (mem_of_mem_sliceTo hm), rfl⟩
    | some r =>
      cases hres : r query ((candidates fused).map (·.chunk)) cfg.rerankTopK with
      | error e =>
        simp only [hres] at hr
        cases hr
      | ok results =>
        simp only [hres] at hr
        cases hr
        have hsorted := (List.mem_insertionSort _).mp (mem_of_mem_sliceTo hm)
        obtain ⟨h', hc, hmap⟩ := List.mem_filterMap.mp hsorted
        obtain ⟨s, _, rfl⟩ := Option.map_eq_some_iff.mp hmap
        exact ⟨h', List.mem_of_mem_take hc, rfl⟩

/-- If the routes return one and the same chunk, it is the only hit. -/
theorem fuseAndRerank_single {cfg : RetrievalConfig} {query : String} {raw : RouteResults}
    {chunk : Chunk} {route : String × List ScoredChunk} (hk : 1 ≤ cfg.rerankTopK)
    (hroute : route ∈ raw.entries) (hne : route.2 ≠ [])
    (hall : ∀ route ∈ raw.entries, ∀ sc ∈ route.2, sc.chunk = chunk) :
    ∃ h, fuseAndRerank cfg none query raw = .ok [h] ∧ h.chunk = chunk := by
  have hids : firstSeen ((contributions cfg raw).map Contribution.chunkId) = [chunk.chunkId] := by
    refine firstSeen_of_all_eq (by simpa using contributions_ne_nil hroute hne) ?_
    intro cid hcid
    obtain ⟨c, hc, rfl⟩ := List.mem_map.mp hcid
    obtain ⟨route', hroute', hhit⟩ := mem_contributions hc
    exact congrArg Chunk.chunkId (hall route' hroute' c.hit hhit)
  have hlen : (fuse cfg raw).length = 1 := by rw [length_fuse, hids, List.length_singleton]
  obtain ⟨h, hfuse⟩ := List.length_eq_one_iff.mp hlen
  obtain ⟨route', hroute', sc, hsc, hchunk⟩ :=
    mem_fuse (show h ∈ fuse cfg raw from hfuse ▸ List.mem_singleton_self h)
  refine ⟨h, ?_, hchunk ▸ hall route' hroute' sc hsc⟩
  rw [fuseAndRerank, hfuse, rerank_none cfg query [h] (by omega), List.take_of_length_le]
  simp only [List.length_singleton]
  omega

/-- What `retrieve` owes its caller. Without a reranker: exactly the best hits,
in non-increasing score. With one: no hit outside the candidates beats a candidate. -/
def RetrievesBest (cfg : RetrievalConfig) (reranker : Option Reranker) (query : String)
    (raw : RouteResults) : Prop :=
  match reranker with
  | none => ∃ out, fuseAndRerank cfg none query raw = .ok out ∧
      (out.length : ℤ) = min cfg.rerankTopK (min 20 (fuse cfg raw).length) ∧
      IsBest (·.rrfScore) (fuse cfg raw) out
  | some _ => ∃ left, fuse cfg raw = candidates (fuse cfg raw) ++ left ∧
      ∀ h ∈ candidates (fuse cfg raw), ∀ h' ∈ left, h'.rrfScore ≤ h.rrfScore

/-- The routes return the chunks in an order that already ranks their totals,
as far as the cut reaches. -/
def RankedArrival (cfg : RetrievalConfig) (reranker : Option Reranker) (raw : RouteResults) :
    Prop :=
  match reranker with
  | none => 0 ≤ cfg.rerankTopK ∧
      RankedHead (min cfg.rerankTopK 20).toNat (arrivalTotals cfg raw)
  | some _ => HeadDominates 20 (arrivalTotals cfg raw)

theorem rankedHead_fuse (cfg : RetrievalConfig) (raw : RouteResults) (k : ℕ) :
    RankedHead k ((fuse cfg raw).map (·.rrfScore)) ↔ RankedHead k (arrivalTotals cfg raw) := by
  rw [rrfScores_fuse]
  exact rankedHead_map (normalise_strictMono _) k _

theorem headDominates_fuse (cfg : RetrievalConfig) (raw : RouteResults) (k : ℕ) :
    HeadDominates k ((fuse cfg raw).map (·.rrfScore)) ↔
      HeadDominates k (arrivalTotals cfg raw) := by
  rw [rrfScores_fuse]
  exact headDominates_map_iff (normalise_strictMono _) k _

/-- The result is the best part of the fused hits, for every strategy and every
family of routes, exactly when the routes return the chunks ranked by their totals. -/
theorem retrievesBest_iff (cfg : RetrievalConfig) (reranker : Option Reranker)
    (query : String) (raw : RouteResults) :
    RetrievesBest cfg reranker query raw ↔ RankedArrival cfg reranker raw := by
  cases reranker with
  | none =>
    simp only [RetrievesBest, RankedArrival, fuseAndRerank]
    constructor
    · rintro ⟨out, hout, hlen, hbest⟩
      have hk : 0 ≤ cfg.rerankTopK := by omega
      rw [rerank_none cfg query _ hk] at hout
      cases hout
      exact ⟨hk, (rankedHead_fuse cfg raw _).mp ((isBest_take_iff _ _ _).mp hbest)⟩
    · rintro ⟨hk, hranked⟩
      refine ⟨_, rerank_none cfg query _ hk, ?_, ?_⟩
      · rw [List.length_take]
        omega
      · exact (isBest_take_iff _ _ _).mpr ((rankedHead_fuse cfg raw _).mpr hranked)
  | some r =>
    have hfront := candidates_eq_take (fuse cfg raw)
    simp only [RetrievesBest, RankedArrival, ← headDominates_fuse, headDominates_map, hfront]
    constructor
    · rintro ⟨left, hsplit, hbelow⟩
      have hleft : left = (fuse cfg raw).drop 20 := by
        have h := hsplit.symm.trans (List.take_append_drop 20 (fuse cfg raw)).symm
        exact List.append_cancel_left h
      exact hleft ▸ hbelow
    · intro hbelow
      exact ⟨_, (List.take_append_drop 20 _).symm, hbelow⟩

/-- A chunk with the given id and nothing else of interest. -/
def bareChunk (cid : String) : Chunk :=
  { chunkId := cid, docId := "doc_1", kbId := "kb_1", atomIds := [], text := cid, tokenCount := 1 }

/-- The dense route finds `chk_a` before `chk_b`; the keyword route finds only `chk_b`. -/
def overlappingRoutes : RouteResults :=
  .ofList [("dense", [⟨bareChunk "chk_a", 9 / 10, .dense⟩, ⟨bareChunk "chk_b", 8 / 10, .dense⟩]),
    ("bm25", [⟨bareChunk "chk_b", 1 / 2, .bm25⟩])]

/-- With the default configuration the chunk found by both routes comes second. -/
theorem overlappingRoutes_not_best :
    ¬ RetrievesBest {} none "query" overlappingRoutes := by
  rintro ⟨out, hout, _, _, _, hsorted, _⟩
  rw [fuseAndRerank, rerank_none _ _ _ (by decide)] at hout
  cases hout
  have hscores : ((fuse {} overlappingRoutes).take 8).map (·.rrfScore) = [0, 1] := by
    decide +kernel
  have h : (((fuse {} overlappingRoutes).take 8).map (·.rrfScore)).Pairwise (fun a b => b ≤ a) :=
    List.pairwise_map.mpr hsorted
  rw [hscores] at h
  exact absurd h (by decide +kernel)

end Ragx
