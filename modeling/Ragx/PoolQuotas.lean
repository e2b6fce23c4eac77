import Ragx.ContextAssembler

/-!
# The quotas of the two pools

Each pool should hold its own part of the budget: what fits into it belongs to the context,
whatever the other pool has. The dense and keyword hits come first and may take all of
the budget, so the graph hits are kept only as far as the others leave room for them.
-/
namespace Ragx

namespace ContextAssembler

/-- The tokens of a pool, rounded down. -/
def poolSize (cfg : RetrievalConfig) (quota : ℚ) : ℤ :=
  ⌊cfg.contextTokenBudget * quota / (cfg.quotaDenseBm25 + cfg.quotaGraph)⌋

/-- Hits that fit into their pool are all in the context. -/
def Reserved (cfg : RetrievalConfig) (quota : ℚ) (pool cited : List RetrievalHit) : Prop :=
  (contextTokens pool : ℤ) ≤ poolSize cfg quota → pool.Sublist cited

/-- What the hits of a pool leave of the budget, if they all fit into the pool, the other hits
may fill. -/
def Lends (cfg : RetrievalConfig) (quota : ℚ) (pool other cited : List RetrievalHit) : Prop :=
  (contextTokens pool : ℤ) ≤ poolSize cfg quota →
    ∀ before, Fitting (cfg.contextTokenBudget - contextTokens pool) 0 other before →
      before.Sublist cited

/-- A pool ends at a hit that the whole budget has no room for. -/
def Exhausts (cfg : RetrievalConfig) (pool cited : List RetrievalHit) : Prop :=
  ∃ taken rest, pool = taken ++ rest ∧ taken.Sublist cited ∧
    ∀ h ∈ rest.head?, cfg.contextTokenBudget < contextTokens cited + h.chunk.tokenCount

/-- The assembler returns a context in which both pools have their part, and the budget that one
of them leaves goes to the other. -/
structure QuotasHold (cfg : RetrievalConfig) (hits : List RetrievalHit) : Prop where
  returned : assemble cfg hits = .ok
    ("\n\n".intercalate ((assembledHits cfg hits).map (·.chunk.text)),
      (assembledHits cfg hits).map Citation.ofHit)
  graph_reserved : Reserved cfg cfg.quotaGraph (hits.filter (·.isGraph)) (assembledHits cfg hits)
  dense_reserved : Reserved cfg cfg.quotaDenseBm25 (hits.filter fun h => !h.isGraph)
    (assembledHits cfg hits)
  graph_lends : Lends cfg cfg.quotaGraph (hits.filter (·.isGraph))
    (hits.filter fun h => !h.isGraph) (assembledHits cfg hits)
  dense_lends : Lends cfg cfg.quotaDenseBm25 (hits.filter fun h => !h.isGraph)
    (hits.filter (·.isGraph)) (assembledHits cfg hits)
  graph_exhausts : Exhausts cfg (hits.filter (·.isGraph)) (assembledHits cfg hits)
  dense_exhausts : Exhausts cfg (hits.filter fun h => !h.isGraph) (assembledHits cfg hits)

/-- The hits to be taken can be cited; and graph hits that fit into their pool fit into the
budget behind the dense and keyword hits, too. -/
def GraphFits (cfg : RetrievalConfig) (hits : List RetrievalHit) : Prop :=
  (∀ taken, Taken cfg hits taken → ∀ h ∈ taken, Citable h) ∧
    ((contextTokens (hits.filter (·.isGraph)) : ℤ) ≤ poolSize cfg cfg.quotaGraph →
      ∀ before, Fitting cfg.contextTokenBudget 0 (hits.filter fun h => !h.isGraph) before →
        (contextTokens before + contextTokens (hits.filter (·.isGraph)) : ℤ) ≤
          cfg.contextTokenBudget)

theorem fillContext_eq_self {budget : ℤ} {used : ℕ} {hits : List RetrievalHit}
    (h : (used + contextTokens hits : ℤ) ≤ budget) : (fillContext budget used hits).1 = hits :=
  (Fitting.eq_fillContext ⟨[], (List.append_nil hits).symm, h, by simp⟩).symm

/-- A larger budget takes more of the hits. -/
theorem sublist_fillContext_of_fitting {budget budget' : ℤ} {used : ℕ}
    {hits before : List RetrievalHit} (hle : budget' ≤ budget)
    (h : Fitting budget' used hits before) : before.Sublist (fillContext budget used hits).1 := by
  obtain ⟨after, rfl, hfits, -⟩ := h
  induction before generalizing used with
  | nil => exact List.nil_sublist _
  | cons x before ih =>
    rw [contextTokens_cons] at hfits
    push_cast at hfits
    rw [List.cons_append, fillContext_cons_of_le (by omega)]
    exact (ih (by push_cast; omega)).cons_cons x

/-- What is used already may be taken off the budget instead. -/
theorem fitting_sub {budget : ℤ} {used : ℕ} {hits before : List RetrievalHit} :
    Fitting (budget - used) 0 hits before ↔ Fitting budget used hits before := by
  have hshift (after : List RetrievalHit) :
      (((0 : ℕ) + contextTokens before : ℤ) ≤ budget - used ∧ ∀ h ∈ after.head?,
          budget - used < (0 : ℕ) + contextTokens before + h.chunk.tokenCount) ↔
        ((used + contextTokens before : ℤ) ≤ budget ∧ ∀ h ∈ after.head?,
          budget < used + contextTokens before + h.chunk.tokenCount) := by
    refine and_congr (by omega) (forall₂_congr fun h _ => by omega)
  exact exists_congr fun after => and_congr_right fun _ => hshift after

/-- Filling ends at the end of the hits, or at one that goes over the budget. -/
theorem exists_rest_fillContext (budget : ℤ) (used : ℕ) (hits : List RetrievalHit) :
    ∃ rest, hits = (fillContext budget used hits).1 ++ rest ∧ ∀ h ∈ rest.head?,
      budget < used + contextTokens (fillContext budget used hits).1 + h.chunk.tokenCount := by
  by_cases hused : (used : ℤ) ≤ budget
  · obtain ⟨rest, hsplit, _, hover⟩ : Fitting budget used hits _ := fitting_fillContext hused
    exact ⟨rest, hsplit, hover⟩
  · cases hits with
    | nil => exact ⟨[], rfl, by simp⟩
    | cons h hits =>
      have hlt : budget < used + h.chunk.tokenCount := by omega
      rw [fillContext_cons_of_lt hlt]
      refine ⟨h :: hits, rfl, fun x hx => ?_⟩
      cases hx
      simpa using hlt

/-- A pool is not larger than the budget. -/
theorem le_budget_of_le_poolSize {cfg : RetrievalConfig} {quota : ℚ} {tokens : ℕ}
    (hquota : 0 < quota) (hle : quota ≤ cfg.quotaDenseBm25 + cfg.quotaGraph)
    (h : (tokens : ℤ) ≤ poolSize cfg quota) : (tokens : ℤ) ≤ cfg.contextTokenBudget := by
  have hshare : (tokens : ℚ) * (cfg.quotaDenseBm25 + cfg.quotaGraph) ≤
      cfg.contextTokenBudget * quota := by
    rw [← le_div_iff₀ (hquota.trans_le hle)]
    exact_mod_cast Int.le_floor.mp h
  have htokens : (tokens : ℚ) * quota ≤ tokens * (cfg.quotaDenseBm25 + cfg.quotaGraph) :=
    mul_le_mul_of_nonneg_left hle (Nat.cast_nonneg tokens)
  exact_mod_cast le_of_mul_le_mul_right (htokens.trans hshare) hquota

/-! ## What the two fillings take -/

section Pools

variable (cfg : RetrievalConfig) (hits : List RetrievalHit)

def denseTaken : List RetrievalHit :=
  (fillContext cfg.contextTokenBudget 0 (hits.filter fun h => !h.isGraph)).1

def graphTaken : List RetrievalHit :=
  (fillContext cfg.contextTokenBudget (contextTokens (denseTaken cfg hits))
    (hits.filter (·.isGraph))).1

theorem assembledHits_eq : assembledHits cfg hits = denseTaken cfg hits ++ graphTaken cfg hits := by
  have hused := total_fillContext cfg.contextTokenBudget 0 (hits.filter fun h => !h.isGraph)
  rw [Nat.zero_add] at hused
  rw [assembledHits, hused]
  rfl

theorem dense_exhausts :
    Exhausts cfg (hits.filter fun h => !h.isGraph) (assembledHits cfg hits) := by
  obtain ⟨rest, hsplit, hover⟩ :=
    exists_rest_fillContext cfg.contextTokenBudget 0 (hits.filter fun h => !h.isGraph)
  refine ⟨_, rest, hsplit, ?_, fun h hh => ?_⟩
  · rw [assembledHits_eq]
    exact List.sublist_append_left _ _
  · have hlt := hover h hh
    rw [assembledHits_eq, contextTokens_append, denseTaken]
    push_cast at hlt ⊢
    omega

theorem graph_exhausts : Exhausts cfg (hits.filter (·.isGraph)) (assembledHits cfg hits) := by
  obtain ⟨rest, hsplit, hover⟩ := exists_rest_fillContext cfg.contextTokenBudget
    (contextTokens (denseTaken cfg hits)) (hits.filter (·.isGraph))
  refine ⟨_, rest, hsplit, ?_, fun h hh => ?_⟩
  · rw [assembledHits_eq]
    exact List.sublist_append_right _ _
  · have hlt := hover h hh
    rw [assembledHits_eq, contextTokens_append, graphTaken]
    push_cast at hlt ⊢
    omega

/-- The dense and keyword hits may use what the graph hits leave, and more. -/
theorem graph_lends : Lends cfg cfg.quotaGraph (hits.filter (·.isGraph))
    (hits.filter fun h => !h.isGraph) (assembledHits cfg hits) := by
  intro _ before hbefore
  rw [assembledHits_eq]
  exact (sublist_fillContext_of_fitting (by omega) hbefore).trans (List.sublist_append_left _ _)

theorem graphTaken_sublist_iff :
    (hits.filter (·.isGraph)).Sublist (assembledHits cfg hits) ↔
      graphTaken cfg hits = hits.filter (·.isGraph) := by
  rw [assembledHits_eq]
  constructor
  · intro hsub
    have hdense : (denseTaken cfg hits).filter (·.isGraph) = [] := by
      refine List.filter_eq_nil_iff.mpr fun h hh => ?_
      simpa using (List.mem_filter.mp (mem_fillContext hh)).2
    have hgraph : (graphTaken cfg hits).filter (·.isGraph) = graphTaken cfg hits :=
      List.filter_eq_self.mpr fun h hh => (List.mem_filter.mp (mem_fillContext hh)).2
    have hkept := hsub.filter (·.isGraph)
    rw [List.filter_append, hdense, hgraph, List.nil_append, List.filter_filter] at hkept
    have hall : (hits.filter (·.isGraph)).Sublist (graphTaken cfg hits) := by simpa using hkept
    exact (fillContext_sublist _ _ _).antisymm hall
  · intro heq
    rw [heq]
    exact List.sublist_append_right _ _

variable {cfg hits}

theorem denseTaken_eq (h : (contextTokens (hits.filter fun h => !h.isGraph) : ℤ) ≤
    cfg.contextTokenBudget) : denseTaken cfg hits = hits.filter fun h => !h.isGraph :=
  fillContext_eq_self (by simpa using h)

theorem dense_reserved (hdense : 0 < cfg.quotaDenseBm25) (hgraph : 0 < cfg.quotaGraph) :
    Reserved cfg cfg.quotaDenseBm25 (hits.filter fun h => !h.isGraph) (assembledHits cfg hits) := by
  intro hpool
  rw [assembledHits_eq, denseTaken_eq (le_budget_of_le_poolSize hdense (by linarith) hpool)]
  exact List.sublist_append_left _ _

theorem dense_lends (hdense : 0 < cfg.quotaDenseBm25) (hgraph : 0 < cfg.quotaGraph) :
    Lends cfg cfg.quotaDenseBm25 (hits.filter fun h => !h.isGraph) (hits.filter (·.isGraph))
      (assembledHits cfg hits) := by
  intro hpool before hbefore
  have htaken := denseTaken_eq (le_budget_of_le_poolSize hdense (by linarith) hpool)
  rw [assembledHits_eq, graphTaken, htaken, (fitting_sub.mp hbefore).eq_fillContext]
  exact List.sublist_append_right _ _

/-- The graph hits are all taken if the dense and keyword hits that fit leave room for them. -/
theorem graphTaken_eq_iff (hbudget : 0 ≤ cfg.contextTokenBudget) :
    graphTaken cfg hits = hits.filter (·.isGraph) ↔
      ∀ before, Fitting cfg.contextTokenBudget 0 (hits.filter fun h => !h.isGraph) before →
        (contextTokens before + contextTokens (hits.filter (·.isGraph)) : ℤ) ≤
          cfg.contextTokenBudget := by
  have hfit : Fitting cfg.contextTokenBudget 0 (hits.filter fun h => !h.isGraph)
      (denseTaken cfg hits) := fitting_fillContext (by simpa using hbudget)
  constructor
  · intro heq before hbefore
    obtain ⟨_, _, hused, _⟩ := hfit
    obtain ⟨_, _, hle, _⟩ : Fitting cfg.contextTokenBudget (contextTokens (denseTaken cfg hits))
        (hits.filter (·.isGraph)) (graphTaken cfg hits) :=
      fitting_fillContext (by simpa using hused)
    rw [hbefore.eq_fillContext]
    rw [heq] at hle
    exact hle
  · intro hroom
    exact fillContext_eq_self (hroom _ hfit)

theorem citable_taken_iff :
    (∀ taken, Taken cfg hits taken → ∀ h ∈ taken, Citable h) ↔
      ∀ h ∈ assembledHits cfg hits, Citable h := by
  by_cases hbudget : 0 ≤ cfg.contextTokenBudget
  · simp [taken_iff hbudget]
  · refine iff_of_true (fun taken htaken => ?_) ?_
    · exact absurd ((Int.natCast_nonneg _).trans (contextTokens_le_of_taken htaken)) hbudget
    · rw [assembledHits_of_neg (not_le.mp hbudget)]
      simp

end Pools

/-- The quotas hold exactly if the graph pool's part is safe from the dense and keyword hits. -/
theorem quotasHold_iff {cfg : RetrievalConfig} (hdense : 0 < cfg.quotaDenseBm25)
    (hgraph : 0 < cfg.quotaGraph) (hits : List RetrievalHit) :
    QuotasHold cfg hits ↔ GraphFits cfg hits := by
  have hroom (hpool : (contextTokens (hits.filter (·.isGraph)) : ℤ) ≤
      poolSize cfg cfg.quotaGraph) : 0 ≤ cfg.contextTokenBudget :=
    (Int.natCast_nonneg _).trans (le_budget_of_le_poolSize hgraph (by linarith) hpool)
  rw [GraphFits, citable_taken_iff]
  constructor
  · intro h
    refine ⟨(assemble_eq_ok_iff.mp h.returned).2.1, fun hpool => ?_⟩
    have hall := (graphTaken_sublist_iff cfg hits).mp (h.graph_reserved hpool)
    exact (graphTaken_eq_iff (hroom hpool)).mp hall
  · rintro ⟨hcitable, hfits⟩
    exact {
      returned := assemble_eq_ok_iff.mpr ⟨(add_pos hdense hgraph).ne', hcitable, rfl, rfl⟩
      graph_reserved := fun hpool => (graphTaken_sublist_iff cfg hits).mpr
        ((graphTaken_eq_iff (hroom hpool)).mpr (hfits hpool))
      dense_reserved := dense_reserved hdense hgraph
      graph_lends := graph_lends cfg hits
      dense_lends := dense_lends hdense hgraph
      graph_exhausts := graph_exhausts cfg hits
      dense_exhausts := dense_exhausts cfg hits }

section Sample

def sizedHit (source : RetrievalSource) (tokenCount : ℕ) : RetrievalHit where
  chunk := { chunkId := "chk_1", docId := "doc_1", kbId := "default", atomIds := [],
             text := "text", tokenCount }
  rrfScore := 1
  sources := [source]

theorem quotasHold_default : QuotasHold {} [sizedHit .dense 7, sizedHit .graphLow 3] ↔
    GraphFits {} [sizedHit .dense 7, sizedHit .graphLow 3] :=
  quotasHold_iff (by decide +kernel) (by decide +kernel) _

/-- A graph hit as large as its pool is left out, since a dense hit takes all of the budget. -/
theorem not_quotasHold_starved : ¬∀ (cfg : RetrievalConfig) (hits : List RetrievalHit),
    0 < cfg.quotaDenseBm25 → 0 < cfg.quotaGraph → QuotasHold cfg hits := by
  intro hall
  have hholds := hall { contextTokenBudget := 10 } [sizedHit .dense 10, sizedHit .graphLow 3]
    (by decide +kernel) (by decide +kernel)
  have hsub := hholds.graph_reserved (by decide +kernel)
  have htaken := (graphTaken_sublist_iff _ _).mp hsub
  have hlength := congrArg List.length htaken
  exact absurd hlength (by decide +kernel)

end Sample

end ContextAssembler

end Ragx
