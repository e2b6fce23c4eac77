import Ragx.App
import Ragx.BudgetOverrides
import Ragx.RrfFusion

/-!
# The limits of a query

A request may limit the hits and the tokens of its context, and a knowledge base the tokens. The
application takes neither: it retrieves and assembles under the defaults. So a limit is kept when
the defaults happen to be the stricter ones, or there is little to retrieve.
-/
namespace Ragx

def contextTokens (hits : List RetrievalHit) : ℕ := (hits.map (·.chunk.tokenCount)).sum

@[simp]
theorem contextTokens_nil : contextTokens [] = 0 := rfl

@[simp]
theorem contextTokens_cons (h : RetrievalHit) (hits : List RetrievalHit) :
    contextTokens (h :: hits) = h.chunk.tokenCount + contextTokens hits := by
  simp [contextTokens]

@[simp]
theorem contextTokens_append (hits hits' : List RetrievalHit) :
    contextTokens (hits ++ hits') = contextTokens hits + contextTokens hits' := by
  simp [contextTokens]

/-! ## Filling under two budgets -/

/-- `before` is what fits into the budget, from the front of the hits. -/
def Fitting (budget : ℤ) (used : ℕ) (hits before : List RetrievalHit) : Prop :=
  ∃ after, hits = before ++ after ∧ (used + contextTokens before : ℤ) ≤ budget ∧
    ∀ h ∈ after.head?, budget < used + contextTokens before + h.chunk.tokenCount

/-- The first hit that goes over the limit goes over the budget as well. -/
def CutsTogether (limit : ℚ) (budget : ℤ) (used : ℕ) (hits : List RetrievalHit) : Prop :=
  ∀ before h after, hits = before ++ h :: after → (used + contextTokens before : ℚ) ≤ limit →
    limit < used + contextTokens before + h.chunk.tokenCount →
      budget < used + contextTokens before + h.chunk.tokenCount

section Fill

variable {budget : ℤ} {limit : ℚ} {used : ℕ} {hits : List RetrievalHit}

theorem fillContext_cons_of_lt {h : RetrievalHit} (hlt : budget < used + h.chunk.tokenCount) :
    fillContext budget used (h :: hits) = ([], used) := by
  rw [fillContext, if_pos hlt]

theorem fillContext_cons_of_le {h : RetrievalHit} (hle : used + h.chunk.tokenCount ≤ budget) :
    fillContext budget used (h :: hits) =
      (h :: (fillContext budget (used + h.chunk.tokenCount) hits).1,
        (fillContext budget (used + h.chunk.tokenCount) hits).2) := by
  rw [fillContext, if_neg (not_lt.mpr hle)]

theorem total_fillContext (budget : ℤ) (used : ℕ) (hits : List RetrievalHit) :
    (fillContext budget used hits).2 = used + contextTokens (fillContext budget used hits).1 := by
  induction hits generalizing used with
  | nil => simp
  | cons h hits ih =>
    by_cases hlt : budget < used + h.chunk.tokenCount
    · rw [fillContext_cons_of_lt hlt]
      simp
    · rw [fillContext_cons_of_le (not_lt.mp hlt), ih, contextTokens_cons]
      omega

theorem fitting_fillContext (hused : (used : ℤ) ≤ budget) :
    Fitting budget used hits (fillContext budget used hits).1 := by
  induction hits generalizing used with
  | nil =>
    refine ⟨[], rfl, by simpa using hused, fun x hx => ?_⟩
    cases hx
  | cons h hits ih =>
    by_cases hlt : budget < used + h.chunk.tokenCount
    · rw [fillContext_cons_of_lt hlt]
      refine ⟨h :: hits, rfl, by simpa using hused, fun x hx => ?_⟩
      cases hx
      simpa using hlt
    · have hle := not_lt.mp hlt
      have hnext : ((used + h.chunk.tokenCount : ℕ) : ℤ) ≤ budget := by exact_mod_cast hle
      obtain ⟨after, hsplit, hfits, hover⟩ := ih hnext
      rw [fillContext_cons_of_le hle]
      refine ⟨after, congrArg (h :: ·) hsplit, ?_, fun x hx => ?_⟩
      · rw [contextTokens_cons]
        push_cast at hfits ⊢
        omega
      · have hx := hover x hx
        rw [contextTokens_cons]
        push_cast at hx ⊢
        omega

theorem Fitting.eq_fillContext {before : List RetrievalHit} (h : Fitting budget used hits before) :
    before = (fillContext budget used hits).1 := by
  obtain ⟨after, rfl, hfits, hover⟩ := h
  induction before generalizing used with
  | nil =>
    cases after with
    | nil => rfl
    | cons x after =>
      have hx := hover x rfl
      rw [contextTokens_nil] at hx
      rw [List.nil_append, fillContext_cons_of_lt (by push_cast at hx; omega)]
  | cons x before ih =>
    rw [contextTokens_cons] at hfits hover
    have hle : used + x.chunk.tokenCount ≤ budget := by
      push_cast at hfits
      omega
    rw [List.cons_append, fillContext_cons_of_le hle]
    refine congrArg (x :: ·) (ih ?_ fun h hh => ?_)
    · push_cast at hfits ⊢
      omega
    · have hh := hover h hh
      push_cast at hh ⊢
      omega

theorem cutsTogether_cons {h : RetrievalHit} (hused : (used : ℚ) ≤ limit) :
    CutsTogether limit budget used (h :: hits) ↔
      (limit < used + h.chunk.tokenCount → budget < used + h.chunk.tokenCount) ∧
        CutsTogether limit budget (used + h.chunk.tokenCount) hits := by
  constructor
  · intro hcut
    refine ⟨fun hover => ?_, fun before x after hsplit hfits hover => ?_⟩
    · simpa using hcut [] h hits rfl (by simpa using hused) (by simpa using hover)
    · have hx := hcut (h :: before) x after (congrArg (h :: ·) hsplit)
      simp only [contextTokens_cons, Nat.cast_add, ← add_assoc] at hx hfits hover ⊢
      exact hx hfits hover
  · rintro ⟨hfirst, hrest⟩ before x after hsplit hfits hover
    cases before with
    | nil =>
      cases hsplit
      simp only [contextTokens_nil, Nat.cast_zero, add_zero] at hover ⊢
      exact hfirst hover
    | cons y before =>
      cases hsplit
      have hx := hrest before x after rfl
      simp only [contextTokens_cons, Nat.cast_add, ← add_assoc] at hx hfits hover ⊢
      exact hx hfits hover

theorem cutsTogether_of_lt (hlt : budget < used) : CutsTogether limit budget used hits := by
  intro before h after _ _ _
  omega

theorem le_total_fillContext (budget : ℤ) (used : ℕ) (hits : List RetrievalHit) :
    used ≤ (fillContext budget used hits).2 := by
  rw [total_fillContext]
  exact Nat.le_add_right _ _

/-- A limit is kept by the budget when both end the filling at the same hit. -/
theorem total_fillContext_le_iff (hused : (used : ℚ) ≤ limit) :
    ((fillContext budget used hits).2 : ℚ) ≤ limit ↔ CutsTogether limit budget used hits := by
  induction hits generalizing used with
  | nil => exact ⟨fun _ before h after hsplit => by simp at hsplit, fun _ => hused⟩
  | cons h hits ih =>
    rw [cutsTogether_cons hused]
    by_cases hlt : budget < used + h.chunk.tokenCount
    · rw [fillContext_cons_of_lt hlt]
      exact iff_of_true hused ⟨fun _ => hlt, cutsTogether_of_lt (by exact_mod_cast hlt)⟩
    · rw [fillContext_cons_of_le (not_lt.mp hlt)]
      by_cases hlimit : (used + h.chunk.tokenCount : ℚ) ≤ limit
      · rw [ih (by exact_mod_cast hlimit)]
        exact (and_iff_right fun hover => absurd hlimit (not_le.mpr hover)).symm
      · refine iff_of_false (fun htotal => hlimit ?_) fun hcut => hlt (hcut.1 (not_le.mp hlimit))
        have hle := le_total_fillContext budget (used + h.chunk.tokenCount) hits
        exact le_trans (by exact_mod_cast hle) htotal

/-- The second list is filled in after what fits of the first one. -/
theorem total_refill_le_iff {db graph : List RetrievalHit} (hbudget : 0 ≤ budget) :
    ((fillContext budget (fillContext budget 0 db).2 graph).2 : ℚ) ≤ limit ↔
      0 ≤ limit ∧ CutsTogether limit budget 0 db ∧
        ∀ before, Fitting budget 0 db before →
          CutsTogether limit budget (contextTokens before) graph := by
  have hdb : (fillContext budget 0 db).2 = contextTokens (fillContext budget 0 db).1 := by
    rw [total_fillContext, Nat.zero_add]
  have hsecond : (∀ before, Fitting budget 0 db before →
      CutsTogether limit budget (contextTokens before) graph) ↔
        CutsTogether limit budget (fillContext budget 0 db).2 graph := by
    rw [hdb]
    refine ⟨fun h => h _ (fitting_fillContext (by simpa using hbudget)), fun h before hfit => ?_⟩
    rw [hfit.eq_fillContext]
    exact h
  rw [hsecond]
  constructor
  · intro h
    have hle := le_total_fillContext budget (fillContext budget 0 db).2 graph
    have hfirst : ((fillContext budget 0 db).2 : ℚ) ≤ limit := le_trans (by exact_mod_cast hle) h
    have hlimit : ((0 : ℕ) : ℚ) ≤ limit := le_trans (Nat.cast_le.mpr (Nat.zero_le _)) hfirst
    exact ⟨by simpa using hlimit, (total_fillContext_le_iff hlimit).mp hfirst,
      (total_fillContext_le_iff hfirst).mp h⟩
  · rintro ⟨hlimit, hfirst, hrest⟩
    have hdense := (total_fillContext_le_iff (by simpa using hlimit)).mpr hfirst
    exact (total_fillContext_le_iff hdense).mpr hrest

end Fill

theorem contextTokens_assembledHits (cfg : RetrievalConfig) (hits : List RetrievalHit) :
    contextTokens (assembledHits cfg hits) = (fillContext cfg.contextTokenBudget
      (fillContext cfg.contextTokenBudget 0 (hits.filter fun h => !h.isGraph)).2
      (hits.filter (·.isGraph))).2 := by
  have hdb := total_fillContext cfg.contextTokenBudget 0 (hits.filter fun h => !h.isGraph)
  rw [Nat.zero_add] at hdb
  rw [total_fillContext, assembledHits, contextTokens_append, ← hdb]

/-! ## The limits of a request -/

/-- The tokens that a query may take: as the request has it, or the knowledge base. -/
def tokenLimit (kbCfg : KBConfig) (override : RequestOverride) : ℚ :=
  (override.budgets.bind (·.get? "context_token_budget")).getD kbCfg.budgets.contextTokenBudget

/-- What the standard path hands to the assembler, which an empty recall does not reach. -/
def QueryService.assemblerInput (svc : QueryService) (s : Services) (query : String)
    (qvec : List ℚ) (kbId : String) (filter : Option FilterExpr) : Option (List RetrievalHit) :=
  match (svc.retrieverFor kbId).retrieve s.db query qvec (some (excludeCache filter)) with
  | .ok (h :: hits) => some (h :: hits)
  | _ => none

theorem QueryService.mem_assemblerInput_of_retrieve {svc : QueryService} {s : Services}
    {query : String} {qvec : List ℚ} {kbId : String} {filter : Option FilterExpr}
    {h : RetrievalHit} {hits : List RetrievalHit}
    (hr : (svc.retrieverFor kbId).retrieve s.db query qvec (some (excludeCache filter)) =
      .ok (h :: hits)) : h :: hits ∈ svc.assemblerInput s query qvec kbId filter := by
  rw [assemblerInput, hr]
  rfl

theorem used_of_assemble {cfg : RetrievalConfig} {hits used : List RetrievalHit}
    {context : String} (h : assemble cfg hits = .ok (context, used)) :
    used = assembledHits cfg hits := by
  unfold assemble at h
  split_ifs at h
  cases h
  rfl

/-- A standard query cites what is assembled from that. -/
theorem QueryService.cited_queryStandard {svc : QueryService} {s : Services} {query : String}
    {qvec : List ℚ} {kbId traceId : String} {filter : Option FilterExpr} {out : QueryOutcome}
    (hq : svc.queryStandard s query qvec kbId traceId filter = .ok out) :
    out.cited = ((svc.assemblerInput s query qvec kbId filter).map
      (assembledHits svc.cfg)).getD [] := by
  obtain ⟨hits, hr, ⟨rfl, rfl⟩ | ⟨hne, context, used, answer, ha, _, rfl⟩⟩ :=
    exists_hits_queryStandard hq
  · rw [assemblerInput, hr]
    rfl
  · obtain ⟨h, rest, rfl⟩ := List.exists_cons_of_ne_nil hne
    rw [mem_assemblerInput_of_retrieve hr]
    exact used_of_assemble ha

/-- What is handed to the assembler, and what is assembled, are within the limits. -/
structure WithinLimits (kbCfg : KBConfig) (s : Services) (reg : Registry)
    (override : RequestOverride) (query : String) (qvec : List ℚ) (kbId : String)
    (filter : Option FilterExpr) : Prop where
  rerankTopK : ∀ hits ∈ (createApp kbCfg s reg).assemblerInput s query qvec kbId filter,
    ∀ k ∈ override.rerankTopK, hits.length ≤ k
  budget : ∀ hits ∈ (createApp kbCfg s reg).assemblerInput s query qvec kbId filter,
    ∀ context used, assemble (createApp kbCfg s reg).cfg hits = .ok (context, used) →
      (contextTokens used : ℚ) ≤ tokenLimit kbCfg override

/-- The chunks that the routes recall. -/
def recalledIds (raw : RouteResults) : Finset String :=
  (raw.entries.flatMap fun route => routeIds route.2).toFinset

/-- Under the limits, the defaults are the stricter ones for what is recalled. -/
structure DefaultsStricter (kbCfg : KBConfig) (override : RequestOverride) (raw : RouteResults) :
    Prop where
  rerankTopK : ∀ k ∈ override.rerankTopK, 8 ≤ k ∨ (recalledIds raw).card ≤ k
  budget : (recalledIds raw).Nonempty →
    let ranked := (rrfFuse {} raw).take 8
    0 ≤ tokenLimit kbCfg override ∧
      CutsTogether (tokenLimit kbCfg override) 4096 0 (ranked.filter fun h => !h.isGraph) ∧
        ∀ before, Fitting 4096 0 (ranked.filter fun h => !h.isGraph) before →
          CutsTogether (tokenLimit kbCfg override) 4096 (contextTokens before)
            (ranked.filter (·.isGraph))

theorem mem_recalledIds {raw : RouteResults} {cid : String} :
    cid ∈ recalledIds raw ↔ Recalled raw cid := by
  rw [recalledIds, List.mem_toFinset, List.mem_flatMap]
  rfl

theorem length_rrfFuse (cfg : RetrievalConfig) (raw : RouteResults) :
    (rrfFuse cfg raw).length = (recalledIds raw).card := by
  have hids : ((rrfFuse cfg raw).map (·.chunk.chunkId)).toFinset = recalledIds raw := by
    ext cid
    rw [List.mem_toFinset, mem_ids_rrfFuse, mem_recalledIds]
  have hnodup : ((rrfFuse cfg raw).map (·.chunk.chunkId)).Nodup := by
    rw [ids_rrfFuse]
    exact OrderedDict.nodup _
  rw [← hids, List.toFinset_card_of_nodup hnodup, List.length_map]

/-- What the routes of the knowledge base recall, with the cache left out. -/
def recalled (kbCfg : KBConfig) (s : Services) (reg : Registry) (query : String) (qvec : List ℚ)
    (kbId : String) (filter : Option FilterExpr) : RouteResults :=
  (reg.retriever kbCfg {} kbId).raw s.db query qvec (some (QueryService.excludeCache filter))

section Limits

variable {kbCfg : KBConfig} {s : Services} {reg : Registry} {override : RequestOverride}
  {query : String} {qvec : List ℚ} {kbId : String} {filter : Option FilterExpr}

theorem createApp_eq (kbCfg : KBConfig) (s : Services) (reg : Registry) :
    (createApp kbCfg s reg).cfg = {} ∧
      ∀ kbId, (createApp kbCfg s reg).retrieverFor kbId = reg.retriever kbCfg {} kbId := by
  unfold createApp
  split
  · exact ⟨rfl, fun _ => rfl⟩
  · exact ⟨rfl, fun _ => rfl⟩

/-- At most eight hits of the fused list, if there are any. -/
theorem mem_assemblerInput {hits : List RetrievalHit} :
    hits ∈ (createApp kbCfg s reg).assemblerInput s query qvec kbId filter ↔
      hits = (rrfFuse {} (recalled kbCfg s reg query qvec kbId filter)).take 8 ∧ hits ≠ [] := by
  have hretrieve : (reg.retriever kbCfg {} kbId).retrieve s.db query qvec
      (some (QueryService.excludeCache filter)) =
        .ok ((rrfFuse {} (recalled kbCfg s reg query qvec kbId filter)).take 8) :=
    rerank_none {} query _ (by decide)
  rw [QueryService.assemblerInput, (createApp_eq kbCfg s reg).2, hretrieve]
  cases (rrfFuse {} (recalled kbCfg s reg query qvec kbId filter)).take 8 with
  | nil => simp
  | cons h rest =>
    constructor
    · intro hmem
      cases hmem
      exact ⟨rfl, List.cons_ne_nil h rest⟩
    · rintro ⟨rfl, _⟩
      rfl

theorem take_rrfFuse_ne_nil (raw : RouteResults) :
    (rrfFuse {} raw).take 8 ≠ [] ↔ (recalledIds raw).Nonempty := by
  rw [← Finset.card_pos, ← length_rrfFuse {}, ← List.length_pos_iff, List.length_take]
  omega

theorem rerankTopK_iff : (∀ hits ∈ (createApp kbCfg s reg).assemblerInput s query qvec kbId filter,
    ∀ k ∈ override.rerankTopK, hits.length ≤ k) ↔ ∀ k ∈ override.rerankTopK, 8 ≤ k ∨
      (recalledIds (recalled kbCfg s reg query qvec kbId filter)).card ≤ k := by
  have hlength : ((rrfFuse {} (recalled kbCfg s reg query qvec kbId filter)).take 8).length =
      min 8 (recalledIds (recalled kbCfg s reg query qvec kbId filter)).card := by
    rw [List.length_take, length_rrfFuse]
  constructor
  · intro h k hk
    by_cases hnonempty : (recalledIds (recalled kbCfg s reg query qvec kbId filter)).Nonempty
    · have hle := h _ (mem_assemblerInput.mpr ⟨rfl, (take_rrfFuse_ne_nil _).mpr hnonempty⟩) k hk
      rw [hlength] at hle
      omega
    · rw [Finset.not_nonempty_iff_eq_empty.mp hnonempty, Finset.card_empty]
      exact Or.inr (Nat.zero_le k)
  · intro h hits hmem k hk
    obtain ⟨rfl, _⟩ := mem_assemblerInput.mp hmem
    have hk := h k hk
    rw [hlength]
    omega

theorem assemble_createApp (kbCfg : KBConfig) (s : Services) (reg : Registry)
    (hits : List RetrievalHit) : ∃ context,
    assemble (createApp kbCfg s reg).cfg hits = .ok (context, assembledHits {} hits) := by
  have hquota : ({} : RetrievalConfig).quotaDenseBm25 + ({} : RetrievalConfig).quotaGraph ≠ 0 := by
    decide +kernel
  rw [(createApp_eq kbCfg s reg).1, assemble, if_neg hquota]
  exact ⟨_, rfl⟩

theorem budget_iff {limit : ℚ} :
    (∀ hits ∈ (createApp kbCfg s reg).assemblerInput s query qvec kbId filter,
      ∀ context used, assemble (createApp kbCfg s reg).cfg hits = .ok (context, used) →
        (contextTokens used : ℚ) ≤ limit) ↔
      ((recalledIds (recalled kbCfg s reg query qvec kbId filter)).Nonempty →
        (contextTokens (assembledHits {}
          ((rrfFuse {} (recalled kbCfg s reg query qvec kbId filter)).take 8)) : ℚ) ≤ limit) := by
  constructor
  · intro h hnonempty
    obtain ⟨context, hassemble⟩ := assemble_createApp kbCfg s reg
      ((rrfFuse {} (recalled kbCfg s reg query qvec kbId filter)).take 8)
    exact h _ (mem_assemblerInput.mpr ⟨rfl, (take_rrfFuse_ne_nil _).mpr hnonempty⟩) context _
      hassemble
  · intro h hits hmem context used hassemble
    obtain ⟨rfl, hne⟩ := mem_assemblerInput.mp hmem
    rw [(createApp_eq kbCfg s reg).1] at hassemble
    rw [used_of_assemble hassemble]
    exact h ((take_rrfFuse_ne_nil _).mp hne)

theorem withinLimits_iff : WithinLimits kbCfg s reg override query qvec kbId filter ↔
    DefaultsStricter kbCfg override (recalled kbCfg s reg query qvec kbId filter) := by
  have hdefault : ({} : RetrievalConfig).contextTokenBudget = 4096 := rfl
  have hfill (hits : List RetrievalHit) (limit : ℚ) :
      ((fillContext 4096 (fillContext 4096 0 (hits.filter fun h => !h.isGraph)).2
        (hits.filter (·.isGraph))).2 : ℚ) ≤ limit ↔ _ := total_refill_le_iff (by decide)
  constructor
  · rintro ⟨hrerank, hbudget⟩
    refine ⟨rerankTopK_iff.mp hrerank, fun hnonempty => ?_⟩
    have htokens := budget_iff.mp hbudget hnonempty
    rw [contextTokens_assembledHits, hdefault] at htokens
    exact (hfill _ _).mp htokens
  · rintro ⟨hrerank, hbudget⟩
    refine ⟨rerankTopK_iff.mpr hrerank, budget_iff.mpr fun hnonempty => ?_⟩
    rw [contextTokens_assembledHits, hdefault]
    exact (hfill _ _).mpr (hbudget hnonempty)

end Limits

/-- The limits and the override are effective in these cases, and in no other. -/
theorem configEffective_iff (kbCfg : KBConfig) (s : Services) (reg : Registry)
    (override : RequestOverride) (query : String) (qvec : List ℚ) (kbId : String)
    (filter : Option FilterExpr) (reader : NumberReader) (heap : List KBConfig)
    (base : Fin heap.length) (budgets : Option (OrderedDict String Json)) :
    (WithinLimits kbCfg s reg override query qvec kbId filter ↔
      DefaultsStricter kbCfg override (recalled kbCfg s reg query qvec kbId filter)) ∧
    (OverridesBudgets reader heap base budgets ↔
      ∀ key ∈ (budgets.getD .empty).keys, key ∈ overridable) :=
  ⟨withinLimits_iff, overridesBudgets_iff⟩

section Sample

/-- Numbers are read, and nothing else. -/
def plainReader : NumberReader where
  int?
    | .num q => if q.den = 1 then some q.num else none
    | _ => none
  float?
    | .num q => some q
    | _ => none
  int?_num n := by simp
  float?_num _ := rfl

def longChunk : Chunk := { defaultChunk with tokenCount := 200 }

/-- A request for 128 tokens. -/
def smallContext : RequestOverride where
  budgets := some (.ofList [("context_token_budget", 128)])

/-- A chunk that is too long for the request is assembled, and an override of `rerank_top_k` is
not refused. -/
theorem not_configEffective_smallContext :
    ¬ WithinLimits {} (answeringServices plainSqlite 1) (soleRegistry longChunk 1 emptyGraph)
        smallContext "text" [0] defaultKb none ∧
      ¬ OverridesBudgets plainReader [{}] 0
        (some (.ofList [("rerank_top_k", .num 3)])) := by
  constructor
  · intro hlimits
    have hpass : satisfiedBy plainSqlite (some (QueryService.excludeCache none)) longChunk = true :=
      by decide
    obtain ⟨h, hretrieve, hchunk⟩ :=
      (seesOnly_soleRegistry {} longChunk 1 emptyGraph).retrieve_dense "text" hpass
    have hfound : (((createApp {} (answeringServices plainSqlite 1)
        (soleRegistry longChunk 1 emptyGraph)).retrieverFor defaultKb).retrieve plainSqlite
          "text" [0] (some (QueryService.excludeCache none))) = .ok [h] := by
      rw [(createApp_eq _ _ _).2]
      exact hretrieve
    have hinput := QueryService.mem_assemblerInput_of_retrieve
      (s := answeringServices plainSqlite 1) hfound
    have hlong : h.chunk.tokenCount = 200 := by rw [hchunk]; rfl
    obtain ⟨context, hassemble⟩ := assemble_default (hlong.le.trans (by decide))
    have htokens := hlimits.budget [h] hinput context [h] (by
      rw [(createApp_eq _ _ _).1]
      exact hassemble)
    rw [contextTokens_cons, hlong] at htokens
    exact absurd htokens (by decide +kernel)
  · rw [overridesBudgets_iff]
    intro hkeys
    have hkey := hkeys "rerank_top_k" (by decide)
    simp [overridable] at hkey

end Sample

end Ragx
