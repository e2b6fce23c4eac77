import Ragx.CircuitBreaker
import Ragx.ContextLimits
import Ragx.Sequencing
import Ragx.TokenCounter

/-!
# The context assembler

The assembler fills two pools one after the other, and keeps the texts and the citations of
what it takes. It adds up the tokens of the texts, but the context is the joined text: what
the counter rounds down in each of them, and the blank lines between them, may add up to
more tokens than the budget has left.
-/
namespace Ragx

namespace ContextAssembler

/-- The name of the file, if the metadata has one, is a text. -/
def Citable (h : RetrievalHit) : Prop :=
  ∀ value ∈ h.chunk.metadata.get? "filename", ∃ name, value = .str name

/-- `Citation(...)` refuses a file name that is no text. -/
def citation (h : RetrievalHit) : Except Exc Citation :=
  match h.chunk.metadata.get? "filename" with
  | none | some (.str _) => .ok (Citation.ofHit h)
  | some _ => .error (.foreign "1 validation error for Citation\nfilename")

structure Progress where
  used : ℕ := 0
  parts : List String := []
  citations : List Citation := []

/-- The limit of the pool is passed, and not read. -/
def fill (budget _limit : ℤ) (p : Progress) : List RetrievalHit → Except Exc Progress
  | [] => .ok p
  | h :: group =>
    if budget < p.used + h.chunk.tokenCount then .ok p
    else do
      let cited ← citation h
      fill budget _limit
        { used := p.used + h.chunk.tokenCount
          parts := p.parts ++ [h.chunk.text]
          citations := p.citations ++ [cited] } group

def assemble (cfg : RetrievalConfig) (hits : List RetrievalHit) :
    Except Exc (String × List Citation) :=
  let budget := cfg.contextTokenBudget
  let quotas := cfg.quotaDenseBm25 + cfg.quotaGraph
  if quotas = 0 then .error (.foreign "division by zero")
  else do
    let poolDb := budget * cfg.quotaDenseBm25 / quotas
    let poolG := budget * cfg.quotaGraph / quotas
    let filled ← fill budget (truncate poolDb) {} (hits.filter fun h => !h.isGraph)
    let filled ← fill budget (truncate poolG) filled (hits.filter (·.isGraph))
    return ("\n\n".intercalate filled.parts, filled.citations)

theorem citation_eq_ok_iff {h : RetrievalHit} {cited : Citation} :
    citation h = .ok cited ↔ Citable h ∧ cited = Citation.ofHit h := by
  unfold citation Citable
  cases h.chunk.metadata.get? "filename" with
  | none => simp [eq_comm]
  | some value => cases value <;> simp [eq_comm]

def Progress.add (p : Progress) (hits : List RetrievalHit) : Progress where
  used := p.used + contextTokens hits
  parts := p.parts ++ hits.map (·.chunk.text)
  citations := p.citations ++ hits.map Citation.ofHit

@[simp]
theorem Progress.add_nil (p : Progress) : p.add [] = p := by
  simp [add]

theorem Progress.add_add (p : Progress) (hits hits' : List RetrievalHit) :
    (p.add hits).add hits' = p.add (hits ++ hits') := by
  simp [add, Nat.add_assoc]

/-- A pool adds what fits into the whole budget, if that can be cited. -/
theorem fill_eq_ok_iff {budget limit : ℤ} {p out : Progress} {group : List RetrievalHit} :
    fill budget limit p group = .ok out ↔
      (∀ h ∈ (fillContext budget p.used group).1, Citable h) ∧
        out = p.add (fillContext budget p.used group).1 := by
  induction group generalizing p with
  | nil => simp [fill, eq_comm]
  | cons h group ih =>
    by_cases hlt : budget < p.used + h.chunk.tokenCount
    · rw [fillContext_cons_of_lt hlt, fill, if_pos hlt]
      simp [eq_comm]
    · have htokens : (p.add [h]).used = p.used + h.chunk.tokenCount := by simp [Progress.add]
      have hrest := @ih (p.add [h])
      rw [htokens, Progress.add_add, List.singleton_append] at hrest
      rw [fillContext_cons_of_le (not_lt.mp hlt), fill, if_neg hlt, List.forall_mem_cons]
      cases hcited : citation h with
      | error e =>
        have hnot : ¬Citable h := fun hc => by
          rw [citation_eq_ok_iff.mpr ⟨hc, rfl⟩] at hcited
          cases hcited
        exact iff_of_false (by rintro ⟨⟩) fun hall => hnot hall.1.1
      | ok cited =>
        obtain ⟨hc, rfl⟩ := citation_eq_ok_iff.mp hcited
        rw [and_iff_right hc]
        exact hrest

/-- What the assembler returns, when it does. -/
theorem assemble_eq_ok_iff {cfg : RetrievalConfig} {hits : List RetrievalHit} {context : String}
    {citations : List Citation} :
    assemble cfg hits = .ok (context, citations) ↔
      cfg.quotaDenseBm25 + cfg.quotaGraph ≠ 0 ∧ (∀ h ∈ assembledHits cfg hits, Citable h) ∧
        context = "\n\n".intercalate ((assembledHits cfg hits).map (·.chunk.text)) ∧
        citations = (assembledHits cfg hits).map Citation.ofHit := by
  by_cases hquotas : cfg.quotaDenseBm25 + cfg.quotaGraph = 0
  · rw [assemble, if_pos hquotas]
    exact iff_of_false (by rintro ⟨⟩) fun h => h.1 hquotas
  · let db := fillContext cfg.contextTokenBudget 0 (hits.filter fun h => !h.isGraph)
    have hused : (Progress.add {} db.1).used = db.2 := (total_fillContext _ _ _).symm
    have hparts (taken : List RetrievalHit) :
        (Progress.add {} taken).parts = taken.map (·.chunk.text) := List.nil_append _
    have hcitations (taken : List RetrievalHit) :
        (Progress.add {} taken).citations = taken.map Citation.ofHit := List.nil_append _
    rw [assemble, if_neg hquotas, and_iff_right hquotas, assembledHits, List.forall_mem_append]
    simp only [bind_eq_ok_iff, fill_eq_ok_iff]
    constructor
    · rintro ⟨_, ⟨hdb, rfl⟩, _, ⟨hgraph, rfl⟩, hreturn⟩
      rw [hused] at hgraph
      obtain ⟨rfl, rfl⟩ := Prod.mk.inj (Except.ok.inj hreturn)
      rw [Progress.add_add, hparts, hcitations, hused]
      exact ⟨⟨hdb, hgraph⟩, rfl, rfl⟩
    · rintro ⟨⟨hdb, hgraph⟩, rfl, rfl⟩
      refine ⟨_, ⟨hdb, rfl⟩, _, ⟨?_, rfl⟩, ?_⟩
      · rw [hused]
        exact hgraph
      · rw [Progress.add_add, hparts, hcitations, hused]
        rfl

/-! ## The budget -/

/-- The hits that fit into the budget: from the front of the dense and keyword hits, then from
the front of the graph hits. -/
def Taken (cfg : RetrievalConfig) (hits taken : List RetrievalHit) : Prop :=
  ∃ db graph, taken = db ++ graph ∧
    Fitting cfg.contextTokenBudget 0 (hits.filter fun h => !h.isGraph) db ∧
    Fitting cfg.contextTokenBudget (contextTokens db) (hits.filter (·.isGraph)) graph

/-- The context keeps to the budget. It is made of the texts of hits, and these are cited, in
the same order. -/
def KeepsBudget (cfg : RetrievalConfig) (hits : List RetrievalHit) : Prop :=
  ∃ (context : String) (cited : List RetrievalHit),
    assemble cfg hits = .ok (context, cited.map Citation.ofHit) ∧ cited.Subperm hits ∧
    context = "\n\n".intercalate (cited.map (·.chunk.text)) ∧
    HeuristicCounter.count context ≤ cfg.contextTokenBudget

/-- The assembler returns, and what is left of the budget has room for the tokens that the
rounding hides and the blank lines add. -/
def LeavesRoom (cfg : RetrievalConfig) (hits : List RetrievalHit) : Prop :=
  cfg.quotaDenseBm25 + cfg.quotaGraph ≠ 0 ∧ 0 ≤ cfg.contextTokenBudget ∧
    ∀ taken, Taken cfg hits taken →
      (∀ h ∈ taken, Citable h) ∧ (2 ≤ taken.length → 1 ≤ cfg.contextTokenBudget) ∧
        contextTokens taken + HeuristicCounter.joinExcess (taken.map (·.chunk.text)) ≤
          cfg.contextTokenBudget

theorem taken_iff {cfg : RetrievalConfig} (hbudget : 0 ≤ cfg.contextTokenBudget)
    (hits taken : List RetrievalHit) : Taken cfg hits taken ↔ taken = assembledHits cfg hits := by
  let db := fillContext cfg.contextTokenBudget 0 (hits.filter fun h => !h.isGraph)
  have hused : db.2 = contextTokens db.1 := by
    rw [total_fillContext, Nat.zero_add]
  have hdb : Fitting cfg.contextTokenBudget 0 (hits.filter fun h => !h.isGraph) db.1 :=
    fitting_fillContext (by simpa using hbudget)
  have hfits : (contextTokens db.1 : ℤ) ≤ cfg.contextTokenBudget := by
    obtain ⟨_, _, hle, _⟩ := hdb
    simpa using hle
  constructor
  · rintro ⟨before, graph, rfl, hbefore, hgraph⟩
    have hfirst : before = db.1 := hbefore.eq_fillContext
    subst hfirst
    rw [hgraph.eq_fillContext, ← hused]
    rfl
  · rintro rfl
    refine ⟨db.1, _, rfl, hdb, ?_⟩
    rw [hused]
    exact fitting_fillContext hfits

theorem contextTokens_le_of_taken {cfg : RetrievalConfig} {hits taken : List RetrievalHit}
    (h : Taken cfg hits taken) : (contextTokens taken : ℤ) ≤ cfg.contextTokenBudget := by
  obtain ⟨db, graph, rfl, _, _, _, hle, _⟩ := h
  rw [contextTokens_append]
  push_cast
  exact hle

theorem fillContext_sublist (budget : ℤ) (used : ℕ) (hits : List RetrievalHit) :
    (fillContext budget used hits).1.Sublist hits := by
  induction hits generalizing used with
  | nil => exact List.Sublist.refl _
  | cons h hits ih =>
    by_cases hlt : budget < used + h.chunk.tokenCount
    · rw [fillContext_cons_of_lt hlt]
      exact List.nil_sublist _
    · rw [fillContext_cons_of_le (not_lt.mp hlt)]
      exact (ih _).cons_cons h

theorem assembledHits_subperm (cfg : RetrievalConfig) (hits : List RetrievalHit) :
    (assembledHits cfg hits).Subperm hits := by
  have hpools : (assembledHits cfg hits).Sublist
      (hits.filter (fun h => !h.isGraph) ++ hits.filter (·.isGraph)) :=
    (fillContext_sublist _ _ _).append (fillContext_sublist _ _ _)
  refine hpools.subperm.trans (List.Perm.subperm ?_)
  exact List.perm_append_comm.trans (List.filter_append_perm (·.isGraph) hits)

/-- A negative budget is over before the first hit. -/
theorem assembledHits_of_neg {cfg : RetrievalConfig} (hbudget : cfg.contextTokenBudget < 0)
    (hits : List RetrievalHit) : assembledHits cfg hits = [] := by
  have hfill (group : List RetrievalHit) :
      fillContext cfg.contextTokenBudget 0 group = ([], 0) := by
    cases group with
    | nil => rfl
    | cons h group => exact fillContext_cons_of_lt (by omega)
  rw [assembledHits, hfill, hfill]
  rfl

theorem sum_count_texts {hits : List RetrievalHit}
    (h : ∀ x ∈ hits, (x.chunk.tokenCount : ℤ) = HeuristicCounter.count x.chunk.text) :
    ((hits.map (·.chunk.text)).map HeuristicCounter.count).sum = contextTokens hits := by
  induction hits with
  | nil => rfl
  | cons x hits ih =>
    obtain ⟨hx, hhits⟩ := List.forall_mem_cons.mp h
    simp only [List.map_cons, List.sum_cons, ih hhits, ← hx, contextTokens_cons, Nat.cast_add]

/-- With the counts of its hits right, the context keeps to the budget exactly if what is left of
it covers what joining the texts adds. -/
theorem keepsBudget_iff (cfg : RetrievalConfig) (hits : List RetrievalHit)
    (hcount : ∀ h ∈ hits, (h.chunk.tokenCount : ℤ) = HeuristicCounter.count h.chunk.text) :
    KeepsBudget cfg hits ↔ LeavesRoom cfg hits := by
  let taken := assembledHits cfg hits
  have hjoin (hbudget : 0 ≤ cfg.contextTokenBudget) :
      HeuristicCounter.count ("\n\n".intercalate (taken.map (·.chunk.text))) ≤
          cfg.contextTokenBudget ↔ (2 ≤ taken.length → 1 ≤ cfg.contextTokenBudget) ∧
        contextTokens taken + HeuristicCounter.joinExcess (taken.map (·.chunk.text)) ≤
          cfg.contextTokenBudget := by
    have hsum := sum_count_texts fun h hh => hcount h ((assembledHits_subperm cfg hits).subset hh)
    have hle := contextTokens_le_of_taken ((taken_iff hbudget hits taken).mpr rfl)
    have hiff := HeuristicCounter.count_join_le_iff (hsum.trans_le hle)
    rwa [hsum, List.length_map] at hiff
  constructor
  · rintro ⟨context, cited, hassemble, _, _, hle⟩
    obtain ⟨hquotas, hcitable, rfl, _⟩ := assemble_eq_ok_iff.mp hassemble
    have hbudget : 0 ≤ cfg.contextTokenBudget := (HeuristicCounter.count_nonneg _).trans hle
    refine ⟨hquotas, hbudget, fun other hother => ?_⟩
    obtain rfl := (taken_iff hbudget hits other).mp hother
    exact ⟨hcitable, (hjoin hbudget).mp hle⟩
  · rintro ⟨hquotas, hbudget, hroom⟩
    obtain ⟨hcitable, hfits⟩ := hroom taken ((taken_iff hbudget hits taken).mpr rfl)
    exact ⟨_, taken, assemble_eq_ok_iff.mpr ⟨hquotas, hcitable, rfl, rfl⟩,
      assembledHits_subperm cfg hits, rfl, (hjoin hbudget).mpr hfits⟩

section Sample

def shortHit (text : String) : RetrievalHit where
  chunk := { chunkId := "chk_" ++ text, docId := "doc_1", kbId := "default", atomIds := [],
             text, tokenCount := 1 }
  rrfScore := 1
  sources := [.dense]

theorem keepsBudget_oneHit : KeepsBudget { contextTokenBudget := 1 } [shortHit "a"] ↔
    LeavesRoom { contextTokenBudget := 1 } [shortHit "a"] :=
  keepsBudget_iff _ _ (by decide)

/-- Three words of a letter each are one token each, and four with the two blank lines. -/
theorem not_keepsBudget_threeHits : ¬∀ (cfg : RetrievalConfig) (hits : List RetrievalHit),
    (∀ h ∈ hits, (h.chunk.tokenCount : ℤ) = HeuristicCounter.count h.chunk.text) →
      KeepsBudget cfg hits := by
  intro hall
  let hits := [shortHit "a", shortHit "b", shortHit "c"]
  obtain ⟨context, cited, hassemble, _, _, hle⟩ :=
    hall { contextTokenBudget := 3 } hits (by decide)
  obtain ⟨_, _, rfl, _⟩ := assemble_eq_ok_iff.mp hassemble
  exact absurd hle (by decide +kernel)

end Sample

end ContextAssembler

end Ragx
