import Mathlib.Data.List.Nodup
import Ragx.EventRuns
import Ragx.RagTraces
import Ragx.Sequencing

/-!
# The trace store

A table of traces with the trace id as its primary key, in which a new trace takes the
place of an old one with its id. The id comes from a header of the client, from the knowledge
base of an MCP call, or from the orchestrator. The store keeps what earlier queries have
saved exactly as long as every id is a new one.
-/
namespace Ragx

/-! ## The table -/

/-- A row of `rag_traces`. -/
structure TraceRow where
  traceId : String
  kbId : String
  mode : QueryMode
  query : String
  payload : RAGTrace
  costUsd : ℚ
  createdAt : ℚ

def TraceRow.ofTrace (createdAt : ℚ) (trace : RAGTrace) : TraceRow where
  traceId := trace.traceId
  kbId := trace.kbId
  mode := trace.mode
  query := trace.query
  payload := trace
  costUsd := trace.costUsd
  createdAt := createdAt

structure RAGTraceStore where
  rows : List TraceRow
  primary_key : (rows.map (·.traceId)).Nodup

namespace RAGTraceStore

def empty : RAGTraceStore := ⟨[], List.nodup_nil⟩

def ids (store : RAGTraceStore) : List String := store.rows.map (·.traceId)

/-- `INSERT OR REPLACE`: a row with the id is deleted first. -/
def save (store : RAGTraceStore) (now : ℚ) (trace : RAGTrace) : RAGTraceStore where
  rows := store.rows.filter (·.traceId ≠ trace.traceId) ++ [.ofTrace now trace]
  primary_key := by
    rw [List.map_append, List.nodup_append]
    refine ⟨store.primary_key.sublist (List.filter_sublist.map _), List.nodup_singleton _, ?_⟩
    intro id hid other hother
    obtain ⟨row, hrow, rfl⟩ := List.mem_map.mp hid
    rw [List.mem_singleton.mp hother]
    exact of_decide_eq_true (List.mem_filter.mp hrow).2

def get (store : RAGTraceStore) (traceId : String) : Option RAGTrace :=
  (store.rows.find? (·.traceId = traceId)).map (·.payload)

/-- Drops what was saved before the cutoff. -/
def cleanupExpired (store : RAGTraceStore) (now ttlDays : ℚ) : RAGTraceStore where
  rows := store.rows.filter fun row => now - ttlDays * 86400 ≤ row.createdAt
  primary_key := store.primary_key.sublist (List.filter_sublist.map _)

/-- The traces of one query, in the order in which they are saved. -/
def saveAll (store : RAGTraceStore) (now : ℚ) (traces : List RAGTrace) : RAGTraceStore :=
  traces.foldl (fun store trace => store.save now trace) store

variable {store : RAGTraceStore} {now : ℚ}

theorem rows_save {trace : RAGTrace} (h : trace.traceId ∉ store.ids) :
    (store.save now trace).rows = store.rows ++ [.ofTrace now trace] := by
  have hkept : store.rows.filter (·.traceId ≠ trace.traceId) = store.rows := by
    refine List.filter_eq_self.mpr fun row hrow => decide_eq_true fun heq => h ?_
    exact heq ▸ List.mem_map_of_mem hrow
  exact congrArg (· ++ [TraceRow.ofTrace now trace]) hkept

/-- Traces are only added if each of them has an id of its own. -/
theorem rows_saveAll_iff {traces : List RAGTrace} :
    (store.saveAll now traces).rows = store.rows ++ traces.map (.ofTrace now) ↔
      (store.ids ++ traces.map (·.traceId)).Nodup := by
  have hids : (store.rows ++ traces.map (TraceRow.ofTrace now)).map (·.traceId) =
      store.ids ++ traces.map (·.traceId) := by
    rw [List.map_append, List.map_map]
    rfl
  constructor
  · intro h
    rw [← hids, ← h]
    exact (store.saveAll now traces).primary_key
  · intro h
    clear hids
    induction traces generalizing store with
    | nil => simp [saveAll]
    | cons trace traces ih =>
      have hnew : trace.traceId ∉ store.ids := fun hm =>
        List.disjoint_of_nodup_append h hm List.mem_cons_self
      have hsaved : (store.save now trace).rows = store.rows ++ [.ofTrace now trace] :=
        rows_save hnew
      have hnext : ((store.save now trace).ids ++ traces.map (·.traceId)).Nodup := by
        rw [ids, hsaved, List.map_append, List.append_assoc]
        exact h
      refine (ih hnext).trans ?_
      rw [hsaved, List.map_cons, List.append_assoc]
      rfl

theorem get_of_mem {row : TraceRow} (h : row ∈ store.rows) :
    store.get row.traceId = some row.payload := by
  obtain ⟨found, hfound⟩ : ∃ found, store.rows.find? (·.traceId = row.traceId) = some found :=
    Option.isSome_iff_exists.mp (List.find?_isSome.mpr ⟨row, h, decide_eq_true rfl⟩)
  have hid : found.traceId = row.traceId := by simpa using List.find?_some hfound
  have heq : found = row :=
    List.inj_on_of_nodup_map store.primary_key (List.mem_of_find?_eq_some hfound) h hid
  rw [get, hfound, heq]
  rfl

end RAGTraceStore

/-! ## Queries and their ids -/

/-- `TraceMiddleware.dispatch`: a header of the right length is passed through. -/
def requestTraceId (incoming : Option String) (ulid : String) : String :=
  match incoming with
  | some incoming => if incoming.length = 26 then incoming else ulid
  | none => ulid

/-- Where the trace id of a query comes from. -/
inductive TraceOrigin where
  | rest (incoming : Option String) (ulid : String)
  | mcp

/-- A query with the world in which it is answered. -/
structure TracedQuery where
  services : Services
  registry : Registry
  kbId : String
  query : String
  qvec : List ℚ
  override : RequestOverride := {}
  origin : TraceOrigin

namespace TracedQuery

variable (kbCfg : KBConfig) (q : TracedQuery)

def traceId : String :=
  match q.origin with
  | .rest incoming ulid => requestTraceId incoming ulid
  | .mcp => "mcp-" ++ q.kbId

def outcome : Except Exc QueryOutcome :=
  (createApp kbCfg q.services q.registry).query q.services q.query q.qvec q.kbId q.traceId
    q.override none

/-- Neither route passes a filter. -/
def traces : List RAGTrace :=
  match q.outcome kbCfg with
  | .ok out => appTraces kbCfg q.services q.registry q.query q.qvec q.kbId q.traceId q.override
      none out.result
  | .error _ => []

/-- The query takes the agentic route and its run fails. -/
def degrades : Bool :=
  routeQuery kbCfg.flags (fun _ => false) q.query q.override = .agentic &&
    q.services.llm.any fun llm =>
      !((agenticOrchestrator kbCfg q.registry).runGraph q.services llm q.query q.kbId).isOk

/-- The ids of the traces that the query saves: its own, after the one of the orchestrator, under
which a fallback saves its trace. -/
def savedIds : List String :=
  match q.outcome kbCfg with
  | .ok _ => (if q.degrades kbCfg then [(agenticOrchestrator kbCfg q.registry).traceId] else []) ++
      [q.traceId]
  | .error _ => []

end TracedQuery

/-! ## Runs -/

inductive TraceEvent where
  | query (now : ℚ) (q : TracedQuery)
  | cleanup (now ttlDays : ℚ)

namespace RAGTraceStore

def step (kbCfg : KBConfig) (store : RAGTraceStore) : TraceEvent → Option RAGTraceStore
  | .query now q => some (store.saveAll now (q.traces kbCfg))
  | .cleanup now ttlDays => some (store.cleanupExpired now ttlDays)

/-- A query adds its traces after those of the earlier ones, and under its own id there is a trace
with its own text and knowledge base; only age removes a trace. -/
def AppendOnly (kbCfg : KBConfig) (store : RAGTraceStore) (e : TraceEvent)
    (store' : RAGTraceStore) : Prop :=
  match e with
  | .query now q => store'.rows = store.rows ++ (q.traces kbCfg).map (.ofTrace now) ∧
      (∀ out, q.outcome kbCfg = .ok out → ∃ trace, store'.get q.traceId = some trace ∧
        trace.kbId = q.kbId ∧ trace.query = q.query)
  | .cleanup now ttlDays => ∀ row, row ∈ store'.rows ↔
      row ∈ store.rows ∧ now - ttlDays * 86400 ≤ row.createdAt

/-- The query saves its traces under new ids. -/
def SavesUnderNewIds (kbCfg : KBConfig) (store : RAGTraceStore) : TraceEvent → Prop
  | .query _ q => (store.ids ++ q.savedIds kbCfg).Nodup
  | .cleanup .. => True

end RAGTraceStore

/-! ## What a query saves -/

theorem RAGTraceCollector.kbId_addLlmCalls (c : RAGTraceCollector) (calls : List TraceLLMCall) :
    (calls.foldl addLlmCall c).kbId = c.kbId ∧ (calls.foldl addLlmCall c).query = c.query := by
  induction calls generalizing c with
  | nil => exact ⟨rfl, rfl⟩
  | cons call calls ih => exact ih (c.addLlmCall call)

namespace TracedQuery

variable {kbCfg : KBConfig} {q : TracedQuery}

/-- The traces of the query are about it. -/
theorem about_of_mem_traces {trace : RAGTrace} (h : trace ∈ q.traces kbCfg) :
    trace.kbId = q.kbId ∧ trace.query = q.query := by
  have hstandard (svc : QueryService) (mode : QueryMode) (qvec : List ℚ) (traceId : String)
      (result : QueryResult) :
      (svc.standardTrace q.services mode q.query qvec q.kbId traceId none result).kbId = q.kbId ∧
        (svc.standardTrace q.services mode q.query qvec q.kbId traceId none result).query =
          q.query :=
    RAGTraceCollector.kbId_addLlmCalls _ _
  unfold traces at h
  split at h
  · unfold appTraces at h
    split at h
    · rcases List.mem_append.mp h with h | h
      · unfold AgenticOrchestrator.fallbackTraces at h
        split at h
        · rw [List.mem_singleton.mp h]
          exact hstandard _ _ _ _ _
        · exact absurd h List.not_mem_nil
      · rw [List.mem_singleton.mp h]
        exact ⟨rfl, rfl⟩
    · rw [List.mem_singleton.mp h]
      exact hstandard _ _ _ _ _
  · exact absurd h List.not_mem_nil

theorem degrades_eq_true : q.degrades kbCfg = true ↔
    routeQuery kbCfg.flags (fun _ => false) q.query q.override = .agentic ∧
      ∃ llm e, q.services.llm = some llm ∧
        (agenticOrchestrator kbCfg q.registry).runGraph q.services llm q.query q.kbId =
          .error e := by
  unfold degrades
  rw [Bool.and_eq_true, decide_eq_true_eq, Option.any_eq_true]
  refine and_congr_right fun _ => ⟨?_, ?_⟩
  · rintro ⟨llm, hllm, hrun⟩
    cases hr : (agenticOrchestrator kbCfg q.registry).runGraph q.services llm q.query q.kbId with
    | ok out =>
      rw [hr] at hrun
      cases hrun
    | error e => exact ⟨llm, e, hllm, hr⟩
  · rintro ⟨llm, e, hllm, hrun⟩
    exact ⟨llm, hllm, by rw [hrun]; rfl⟩

/-- The fallback of a failed run answers the query, so it saves its trace. -/
theorem map_traceId_fallbackTraces {llm : Llm} {out : QueryOutcome}
    (hllm : q.services.llm = some llm)
    (hroute : routeQuery kbCfg.flags (fun _ => false) q.query q.override = .agentic)
    (hout : q.outcome kbCfg = .ok out) :
    ((agenticOrchestrator kbCfg q.registry).fallbackTraces q.services llm q.query q.kbId).map
      (·.traceId) =
        if q.degrades kbCfg then [(agenticOrchestrator kbCfg q.registry).traceId] else [] := by
  have hrun : (agenticOrchestrator kbCfg q.registry).runAgentic q.services llm q.query q.kbId
      q.qvec = .ok out := (query_of_agentic hllm hroute).symm.trans hout
  unfold AgenticOrchestrator.runAgentic at hrun
  unfold AgenticOrchestrator.fallbackTraces
  cases hr : (agenticOrchestrator kbCfg q.registry).runGraph q.services llm q.query q.kbId with
  | ok found =>
    have hnot : ¬ q.degrades kbCfg = true := fun hdegrades => by
      obtain ⟨_, llm', e, hllm', he⟩ := degrades_eq_true.mp hdegrades
      rw [hllm] at hllm'
      cases hllm'
      rw [hr] at he
      cases he
    rw [if_neg hnot]
    rfl
  | error e =>
    rw [if_pos (degrades_eq_true.mpr ⟨hroute, llm, e, hllm, hr⟩)]
    rw [hr] at hrun
    obtain ⟨found, hfound, _⟩ := map_eq_ok_iff.mp hrun
    rw [hfound]
    exact congrArg (fun id => [id]) QueryService.traceId_standardTrace

theorem map_traceId_traces : (q.traces kbCfg).map (·.traceId) = q.savedIds kbCfg := by
  unfold traces savedIds
  cases hout : q.outcome kbCfg with
  | error e => rfl
  | ok out =>
    dsimp only
    unfold appTraces
    split
    · rename_i llm hroute hllm
      rw [List.map_append, map_traceId_fallbackTraces hllm hroute hout]
      rfl
    · rename_i hnot
      have hdegrades : ¬ q.degrades kbCfg = true := fun hdegrades => by
        obtain ⟨hroute, llm, _, hllm, _⟩ := degrades_eq_true.mp hdegrades
        exact hnot llm hroute hllm
      rw [if_neg hdegrades]
      exact congrArg (fun id => [id]) QueryService.traceId_standardTrace

end TracedQuery

namespace RAGTraceStore

variable {kbCfg : KBConfig} {store store' : RAGTraceStore} {e : TraceEvent}

theorem appendOnly_step (hs : step kbCfg store e = some store') :
    AppendOnly kbCfg store e store' ↔ SavesUnderNewIds kbCfg store e := by
  cases e with
  | cleanup now ttlDays =>
    cases hs
    refine iff_of_true (fun row => ?_) trivial
    simp [cleanupExpired]
  | query now q =>
    cases hs
    simp only [AppendOnly, SavesUnderNewIds, rows_saveAll_iff, TracedQuery.map_traceId_traces]
    refine and_iff_left_of_imp fun hnew out hout => ?_
    have hid : q.traceId ∈ (q.traces kbCfg).map (·.traceId) := by
      rw [TracedQuery.map_traceId_traces, TracedQuery.savedIds, hout]
      exact List.mem_append_right _ (List.mem_singleton.mpr rfl)
    obtain ⟨trace, htrace, hid⟩ := List.mem_map.mp hid
    have hrow : TraceRow.ofTrace now trace ∈ (store.saveAll now (q.traces kbCfg)).rows := by
      rw [rows_saveAll_iff.mpr (TracedQuery.map_traceId_traces.symm ▸ hnew)]
      exact List.mem_append_right _ (List.mem_map_of_mem htrace)
    exact ⟨trace, hid ▸ get_of_mem hrow, TracedQuery.about_of_mem_traces htrace⟩

/-- In a run that only adds, a saved trace can be read until a cleanup finds it too old. -/
theorem get_of_appendOnly {row : TraceRow} {events : List TraceEvent}
    (h : EveryStep (step kbCfg) (AppendOnly kbCfg) store events)
    (hrun : run (step kbCfg) store events = some store') (hrow : row ∈ store.rows)
    (hage : ∀ now ttlDays, .cleanup now ttlDays ∈ events → now - ttlDays * 86400 ≤ row.createdAt) :
    store'.get row.traceId = some row.payload := by
  induction events generalizing store with
  | nil =>
    cases hrun
    exact get_of_mem hrow
  | cons e events ih =>
    obtain ⟨next, hs, hrest⟩ := run_cons_eq_some hrun
    obtain ⟨happend, hafter⟩ := (everyStep_cons hs).mp h
    refine ih hafter hrest ?_ fun now ttlDays hm => hage now ttlDays (List.mem_cons_of_mem e hm)
    cases e with
    | query now q =>
      rw [happend.1]
      exact List.mem_append_left _ hrow
    | cleanup now ttlDays =>
      exact (happend row).mpr ⟨hrow, hage now ttlDays List.mem_cons_self⟩

/-- Every query of a run adds to the store, and nothing but age removes what it has saved, exactly
if every query of the run saves under new ids. -/
theorem appendOnly_iff (kbCfg : KBConfig) (store : RAGTraceStore) (events : List TraceEvent) :
    EveryStep (step kbCfg) (AppendOnly kbCfg) store events ↔
      EveryStep (step kbCfg) (fun store e _ => SavesUnderNewIds kbCfg store e) store events :=
  everyStep_congr (I := fun _ => True) (Q := fun store e _ => SavesUnderNewIds kbCfg store e)
    (fun _ _ _ _ hs => ⟨appendOnly_step hs, fun _ => trivial⟩) trivial

/-- Two MCP callers ask about one knowledge base. -/
def mcpQuestion (query : String) : TracedQuery where
  services := answeringServices plainSqlite 1
  registry := soleRegistry defaultChunk 1 emptyGraph
  kbId := "kb_a"
  query := query
  qvec := [0]
  origin := .mcp

theorem mcpQuestions_not_appendOnly :
    ¬ EveryStep (step {}) (AppendOnly {}) .empty
      [.query 0 (mcpQuestion "first"), .query 1 (mcpQuestion "second")] := by
  have hids (query : String) : (mcpQuestion query).savedIds {} = ["mcp-kb_a"] := by rfl
  intro h
  obtain ⟨⟨hfirst, -⟩, hsecond, -⟩ := h
  have hnew := (appendOnly_step rfl).mp hsecond
  have hstored : (empty.saveAll 0 ((mcpQuestion "first").traces {})).ids = ["mcp-kb_a"] := by
    rw [ids, hfirst, ← hids "first", ← TracedQuery.map_traceId_traces, List.map_append,
      List.map_map]
    rfl
  simp only [SavesUnderNewIds, hstored, hids] at hnew
  exact absurd hnew (by decide)

end RAGTraceStore

end Ragx
