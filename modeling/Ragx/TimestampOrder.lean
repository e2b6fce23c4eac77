import Ragx.ModelRouter
import Ragx.QuotaTwins
import Ragx.RagTraces

/-!
# Timestamps as texts

Cost records, traces and quota periods are stored with the ISO text of a time in UTC, and SQL
compares the texts. Such a comparison is one of the times, so a query takes the rows that have
been written since a time, and no others.
-/
namespace Ragx.Timestamps

open Calendar

/-! ## Rows -/

/-- A call that has been metered, with the time of its record. -/
structure MeteredCall where
  now : UtcDateTime
  traceId : String
  kbId : String
  tenantId : String
  role : LLMRole
  target : ProviderTarget
  usage : TokenUsage
  unitPrice : UnitPrice
  costUsd : ℚ
  cached : Bool := false

/-- A row of `cost_records`. -/
structure CostRow where
  traceId : String
  ts : String
  kbId : String
  tenantId : String
  role : String
  provider : String
  model : String
  promptTokens : ℕ
  completionTokens : ℕ
  unitPrice : UnitPrice
  costUsd : ℚ
  cached : Bool

def makeRecord (call : MeteredCall) : CostRow where
  traceId := call.traceId
  ts := call.now.isoformat
  kbId := call.kbId
  tenantId := call.tenantId
  role := call.role.value
  provider := call.target.provider
  model := call.target.model
  promptTokens := call.usage.promptTokens
  completionTokens := call.usage.completionTokens
  unitPrice := call.unitPrice
  costUsd := call.costUsd
  cached := call.cached

/-- A trace that has been saved at a time. -/
structure SavedTrace where
  now : UtcDateTime
  trace : RAGTrace

/-- A row of `rag_traces`. -/
structure StoredTrace where
  traceId : String
  kbId : String
  mode : QueryMode
  query : String
  payload : RAGTrace
  costUsd : ℚ
  createdAt : String

def SavedTrace.row (saved : SavedTrace) : StoredTrace where
  traceId := saved.trace.traceId
  kbId := saved.trace.kbId
  mode := saved.trace.mode
  query := saved.trace.query
  payload := saved.trace
  costUsd := saved.trace.costUsd
  createdAt := saved.now.isoformat

/-! ## Queries -/

/-- `SELECT COALESCE(SUM(cost_usd), 0) ... WHERE kb_id=? AND ts>=?`. -/
def sumDailyCost (now : UtcDateTime) (kbId : String) (rows : List CostRow) : ℚ :=
  let dayStart := now.midnight.isoformat
  ((rows.filter fun row => row.kbId = kbId ∧ dayStart ≤ row.ts).map (·.costUsd)).sum

/-- `DELETE FROM rag_traces WHERE created_at < ?`: the rows that stay, and how many do not. -/
def cleanupExpired (now : UtcDateTime) (ttlDays : ℤ) (rows : List StoredTrace) :
    Except Exc (List StoredTrace × ℕ) :=
  match now.daysBefore? ttlDays with
  | none => .error (.foreign "date value out of range")
  | some time =>
    let cutoff := time.isoformat
    .ok (rows.filter fun row => ¬ row.createdAt < cutoff,
      (rows.filter fun row => row.createdAt < cutoff).length)

/-! ## What the queries select -/

theorem isoformat_lt_iff_instant {s t : UtcDateTime} :
    s.isoformat < t.isoformat ↔ s.instant < t.instant := UtcDateTime.isoformat_lt_iff

theorem sumDailyCost_makeRecord (now : UtcDateTime) (kbId : String) (calls : List MeteredCall) :
    sumDailyCost now kbId (calls.map makeRecord) =
      ((calls.filter fun call => call.kbId = kbId ∧ now.midnight.instant ≤ call.now.instant).map
        (·.costUsd)).sum := by
  unfold sumDailyCost
  dsimp only
  rw [List.filter_map, List.map_map]
  have hselect : (calls.filter ((fun row : CostRow =>
      decide (row.kbId = kbId ∧ now.midnight.isoformat ≤ row.ts)) ∘ makeRecord)) =
      calls.filter fun call => call.kbId = kbId ∧ now.midnight.instant ≤ call.now.instant := by
    refine List.filter_congr fun call _ => decide_eq_decide.mpr (and_congr_right fun _ => ?_)
    exact UtcDateTime.isoformat_le_iff
  rw [hselect]
  rfl

theorem createdAt_lt_iff (saved : SavedTrace) (time : UtcDateTime) :
    saved.row.createdAt < time.isoformat ↔ (saved.now.instant : ℤ) < time.instant :=
  UtcDateTime.isoformat_lt_iff.trans Nat.cast_lt.symm

theorem cleanupExpired_row {now : UtcDateTime} {ttlDays : ℤ} {saves : List SavedTrace}
    {kept : List StoredTrace} {deleted : ℕ}
    (h : cleanupExpired now ttlDays (saves.map (·.row)) = .ok (kept, deleted)) :
    kept = (saves.filter fun saved =>
        (now.instant : ℤ) - ttlDays * dayLength ≤ saved.now.instant).map (·.row) ∧
      deleted = (saves.filter fun saved =>
        (saved.now.instant : ℤ) < now.instant - ttlDays * dayLength).length := by
  unfold cleanupExpired at h
  split at h
  case h_1 => exact nomatch h
  case h_2 time htime =>
    cases h
    rw [← UtcDateTime.instant_daysBefore htime, List.filter_map, List.filter_map, List.length_map]
    simp only [Function.comp_def, createdAt_lt_iff]
    simp only [not_lt, and_self]

/-- Only a cutoff outside of the calendar makes `cleanup_expired` raise. -/
theorem cleanupExpired_error {now : UtcDateTime} {ttlDays : ℤ} {rows : List StoredTrace} {e : Exc}
    (h : cleanupExpired now ttlDays rows = .error e) :
    (now.dayNumber : ℤ) - ttlDays < 1 ∨ (CivilDate.lastDay : ℤ) < now.dayNumber - ttlDays := by
  unfold cleanupExpired at h
  split at h
  case h_1 hnone => exact UtcDateTime.daysBefore_eq_none hnone
  case h_2 => exact nomatch h

theorem periodStart_le_iff {s t : UtcDateTime} :
    periodStart s ≤ t.isoformat ↔ s.monthStart.instant ≤ t.instant := UtcDateTime.isoformat_le_iff

/-- Texts of times sort like the times, and so every comparison of them takes the rows that it is
meant to take. -/
theorem timestamps_sort_and_select :
    (∀ s t : UtcDateTime, s.isoformat < t.isoformat ↔ s.instant < t.instant) ∧
    (∀ (now : UtcDateTime) (kbId : String) (calls : List MeteredCall),
      sumDailyCost now kbId (calls.map makeRecord) =
        ((calls.filter fun call =>
          call.kbId = kbId ∧ now.midnight.instant ≤ call.now.instant).map (·.costUsd)).sum) ∧
    (∀ (now : UtcDateTime) (ttlDays : ℤ) (saves : List SavedTrace),
      match cleanupExpired now ttlDays (saves.map (·.row)) with
      | .ok (kept, deleted) =>
        kept = (saves.filter fun saved =>
            (now.instant : ℤ) - ttlDays * dayLength ≤ saved.now.instant).map (·.row) ∧
          deleted = (saves.filter fun saved =>
            (saved.now.instant : ℤ) < now.instant - ttlDays * dayLength).length
      | .error _ => (now.dayNumber : ℤ) - ttlDays < 1 ∨
          (CivilDate.lastDay : ℤ) < now.dayNumber - ttlDays) ∧
    (∀ s t : UtcDateTime, (periodStart s = periodStart t ↔ SameMonth s t) ∧
      (periodStart s ≤ t.isoformat ↔ s.monthStart.instant ≤ t.instant)) := by
  refine ⟨fun s t => isoformat_lt_iff_instant, sumDailyCost_makeRecord, ?_,
    fun s t => ⟨periodStart_eq_iff, periodStart_le_iff⟩⟩
  intro now ttlDays saves
  split
  case h_1 h => exact cleanupExpired_row h
  case h_2 h => exact cleanupExpired_error h

example : newYear.midnight.isoformat = "2026-01-01T00:00:00+00:00" := by decide

end Ragx.Timestamps
