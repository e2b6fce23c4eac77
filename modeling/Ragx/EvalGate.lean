import Mathlib.Data.List.ReduceOption
import Ragx.ProviderReplies
import Ragx.QueryService
import Ragx.Sequencing

/-!
# The evaluation gate

Every case of an eval set is asked and scored, and the scores are compared with those of a
baseline. A case that raises gets a score of NaN in every metric, and what is NaN on either
side is not compared.
-/
namespace Ragx

/-! ## Floats -/

namespace PyFloat

def sub : PyFloat → PyFloat → PyFloat
  | .finite p, .finite q => .finite (p - q)
  | .finite _, .infinity => .negInfinity
  | .finite _, .negInfinity => .infinity
  | .infinity, .finite _ => .infinity
  | .infinity, .negInfinity => .infinity
  | .negInfinity, .finite _ => .negInfinity
  | .negInfinity, .infinity => .negInfinity
  | _, _ => .nan

/-- `x > y`. -/
def exceeds : PyFloat → PyFloat → Bool
  | .finite p, .finite q => decide (q < p)
  | .finite _, .negInfinity => true
  | .infinity, .finite _ => true
  | .infinity, .negInfinity => true
  | _, _ => false

/-- `round(x, 4)`, to the even digit where two are as near. -/
def round4 : PyFloat → PyFloat
  | .finite q =>
    let low := ⌊q * 10000⌋
    let rest := q * 10000 - low
    let nearest := if rest < 1 / 2 ∨ rest = 1 / 2 ∧ low % 2 = 0 then low else low + 1
    .finite (nearest / 10000)
  | x => x

end PyFloat

namespace WireValue

def number? : WireValue → Option PyFloat
  | .bool b => some (.finite (if b then 1 else 0))
  | .int z => some (.finite z)
  | .float x => some x
  | _ => none

/-- `a - b`. -/
def minus (a b : WireValue) : Except Exc PyFloat :=
  match a.number?, b.number? with
  | some x, some y => .ok (x.sub y)
  | _, _ => .error (.foreign
      ("unsupported operand type(s) for -: '" ++ a.typeName ++ "' and '" ++ b.typeName ++ "'"))

end WireValue

/-! ## Cases, results, reports -/

structure EvalCase where
  question : String
  groundTruth : String
  kbId : String
  expectedCitations : List String := []

/-- A score of NaN says that the metric is not supported. -/
structure EvalResult where
  question : String
  metrics : OrderedDict String PyFloat := .empty

def allMetrics : List String := [
  "faithfulness",
  "answer_relevancy",
  "context_recall",
  "context_precision",
  "answer_correctness",
  "hallucination",
  "citation_accuracy"]

abbrev BaselineRow := OrderedDict String WireValue

structure Regression where
  question : String
  metric : String
  current : PyFloat
  baseline : PyFloat
  delta : PyFloat

structure EvalReport where
  cases : ℕ := 0
  results : List EvalResult := []
  baseline : Option (List BaselineRow) := none
  regressions : List Regression := []
  passed : Bool := true

def defaultTolerance : PyFloat := .finite (1 / 20)

/-! ## The comparison -/

def baselineStep (byQuestion : OrderedDict String BaselineRow) (b : BaselineRow) :
    Except Exc (OrderedDict String BaselineRow) :=
  match b.get? "question" with
  | none => .error (.foreign "'question'")
  | some (.arr _) => .error (.foreign "unhashable type: 'list'")
  | some (.obj _) => .error (.foreign "unhashable type: 'dict'")
  | some (.str question) => .ok (byQuestion.insert question b)
  | some _ => .ok byQuestion

/-- The rows under their questions; what is no text is no question of a result. -/
def baselineByQ (baseline : List BaselineRow) : Except Exc (OrderedDict String BaselineRow) :=
  baseline.foldlM baselineStep .empty

/-- How far the score falls behind; of hallucination, how far it goes beyond. -/
def metricDelta (metric : String) (current : PyFloat) (baselineVal : WireValue) :
    Except Exc PyFloat :=
  if metric = "hallucination" then (WireValue.float current).minus baselineVal
  else baselineVal.minus (.float current)

def compareMetric (tolerance : PyFloat) (result : EvalResult) (b : BaselineRow)
    (metric : String) : Except Exc (Option Regression) :=
  let current := (result.metrics.get? metric).getD .nan
  let baselineVal := (b.get? metric).getD (.float .nan)
  if current = .nan ∨ baselineVal.number? = some .nan then .ok none
  else (metricDelta metric current baselineVal).map fun delta =>
    if delta.exceeds tolerance then
      some {
        question := result.question
        metric
        current := current.round4
        baseline := (baselineVal.number?.getD .nan).round4
        delta := delta.round4 }
    else none

def compareResult (tolerance : PyFloat) (byQuestion : OrderedDict String BaselineRow)
    (result : EvalResult) : Except Exc (List Regression) :=
  match byQuestion.get? result.question with
  | none => .ok []
  | some b => (allMetrics.mapM (compareMetric tolerance result b)).map List.reduceOption

def compareBaseline (results : List EvalResult) (baseline : List BaselineRow)
    (tolerance : PyFloat) : Except Exc (List Regression) := do
  let byQuestion ← baselineByQ baseline
  (results.mapM (compareResult tolerance byQuestion)).map List.flatten

/-! ## The run -/

/-- The query function and the evaluator, with a state of their own. -/
structure EvalBackend (σ : Type) where
  query : String → String → σ → Except Exc QueryResult × σ
  evaluate : EvalCase → QueryResult → σ → Except Exc EvalResult × σ

namespace EvalBackend

variable {σ : Type} (backend : EvalBackend σ)

def evalCase (case : EvalCase) (s : σ) : Except Exc EvalResult × σ :=
  match backend.query case.question case.kbId s with
  | (.error e, s) => (.error e, s)
  | (.ok result, s) => backend.evaluate case result s

/-- What becomes of the cases, one after the other. -/
def outcomes : List EvalCase → σ → List (Except Exc EvalResult)
  | [], _ => []
  | case :: cases, s =>
    (backend.evalCase case s).1 :: outcomes cases (backend.evalCase case s).2

end EvalBackend

def resultOf (case : EvalCase) : Except Exc EvalResult → EvalResult
  | .ok result => result
  | .error _ => {
      question := case.question
      metrics := .ofList (allMetrics.map fun metric => (metric, .nan)) }

def reportOf (cases : List EvalCase) (outcomes : List (Except Exc EvalResult))
    (baseline : List BaselineRow) (tolerance : PyFloat) : Except Exc EvalReport := do
  let results := List.zipWith resultOf cases outcomes
  let regressions ← compareBaseline results baseline tolerance
  return {
    cases := cases.length
    results
    baseline := some baseline
    regressions
    passed := regressions.length = 0 }

def runEval {σ : Type} (backend : EvalBackend σ) (cases : List EvalCase)
    (baseline : List BaselineRow) (tolerance : PyFloat) (s : σ) : Except Exc EvalReport :=
  reportOf cases (backend.outcomes cases s) baseline tolerance

/-! ## Gated runs

A report that has passed says that no score that there is falls behind its baseline. It says
nothing of the scores that there are not. -/

/-! ## What is compared -/

def EvalResult.value? (result : EvalResult) (metric : String) : Option PyFloat :=
  (result.metrics.get? metric).filter (· ≠ .nan)

namespace BaselineRow

def question? (b : BaselineRow) : Option String :=
  match b.get? "question" with
  | some (.str question) => some question
  | _ => none

def value? (b : BaselineRow) (metric : String) : Option PyFloat :=
  ((b.get? metric).bind WireValue.number?).filter (· ≠ .nan)

end BaselineRow

/-- The row of a question that counts, which is the last one. -/
def lastRow (baseline : List BaselineRow) (question : String) : Option BaselineRow :=
  baseline.reverse.find? fun b => b.question? = some question

/-- A lower score is worse, but a lower hallucination is better. -/
def Worse (tolerance : PyFloat) (metric : String) (current base : PyFloat) : Prop :=
  (if metric = "hallucination" then current.sub base else base.sub current).exceeds tolerance = true

/-- No score of the result is worse than its baseline by more than the tolerance. -/
def HoldsUp (baseline : List BaselineRow) (tolerance : PyFloat) (result : EvalResult) : Prop :=
  ∀ b ∈ lastRow baseline result.question, ∀ metric ∈ allMetrics,
    ∀ current ∈ result.value? metric, ∀ base ∈ b.value? metric,
      ¬Worse tolerance metric current base

/-- The report on the outcomes is that they pass. -/
def Passes (cases : List EvalCase) (outcomes : List (Except Exc EvalResult))
    (baseline : List BaselineRow) (tolerance : PyFloat) : Prop :=
  ∃ report, reportOf cases outcomes baseline tolerance = .ok report ∧ report.passed = true

def RunPasses {σ : Type} (backend : EvalBackend σ) (cases : List EvalCase)
    (baseline : List BaselineRow) (tolerance : PyFloat) (s : σ) : Prop :=
  ∃ report, runEval backend cases baseline tolerance s = .ok report ∧ report.passed = true

/-- Whatever has a baseline has a score, and the score is not worse. -/
def AllScored (cases : List EvalCase) (outcomes : List (Except Exc EvalResult))
    (baseline : List BaselineRow) (tolerance : PyFloat) : Prop :=
  ∀ done ∈ cases.zip outcomes, ∀ b ∈ baseline, b.question? = some done.1.question →
    ∀ metric ∈ allMetrics, ∀ base ∈ b.value? metric,
      ∃ result, done.2 = .ok result ∧ ∃ current ∈ result.value? metric,
        ¬Worse tolerance metric current base

/-! ## The rows of the baseline -/

theorem get?_baselineStep {byQuestion byQuestion' : OrderedDict String BaselineRow}
    {b : BaselineRow} (h : baselineStep byQuestion b = .ok byQuestion') (question : String) :
    byQuestion'.get? question =
      (if b.question? = some question then some b else none).or (byQuestion.get? question) := by
  unfold BaselineRow.question?
  unfold baselineStep at h
  cases hget : b.get? "question" with
  | none =>
    rw [hget] at h
    cases h
  | some x =>
    rw [hget] at h
    cases x with
    | str q =>
      obtain rfl := Except.ok.inj h
      rw [OrderedDict.get?_insert]
      simp only [Option.some_inj]
      split_ifs
      · rfl
      · rfl
    | arr _ => cases h
    | obj _ => cases h
    | null | bool _ | int _ | float _ =>
      obtain rfl := Except.ok.inj h
      rfl

theorem get?_baselineByQ {baseline : List BaselineRow}
    {byQuestion : OrderedDict String BaselineRow} (h : baselineByQ baseline = .ok byQuestion)
    (question : String) : byQuestion.get? question = lastRow baseline question := by
  induction baseline using List.reverseRecOn generalizing byQuestion with
  | nil =>
    obtain rfl := Except.ok.inj h
    rfl
  | append_singleton baseline b ih =>
    rw [baselineByQ, List.foldlM_append] at h
    obtain ⟨before, hbefore, hlast⟩ := bind_eq_ok_iff.mp h
    obtain ⟨after, hafter, hnil⟩ := bind_eq_ok_iff.mp hlast
    obtain rfl := Except.ok.inj hnil
    rw [get?_baselineStep hafter, ih hbefore, lastRow, lastRow, List.reverse_append,
      List.reverse_singleton, List.singleton_append, List.find?_cons]
    by_cases hb : b.question? = some question
    · simp [hb]
    · simp [hb]

/-! ## One comparison -/

theorem mem_result_value? {result : EvalResult} {metric : String} {x : PyFloat} :
    x ∈ result.value? metric ↔ x ≠ .nan ∧ (result.metrics.get? metric).getD .nan = x := by
  rw [EvalResult.value?, Option.mem_def, Option.filter_eq_some_iff, decide_eq_true_iff]
  cases result.metrics.get? metric with
  | none =>
    simp only [reduceCtorEq, false_and, Option.getD_none, false_iff, not_and]
    exact fun hx h => hx h.symm
  | some y => simp [and_comm]

theorem mem_row_value? {b : BaselineRow} {metric : String} {y : PyFloat} :
    y ∈ b.value? metric ↔
      y ≠ .nan ∧ ((b.get? metric).getD (.float .nan)).number? = some y := by
  rw [BaselineRow.value?, Option.mem_def, Option.filter_eq_some_iff, decide_eq_true_iff]
  cases b.get? metric with
  | none =>
    simp only [Option.bind_none, reduceCtorEq, false_and, Option.getD_none, WireValue.number?,
      Option.some_inj, false_iff, not_and]
    exact fun hy h => hy h.symm
  | some x => simp [and_comm]

theorem minus_eq_ok_iff {a b : WireValue} {delta : PyFloat} :
    a.minus b = .ok delta ↔ ∃ x y, a.number? = some x ∧ b.number? = some y ∧ x.sub y = delta := by
  unfold WireValue.minus
  cases a.number? with
  | none => simp
  | some x =>
    cases b.number? with
    | none => simp
    | some y => simp

theorem metricDelta_eq_ok_iff {metric : String} {current delta : PyFloat}
    {baselineVal : WireValue} :
    metricDelta metric current baselineVal = .ok delta ↔ ∃ base, baselineVal.number? = some base ∧
      (if metric = "hallucination" then current.sub base else base.sub current) = delta := by
  unfold metricDelta
  split_ifs
  · simp [minus_eq_ok_iff, WireValue.number?]
  · simp [minus_eq_ok_iff, WireValue.number?]

/-- A metric without a regression has no score that is worse. -/
theorem compareMetric_none_iff {tolerance : PyFloat} {result : EvalResult} {b : BaselineRow}
    {metric : String} {found : Option Regression}
    (h : compareMetric tolerance result b metric = .ok found) :
    found = none ↔ ∀ current ∈ result.value? metric, ∀ base ∈ b.value? metric,
      ¬Worse tolerance metric current base := by
  simp only [mem_result_value?, mem_row_value?]
  unfold compareMetric at h
  dsimp only at h
  generalize (result.metrics.get? metric).getD .nan = current at h ⊢
  generalize (b.get? metric).getD (.float .nan) = baselineVal at h ⊢
  split_ifs at h with hskip
  · obtain rfl := Except.ok.inj h
    refine iff_of_true rfl ?_
    rintro _ ⟨hcurrent, rfl⟩ base ⟨hbase, hnumber⟩
    rcases hskip with hskip | hskip
    · exact absurd hskip hcurrent
    · exact absurd (Option.some.inj (hnumber.symm.trans hskip)) hbase
  · obtain ⟨delta, hdelta, rfl⟩ := map_eq_ok_iff.mp h
    obtain ⟨base, hnumber, rfl⟩ := metricDelta_eq_ok_iff.mp hdelta
    obtain ⟨hcurrent, hbase⟩ := not_or.mp hskip
    simp only [hnumber, Option.some_inj, ite_eq_right_iff, reduceCtorEq, imp_false]
    constructor
    · rintro hsmall _ ⟨-, rfl⟩ _ ⟨-, rfl⟩
      exact hsmall
    · intro hholds
      exact hholds current ⟨hcurrent, rfl⟩ base ⟨fun hnan => hbase (by rw [hnumber, hnan]), rfl⟩

theorem reduceOption_eq_nil_iff_forall {α : Type*} (found : List (Option α)) :
    found.reduceOption = [] ↔ ∀ o ∈ found, o = none := by
  simp only [List.eq_nil_iff_forall_not_mem, List.reduceOption_mem_iff,
    ← Option.not_isSome_iff_eq_none, Option.isSome_iff_exists]
  constructor
  · rintro hnone _ ho ⟨a, rfl⟩
    exact hnone a ho
  · exact fun hnone a ha => hnone _ ha ⟨a, rfl⟩

theorem compareResult_nil_iff {tolerance : PyFloat} {baseline : List BaselineRow}
    {byQuestion : OrderedDict String BaselineRow} (hrows : baselineByQ baseline = .ok byQuestion)
    {result : EvalResult} {found : List Regression}
    (h : compareResult tolerance byQuestion result = .ok found) :
    found = [] ↔ HoldsUp baseline tolerance result := by
  unfold HoldsUp
  rw [← get?_baselineByQ hrows]
  unfold compareResult at h
  cases hrow : byQuestion.get? result.question with
  | none =>
    rw [hrow] at h
    obtain rfl := Except.ok.inj h
    exact iff_of_true rfl fun _ hb => absurd hb nofun
  | some b =>
    rw [hrow] at h
    obtain ⟨compared, hcompared, rfl⟩ := map_eq_ok_iff.mp h
    simp only [reduceOption_eq_nil_iff_forall, Option.mem_some_iff, forall_eq']
    constructor
    · intro hnone metric hmetric
      obtain ⟨found, hfound, hone⟩ := exists_ok_of_mapM hcompared hmetric
      exact (compareMetric_none_iff hone).mp (hnone found hfound)
    · intro hholds found hfound
      obtain ⟨metric, hmetric, hone⟩ := exists_of_mem_mapM hcompared hfound
      exact (compareMetric_none_iff hone).mpr (hholds metric hmetric)

theorem compareBaseline_nil_iff {results : List EvalResult} {baseline : List BaselineRow}
    {tolerance : PyFloat} {found : List Regression}
    (h : compareBaseline results baseline tolerance = .ok found) :
    found = [] ↔ ∀ result ∈ results, HoldsUp baseline tolerance result := by
  obtain ⟨byQuestion, hrows, hresults⟩ := bind_eq_ok_iff.mp h
  obtain ⟨groups, hgroups, rfl⟩ := map_eq_ok_iff.mp hresults
  rw [List.flatten_eq_nil_iff]
  constructor
  · intro hnil result hresult
    obtain ⟨group, hgroup, hcompared⟩ := exists_ok_of_mapM hgroups hresult
    exact (compareResult_nil_iff hrows hcompared).mp (hnil group hgroup)
  · intro hholds group hgroup
    obtain ⟨result, hresult, hcompared⟩ := exists_of_mem_mapM hgroups hgroup
    exact (compareResult_nil_iff hrows hcompared).mpr (hholds result hresult)

/-! ## Reports -/

/-- A case that raised has no scores. -/
theorem holdsUp_resultOf_error (baseline : List BaselineRow) (tolerance : PyFloat)
    (case : EvalCase) (e : Exc) : HoldsUp baseline tolerance (resultOf case (.error e)) := by
  intro b _ metric _ current hcurrent
  rw [mem_result_value?] at hcurrent
  obtain ⟨hnan, hvalue⟩ := hcurrent
  refine absurd (hvalue.symm.trans ?_) hnan
  cases hget : (resultOf case (.error e)).metrics.get? metric with
  | none => rfl
  | some x =>
    have hmem := OrderedDict.mem_entries_ofList (OrderedDict.mem_entries.mpr hget)
    obtain ⟨name, -, hname⟩ := List.mem_map.mp hmem
    exact (Prod.mk.inj hname).2.symm

/-- The gate is passed exactly if all results hold up that there are. -/
theorem passed_iff {cases : List EvalCase} {outcomes : List (Except Exc EvalResult)}
    {baseline : List BaselineRow} {tolerance : PyFloat} {report : EvalReport}
    (h : reportOf cases outcomes baseline tolerance = .ok report) :
    report.passed = true ↔ ∀ done ∈ cases.zip outcomes, ∀ result, done.2 = .ok result →
      HoldsUp baseline tolerance result := by
  obtain ⟨regressions, hregressions, hreport⟩ := bind_eq_ok_iff.mp h
  obtain rfl := Except.ok.inj hreport
  have hnil := compareBaseline_nil_iff hregressions
  dsimp only
  rw [decide_eq_true_iff, List.length_eq_zero_iff, hnil, ← List.map_uncurry_zip_eq_zipWith,
    List.forall_mem_map]
  refine forall₂_congr fun done _ => ?_
  rcases done with ⟨case, _ | result⟩
  · exact iff_of_true (holdsUp_resultOf_error baseline tolerance case _) fun _ h => absurd h nofun
  · exact ⟨fun hholds _ h => Except.ok.inj h ▸ hholds, fun hholds => hholds result rfl⟩

namespace EvalBackend

variable {σ : Type} (backend : EvalBackend σ)

@[simp] theorem length_outcomes (cases : List EvalCase) (s : σ) :
    (backend.outcomes cases s).length = cases.length := by
  induction cases generalizing s with
  | nil => rfl
  | cons case cases ih => rw [outcomes, List.length_cons, List.length_cons, ih]

end EvalBackend

theorem holdsUp_of_passes {cases : List EvalCase} {outcomes : List (Except Exc EvalResult)}
    {baseline : List BaselineRow} {tolerance : PyFloat}
    (hlength : outcomes.length = cases.length) (h : Passes cases outcomes baseline tolerance)
    {i : ℕ} {result : EvalResult} (hi : outcomes[i]? = some (.ok result)) :
    HoldsUp baseline tolerance result := by
  obtain ⟨report, hreport, hpassed⟩ := h
  obtain ⟨hlt, houtcome⟩ := List.getElem?_eq_some_iff.mp hi
  have hmem : (cases[i], outcomes[i]) ∈ cases.zip outcomes := by
    rw [List.mem_iff_getElem]
    exact ⟨i, by rw [List.length_zip]; omega, by rw [List.getElem_zip]⟩
  exact (passed_iff hreport).mp hpassed _ hmem result houtcome

/-- If a run passes, no score of a result is worse than the baseline. If it passes after the
outcome of one case is replaced, by an error or by anything, no score of the others was. -/
theorem passes_holdsUp {σ : Type} (backend : EvalBackend σ) (cases : List EvalCase)
    (baseline : List BaselineRow) (tolerance : PyFloat) (s : σ) :
    (RunPasses backend cases baseline tolerance s →
      ∀ (i : ℕ) (result : EvalResult), (backend.outcomes cases s)[i]? = some (.ok result) →
        HoldsUp baseline tolerance result) ∧
    ∀ (i : ℕ) (other : Except Exc EvalResult),
      Passes cases ((backend.outcomes cases s).set i other) baseline tolerance →
        ∀ (j : ℕ) (result : EvalResult), j ≠ i →
          (backend.outcomes cases s)[j]? = some (.ok result) →
            HoldsUp baseline tolerance result := by
  have hlength := backend.length_outcomes cases s
  constructor
  · intro h i result hi
    exact holdsUp_of_passes hlength h hi
  · intro i other h j result hne hj
    have hkept : ((backend.outcomes cases s).set i other)[j]? = some (.ok result) := by
      rw [List.getElem?_set_ne hne.symm, hj]
    exact holdsUp_of_passes (by rw [List.length_set, hlength]) h hkept

/-- An evaluator that does not support faithfulness. -/
def unfaithfulBackend : EvalBackend Unit where
  query _ _ s := (.ok { answer := "", mode := .standard, traceId := "trace_1" }, s)
  evaluate case _ s :=
    (.ok { question := case.question, metrics := .ofList [("faithfulness", .nan)] }, s)

/-- A score of NaN passes, whatever its baseline. -/
theorem not_allScored_of_passes :
    ¬∀ (backend : EvalBackend Unit) (cases : List EvalCase) (baseline : List BaselineRow)
      (tolerance : PyFloat) (s : Unit), RunPasses backend cases baseline tolerance s →
        AllScored cases (backend.outcomes cases s) baseline tolerance := by
  intro h
  let case : EvalCase := { question := "q", groundTruth := "a", kbId := "kb" }
  let row : BaselineRow :=
    .ofList [("question", .str "q"), ("faithfulness", .float (.finite (9 / 10)))]
  let result : EvalResult :=
    { question := "q", metrics := .ofList [("faithfulness", .nan)] }
  have hscored := h unfaithfulBackend [case] [row] defaultTolerance () ⟨_, rfl, rfl⟩
  obtain ⟨_, hresult, current, hcurrent, -⟩ := hscored (case, .ok result) List.mem_cons_self
    row List.mem_cons_self rfl "faithfulness" List.mem_cons_self (.finite (9 / 10)) rfl
  obtain rfl := Except.ok.inj hresult
  exact absurd hcurrent nofun

end Ragx
