import Ragx.FilterSql

/-!
# Filters for Elasticsearch and Qdrant

The query clauses that the two other vector stores build from a filter. Columns are fields of the
document, and every other field is looked up under its metadata. A `ne` clause of the `and`
group is the same condition as `eq` for Qdrant, and is negated by where the filter puts it.
-/
namespace Ragx

/-- `gt`, `gte`, `lt` and `lte`. -/
inductive RangeSymbol where
  | gt | gte | lt | lte
deriving DecidableEq, Repr

/-- `_es_field` and `_qdrant_field`. -/
def documentField (field : String) : String :=
  if field ∈ realColumns then field else "metadata." ++ field

/-! ## Elasticsearch -/

inductive EsClause where
  | term (field : String) (value : Json)
  /-- `{"bool": {"must_not": [{"term": ...}]}}`. -/
  | mustNotTerm (field : String) (value : Json)
  | range (field : String) (symbol : RangeSymbol) (value : Json)
  | terms (field : String) (values : List String)
  /-- A case-insensitive wildcard. -/
  | wildcard (field : String) (value : String)

inductive EsQuery where
  | clause (c : EsClause)
  | should (clauses : List EsClause) (minimumShouldMatch : ℕ)

namespace EsVectorStore

open FilterSql

def clauseFilter (str : PyStr) (clause : FilterClause) : EsClause :=
  let field := documentField clause.field
  match clause.op with
  | .eq => .term field clause.value
  | .ne => .mustNotTerm field clause.value
  | .gt => .range field .gt clause.value
  | .ge => .range field .gte clause.value
  | .lt => .range field .lt clause.value
  | .le => .range field .lte clause.value
  | .isIn => .terms field ((listValue clause.value).map str)
  | .contains => .wildcard field ("*" ++ str clause.value ++ "*")

def groupFilter (str : PyStr) (clauses : Option (List FilterClause)) : List EsClause :=
  (clauses.getD []).map (clauseFilter str)

def buildFilter (str : PyStr) : Option FilterExpr → List EsQuery
  | none => []
  | some expr =>
    let andClauses := (groupFilter str expr.and_).map EsQuery.clause
    let orClauses := groupFilter str expr.or_
    if orClauses.isEmpty then andClauses else andClauses ++ [.should orClauses 1]

end EsVectorStore

/-! ## Qdrant -/

inductive QdrantCondition where
  | matchValue (key : String) (value : Json)
  | range (key : String) (symbol : RangeSymbol) (value : Json)
  | matchAny (key : String) (values : List String)
  | matchText (key : String) (text : String)

structure QdrantFilter where
  must : List QdrantCondition
  mustNot : List QdrantCondition
  should : List QdrantCondition
  minShould : Option ℕ

namespace QdrantVectorStore

open FilterSql

def clauseCondition (str : PyStr) (clause : FilterClause) : QdrantCondition :=
  let key := documentField clause.field
  match clause.op with
  | .eq | .ne => .matchValue key clause.value
  | .gt => .range key .gt clause.value
  | .ge => .range key .gte clause.value
  | .lt => .range key .lt clause.value
  | .le => .range key .lte clause.value
  | .isIn => .matchAny key ((listValue clause.value).map str)
  | .contains => .matchText key (str clause.value)

def buildFilter (str : PyStr) : Option FilterExpr → Option QdrantFilter
  | none => none
  | some expr =>
    let ands := expr.and_.getD []
    let must := (ands.filter fun c => c.op ≠ .ne).map (clauseCondition str)
    let mustNot := (ands.filter fun c => c.op = .ne).map (clauseCondition str)
    let should := (expr.or_.getD []).map (clauseCondition str)
    if must.isEmpty && mustNot.isEmpty && should.isEmpty then none
    else some ⟨must, mustNot, should, if should.isEmpty then none else some 1⟩

end QdrantVectorStore

end Ragx
