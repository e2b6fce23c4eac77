import Ragx.FilterQueries
import Ragx.Wildcards

/-!
# What the three filters mean

The plain reading of a filter over fields with texts and integers, and what SQLite,
Elasticsearch and Qdrant make of the translations of it.
-/
namespace Ragx

/-! ## Values -/

inductive FieldType where
  | text | int
deriving DecidableEq, Repr

@[reducible] def FieldType.Value : FieldType → Type
  | .text => String
  | .int => ℤ

def FieldType.zero : (t : FieldType) → t.Value
  | .text => ""
  | .int => (0 : ℤ)

inductive FieldValue where
  | text (s : String)
  | int (n : ℤ)
deriving DecidableEq, Repr

def FieldType.wrap : (t : FieldType) → t.Value → FieldValue
  | .text, s => .text s
  | .int, n => .int n

namespace FieldValue

def json : FieldValue → Json
  | .text s => .str s
  | .int n => .num n

/-- `str(value)`, and `CAST(value AS TEXT)`. -/
def shown : FieldValue → String
  | .text s => s
  | .int n => n.repr

/-- Equality with a value of the same type. -/
def equals : FieldValue → Json → Bool
  | .text s, .str s' => s == s'
  | .int n, .num q => (n : ℚ) == q
  | _, _ => false

end FieldValue

/-- `str(value)`; the texts of other values than strings and integers come from outside. -/
def pyStr (other : Json → String) : FilterSql.PyStr
  | .str s => s
  | .num q => if q.den = 1 then q.num.repr else other (.num q)
  | v => other v

@[simp]
theorem pyStr_json (other : Json → String) (v : FieldValue) : pyStr other v.json = v.shown := by
  cases v <;> simp [pyStr, FieldValue.json, FieldValue.shown]

def RangeSymbol.holds (symbol : RangeSymbol) (a b : ℚ) : Bool :=
  match symbol with
  | .gt => b < a
  | .gte => b ≤ a
  | .lt => a < b
  | .lte => a ≤ b

def RangeSymbol.op : RangeSymbol → FilterOp
  | .gt => .gt
  | .gte => .ge
  | .lt => .lt
  | .lte => .le

/-! ## The plain reading -/

/-- The clauses that can be read plainly over a field of the type. -/
inductive PlainTest : FieldType → Type
  | eq {t : FieldType} (v : FieldValue) : PlainTest t
  | ne {t : FieldType} (v : FieldValue) : PlainTest t
  | range (symbol : RangeSymbol) (n : ℤ) : PlainTest .int
  | isIn {t : FieldType} (values : List FieldValue) : PlainTest t
  | contains (part : String) : PlainTest .text

namespace PlainTest

def clause (field : String) {t : FieldType} : PlainTest t → FilterClause
  | .eq v => ⟨field, .eq, v.json⟩
  | .ne v => ⟨field, .ne, v.json⟩
  | .range symbol n => ⟨field, symbol.op, .num n⟩
  | .isIn values => ⟨field, .isIn, .arr (values.map FieldValue.json)⟩
  | .contains part => ⟨field, .contains, .str part⟩

def holds : {t : FieldType} → PlainTest t → t.Value → Bool
  | t, .eq v, x => t.wrap x == v
  | t, .ne v, x => t.wrap x != v
  | _, .range symbol n, x => symbol.holds (x : ℤ) n
  | t, .isIn values, x => values.contains (t.wrap x)
  | _, .contains part, x => decide (Within part.toList (x : String).toList)

def isNe {t : FieldType} : PlainTest t → Bool
  | .ne _ => true
  | _ => false

end PlainTest

/-- A clause over fields whose types are known. -/
structure PlainClause (schema : String → FieldType) where
  field : String
  test : PlainTest (schema field)

def PlainClause.clause {schema : String → FieldType} (c : PlainClause schema) : FilterClause :=
  c.test.clause c.field

/-- A chunk in the three stores: each finds the value of a field where its filter looks. -/
structure StoredFields (schema : String → FieldType) where
  value : ∀ field, (schema field).Value
  row : SqlColumn → FieldValue
  document : String → FieldValue
  payload : String → FieldValue
  row_eq : ∀ field, row (fieldSql field) = (schema field).wrap (value field)
  document_eq : ∀ field, document (documentField field) = (schema field).wrap (value field)
  payload_eq : ∀ field, payload (documentField field) = (schema field).wrap (value field)

def PlainClause.holds {schema : String → FieldType} (c : PlainClause schema)
    (chunk : StoredFields schema) : Bool :=
  c.test.holds (chunk.value c.field)

/-- All `and` clauses, and one of the `or` clauses if there are any. -/
def plainAccepts {schema : String → FieldType} (ands ors : List (PlainClause schema))
    (chunk : StoredFields schema) : Bool :=
  (ands.all fun c => c.holds chunk) && (ors.isEmpty || ors.any fun c => c.holds chunk)

/-- The filter with these clauses. -/
def filterOf {schema : String → FieldType} (ands ors : List (PlainClause schema)) : FilterExpr where
  and_ := some (ands.map PlainClause.clause)
  or_ := some (ors.map PlainClause.clause)

/-! ## SQLite -/

/-- A bound parameter. The float of an integer is a whole number. -/
inductive SqlBound where
  | text (s : String)
  | int (n : ℤ)
  | real (n : ℤ)
deriving DecidableEq, Repr

def IsInt64 (n : ℤ) : Prop := -2 ^ 63 ≤ n ∧ n < 2 ^ 63

instance (n : ℤ) : Decidable (IsInt64 n) := inferInstanceAs (Decidable (_ ∧ _))

namespace FilterSql

/-- Binding a value; integers beyond 64 bits raise. What `float` makes of an integer comes from
outside, and values that are neither texts nor integers are not described. -/
def bindParam (float : ℤ → ℤ) (op : FilterOp) : Json → Option SqlBound
  | .str s => some (.text s)
  | .num q =>
    if q.den ≠ 1 then none
    else match op with
      | .gt | .ge | .lt | .le => some (.real (float q.num))
      | _ => if IsInt64 q.num then some (.int q.num) else none
  | _ => none

def boundParams (float : ℤ → ℤ) (str : PyStr) (clause : FilterClause) : Option (List SqlBound) :=
  (clauseParams str clause).mapM (bindParam float clause.op)

def castBound : SqlBound → String
  | .text s => s
  | .int n => n.repr
  | .real n => n.repr ++ ".0"

/-- The predicate of a clause on the stored value. Only integers are compared by order. -/
def predicateHolds (op : FilterOp) (stored : FieldValue) (params : List SqlBound) : Option Bool :=
  match op, stored, params with
  | .eq, v, [p] => some (v.shown == castBound p)
  | .ne, v, [p] => some (v.shown != castBound p)
  | .gt, .int n, [.real d] => some (RangeSymbol.gt.holds n d)
  | .ge, .int n, [.real d] => some (RangeSymbol.gte.holds n d)
  | .lt, .int n, [.real d] => some (RangeSymbol.lt.holds n d)
  | .le, .int n, [.real d] => some (RangeSymbol.lte.holds n d)
  | .isIn, v, ps => some (ps.any fun p => v.shown == castBound p)
  | .contains, v, [.text pattern] => some (Like pattern.toList v.shown.toList)
  | _, _, _ => none

def clauseHolds (float : ℤ → ℤ) (str : PyStr) (row : SqlColumn → FieldValue)
    (clause : FilterClause) : Option Bool :=
  (boundParams float str clause).bind (predicateHolds clause.op (row (fieldSql clause.field)))

/-- Whether the row is selected, if the query does not raise. -/
def accepts (float : ℤ → ℤ) (str : PyStr) (f : FilterExpr) (row : SqlColumn → FieldValue) :
    Option Bool := do
  let ands ← (f.and_.getD []).mapM (clauseHolds float str row)
  let ors ← (f.or_.getD []).mapM (clauseHolds float str row)
  return ands.all id && (ors.isEmpty || ors.any id)

end FilterSql

/-! ## Elasticsearch -/

namespace EsVectorStore

def ranges (symbol : RangeSymbol) : FieldValue → Json → Bool
  | .int n, .num q => symbol.holds n q
  | _, _ => false

def clauseHolds (document : String → FieldValue) : EsClause → Bool
  | .term field value => (document field).equals value
  | .mustNotTerm field value => !(document field).equals value
  | .range field symbol value => ranges symbol (document field) value
  | .terms field values => values.any fun s => (document field).equals (.str s)
  | .wildcard field pattern =>
    match document field with
    | .text s => EscapedMatch pattern.toList s.toList
    | .int _ => false

def queryHolds (document : String → FieldValue) : EsQuery → Bool
  | .clause c => clauseHolds document c
  | .should clauses minimum => minimum ≤ clauses.countP (clauseHolds document)

def accepts (str : FilterSql.PyStr) (f : FilterExpr) (document : String → FieldValue) : Bool :=
  (buildFilter str (some f)).all (queryHolds document)

end EsVectorStore

/-! ## Qdrant -/

namespace QdrantVectorStore

/-- Without a full-text index a text is matched as an exact substring. -/
def conditionHolds (payload : String → FieldValue) : QdrantCondition → Bool
  | .matchValue key value => (payload key).equals value
  | .range key symbol value => EsVectorStore.ranges symbol (payload key) value
  | .matchAny key values => values.any fun s => (payload key).equals (.str s)
  | .matchText key text =>
    match payload key with
    | .text s => decide (text.toList <:+: s.toList)
    | .int _ => false

/-- Whether the point is accepted. A client that takes no number for `min_should` raises. -/
def accepts (takesCount : Bool) (str : FilterSql.PyStr) (f : FilterExpr)
    (payload : String → FieldValue) : Option Bool :=
  match buildFilter str (some f) with
  | none => some true
  | some q =>
    if q.minShould.isSome && !takesCount then none
    else some (q.must.all (conditionHolds payload) &&
      (q.mustNot.all fun c => !conditionHolds payload c) &&
      (q.should.isEmpty || q.should.any (conditionHolds payload)) &&
      q.minShould.all fun n => n ≤ q.should.countP (conditionHolds payload))

end QdrantVectorStore

end Ragx
