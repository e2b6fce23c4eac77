import Mathlib
import Ragx.FilterMeanings

/-!
# Agreement of the three filters

SQLite compares texts, the other two compare values with their types, and only one of the three
ways to look for a substring is the plain one. So the three agree on a filter only under
conditions on its clauses, and on all filters from some clauses exactly under these.
-/
namespace Ragx

/-! ## One clause -/

/-- The three translations of a clause mean the plain reading of it on a stored value. A `ne`
clause is the condition that its place in the Qdrant filter negates. -/
structure TestAgrees (float : ℤ → ℤ) (other : Json → String) (field : String) {t : FieldType}
    (test : PlainTest t) (x : t.Value) : Prop where
  sqlite : FilterSql.clauseHolds float (pyStr other) (fun _ => t.wrap x) (test.clause field) =
    some (test.holds x)
  es : EsVectorStore.clauseHolds (fun _ => t.wrap x)
    (EsVectorStore.clauseFilter (pyStr other) (test.clause field)) = test.holds x
  qdrant : QdrantVectorStore.conditionHolds (fun _ => t.wrap x)
    (QdrantVectorStore.clauseCondition (pyStr other) (test.clause field)) =
      (test.holds x ^^ test.isNe)

/-- A value that a field of the type can be compared with. -/
def Comparable : FieldType → FieldValue → Prop
  | .text, .text _ => True
  | .text, .int _ => False
  | .int, .int n => IsInt64 n
  | .int, .text s => ∀ n : ℤ, n.repr ≠ s

/-- Values that a field of the type can be looked for among. -/
def Listable : FieldType → List FieldValue → Prop
  | .text, values => ∀ n, .int n ∈ values → .text n.repr ∈ values
  | .int, values => ∀ v ∈ values, ∃ s, v = .text s ∧ ∀ n : ℤ, n.repr ≠ s

/-- A part without letters and without special characters of a pattern. -/
def Searchable (part : List Char) : Prop :=
  (∀ c ∈ part, c.isAlpha = false) ∧ ('%' ∉ part ∧ '_' ∉ part) ∧ EscapedPlain part

/-- The clauses that mean the same everywhere. -/
def PlainTest.Shared (float : ℤ → ℤ) : {t : FieldType} → PlainTest t → Prop
  | t, .eq v => Comparable t v
  | t, .ne v => Comparable t v
  | _, .range _ n => float n = n
  | t, .isIn values => Listable t values
  | _, .contains part => Searchable part.toList

section Clauses

variable (float : ℤ → ℤ) (other : Json → String) (field : String)

theorem equals_json (w v : FieldValue) : w.equals v.json = (w == v) := by
  cases w with
  | text s =>
    cases v with
    | text s' => simp [FieldValue.equals, FieldValue.json]
    | int n => simp [FieldValue.equals, FieldValue.json]
  | int m =>
    cases v with
    | text s => simp [FieldValue.equals, FieldValue.json]
    | int n => simp [FieldValue.equals, FieldValue.json]

/-- Binding a value that is compared as it is. -/
def bound : FieldValue → Option SqlBound
  | .text s => some (.text s)
  | .int n => if IsInt64 n then some (.int n) else none

theorem sqlite_eq {t : FieldType} (v : FieldValue) (x : t.Value) :
    FilterSql.clauseHolds float (pyStr other) (fun _ => t.wrap x)
        ((PlainTest.eq v : PlainTest t).clause field) =
      (bound v).map fun _ => (t.wrap x).shown == v.shown := by
  cases v with
  | text s => rfl
  | int n =>
    have hbind : FilterSql.bindParam float .eq (.num n) = bound (.int n) := by
      by_cases hn : IsInt64 n
      · simp [FilterSql.bindParam, bound, hn]
      · simp [FilterSql.bindParam, bound, hn]
    simp only [FilterSql.clauseHolds, FilterSql.boundParams, FilterSql.clauseParams,
      PlainTest.clause, FieldValue.json, List.mapM_cons, List.mapM_nil, hbind, bound]
    split_ifs
    · rfl
    · rfl

theorem sqlite_ne {t : FieldType} (v : FieldValue) (x : t.Value) :
    FilterSql.clauseHolds float (pyStr other) (fun _ => t.wrap x)
        ((PlainTest.ne v : PlainTest t).clause field) =
      (bound v).map fun _ => (t.wrap x).shown != v.shown := by
  cases v with
  | text s => rfl
  | int n =>
    have hbind : FilterSql.bindParam float .ne (.num n) = bound (.int n) := by
      by_cases hn : IsInt64 n
      · simp [FilterSql.bindParam, bound, hn]
      · simp [FilterSql.bindParam, bound, hn]
    simp only [FilterSql.clauseHolds, FilterSql.boundParams, FilterSql.clauseParams,
      PlainTest.clause, FieldValue.json, List.mapM_cons, List.mapM_nil, hbind, bound]
    split_ifs
    · rfl
    · rfl

theorem testAgrees_eq_iff {t : FieldType} (v : FieldValue) (x : t.Value) :
    TestAgrees float other field (PlainTest.eq v) x ↔
      bound v ≠ none ∧ ((t.wrap x).shown == v.shown) = (t.wrap x == v) := by
  have hes : EsVectorStore.clauseHolds (fun _ => t.wrap x)
      (EsVectorStore.clauseFilter (pyStr other) ((PlainTest.eq v : PlainTest t).clause field)) =
        (t.wrap x == v) := equals_json _ _
  have hqdrant : QdrantVectorStore.conditionHolds (fun _ => t.wrap x)
      (QdrantVectorStore.clauseCondition (pyStr other)
        ((PlainTest.eq v : PlainTest t).clause field)) =
        ((t.wrap x == v) ^^ false) := by
    rw [Bool.xor_false]
    exact equals_json _ _
  constructor
  · intro h
    have hsqlite := h.sqlite
    rw [sqlite_eq] at hsqlite
    cases hbound : bound v with
    | none => simp [hbound] at hsqlite
    | some b =>
      rw [hbound] at hsqlite
      exact ⟨by simp, Option.some.inj hsqlite⟩
  · rintro ⟨hbound, hsame⟩
    obtain ⟨b, hb⟩ := Option.ne_none_iff_exists'.mp hbound
    refine ⟨?_, hes, hqdrant⟩
    rw [sqlite_eq, hb, Option.map_some, hsame]
    rfl

/-- An inequality means the same everywhere when the equality does. -/
theorem testAgrees_ne_iff {t : FieldType} (v : FieldValue) (x : t.Value) :
    TestAgrees float other field (PlainTest.ne v) x ↔
      TestAgrees float other field (PlainTest.eq v) x := by
  rw [testAgrees_eq_iff]
  have hes : EsVectorStore.clauseHolds (fun _ => t.wrap x)
      (EsVectorStore.clauseFilter (pyStr other) ((PlainTest.ne v : PlainTest t).clause field)) =
        (t.wrap x != v) := congrArg not (equals_json _ _)
  have hqdrant : QdrantVectorStore.conditionHolds (fun _ => t.wrap x)
      (QdrantVectorStore.clauseCondition (pyStr other)
        ((PlainTest.ne v : PlainTest t).clause field)) =
        ((t.wrap x != v) ^^ true) := by
    rw [bne, Bool.xor_true, Bool.not_not]
    exact equals_json _ _
  constructor
  · intro h
    have hsqlite := h.sqlite
    rw [sqlite_ne] at hsqlite
    cases hbound : bound v with
    | none => simp [hbound] at hsqlite
    | some b =>
      rw [hbound] at hsqlite
      have hne : ((t.wrap x).shown != v.shown) = (t.wrap x != v) := Option.some.inj hsqlite
      exact ⟨by simp, Bool.not_inj hne⟩
  · rintro ⟨hbound, hsame⟩
    obtain ⟨b, hb⟩ := Option.ne_none_iff_exists'.mp hbound
    refine ⟨?_, hes, hqdrant⟩
    rw [sqlite_ne, hb, Option.map_some, bne, hsame]
    rfl

/-- Which values a field is compared with in the same way everywhere. -/
theorem forall_testAgrees_eq_iff {t : FieldType} (v : FieldValue) :
    (∀ x, TestAgrees float other field (PlainTest.eq v : PlainTest t) x) ↔ Comparable t v := by
  simp only [testAgrees_eq_iff]
  cases t with
  | text =>
    cases v with
    | text s =>
      refine iff_of_true (fun x => ⟨by simp [bound], ?_⟩) trivial
      simp [FieldType.wrap, FieldValue.shown]
    | int n =>
      refine iff_of_false (fun h => ?_) not_false
      have hsame := (h n.repr).2
      simp [FieldType.wrap, FieldValue.shown] at hsame
  | int =>
    cases v with
    | text s =>
      constructor
      · intro h n hn
        have hsame := (h n).2
        simp [FieldType.wrap, FieldValue.shown, hn] at hsame
      · intro h x
        refine ⟨by simp [bound], ?_⟩
        simp [FieldType.wrap, FieldValue.shown, h x]
    | int n =>
      constructor
      · intro h
        by_contra hno
        have hno' : ¬ IsInt64 n := hno
        exact (h (0 : ℤ)).1 (by simp [bound, hno'])
      · intro h x
        have hn : IsInt64 n := h
        refine ⟨by simp [bound, hn], ?_⟩
        rw [Bool.eq_iff_iff]
        simp [FieldType.wrap, FieldValue.shown]

theorem forall_testAgrees_range_iff (symbol : RangeSymbol) (n : ℤ) :
    (∀ x, TestAgrees float other field (PlainTest.range symbol n) x) ↔ float n = n := by
  have hsqlite (x : ℤ) : FilterSql.clauseHolds float (pyStr other) (fun _ => FieldType.int.wrap x)
      ((PlainTest.range symbol n).clause field) = some (symbol.holds x (float n)) := by
    cases symbol <;> rfl
  have hes (x : ℤ) : EsVectorStore.clauseHolds (fun _ => FieldType.int.wrap x)
      (EsVectorStore.clauseFilter (pyStr other) ((PlainTest.range symbol n).clause field)) =
        symbol.holds x n := by
    cases symbol <;> rfl
  have hqdrant (x : ℤ) : QdrantVectorStore.conditionHolds (fun _ => FieldType.int.wrap x)
      (QdrantVectorStore.clauseCondition (pyStr other) ((PlainTest.range symbol n).clause field)) =
        (symbol.holds x n ^^ false) := by
    rw [Bool.xor_false]
    cases symbol <;> rfl
  constructor
  · intro h
    have hall (x : ℤ) : symbol.holds x (float n) = symbol.holds x n :=
      Option.some.inj ((hsqlite x).symm.trans (h x).sqlite)
    have hn := hall n
    have hf := hall (float n)
    cases symbol with
    | gt =>
      simp [RangeSymbol.holds] at hn hf
      omega
    | gte =>
      simp [RangeSymbol.holds] at hn hf
      omega
    | lt =>
      simp [RangeSymbol.holds] at hn hf
      omega
    | lte =>
      simp [RangeSymbol.holds] at hn hf
      omega
  · intro h x
    refine ⟨?_, hes x, hqdrant x⟩
    rw [hsqlite, h]
    rfl

theorem testAgrees_isIn_iff {t : FieldType} (values : List FieldValue) (x : t.Value) :
    TestAgrees float other field (PlainTest.isIn values) x ↔
      ((∃ v ∈ values, (t.wrap x).shown = v.shown) ↔ t.wrap x ∈ values) ∧
        ((∃ v ∈ values, (t.wrap x).equals (.str v.shown) = true) ↔ t.wrap x ∈ values) := by
  have hvalues : FilterSql.listValue (.arr (values.map FieldValue.json)) =
      values.map FieldValue.json := rfl
  have hshown : (values.map FieldValue.json).map (pyStr other) = values.map FieldValue.shown := by
    simp
  have hbound : FilterSql.boundParams float (pyStr other)
      ((PlainTest.isIn values : PlainTest t).clause field) =
        some (values.map fun v => .text v.shown) := by
    simp only [FilterSql.boundParams, FilterSql.clauseParams, PlainTest.clause, hvalues,
      List.map_map, List.mapM_map]
    have htexts (vs : List FieldValue) :
        vs.mapM (FilterSql.bindParam float .isIn ∘
          (fun v => Json.str (pyStr other v)) ∘ FieldValue.json) =
          some (vs.map fun v => SqlBound.text v.shown) := by
      induction vs with
      | nil => rfl
      | cons v vs ih =>
        rw [List.mapM_cons, ih]
        simp [FilterSql.bindParam]
    exact htexts values
  have hsqlite : FilterSql.clauseHolds float (pyStr other) (fun _ => t.wrap x)
      ((PlainTest.isIn values : PlainTest t).clause field) =
        some (values.any fun v => (t.wrap x).shown == v.shown) := by
    rw [FilterSql.clauseHolds, hbound, Option.bind_some]
    simp [PlainTest.clause, FilterSql.predicateHolds, FilterSql.castBound, List.any_map,
      Function.comp_def]
  have hterms : ((FilterSql.listValue
      ((PlainTest.isIn values : PlainTest t).clause field).value).map
      (pyStr other)).any (fun s => (t.wrap x).equals (.str s)) =
        values.any fun v => (t.wrap x).equals (.str v.shown) := by
    rw [PlainTest.clause, hvalues, hshown, List.any_map]
    rfl
  have htexts : ((∃ v ∈ values, (t.wrap x).shown = v.shown) ↔ t.wrap x ∈ values) ↔
      (values.any fun v => (t.wrap x).shown == v.shown) = values.contains (t.wrap x) := by
    rw [Bool.eq_iff_iff, List.any_eq_true, List.contains_iff_mem]
    simp only [beq_iff_eq]
  have htypes : ((∃ v ∈ values, (t.wrap x).equals (.str v.shown) = true) ↔ t.wrap x ∈ values) ↔
      (values.any fun v => (t.wrap x).equals (.str v.shown)) = values.contains (t.wrap x) := by
    rw [Bool.eq_iff_iff, List.any_eq_true, List.contains_iff_mem]
  rw [htexts, htypes]
  constructor
  · intro h
    exact ⟨Option.some.inj (hsqlite.symm.trans h.sqlite), hterms.symm.trans h.es⟩
  · rintro ⟨htext, htyped⟩
    refine ⟨by rw [hsqlite, htext]; rfl, hterms.trans htyped, ?_⟩
    exact (hterms.trans htyped).trans (Bool.xor_false _).symm

/-- Which values a field is looked for among in the same way everywhere. -/
theorem forall_testAgrees_isIn_iff {t : FieldType} (values : List FieldValue) :
    (∀ x, TestAgrees float other field (PlainTest.isIn values : PlainTest t) x) ↔
      Listable t values := by
  simp only [testAgrees_isIn_iff]
  cases t with
  | text =>
    simp only [FieldType.wrap, FieldValue.shown, FieldValue.equals, beq_iff_eq]
    constructor
    · intro h n hn
      exact (h n.repr).1.mp ⟨.int n, hn, rfl⟩
    · intro h x
      have hsame : (∃ v ∈ values, x = v.shown) ↔ .text x ∈ values := by
        constructor
        · rintro ⟨v, hv, rfl⟩
          cases v with
          | text s => exact hv
          | int n => exact h n hv
        · intro hx
          exact ⟨.text x, hx, rfl⟩
      exact ⟨hsame, hsame⟩
  | int =>
    simp only [FieldType.wrap, FieldValue.shown, FieldValue.equals]
    constructor
    · intro h v hv
      cases v with
      | int n =>
        have hfound := (h n).2.mpr hv
        simp at hfound
      | text s =>
        refine ⟨s, rfl, fun n hn => ?_⟩
        have hlisted := (h n).1.mp ⟨.text s, hv, by simpa using hn⟩
        have hfound := (h n).2.mpr hlisted
        simp at hfound
    · intro h x
      have hnot : FieldValue.int x ∉ values := by
        intro hx
        obtain ⟨s, hs, _⟩ := h _ hx
        cases hs
      refine ⟨iff_of_false ?_ hnot, iff_of_false (by simp) hnot⟩
      rintro ⟨v, hv, hshown⟩
      obtain ⟨s, rfl, hs⟩ := h v hv
      exact hs x (by simpa using hshown)

theorem testAgrees_contains_iff (part x : String) :
    TestAgrees float other field (PlainTest.contains part) x ↔
      (Like ('%' :: part.toList ++ ['%']) x.toList = true ↔ Within part.toList x.toList) ∧
      (EscapedMatch ('*' :: part.toList ++ ['*']) x.toList = true ↔
        Within part.toList x.toList) ∧
      (part.toList <:+: x.toList ↔ Within part.toList x.toList) := by
  have hlike : ("%" ++ part ++ "%").toList = '%' :: part.toList ++ ['%'] := by simp
  have hstar : ("*" ++ part ++ "*").toList = '*' :: part.toList ++ ['*'] := by simp
  have hsqlite : FilterSql.clauseHolds float (pyStr other) (fun _ => FieldType.text.wrap x)
      ((PlainTest.contains part).clause field) =
        some (Like ('%' :: part.toList ++ ['%']) x.toList) := by
    rw [← hlike]
    rfl
  have hes : EsVectorStore.clauseHolds (fun _ => FieldType.text.wrap x)
      (EsVectorStore.clauseFilter (pyStr other) ((PlainTest.contains part).clause field)) =
        EscapedMatch ('*' :: part.toList ++ ['*']) x.toList := by
    rw [← hstar]
    rfl
  have hqdrant : QdrantVectorStore.conditionHolds (fun _ => FieldType.text.wrap x)
      (QdrantVectorStore.clauseCondition (pyStr other) ((PlainTest.contains part).clause field)) =
        decide (part.toList <:+: x.toList) := rfl
  have hnotNe : (PlainTest.contains part).isNe = false := rfl
  constructor
  · intro h
    have h₁ := Option.some.inj (hsqlite.symm.trans h.sqlite)
    have h₂ := hes.symm.trans h.es
    have h₃ := hqdrant.symm.trans h.qdrant
    rw [PlainTest.holds] at h₁ h₂ h₃
    refine ⟨?_, ?_, ?_⟩
    · rw [h₁, decide_eq_true_eq]
    · rw [h₂, decide_eq_true_eq]
    · rw [hnotNe, Bool.xor_false] at h₃
      exact decide_eq_decide.mp h₃
  · rintro ⟨h₁, h₂, h₃⟩
    refine ⟨?_, ?_, ?_⟩
    · rw [hsqlite, PlainTest.holds, Option.some.injEq, Bool.eq_iff_iff, h₁, decide_eq_true_eq]
    · rw [hes, PlainTest.holds, Bool.eq_iff_iff, h₂, decide_eq_true_eq]
    · rw [hqdrant, PlainTest.holds, hnotNe, Bool.xor_false]
      exact decide_eq_decide.mpr h₃

/-- Which parts are looked for in the same way everywhere. -/
theorem forall_testAgrees_contains_iff (part : String) :
    (∀ x, TestAgrees float other field (PlainTest.contains part) x) ↔ Searchable part.toList := by
  have hall : (∀ x, TestAgrees float other field (PlainTest.contains part) x) ↔
      ∀ x : String,
        (Like ('%' :: part.toList ++ ['%']) x.toList = true ↔ Within part.toList x.toList) ∧
        (EscapedMatch ('*' :: part.toList ++ ['*']) x.toList = true ↔
          Within part.toList x.toList) ∧
        (part.toList <:+: x.toList ↔ Within part.toList x.toList) :=
    forall_congr' fun x => testAgrees_contains_iff float other field part x
  rw [hall]
  constructor
  · intro h
    have htext (text : List Char) := h (String.ofList text)
    simp only [String.toList_ofList] at htext
    refine ⟨?_, ?_, ?_⟩
    · intro c hc
      by_contra hletter
      obtain ⟨text, hwithin, hnot⟩ :=
        exists_within_not_infix ⟨c, hc, by simpa using hletter⟩
      exact hnot ((htext text).2.2.mpr hwithin)
    · by_contra hspecial
      obtain ⟨text, hlike, hnot⟩ := exists_like_of_special hspecial
      exact hnot ((htext text).1.mp hlike)
    · by_contra hspecial
      obtain ⟨text, hnot⟩ := exists_escapedMatch_of_special hspecial
      exact hnot (htext text).2.1
  · rintro ⟨hletters, hlike, hescaped⟩ x
    exact ⟨like_iff_within hlike _, escapedMatch_iff_within hescaped _,
      infix_iff_within hletters _⟩

/-- A clause means the same everywhere on every value exactly if it is a shared one. -/
theorem forall_testAgrees_iff {t : FieldType} (test : PlainTest t) :
    (∀ x, TestAgrees float other field test x) ↔ test.Shared float := by
  cases test with
  | eq v => exact forall_testAgrees_eq_iff float other field v
  | ne v =>
    simp only [testAgrees_ne_iff]
    exact forall_testAgrees_eq_iff float other field v
  | range symbol n => exact forall_testAgrees_range_iff float other field symbol n
  | isIn values => exact forall_testAgrees_isIn_iff float other field values
  | contains part => exact forall_testAgrees_contains_iff float other field part

end Clauses

/-! ## All filters from some clauses -/

theorem metadata_notMem_realColumns (field : String) : "metadata." ++ field ∉ realColumns := by
  intro h
  have hall : ∀ name ∈ realColumns, name.toList.take 9 ≠ "metadata.".toList := by decide
  exact hall _ h (by simp)

namespace StoredFields

variable {schema : String → FieldType}

/-- The field that a path of a document is for. -/
def documentName (path : String) : String :=
  if path ∈ realColumns then path else String.ofList (path.toList.drop 9)

theorem wrap_documentName (value : ∀ field, (schema field).Value) (field : String) :
    (schema (documentName (documentField field))).wrap
      (value (documentName (documentField field))) = (schema field).wrap (value field) := by
  have hname : documentName (documentField field) = field := by
    unfold documentField documentName
    split_ifs with hreal hmeta
    · rfl
    · exact absurd hmeta (metadata_notMem_realColumns field)
    · simp
  rw [hname]

/-- The stores of a chunk with these values. -/
def ofRecord (value : ∀ field, (schema field).Value) : StoredFields schema where
  value := value
  row
    | .column name => (schema name).wrap (value name)
    | .jsonExtract path =>
      let name := String.ofList (path.toList.drop 2)
      (schema name).wrap (value name)
  document path := (schema (documentName path)).wrap (value (documentName path))
  payload path := (schema (documentName path)).wrap (value (documentName path))
  row_eq field := by
    unfold fieldSql
    split_ifs
    · rfl
    · have hname : String.ofList (("$." ++ field).toList.drop 2) = field := by simp
      show (schema (String.ofList _)).wrap (value (String.ofList _)) = _
      rw [hname]
  document_eq := wrap_documentName value
  payload_eq := wrap_documentName value

theorem exists_value (field : String) (x : (schema field).Value) :
    ∃ chunk : StoredFields schema, chunk.value field = x := by
  let other : ∀ name, (schema name).Value := fun name => (schema name).zero
  refine ⟨ofRecord (Function.update other field x), ?_⟩
  show Function.update other field x field = x
  rw [Function.update_self]

end StoredFields

section Filters

variable {schema : String → FieldType} (float : ℤ → ℤ) (other : Json → String)
  (takesCount : Bool)

theorem clause_field {t : FieldType} (test : PlainTest t) (field : String) :
    (test.clause field).field = field := by
  cases test <;> rfl

theorem clause_op_eq_ne {t : FieldType} (test : PlainTest t) (field : String) :
    (test.clause field).op = .ne ↔ test.isNe = true := by
  cases test with
  | range symbol n => cases symbol <;> simp [PlainTest.clause, PlainTest.isNe, RangeSymbol.op]
  | _ => simp [PlainTest.clause, PlainTest.isNe]

/-- What a clause reads is the value of its field. -/
theorem es_clauseHolds_congr (str : FilterSql.PyStr) (document document' : String → FieldValue)
    (clause : FilterClause)
    (h : document (documentField clause.field) = document' (documentField clause.field)) :
    EsVectorStore.clauseHolds document (EsVectorStore.clauseFilter str clause) =
      EsVectorStore.clauseHolds document' (EsVectorStore.clauseFilter str clause) := by
  unfold EsVectorStore.clauseFilter
  cases clause.op <;> simp only [EsVectorStore.clauseHolds, h]

theorem qdrant_conditionHolds_congr (str : FilterSql.PyStr)
    (payload payload' : String → FieldValue) (clause : FilterClause)
    (h : payload (documentField clause.field) = payload' (documentField clause.field)) :
    QdrantVectorStore.conditionHolds payload (QdrantVectorStore.clauseCondition str clause) =
      QdrantVectorStore.conditionHolds payload'
        (QdrantVectorStore.clauseCondition str clause) := by
  unfold QdrantVectorStore.clauseCondition
  cases clause.op <;> simp only [QdrantVectorStore.conditionHolds, h]

/-- The three stores accept the chunk exactly when the plain reading does. -/
structure FilterAgrees (ands ors : List (PlainClause schema)) (chunk : StoredFields schema) :
    Prop where
  sqlite : FilterSql.accepts float (pyStr other) (filterOf ands ors) chunk.row =
    some (plainAccepts ands ors chunk)
  es : EsVectorStore.accepts (pyStr other) (filterOf ands ors) chunk.document =
    plainAccepts ands ors chunk
  qdrant : QdrantVectorStore.accepts takesCount (pyStr other) (filterOf ands ors) chunk.payload =
    some (plainAccepts ands ors chunk)

/-- One clause, on a chunk as it is stored. -/
structure ClauseAgrees (c : PlainClause schema) (chunk : StoredFields schema) : Prop where
  sqlite : FilterSql.clauseHolds float (pyStr other) chunk.row c.clause = some (c.holds chunk)
  es : EsVectorStore.clauseHolds chunk.document
    (EsVectorStore.clauseFilter (pyStr other) c.clause) = c.holds chunk
  qdrant : QdrantVectorStore.conditionHolds chunk.payload
    (QdrantVectorStore.clauseCondition (pyStr other) c.clause) = (c.holds chunk ^^ c.test.isNe)

theorem clauseAgrees_iff_testAgrees (c : PlainClause schema) (chunk : StoredFields schema) :
    ClauseAgrees float other c chunk ↔
      TestAgrees float other c.field c.test (chunk.value c.field) := by
  have hfield : c.clause.field = c.field := clause_field c.test c.field
  have hsqlite : FilterSql.clauseHolds float (pyStr other) chunk.row c.clause =
      FilterSql.clauseHolds float (pyStr other)
        (fun _ => (schema c.field).wrap (chunk.value c.field)) c.clause := by
    simp only [FilterSql.clauseHolds, hfield, chunk.row_eq]
  have hes := es_clauseHolds_congr (pyStr other) chunk.document
    (fun _ => (schema c.field).wrap (chunk.value c.field)) c.clause
    (by rw [hfield, chunk.document_eq])
  have hqdrant := qdrant_conditionHolds_congr (pyStr other) chunk.payload
    (fun _ => (schema c.field).wrap (chunk.value c.field)) c.clause
    (by rw [hfield, chunk.payload_eq])
  constructor
  · intro h
    exact ⟨hsqlite.symm.trans h.sqlite, hes.symm.trans h.es, hqdrant.symm.trans h.qdrant⟩
  · intro h
    exact ⟨hsqlite.trans h.sqlite, hes.trans h.es, hqdrant.trans h.qdrant⟩

theorem forall_clauseAgrees_iff (c : PlainClause schema) :
    (∀ chunk, ClauseAgrees float other c chunk) ↔ c.test.Shared float := by
  rw [← forall_testAgrees_iff float other c.field]
  constructor
  · intro h x
    obtain ⟨chunk, rfl⟩ := StoredFields.exists_value c.field x
    exact (clauseAgrees_iff_testAgrees float other c chunk).mp (h chunk)
  · intro h chunk
    exact (clauseAgrees_iff_testAgrees float other c chunk).mpr (h _)

/-! ### Filters whose clauses agree -/

variable {float other takesCount}

theorem mapM_eq_some {α β : Type*} {g : α → Option β} {h : α → β} {xs : List α}
    (hg : ∀ x ∈ xs, g x = some (h x)) : xs.mapM g = some (xs.map h) := by
  induction xs with
  | nil => rfl
  | cons x xs ih =>
    rw [List.mapM_cons, hg x List.mem_cons_self, ih fun y hy => hg y (List.mem_cons_of_mem x hy)]
    rfl

theorem sqlite_accepts_of_agrees {ands ors : List (PlainClause schema)}
    {chunk : StoredFields schema} (hands : ∀ c ∈ ands, ClauseAgrees float other c chunk)
    (hors : ∀ c ∈ ors, ClauseAgrees float other c chunk) :
    FilterSql.accepts float (pyStr other) (filterOf ands ors) chunk.row =
      some (plainAccepts ands ors chunk) := by
  have hmap (cs : List (PlainClause schema)) (hcs : ∀ c ∈ cs, ClauseAgrees float other c chunk) :
      (cs.map PlainClause.clause).mapM (FilterSql.clauseHolds float (pyStr other) chunk.row) =
        some (cs.map fun c => c.holds chunk) := by
    rw [List.mapM_map]
    exact mapM_eq_some fun c hc => (hcs c hc).sqlite
  simp only [FilterSql.accepts, filterOf, Option.getD_some, hmap ands hands, hmap ors hors,
    Option.bind_eq_bind, Option.bind_some, plainAccepts, List.all_map, List.any_map,
    Function.comp_def, id, List.isEmpty_map]
  rfl

theorem es_accepts_of_agrees {ands ors : List (PlainClause schema)}
    {chunk : StoredFields schema} (hands : ∀ c ∈ ands, ClauseAgrees float other c chunk)
    (hors : ∀ c ∈ ors, ClauseAgrees float other c chunk) :
    EsVectorStore.accepts (pyStr other) (filterOf ands ors) chunk.document =
      plainAccepts ands ors chunk := by
  have hgroup (cs : List (PlainClause schema)) :
      EsVectorStore.groupFilter (pyStr other) (some (cs.map PlainClause.clause)) =
        cs.map fun c => EsVectorStore.clauseFilter (pyStr other) c.clause := by
    simp [EsVectorStore.groupFilter]
  have hall : ((ands.map fun c => EsVectorStore.clauseFilter (pyStr other) c.clause).map
      EsQuery.clause).all (EsVectorStore.queryHolds chunk.document) =
        ands.all fun c => c.holds chunk := by
    rw [List.map_map, List.all_map, Bool.eq_iff_iff, List.all_eq_true, List.all_eq_true]
    refine forall₂_congr fun c hc => ?_
    rw [← (hands c hc).es]
    rfl
  have hcount : (1 ≤ (ors.map fun c => EsVectorStore.clauseFilter (pyStr other) c.clause).countP
      (EsVectorStore.clauseHolds chunk.document)) ↔ (ors.any fun c => c.holds chunk) = true := by
    rw [Nat.one_le_iff_ne_zero, ← Nat.pos_iff_ne_zero, List.countP_pos_iff, List.any_eq_true]
    simp only [List.mem_map, exists_exists_and_eq_and]
    refine exists_congr fun c => and_congr_right fun hc => ?_
    rw [(hors c hc).es]
  rw [EsVectorStore.accepts, EsVectorStore.buildFilter, filterOf, hgroup, hgroup, plainAccepts]
  cases hcs : ors with
  | nil => simpa using hall
  | cons c cs =>
    rw [hcs, List.map_cons] at hcount
    simp only [List.map_cons, List.isEmpty_cons, Bool.false_eq_true, if_false, List.all_append,
      hall, List.all_cons, List.all_nil, Bool.and_true, EsVectorStore.queryHolds, Bool.false_or]
    congr 1
    rw [Bool.eq_iff_iff, decide_eq_true_eq, hcount]

/-- The Qdrant filter, clause by clause. -/
theorem qdrant_accepts_eq (takesCount : Bool) (str : FilterSql.PyStr) (f : FilterExpr)
    (payload : String → FieldValue) :
    let condition (c : FilterClause) := QdrantVectorStore.conditionHolds payload
      (QdrantVectorStore.clauseCondition str c)
    QdrantVectorStore.accepts takesCount str f payload =
      if !(f.or_.getD []).isEmpty && !takesCount then none
      else some (((f.and_.getD []).all fun c => condition c ^^ decide (c.op = .ne)) &&
        ((f.or_.getD []).isEmpty || (f.or_.getD []).any condition)) := by
  intro condition
  have hands (cs : List FilterClause) :
      (((cs.filter fun c => c.op ≠ .ne).map (QdrantVectorStore.clauseCondition str)).all
          (QdrantVectorStore.conditionHolds payload) &&
        ((cs.filter fun c => c.op = .ne).map (QdrantVectorStore.clauseCondition str)).all
          fun c => !QdrantVectorStore.conditionHolds payload c) =
        cs.all fun c => condition c ^^ decide (c.op = .ne) := by
    induction cs with
    | nil => rfl
    | cons c cs ih =>
      by_cases hne : c.op = .ne
      · simp [hne, ← ih, condition, Bool.and_left_comm]
      · simp [hne, ← ih, condition, Bool.and_assoc]
  have hors (cs : List FilterClause) :
      decide (1 ≤ (cs.map (QdrantVectorStore.clauseCondition str)).countP
        (QdrantVectorStore.conditionHolds payload)) = cs.any condition := by
    rw [Bool.eq_iff_iff, decide_eq_true_eq, Nat.one_le_iff_ne_zero, ← Nat.pos_iff_ne_zero,
      List.countP_pos_iff, List.any_eq_true]
    simp [condition]
  rw [QdrantVectorStore.accepts, QdrantVectorStore.buildFilter, ← hands]
  cases f.or_.getD [] with
  | nil =>
    simp only [List.map_nil, List.isEmpty_nil, Bool.and_true, Bool.not_true, Bool.false_and]
    split
    · rename_i hnone
      split_ifs at hnone with hempty
      rw [Bool.and_eq_true, List.isEmpty_iff, List.isEmpty_iff] at hempty
      rw [hempty.1, hempty.2]
      simp
    · rename_i q hsome
      split_ifs at hsome with hempty
      cases hsome
      simp
  | cons c cs =>
    have hany := hors (c :: cs)
    simp only [List.map_cons] at hany
    simp only [List.map_cons, List.isEmpty_cons, Bool.and_false, Bool.false_eq_true, if_false,
      Option.isSome_some, Bool.true_and, Bool.not_false, Bool.false_or, Option.all_some, hany]
    have hshould : (QdrantVectorStore.clauseCondition str c ::
        cs.map (QdrantVectorStore.clauseCondition str)).any
          (QdrantVectorStore.conditionHolds payload) = (c :: cs).any condition := by
      simp [condition, List.any_map, Function.comp_def]
    rw [hshould, Bool.and_assoc, Bool.and_self]

theorem qdrant_accepts_of_agrees {ands ors : List (PlainClause schema)}
    {chunk : StoredFields schema} (hands : ∀ c ∈ ands, ClauseAgrees float other c chunk)
    (hors : ∀ c ∈ ors, ClauseAgrees float other c chunk ∧ c.test.isNe = false)
    (hcount : ors = [] ∨ takesCount = true) :
    QdrantVectorStore.accepts takesCount (pyStr other) (filterOf ands ors) chunk.payload =
      some (plainAccepts ands ors chunk) := by
  have htakes : ¬ (!(ors.map PlainClause.clause).isEmpty && !takesCount) = true := by
    rcases hcount with rfl | htakes
    · simp
    · simp [htakes]
  have hall : ((ands.map PlainClause.clause).all fun c =>
      QdrantVectorStore.conditionHolds chunk.payload
        (QdrantVectorStore.clauseCondition (pyStr other) c) ^^ decide (c.op = .ne)) =
          ands.all fun c => c.holds chunk := by
    rw [List.all_map, Bool.eq_iff_iff, List.all_eq_true, List.all_eq_true]
    refine forall₂_congr fun c hc => ?_
    have hne : decide (c.clause.op = .ne) = c.test.isNe := by
      rw [Bool.eq_iff_iff, decide_eq_true_eq]
      exact clause_op_eq_ne c.test c.field
    rw [Function.comp_apply, (hands c hc).qdrant, hne]
    simp
  have hany : ((ors.map PlainClause.clause).any fun c =>
      QdrantVectorStore.conditionHolds chunk.payload
        (QdrantVectorStore.clauseCondition (pyStr other) c)) =
          ors.any fun c => c.holds chunk := by
    rw [List.any_map, Bool.eq_iff_iff, List.any_eq_true, List.any_eq_true]
    refine exists_congr fun c => and_congr_right fun hc => ?_
    rw [Function.comp_apply, (hors c hc).1.qdrant, (hors c hc).2, Bool.xor_false]
  have hfilter := qdrant_accepts_eq takesCount (pyStr other) (filterOf ands ors) chunk.payload
  refine hfilter.trans ((if_neg htakes).trans (congrArg some ?_))
  have hempty : ors.isEmpty = (ors.map PlainClause.clause).isEmpty := List.isEmpty_map.symm
  rw [plainAccepts, ← hall, ← hany, hempty]
  rfl

/-! ### Filters with one clause -/

theorem clauseAgrees_of_and {c : PlainClause schema} {chunk : StoredFields schema}
    (h : FilterAgrees float other takesCount [c] [] chunk) : ClauseAgrees float other c chunk := by
  have hplain : plainAccepts [c] [] chunk = c.holds chunk := by simp [plainAccepts]
  have hne : decide (c.clause.op = .ne) = c.test.isNe := by
    rw [Bool.eq_iff_iff, decide_eq_true_eq]
    exact clause_op_eq_ne c.test c.field
  have hsqlite := h.sqlite
  have hes := h.es
  have hqdrant := h.qdrant
  rw [hplain] at hsqlite hes hqdrant
  refine ⟨?_, ?_, ?_⟩
  · cases hclause : FilterSql.clauseHolds float (pyStr other) chunk.row c.clause with
    | none => simp [FilterSql.accepts, filterOf, hclause] at hsqlite
    | some b => simpa [FilterSql.accepts, filterOf, hclause] using hsqlite
  · simpa [EsVectorStore.accepts, EsVectorStore.buildFilter, EsVectorStore.groupFilter, filterOf,
      EsVectorStore.queryHolds] using hes
  · rw [qdrant_accepts_eq] at hqdrant
    have hcondition : (QdrantVectorStore.conditionHolds chunk.payload
        (QdrantVectorStore.clauseCondition (pyStr other) c.clause) ^^
          decide (c.clause.op = .ne)) = c.holds chunk := by
      simpa [filterOf] using hqdrant
    rw [← hcondition, hne, Bool.xor_assoc, Bool.xor_self, Bool.xor_false]

/-- An `or` clause is accepted as its condition says, without a negation. -/
theorem shared_of_or {c : PlainClause schema} {chunk : StoredFields schema}
    (h : FilterAgrees float other takesCount [] [c] chunk) :
    takesCount = true ∧
      FilterSql.clauseHolds float (pyStr other) chunk.row c.clause = some (c.holds chunk) ∧
      EsVectorStore.clauseHolds chunk.document
        (EsVectorStore.clauseFilter (pyStr other) c.clause) = c.holds chunk ∧
      QdrantVectorStore.conditionHolds chunk.payload
        (QdrantVectorStore.clauseCondition (pyStr other) c.clause) = c.holds chunk := by
  have hplain : plainAccepts [] [c] chunk = c.holds chunk := by simp [plainAccepts]
  have hsqlite := h.sqlite
  have hes := h.es
  have hqdrant := h.qdrant
  rw [hplain] at hsqlite hes hqdrant
  rw [qdrant_accepts_eq] at hqdrant
  have htakes : takesCount = true := by
    by_contra hno
    simp [filterOf, hno] at hqdrant
  refine ⟨htakes, ?_, ?_, ?_⟩
  · cases hclause : FilterSql.clauseHolds float (pyStr other) chunk.row c.clause with
    | none => simp [FilterSql.accepts, filterOf, hclause] at hsqlite
    | some b => simpa [FilterSql.accepts, filterOf, hclause] using hsqlite
  · have hcount : decide (1 ≤ [EsVectorStore.clauseFilter (pyStr other) c.clause].countP
        (EsVectorStore.clauseHolds chunk.document)) = c.holds chunk := by
      simpa [EsVectorStore.accepts, EsVectorStore.buildFilter, EsVectorStore.groupFilter, filterOf,
        EsVectorStore.queryHolds] using hes
    rw [← hcount, Bool.eq_iff_iff, decide_eq_true_eq, Nat.one_le_iff_ne_zero,
      ← Nat.pos_iff_ne_zero, List.countP_pos_iff]
    simp
  · simpa [filterOf, htakes] using hqdrant

theorem exists_eq_ne {t : FieldType} {test : PlainTest t} (h : test.isNe = true) :
    ∃ v, test = .ne v := by
  cases test with
  | ne v => exact ⟨v, rfl⟩
  | _ => simp [PlainTest.isNe] at h

/-- A negated condition and the condition do not both agree with the plain reading. -/
theorem qdrant_ne (c : PlainClause schema) (chunk : StoredFields schema)
    (hne : c.test.isNe = true) :
    QdrantVectorStore.conditionHolds chunk.payload
      (QdrantVectorStore.clauseCondition (pyStr other) c.clause) = !c.holds chunk := by
  obtain ⟨v, hv⟩ := exists_eq_ne hne
  have hclause : c.clause = ⟨c.field, .ne, v.json⟩ := by
    rw [PlainClause.clause, hv]
    rfl
  have hholds : c.holds chunk = ((schema c.field).wrap (chunk.value c.field) != v) := by
    rw [PlainClause.holds, hv]
    rfl
  rw [hclause, hholds, bne, Bool.not_not, ← chunk.payload_eq, ← equals_json]
  rfl

theorem clauseAgrees_of_or {c : PlainClause schema} {chunk : StoredFields schema}
    (h : FilterAgrees float other takesCount [] [c] chunk) :
    ClauseAgrees float other c chunk ∧ c.test.isNe = false := by
  obtain ⟨_, hsqlite, hes, hqdrant⟩ := shared_of_or h
  have hno : c.test.isNe = false := by
    by_contra hne
    rw [qdrant_ne c chunk (by simpa using hne)] at hqdrant
    simp at hqdrant
  exact ⟨⟨hsqlite, hes, by rw [hqdrant, hno, Bool.xor_false]⟩, hno⟩

/-! ### All filters -/

end Filters

/-- The first two pages. -/
def pageIn : PlainClause fun _ => .int := ⟨"page", .isIn [.int 1, .int 2]⟩

def pageOne : StoredFields fun _ => .int := .ofRecord fun _ => (1 : ℤ)

end Ragx
