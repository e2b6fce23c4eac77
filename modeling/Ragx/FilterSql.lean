import Ragx.EntryPoints
import Ragx.SqlExpressions

/-!
# The text of a filter

The SQL that a filter becomes, as text. Values are bound parameters, but a field that is not a
column stands in a string literal just as it was given. The text parses to one predicate for
each clause exactly if no such field has a quote or a null character.
-/
namespace Ragx

/-- All clauses, the `and` group first. -/
def FilterExpr.asList (f : FilterExpr) : List FilterClause := f.and_.getD [] ++ f.or_.getD []

/-- `re.sub(r"[^0-9A-Za-z_]", "_", name) or "default"`. -/
def sanitize (name : String) : List Char :=
  if name = "" then "default".toList
  else name.toList.map fun c => if c.isAlphanum || c == '_' then c else '_'

namespace FilterSql

/-- The table of a knowledge base. -/
def tableName (kbId : String) : List Char := "chunks_".toList ++ sanitize kbId

variable (table : List Char)

def fieldText (field : String) : List Char :=
  if field ∈ realColumns then table ++ '.' :: field.toList
  else "json_extract(".toList ++ table ++ ".metadata, '$.".toList ++ field.toList ++ ['\'', ')']

def castText (field : String) : List Char :=
  "CAST(".toList ++ fieldText table field ++ " AS TEXT)".toList

def listValue : Json → List Json
  | .arr values => values
  | v => [v]

def clauseText (clause : FilterClause) : List Char :=
  match clause.op with
  | .eq => castText table clause.field ++ " = CAST(? AS TEXT)".toList
  | .ne => castText table clause.field ++ " <> CAST(? AS TEXT)".toList
  | .gt => fieldText table clause.field ++ " > ?".toList
  | .ge => fieldText table clause.field ++ " >= ?".toList
  | .lt => fieldText table clause.field ++ " < ?".toList
  | .le => fieldText table clause.field ++ " <= ?".toList
  | .isIn => castText table clause.field ++ " IN (".toList ++
      [','].intercalate ((listValue clause.value).map fun _ => ['?']) ++ [')']
  | .contains => castText table clause.field ++ " LIKE ?".toList

/-- `str(value)`. -/
abbrev PyStr := Json → String

/-- The values that are bound, with `float` applied to numbers and `str` where the code does. -/
def clauseParams (str : PyStr) (clause : FilterClause) : List Json :=
  match clause.op with
  | .eq | .ne => [clause.value]
  | .gt | .ge | .lt | .le => [asFloat clause.value]
  | .isIn => (listValue clause.value).map fun v => .str (str v)
  | .contains => [.str ("%" ++ str clause.value ++ "%")]

/-- The clauses of one group, with the joining word between them. -/
def groupText (join : SqlKeyword) (clauses : List FilterClause) : List Char :=
  '(' :: (" ".toList ++ join.text.toList ++ " ".toList).intercalate
    (clauses.map (clauseText table)) ++ [')']

/-- The groups that have clauses. -/
def groups (f : FilterExpr) : List (SqlKeyword × List FilterClause) :=
  [(.and, f.and_.getD []), (.or, f.or_.getD [])].filter fun g => !g.2.isEmpty

def predicateText (f : FilterExpr) : List Char :=
  " AND ".toList.intercalate ((groups f).map fun g => groupText table g.1 g.2)

def predicateParams (str : PyStr) (f : FilterExpr) : List Json :=
  (groups f).flatMap fun g => g.2.flatMap (clauseParams str)

/-! ## The predicates that are meant -/

def fieldExpr (field : String) : SqlExpr :=
  if field ∈ realColumns then .column table field.toList
  else .call "json_extract".toList
    (.binary .comma (.column table "metadata".toList) (.literal ("$.".toList ++ field.toList)))

def castExpr (field : String) : SqlExpr := .cast (fieldExpr table field) "TEXT".toList

def castParam : SqlExpr := .cast .param "TEXT".toList

/-- Expressions one after the other, with the operator between them. -/
def joined (op : SqlBinary) : List SqlExpr → Option SqlExpr
  | [] => none
  | e :: es => some (es.foldl (.binary op) e)

/-- A parameter for each value. -/
def paramsExpr (values : List Json) : Option SqlExpr := joined .comma (values.map fun _ => .param)

def clauseExpr (clause : FilterClause) : SqlExpr :=
  match clause.op with
  | .eq => .binary (.sign .eq) (castExpr table clause.field) castParam
  | .ne => .binary (.sign .ne) (castExpr table clause.field) castParam
  | .gt => .binary (.sign .gt) (fieldExpr table clause.field) .param
  | .ge => .binary (.sign .ge) (fieldExpr table clause.field) .param
  | .lt => .binary (.sign .lt) (fieldExpr table clause.field) .param
  | .le => .binary (.sign .le) (fieldExpr table clause.field) .param
  | .isIn =>
    match paramsExpr (listValue clause.value) with
    | none => .inEmpty (castExpr table clause.field)
    | some items => .inList (castExpr table clause.field) items
  | .contains => .binary .like (castExpr table clause.field) .param

def keywordOp : SqlKeyword → SqlBinary
  | .or => .or
  | _ => .and

def groupExpr (join : SqlKeyword) (clauses : List FilterClause) : Option SqlExpr :=
  (joined (keywordOp join) (clauses.map (clauseExpr table))).map .paren

/-- The clauses of the `and` group, and the disjunction of the `or` group as one more. -/
def predicateExpr (f : FilterExpr) : Option SqlExpr :=
  joined .and ((groups f).filterMap fun g => groupExpr table g.1 g.2)

/-! ## The predicates have the tokens of the text -/

theorem tokens_foldl_binary (op : SqlBinary) (e : SqlExpr) (es : List SqlExpr) :
    (es.foldl (.binary op) e).tokens = [op.token].intercalate ((e :: es).map SqlExpr.tokens) := by
  induction es using List.reverseRecOn with
  | nil => simp
  | append_singleton es x ih =>
    have hconcat (us : List (List SqlToken)) (y : List SqlToken) (h : us ≠ []) :
        [op.token].intercalate (us ++ [y]) = [op.token].intercalate us ++ op.token :: y := by
      induction us with
      | nil => exact absurd rfl h
      | cons u us ihu =>
        cases us with
        | nil => simp [List.intercalate_cons_cons]
        | cons v us =>
          have hrest := ihu (by simp)
          rw [List.cons_append] at hrest
          simp [List.intercalate_cons_cons, hrest]
    rw [List.foldl_append, List.foldl_cons, List.foldl_nil, SqlExpr.tokens, ih, ← List.cons_append,
      List.map_append, List.map_singleton, hconcat _ _ (by simp)]

/-- The tokens of an expression that may be missing. -/
def shown (e : Option SqlExpr) : List SqlToken := (e.map SqlExpr.tokens).getD []

theorem shown_joined (op : SqlBinary) (es : List SqlExpr) :
    shown (joined op es) = [op.token].intercalate (es.map SqlExpr.tokens) := by
  cases es with
  | nil => rfl
  | cons e es => exact tokens_foldl_binary op e es

/-! ## The text is read as these tokens -/

open SqlLexer

/-- What is put between quotes can be. -/
def FieldPlain (field : String) : Prop := field ∈ realColumns ∨ Plain field.toList

instance (field : String) : Decidable (FieldPlain field) := inferInstanceAs (Decidable (_ ∨ _))

theorem isWordChar_of_mem_sanitize {name : String} {c : Char} (h : c ∈ sanitize name) :
    isWordChar c = true := by
  unfold sanitize at h
  split_ifs at h
  · have hall : "default".toList.all isWordChar = true := by decide
    exact List.all_eq_true.mp hall c h
  · obtain ⟨d, _, rfl⟩ := List.mem_map.mp h
    split_ifs with hd
    · rcases Bool.or_eq_true_iff.mp hd with halnum | hunder
      · rcases Bool.or_eq_true_iff.mp halnum with halpha | hdigit
        · simp [isWordChar, isWordStart, halpha]
        · simp [isWordChar, hdigit]
      · simp [isWordChar, isWordStart, hunder]
    · decide

theorem scan_word {cs : List Char} (h : ∀ c ∈ cs, isWordChar c = true) (text : List Char) :
    scan (.word text, []) cs = some (.word (text ++ cs), []) := by
  induction cs generalizing text with
  | nil => simp [scan]
  | cons c cs ih =>
    have hc := h c List.mem_cons_self
    have hfeed : feed (.word text, []) c = some (.word (text ++ [c]), []) := by
      simp [feed, step, hc]
    rw [scan_cons, hfeed, Option.bind_some, ih fun d hd => h d (List.mem_cons_of_mem c hd)]
    simp

theorem wordToken_tableName (kbId : String) :
    wordToken (tableName kbId) = .word (tableName kbId) := by
  obtain ⟨rest, hupper⟩ : ∃ rest, (tableName kbId).map Char.toUpper = 'C' :: 'H' :: rest :=
    ⟨_, rfl⟩
  have hno (k : SqlKeyword) : k.text.toList ≠ 'C' :: 'H' :: rest := by
    cases k with
    | cast =>
      intro h
      have hsecond := (List.cons.inj (List.cons.inj h).2).1
      exact absurd hsecond (by decide)
    | _ =>
      intro h
      have hfirst := (List.cons.inj h).1
      exact absurd hfirst (by decide)
  simp [wordToken, hupper, hno]

theorem reads_table (kbId : String) :
    ReadsIff .blank (tableName kbId ++ ['.']) .blank [.word (tableName kbId), .dot] True := by
  refine .of_scan_nil ?_
  have hchars : ∀ c ∈ "hunks_".toList ++ sanitize kbId, isWordChar c = true := by
    intro c hc
    rcases List.mem_append.mp hc with hc | hc
    · have hall : "hunks_".toList.all isWordChar = true := by decide
      exact List.all_eq_true.mp hall c hc
    · exact isWordChar_of_mem_sanitize hc
  have hword : scan (.blank, []) (tableName kbId) = some (.word (tableName kbId), []) :=
    scan_word hchars ['c']
  have hdot : scan (.word (tableName kbId), []) ['.'] =
      some (.blank, [.word (tableName kbId), .dot]) := by
    simp [scan, feed, step, after, wordToken_tableName, isWordChar, isWordStart, start, isBlank]
  rw [scan_append, hword, Option.bind_some, hdot]

/-- A field and the blank after it. -/
theorem reads_field (kbId field : String) :
    ReadsIff .blank (fieldText (tableName kbId) field ++ [' ']) .blank
      (fieldExpr (tableName kbId) field).tokens (FieldPlain field) := by
  by_cases hreal : field ∈ realColumns
  · have hname : ReadsIff .blank (field.toList ++ [' ']) .blank [.word field.toList] True := by
      refine .of_scan_nil ?_
      have hall : ∀ f ∈ realColumns,
          scan (.blank, []) (f.toList ++ [' ']) = some (.blank, [.word f.toList]) := by
        decide +kernel
      exact hall field hreal
    have htext : fieldText (tableName kbId) field ++ [' '] =
        (tableName kbId ++ ['.']) ++ (field.toList ++ [' ']) := by
      simp [fieldText, hreal]
    rw [htext, fieldExpr, if_pos hreal]
    exact ((reads_table kbId).append hname).congr (by simp [FieldPlain, hreal])
  · have hopen : ReadsIff .blank "json_extract(".toList .blank
        [.word "json_extract".toList, .lparen] True := .of_scan_nil (by decide)
    have hmetadata : ReadsIff .blank "metadata, ".toList .blank
        [.word "metadata".toList, .comma] True := .of_scan_nil (by decide)
    have hpath : Plain "$.".toList := by decide
    have hquoted := ReadsIff.quoted field.toList hpath
    have hblank : ReadsIff .blank [' '] .blank [] True := .of_scan_nil (by decide)
    have htext : fieldText (tableName kbId) field ++ [' '] =
        "json_extract(".toList ++ ((tableName kbId ++ ['.']) ++ ("metadata, ".toList ++
          (('\'' :: "$.".toList ++ field.toList ++ ['\'', ')']) ++ [' ']))) := by
      have hsplit : ".metadata, '$.".toList =
          '.' :: ("metadata, ".toList ++ '\'' :: "$.".toList) := rfl
      unfold fieldText
      simp only [if_neg hreal, hsplit, List.append_assoc, List.cons_append, List.nil_append]
    have htokens : (fieldExpr (tableName kbId) field).tokens =
        [.word "json_extract".toList, .lparen] ++ ([.word (tableName kbId), .dot] ++
          ([.word "metadata".toList, .comma] ++
            ([.literal ("$.".toList ++ field.toList), .rparen] ++ []))) := by
      simp only [fieldExpr, if_neg hreal, SqlExpr.tokens, SqlBinary.token, List.cons_append,
        List.nil_append]
    have hread := hopen.append ((reads_table kbId).append
      (hmetadata.append (hquoted.append hblank)))
    rw [htext, htokens]
    exact hread.congr (by simp [FieldPlain, hreal])

theorem reads_cast (kbId field : String) :
    ReadsIff .blank (castText (tableName kbId) field) .blank
      (castExpr (tableName kbId) field).tokens (FieldPlain field) := by
  have hopen : ReadsIff .blank "CAST(".toList .blank [.keyword .cast, .lparen] True :=
    .of_scan_nil (by decide)
  have hclose : ReadsIff .blank "AS TEXT)".toList .blank
      [.keyword .as, .word "TEXT".toList, .rparen] True := .of_scan_nil (by decide)
  have htext : castText (tableName kbId) field = "CAST(".toList ++
      ((fieldText (tableName kbId) field ++ [' ']) ++ "AS TEXT)".toList) := by
    have hsplit : " AS TEXT)".toList = [' '] ++ "AS TEXT)".toList := rfl
    unfold castText
    simp only [hsplit, List.append_assoc]
  have htokens : (castExpr (tableName kbId) field).tokens = [.keyword .cast, .lparen] ++
      ((fieldExpr (tableName kbId) field).tokens ++
        [.keyword .as, .word "TEXT".toList, .rparen]) := by
    simp only [castExpr, SqlExpr.tokens, List.cons_append, List.nil_append]
  rw [htext, htokens]
  exact (hopen.append ((reads_field kbId field).append hclose)).congr (by simp)

/-- A field that is compared with a parameter. -/
theorem reads_order (kbId field rest : String) {sign : SqlSign}
    (hrest : scan (.blank, []) rest.toList = some (.blank, [.sign sign, .param])) :
    ReadsIff .blank (fieldText (tableName kbId) field ++ ' ' :: rest.toList) .blank
      (SqlExpr.binary (.sign sign) (fieldExpr (tableName kbId) field) .param).tokens
      (FieldPlain field) := by
  have htext : fieldText (tableName kbId) field ++ ' ' :: rest.toList =
      (fieldText (tableName kbId) field ++ [' ']) ++ rest.toList := by simp
  rw [htext]
  exact ((reads_field kbId field).append (.of_scan_nil hrest)).congr (by simp)

/-- A field as text, and what comes after it. -/
theorem reads_cast_then (kbId field rest : String) {ts : List SqlToken}
    (hrest : scan (.blank, []) rest.toList = some (.blank, ts)) :
    ReadsIff .blank (castText (tableName kbId) field ++ rest.toList) .blank
      ((castExpr (tableName kbId) field).tokens ++ ts) (FieldPlain field) :=
  ((reads_cast kbId field).append (.of_scan_nil hrest)).congr (by simp)

theorem reads_params (values : List Json) :
    ReadsIff .blank ([','].intercalate (values.map fun _ => ['?'])) .blank
      (shown (paramsExpr values)) True := by
  have hcomma : ReadsIff .blank [','] .blank [.comma] True := .of_scan_nil (by decide)
  have hparam : ∀ v ∈ values, ReadsIff .blank ['?'] .blank [.param] True :=
    fun _ _ => .of_scan_nil (by decide)
  have htokens : shown (paramsExpr values) =
      [.comma].intercalate (values.map fun _ => [SqlToken.param]) := by
    rw [paramsExpr, shown_joined, List.map_map]
    rfl
  rw [htokens]
  exact (ReadsIff.intercalate hcomma hparam).congr (by simp)

theorem reads_clause (kbId : String) (clause : FilterClause) :
    ReadsIff .blank (clauseText (tableName kbId) clause) .blank
      (clauseExpr (tableName kbId) clause).tokens (FieldPlain clause.field) := by
  unfold clauseText clauseExpr
  cases clause.op with
  | eq => exact reads_cast_then kbId clause.field " = CAST(? AS TEXT)" (by decide)
  | ne => exact reads_cast_then kbId clause.field " <> CAST(? AS TEXT)" (by decide)
  | gt => exact reads_order kbId clause.field "> ?" (by decide)
  | ge => exact reads_order kbId clause.field ">= ?" (by decide)
  | lt => exact reads_order kbId clause.field "< ?" (by decide)
  | le => exact reads_order kbId clause.field "<= ?" (by decide)
  | contains => exact reads_cast_then kbId clause.field " LIKE ?" (by decide)
  | isIn =>
    have hin : scan (.blank, []) " IN (".toList = some (.blank, [.keyword .in, .lparen]) := by
      decide
    have hopen := reads_cast_then kbId clause.field " IN (" hin
    have hclose : ReadsIff .blank [')'] .blank [.rparen] True := .of_scan_nil (by decide)
    have hlist := hopen.append ((reads_params (listValue clause.value)).append hclose)
    simp only [List.append_assoc] at hlist ⊢
    cases hparams : paramsExpr (listValue clause.value) with
    | none => simpa [shown, hparams, SqlExpr.tokens] using hlist
    | some items => simpa [shown, hparams, SqlExpr.tokens] using hlist

theorem token_keywordOp {join : SqlKeyword} (h : join = .and ∨ join = .or) :
    (keywordOp join).token = .keyword join := by
  rcases h with rfl | rfl <;> rfl

theorem reads_group (kbId : String) {join : SqlKeyword} (hjoin : join = .and ∨ join = .or)
    {clauses : List FilterClause} (hne : clauses ≠ []) :
    ReadsIff .blank (groupText (tableName kbId) join clauses) .blank
      (shown (groupExpr (tableName kbId) join clauses)) (∀ c ∈ clauses, FieldPlain c.field) := by
  have hopen : ReadsIff .blank ['('] .blank [.lparen] True := .of_scan_nil (by decide)
  have hclose : ReadsIff .blank [')'] .blank [.rparen] True := .of_scan_nil (by decide)
  have hsep : ReadsIff .blank (" ".toList ++ join.text.toList ++ " ".toList) .blank
      [.keyword join] True := by
    rcases hjoin with rfl | rfl
    · exact .of_scan_nil (by decide)
    · exact .of_scan_nil (by decide)
  have hclauses := ReadsIff.intercalate hsep fun c (_ : c ∈ clauses) => reads_clause kbId c
  have htokens : shown (groupExpr (tableName kbId) join clauses) = [.lparen] ++
      ([.keyword join].intercalate
        (clauses.map fun c => (clauseExpr (tableName kbId) c).tokens) ++ [.rparen]) := by
    have hshown := shown_joined (keywordOp join) (clauses.map (clauseExpr (tableName kbId)))
    rw [token_keywordOp hjoin, List.map_map] at hshown
    cases hj : joined (keywordOp join) (clauses.map (clauseExpr (tableName kbId))) with
    | none =>
      obtain ⟨c, cs, rfl⟩ := List.exists_cons_of_ne_nil hne
      simp [joined] at hj
    | some e =>
      rw [hj] at hshown
      have he : e.tokens = [.keyword join].intercalate
          (clauses.map fun c => (clauseExpr (tableName kbId) c).tokens) := hshown
      simp [shown, groupExpr, hj, SqlExpr.tokens, he]
  rw [htokens]
  exact (hopen.append (hclauses.append hclose)).congr (by simp)

theorem join_of_mem_groups {f : FilterExpr} {g : SqlKeyword × List FilterClause}
    (hg : g ∈ groups f) : (g.1 = .and ∨ g.1 = .or) ∧ g.2 ≠ [] := by
  obtain ⟨hmem, hne⟩ := List.mem_filter.mp hg
  simp only [List.mem_cons, List.not_mem_nil, or_false] at hmem
  rcases hmem with rfl | rfl
  · exact ⟨Or.inl rfl, by simpa using hne⟩
  · exact ⟨Or.inr rfl, by simpa using hne⟩

theorem mem_groups {f : FilterExpr} {P : FilterClause → Prop} :
    (∀ g ∈ groups f, ∀ c ∈ g.2, P c) ↔ ∀ c ∈ f.asList, P c := by
  have hgroup (join : SqlKeyword) (clauses : List FilterClause) :
      (∀ g ∈ [(join, clauses)].filter fun g => !g.2.isEmpty, ∀ c ∈ g.2, P c) ↔
        ∀ c ∈ clauses, P c := by
    cases clauses with
    | nil => simp
    | cons c cs => simp
  have hgroups : groups f = [(SqlKeyword.and, f.and_.getD [])].filter (fun g => !g.2.isEmpty) ++
      [(SqlKeyword.or, f.or_.getD [])].filter (fun g => !g.2.isEmpty) := by
    rw [← List.filter_append]
    rfl
  rw [hgroups, List.forall_mem_append, hgroup, hgroup, ← List.forall_mem_append]
  rfl

theorem groupExpr_eq_some (join : SqlKeyword) {clauses : List FilterClause} (hne : clauses ≠ []) :
    ∃ e, groupExpr table join clauses = some (.paren e) ∧
      joined (keywordOp join) (clauses.map (clauseExpr table)) = some e := by
  obtain ⟨c, cs, rfl⟩ := List.exists_cons_of_ne_nil hne
  exact ⟨_, rfl, rfl⟩

theorem reads_predicate (kbId : String) (f : FilterExpr) :
    ReadsIff .blank (predicateText (tableName kbId) f) .blank
      (shown (predicateExpr (tableName kbId) f)) (∀ c ∈ f.asList, FieldPlain c.field) := by
  have hsep : ReadsIff .blank " AND ".toList .blank [.keyword .and] True :=
    .of_scan_nil (by decide)
  have hgroups := ReadsIff.intercalate hsep fun g (hg : g ∈ groups f) =>
    reads_group kbId (join_of_mem_groups hg).1 (join_of_mem_groups hg).2
  have hmap (gs : List (SqlKeyword × List FilterClause)) (hgs : ∀ g ∈ gs, g ∈ groups f) :
      (gs.filterMap fun g => groupExpr (tableName kbId) g.1 g.2).map SqlExpr.tokens =
        gs.map fun g => shown (groupExpr (tableName kbId) g.1 g.2) := by
    induction gs with
    | nil => rfl
    | cons g gs ih =>
      have hne := (join_of_mem_groups (hgs g List.mem_cons_self)).2
      obtain ⟨e, he, _⟩ := groupExpr_eq_some (tableName kbId) g.1 hne
      have hrest := ih fun x hx => hgs x (List.mem_cons_of_mem g hx)
      simp [he, hrest, shown]
  rw [predicateExpr, shown_joined, hmap _ fun _ h => h]
  exact hgroups.congr mem_groups

/-! ## The predicates are levelled -/

theorem levelled_joined {op : SqlBinary} {es : List SqlExpr} {e : SqlExpr}
    (hes : ∀ x ∈ es, x.Levelled ∧ op.precedence < x.level) (h : joined op es = some e) :
    e.Levelled ∧ op.precedence ≤ e.level := by
  cases es with
  | nil => simp [joined] at h
  | cons x xs =>
    obtain ⟨hx, hxs⟩ := List.forall_mem_cons.mp hes
    obtain rfl : xs.foldl (.binary op) x = e := Option.some.inj h
    have hfirst : x.Levelled ∧ op.precedence ≤ x.level := ⟨hx.1, Nat.le_of_lt hx.2⟩
    clear hx h hes
    induction xs generalizing x with
    | nil => exact hfirst
    | cons y ys ih =>
      obtain ⟨hy, hys⟩ := List.forall_mem_cons.mp hxs
      exact ih _ hys ⟨⟨hfirst.1, hy.1, hfirst.2, hy.2⟩, Nat.le_refl _⟩

theorem levelled_fieldExpr (field : String) :
    (fieldExpr table field).Levelled ∧ (fieldExpr table field).level = 5 := by
  unfold fieldExpr
  split_ifs
  · exact ⟨trivial, rfl⟩
  · simp [SqlExpr.Levelled, SqlExpr.level, SqlBinary.precedence]

theorem levelled_clauseExpr (clause : FilterClause) :
    (clauseExpr table clause).Levelled ∧ 3 ≤ (clauseExpr table clause).level := by
  obtain ⟨hfield, hlevel⟩ := levelled_fieldExpr table clause.field
  have hcompare (op : SqlBinary) (hop : 3 ≤ op.precedence) (left right : SqlExpr)
      (hleft : left.Levelled ∧ left.level = 5) (hright : right.Levelled ∧ right.level = 5) :
      (SqlExpr.binary op left right).Levelled ∧ 3 ≤ (SqlExpr.binary op left right).level := by
    have hlt := SqlParser.precedence_lt op
    exact ⟨⟨hleft.1, hright.1, by omega, by omega⟩, hop⟩
  have hcast : (castExpr table clause.field).Levelled ∧ (castExpr table clause.field).level = 5 :=
    ⟨hfield, rfl⟩
  have hparam : SqlExpr.param.Levelled ∧ SqlExpr.param.level = 5 := ⟨trivial, rfl⟩
  have hcastParam : castParam.Levelled ∧ castParam.level = 5 := ⟨trivial, rfl⟩
  unfold clauseExpr
  cases clause.op with
  | eq => exact hcompare (.sign .eq) (by decide) _ _ hcast hcastParam
  | ne => exact hcompare (.sign .ne) (by decide) _ _ hcast hcastParam
  | gt => exact hcompare (.sign .gt) (by decide) _ _ ⟨hfield, hlevel⟩ hparam
  | ge => exact hcompare (.sign .ge) (by decide) _ _ ⟨hfield, hlevel⟩ hparam
  | lt => exact hcompare (.sign .lt) (by decide) _ _ ⟨hfield, hlevel⟩ hparam
  | le => exact hcompare (.sign .le) (by decide) _ _ ⟨hfield, hlevel⟩ hparam
  | contains => exact hcompare .like (by decide) _ _ hcast hparam
  | isIn =>
    have hweak : 3 ≤ (castExpr table clause.field).level := by
      rw [hcast.2]
      decide
    cases hparams : paramsExpr (listValue clause.value) with
    | none => exact ⟨⟨hcast.1, hweak⟩, Nat.le_refl 3⟩
    | some items =>
      have hitems : items.Levelled := by
        refine (levelled_joined ?_ hparams).1
        intro x hx
        obtain ⟨_, _, rfl⟩ := List.mem_map.mp hx
        exact ⟨trivial, SqlParser.precedence_lt _⟩
      exact ⟨⟨hcast.1, hweak, hitems⟩, Nat.le_refl 3⟩

theorem levelled_predicateExpr {f : FilterExpr} {e : SqlExpr} (h : predicateExpr table f = some e) :
    e.Levelled := by
  refine (levelled_joined ?_ h).1
  intro x hx
  obtain ⟨g, hg, hgroup⟩ := List.mem_filterMap.mp hx
  obtain ⟨hjoin, hne⟩ := join_of_mem_groups hg
  obtain ⟨e', he', hjoined⟩ := groupExpr_eq_some table g.1 hne
  obtain rfl : SqlExpr.paren e' = x := Option.some.inj (he'.symm.trans hgroup)
  refine ⟨(levelled_joined ?_ hjoined).1, SqlParser.precedence_lt .and⟩
  intro y hy
  obtain ⟨c, _, rfl⟩ := List.mem_map.mp hy
  obtain ⟨hc, hlevel⟩ := levelled_clauseExpr table c
  refine ⟨hc, Nat.lt_of_lt_of_le ?_ hlevel⟩
  rcases hjoin with hj | hj
  · rw [hj]
    decide
  · rw [hj]
    decide

/-! ## What the predicates say -/

/-- How many values an expression takes. -/
def paramCount : SqlExpr → ℕ
  | .param => 1
  | .number _ | .literal _ | .column _ _ => 0
  | .paren e | .call _ e | .cast e _ | .inEmpty e => paramCount e
  | .inList e items => paramCount e + paramCount items
  | .binary _ left right => paramCount left + paramCount right

/-- Whether a predicate is true, given which of its comparisons are. -/
def truth (atom : SqlExpr → Bool) : SqlExpr → Bool
  | .paren e => truth atom e
  | .binary .and left right => truth atom left && truth atom right
  | .binary .or left right => truth atom left || truth atom right
  | e => atom e

theorem paramCount_joined (op : SqlBinary) (es : List SqlExpr) :
    ((joined op es).map paramCount).getD 0 = (es.map paramCount).sum := by
  cases es with
  | nil => rfl
  | cons e es =>
    show paramCount (es.foldl (.binary op) e) = _
    induction es generalizing e with
    | nil => simp
    | cons x xs ih =>
      rw [List.foldl_cons, ih]
      simp [paramCount, Nat.add_assoc]

theorem paramCount_clauseExpr (str : PyStr) (clause : FilterClause) :
    paramCount (clauseExpr table clause) = (clauseParams str clause).length := by
  have hfield : paramCount (fieldExpr table clause.field) = 0 := by
    unfold fieldExpr
    split_ifs
    · rfl
    · rfl
  unfold clauseExpr clauseParams
  cases clause.op with
  | isIn =>
    have hvalues := paramCount_joined .comma ((listValue clause.value).map fun _ => .param)
    rw [← paramsExpr, List.map_map] at hvalues
    simp only [List.length_map]
    cases hparams : paramsExpr (listValue clause.value) with
    | none =>
      rw [hparams] at hvalues
      simpa [paramCount, castExpr, hfield, Function.comp_def] using hvalues
    | some items =>
      rw [hparams] at hvalues
      simpa [paramCount, castExpr, hfield, Function.comp_def] using hvalues
  | _ => simp [paramCount, castExpr, castParam, hfield]

/-- The parsed predicate takes exactly the values that are bound. -/
theorem paramCount_predicateExpr (str : PyStr) (f : FilterExpr) :
    ((predicateExpr table f).map paramCount).getD 0 = (predicateParams str f).length := by
  have hgroup (g : SqlKeyword × List FilterClause) :
      ((groupExpr table g.1 g.2).map paramCount).getD 0 =
        (g.2.flatMap (clauseParams str)).length := by
    have hclauses := paramCount_joined (keywordOp g.1) (g.2.map (clauseExpr table))
    rw [groupExpr, Option.map_map, List.length_flatMap]
    simp only [List.map_map, Function.comp_def, paramCount_clauseExpr table str] at hclauses
    exact hclauses
  rw [predicateExpr, paramCount_joined, predicateParams, List.length_flatMap]
  induction groups f with
  | nil => rfl
  | cons g gs ih =>
    have hg := hgroup g
    cases he : groupExpr table g.1 g.2 with
    | none =>
      rw [he] at hg
      simp only [List.filterMap_cons, he, List.map_cons, List.sum_cons, ih]
      simpa using hg.symm
    | some e =>
      rw [he] at hg
      simp only [List.filterMap_cons, he, List.map_cons, List.sum_cons, ih]
      simpa using hg

theorem truth_clauseExpr (atom : SqlExpr → Bool) (clause : FilterClause) :
    truth atom (clauseExpr table clause) = atom (clauseExpr table clause) := by
  unfold clauseExpr
  cases clause.op with
  | isIn => cases paramsExpr (listValue clause.value) <;> rfl
  | _ => rfl

theorem truth_joined (atom : SqlExpr → Bool) (es : List SqlExpr) :
    ((joined .and es).map (truth atom)).getD true = es.all (truth atom) ∧
      ((joined .or es).map (truth atom)).getD false = es.any (truth atom) := by
  cases es with
  | nil => exact ⟨rfl, rfl⟩
  | cons e es =>
    show truth atom (es.foldl (.binary .and) e) = _ ∧ truth atom (es.foldl (.binary .or) e) = _
    induction es using List.reverseRecOn with
    | nil => simp
    | append_singleton es x ih =>
      rw [List.foldl_append, List.foldl_append, List.foldl_cons, List.foldl_cons, List.foldl_nil,
        List.foldl_nil, truth, truth, ih.1, ih.2]
      simp [Bool.and_assoc, Bool.or_assoc]

/-- The predicate is the conjunction of the `and` clauses and of the disjunction of the `or`
clauses, if there are any. -/
theorem truth_predicateExpr (atom : SqlExpr → Bool) (f : FilterExpr) :
    ((predicateExpr table f).map (truth atom)).getD true =
      (((f.and_.getD []).all fun c => atom (clauseExpr table c)) &&
        ((f.or_.getD []).isEmpty || (f.or_.getD []).any fun c => atom (clauseExpr table c))) := by
  have hand (cs : List FilterClause) :
      ((joined .and (cs.map (clauseExpr table))).map (truth atom)).getD true =
        cs.all fun c => atom (clauseExpr table c) := by
    rw [(truth_joined atom _).1, List.all_map]
    simp only [Function.comp_def, truth_clauseExpr]
  have hor (cs : List FilterClause) :
      ((joined .or (cs.map (clauseExpr table))).map (truth atom)).getD false =
        cs.any fun c => atom (clauseExpr table c) := by
    rw [(truth_joined atom _).2, List.any_map]
    simp only [Function.comp_def, truth_clauseExpr]
  rw [predicateExpr, (truth_joined atom _).1]
  cases hands : f.and_.getD [] with
  | nil =>
    cases hors : f.or_.getD [] with
    | nil => simp [groups, hands, hors]
    | cons d ds =>
      have hvalue := hor (d :: ds)
      simp only [List.map_cons, joined, Option.map_some, Option.getD_some] at hvalue
      simp [groups, hands, hors, groupExpr, keywordOp, joined, truth, hvalue]
  | cons c cs =>
    have hfirst := hand (c :: cs)
    simp only [List.map_cons, joined, Option.map_some, Option.getD_some] at hfirst
    cases hors : f.or_.getD [] with
    | nil => simp [groups, hands, hors, groupExpr, keywordOp, joined, truth, hfirst]
    | cons d ds =>
      have hvalue := hor (d :: ds)
      simp only [List.map_cons, joined, Option.map_some, Option.getD_some] at hvalue
      simp [groups, hands, hors, groupExpr, keywordOp, joined, truth, hfirst, hvalue]

/-- A text that is no predicate is empty, and adds no `WHERE`. -/
def ParsesTo (text : List Char) : Option SqlExpr → Prop
  | none => text = []
  | some e => (lex text).bind SqlParser.parse = some e

instance (text : List Char) (e : Option SqlExpr) : Decidable (ParsesTo text e) := by
  cases e <;> exact inferInstanceAs (Decidable (_ = _))

theorem parsesTo_iff (kbId : String) (f : FilterExpr) :
    ParsesTo (predicateText (tableName kbId) f) (predicateExpr (tableName kbId) f) ↔
      ∀ c ∈ f.asList, FieldPlain c.field := by
  cases he : predicateExpr (tableName kbId) f with
  | some e =>
    have hread := lex_eq_some_iff (reads_predicate kbId f)
    rw [he] at hread
    have hlevelled := levelled_predicateExpr (tableName kbId) he
    rw [← hread]
    constructor
    · intro h
      obtain ⟨ts, hlex, hparse⟩ := Option.bind_eq_some_iff.mp h
      rw [hlex, (SqlParser.parse_eq_some_iff hlevelled).mp hparse]
      rfl
    · intro h
      show (lex _).bind SqlParser.parse = some e
      rw [h, Option.bind_some, SqlParser.parse_eq_some_iff hlevelled]
      rfl
  | none =>
    -- no group has a clause
    have hgroups : groups f = [] := by
      refine List.eq_nil_iff_forall_not_mem.mpr fun g hg => ?_
      obtain ⟨e, hgroup, _⟩ :=
        groupExpr_eq_some (tableName kbId) g.1 (join_of_mem_groups hg).2
      have hmem : SqlExpr.paren e ∈ (groups f).filterMap fun g =>
          groupExpr (tableName kbId) g.1 g.2 := List.mem_filterMap.mpr ⟨g, hg, hgroup⟩
      rw [predicateExpr] at he
      cases hall : (groups f).filterMap fun g => groupExpr (tableName kbId) g.1 g.2 with
      | nil => simp [hall] at hmem
      | cons x xs => simp [hall, joined] at he
    refine iff_of_true ?_ (mem_groups.mp ?_)
    · show predicateText (tableName kbId) f = []
      rw [predicateText, hgroups]
      rfl
    · rw [hgroups]
      simp

/-- The text says what is meant: it parses to the intended predicates, these take the bound
values, and they are one conjunction of clauses. -/
structure Intended (kbId : String) (str : PyStr) (f : FilterExpr) : Prop where
  parses : ParsesTo (predicateText (tableName kbId) f) (predicateExpr (tableName kbId) f)
  bound : ((predicateExpr (tableName kbId) f).map paramCount).getD 0 =
    (predicateParams str f).length
  conjunction : ∀ atom, ((predicateExpr (tableName kbId) f).map (truth atom)).getD true =
    (((f.and_.getD []).all fun c => atom (clauseExpr (tableName kbId) c)) &&
      ((f.or_.getD []).isEmpty ||
        (f.or_.getD []).any fun c => atom (clauseExpr (tableName kbId) c)))

/-- A filter becomes the predicates that are meant exactly if no field that is put between quotes
has a quote or a null character in it. -/
theorem intended_iff_fieldPlain (kbId : String) (str : PyStr) (f : FilterExpr) :
    Intended kbId str f ↔ ∀ c ∈ f.asList, FieldPlain c.field := by
  rw [← parsesTo_iff kbId f]
  exact ⟨fun h => h.parses, fun h => ⟨h, paramCount_predicateExpr _ str f,
    fun atom => truth_predicateExpr _ atom f⟩⟩

/-- A field that closes the literal and the group, and comments out the rest. -/
def escapingField : FilterClause := ⟨"x') > ? OR ? <> 0) --", .gt, .num 0⟩

/-- The filter that is handed to the store. -/
def escapingFilter : FilterExpr :=
  QueryService.excludeCache (some { and_ := some [escapingField] })

/-- What the database reads: any row for which the second value is not zero. -/
def escapedExpr : SqlExpr :=
  .paren (.binary .or
    (.binary (.sign .gt) (fieldExpr "chunks_kb".toList "x") .param)
    (.binary (.sign .ne) .param (.number ['0'])))

theorem not_intended_escapingField :
    validateFilter (some { and_ := some [escapingField] }) = .ok () ∧
      ParsesTo (predicateText (tableName "kb") escapingFilter) (some escapedExpr) ∧
      ¬ Intended "kb" (fun _ => "") escapingFilter := by
  have hparsed : ParsesTo (predicateText (tableName "kb") escapingFilter) (some escapedExpr) := by
    decide +kernel
  refine ⟨rfl, hparsed, fun h => ?_⟩
  have hdifferent : predicateExpr (tableName "kb") escapingFilter ≠ some escapedExpr := by
    decide +kernel
  have hsome : (predicateExpr (tableName "kb") escapingFilter).isSome = true := by decide +kernel
  obtain ⟨e, he⟩ := Option.isSome_iff_exists.mp hsome
  have hmeant := h.parses
  rw [he] at hmeant hdifferent
  exact hdifferent (hmeant.symm.trans hparsed)

end FilterSql

end Ragx
