import Ragx.Chunker
import Ragx.KgMerge
import Ragx.Patterns

/-!
# Rule-based extraction

Without the small models, entities are read off a text by three regular expressions, and relations
between them by three more. Of every match of the latter the first two groups are taken as the ends
of the relation, whatever the groups of that expression are for.
-/
namespace Ragx.SmallModels

open Patterns

def confidence : ℚ := 11 / 20

/-! ## Entities -/

def isCjk (c : Char) : Bool := inRange '\u4e00' '\u9fff' c

def isUpper (c : Char) : Bool := inRange 'A' 'Z' c

def isLatin (c : Char) : Bool := isUpper c || inRange 'a' 'z' c

/-- `[A-Z][A-Za-z]` with so many letters behind the first at least. -/
def capitalised (n : ℕ) : Pattern := .seq (.char isUpper) (.many (.char isLatin) n none)

def blanks (min : ℕ) : Pattern := .many (.char isWhitespace) min none

def cnPhrase : Pattern :=
  .seq (.many (.char isCjk) 2 (some 6)) <|
  .many (.seq (.many (.char fun c => isCjk c || ['、', '，', ' '].contains c) 1 none)
    (.many (.char isCjk) 1 (some 6))) 0 (some 1)

def enProperNoun (isWord : Char → Bool) : Pattern :=
  .seq (.notAfter isLatin) <| .seq (capitalised 2) <|
  .seq (.many (.seq (blanks 1) (capitalised 2)) 0 none) (.boundary isWord)

/-- The straight quotes in the source end a literal and begin the next, and are not part of the
expression. -/
def quoted : Pattern :=
  .seq (.char (· == '「')) <| .seq (.group 1 (.many (.char (· != '」')) 2 (some 30)))
    (.char (· == '」'))

def entityPatterns (isWord : Char → Bool) : List Pattern := [quoted, enProperNoun isWord, cnPhrase]

def isMark (c : Char) : Bool := [' ', '「', '」'].contains c

def stripMarks (cs : List Char) : List Char :=
  ((cs.dropWhile isMark).reverse.dropWhile isMark).reverse

def nameOf (m : Match) : String := String.ofList (stripMarks m.text)

/-- The names seen so far are those of the entities. -/
def addEntity (primary : String) (out : List ExtractedEntity) (m : Match) :
    List ExtractedEntity :=
  let name := nameOf m
  if name = "" ∨ name ∈ out.map (·.name) then out
  else out ++ [{ name, type := primary, description := name ++ "是一个" ++ primary, confidence }]

def entityMatches (isWord : Char → Bool) (text : String) : List Match :=
  (entityPatterns isWord).flatMap fun p => finditer p text.toList

def extractEntitiesRule (isWord : Char → Bool) (text : String) (types : List String) :
    List ExtractedEntity :=
  (entityMatches isWord text).foldl (addEntity (types.head?.getD "concept")) []

/-! ## Relations -/

inductive RelationPattern where
  /-- `X 是 Y`. -/
  | isA
  /-- `X uses Y`, `X contains Y`. -/
  | uses
  /-- `X 的 Y 是 Z`. -/
  | ofIs
deriving DecidableEq

def isTerm (c : Char) : Bool := isCjk c || isLatin c

def verb : Pattern :=
  .either (.word 'u' "ses".toList) <| .either (.word 'c' "ontains".toList) <|
  .either (.word 'i' "ncludes".toList) (.word 'h' "as".toList)

def RelationPattern.pattern : RelationPattern → Pattern
  | .isA =>
    .seq (.group 1 (.many (.char isTerm) 2 (some 20))) <| .seq (blanks 0) <|
    .seq (.char (· == '是')) <| .seq (blanks 0) (.group 2 (.many (.char isTerm) 2 (some 20)))
  | .uses =>
    .seq (.group 1 (capitalised 1)) <| .seq (blanks 1) <| .seq (.group 2 verb) <|
    .seq (blanks 1) (.group 3 (capitalised 1))
  | .ofIs =>
    .seq (.group 1 (.many (.char isCjk) 2 (some 10))) <| .seq (blanks 0) <|
    .seq (.char (· == '的')) <| .seq (blanks 0) <|
    .seq (.group 2 (.many (.char isCjk) 2 (some 10))) <| .seq (blanks 0) <|
    .seq (.char (· == '是')) <| .seq (blanks 0) (.group 3 (.many (.char isCjk) 2 (some 20)))

def relationPatterns : List RelationPattern := [.isA, .uses, .ofIs]

/-- The relation that a match gives between two of the names. -/
def relationOf (names : List String) (weight : ℚ) (p : RelationPattern) (m : Match) :
    Option ExtractedRelation :=
  match (m.groupTexts p.pattern).filterMap fun g => g.filter (· ≠ []) with
  | x :: y :: _ =>
    let head := String.ofList x
    let tail := String.ofList y
    if head ∈ names ∧ tail ∈ names ∧ head ≠ tail then
      some {
        head, tail, type := if p = .ofIs then "related_to" else "is_a"
        description := String.ofList m.text, weight }
    else none
  | _ => none

def extractRelationsRule (text : String) (entities : List ExtractedEntity) (weight : ℚ) :
    List ExtractedRelation :=
  relationPatterns.flatMap fun p =>
    (finditer p.pattern text.toList).filterMap (relationOf (entities.map (·.name)) weight p)

def ruleBasedExtract (isWord : Char → Bool) (text : String) (entityTypes : List String) :
    ExtractionResult :=
  let entities := extractEntitiesRule isWord text entityTypes
  { entities, relations := extractRelationsRule text entities confidence }

/-! ## The names -/

section Names

variable (isWord : Char → Bool) (text : String) (types : List String)

theorem names_foldl_addEntity (primary : String) (ms : List Match) :
    (ms.foldl (addEntity primary) []).map (·.name) =
      firstSeen ((ms.map nameOf).filter (· ≠ "")) := by
  induction ms using List.reverseRecOn with
  | nil => rfl
  | append_singleton ms m ih =>
    rw [List.foldl_append, List.map_append, List.filter_append, List.foldl_cons, List.foldl_nil,
      List.map_singleton, addEntity, ih]
    by_cases hempty : nameOf m = ""
    · rw [if_pos (.inl hempty), ih, List.filter_singleton, hempty]
      simp
    · rw [List.filter_singleton, decide_eq_true hempty, cond_true, firstSeen_concat]
      by_cases hseen : nameOf m ∈ firstSeen ((ms.map nameOf).filter (· ≠ ""))
      · rw [if_pos (.inr hseen), if_pos hseen, ih]
      · rw [if_neg (not_or.mpr ⟨hempty, hseen⟩), if_neg hseen, List.map_append, ih]
        rfl

/-- The marks are taken off a match of one of the expressions, and something is left. -/
def Named (name : String) : Prop :=
  ∃ p ∈ entityPatterns isWord, ∃ m ∈ finditer p text.toList, nameOf m = name ∧ name ≠ ""

theorem mem_names {name : String} :
    name ∈ (extractEntitiesRule isWord text types).map (·.name) ↔ Named isWord text name := by
  unfold extractEntitiesRule entityMatches Named
  rw [names_foldl_addEntity, mem_firstSeen, List.mem_filter, List.mem_map, decide_eq_true_iff]
  constructor
  · rintro ⟨⟨m, hm, hname⟩, hne⟩
    obtain ⟨p, hp, hfound⟩ := List.mem_flatMap.mp hm
    exact ⟨p, hp, m, hfound, hname, hne⟩
  · rintro ⟨p, hp, m, hfound, hname, hne⟩
    exact ⟨⟨m, List.mem_flatMap.mpr ⟨p, hp, hfound⟩, hname⟩, hne⟩

theorem infix_stripMarks (cs : List Char) : stripMarks cs <:+: cs := by
  have hfront := List.dropWhile_suffix (p := isMark) (l := cs)
  have hback := List.dropWhile_suffix (p := isMark) (l := (cs.dropWhile isMark).reverse)
  have hrest : stripMarks cs <+: cs.dropWhile isMark := by
    rw [← List.reverse_suffix]
    unfold stripMarks
    rw [List.reverse_reverse]
    exact hback
  exact hrest.isInfix.trans hfront.isInfix

theorem Named.infix_text {name : String} (h : Named isWord text name) :
    name.toList <:+: text.toList := by
  obtain ⟨p, -, m, hm, rfl, -⟩ := h
  obtain ⟨front, back, -, -, htext, -⟩ := mem_finditer hm
  rw [nameOf, String.toList_ofList, htext]
  exact (infix_stripMarks m.text).trans ⟨front, back, by rw [List.append_assoc]⟩

end Names

/-! ## The ends of relations

Entities have distinct names that stand in the text, and a relation joins two of them. What is
missing are relations whose ends are not the first two groups of their match: the main result says
on which texts nothing is missing. -/

/-- The group in which the object stands; the subject is in the first one. -/
def RelationPattern.object : RelationPattern → ℕ
  | .isA => 2
  | .uses | .ofIs => 3

/-- The extraction names entities of the text and relates what the text relates. -/
structure RelatesRightly (text : String) (result : ExtractionResult) : Prop where
  nodup : (result.entities.map (·.name)).Nodup
  ne_empty : ∀ e ∈ result.entities, e.name ≠ ""
  occurs : ∀ e ∈ result.entities, e.name.toList <:+: text.toList
  joins : ∀ r ∈ result.relations, r.head ≠ r.tail ∧
    r.head ∈ result.entities.map (·.name) ∧ r.tail ∈ result.entities.map (·.name)
  relates : ∀ p ∈ relationPatterns, ∀ m ∈ finditer p.pattern text.toList, ∀ x y,
    m.group 1 = some x → m.group p.object = some y → x ≠ y →
      String.ofList x ∈ result.entities.map (·.name) →
      String.ofList y ∈ result.entities.map (·.name) →
      ∃ r ∈ result.relations, r.head = String.ofList x ∧ r.tail = String.ofList y

/-- One of the expressions has a match with these first two groups. -/
def Picked (text : String) (ps : List RelationPattern) (x y : List Char) : Prop :=
  ∃ p ∈ ps, ∃ m ∈ finditer p.pattern text.toList, m.group 1 = some x ∧ m.group 2 = some y

/-- Where a match of the expression is about two entities, some match has them in its first two
groups. -/
def PickedElsewhere (isWord : Char → Bool) (text : String) (p : RelationPattern)
    (ps : List RelationPattern) : Prop :=
  ∀ m ∈ finditer p.pattern text.toList, ∀ x y, m.group 1 = some x → m.group 3 = some y → x ≠ y →
    Named isWord text (String.ofList x) → Named isWord text (String.ofList y) → Picked text ps x y

/-! ## The groups of a match -/

section Groups

variable {c c' : Cursor}

/-- The group is a word that begins with a capital letter. -/
def Capitalised (w : List Char) : Prop := ∃ u us, w = u :: us ∧ isUpper u = true

theorem reads_group_capitalised {index n : ℕ} (h : Reads (.group index (capitalised n)) c c') :
    ∃ w, Capitalised w ∧ c'.groups = (index, w) :: c.groups := by
  obtain ⟨mid, ⟨_, ⟨u, rest, hrest, hu, rfl⟩, hmany⟩, rfl⟩ := h
  obtain ⟨us, hus, -, -, -, hgroups⟩ := reads_many_char hmany
  dsimp only at hus hgroups
  have hconsumed : consumed c mid = u :: us := consumed_eq (by rw [hrest, hus]; rfl)
  exact ⟨u :: us, ⟨u, us, rfl, hu⟩, by rw [hconsumed, hgroups]⟩

/-- A verb begins with a small letter. -/
theorem reads_group_verb {index : ℕ} (h : Reads (.group index verb) c c') :
    ∃ v vs, isUpper v = false ∧ c'.groups = (index, v :: vs) :: c.groups := by
  obtain ⟨mid, hmid, rfl⟩ := h
  have hword {v : Char} {vs : List Char} (hv : isUpper v = false) (h : Reads (.word v vs) c mid) :
      ∃ v vs, isUpper v = false ∧
        (index, consumed c mid) :: mid.groups = (index, v :: vs) :: c.groups := by
    obtain ⟨hrest, hgroups⟩ := reads_word h
    exact ⟨v, vs, hv, by rw [consumed_eq hrest, hgroups]⟩
  obtain h | h | h | h := hmid
  · exact hword rfl h
  · exact hword rfl h
  · exact hword rfl h
  · exact hword rfl h

theorem reads_blanks {n : ℕ} (h : Reads (blanks n) c c') : c'.groups = c.groups := by
  obtain ⟨-, -, -, -, -, hgroups⟩ := reads_many_char h
  exact hgroups

theorem reads_sign {p : Char → Bool} (h : Reads (.char p) c c') : c'.groups = c.groups := by
  obtain ⟨-, -, -, -, rfl⟩ := h
  rfl

variable {text : List Char} {m : Match}

theorem groups_isA (h : m ∈ finditer RelationPattern.isA.pattern text) :
    ∃ x y, m.groups = [(2, y), (1, x)] ∧ x ≠ [] ∧ y ≠ [] := by
  obtain ⟨_, _, _, c', _, hreads, _, hgroups, _⟩ := mem_finditer h
  obtain ⟨c₁, h₁, c₂, h₂, c₃, h₃, c₄, h₄, h₅⟩ := hreads
  obtain ⟨x, -, hx, hgroups₁⟩ := reads_group_many_char h₁
  obtain ⟨y, -, hy, hgroups₅⟩ := reads_group_many_char h₅
  refine ⟨x, y, ?_, List.ne_nil_of_length_pos (by omega), List.ne_nil_of_length_pos (by omega)⟩
  rw [hgroups, hgroups₅, reads_blanks h₄, reads_sign h₃, reads_blanks h₂, hgroups₁]

theorem groups_uses (h : m ∈ finditer RelationPattern.uses.pattern text) :
    ∃ x v vs y, m.groups = [(3, y), (2, v :: vs), (1, x)] ∧ Capitalised x ∧ isUpper v = false ∧
      Capitalised y := by
  obtain ⟨_, _, _, c', _, hreads, _, hgroups, _⟩ := mem_finditer h
  obtain ⟨c₁, h₁, c₂, h₂, c₃, h₃, c₄, h₄, h₅⟩ := hreads
  obtain ⟨x, hx, hgroups₁⟩ := reads_group_capitalised h₁
  obtain ⟨v, vs, hv, hgroups₃⟩ := reads_group_verb h₃
  obtain ⟨y, hy, hgroups₅⟩ := reads_group_capitalised h₅
  refine ⟨x, v, vs, y, ?_, hx, hv, hy⟩
  rw [hgroups, hgroups₅, reads_blanks h₄, hgroups₃, reads_blanks h₂, hgroups₁]

/-- The group is a word of Chinese characters. -/
def Chinese (w : List Char) : Prop := w ≠ [] ∧ ∀ c ∈ w, isCjk c = true

theorem reads_group_chinese {index min : ℕ} {max : Option ℕ} (hmin : 0 < min)
    (h : Reads (.group index (.many (.char isCjk) min max)) c c') :
    ∃ w, Chinese w ∧ c'.groups = (index, w) :: c.groups := by
  obtain ⟨w, hall, hlength, hgroups⟩ := reads_group_many_char h
  exact ⟨w, ⟨List.ne_nil_of_length_pos (by omega), hall⟩, hgroups⟩

theorem groups_ofIs (h : m ∈ finditer RelationPattern.ofIs.pattern text) :
    ∃ x y z, m.groups = [(3, z), (2, y), (1, x)] ∧ Chinese x ∧ Chinese y ∧ Chinese z := by
  obtain ⟨_, _, _, c', _, hreads, _, hgroups, _⟩ := mem_finditer h
  obtain ⟨c₁, h₁, c₂, h₂, c₃, h₃, c₄, h₄, c₅, h₅, c₆, h₆, c₇, h₇, c₈, h₈, h₉⟩ := hreads
  obtain ⟨x, hx, hgroups₁⟩ := reads_group_chinese Nat.two_pos h₁
  obtain ⟨y, hy, hgroups₅⟩ := reads_group_chinese Nat.two_pos h₅
  obtain ⟨z, hz, hgroups₉⟩ := reads_group_chinese Nat.two_pos h₉
  refine ⟨x, y, z, ?_, hx, hy, hz⟩
  rw [hgroups, hgroups₉, reads_blanks h₈, reads_sign h₇, reads_blanks h₆, hgroups₅,
    reads_blanks h₄, reads_sign h₃, reads_blanks h₂, hgroups₁]

/-- Capital letters are not Chinese. -/
theorem Capitalised.not_chinese {w : List Char} (h : Capitalised w) : ¬ Chinese w := by
  rintro ⟨-, hall⟩
  obtain ⟨u, us, rfl, hu⟩ := h
  have hcjk := hall u List.mem_cons_self
  have hA : 'A'.toNat = 65 ∧ 'Z'.toNat = 90 := ⟨rfl, rfl⟩
  have hfirst : '\u4e00'.toNat = 19968 := rfl
  simp only [isUpper, isCjk, inRange, Bool.and_eq_true, decide_eq_true_iff] at hu hcjk
  omega

end Groups

/-! ## The relations of a text -/

section Relations

variable {text : String} {names : List String} {weight : ℚ}

/-- All groups take part in a match, so the first two are picked. -/
theorem exists_picked {p : RelationPattern} {m : Match}
    (h : m ∈ finditer p.pattern text.toList) : ∃ x y rest,
      (m.groupTexts p.pattern).filterMap (fun g => g.filter (· ≠ [])) = x :: y :: rest ∧
        m.group 1 = some x ∧ m.group 2 = some y := by
  cases p with
  | isA =>
    obtain ⟨x, y, hgroups, hx, hy⟩ := groups_isA h
    have hx' : m.group 1 = some x := Match.group_of_groups hgroups 1
    have hy' : m.group 2 = some y := Match.group_of_groups hgroups 2
    have htexts : m.groupTexts RelationPattern.isA.pattern = [m.group 1, m.group 2] := rfl
    refine ⟨x, y, [], ?_, hx', hy'⟩
    rw [htexts, hx', hy']
    simp [hx, hy, Option.filter]
  | uses =>
    obtain ⟨x, v, vs, y, hgroups, ⟨u, us, rfl, -⟩, -, ⟨u', us', rfl, -⟩⟩ := groups_uses h
    have hx' : m.group 1 = some (u :: us) := Match.group_of_groups hgroups 1
    have hv' : m.group 2 = some (v :: vs) := Match.group_of_groups hgroups 2
    have hy' : m.group 3 = some (u' :: us') := Match.group_of_groups hgroups 3
    have htexts : m.groupTexts RelationPattern.uses.pattern =
      [m.group 1, m.group 2, m.group 3] := rfl
    refine ⟨u :: us, v :: vs, [u' :: us'], ?_, hx', hv'⟩
    rw [htexts, hx', hv', hy']
    simp [Option.filter]
  | ofIs =>
    obtain ⟨x, y, z, hgroups, ⟨hx, -⟩, ⟨hy, -⟩, ⟨hz, -⟩⟩ := groups_ofIs h
    have hx' : m.group 1 = some x := Match.group_of_groups hgroups 1
    have hy' : m.group 2 = some y := Match.group_of_groups hgroups 2
    have hz' : m.group 3 = some z := Match.group_of_groups hgroups 3
    have htexts : m.groupTexts RelationPattern.ofIs.pattern =
      [m.group 1, m.group 2, m.group 3] := rfl
    refine ⟨x, y, [z], ?_, hx', hy'⟩
    rw [htexts, hx', hy', hz']
    simp [hx, hy, hz, Option.filter]

/-- The first two groups are the ends, if they are two names. -/
theorem relationOf_eq_some {p : RelationPattern} {m : Match} {r : ExtractedRelation}
    (h : m ∈ finditer p.pattern text.toList) : relationOf names weight p m = some r ↔
      ∃ x y, m.group 1 = some x ∧ m.group 2 = some y ∧
        (String.ofList x ∈ names ∧ String.ofList y ∈ names ∧
          String.ofList x ≠ String.ofList y) ∧
        r = {
          head := String.ofList x, tail := String.ofList y
          type := if p = .ofIs then "related_to" else "is_a"
          description := String.ofList m.text, weight } := by
  obtain ⟨x, y, rest, hpicked, hx, hy⟩ := exists_picked h
  unfold relationOf
  rw [hpicked]
  dsimp only
  rw [hx, hy]
  simp only [Option.ite_none_right_eq_some, Option.some.injEq]
  constructor
  · rintro ⟨hends, rfl⟩
    exact ⟨x, y, rfl, rfl, hends, rfl⟩
  · rintro ⟨x', y', rfl, rfl, hends, rfl⟩
    exact ⟨hends, rfl⟩

theorem mem_extractRelationsRule {entities : List ExtractedEntity} {r : ExtractedRelation} :
    r ∈ extractRelationsRule text entities weight ↔
      ∃ p ∈ relationPatterns, ∃ m ∈ finditer p.pattern text.toList,
        relationOf (entities.map (·.name)) weight p m = some r := by
  unfold extractRelationsRule
  simp only [List.mem_flatMap, List.mem_filterMap]

/-- There is a relation between two names where a match has them in its first two groups. -/
theorem exists_relation_iff {entities : List ExtractedEntity} {x y : List Char} (hne : x ≠ y)
    (hx : String.ofList x ∈ entities.map (·.name)) (hy : String.ofList y ∈ entities.map (·.name)) :
    (∃ r ∈ extractRelationsRule text entities weight,
      r.head = String.ofList x ∧ r.tail = String.ofList y) ↔ Picked text relationPatterns x y := by
  constructor
  · rintro ⟨r, hr, hhead, htail⟩
    obtain ⟨p, hp, m, hm, hrelation⟩ := mem_extractRelationsRule.mp hr
    obtain ⟨x', y', hx', hy', -, rfl⟩ := (relationOf_eq_some hm).mp hrelation
    dsimp only at hhead htail
    rw [String.ofList_injective hhead] at hx'
    rw [String.ofList_injective htail] at hy'
    exact ⟨p, hp, m, hm, hx', hy'⟩
  · rintro ⟨p, hp, m, hm, hx', hy'⟩
    have hends : String.ofList x ≠ String.ofList y := fun h => hne (String.ofList_injective h)
    obtain ⟨r, hrelation, hhead, htail⟩ : ∃ r,
        relationOf (entities.map (·.name)) weight p m = some r ∧
          r.head = String.ofList x ∧ r.tail = String.ofList y :=
      ⟨_, (relationOf_eq_some hm).mpr ⟨x, y, hx', hy', ⟨hx, hy, hends⟩, rfl⟩, rfl, rfl⟩
    exact ⟨r, mem_extractRelationsRule.mpr ⟨p, hp, m, hm, hrelation⟩, hhead, htail⟩

end Relations

/-! ## Which matches can have these ends -/

section Elsewhere

variable {text : String} {m : Match} {x y : List Char}

/-- Two capitalised words are only picked from a match of `X 是 Y`. -/
theorem picked_capitalised (hx : Capitalised x) (hy : Capitalised y) :
    Picked text relationPatterns x y ↔ Picked text [.isA] x y := by
  constructor
  · rintro ⟨p, hp, m, hm, hx', hy'⟩
    cases p with
    | isA => exact ⟨.isA, List.mem_singleton_self _, m, hm, hx', hy'⟩
    | uses =>
      -- the second group is a verb
      obtain ⟨_, v, vs, _, hgroups, -, hv, -⟩ := groups_uses hm
      obtain ⟨u, us, rfl, hu⟩ := hy
      have hverb := (Match.group_of_groups hgroups 2).symm.trans hy'
      obtain ⟨rfl, -⟩ := List.cons.inj (Option.some.inj hverb)
      rw [hu] at hv
      exact nomatch hv
    | ofIs =>
      obtain ⟨x', _, _, hgroups, hchinese, -, -⟩ := groups_ofIs hm
      obtain rfl := Option.some.inj ((Match.group_of_groups hgroups 1).symm.trans hx')
      exact absurd hchinese hx.not_chinese
  · rintro ⟨p, hp, rest⟩
    obtain rfl := List.mem_singleton.mp hp
    exact ⟨.isA, List.mem_cons_self, rest⟩

/-- Two Chinese words are not picked from a match with a verb. -/
theorem picked_chinese (hx : Chinese x) :
    Picked text relationPatterns x y ↔ Picked text [.isA, .ofIs] x y := by
  constructor
  · rintro ⟨p, hp, m, hm, hx', hy'⟩
    cases p with
    | isA => exact ⟨.isA, List.mem_cons_self, m, hm, hx', hy'⟩
    | uses =>
      obtain ⟨x', _, _, _, hgroups, hcapitalised, -, -⟩ := groups_uses hm
      obtain rfl := Option.some.inj ((Match.group_of_groups hgroups 1).symm.trans hx')
      exact absurd hx hcapitalised.not_chinese
    | ofIs => exact ⟨.ofIs, List.mem_cons_of_mem _ List.mem_cons_self, m, hm, hx', hy'⟩
  · rintro ⟨p, hp, rest⟩
    refine ⟨p, ?_, rest⟩
    unfold relationPatterns
    obtain rfl | hp := List.mem_cons.mp hp
    · exact List.mem_cons_self
    · obtain rfl := List.mem_singleton.mp hp
      exact List.mem_cons_of_mem _ (List.mem_cons_of_mem _ List.mem_cons_self)

end Elsewhere

section Extraction

variable (isWord : Char → Bool) (text : String) (types : List String)

/-- Only the last part of the property can fail. -/
theorem relatesRightly_iff : RelatesRightly text (ruleBasedExtract isWord text types) ↔
    ∀ p ∈ relationPatterns, ∀ m ∈ finditer p.pattern text.toList, ∀ x y,
      m.group 1 = some x → m.group p.object = some y → x ≠ y →
        Named isWord text (String.ofList x) → Named isWord text (String.ofList y) →
          Picked text relationPatterns x y := by
  have hnames {name : String} :
      name ∈ (ruleBasedExtract isWord text types).entities.map (·.name) ↔ Named isWord text name :=
    mem_names isWord text types
  constructor
  · intro h p hp m hm x y hx hy hne hnamed hnamed'
    have hx' := hnames.mpr hnamed
    have hy' := hnames.mpr hnamed'
    exact (exists_relation_iff hne hx' hy').mp (h.relates p hp m hm x y hx hy hne hx' hy')
  · intro h
    refine ⟨?_, fun e he => ?_, fun e he => ?_, fun r hr => ?_, ?_⟩
    · unfold ruleBasedExtract extractEntitiesRule
      dsimp only
      rw [names_foldl_addEntity]
      exact firstSeen_nodup _
    · obtain ⟨_, _, _, _, _, hne⟩ := hnames.mp (List.mem_map_of_mem he)
      exact hne
    · exact (hnames.mp (List.mem_map_of_mem he)).infix_text
    · obtain ⟨p, hp, m, hm, hrelation⟩ := mem_extractRelationsRule.mp hr
      obtain ⟨x, y, -, -, ⟨hx, hy, hne⟩, rfl⟩ := (relationOf_eq_some hm).mp hrelation
      exact ⟨hne, hx, hy⟩
    · intro p hp m hm x y hx hy hne hx' hy'
      exact (exists_relation_iff hne hx' hy').mpr
        (h p hp m hm x y hx hy hne (hnames.mp hx') (hnames.mp hy'))

/-- The extraction is right on the texts in which no match of the expressions with three groups is
about two entities, unless a match of an expression has these as its first two groups. -/
theorem relatesRightly_iff_pickedElsewhere :
    RelatesRightly text (ruleBasedExtract isWord text types) ↔
      PickedElsewhere isWord text .uses [.isA] ∧
      PickedElsewhere isWord text .ofIs [.isA, .ofIs] := by
  rw [relatesRightly_iff]
  constructor
  · intro h
    constructor
    · intro m hm x y hx hy hne hnamed hnamed'
      obtain ⟨x', _, _, y', hgroups, hcap, -, hcap'⟩ := groups_uses hm
      have hpicked := h .uses (by decide) m hm x y hx hy hne hnamed hnamed'
      obtain rfl := Option.some.inj ((Match.group_of_groups hgroups 1).symm.trans hx)
      obtain rfl := Option.some.inj ((Match.group_of_groups hgroups 3).symm.trans hy)
      exact (picked_capitalised hcap hcap').mp hpicked
    · intro m hm x y hx hy hne hnamed hnamed'
      obtain ⟨x', _, _, hgroups, hchinese, -, -⟩ := groups_ofIs hm
      have hpicked := h .ofIs (by decide) m hm x y hx hy hne hnamed hnamed'
      obtain rfl := Option.some.inj ((Match.group_of_groups hgroups 1).symm.trans hx)
      exact (picked_chinese hchinese).mp hpicked
  · rintro ⟨huses, hofIs⟩ p hp m hm x y hx hy hne hnamed hnamed'
    cases p with
    | isA => exact ⟨.isA, hp, m, hm, hx, hy⟩
    | uses =>
      obtain ⟨p, hp, hpicked⟩ := huses m hm x y hx hy hne hnamed hnamed'
      obtain rfl := List.mem_singleton.mp hp
      exact ⟨.isA, List.mem_cons_self, hpicked⟩
    | ofIs =>
      obtain ⟨x', _, _, hgroups, hchinese, -, -⟩ := groups_ofIs hm
      have hpicked := hofIs m hm x y hx hy hne hnamed hnamed'
      obtain rfl := Option.some.inj ((Match.group_of_groups hgroups 1).symm.trans hx)
      exact (picked_chinese hchinese).mpr hpicked

end Extraction

/-! ## A sentence with a verb -/

/-- `\w` for ASCII texts. -/
def isAsciiWord (c : Char) : Bool := isLatin c || inRange '0' '9' c || c == '_'

/-- Both ends are entities, and there is no relation. -/
theorem not_relatesRightly_uses :
    ¬ RelatesRightly "Python uses Docker"
      (ruleBasedExtract isAsciiWord "Python uses Docker" ["CONCEPT"]) := by
  intro h
  have hnames : (ruleBasedExtract isAsciiWord "Python uses Docker" ["CONCEPT"]).entities.map
      (·.name) = ["Python", "Docker"] := by decide
  have hnone : (ruleBasedExtract isAsciiWord "Python uses Docker" ["CONCEPT"]).relations.length =
      0 := by decide
  have hmatches : (finditer RelationPattern.uses.pattern "Python uses Docker".toList).map
      (·.groups) = [[(3, "Docker".toList), (2, "uses".toList), (1, "Python".toList)]] := by decide
  obtain ⟨m, hm, hgroups⟩ := List.mem_map.mp (hmatches ▸ List.mem_singleton_self _)
  obtain ⟨r, hr, -⟩ := h.relates .uses (by decide) m hm "Python".toList "Docker".toList
    (Match.group_of_groups hgroups 1) (Match.group_of_groups hgroups 3)
    (by decide) (hnames ▸ by decide) (hnames ▸ by decide)
  rw [List.length_eq_zero_iff.mp hnone] at hr
  exact absurd hr List.not_mem_nil

end Ragx.SmallModels
