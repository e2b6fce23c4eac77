import Ragx.BlankRuns
import Ragx.KgMerge

/-!
# Normal forms of names

Entities are deduplicated by the normal form of their names. Removing the punctuation comes
after stripping, so that white space behind a mark at the end of a name is left over. The main
result says that such names are all that keeps the normal form from being canonical.
-/
namespace Ragx

/-- The compatibility form and the lower case of every code point, with what the Unicode
standard says of them. Punctuation stands for no word character, as which the underscore
counts. -/
structure CodePoints where
  nfkc : Char → List Char
  lower : Char → List Char
  isSpace : Char → Bool
  isWord : Char → Bool
  isPunct : Char → Bool
  nfkc_nfkc : ∀ c, ∀ c' ∈ nfkc c, nfkc c' = [c']
  lower_lower : ∀ c, ∀ c' ∈ lower c, lower c' = [c']
  nfkc_lower : ∀ c, nfkc c = [c] → ∀ c' ∈ lower c, nfkc c' = [c']
  lower_space : ∀ c, isSpace c = true → lower c = [c]
  nfkc_space : ∀ c, isSpace c = true → nfkc c ≠ [] ∧ ∀ c' ∈ nfkc c, isSpace c' = true
  blank_space : isSpace ' ' = true
  nfkc_blank : nfkc ' ' = [' ']
  lower_not_space : ∀ c, isSpace c = false → ∀ c' ∈ lower c, isSpace c' = false
  punct_not_space : ∀ c, isPunct c = true → isSpace c = false
  punct_not_word : ∀ c, isPunct c = true → isWord c = false
  nfkc_punct : ∀ c, isPunct c = true → ∀ c' ∈ (nfkc c).flatMap lower, isWord c' = false
  nfkc_case : ∀ c c', lower c = lower c' → (nfkc c).flatMap lower = (nfkc c').flatMap lower

namespace CodePoints

variable (p : CodePoints)

def tables : UnicodeTables where
  nfkc s := String.ofList (s.toList.flatMap p.nfkc)
  lower s := String.ofList (s.toList.flatMap p.lower)
  isSpace := p.isSpace
  isWord := p.isWord

/-- What the removal of the punctuation leaves. -/
def keeps (c : Char) : Bool := p.isWord c || p.isSpace c

/-- The stripped name in lower case. -/
def folded (name : String) : List Char :=
  (BlankRuns.trim p.isSpace (name.toList.flatMap p.nfkc)).flatMap p.lower

/-- White space is the first thing that the removal of the punctuation leaves. -/
def GapAtStart (name : String) : Prop := ((p.folded name).find? p.keeps).any p.isSpace = true

def GapAtEnd (name : String) : Prop :=
  ((p.folded name).reverse.find? p.keeps).any p.isSpace = true

instance (name : String) : Decidable (p.GapAtStart name) := inferInstanceAs (Decidable (_ = true))

instance (name : String) : Decidable (p.GapAtEnd name) := inferInstanceAs (Decidable (_ = true))

/-- No white space at the ends, single blanks inside, and no punctuation. -/
structure Tidy (s : String) : Prop where
  start : BlankRuns.startsBlank p.isSpace s.toList = false
  finish : BlankRuns.endsBlank p.isSpace s.toList = false
  single : BlankRuns.Collapsed p.isSpace ' ' s.toList
  no_punct : ∀ c ∈ s.toList, p.isPunct c = false

/-- Names that differ in the case of letters, in punctuation at the ends, and in the amount of
white space between and around words. -/
inductive SameName : List Char → List Char → Prop
  | case {a b : List Char} {c c' : Char} : p.lower c = p.lower c' →
      SameName (a ++ c :: b) (a ++ c' :: b)
  | punctStart {a : List Char} {c : Char} : p.isPunct c = true → SameName (c :: a) a
  | punctEnd {a : List Char} {c : Char} : p.isPunct c = true → SameName (a ++ [c]) a
  | spaceStart {a : List Char} {c : Char} : p.isSpace c = true → SameName (c :: a) a
  | spaceEnd {a : List Char} {c : Char} : p.isSpace c = true → SameName (a ++ [c]) a
  | spaceBetween {a b w w' : List Char} : w ≠ [] → w' ≠ [] → (∀ c ∈ w, p.isSpace c = true) →
      (∀ c ∈ w', p.isSpace c = true) → SameName (a ++ w ++ b) (a ++ w' ++ b)
  | refl {a : List Char} : SameName a a
  | symm {a b : List Char} : SameName a b → SameName b a
  | trans {a b c : List Char} : SameName a b → SameName b c → SameName a c

open BlankRuns

variable {p}

/-! ## The five steps -/

theorem strip_eq_trim (u : UnicodeTables) (l : List Char) : u.strip l = trim u.isSpace l := rfl

theorem collapseBlanks_eq_collapse (u : UnicodeTables) (opened : Bool) (l : List Char) :
    u.collapseBlanks opened l = collapse u.isSpace ' ' opened l := by
  induction l generalizing opened with
  | nil => rfl
  | cons c l ih => rw [UnicodeTables.collapseBlanks, collapse, ih, ih]

variable (p) in
/-- What the removal of the punctuation leaves of the name. -/
def remains (name : String) : List Char := (p.folded name).filter p.keeps

theorem toList_normalizeName (name : String) :
    (p.tables.normalizeName name).toList = collapse p.isSpace ' ' false (p.remains name) := by
  rw [UnicodeTables.normalizeName, collapseBlanks_eq_collapse, strip_eq_trim, String.toList_ofList]
  simp only [tables, String.toList_ofList]
  rfl

theorem gapAtStart_iff {name : String} :
    p.GapAtStart name ↔ startsBlank p.isSpace (p.remains name) = true := by
  rw [GapAtStart, startsBlank, remains, List.head?_filter]

theorem gapAtEnd_iff {name : String} :
    p.GapAtEnd name ↔ endsBlank p.isSpace (p.remains name) = true := by
  rw [GapAtEnd, endsBlank, remains, List.getLast?_filter]

theorem startsBlank_normalizeName {name : String} :
    startsBlank p.isSpace (p.tables.normalizeName name).toList = true ↔ p.GapAtStart name := by
  rw [toList_normalizeName, startsBlank_collapse p.blank_space, gapAtStart_iff]

theorem endsBlank_normalizeName {name : String} :
    endsBlank p.isSpace (p.tables.normalizeName name).toList = true ↔ p.GapAtEnd name := by
  rw [toList_normalizeName, endsBlank_collapse p.blank_space, gapAtEnd_iff]

theorem collapsed_normalizeName (name : String) :
    Collapsed p.isSpace ' ' (p.tables.normalizeName name).toList := by
  rw [toList_normalizeName]
  exact collapsed_collapse p.blank_space _

/-! ## Normalizing again -/

/-- The code points of a normal form are kept as they are. -/
structure Settled (p : CodePoints) (c : Char) : Prop where
  nfkc : p.nfkc c = [c]
  lower : p.lower c = [c]
  keeps : p.keeps c = true

theorem settled_blank : Settled p ' ' where
  nfkc := p.nfkc_blank
  lower := p.lower_space ' ' p.blank_space
  keeps := by rw [CodePoints.keeps, p.blank_space, Bool.or_true]

theorem settled_of_mem_remains {name : String} {c : Char} (h : c ∈ p.remains name) :
    Settled p c := by
  obtain ⟨hfolded, hkeeps⟩ := List.mem_filter.mp h
  obtain ⟨c₁, hc₁, hc⟩ := List.mem_flatMap.mp hfolded
  obtain ⟨w, w', heq, _⟩ := exists_append_trim p.isSpace (name.toList.flatMap p.nfkc)
  have hmem : c₁ ∈ name.toList.flatMap p.nfkc := by
    rw [heq]
    exact List.mem_append_left _ (List.mem_append_right _ hc₁)
  obtain ⟨c₀, _, hc₁⟩ := List.mem_flatMap.mp hmem
  exact ⟨p.nfkc_lower c₁ (p.nfkc_nfkc c₀ c₁ hc₁) c hc, p.lower_lower c₁ c hc, hkeeps⟩

theorem settled_of_mem_normalizeName {name : String} {c : Char}
    (h : c ∈ (p.tables.normalizeName name).toList) : Settled p c := by
  rw [toList_normalizeName] at h
  rcases blank_of_mem_collapse h with rfl | ⟨hmem, _⟩
  · exact settled_blank
  · exact settled_of_mem_remains hmem

theorem flatMap_eq_self {f : Char → List Char} {l : List Char} (h : ∀ c ∈ l, f c = [c]) :
    l.flatMap f = l := by
  rw [List.flatMap_congr h, List.flatMap_singleton']

/-- Normalizing a second time does nothing but strip. -/
theorem toList_normalizeName_normalizeName (name : String) :
    (p.tables.normalizeName (p.tables.normalizeName name)).toList =
      trim p.isSpace (p.tables.normalizeName name).toList := by
  have hsettled : ∀ c ∈ (p.tables.normalizeName name).toList, Settled p c :=
    fun c hc => settled_of_mem_normalizeName hc
  have hcollapsed := collapsed_normalizeName (p := p) name
  rw [toList_normalizeName (p.tables.normalizeName name)]
  generalize (p.tables.normalizeName name) = s at *
  obtain ⟨w, w', heq, _⟩ := exists_append_trim p.isSpace s.toList
  have hpart : trim p.isSpace s.toList <:+: s.toList := ⟨w, w', heq.symm⟩
  have hcore : ∀ c ∈ trim p.isSpace s.toList, Settled p c :=
    fun c hc => hsettled c (hpart.subset hc)
  have hremains : p.remains s = trim p.isSpace s.toList := by
    rw [remains, folded, flatMap_eq_self fun c hc => (hsettled c hc).nfkc,
      flatMap_eq_self fun c hc => (hcore c hc).lower,
      List.filter_eq_self.mpr fun c hc => (hcore c hc).keeps]
  rw [hremains, collapse_of_collapsed (hcollapsed.part hpart)]

theorem trim_eq_self_iff {l : List Char} : trim p.isSpace l = l ↔
    startsBlank p.isSpace l = false ∧ endsBlank p.isSpace l = false := by
  constructor
  · intro h
    rw [← h]
    exact ⟨startsBlank_trim p.isSpace l, endsBlank_trim p.isSpace l⟩
  · exact fun h => trim_eq_self h.1 h.2

theorem normalizeName_normalizeName_iff (name : String) :
    p.tables.normalizeName (p.tables.normalizeName name) = p.tables.normalizeName name ↔
      ¬ p.GapAtStart name ∧ ¬ p.GapAtEnd name := by
  rw [← String.toList_inj, toList_normalizeName_normalizeName, trim_eq_self_iff,
    ← startsBlank_normalizeName, ← endsBlank_normalizeName, Bool.not_eq_true, Bool.not_eq_true]

theorem tidy_normalizeName_iff (name : String) :
    p.Tidy (p.tables.normalizeName name) ↔ ¬ p.GapAtStart name ∧ ¬ p.GapAtEnd name := by
  rw [← startsBlank_normalizeName, ← endsBlank_normalizeName, Bool.not_eq_true, Bool.not_eq_true]
  constructor
  · exact fun h => ⟨h.start, h.finish⟩
  · rintro ⟨hstart, hfinish⟩
    refine ⟨hstart, hfinish, collapsed_normalizeName name, fun c hc => ?_⟩
    have hkeeps := (settled_of_mem_normalizeName hc).keeps
    by_contra hpunct
    have hpunct := Bool.not_eq_false _ ▸ hpunct
    rw [keeps, p.punct_not_word c hpunct, p.punct_not_space c hpunct] at hkeeps
    cases hkeeps

/-! ## The same name -/

variable (p) in
/-- The compatibility form in lower case. -/
def expand (l : List Char) : List Char := (l.flatMap p.nfkc).flatMap p.lower

theorem expand_append (a b : List Char) : p.expand (a ++ b) = p.expand a ++ p.expand b := by
  rw [expand, List.flatMap_append, List.flatMap_append, expand, expand]

theorem expand_spaces {w : List Char} (hw : ∀ c ∈ w, p.isSpace c = true) :
    (∀ c ∈ p.expand w, p.isSpace c = true) ∧ (w ≠ [] → p.expand w ≠ []) := by
  have hnfkc : ∀ c ∈ w.flatMap p.nfkc, p.isSpace c = true := by
    intro c hc
    obtain ⟨c₀, hc₀, hc⟩ := List.mem_flatMap.mp hc
    exact (p.nfkc_space c₀ (hw c₀ hc₀)).2 c hc
  have hexpand : p.expand w = w.flatMap p.nfkc :=
    flatMap_eq_self fun c hc => p.lower_space c (hnfkc c hc)
  rw [hexpand]
  refine ⟨hnfkc, fun hne hnil => ?_⟩
  obtain ⟨c, hc⟩ := List.exists_mem_of_ne_nil w hne
  exact (p.nfkc_space c (hw c hc)).1 (List.flatMap_eq_nil_iff.mp hnil c hc)

variable (p) in
/-- The normal form without the white space at its ends. -/
def core (l : List Char) : List Char :=
  trim p.isSpace (collapse p.isSpace ' ' false ((p.expand l).filter p.keeps))

theorem filter_spaces {w : List Char} (hw : ∀ c ∈ w, p.isSpace c = true) :
    w.filter p.keeps = w :=
  List.filter_eq_self.mpr fun c hc => by rw [keeps, hw c hc, Bool.or_true]

theorem trim_normalizeName (name : String) :
    trim p.isSpace (p.tables.normalizeName name).toList = p.core name.toList := by
  obtain ⟨w, w', heq, hw, hw'⟩ := exists_append_trim p.isSpace (name.toList.flatMap p.nfkc)
  have hexpand : (p.expand name.toList).filter p.keeps = w ++ p.remains name ++ w' := by
    rw [expand, heq, List.flatMap_append, List.flatMap_append,
      flatMap_eq_self fun c hc => p.lower_space c (hw c hc),
      flatMap_eq_self fun c hc => p.lower_space c (hw' c hc), List.filter_append,
      List.filter_append, filter_spaces hw, filter_spaces hw']
    rfl
  rw [toList_normalizeName, core, hexpand, trim_collapse_append_right p.blank_space _ hw',
    trim_collapse_append_left p.blank_space hw]

/-- What leaves nothing but white space at the start of a name does not matter. -/
theorem core_append_left {w : List Char}
    (hw : ∀ c ∈ (p.expand w).filter p.keeps, p.isSpace c = true) (l : List Char) :
    p.core (w ++ l) = p.core l := by
  rw [core, expand_append, List.filter_append, trim_collapse_append_left p.blank_space hw, core]

theorem core_append_right (l : List Char) {w : List Char}
    (hw : ∀ c ∈ (p.expand w).filter p.keeps, p.isSpace c = true) :
    p.core (l ++ w) = p.core l := by
  rw [core, expand_append, List.filter_append, trim_collapse_append_right p.blank_space _ hw, core]

theorem space_of_punct {c : Char} (hc : p.isPunct c = true) :
    ∀ c' ∈ (p.expand [c]).filter p.keeps, p.isSpace c' = true := by
  intro c' hc'
  obtain ⟨hmem, hkeeps⟩ := List.mem_filter.mp hc'
  rw [expand, List.flatMap_singleton] at hmem
  rw [keeps, p.nfkc_punct c hc c' hmem, Bool.false_or] at hkeeps
  exact hkeeps

theorem space_of_space {c : Char} (hc : p.isSpace c = true) :
    ∀ c' ∈ (p.expand [c]).filter p.keeps, p.isSpace c' = true := by
  have hw : ∀ c' ∈ [c], p.isSpace c' = true := by simpa using hc
  exact fun c' hc' => (expand_spaces hw).1 c' (List.mem_of_mem_filter hc')

theorem core_eq_of_sameName {a b : List Char} (h : p.SameName a b) : p.core a = p.core b := by
  induction h with
  | case hlower =>
    rename_i a b c c'
    have hsame : p.expand [c] = p.expand [c'] := by
      rw [expand, expand, List.flatMap_singleton, List.flatMap_singleton]
      exact p.nfkc_case c c' hlower
    rw [core, core, List.append_cons, expand_append, expand_append, hsame, ← expand_append,
      ← expand_append, ← List.append_cons]
  | punctStart hc => exact core_append_left (space_of_punct hc) _
  | punctEnd hc => exact core_append_right _ (space_of_punct hc)
  | spaceStart hc => exact core_append_left (space_of_space hc) _
  | spaceEnd hc => exact core_append_right _ (space_of_space hc)
  | spaceBetween hne hne' hw hw' =>
    have hrun := expand_spaces hw
    have hrun' := expand_spaces hw'
    rw [core, core, expand_append, expand_append, expand_append, expand_append,
      List.filter_append, List.filter_append, List.filter_append, List.filter_append,
      filter_spaces hrun.1, filter_spaces hrun'.1,
      collapse_resize (hrun.2 hne) (hrun'.2 hne') hrun.1 hrun'.1]
  | refl => rfl
  | symm _ ih => exact ih.symm
  | trans _ _ ih ih' => exact ih.trans ih'

/-- The same name has one normal form as far as the ends agree. -/
theorem normalizeName_eq_iff {name name' : String} (h : p.SameName name.toList name'.toList) :
    p.tables.normalizeName name = p.tables.normalizeName name' ↔
      (p.GapAtStart name ↔ p.GapAtStart name') ∧ (p.GapAtEnd name ↔ p.GapAtEnd name') := by
  have hcore := core_eq_of_sameName h
  rw [← trim_normalizeName, ← trim_normalizeName] at hcore
  rw [← String.toList_inj, (collapsed_normalizeName name).eq_iff (collapsed_normalizeName name')
    hcore, ← startsBlank_normalizeName, ← startsBlank_normalizeName, ← endsBlank_normalizeName,
    ← endsBlank_normalizeName]
  exact and_congr Bool.eq_iff_iff Bool.eq_iff_iff

/-- The normal form is canonical exactly for the names without white space behind punctuation at
an end: for a single name, and for two forms of one. -/
theorem canonical_iff (p : CodePoints) :
    (∀ name, (p.tables.normalizeName (p.tables.normalizeName name) =
        p.tables.normalizeName name ∧ p.Tidy (p.tables.normalizeName name)) ↔
      ¬ p.GapAtStart name ∧ ¬ p.GapAtEnd name) ∧
    ∀ name name', p.SameName name.toList name'.toList →
      (p.tables.normalizeName name = p.tables.normalizeName name' ↔
        (p.GapAtStart name ↔ p.GapAtStart name') ∧ (p.GapAtEnd name ↔ p.GapAtEnd name')) := by
  refine ⟨fun name => ?_, fun name name' h => normalizeName_eq_iff h⟩
  rw [normalizeName_normalizeName_iff, tidy_normalizeName_iff, and_self_iff]

/-! ## ASCII names -/

def capitals : List (Char × Char) :=
  "ABCDEFGHIJKLMNOPQRSTUVWXYZ".toList.zip "abcdefghijklmnopqrstuvwxyz".toList

def small (c : Char) : Char := ((capitals.find? fun e => e.1 == c).map Prod.snd).getD c

def isLatinWord (c : Char) : Bool := c.isAlphanum || c == '_'

theorem small_cases (c : Char) : (∃ e ∈ capitals, e.1 = c ∧ small c = e.2) ∨ small c = c := by
  cases h : capitals.find? fun e => e.1 == c with
  | none => exact Or.inr (by rw [small, h]; rfl)
  | some e =>
    refine Or.inl ⟨e, List.mem_of_find?_eq_some h, by simpa using List.find?_some h, ?_⟩
    rw [small, h]
    rfl

theorem capitals_spec : ∀ e ∈ capitals,
    isLatinWord e.1 = true ∧ small e.2 = e.2 ∧ (e.2 == ' ') = false := by
  decide

/-- Letters, digits, the underscore and the blank; all else is punctuation. -/
def latin : CodePoints where
  nfkc c := [c]
  lower c := [small c]
  isSpace c := c == ' '
  isWord := isLatinWord
  isPunct c := !isLatinWord c && !(c == ' ')
  nfkc_nfkc c c' h := by rw [List.mem_singleton.mp h]
  lower_lower c c' h := by
    rw [List.mem_singleton.mp h]
    rcases small_cases c with ⟨e, he, _, hc⟩ | hc
    · rw [hc, (capitals_spec e he).2.1]
    · rw [hc, hc]
  nfkc_lower c _ c' h := rfl
  lower_space c h := by
    rw [beq_iff_eq.mp h]
    rfl
  nfkc_space c h := ⟨List.cons_ne_nil c [], fun c' h' => List.mem_singleton.mp h' ▸ h⟩
  blank_space := rfl
  nfkc_blank := rfl
  lower_not_space c h c' h' := by
    rw [List.mem_singleton.mp h']
    rcases small_cases c with ⟨e, he, _, hc⟩ | hc
    · rw [hc, (capitals_spec e he).2.2]
    · rwa [hc]
  punct_not_space c h := by
    rw [Bool.and_eq_true, Bool.not_eq_true', Bool.not_eq_true'] at h
    exact h.2
  punct_not_word c h := by
    rw [Bool.and_eq_true, Bool.not_eq_true', Bool.not_eq_true'] at h
    exact h.1
  nfkc_punct c h c' h' := by
    rw [Bool.and_eq_true, Bool.not_eq_true', Bool.not_eq_true'] at h
    rw [List.flatMap_singleton, List.mem_singleton] at h'
    rcases small_cases c with ⟨e, he, rfl, _⟩ | hc
    · exact absurd ((capitals_spec e he).1.symm.trans h.1) Bool.true_eq_false.mp
    · rw [h', hc]
      exact h.1
  nfkc_case c c' h := by rw [List.flatMap_singleton, List.flatMap_singleton, h]

theorem sameName_marks : latin.SameName "Open AI!".toList "open AI".toList := by
  have hname : "Open AI!".toList = "Open AI".toList ++ ['!'] := by decide
  rw [hname]
  refine .trans (.punctEnd (by decide)) ?_
  exact @SameName.case latin [] "pen AI".toList 'O' 'o' (by decide)

theorem normalizeName_marks :
    latin.tables.normalizeName "Open AI!" = latin.tables.normalizeName "open AI" :=
  ((canonical_iff latin).2 _ _ sameName_marks).mpr (by decide)

/-- The blank behind the dash is left over, and another round takes it off. -/
theorem not_canonical_dash :
    latin.tables.normalizeName "- a" = " a" ∧
      latin.tables.normalizeName (latin.tables.normalizeName "- a") = "a" ∧
      ¬ latin.Tidy (latin.tables.normalizeName "- a") ∧
      latin.SameName "- a".toList "a".toList ∧
      latin.tables.normalizeName "- a" ≠ latin.tables.normalizeName "a" := by
  refine ⟨by decide +kernel, by decide +kernel, fun h => ?_, ?_, by decide +kernel⟩
  · exact absurd h.start (by decide +kernel)
  · have hname : "- a".toList = '-' :: ' ' :: "a".toList := by decide
    rw [hname]
    exact .trans (.punctStart (by decide)) (.spaceStart (by decide))

end CodePoints

end Ragx
