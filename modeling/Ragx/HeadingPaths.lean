import Ragx.Outlines
import Ragx.SectionLines

/-!
# Heading paths

The context of a section is to be the chain of headings that enclose it. The parser keeps a
stack that it cuts by position, and levels are positions only where no level is skipped.
-/
namespace Ragx

open Outlines

structure Heading where
  level : ℕ
  title : List Char
deriving DecidableEq

def LineKind.heading? : LineKind → Option Heading
  | .sectionHeading level title => some ⟨level, strip title⟩
  | _ => none

/-- The position at which the parser puts a heading, if there are enough before it. -/
def Heading.rank (h : Heading) : ℕ := h.level - 1

/-- `" > ".join` of the titles. -/
def headingPath (headings : List Heading) : List Char :=
  [' ', '>', ' '].intercalate (headings.map (·.title))

/-- A section that is returned, with the headings of configured levels before it. -/
structure HeadedSection where
  text : List Char
  context : List Char
  headings : List Heading

section Headed

variable (levels : List ℤ) (markdown : Bool)

/-- The sections that a step adds. -/
def newSections (s s' : SplitState) (seen : List Heading) : List HeadedSection :=
  (s'.sections.drop s.sections.length).map fun added => ⟨added.1, added.2, seen⟩

/-- The sections that the loop adds over the rest of the lines. -/
def headedFrom (s : SplitState) (seen : List Heading) :
    List (LineKind × List Char) → List HeadedSection
  | [] => newSections s s.flush seen
  | marked :: rest =>
    let s' := splitStep levels markdown s marked.2
    newSections s s' seen ++ headedFrom s' (seen ++ marked.1.heading?.toList) rest

/-- The sections of a text; a text without any is a section before all headings. -/
def headedSections (text : List Char) : List HeadedSection :=
  let headed := headedFrom levels markdown {} [] (markLines levels markdown false (splitlines text))
  if headed.isEmpty then if (strip text).isEmpty then [] else [⟨strip text, [], []⟩] else headed

/-- What is returned is each section with the path of the headings that enclose it, whose
levels increase. -/
def ContextsEnclose (text : List Char) : Prop :=
  (splitSections levels markdown text = (headedSections levels markdown text).map fun found =>
    (found.text, headingPath (enclosing Heading.level found.headings))) ∧
  ∀ found ∈ headedSections levels markdown text,
    (enclosing Heading.level found.headings).Pairwise fun h g => h.level < g.level

instance (text : List Char) : Decidable (ContextsEnclose levels markdown text) :=
  inferInstanceAs (Decidable (_ ∧ ∀ found ∈ _, List.Pairwise _ _))

/-- Before every section, each heading that is followed by one of its level or above is followed
by one whose level does not exceed the position of the heading on the path. -/
def LevelsSettled (text : List Char) : Prop :=
  ∀ found ∈ headedSections levels markdown text, Settled Heading.rank 0 found.headings

instance (text : List Char) : Decidable (LevelsSettled levels markdown text) :=
  inferInstanceAs (Decidable (∀ found ∈ _, _))

variable {levels markdown}

/-! ## Sections and their headings -/

theorem exists_sections_flush (s : SplitState) :
    s.flush.sections = s.sections ∨
      ∃ text, s.flush.sections = s.sections ++ [(text, [' ', '>', ' '].intercalate s.stack)] := by
  unfold SplitState.flush
  dsimp only
  split_ifs
  · exact Or.inl rfl
  · exact Or.inr ⟨_, rfl⟩

theorem sections_splitStep (levels : List ℤ) (markdown : Bool) (s : SplitState)
    (line : List Char) :
    (splitStep levels markdown s line).sections = s.sections ∨
      (splitStep levels markdown s line).sections = s.flush.sections := by
  rw [splitStep_eq]
  cases lineKind levels markdown s.inFence line with
  | fence | otherHeading => exact Or.inl rfl
  | sectionHeading level title => exact Or.inr rfl
  | tableRow =>
    dsimp only
    split_ifs
    · exact Or.inr rfl
    · exact Or.inl rfl
  | plain =>
    dsimp only
    split_ifs <;> exact Or.inl rfl

theorem sections_prefix_flush (s : SplitState) : s.sections <+: s.flush.sections := by
  rcases exists_sections_flush s with h | ⟨text, h⟩
  · exact h ▸ List.prefix_rfl
  · exact h ▸ List.prefix_append _ _

theorem sections_prefix_splitStep (s : SplitState) (line : List Char) :
    s.sections <+: (splitStep levels markdown s line).sections := by
  rcases sections_splitStep levels markdown s line with h | h
  · exact h ▸ List.prefix_rfl
  · exact h ▸ sections_prefix_flush s

/-- The text and the context, as they are returned. -/
def HeadedSection.returned (found : HeadedSection) : List Char × List Char :=
  (found.text, found.context)

theorem append_newSections {s s' : SplitState} (h : s.sections <+: s'.sections)
    (seen : List Heading) :
    s.sections ++ (newSections s s' seen).map HeadedSection.returned = s'.sections := by
  obtain ⟨added, hadded⟩ := h
  rw [newSections, ← hadded, List.drop_left, List.map_map]
  exact congrArg (s.sections ++ ·) (List.map_id' added)

theorem append_headedFrom (s : SplitState) (seen : List Heading)
    (marked : List (LineKind × List Char)) :
    s.sections ++ (headedFrom levels markdown s seen marked).map HeadedSection.returned =
      ((marked.map (·.2)).foldl (splitStep levels markdown) s).flush.sections := by
  induction marked generalizing s seen with
  | nil => exact append_newSections (sections_prefix_flush s) seen
  | cons m marked ih =>
    rw [headedFrom, List.map_append, ← List.append_assoc,
      append_newSections (sections_prefix_splitStep s m.2), ih]
    rfl

theorem map_snd_markLines (inFence : Bool) (lines : List (List Char)) :
    (markLines levels markdown inFence lines).map (·.2) = lines := by
  induction lines generalizing inFence with
  | nil => rfl
  | cons line lines ih => rw [markLines, List.map_cons, ih]

/-- The headings are told beside the sections that `_split_sections` returns. -/
theorem map_returned_headedSections (text : List Char) :
    (headedSections levels markdown text).map HeadedSection.returned =
      splitSections levels markdown text := by
  have hrun := @append_headedFrom levels markdown {} []
    (markLines levels markdown false (splitlines text))
  rw [map_snd_markLines] at hrun
  have hsections : (headedFrom levels markdown {} [] (markLines levels markdown false
      (splitlines text))).map HeadedSection.returned =
        ((splitlines text).foldl (splitStep levels markdown) {}).flush.sections := hrun
  unfold headedSections splitSections
  dsimp only
  rw [← hsections, List.isEmpty_map]
  split_ifs <;> rfl

/-! ## The stack and the headings -/

theorem stack_splitStep (s : SplitState) (line : List Char) :
    (splitStep levels markdown s line).stack =
      match (lineKind levels markdown s.inFence line).heading? with
      | some h => s.stack.take h.rank ++ [h.title]
      | none => s.stack := by
  rw [splitStep_eq]
  cases lineKind levels markdown s.inFence line with
  | fence | otherHeading => rfl
  | sectionHeading level title => rfl
  | tableRow =>
    dsimp only [LineKind.heading?]
    split_ifs <;> rfl
  | plain =>
    dsimp only [LineKind.heading?]
    split_ifs <;> rfl

theorem one_le_of_matchHeading {line : List Char} {heading : ℕ × List Char}
    (h : matchHeading line = some heading) : 1 ≤ heading.1 := by
  unfold matchHeading at h
  split at h
  · cases h
  · dsimp only at h
    split_ifs at h with hlevel
    cases h
    exact hlevel.1

theorem one_le_level {inFence : Bool} {line : List Char} {h : Heading}
    (hkind : (lineKind levels markdown inFence line).heading? = some h) : 1 ≤ h.level := by
  unfold lineKind at hkind
  by_cases hfence : isFence line = true
  · rw [if_pos hfence] at hkind
    cases hkind
  · rw [if_neg hfence] at hkind
    cases hheading : if (markdown && !inFence) = true then matchHeading line else none with
    | none =>
      simp only [hheading] at hkind
      split at hkind <;> cases hkind
    | some heading =>
      simp only [hheading] at hkind
      split at hkind <;> cases hkind
      exact one_le_of_matchHeading (Option.ite_none_right_eq_some.mp hheading).2

/-- What the loop knows of the headings that it has seen. -/
structure Follows (s : SplitState) (seen : List Heading) : Prop where
  stack : s.stack = (seen.foldl (push Heading.rank) []).map (·.title)
  levels : ∀ h ∈ seen, 1 ≤ h.level

theorem Follows.step {s : SplitState} {seen : List Heading} (hs : Follows s seen)
    (line : List Char) : Follows (splitStep levels markdown s line)
      (seen ++ (lineKind levels markdown s.inFence line).heading?.toList) := by
  cases hkind : (lineKind levels markdown s.inFence line).heading? with
  | none =>
    rw [Option.toList_none, List.append_nil]
    refine ⟨?_, hs.levels⟩
    rw [stack_splitStep, hkind]
    exact hs.stack
  | some h =>
    rw [Option.toList_some]
    refine ⟨?_, ?_⟩
    · rw [stack_splitStep, hkind, hs.stack, List.foldl_append]
      simp [push, List.map_take]
    · intro g hg
      rcases List.mem_append.mp hg with hg | hg
      · exact hs.levels g hg
      · rw [List.mem_singleton.mp hg]
        exact one_le_level hkind

/-- The context of a section is the stack of the headings before it. -/
structure HeadedSection.Stacked (found : HeadedSection) : Prop where
  context : found.context = headingPath (staying Heading.rank 0 found.headings)
  levels : ∀ h ∈ found.headings, 1 ≤ h.level

theorem stacked_of_mem_newSections {s s' : SplitState} {seen : List Heading} (hs : Follows s seen)
    (h : s'.sections = s.sections ∨ s'.sections = s.flush.sections) {found : HeadedSection}
    (hfound : found ∈ newSections s s' seen) : found.Stacked := by
  have hadded : s'.sections = s.sections ∨ ∃ text,
      s'.sections = s.sections ++ [(text, [' ', '>', ' '].intercalate s.stack)] := by
    rcases h with h | h
    · exact Or.inl h
    · rw [h]
      exact exists_sections_flush s
  rcases hadded with hsame | ⟨text, hnew⟩
  · rw [newSections, hsame, List.drop_length] at hfound
    cases hfound
  · rw [newSections, hnew, List.drop_left] at hfound
    obtain rfl := List.mem_singleton.mp hfound
    refine ⟨?_, hs.levels⟩
    dsimp only
    rw [hs.stack, foldl_push_nil]
    rfl

theorem stacked_of_mem_headedFrom {s : SplitState} {seen : List Heading} (hs : Follows s seen)
    {lines : List (List Char)} {found : HeadedSection}
    (hfound : found ∈ headedFrom levels markdown s seen
      (markLines levels markdown s.inFence lines)) : found.Stacked := by
  induction lines generalizing s seen with
  | nil => exact stacked_of_mem_newSections hs (Or.inr rfl) hfound
  | cons line lines ih =>
    rw [markLines, headedFrom] at hfound
    rcases List.mem_append.mp hfound with hnew | hrest
    · exact stacked_of_mem_newSections hs (sections_splitStep levels markdown s line) hnew
    · rw [← @inFence_splitStep levels markdown] at hrest
      exact ih (hs.step line) hrest

theorem stacked_of_mem_headedSections {text : List Char} {found : HeadedSection}
    (hfound : found ∈ headedSections levels markdown text) : found.Stacked := by
  have hstart : Follows {} [] := ⟨rfl, fun h hmem => absurd hmem List.not_mem_nil⟩
  unfold headedSections at hfound
  dsimp only at hfound
  split_ifs at hfound
  · cases hfound
  · obtain rfl := List.mem_singleton.mp hfound
    exact ⟨rfl, fun h hmem => absurd hmem List.not_mem_nil⟩
  · exact stacked_of_mem_headedFrom hstart hfound

/-! ## Paths -/

theorem enclosing_level_eq {headings : List Heading} (h : ∀ g ∈ headings, 1 ≤ g.level) :
    enclosing Heading.level headings = enclosing Heading.rank headings := by
  refine enclosing_congr _ fun a ha b hb => ?_
  have hpos := h a ha
  have hpos' := h b hb
  unfold Heading.rank
  omega

/-- A path that is too long is not the path of the enclosing headings. -/
theorem headingPath_staying_eq_iff (headings : List Heading) :
    headingPath (staying Heading.rank 0 headings) = headingPath (enclosing Heading.rank headings) ↔
      Settled Heading.rank 0 headings := by
  rw [← staying_eq_enclosing_iff]
  refine ⟨fun h => ?_, fun h => congrArg headingPath h⟩
  by_cases hnil : headings = []
  · rw [hnil]
    rfl
  · have hsub := enclosing_sublist_staying Heading.rank 0 headings
    have hne : (enclosing Heading.rank headings).map (·.title) ≠ [] := fun hempty =>
      enclosing_ne_nil Heading.rank hnil (List.map_eq_nil_iff.mp hempty)
    have hsep : ([' ', '>', ' '] : List Char) ≠ [] := List.cons_ne_nil _ _
    have htitles := eq_of_intercalate_eq hsep (hsub.map Heading.title) hne h.symm
    have hlength := congrArg List.length htitles
    rw [List.length_map, List.length_map] at hlength
    exact (hsub.eq_of_length hlength).symm

/-- The contexts are the paths of the enclosing headings exactly if the levels are settled
before every section. -/
theorem contextsEnclose_iff (text : List Char) :
    ContextsEnclose levels markdown text ↔ LevelsSettled levels markdown text := by
  have hsection : ∀ found ∈ headedSections levels markdown text,
      found.returned = (found.text, headingPath (enclosing Heading.level found.headings)) ↔
        Settled Heading.rank 0 found.headings := by
    intro found hfound
    have hstacked := stacked_of_mem_headedSections hfound
    rw [HeadedSection.returned, Prod.mk.injEq, hstacked.context,
      enclosing_level_eq hstacked.levels, headingPath_staying_eq_iff]
    exact and_iff_right rfl
  have hincrease : ∀ found ∈ headedSections levels markdown text,
      (enclosing Heading.level found.headings).Pairwise fun h g => h.level < g.level :=
    fun found _ => pairwise_enclosing Heading.level found.headings
  rw [ContextsEnclose, and_iff_left hincrease, ← map_returned_headedSections, List.map_inj_left]
  exact forall₂_congr hsection

/-- Two sections on the second level: the first heading is taken for the parent of the second. -/
theorem not_contextsEnclose_siblings :
    ¬ ContextsEnclose ({} : TextMarkdownParser).levels true "## A\na\n## B\nb".toList := by
  decide +kernel

end Headed

end Ragx
