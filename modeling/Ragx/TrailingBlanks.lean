import Ragx.BlankRuns
import Ragx.NormalizedText
import Ragx.SectionLines

/-!
# Blanks at the end of a text

Blanks behind the text of a section, and blank lines behind its lines, do not change the
paragraphs of the section, and the atoms are made of nothing but the paragraphs.
-/
namespace Ragx

open BlankRuns

theorem isBlank_append (front back : List Char) :
    isBlank (front ++ back) = (isBlank front && isBlank back) := List.all_append

theorem isBlank_append_of_isBlank (front : List Char) {blanks : List Char}
    (h : isBlank blanks = true) : isBlank (front ++ blanks) = isBlank front := by
  rw [isBlank_append, h, Bool.and_true]

/-! ## Stripping -/

theorem strip_eq_trim (text : List Char) : strip text = trim isWhitespace text := rfl

theorem strip_append_of_isBlank (text : List Char) {blanks : List Char}
    (h : isBlank blanks = true) : strip (text ++ blanks) = strip text :=
  trim_append_right text (List.all_eq_true.mp h)

theorem strip_append_left_of_isBlank {blanks : List Char} (h : isBlank blanks = true)
    (text : List Char) : strip (blanks ++ text) = strip text :=
  trim_append_left (List.all_eq_true.mp h) text

@[simp] theorem strip_strip (text : List Char) : strip (strip text) = strip text :=
  trim_eq_self (startsBlank_trim isWhitespace text) (endsBlank_trim isWhitespace text)

/-! ## Paragraphs -/

/-- The stripped pieces that are not blank. -/
def visiblePieces (pieces : List (List Char)) : List (List Char) :=
  (pieces.map strip).filter (!·.isEmpty)

/-- The paragraphs of a section. -/
def paragraphTexts (block : List Char) : List (List Char) :=
  visiblePieces (splitParagraphs 0 [] block)

theorem visiblePieces_cons (piece : List Char) (pieces : List (List Char)) :
    visiblePieces (piece :: pieces) = visiblePieces [piece] ++ visiblePieces pieces := by
  rw [visiblePieces, visiblePieces, visiblePieces, ← List.filter_append]
  rfl

theorem visiblePieces_append_blank (piece : List Char) {c : Char} (hc : isWhitespace c = true) :
    visiblePieces [piece ++ [c]] = visiblePieces [piece] := by
  have hblank : isBlank [c] = true := by rw [isBlank, List.all_cons, hc]; rfl
  rw [visiblePieces, visiblePieces, List.map_singleton, List.map_singleton,
    strip_append_of_isBlank piece hblank]

theorem splitParagraphs_cons_skip (skip : ℕ) (piece : List Char) (c : Char) (rest : List Char) :
    splitParagraphs (skip + 1) piece (c :: rest) = splitParagraphs skip piece rest := rfl

theorem splitParagraphs_cons (piece : List Char) (c : Char) (rest : List Char) :
    splitParagraphs 0 piece (c :: rest) =
      match (if c = '\n' then paragraphBreak rest else none) with
      | some length => piece :: splitParagraphs length [] rest
      | none => splitParagraphs 0 (piece ++ [c]) rest := rfl

/-- Blanks make no paragraph. -/
theorem visiblePieces_splitParagraphs_of_isBlank {blanks : List Char}
    (h : isBlank blanks = true) (skip : ℕ) (piece : List Char) :
    visiblePieces (splitParagraphs skip piece blanks) = visiblePieces [piece] := by
  induction blanks generalizing skip piece with
  | nil => rfl
  | cons c rest ih =>
    rw [isBlank, List.all_cons, Bool.and_eq_true] at h
    cases skip with
    | succ skip =>
      rw [splitParagraphs_cons_skip]
      exact ih h.2 skip piece
    | zero =>
      rw [splitParagraphs_cons]
      cases if c = '\n' then paragraphBreak rest else none with
      | some length =>
        dsimp only
        rw [visiblePieces_cons, ih h.2 length []]
        exact List.append_nil _
      | none => exact (ih h.2 0 (piece ++ [c])).trans (visiblePieces_append_blank piece h.1)

theorem takeWhile_append_of_not_all {α : Type} {p : α → Bool} {front : List α}
    (h : ¬front.all p = true) (back : List α) :
    (front ++ back).takeWhile p = front.takeWhile p := by
  rw [List.takeWhile_append, if_neg]
  intro hlength
  refine h (List.all_eq_true.mpr fun x hx => ?_)
  rw [← (List.takeWhile_prefix p).eq_of_length hlength] at hx
  exact List.mem_takeWhile_imp hx

theorem paragraphBreak_append {rest : List Char} (h : ¬isBlank rest = true) (blanks : List Char) :
    paragraphBreak (rest ++ blanks) = paragraphBreak rest := by
  unfold paragraphBreak
  rw [takeWhile_append_of_not_all h]

/-- Blanks behind a text do not change its paragraphs. -/
theorem visiblePieces_splitParagraphs_append {blanks : List Char} (h : isBlank blanks = true)
    (skip : ℕ) (piece block : List Char) :
    visiblePieces (splitParagraphs skip piece (block ++ blanks)) =
      visiblePieces (splitParagraphs skip piece block) := by
  induction block generalizing skip piece with
  | nil => exact visiblePieces_splitParagraphs_of_isBlank h skip piece
  | cons c rest ih =>
    cases skip with
    | succ skip =>
      rw [List.cons_append, splitParagraphs_cons_skip, splitParagraphs_cons_skip]
      exact ih skip piece
    | zero =>
      by_cases hblank : isBlank (c :: rest) = true
      · have hall : isBlank (c :: rest ++ blanks) = true :=
          (isBlank_append_of_isBlank (c :: rest) h).trans hblank
        rw [visiblePieces_splitParagraphs_of_isBlank hall,
          visiblePieces_splitParagraphs_of_isBlank hblank]
      · have hbreak : (if c = '\n' then paragraphBreak (rest ++ blanks) else none) =
            if c = '\n' then paragraphBreak rest else none := by
          split_ifs with hc
          · refine paragraphBreak_append (fun hrest => hblank ?_) blanks
            rw [isBlank, List.all_cons, hc]
            exact hrest
          · rfl
        rw [List.cons_append, splitParagraphs_cons, splitParagraphs_cons, hbreak]
        cases if c = '\n' then paragraphBreak rest else none with
        | some length =>
          dsimp only
          rw [visiblePieces_cons, visiblePieces_cons piece (splitParagraphs length [] rest), ih]
        | none => exact ih 0 (piece ++ [c])

theorem paragraphTexts_append_of_isBlank (block : List Char) {blanks : List Char}
    (h : isBlank blanks = true) : paragraphTexts (block ++ blanks) = paragraphTexts block :=
  visiblePieces_splitParagraphs_append h 0 [] block

/-- Packing strips the paragraphs and passes over the blank ones. -/
theorem packParagraphs_visiblePieces (countTokens : String → ℕ) (parser : TextMarkdownParser)
    (chunks : List (List Char)) (size : ℕ) (pieces : List (List Char)) :
    packParagraphs countTokens parser chunks size (visiblePieces pieces) =
      packParagraphs countTokens parser chunks size pieces := by
  induction pieces generalizing chunks size with
  | nil => rfl
  | cons piece pieces ih =>
    by_cases hempty : (strip piece).isEmpty = true
    · have hpassed : visiblePieces (piece :: pieces) = visiblePieces pieces := by
        simp [visiblePieces, hempty]
      rw [hpassed, ih, packParagraphs]
      exact (if_pos hempty).symm
    · have hkept : visiblePieces (piece :: pieces) = strip piece :: visiblePieces pieces := by
        simp [visiblePieces, hempty]
      rw [hkept]
      simp only [packParagraphs, strip_strip, ih]

/-! ## Sections -/

/-- What the atoms are made of: the paragraphs of every section, with its heading path. -/
def outline (sections : List (List Char × List Char)) : List (List (List Char) × List Char) :=
  sections.map fun (block, context) => (paragraphTexts block, context)

theorem groupToAtoms_eq (countTokens : String → ℕ) (parser : TextMarkdownParser)
    (sections : List (List Char × List Char)) :
    groupToAtoms countTokens parser sections =
      (outline sections).flatMap fun (texts, context) =>
        (packParagraphs countTokens parser [] 0 texts).map fun text => (text, context) := by
  simp only [groupToAtoms, outline, List.flatMap_map, paragraphTexts, packParagraphs_visiblePieces]

/-- The last section of a text, for what is collected in front of its lines. -/
def closeSections (sections : List (List Char × List Char)) (stack lines : List (List Char)) :
    List (List Char × List Char) :=
  let joined := stripNewlines (joinLines lines)
  if (strip joined).isEmpty then sections
  else sections ++ [(joined, [' ', '>', ' '].intercalate stack)]

def SplitState.pending (s : SplitState) : List (List Char) := s.buffer ++ s.table

theorem sections_flush (s : SplitState) :
    s.flush.sections = closeSections s.sections s.stack s.pending := rfl

theorem joinLines_concat {lines : List (List Char)} (hne : lines ≠ []) (line : List Char) :
    joinLines (lines ++ [line]) = joinLines lines ++ '\n' :: line := by
  induction lines with
  | nil => exact absurd rfl hne
  | cons l lines ih =>
    cases lines with
    | nil => simp [joinLines, List.intercalate]
    | cons next lines =>
      have hrest := ih (List.cons_ne_nil next lines)
      simp only [joinLines, List.cons_append, List.intercalate_cons_cons] at hrest ⊢
      rw [hrest]
      simp

/-- Blanks behind the last line are blanks behind the text. -/
theorem joinLines_concat_append (lines : List (List Char)) (line back : List Char) :
    joinLines (lines ++ [line ++ back]) = joinLines (lines ++ [line]) ++ back := by
  by_cases hne : lines = []
  · simp [hne, joinLines]
  · rw [joinLines_concat hne, joinLines_concat hne, List.append_assoc]
    rfl

/-- Blank lines behind others are blanks behind their text. -/
theorem exists_joinLines_append (lines : List (List Char)) {blanks : List (List Char)}
    (h : ∀ line ∈ blanks, isBlank line = true) :
    ∃ w, isBlank w = true ∧ joinLines (lines ++ blanks) = joinLines lines ++ w := by
  induction blanks using List.reverseRecOn with
  | nil => exact ⟨[], rfl, by simp⟩
  | append_singleton blanks line ih =>
    obtain ⟨w, hw, hjoin⟩ := ih fun l hl => h l (List.mem_append_left [line] hl)
    have hline : isBlank line = true := h line (by simp)
    rw [← List.append_assoc]
    by_cases hne : lines ++ blanks = []
    · obtain ⟨rfl, rfl⟩ := List.append_eq_nil_iff.mp hne
      exact ⟨line, hline, by simp [joinLines]⟩
    · refine ⟨w ++ '\n' :: line, ?_, ?_⟩
      · rw [isBlank_append, hw]
        exact hline
      · rw [joinLines_concat hne, hjoin, List.append_assoc]

/-! ## The last section -/

theorem isBlank_dropWhile (text : List Char) :
    isBlank (text.dropWhile (· = '\n')) = isBlank text := by
  induction text with
  | nil => rfl
  | cons c text ih =>
    by_cases hc : c = '\n'
    · rw [List.dropWhile_cons_of_pos (by simpa using hc), ih, isBlank, isBlank, List.all_cons, hc]
      rfl
    · rw [List.dropWhile_cons_of_neg (by simpa using hc)]

/-- Newlines stripped at the end are blanks. -/
theorem exists_stripNewlines_append (text : List Char) :
    ∃ w, isBlank w = true ∧ text.dropWhile (· = '\n') = stripNewlines text ++ w := by
  refine ⟨(text.dropWhile (· = '\n')).rtakeWhile (· = '\n'), ?_, ?_⟩
  · refine List.all_eq_true.mpr fun c hc => ?_
    have hnewline : c = '\n' := by simpa using List.mem_rtakeWhile_imp hc
    rw [hnewline]
    rfl
  · exact List.rdropWhile_append_rtakeWhile.symm

theorem dropWhile_append_blanks (core : List Char) {w : List Char} (hw : isBlank w = true) :
    ∃ w', isBlank w' = true ∧
      (core ++ w).dropWhile (· = '\n') = core.dropWhile (· = '\n') ++ w' := by
  rw [List.dropWhile_append]
  split_ifs with hempty
  · refine ⟨w.dropWhile (· = '\n'), (isBlank_dropWhile w).trans hw, ?_⟩
    rw [List.isEmpty_iff.mp hempty]
    rfl
  · exact ⟨w, hw, rfl⟩

/-- Only the front of the lines' text counts. -/
theorem outline_closeSections (sections : List (List Char × List Char))
    (stack : List (List Char)) {lines : List (List Char)} {core w : List Char}
    (hw : isBlank w = true) (hjoin : joinLines lines = core ++ w) :
    outline (closeSections sections stack lines) = outline sections ++
      if isBlank core then []
      else [(paragraphTexts (core.dropWhile (· = '\n')), [' ', '>', ' '].intercalate stack)] := by
  obtain ⟨w', hw', hdrop⟩ := dropWhile_append_blanks core hw
  obtain ⟨v, hv, hstrip⟩ := exists_stripNewlines_append (core ++ w)
  have hparagraphs : paragraphTexts (stripNewlines (core ++ w)) =
      paragraphTexts (core.dropWhile (· = '\n')) := by
    rw [← paragraphTexts_append_of_isBlank (stripNewlines (core ++ w)) hv, ← hstrip, hdrop,
      paragraphTexts_append_of_isBlank _ hw']
  have hblank : (strip (stripNewlines (core ++ w))).isEmpty = isBlank core := by
    rw [isEmpty_strip, ← isBlank_append_of_isBlank (stripNewlines (core ++ w)) hv, ← hstrip,
      isBlank_dropWhile, isBlank_append_of_isBlank core hw]
  rw [closeSections, hjoin, hblank]
  split_ifs
  · exact (List.append_nil _).symm
  · rw [← hparagraphs, outline, List.map_append]
    rfl

end Ragx
