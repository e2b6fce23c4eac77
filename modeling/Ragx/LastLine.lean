import Ragx.TrailingBlanks

/-!
# The last line of a text

Blanks behind a text lengthen its last line and add blank lines. The sections show that only
where the blanks make a heading of the line, or where the line goes in front of an open table.
-/
namespace Ragx

/-- The lines of a text up to the last one with visible characters. -/
def usedLines (text : List Char) : List (List Char) := (splitlines text).rdropWhile isBlank

/-! ## Blanks behind a text -/

theorem exists_splitlinesFrom_append (line : List Char) {core : List Char} (hcore : '\r' ∉ core) :
    ∃ front last, ∀ w, splitlinesFrom line (core ++ w) = front ++ splitlinesFrom last w := by
  induction core generalizing line with
  | nil => exact ⟨[], line, fun _ => rfl⟩
  | cons c core ih =>
    have hc : c ≠ '\r' := (List.ne_of_not_mem_cons hcore).symm
    have hrest : '\r' ∉ core := List.not_mem_of_not_mem_cons hcore
    by_cases hbreak : isLineBreak c = true
    · obtain ⟨front, last, hcut⟩ := ih [] hrest
      refine ⟨line :: front, last, fun w => ?_⟩
      rw [List.cons_append, splitlinesFrom_cons_of_ne line hc, if_pos hbreak, hcut]
      rfl
    · obtain ⟨front, last, hcut⟩ := ih (line ++ [c]) hrest
      refine ⟨front, last, fun w => ?_⟩
      rw [List.cons_append, splitlinesFrom_cons_of_ne line hc, if_neg hbreak, hcut]

/-- Blanks lengthen the line they stand behind and make blank lines. -/
theorem splitlinesFrom_of_isBlank {w : List Char} (hw : isBlank w = true) (line : List Char) :
    (line = [] ∧ splitlinesFrom line w = []) ∨
      ∃ e blanks, isBlank e = true ∧ (∀ l ∈ blanks, isBlank l = true) ∧
        splitlinesFrom line w = (line ++ e) :: blanks := by
  induction w generalizing line with
  | nil =>
    cases line with
    | nil => exact Or.inl ⟨rfl, rfl⟩
    | cons c line => exact Or.inr ⟨[], [], rfl, by simp, by simp [splitlinesFrom]⟩
  | cons c w ih =>
    rw [isBlank, List.all_cons, Bool.and_eq_true] at hw
    rw [splitlinesFrom_cons]
    split_ifs
    · exact ih hw.2 line
    · refine Or.inr ⟨[], splitlinesFrom [] w, rfl, fun l hl => ?_, by rw [List.append_nil]⟩
      refine List.all_eq_true.mpr fun x hx => ?_
      exact List.all_eq_true.mp hw.2 x
        ((mem_of_mem_splitlinesFrom hl hx).resolve_left List.not_mem_nil)
    · rcases ih hw.2 (line ++ [c]) with ⟨hnil, _⟩ | ⟨e, blanks, he, hblanks, hlines⟩
      · exact absurd hnil (by simp)
      · refine Or.inr ⟨c :: e, blanks, ?_, hblanks, ?_⟩
        · rw [isBlank, List.all_cons, hw.1]
          exact he
        · rw [hlines, List.append_assoc]
          rfl

/-- Only the last used line knows of blanks behind a text, if at all. -/
theorem exists_usedLines {core : List Char} (hcore : '\r' ∉ core) :
    (∃ lines, ∀ w, isBlank w = true → usedLines (core ++ w) = lines) ∨
      ∃ front last, isBlank last = false ∧
        ∀ w, isBlank w = true →
          ∃ e, isBlank e = true ∧ usedLines (core ++ w) = front ++ [last ++ e] := by
  obtain ⟨front, last, hcut⟩ := exists_splitlinesFrom_append [] hcore
  cases hlast : isBlank last with
  | true =>
    refine Or.inl ⟨front.rdropWhile isBlank, fun w hw => ?_⟩
    rw [usedLines, splitlines, hcut]
    refine BlankRuns.rdropWhile_append_right front ?_
    rcases splitlinesFrom_of_isBlank hw last with ⟨_, hnil⟩ | ⟨e, blanks, he, hblanks, hlines⟩
    · rw [hnil]
      exact fun _ hl => absurd hl List.not_mem_nil
    · rw [hlines]
      exact List.forall_mem_cons.mpr ⟨(isBlank_append_of_isBlank last he).trans hlast, hblanks⟩
  | false =>
    refine Or.inr ⟨front, last, hlast, fun w hw => ?_⟩
    rcases splitlinesFrom_of_isBlank hw last with ⟨rfl, _⟩ | ⟨e, blanks, he, hblanks, hlines⟩
    · cases hlast
    · refine ⟨e, he, ?_⟩
      have hvisible : ¬isBlank (last ++ e) = true := by
        rw [isBlank_append_of_isBlank last he, hlast]
        exact Bool.false_ne_true
      rw [usedLines, splitlines, hcut, hlines, ← List.singleton_append, ← List.append_assoc,
        BlankRuns.rdropWhile_append_right _ hblanks, List.rdropWhile_concat_neg _ _ _ hvisible]

section Steps

variable {levels : List ℤ} {markdown : Bool}

/-! ## Blank lines -/

theorem lineKind_of_isBlank (inFence : Bool) {line : List Char} (h : isBlank line = true) :
    lineKind levels markdown inFence line = .plain := by
  have hvisible : ∀ {b : Bool}, (b = true → isBlank line = false) → b = false := by
    intro b hb
    cases b with
    | false => rfl
    | true => exact absurd (hb rfl) (by simp [h])
  have hfence : isFence line = false := hvisible isBlank_of_isFence
  have hrow : isTableRow line = false := hvisible isBlank_of_isTableRow
  have hheading : matchHeading line = none := by
    cases hmatch : matchHeading line with
    | none => rfl
    | some heading =>
      obtain ⟨rest, rfl⟩ := head?_of_matchHeading hmatch
      simp [isBlank, isWhitespace] at h
  simp [lineKind, hfence, hrow, hheading]

/-- What the closing of a section depends on. -/
def SplitState.collected (s : SplitState) :
    List (List Char × List Char) × List (List Char) × List (List Char) :=
  (s.sections, s.stack, s.pending)

theorem collected_splitStep_of_isBlank (s : SplitState) {line : List Char}
    (h : isBlank line = true) :
    (splitStep levels markdown s line).collected = (s.sections, s.stack, s.pending ++ [line]) := by
  rw [splitStep_eq, lineKind_of_isBlank s.inFence h]
  dsimp only
  split_ifs with hempty
  · rw [List.isEmpty_iff] at hempty
    simp [SplitState.collected, SplitState.pending, hempty]
  · simp [SplitState.collected, SplitState.pending]

theorem collected_run_of_isBlank (s : SplitState) {blanks : List (List Char)}
    (h : ∀ line ∈ blanks, isBlank line = true) :
    (blanks.foldl (splitStep levels markdown) s).collected =
      (s.sections, s.stack, s.pending ++ blanks) := by
  induction blanks generalizing s with
  | nil => simp [SplitState.collected]
  | cons line blanks ih =>
    obtain ⟨hline, hblanks⟩ := List.forall_mem_cons.mp h
    have hstep : (splitStep levels markdown s line).collected = _ :=
      collected_splitStep_of_isBlank s hline
    obtain ⟨hsections, hrest⟩ := Prod.mk.inj hstep
    obtain ⟨hstack, hpending⟩ := Prod.mk.inj hrest
    rw [List.foldl_cons, ih _ hblanks, hsections, hstack, hpending, List.append_assoc]
    rfl

theorem sections_flush_of_collected {s : SplitState} {sections : List (List Char × List Char)}
    {stack lines : List (List Char)} (h : s.collected = (sections, stack, lines)) :
    s.flush.sections = closeSections sections stack lines := by
  obtain ⟨hsections, hrest⟩ := Prod.mk.inj h
  obtain ⟨hstack, hpending⟩ := Prod.mk.inj hrest
  rw [sections_flush, hsections, hstack, hpending]

/-- Blank lines at the end do not show. -/
theorem outline_run_of_isBlank (s : SplitState) {blanks : List (List Char)}
    (h : ∀ line ∈ blanks, isBlank line = true) :
    outline (blanks.foldl (splitStep levels markdown) s).flush.sections =
      outline s.flush.sections := by
  obtain ⟨w, hw, hjoin⟩ := exists_joinLines_append s.pending h
  rw [sections_flush_of_collected (collected_run_of_isBlank s h),
    outline_closeSections _ _ hw hjoin, sections_flush,
    outline_closeSections _ _ isBlank_nil (List.append_nil (joinLines s.pending)).symm]

theorem outline_splitlines (text : List Char) :
    outline ((splitlines text).foldl (splitStep levels markdown) {}).flush.sections =
      outline ((usedLines text).foldl (splitStep levels markdown) {}).flush.sections := by
  have hcut : splitlines text = usedLines text ++ (splitlines text).rtakeWhile isBlank :=
    List.rdropWhile_append_rtakeWhile.symm
  rw [hcut, List.foldl_append]
  exact outline_run_of_isBlank _ fun line => List.mem_rtakeWhile_imp

/-! ## The last line -/

/-- Whether a table is open behind a line of the kind, if one may be open in front of it. -/
def tableAfter (isOpen : Bool) : LineKind → Bool
  | .fence => false
  | .sectionHeading _ _ => false
  | .otherHeading => isOpen
  | .tableRow => true
  | .plain => isOpen

variable (levels markdown) in
/-- The kinds of the used lines. -/
def usedKinds (text : List Char) : List LineKind :=
  (markLines levels markdown false (usedLines text)).map (·.1)

variable (levels markdown) in
theorem isEmpty_table_splitStep (s : SplitState) (line : List Char) :
    (!(splitStep levels markdown s line).table.isEmpty) =
      tableAfter (!s.table.isEmpty) (lineKind levels markdown s.inFence line) := by
  rw [splitStep_eq]
  cases lineKind levels markdown s.inFence line with
  | fence => rfl
  | sectionHeading level title => rfl
  | otherHeading => rfl
  | tableRow =>
    dsimp only
    split_ifs <;> simp [tableAfter]
  | plain =>
    dsimp only
    split_ifs with hempty
    · rfl
    · simp [tableAfter, hempty]

variable (levels markdown) in
/-- The kinds tell whether a table is open. -/
theorem isEmpty_table_run (s : SplitState) (lines : List (List Char)) :
    (!(lines.foldl (splitStep levels markdown) s).table.isEmpty) =
      ((markLines levels markdown s.inFence lines).map (·.1)).foldl tableAfter
        (!s.table.isEmpty) := by
  induction lines generalizing s with
  | nil => rfl
  | cons line lines ih =>
    have hstep := isEmpty_table_splitStep levels markdown s line
    rw [List.foldl_cons, ih, hstep, inFence_splitStep]
    rfl

variable (levels markdown) in
theorem markLines_concat (s : SplitState) (lines : List (List Char)) (line : List Char) :
    markLines levels markdown s.inFence (lines ++ [line]) =
      markLines levels markdown s.inFence lines ++
        [(lineKind levels markdown (lines.foldl (splitStep levels markdown) s).inFence line,
          line)] := by
  induction lines generalizing s with
  | nil => rfl
  | cons l lines ih =>
    have hrest := ih (splitStep levels markdown s l)
    rw [inFence_splitStep] at hrest
    rw [List.cons_append, markLines, hrest]
    rfl

variable (levels markdown) in
/-- The line is not put in front of lines that came before it. -/
def KeepsPlace (s : SplitState) (line : List Char) : Prop :=
  lineKind levels markdown s.inFence line = .otherHeading → s.table = []

/-- The sections and the lines in front of a line that goes into the text. -/
def SplitState.collectedBefore (s : SplitState) (line : List Char) :
    List (List Char × List Char) × List (List Char) :=
  if isFence line then (s.sections, s.buffer)
  else if isTableRow line && s.table.isEmpty then (s.flush.sections, [])
  else (s.sections, s.pending)

theorem matchHeading_of_isTableRow {line : List Char} (h : isTableRow line = true) :
    matchHeading line = none := by
  cases hmatch : matchHeading line with
  | none => rfl
  | some heading =>
    obtain ⟨rest, rfl⟩ := head?_of_matchHeading hmatch
    simp [isTableRow, head?_strip (c := '#') rfl rest] at h

/-- A line that opens no section is collected behind the others if it keeps its place. -/
theorem collected_splitStep (s : SplitState) {line : List Char}
    (hsection : (lineKind levels markdown s.inFence line).isSection = false)
    (hkeeps : KeepsPlace levels markdown s line) :
    (splitStep levels markdown s line).collected =
      ((s.collectedBefore line).1, s.stack, (s.collectedBefore line).2 ++ [line]) := by
  rw [splitStep_eq]
  by_cases hfence : isFence line = true
  · have hkind : lineKind levels markdown s.inFence line = .fence := by simp [lineKind, hfence]
    simp [hkind, SplitState.collected, SplitState.pending, SplitState.collectedBefore, hfence]
  · by_cases hrow : isTableRow line = true
    · have hkind : lineKind levels markdown s.inFence line = .tableRow := by
        simp [lineKind, hfence, hrow, matchHeading_of_isTableRow hrow]
      cases hempty : s.table.isEmpty with
      | true =>
        simp [hkind, hempty, SplitState.collected, SplitState.pending, SplitState.collectedBefore,
          hfence, hrow, SplitState.flush]
      | false =>
        simp [hkind, hempty, SplitState.collected, SplitState.pending, SplitState.collectedBefore,
          hfence, hrow]
    · have hbefore : s.collectedBefore line = (s.sections, s.pending) := by
        simp [SplitState.collectedBefore, hfence, hrow]
      rw [hbefore]
      cases hkind : lineKind levels markdown s.inFence line with
      | fence => exact absurd (isFence_of_lineKind hkind) hfence
      | tableRow => exact absurd (isTableRow_of_lineKind hkind) hrow
      | sectionHeading level title => cases (hkind ▸ hsection :)
      | otherHeading =>
        simp [SplitState.collected, SplitState.pending, hkeeps hkind]
      | plain =>
        dsimp only
        split_ifs with hempty
        · rw [List.isEmpty_iff] at hempty
          simp [SplitState.collected, SplitState.pending, hempty]
        · simp [SplitState.collected, SplitState.pending]

theorem collected_splitStep_of_isSection (s : SplitState) {line : List Char}
    (hsection : (lineKind levels markdown s.inFence line).isSection = true) :
    ∃ stack, (splitStep levels markdown s line).collected = (s.flush.sections, stack, []) := by
  rw [splitStep_eq]
  cases hkind : lineKind levels markdown s.inFence line with
  | sectionHeading level title => exact ⟨_, rfl⟩
  | fence => cases (hkind ▸ hsection :)
  | otherHeading => cases (hkind ▸ hsection :)
  | tableRow => cases (hkind ▸ hsection :)
  | plain => cases (hkind ▸ hsection :)

theorem collectedBefore_append (s : SplitState) (line : List Char) {e : List Char}
    (he : isBlank e = true) : s.collectedBefore (line ++ e) = s.collectedBefore line := by
  have hstrip := strip_append_of_isBlank line he
  have hfence : isFence (line ++ e) = isFence line := by rw [isFence, isFence, hstrip]
  have hrow : isTableRow (line ++ e) = isTableRow line := by rw [isTableRow, isTableRow, hstrip]
  rw [SplitState.collectedBefore, SplitState.collectedBefore, hfence, hrow]

/-- Blanks behind the last line do not show in the outline. -/
theorem outline_flush_splitStep_append (s : SplitState) (last : List Char) {e e' : List Char}
    (he : isBlank e = true) (he' : isBlank e' = true)
    (hsection : (lineKind levels markdown s.inFence (last ++ e)).isSection =
      (lineKind levels markdown s.inFence (last ++ e')).isSection)
    (hkeeps : KeepsPlace levels markdown s (last ++ e))
    (hkeeps' : KeepsPlace levels markdown s (last ++ e')) :
    outline (splitStep levels markdown s (last ++ e)).flush.sections =
      outline (splitStep levels markdown s (last ++ e')).flush.sections := by
  have hplain : ∀ {blanks : List Char}, isBlank blanks = true →
      (lineKind levels markdown s.inFence (last ++ blanks)).isSection = false →
      KeepsPlace levels markdown s (last ++ blanks) →
      outline (splitStep levels markdown s (last ++ blanks)).flush.sections =
        outline (closeSections (s.collectedBefore last).1 s.stack
          ((s.collectedBefore last).2 ++ [last])) := by
    intro blanks hblanks hnone hplace
    have hcollected : (splitStep levels markdown s (last ++ blanks)).collected = _ :=
      collected_splitStep s hnone hplace
    rw [collectedBefore_append s last hblanks] at hcollected
    rw [sections_flush_of_collected hcollected,
      outline_closeSections _ _ hblanks (joinLines_concat_append _ last blanks),
      outline_closeSections _ _ isBlank_nil (List.append_nil _).symm]
  cases hkind : (lineKind levels markdown s.inFence (last ++ e)).isSection with
  | true =>
    have hkind' := hsection.symm.trans hkind
    obtain ⟨stack, hcollected⟩ := collected_splitStep_of_isSection s hkind
    obtain ⟨stack', hcollected'⟩ := collected_splitStep_of_isSection s hkind'
    rw [sections_flush_of_collected hcollected, sections_flush_of_collected hcollected']
    rfl
  | false => rw [hplain he hkind hkeeps, hplain he' (hsection.symm.trans hkind) hkeeps']

end Steps

end Ragx
