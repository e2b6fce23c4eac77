import Ragx.TextParser

/-!
# The lines of the sections

Splitting keeps the content lines of a text in order as long as every table is closed by a
section heading: a code fence behind an open table drops it, and a heading of another level
is put in front of it.
-/
namespace Ragx

/-- What a line is, with its place in or out of a code fence taken into account. -/
inductive LineKind where
  | fence
  | sectionHeading (level : ℕ) (title : List Char)
  | otherHeading
  | tableRow
  | plain
deriving DecidableEq, Repr

def LineKind.isSection : LineKind → Bool
  | .sectionHeading .. => true
  | _ => false

/-- Fences and headings of other levels do not go into an open table. -/
def LineKind.isStray : LineKind → Bool
  | .fence => true
  | .otherHeading => true
  | _ => false

section Kinds

variable (levels : List ℤ) (markdown : Bool)

def lineKind (inFence : Bool) (line : List Char) : LineKind :=
  if isFence line then .fence
  else
    match (if markdown && !inFence then matchHeading line else none) with
    | some (level, title) =>
      if (level : ℤ) ∈ levels then .sectionHeading level title else .otherHeading
    | none => if isTableRow line then .tableRow else .plain

/-- The lines with their kinds; every fence line turns the code fence on or off. -/
def markLines (inFence : Bool) : List (List Char) → List (LineKind × List Char)
  | [] => []
  | line :: lines =>
    (lineKind levels markdown inFence line, line) ::
      markLines (if isFence line then !inFence else inFence) lines

/-- The lines with visible characters that are no headings of a configured level. -/
def keptLines (marked : List (LineKind × List Char)) : List (List Char) :=
  (marked.filter fun m => !m.1.isSection && !isBlank m.2).map (·.2)

/-- Behind a table row there is no stray line before the next section heading. -/
def TablesClosed (kinds : List LineKind) : Prop :=
  ∀ rest, .tableRow :: rest <:+ kinds →
    ∀ kind ∈ rest.takeWhile fun kind => !kind.isSection, kind.isStray = false

end Kinds

/-! ## Closed tables, kind by kind -/

/-- Nothing stray comes before the next section heading. -/
def Undisturbed (kinds : List LineKind) : Prop :=
  ∀ kind ∈ kinds.takeWhile fun kind => !kind.isSection, kind.isStray = false

theorem undisturbed_cons_section {level : ℕ} {title : List Char} (kinds : List LineKind) :
    Undisturbed (.sectionHeading level title :: kinds) := by
  intro kind hkind
  cases hkind

theorem undisturbed_cons_iff {kind : LineKind} {kinds : List LineKind}
    (h : kind.isSection = false) :
    Undisturbed (kind :: kinds) ↔ kind.isStray = false ∧ Undisturbed kinds := by
  rw [Undisturbed, List.takeWhile_cons_of_pos (by simp [h]), List.forall_mem_cons]
  rfl

@[simp] theorem undisturbed_cons_tableRow (kinds : List LineKind) :
    Undisturbed (.tableRow :: kinds) ↔ Undisturbed kinds :=
  (undisturbed_cons_iff rfl).trans (and_iff_right rfl)

@[simp] theorem undisturbed_cons_plain (kinds : List LineKind) :
    Undisturbed (.plain :: kinds) ↔ Undisturbed kinds :=
  (undisturbed_cons_iff rfl).trans (and_iff_right rfl)

theorem tablesClosed_cons_iff {kind : LineKind} {kinds : List LineKind} :
    TablesClosed (kind :: kinds) ↔ (kind = .tableRow → Undisturbed kinds) ∧ TablesClosed kinds := by
  constructor
  · intro h
    refine ⟨?_, fun rest hrest => h rest (hrest.trans (List.suffix_cons kind kinds))⟩
    rintro rfl
    exact h kinds List.suffix_rfl
  · rintro ⟨hrow, hrest⟩ rest hsuffix
    rcases List.suffix_cons_iff.mp hsuffix with heq | hsuffix
    · obtain ⟨rfl, rfl⟩ := List.cons.inj heq
      exact hrow rfl
    · exact hrest rest hsuffix

/-! ## One line -/

/-- The content lines that went into sections or into the buffer. -/
def SplitState.settled (s : SplitState) : List (List Char) :=
  s.sections.flatMap (fun (text, _) => contentLines text) ++ s.buffer.filter (!isBlank ·)

/-- The content lines of everything collected so far, in the order of the next flush. -/
def SplitState.written (s : SplitState) : List (List Char) :=
  s.settled ++ s.table.filter (!isBlank ·)

/-- What is held back is made of lines, and an open table starts with a row. -/
structure SplitState.Valid (s : SplitState) : Prop where
  lines : ∀ line ∈ s.buffer ++ s.table, ∀ c ∈ line, isLineBreak c = false
  row : ∀ line ∈ s.table.head?, isTableRow line = true

theorem settled_flush {s : SplitState} (hs : s.Valid) : s.flush.settled = s.written := by
  have hlines : contentLines (stripNewlines (joinLines (s.buffer ++ s.table))) =
      (s.buffer ++ s.table).filter (!isBlank ·) := by
    rw [contentLines_stripNewlines, contentLines_joinLines hs.lines]
  unfold SplitState.flush SplitState.settled SplitState.written SplitState.settled
  dsimp only
  rw [List.filter_nil, List.append_nil, List.append_assoc, ← List.filter_append, ← hlines]
  split_ifs with hblank
  · rw [isEmpty_strip] at hblank
    rw [contentLines_of_isBlank hblank, List.append_nil]
  · rw [List.flatMap_append, List.flatMap_singleton]

theorem written_flush {s : SplitState} (hs : s.Valid) : s.flush.written = s.written := by
  rw [SplitState.written, settled_flush hs]
  simp [SplitState.flush]

theorem inFence_flush (s : SplitState) : s.flush.inFence = s.inFence := by
  rw [SplitState.flush]

section Steps

variable {levels : List ℤ} {markdown : Bool}

/-- The loop body, by the kind of the line. -/
theorem splitStep_eq (s : SplitState) (line : List Char) :
    splitStep levels markdown s line =
      match lineKind levels markdown s.inFence line with
      | .fence => { s with inFence := !s.inFence, table := [], buffer := s.buffer ++ [line] }
      | .sectionHeading level title =>
        { s.flush with stack := s.stack.take (level - 1) ++ [strip title] }
      | .otherHeading => { s with buffer := s.buffer ++ [line] }
      | .tableRow =>
        if s.table.isEmpty then { s.flush with table := [line] }
        else { s with table := s.table ++ [line] }
      | .plain =>
        if s.table.isEmpty then { s with buffer := s.buffer ++ [line] }
        else { s with table := s.table ++ [line] } := by
  unfold splitStep lineKind
  by_cases hfence : isFence line = true
  · simp only [hfence, if_true]
  · simp only [hfence, Bool.false_eq_true, if_false]
    cases hheading : if (markdown && !s.inFence) = true then matchHeading line else none with
    | some heading =>
      by_cases hlevel : (heading.1 : ℤ) ∈ levels <;> simp [hlevel]
    | none =>
      by_cases hrow : isTableRow line = true
      · cases isTableSep line <;> cases s.table.isEmpty <;> simp [hrow]
      · cases s.table.isEmpty <;> simp [hrow]

theorem keptLines_cons (m : LineKind × List Char) (marked : List (LineKind × List Char)) :
    keptLines (m :: marked) = keptLines [m] ++ keptLines marked := by
  rw [keptLines, ← List.singleton_append, List.filter_append, List.map_append]
  rfl

theorem isFence_of_lineKind {inFence : Bool} {line : List Char}
    (h : lineKind levels markdown inFence line = .fence) : isFence line = true := by
  by_contra hfence
  unfold lineKind at h
  simp only [hfence, if_false] at h
  split at h <;> split_ifs at h

theorem inFence_splitStep (s : SplitState) (line : List Char) :
    (splitStep levels markdown s line).inFence =
      if isFence line then !s.inFence else s.inFence := by
  by_cases hfence : isFence line = true
  · rw [splitStep, if_pos hfence, if_pos hfence]
  · rw [splitStep_eq, if_neg hfence]
    cases hkind : lineKind levels markdown s.inFence line with
    | fence => exact absurd (isFence_of_lineKind hkind) hfence
    | sectionHeading level title => simp only [inFence_flush]
    | otherHeading => rfl
    | tableRow =>
      dsimp only
      split_ifs
      · simp only [inFence_flush]
      · rfl
    | plain =>
      dsimp only
      split_ifs <;> rfl

theorem isTableRow_of_lineKind {inFence : Bool} {line : List Char}
    (h : lineKind levels markdown inFence line = .tableRow) : isTableRow line = true := by
  unfold lineKind at h
  cases hheading : if (markdown && !inFence) = true then matchHeading line else none with
  | some heading =>
    rw [hheading] at h
    dsimp only at h
    split_ifs at h
  | none =>
    rw [hheading] at h
    dsimp only at h
    split_ifs at h with _ hrow
    exact hrow

theorem matchHeading_of_lineKind {inFence : Bool} {line : List Char}
    (h : lineKind levels markdown inFence line = .otherHeading) :
    ∃ heading, matchHeading line = some heading := by
  unfold lineKind at h
  cases hheading : if (markdown && !inFence) = true then matchHeading line else none with
  | some heading =>
    split_ifs at hheading
    exact ⟨heading, hheading⟩
  | none =>
    rw [hheading] at h
    dsimp only at h
    split_ifs at h

/-- A step holds back nothing but the line and what was held back. -/
theorem mem_of_mem_splitStep {s : SplitState} {line l : List Char}
    (h : l ∈ (splitStep levels markdown s line).buffer ++
      (splitStep levels markdown s line).table) :
    l ∈ s.buffer ++ s.table ∨ l = line := by
  rw [splitStep_eq] at h
  cases hkind : lineKind levels markdown s.inFence line with
  | fence => simp [hkind] at h ⊢; grind
  | sectionHeading level title => simp [hkind, SplitState.flush] at h
  | otherHeading => simp [hkind] at h ⊢; grind
  | tableRow =>
    simp only [hkind] at h
    split_ifs at h <;> simp [SplitState.flush] at h ⊢ <;> grind
  | plain =>
    simp only [hkind] at h
    split_ifs at h <;> simp at h ⊢ <;> grind

theorem isTableRow_head_splitStep {s : SplitState} (hs : s.Valid) (line : List Char) :
    ∀ l ∈ (splitStep levels markdown s line).table.head?, isTableRow l = true := by
  have hgrown : ∀ l ∈ (s.table ++ [line]).head?, ¬s.table.isEmpty = true → isTableRow l = true := by
    intro l hl hne
    cases htable : s.table with
    | nil => exact absurd (by rw [htable]; rfl) hne
    | cons row table =>
      rw [htable] at hl
      exact hs.row l (by rw [htable]; exact hl)
  intro l hl
  rw [splitStep_eq] at hl
  cases hkind : lineKind levels markdown s.inFence line with
  | fence =>
    rw [hkind] at hl
    cases hl
  | sectionHeading level title =>
    rw [hkind] at hl
    cases hl
  | otherHeading =>
    rw [hkind] at hl
    exact hs.row l hl
  | tableRow =>
    simp only [hkind] at hl
    split_ifs at hl with hempty
    · obtain rfl : line = l := Option.some.inj hl
      exact isTableRow_of_lineKind hkind
    · exact hgrown l hl hempty
  | plain =>
    simp only [hkind] at hl
    split_ifs at hl with hempty
    · exact hs.row l hl
    · exact hgrown l hl hempty

theorem valid_splitStep {s : SplitState} (hs : s.Valid) {line : List Char}
    (hline : ∀ c ∈ line, isLineBreak c = false) : (splitStep levels markdown s line).Valid where
  lines := by
    intro l hl
    rcases mem_of_mem_splitStep hl with hl | rfl
    · exact hs.lines l hl
    · exact hline
  row := isTableRow_head_splitStep hs line

theorem keptLines_singleton {kind : LineKind} (line : List Char) (h : kind.isSection = false) :
    keptLines [(kind, line)] = [line].filter (!isBlank ·) := by
  cases hblank : isBlank line <;> simp [keptLines, h, hblank]

/-- A step writes the line behind everything else, unless it strays into an open table. -/
theorem written_splitStep {s : SplitState} (hs : s.Valid) {line : List Char}
    (h : s.table = [] ∨ (lineKind levels markdown s.inFence line).isStray = false) :
    (splitStep levels markdown s line).written =
      s.written ++ keptLines [(lineKind levels markdown s.inFence line, line)] := by
  have hbuffer : s.table = [] → ({ s with buffer := s.buffer ++ [line] } : SplitState).written =
      s.written ++ [line].filter (!isBlank ·) := by
    intro hempty
    simp only [SplitState.written, SplitState.settled, hempty, List.filter_append, List.filter_nil,
      List.append_nil, List.append_assoc]
  have htable : ({ s with table := s.table ++ [line] } : SplitState).written =
      s.written ++ [line].filter (!isBlank ·) := by
    simp only [SplitState.written, SplitState.settled, List.filter_append, List.append_assoc]
  rw [splitStep_eq]
  cases hkind : lineKind levels markdown s.inFence line with
  | fence =>
    have hempty : s.table = [] := h.resolve_right (by simp [hkind, LineKind.isStray])
    rw [keptLines_singleton line rfl, ← hbuffer hempty]
    simp only [SplitState.written, SplitState.settled, hempty]
  | sectionHeading level title =>
    have hnone : keptLines [(LineKind.sectionHeading level title, line)] = [] := rfl
    rw [hnone, List.append_nil, ← written_flush hs]
    simp only [SplitState.written, SplitState.settled]
  | otherHeading =>
    have hempty : s.table = [] := h.resolve_right (by simp [hkind, LineKind.isStray])
    rw [keptLines_singleton line rfl, ← hbuffer hempty]
  | tableRow =>
    dsimp only
    rw [keptLines_singleton line rfl]
    split_ifs
    · rw [← written_flush hs]
      simp only [SplitState.written, SplitState.settled, SplitState.flush, List.filter_nil,
        List.append_nil]
    · exact htable
  | plain =>
    dsimp only
    rw [keptLines_singleton line rfl]
    split_ifs with hempty
    · exact hbuffer (List.isEmpty_iff.mp hempty)
    · exact htable

/-- What is settled stays in front. -/
theorem settled_prefix_splitStep {s : SplitState} (hs : s.Valid) (line : List Char) :
    s.settled <+: (splitStep levels markdown s line).settled := by
  have hflush : s.settled <+: s.flush.settled := by
    rw [settled_flush hs]
    exact List.prefix_append _ _
  have hbuffer : s.settled <+: ({ s with buffer := s.buffer ++ [line] } : SplitState).settled := by
    simp only [SplitState.settled, List.filter_append, ← List.append_assoc]
    exact List.prefix_append _ _
  rw [splitStep_eq]
  cases lineKind levels markdown s.inFence line with
  | fence => exact hbuffer
  | sectionHeading level title =>
    simpa only [SplitState.settled] using hflush
  | otherHeading => exact hbuffer
  | tableRow =>
    dsimp only
    split_ifs
    · simpa only [SplitState.settled] using hflush
    · exact List.prefix_rfl
  | plain =>
    dsimp only
    split_ifs
    · exact hbuffer
    · exact List.prefix_rfl

theorem length_written_splitStep_le {s : SplitState} (hs : s.Valid) (line : List Char) :
    (splitStep levels markdown s line).written.length ≤ s.written.length +
      (keptLines [(lineKind levels markdown s.inFence line, line)]).length := by
  by_cases h : (lineKind levels markdown s.inFence line).isStray = false
  · rw [written_splitStep hs (Or.inr h), List.length_append]
  · rw [splitStep_eq]
    cases hkind : lineKind levels markdown s.inFence line with
    | fence =>
      rw [keptLines_singleton line rfl]
      simp only [SplitState.written, SplitState.settled, List.filter_append, List.filter_nil,
        List.length_append, List.length_nil]
      omega
    | otherHeading =>
      rw [keptLines_singleton line rfl]
      simp only [SplitState.written, SplitState.settled, List.filter_append, List.length_append]
      omega
    | sectionHeading level title => exact absurd (by rw [hkind]; rfl) h
    | tableRow => exact absurd (by rw [hkind]; rfl) h
    | plain => exact absurd (by rw [hkind]; rfl) h

/-! ## All lines -/

variable (levels markdown) in
/-- The content lines at the end of a run of the loop. -/
def writtenAtEnd (s : SplitState) (lines : List (List Char)) : List (List Char) :=
  (lines.foldl (splitStep levels markdown) s).flush.sections.flatMap
    fun (text, _) => contentLines text

theorem valid_run {s : SplitState} (hs : s.Valid) {lines : List (List Char)}
    (hlines : ∀ line ∈ lines, ∀ c ∈ line, isLineBreak c = false) :
    (lines.foldl (splitStep levels markdown) s).Valid := by
  induction lines generalizing s with
  | nil => exact hs
  | cons line lines ih =>
    exact ih (valid_splitStep hs (hlines line List.mem_cons_self))
      fun l hl => hlines l (List.mem_cons_of_mem line hl)

theorem writtenAtEnd_nil {s : SplitState} (hs : s.Valid) :
    writtenAtEnd levels markdown s [] = s.written := by
  rw [← settled_flush hs]
  simp [writtenAtEnd, SplitState.settled, SplitState.flush]

theorem length_writtenAtEnd_le {s : SplitState} (hs : s.Valid) {lines : List (List Char)}
    (hlines : ∀ line ∈ lines, ∀ c ∈ line, isLineBreak c = false) :
    (writtenAtEnd levels markdown s lines).length ≤
      s.written.length + (keptLines (markLines levels markdown s.inFence lines)).length := by
  induction lines generalizing s with
  | nil =>
    rw [writtenAtEnd_nil hs]
    exact Nat.le_add_right _ _
  | cons line lines ih =>
    have hvalid : (splitStep levels markdown s line).Valid :=
      valid_splitStep hs (hlines line List.mem_cons_self)
    have hrest := ih hvalid fun l hl => hlines l (List.mem_cons_of_mem line hl)
    have hstep : (splitStep levels markdown s line).written.length ≤ _ :=
      length_written_splitStep_le hs line
    rw [inFence_splitStep] at hrest
    rw [markLines, keptLines_cons, List.length_append]
    exact hrest.trans (by omega)

theorem settled_prefix_writtenAtEnd {s : SplitState} (hs : s.Valid) {lines : List (List Char)}
    (hlines : ∀ line ∈ lines, ∀ c ∈ line, isLineBreak c = false) :
    s.settled <+: writtenAtEnd levels markdown s lines := by
  induction lines generalizing s with
  | nil =>
    rw [writtenAtEnd_nil hs]
    exact List.prefix_append _ _
  | cons line lines ih =>
    exact (settled_prefix_splitStep hs line).trans
      (ih (valid_splitStep hs (hlines line List.mem_cons_self))
        fun l hl => hlines l (List.mem_cons_of_mem line hl))

theorem head?_strip {c : Char} (hc : isWhitespace c = false) (cs : List Char) :
    (strip (c :: cs)).head? = some c := by
  rw [strip, List.dropWhile_cons_of_neg (by simp [hc]), List.reverse_cons, List.dropWhile_append]
  split_ifs with hempty
  · rw [List.dropWhile_cons_of_neg (by simp [hc])]
    rfl
  · simp

theorem head?_of_matchHeading {line : List Char} {heading : ℕ × List Char}
    (h : matchHeading line = some heading) : ∃ rest, line = '#' :: rest := by
  cases line with
  | nil => cases h
  | cons c rest =>
    by_cases hc : c = '#'
    · exact ⟨rest, by rw [hc]⟩
    · unfold matchHeading at h
      simp [hc] at h

theorem isBlank_of_isTableRow {line : List Char} (h : isTableRow line = true) :
    isBlank line = false := by
  rw [← isEmpty_strip]
  cases hstrip : strip line with
  | nil => simp [isTableRow, hstrip] at h
  | cons c rest => rfl

theorem isBlank_of_isFence {line : List Char} (h : isFence line = true) : isBlank line = false := by
  rw [← isEmpty_strip]
  cases hstrip : strip line with
  | nil => simp [isFence, hstrip] at h
  | cons c rest => rfl

/-- A stray line has visible characters. -/
theorem isBlank_of_isStray {inFence : Bool} {line : List Char}
    (h : (lineKind levels markdown inFence line).isStray = true) : isBlank line = false := by
  cases hkind : lineKind levels markdown inFence line with
  | fence => exact isBlank_of_isFence (isFence_of_lineKind hkind)
  | otherHeading =>
    obtain ⟨heading, hheading⟩ := matchHeading_of_lineKind hkind
    obtain ⟨rest, rfl⟩ := head?_of_matchHeading hheading
    simp [isBlank, isWhitespace]
  | sectionHeading level title => cases (hkind ▸ h :)
  | tableRow => cases (hkind ▸ h :)
  | plain => cases (hkind ▸ h :)

/-- A stray line is settled at once. -/
theorem settled_splitStep_of_isStray {s : SplitState} {line : List Char}
    (h : (lineKind levels markdown s.inFence line).isStray = true) :
    (splitStep levels markdown s line).settled = s.settled ++ [line] := by
  have hblank := isBlank_of_isStray h
  rw [splitStep_eq]
  cases hkind : lineKind levels markdown s.inFence line with
  | fence => simp [SplitState.settled, hblank]
  | otherHeading => simp [SplitState.settled, hblank]
  | sectionHeading level title => cases (hkind ▸ h :)
  | tableRow => cases (hkind ▸ h :)
  | plain => cases (hkind ▸ h :)

/-- Content does not vanish altogether. -/
theorem writtenAtEnd_ne_nil {s : SplitState} (hs : s.Valid) {lines : List (List Char)}
    (hlines : ∀ line ∈ lines, ∀ c ∈ line, isLineBreak c = false)
    (h : s.written ++ keptLines (markLines levels markdown s.inFence lines) ≠ []) :
    writtenAtEnd levels markdown s lines ≠ [] := by
  induction lines generalizing s with
  | nil =>
    rw [writtenAtEnd_nil hs]
    simpa [markLines, keptLines] using h
  | cons line lines ih =>
    refine ih (valid_splitStep hs (hlines line List.mem_cons_self))
      (fun l hl => hlines l (List.mem_cons_of_mem line hl)) ?_
    by_cases hstray : (lineKind levels markdown s.inFence line).isStray = true
    · simp [SplitState.written, settled_splitStep_of_isStray hstray]
    · rw [markLines, keptLines_cons, ← List.append_assoc] at h
      rwa [written_splitStep hs (Or.inr (Bool.eq_false_iff.mpr hstray)), inFence_splitStep]

/-- A stray line behind an open table costs content or changes its order. -/
theorem writtenAtEnd_ne_of_stray {s : SplitState} (hs : s.Valid) {line : List Char}
    {lines : List (List Char)} (hlines : ∀ l ∈ line :: lines, ∀ c ∈ l, isLineBreak c = false)
    (hopen : s.table ≠ []) (hstray : (lineKind levels markdown s.inFence line).isStray = true) :
    writtenAtEnd levels markdown s (line :: lines) ≠
      s.written ++ keptLines (markLines levels markdown s.inFence (line :: lines)) := by
  obtain ⟨row, table, htable⟩ := List.exists_cons_of_ne_nil hopen
  have hrow : isTableRow row = true := hs.row row (by rw [htable]; rfl)
  have hvisible : s.table.filter (!isBlank ·) = row :: table.filter (!isBlank ·) := by
    rw [htable, List.filter_cons_of_pos (by simp [isBlank_of_isTableRow hrow])]
  have hvalid : (splitStep levels markdown s line).Valid :=
    valid_splitStep hs (hlines line List.mem_cons_self)
  have hrest : ∀ l ∈ lines, ∀ c ∈ l, isLineBreak c = false :=
    fun l hl => hlines l (List.mem_cons_of_mem line hl)
  intro heq
  cases hkind : lineKind levels markdown s.inFence line with
  | fence =>
    have hbound : (writtenAtEnd levels markdown s (line :: lines)).length ≤ _ :=
      length_writtenAtEnd_le hvalid hrest
    have hdropped : (splitStep levels markdown s line).written = s.settled ++ [line] := by
      rw [← settled_splitStep_of_isStray hstray, splitStep_eq, hkind]
      simp [SplitState.written]
    have hkept : keptLines [(.fence, line)] = [line] := by
      rw [keptLines_singleton line rfl]
      simp [isBlank_of_isStray hstray]
    rw [heq, markLines, keptLines_cons, hkind, hkept, hdropped, inFence_splitStep,
      SplitState.written, hvisible] at hbound
    simp only [List.length_append, List.length_cons] at hbound
    omega
  | otherHeading =>
    obtain ⟨heading, hheading⟩ := matchHeading_of_lineKind hkind
    obtain ⟨rest, rfl⟩ := head?_of_matchHeading hheading
    have hprefix : (splitStep levels markdown s ('#' :: rest)).settled <+:
        writtenAtEnd levels markdown s (('#' :: rest) :: lines) :=
      settled_prefix_writtenAtEnd hvalid hrest
    rw [heq, settled_splitStep_of_isStray hstray, SplitState.written, hvisible,
      List.append_assoc, List.cons_append, List.prefix_append_right_inj] at hprefix
    obtain rfl : '#' :: rest = row := (List.cons_prefix_cons.mp hprefix).1
    simp [isTableRow, head?_strip (c := '#') rfl rest] at hrow
  | sectionHeading level title => cases (hkind ▸ hstray :)
  | tableRow => cases (hkind ▸ hstray :)
  | plain => cases (hkind ▸ hstray :)

theorem table_splitStep_ne_nil_iff (s : SplitState) (line : List Char) :
    (splitStep levels markdown s line).table ≠ [] ↔
      lineKind levels markdown s.inFence line = .tableRow ∨
      ((lineKind levels markdown s.inFence line = .otherHeading ∨
        lineKind levels markdown s.inFence line = .plain) ∧ s.table ≠ []) := by
  rw [splitStep_eq]
  cases lineKind levels markdown s.inFence line with
  | fence => simp
  | sectionHeading level title => simp [SplitState.flush]
  | otherHeading => simp
  | tableRow =>
    dsimp only
    split_ifs <;> simp
  | plain =>
    dsimp only
    split_ifs with hempty <;> simp_all

/-- From any state of the loop, content is kept in order exactly when tables are closed. -/
theorem writtenAtEnd_eq_iff {s : SplitState} (hs : s.Valid) {lines : List (List Char)}
    (hlines : ∀ line ∈ lines, ∀ c ∈ line, isLineBreak c = false) :
    writtenAtEnd levels markdown s lines =
        s.written ++ keptLines (markLines levels markdown s.inFence lines) ↔
      (s.table ≠ [] → Undisturbed ((markLines levels markdown s.inFence lines).map (·.1))) ∧
        TablesClosed ((markLines levels markdown s.inFence lines).map (·.1)) := by
  induction lines generalizing s with
  | nil =>
    refine iff_of_true ?_ ⟨fun _ _ h => absurd h List.not_mem_nil, ?_⟩
    · rw [writtenAtEnd_nil hs]
      exact (List.append_nil _).symm
    · intro rest hrest
      exact absurd (List.suffix_nil.mp hrest) (List.cons_ne_nil _ _)
  | cons line lines ih =>
    have hvalid : (splitStep levels markdown s line).Valid :=
      valid_splitStep hs (hlines line List.mem_cons_self)
    have hrest : ∀ l ∈ lines, ∀ c ∈ l, isLineBreak c = false :=
      fun l hl => hlines l (List.mem_cons_of_mem line hl)
    by_cases hstray : s.table ≠ [] ∧ (lineKind levels markdown s.inFence line).isStray = true
    · obtain ⟨hopen, hstray⟩ := hstray
      refine iff_of_false (writtenAtEnd_ne_of_stray hs hlines hopen hstray) fun hclosed => ?_
      have hsection : (lineKind levels markdown s.inFence line).isSection = false := by
        cases hkind : lineKind levels markdown s.inFence line with
        | sectionHeading level title => cases (hkind ▸ hstray :)
        | _ => rfl
      have hcalm := ((undisturbed_cons_iff hsection).mp (hclosed.1 hopen)).1
      rw [hstray] at hcalm
      cases hcalm
    · have hquiet : s.table = [] ∨ (lineKind levels markdown s.inFence line).isStray = false := by
        simpa [or_iff_not_imp_left] using hstray
      have hstep := written_splitStep hs hquiet
      have hih := ih hvalid hrest
      rw [hstep, inFence_splitStep, List.append_assoc, ← keptLines_cons,
        table_splitStep_ne_nil_iff] at hih
      refine hih.trans ?_
      rw [markLines, List.map_cons, tablesClosed_cons_iff]
      cases hkind : lineKind levels markdown s.inFence line with
      | fence =>
        have hempty : s.table = [] := hquiet.resolve_right (by simp [hkind, LineKind.isStray])
        simp [hempty]
      | sectionHeading level title => simp [undisturbed_cons_section]
      | otherHeading =>
        have hempty : s.table = [] := hquiet.resolve_right (by simp [hkind, LineKind.isStray])
        simp [hempty]
      | tableRow =>
        simp only [true_or, true_imp_iff, undisturbed_cons_tableRow]
        exact ⟨fun h => ⟨fun _ => h.1, h⟩, fun h => h.2⟩
      | plain => simp

/-- The lines of a text with their kinds. -/
def markedLines (levels : List ℤ) (markdown : Bool) (text : List Char) :
    List (LineKind × List Char) :=
  markLines levels markdown false (splitlines text)

/-- The lines of the sections of a text. -/
def sectionLines (levels : List ℤ) (markdown : Bool) (text : List Char) : List (List Char) :=
  (splitSections levels markdown text).flatMap fun (block, _) => contentLines block

/-- A text with something to keep keeps it in order exactly when its tables are closed. -/
theorem sectionLines_eq_iff (levels : List ℤ) (markdown : Bool) (text : List Char)
    (h : keptLines (markedLines levels markdown text) ≠ []) :
    sectionLines levels markdown text = keptLines (markedLines levels markdown text) ↔
      TablesClosed ((markedLines levels markdown text).map (·.1)) := by
  have hstart : ({} : SplitState).Valid :=
    ⟨fun _ hl => absurd hl List.not_mem_nil, fun _ hl => by cases hl⟩
  have hlines : ∀ line ∈ splitlines text, ∀ c ∈ line, isLineBreak c = false :=
    fun _ hline => not_isLineBreak_of_mem_splitlines hline
  have hrun : writtenAtEnd levels markdown {} (splitlines text) =
      [] ++ keptLines (markedLines levels markdown text) ↔
        (([] : List (List Char)) ≠ [] →
          Undisturbed ((markedLines levels markdown text).map (·.1))) ∧
        TablesClosed ((markedLines levels markdown text).map (·.1)) :=
    writtenAtEnd_eq_iff hstart hlines
  have hne : writtenAtEnd levels markdown {} (splitlines text) ≠ [] :=
    writtenAtEnd_ne_nil hstart hlines h
  have hsections : sectionLines levels markdown text =
      writtenAtEnd levels markdown {} (splitlines text) := by
    unfold sectionLines splitSections
    rw [if_neg]
    · rfl
    · intro hempty
      rw [writtenAtEnd, List.isEmpty_iff.mp hempty] at hne
      exact hne rfl
  rw [List.nil_append] at hrun
  rw [hsections, hrun]
  exact ⟨fun hclosed => hclosed.2, fun hclosed => ⟨fun hopen => absurd rfl hopen, hclosed⟩⟩

end Steps

/-- A table in front of a code fence. -/
def fencedText : List Char :=
  "# Ports\n\n| name | port |\n|---|---|\n| http | 80 |\n\n```\nlisten\n```".toList

theorem sectionLines_eq_iff_fenced :
    sectionLines [1, 2, 3] true fencedText = keptLines (markedLines [1, 2, 3] true fencedText) ↔
      TablesClosed ((markedLines [1, 2, 3] true fencedText).map (·.1)) :=
  sectionLines_eq_iff [1, 2, 3] true fencedText (by decide +kernel)

/-- The table is lost. -/
theorem fenced_table_is_lost :
    keptLines (markedLines [1, 2, 3] true fencedText) =
        ["| name | port |".toList, "|---|---|".toList, "| http | 80 |".toList, "```".toList,
          "listen".toList, "```".toList] ∧
      sectionLines [1, 2, 3] true fencedText =
        ["```".toList, "listen".toList, "```".toList] := by
  decide +kernel

end Ragx
