import Ragx.ChunkPartition
import Ragx.LastLine
import Ragx.SubmitIngest

/-!
# Documents with one fingerprint

A second document with the same fingerprint is turned away. The parser would have read the
same from it, unless the two begin with different byte order marks, or the blanks or the
newlines that the fingerprint ignores show in the sections.
-/
namespace Ragx

/-- `UnsupportedFormatError`, as the text parser raises it. -/
structure UnsupportedFormatError where
  message : String
  code : ℕ
  mimetype : String
  supported : List String
  parser : String
deriving DecidableEq

def supportedMimetypes : List String := ["text/plain", "text/markdown", "text/x-markdown"]

/-- `TextMarkdownParser.parse`: the atoms of a document. -/
def TextMarkdownParser.parse (env : ChunkerEnv) (gb : Gb18030) (parser : TextMarkdownParser)
    (doc : RawDocument) : Except UnsupportedFormatError (List Atom) :=
  if doc.mimetype ∉ supportedMimetypes then
    .error {
      message := "mimetype not supported by the text parser"
      code := 2002
      mimetype := doc.mimetype
      supported := supportedMimetypes
      parser := "text" }
  else
    let text := decodeContent gb doc.content
    match doc.docId with
    | some docId => .ok (parseText env parser docId text)
    | none => .ok ((parseText env parser "None" text).map fun atom => { atom with docId := "" })

/-- The texts and the contexts of atoms. -/
def readings (atoms : List Atom) : List (Option String × Option String) :=
  atoms.map fun atom => (atom.text, atom.context)

/-- The parser reads the same from a document with either content. -/
def ReadsAlike (env : ChunkerEnv) (gb : Gb18030) (parser : TextMarkdownParser)
    (doc : RawDocument) (x y : List UInt8) : Prop :=
  (parser.parse env gb { doc with content := .bytes x }).map readings =
    (parser.parse env gb { doc with content := .bytes y }).map readings

/-! ## What the fingerprint leaves open -/

section Endings

variable (parser : TextMarkdownParser)

def lastLine (text : List Char) : List Char := (usedLines text).getLastD []

def lastKind (text : List Char) : LineKind :=
  (usedKinds parser.levels parser.markdown text).getLastD .plain

/-- The last used line is a heading of another level, and a table is open in front of it. -/
def PassesTable (text : List Char) : Prop :=
  lastKind parser text = .otherHeading ∧
    (usedKinds parser.levels parser.markdown text).dropLast.foldl tableAfter false = true

/-- The last used lines are the same, or do the same whatever blanks are behind them. -/
def EndsAlike (text text' : List Char) : Prop :=
  lastLine text = lastLine text' ∨
    ((lastKind parser text).isSection = (lastKind parser text').isSection ∧
      ¬PassesTable parser text ∧ ¬PassesTable parser text')

/-- Not every line is blank or a heading of a configured level. -/
def HasContent (text : List Char) : Prop :=
  keptLines (markLines parser.levels parser.markdown false (splitlines text)) ≠ []

/-- Two files differ in nothing that the parser sees and the fingerprint does not. -/
structure DecodesAlike (gb : Gb18030) (x y : List UInt8) : Prop where
  mark : bomOf x = bomOf y
  ending : EndsAlike parser (decodeContent gb (.bytes x)) (decodeContent gb (.bytes y))
  content : HasContent parser (decodeContent gb (.bytes x)) ∨
    strip (decodeContent gb (.bytes x)) = strip (decodeContent gb (.bytes y))

end Endings

/-! ## The atoms of an outline -/

/-- What an atom shows of its text and its heading path. -/
def reading (group : List Char × List Char) : Option String × Option String :=
  (some (String.ofList group.1), if group.2.isEmpty then none else some (String.ofList group.2))

theorem readings_parseText (env : ChunkerEnv) (parser : TextMarkdownParser) (docId : String)
    (text : List Char) :
    readings (parseText env parser docId text) =
      if (strip text).isEmpty then []
      else (groupToAtoms env.countTokens parser
        (splitSections parser.levels parser.markdown text)).map reading := by
  unfold parseText
  split_ifs
  · rfl
  · set groups := groupToAtoms env.countTokens parser
      (splitSections parser.levels parser.markdown text)
    rw [readings, List.map_map]
    calc _ = groups.zipIdx.map (reading ∘ Prod.fst) := rfl
      _ = groups.map reading := by rw [← List.map_map, List.zipIdx_map_fst]

/-- Nothing but the outline and the blankness of the text is read. -/
theorem readings_parseText_eq (env : ChunkerEnv) (parser : TextMarkdownParser) (docId : String)
    {text text' : List Char} (hblank : isBlank text = isBlank text')
    (houtline : outline (splitSections parser.levels parser.markdown text) =
      outline (splitSections parser.levels parser.markdown text')) :
    readings (parseText env parser docId text) = readings (parseText env parser docId text') := by
  rw [readings_parseText, readings_parseText, isEmpty_strip, isEmpty_strip, hblank,
    groupToAtoms_eq, groupToAtoms_eq, houtline]

theorem readsAlike_of_parseText {env : ChunkerEnv} {gb : Gb18030} {parser : TextMarkdownParser}
    {x y : List UInt8}
    (h : ∀ docId, readings (parseText env parser docId (decodeContent gb (.bytes x))) =
      readings (parseText env parser docId (decodeContent gb (.bytes y)))) (doc : RawDocument) :
    ReadsAlike env gb parser doc x y := by
  have hanonymous : ∀ atoms : List Atom,
      readings (atoms.map fun atom => { atom with docId := "" }) = readings atoms := by
    intro atoms
    rw [readings, readings, List.map_map]
    rfl
  unfold ReadsAlike TextMarkdownParser.parse
  split_ifs
  · cases doc.docId with
    | some docId => exact congrArg Except.ok (h docId)
    | none =>
      refine congrArg Except.ok ?_
      rw [hanonymous, hanonymous]
      exact h "None"
  · rfl

/-! ## The same outline -/

section Outline

variable {levels : List ℤ} {markdown : Bool}

/-- Sections there are, or the whole text stands for them. -/
theorem outline_splitSections {text text' : List Char}
    (hrun : outline ((splitlines text).foldl (splitStep levels markdown) {}).flush.sections =
      outline ((splitlines text').foldl (splitStep levels markdown) {}).flush.sections)
    (hcontent : ((splitlines text).foldl (splitStep levels markdown) {}).flush.sections ≠ [] ∨
      strip text = strip text') :
    outline (splitSections levels markdown text) =
      outline (splitSections levels markdown text') := by
  have hempty : ∀ {sections : List (List Char × List Char)},
      outline sections = [] ↔ sections = [] := by
    intro sections
    rw [outline, List.map_eq_nil_iff]
  unfold splitSections
  set sections := ((splitlines text).foldl (splitStep levels markdown) {}).flush.sections
  set sections' := ((splitlines text').foldl (splitStep levels markdown) {}).flush.sections
  by_cases hnone : sections = []
  · have hnone' : sections' = [] := by
      rw [← hempty, ← hrun, hempty]
      exact hnone
    rw [hnone, hnone', hcontent.resolve_left (not_not.mpr hnone)]
  · have hsome : sections' ≠ [] := by
      rw [ne_eq, ← hempty, ← hrun, hempty]
      exact hnone
    simp only [List.isEmpty_eq_false_iff.mpr hnone, List.isEmpty_eq_false_iff.mpr hsome]
    exact hrun

theorem sections_ne_nil {text : List Char}
    (h : keptLines (markLines levels markdown false (splitlines text)) ≠ []) :
    ((splitlines text).foldl (splitStep levels markdown) {}).flush.sections ≠ [] := by
  have hvalid : ({} : SplitState).Valid :=
    ⟨fun _ hl => absurd hl List.not_mem_nil, fun _ hl => by cases hl⟩
  have hwritten : writtenAtEnd levels markdown {} (splitlines text) ≠ [] :=
    writtenAtEnd_ne_nil hvalid (fun _ hline => not_isLineBreak_of_mem_splitlines hline) h
  intro hnone
  rw [writtenAtEnd, hnone] at hwritten
  exact hwritten rfl

end Outline

theorem usedLines_unifyLines (text : List Char) :
    usedLines (unifyLines false text) = usedLines text := by
  rw [usedLines, splitlines, splitlinesFrom_unifyLines]
  rfl

theorem lastKind_concat {parser : TextMarkdownParser} {text line : List Char}
    {lines : List (List Char)} (h : usedLines text = lines ++ [line]) :
    lastKind parser text = lineKind parser.levels parser.markdown
      (lines.foldl (splitStep parser.levels parser.markdown) {}).inFence line := by
  have hmarked := markLines_concat parser.levels parser.markdown {} lines line
  rw [lastKind, usedKinds, h, hmarked, List.map_append, List.map_singleton, List.getLastD_concat]

theorem passesTable_concat {parser : TextMarkdownParser} {text line : List Char}
    {lines : List (List Char)} (h : usedLines text = lines ++ [line]) :
    PassesTable parser text ↔ ¬KeepsPlace parser.levels parser.markdown
      (lines.foldl (splitStep parser.levels parser.markdown) {}) line := by
  have hmarked := markLines_concat parser.levels parser.markdown {} lines line
  have htable : _ = ((markLines parser.levels parser.markdown false lines).map (·.1)).foldl
      tableAfter false :=
    isEmpty_table_run parser.levels parser.markdown {} lines
  rw [PassesTable, lastKind_concat h, usedKinds, h, hmarked, List.map_append, List.map_singleton,
    List.dropLast_concat, KeepsPlace, Classical.not_imp]
  dsimp only
  rw [← htable, Bool.not_eq_true', List.isEmpty_eq_false_iff]

/-- Texts that are the same up to newlines and blanks behind have the same outline of lines. -/
theorem outline_run_eq {parser : TextMarkdownParser} {text text' core w w' : List Char}
    (hw : isBlank w = true) (hw' : isBlank w' = true) (htext : unifyLines false text = core ++ w)
    (htext' : unifyLines false text' = core ++ w') (hends : EndsAlike parser text text') :
    outline ((splitlines text).foldl (splitStep parser.levels parser.markdown) {}).flush.sections =
      outline ((splitlines text').foldl (splitStep parser.levels parser.markdown)
        {}).flush.sections := by
  have hcore : '\r' ∉ core := fun hmem =>
    not_mem_unifyBreaks (by decide) false text (htext ▸ List.mem_append_left w hmem)
  have hlines : usedLines text = usedLines (core ++ w) := by rw [← htext, usedLines_unifyLines]
  have hlines' : usedLines text' = usedLines (core ++ w') := by rw [← htext', usedLines_unifyLines]
  rw [outline_splitlines, outline_splitlines]
  rcases exists_usedLines hcore with ⟨lines, hall⟩ | ⟨front, last, -, hall⟩
  · rw [hlines, hlines', hall w hw, hall w' hw']
  · obtain ⟨e, he, hused⟩ := hall w hw
    obtain ⟨e', he', hused'⟩ := hall w' hw'
    rw [hused] at hlines
    rw [hused'] at hlines'
    rcases hends with hsame | ⟨hsection, hkeeps, hkeeps'⟩
    · rw [lastLine, lastLine, hlines, hlines', List.getLastD_concat, List.getLastD_concat] at hsame
      rw [hlines, hlines', hsame]
    · rw [lastKind_concat hlines, lastKind_concat hlines'] at hsection
      rw [passesTable_concat hlines] at hkeeps
      rw [passesTable_concat hlines'] at hkeeps'
      rw [hlines, hlines', List.foldl_concat, List.foldl_concat]
      exact outline_flush_splitStep_append _ last he he' hsection (not_not.mp hkeeps)
        (not_not.mp hkeeps')

/-- Documents with one fingerprint are read alike where the parser sees no more of them. -/
theorem readsAlike_of_sameHash {sha256Hex : List UInt8 → String}
    (hsha : Function.Injective sha256Hex) (env : ChunkerEnv) (gb : Gb18030)
    (parser : TextMarkdownParser) (doc : RawDocument) {x y : List UInt8}
    (hhash : computeDocHash sha256Hex (.bytes x) = computeDocHash sha256Hex (.bytes y))
    (h : DecodesAlike parser gb x y) : ReadsAlike env gb parser doc x y := by
  have hnormal : normalizeBytes x = normalizeBytes y := hsha hhash
  obtain ⟨w, hw, htext⟩ := exists_unifyLines_decodeContent gb x
  obtain ⟨w', hw', htext'⟩ := exists_unifyLines_decodeContent gb y
  rw [← h.mark, ← hnormal] at htext'
  have hblank : isBlank (decodeContent gb (.bytes x)) = isBlank (decodeContent gb (.bytes y)) := by
    rw [← isBlank_unifyLines false, htext, ← isBlank_unifyLines false (decodeContent gb (.bytes y)),
      htext', isBlank_append_of_isBlank _ hw, isBlank_append_of_isBlank _ hw']
  have houtline := outline_splitSections (outline_run_eq hw hw' htext htext' h.ending)
    (h.content.imp_left sections_ne_nil)
  exact readsAlike_of_parseText
    (fun docId => readings_parseText_eq env parser docId hblank houtline) doc

/-! ## Two files -/

theorem plainDigest_injective : Function.Injective SubmitRun.plainDigest := by
  intro x y h
  have hchars : x.map byteChar = y.map byteChar := by
    have hlists := congrArg String.toList h
    rwa [SubmitRun.plainDigest, SubmitRun.plainDigest, String.toList_ofList,
      String.toList_ofList] at hlists
  exact List.map_injective_iff.mpr (fun _ _ => byteChar_inj.mp) hchars

/-- No codes of more than one byte, as in ASCII. -/
def plainCodes : Gb18030 where
  pair := fun _ _ => none
  quad := fun _ _ _ _ => none
  le_of_pair := fun h => by cases h
  wide_of_pair := fun h => by cases h
  wide_of_quad := fun h => by cases h

/-- A file with Windows newlines and its twin without them. -/
theorem readsAlike_of_sameHash_newlines :
    ReadsAlike roughChunker plainCodes {} (SubmitRun.sampleUpload "kb" [])
      (encodeUtf8 "# Ports\r\nhttp\r\n".toList) (encodeUtf8 "# Ports\nhttp".toList) := by
  refine readsAlike_of_sameHash plainDigest_injective _ _ _ _ (by decide +kernel) ?_
  refine ⟨by decide +kernel, ?_, ?_⟩
  · rw [decodeContent_encodeUtf8, decodeContent_encodeUtf8]
    exact Or.inl (by decide +kernel)
  · rw [decodeContent_encodeUtf8, decodeContent_encodeUtf8]
    exact Or.inl (by rw [HasContent]; decide +kernel)

/-- The heading of a marked file is no heading for the parser. -/
theorem marked_file_reads_differently :
    ¬∀ (sha256Hex : List UInt8 → String) (env : ChunkerEnv) (gb : Gb18030)
      (parser : TextMarkdownParser) (doc : RawDocument) (x y : List UInt8),
      Function.Injective sha256Hex →
      computeDocHash sha256Hex (.bytes x) = computeDocHash sha256Hex (.bytes y) →
      ReadsAlike env gb parser doc x y := by
  intro hall
  have halike := hall SubmitRun.plainDigest roughChunker plainCodes {}
    (SubmitRun.sampleUpload "kb" []) (encodeUtf8 "\uFEFF# Ports\nhttp".toList)
    (encodeUtf8 "# Ports\nhttp".toList) plainDigest_injective (by decide +kernel)
  simp only [ReadsAlike, TextMarkdownParser.parse, decodeContent_encodeUtf8] at halike
  exact absurd halike (by decide +kernel)

end Ragx
