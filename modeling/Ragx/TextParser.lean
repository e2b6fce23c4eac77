import Ragx.FixedWidth
import Ragx.TextLines

/-!
# The text and Markdown parser

The lines of a text are split at the headings of the configured levels, where a code fence
hides headings and a table row opens a table. The paragraphs of every section are grouped
into atoms of roughly the target size.
-/
namespace Ragx

/-- The parser with its configuration; no heading levels stand for a missing list. -/
structure TextMarkdownParser where
  headingLevels : List ℤ := []
  targetTokens : ℤ := 512
  maxTokens : ℤ := 768
  markdown : Bool := true

/-- The sorted set of levels in the source; only its members matter. -/
def TextMarkdownParser.levels (parser : TextMarkdownParser) : List ℤ :=
  if parser.headingLevels.isEmpty then [1, 2, 3]
  else parser.headingLevels.filter fun level => 1 ≤ level && level ≤ 6

/-! ## Kinds of lines -/

/-- `_HEADING`: up to six `#`, whitespace, and the title. -/
def matchHeading (line : List Char) : Option (ℕ × List Char) :=
  let level := (line.takeWhile (· = '#')).length
  match line.dropWhile (· = '#') with
  | [] => none
  | c :: rest =>
    if 1 ≤ level ∧ level ≤ 6 ∧ isWhitespace c then some (level, rest.dropWhile isWhitespace)
    else none

/-- `_FENCE` on the stripped line. -/
def isFence (line : List Char) : Bool :=
  "```".toList.isPrefixOf (strip line) || "~~~".toList.isPrefixOf (strip line)

/-- `_TABLE_ROW`: the line is between two bars. -/
def isTableRow (line : List Char) : Bool :=
  let row := strip line
  2 ≤ row.length && row.head? == some '|' && row.getLast? == some '|'

/-- `_TABLE_SEP`: between the bars are only blanks, colons, dashes and bars. -/
def isTableSep (line : List Char) : Bool :=
  let row := strip line
  3 ≤ row.length && row.head? == some '|' && row.getLast? == some '|' &&
    (row.drop 1).dropLast.all fun c => isWhitespace c || [':', '-', '|'].contains c

/-! ## Sections -/

structure SplitState where
  sections : List (List Char × List Char) := []
  buffer : List (List Char) := []
  stack : List (List Char) := []
  inFence : Bool := false
  table : List (List Char) := []

/-- The text and the heading path of what was collected become a section. -/
def SplitState.flush (s : SplitState) : SplitState :=
  let joined := stripNewlines (joinLines (s.buffer ++ s.table))
  { s with
    sections := if (strip joined).isEmpty then s.sections
      else s.sections ++ [(joined, [' ', '>', ' '].intercalate s.stack)]
    buffer := []
    table := [] }

section Sections

variable (levels : List ℤ) (markdown : Bool)

/-- The loop body of `_split_sections`. -/
def splitStep (s : SplitState) (line : List Char) : SplitState :=
  if isFence line then
    { s with inFence := !s.inFence, table := [], buffer := s.buffer ++ [line] }
  else
    match (if markdown && !s.inFence then matchHeading line else none) with
    | some (level, title) =>
      if (level : ℤ) ∈ levels then
        { s.flush with stack := s.stack.take (level - 1) ++ [strip title] }
      else { s with buffer := s.buffer ++ [line] }
    | none =>
      if isTableRow line then
        if isTableSep line && !s.table.isEmpty then { s with table := s.table ++ [line] }
        else if !s.table.isEmpty && isTableRow line then { s with table := s.table ++ [line] }
        else { s.flush with table := [line] }
      else if !s.table.isEmpty then { s with table := s.table ++ [line] }
      else { s with buffer := s.buffer ++ [line] }

/-- The sections of a text, each with its heading path. -/
def splitSections (text : List Char) : List (List Char × List Char) :=
  let sections := ((splitlines text).foldl (splitStep levels markdown) {}).flush.sections
  if sections.isEmpty then
    if (strip text).isEmpty then [] else [(strip text, [])]
  else sections

end Sections

/-! ## Atoms -/

/-- How much of `rest`, what follows a newline, a break of paragraphs takes: up to the last
newline before the next visible character. -/
def paragraphBreak (rest : List Char) : Option ℕ :=
  let blanks := rest.takeWhile isWhitespace
  if '\n' ∈ blanks then some (blanks.length - (blanks.reverse.takeWhile (· ≠ '\n')).length)
  else none

/-- `re.split(r"\n\s*\n", block)`, where the next `skip` characters belong to a break. -/
def splitParagraphs (skip : ℕ) (piece : List Char) : List Char → List (List Char)
  | [] => [piece]
  | c :: rest =>
    if 0 < skip then splitParagraphs (skip - 1) piece rest
    else
      match (if c = '\n' then paragraphBreak rest else none) with
      | some length => piece :: splitParagraphs length [] rest
      | none => splitParagraphs 0 (piece ++ [c]) rest

/-- The sentence ends of `_hard_split`. -/
def sentenceEnds : List Char := ['。', '！', '？', '.', '!', '?']

/-- The text cut behind every sentence end; blanks behind a cut are dropped. -/
def splitHard (cut : Bool) (piece : List Char) : List Char → List (List Char)
  | [] => [piece]
  | c :: rest =>
    if cut && isWhitespace c then splitHard true piece rest
    else if c ∈ sentenceEnds then (piece ++ [c]) :: splitHard true [] rest
    else splitHard false (piece ++ [c]) rest

section Atoms

variable (countTokens : String → ℕ)

def tokensOf (text : List Char) : ℕ := countTokens (String.ofList text)

/-- The loop of `_hard_split` with the sentences collected so far. -/
def packSentences (buf : List (List Char)) (size : ℕ) : List (List Char) → List (List Char)
  | [] => if buf.isEmpty then [] else [joinLines buf]
  | sentence :: sentences =>
    let tokens := tokensOf countTokens sentence
    if 768 < size + tokens && !buf.isEmpty then
      joinLines buf :: packSentences [sentence] tokens sentences
    else packSentences (buf ++ [sentence]) (size + tokens) sentences

/-- Sentence-wise split of an oversized paragraph. -/
def hardSplit (text : List Char) : List (List Char) :=
  packSentences countTokens [] 0 ((splitHard false [] text).filter (!isBlank ·))

/-- `"\n\n".join(chunks)`. -/
def joinParagraphs (chunks : List (List Char)) : List Char := ['\n', '\n'].intercalate chunks

/-- The loop over the paragraphs of one section, with the paragraphs collected so far. -/
def packParagraphs (parser : TextMarkdownParser) (chunks : List (List Char)) (size : ℕ) :
    List (List Char) → List (List Char)
  | [] => if chunks.isEmpty then [] else [joinParagraphs chunks]
  | paragraph :: paragraphs =>
    let text := strip paragraph
    if text.isEmpty then packParagraphs parser chunks size paragraphs
    else
      let tokens := tokensOf countTokens text
      if parser.targetTokens < (size + tokens : ℕ) && !chunks.isEmpty then
        joinParagraphs chunks ::
          if parser.maxTokens < tokens then
            hardSplit countTokens text ++ packParagraphs parser [] 0 paragraphs
          else packParagraphs parser [text] tokens paragraphs
      else if parser.maxTokens < tokens && chunks.isEmpty then
        hardSplit countTokens text ++ packParagraphs parser chunks size paragraphs
      else packParagraphs parser (chunks ++ [text]) (size + tokens) paragraphs

/-- The texts of the atoms, each with its heading path. -/
def groupToAtoms (parser : TextMarkdownParser) (sections : List (List Char × List Char)) :
    List (List Char × List Char) :=
  sections.flatMap fun (block, context) =>
    (packParagraphs countTokens parser [] 0 (splitParagraphs 0 [] block)).map fun text =>
      (text, context)

end Atoms

/-- The id of an atom: its number in reading order, with four digits. -/
def sequenceId (docId : String) (seq : ℕ) : String :=
  docId ++ "#" ++ String.ofList (zeroPad 4 seq)

def parsedAtom (env : ChunkerEnv) (docId : String) (block context : List Char) (seq : ℕ) :
    Atom where
  atomId := sequenceId docId seq
  docId := docId
  type := .text
  text := some (String.ofList block)
  contentHash := env.sha256 (String.ofList (strip block))
  page := some 1
  context := if context.isEmpty then none else some (String.ofList context)

/-- The atoms that `parse` makes of a decoded text. -/
def parseText (env : ChunkerEnv) (parser : TextMarkdownParser) (docId : String)
    (text : List Char) : List Atom :=
  if (strip text).isEmpty then []
  else
    let groups := groupToAtoms env.countTokens parser
      (splitSections parser.levels parser.markdown text)
    groups.zipIdx.map fun ((block, context), seq) => parsedAtom env docId block context seq

end Ragx
