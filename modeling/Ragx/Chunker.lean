import Mathlib.Algebra.Order.Field.Rat
import Mathlib.Algebra.Order.Floor.Ring
import Mathlib.Data.Rat.Floor
import Ragx.Models

/-!
# The chunker

Atoms are split at visual bounds, text atoms are merged towards a target size,
short groups are merged backwards, an overlap of whole sentences is put in front
of a group, and every group becomes a chunk. Token counts, the hash and the
floating-point cosine come from outside. Chunks are drafts here: the random ids
that they are made with are put in by the pipeline.
-/
namespace Ragx

/-! ## Options -/

structure ChunkingOptions where
  targetTokens : ℕ := 512
  overlapRatio : ℚ := 1 / 10
  maxTokens : ℕ := 768
  semanticThreshold : ℚ := 13 / 20
  minTokens : ℕ := 64
  keepTableHeader : Bool := true
  contextPrefix : Bool := true
  mergeShortChunks : Bool := true
  target_ge : 16 ≤ targetTokens := by decide
  max_ge : 16 ≤ maxTokens := by decide
  min_ge : 1 ≤ minTokens := by decide
  threshold_mem : 0 ≤ semanticThreshold ∧ semanticThreshold ≤ 1 := by decide +kernel
  overlap_mem : 0 ≤ overlapRatio ∧ overlapRatio ≤ 1 / 2 := by decide +kernel

instance : Inhabited ChunkingOptions := ⟨{}⟩

/-- What the chunker takes from outside: the token counter, SHA-256 as hex text and the
cosine of two vectors of one length. -/
structure ChunkerEnv where
  countTokens : String → ℕ
  sha256 : String → String
  cosine : List ℚ → List ℚ → ℚ

/-! ## Text -/

/-- The characters that Python's `str.strip` removes. -/
def isWhitespace (c : Char) : Bool :=
  let n := c.toNat
  (9 ≤ n && n ≤ 13) || (28 ≤ n && n ≤ 32) || n == 0x85 || n == 0xA0 || n == 0x1680 ||
    (0x2000 ≤ n && n ≤ 0x200A) || n == 0x2028 || n == 0x2029 || n == 0x202F || n == 0x205F ||
    n == 0x3000

def strip (cs : List Char) : List Char :=
  ((cs.dropWhile isWhitespace).reverse.dropWhile isWhitespace).reverse

/-- CJK and ASCII sentence terminators. -/
def terminators : List Char := ['。', '！', '？', '!', '?', '；', ';']

/-- The pieces of a text that is cut behind every terminator. -/
def cutAfterTerminators (piece : List Char) : List Char → List (List Char)
  | [] => [piece]
  | c :: cs =>
    if c ∈ terminators then (piece ++ [c]) :: cutAfterTerminators [] cs
    else cutAfterTerminators (piece ++ [c]) cs

def splitSentences (text : String) : List String :=
  ((cutAfterTerminators [] (strip text.toList)).filter fun p => !(strip p).isEmpty).map
    String.ofList

/-- `text.split("\n")`. -/
def splitLines (line : List Char) : List Char → List (List Char)
  | [] => [line]
  | c :: cs => if c = '\n' then line :: splitLines [] cs else splitLines (line ++ [c]) cs

/-- First row and separator row of a Markdown table. -/
def extractTableHeader (tableMd : String) : String :=
  match splitLines [] (strip tableMd.toList) with
  | row :: separator :: _ =>
    if row.contains '|' && (strip separator).all (['|', '-', ':', ' '].contains ·) then
      String.ofList (row ++ '\n' :: separator)
    else ""
  | _ => ""

/-! ## Grouping -/

def isHardBoundary (prev curr : Atom) : Bool :=
  (prev.page.isSome && curr.page.isSome && prev.page != curr.page) ||
    (curr.context.getD "" != "" && curr.context != prev.context) ||
    curr.type != .text

/-- The loop of `splitByVisualBounds` behind an atom `prev` that `current` ends with. -/
def splitFrom (prev : Atom) (current : List Atom) : List Atom → List (List Atom)
  | [] => [current]
  | atom :: atoms =>
    if isHardBoundary prev atom then current :: splitFrom atom [atom] atoms
    else splitFrom atom (current ++ [atom]) atoms

def splitByVisualBounds : List Atom → List (List Atom)
  | [] => []
  | atom :: atoms => splitFrom atom [atom] atoms

section Chunker

variable (env : ChunkerEnv) (opts : ChunkingOptions)

def atomTokens (atom : Atom) : ℕ := env.countTokens (atom.text.getD "")

def mergeShortFrom (minTokens : ℕ) (last : List Atom) : List (List Atom) → List (List Atom)
  | [] => [last]
  | group :: groups =>
    if (group.map (atomTokens env)).sum < minTokens then
      mergeShortFrom minTokens (last ++ group) groups
    else last :: mergeShortFrom minTokens group groups

/-- Merges groups shorter than `minTokens` into the previous one. -/
def mergeShort (groups : List (List Atom)) (minTokens : ℕ) : List (List Atom) :=
  match groups with
  | [] => []
  | group :: groups => mergeShortFrom env minTokens group groups

def shouldSplit (currentTokens tokens : ℕ) (sim : ℚ) : Bool :=
  opts.maxTokens < currentTokens + tokens ||
    (opts.targetTokens ≤ currentTokens && sim < opts.semanticThreshold) ||
    sim < opts.semanticThreshold * (7 / 10)

/-- The loop of `mergeTextAtoms` behind an atom with the vector `prev`. The cosine raises on
two lengths and the index on too few vectors. -/
def mergeFrom (current : List Atom) (currentTokens : ℕ) (prev : List ℚ) :
    List Atom → List (List ℚ) → Except Exc (List (List Atom))
  | [], _ => .ok [current]
  | _ :: _, [] => .error (.foreign "list index out of range")
  | atom :: atoms, vector :: vectors =>
    if prev.length ≠ vector.length then
      .error (.foreign s!"vector length mismatch: {prev.length} vs {vector.length}")
    else if shouldSplit opts currentTokens (atomTokens env atom) (env.cosine prev vector) then
      (mergeFrom [atom] (atomTokens env atom) vector atoms vectors).map (current :: ·)
    else
      mergeFrom (current ++ [atom]) (currentTokens + atomTokens env atom) vector atoms vectors

/-- Semantic soft-merge; `vectors` are the embeddings of the atoms in the same order. -/
def mergeTextAtoms (textAtoms : List Atom) (vectors : List (List ℚ)) :
    Except Exc (List (List Atom)) :=
  let merged : Except Exc (List (List Atom)) :=
    match textAtoms, vectors with
    | [], _ => .ok []
    | [atom], _ => .ok [[atom]]
    | _ :: _ :: _, [] => .error (.foreign "list index out of range")
    | atom :: atoms, vector :: vectors =>
      mergeFrom env opts [atom] (atomTokens env atom) vector atoms vectors
  merged.map fun groups =>
    if opts.mergeShortChunks then mergeShort env groups opts.minTokens else groups

/-! ## Overlap -/

def overlapAtom (atom : Atom) (sentence : String) : Atom where
  atomId := atom.atomId ++ "#ov"
  docId := atom.docId
  type := .text
  text := some sentence
  page := atom.page
  bbox := atom.bbox
  contentHash := env.sha256 sentence
  context := atom.context

/-- The sentences from the last to the first, until one no longer fits. -/
def collectTail (targetTokens : ℕ) (collected : List Atom) (total : ℕ) :
    List (Atom × String) → List Atom
  | [] => collected
  | (atom, sentence) :: rest =>
    if targetTokens < total + env.countTokens sentence then collected
    else collectTail targetTokens (overlapAtom env atom sentence :: collected)
      (total + env.countTokens sentence) rest

def extractTailSentences (atoms : List Atom) (targetTokens : ℕ) : List Atom :=
  collectTail env targetTokens [] 0 <| atoms.reverse.flatMap fun atom =>
    (splitSentences (atom.text.getD "")).reverse.map fun sentence => (atom, sentence)

def overlapFrom (overlapTokens : ℕ) (prev : List Atom) : List (List Atom) → List (List Atom)
  | [] => []
  | group :: groups =>
    (extractTailSentences env prev overlapTokens ++ group) ::
      overlapFrom overlapTokens group groups

/-- Puts the tail of every group in front of the next one. -/
def applyOverlap (groups : List (List Atom)) : List (List Atom) :=
  let overlapTokens := ⌊opts.targetTokens * opts.overlapRatio⌋.toNat
  match groups with
  | [] => []
  | group :: groups => group :: overlapFrom env overlapTokens group groups

/-! ## Assembly -/

/-- The lines that one atom adds to its chunk. -/
def atomParts (descriptions : OrderedDict String AtomDescription) (atom : Atom) : List String :=
  let desc := (descriptions.get? atom.atomId).map (·.description)
  match atom.type with
  | .text => [atom.text.getD ""]
  | .table =>
    let header := extractTableHeader (atom.text.getD "")
    (if opts.keepTableHeader && header != "" then [header] else []) ++ desc.toList ++
      [atom.text.getD ""]
  | .formula =>
    (desc.map ("[公式描述] " ++ ·)).toList ++
      (if atom.text.getD "" != "" then ["$$" ++ atom.text.getD "" ++ "$$"] else [])
  | .image => [(desc.map ("[图片] " ++ ·)).getD "[图片]"]

/-- The `[context]` line: the first context that is not empty. -/
def contextParts (atoms : List Atom) : List String :=
  if opts.contextPrefix then
    ((atoms.findSome? fun atom => atom.context.filter (· != "")).map
      fun ctx => "[" ++ ctx ++ "]").toList
  else []

/-- A group becomes a chunk, unless it is too large. -/
def assembleChunk (kbId docId : String) (descriptions : OrderedDict String AtomDescription)
    (atoms : List Atom) : Except Exc Chunk :=
  let text := "\n".intercalate
    (contextParts opts atoms ++ atoms.flatMap (atomParts opts descriptions))
  let tokenCount := env.countTokens text
  if (opts.maxTokens : ℚ) * (6 / 5) < tokenCount then
    .error {
      cls := .chunkTooLarge, code := 3003
      message := "chunk exceeds hard token cap and cannot be split"
      details := [("token_count", .num tokenCount), ("max_tokens", .num opts.maxTokens)] }
  else
    .ok {
      chunkId := ""
      docId := docId
      kbId := kbId
      atomIds := atoms.map (·.atomId)
      text := text
      tokenCount := tokenCount
      page := atoms.head?.bind (·.page)
      bbox := atoms.head?.bind (·.bbox) }

/-- The chunks of one visual group: its non-text atoms first, each by itself. -/
def chunkGroup (embed : List String → List (List ℚ)) (kbId docId : String)
    (descriptions : OrderedDict String AtomDescription) (group : List Atom) :
    Except Exc (List Chunk) := do
  let assemble := assembleChunk env opts kbId docId descriptions
  let nonText ← (group.filter (·.type ≠ .text)).mapM fun atom => assemble [atom]
  let textAtoms := group.filter (·.type = .text)
  if textAtoms.isEmpty then return nonText
  let merged ← mergeTextAtoms env opts textAtoms (embed (textAtoms.map (·.text.getD "")))
  let texts ← (applyOverlap env opts merged).mapM assemble
  return nonText ++ texts

/-- `Chunker.chunk` with an embedder that answers. -/
def chunk (embed : List String → List (List ℚ)) (atoms : List Atom) (kbId docId : String)
    (descriptions : OrderedDict String AtomDescription) : Except Exc (List Chunk) := do
  let groups ← (splitByVisualBounds atoms).mapM
    (chunkGroup env opts embed kbId docId descriptions)
  return groups.flatten

end Chunker

end Ragx
