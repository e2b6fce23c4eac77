import Ragx.SubmitIngest
import Ragx.TextParser

/-!
# The parsers of scanned documents

Two parsers go over the pages of a document. A page that has text becomes text; of any other
page there is only a placeholder, whose fingerprint is computed from the bytes of the whole
document by a function that expects a text.
-/
namespace Ragx

/-- Without a payload, `atom_text` is stripped and encoded, which bytes cannot be. -/
def computeAtomContentHash (sha256Hex : List UInt8 → String) (atomText : Option DocContent)
    (payload : Option (List UInt8)) : Except Exc String :=
  match payload, atomText with
  | some data, _ => .ok (sha256Hex data)
  | none, none => .ok (sha256Hex [])
  | none, some (.text text) => .ok (sha256Hex (encodeUtf8 (strip text.toList)))
  | none, some (.bytes data) =>
    if data.isEmpty then .ok (sha256Hex [])
    else .error (.foreign "'bytes' object has no attribute 'encode'")

structure ParseResult where
  atoms : List Atom
  metadata : Metadata

def isBlankText (text : String) : Bool := (strip text.toList).isEmpty

/-- `x or None` of a text. -/
def orNone (text : String) : Option String := if text = "" then none else some text

def orNull (text : Option String) : Json :=
  match text.bind orNone with
  | some text => .str text
  | none => .null

def RawDocument.atomId (doc : RawDocument) (seq : ℕ) : String :=
  sequenceId (doc.docId.getD "None") seq

/-- The mimetypes of both parsers. -/
def scanMimetypes : List String :=
  ["application/pdf", "image/png", "image/jpeg", "image/webp", "image/tiff"]

/-- `parse` around the two ways through it. -/
def parseScan (name : String) (doc : RawDocument) (parsePdf parseImage : Except Exc ParseResult) :
    Except Exc ParseResult :=
  if doc.mimetype ∉ scanMimetypes then
    .error {
      cls := .unsupportedFormat
      code := 2002
      message := "mimetype not supported by the " ++ name ++ " parser"
      details := [("mimetype", .str doc.mimetype), ("supported", .arr (scanMimetypes.map .str)),
        ("parser", .str name)] }
  else
    (if doc.mimetype = "application/pdf" then parsePdf else parseImage).mapError fun e => {
      cls := .ingest
      code := 2001
      message := name ++ " parse failed"
      details := [("mimetype", .str doc.mimetype), ("error", .str e.message)] }

/-! ## DeepDoc -/

/-- A page as it was extracted. -/
structure PdfPage where
  pageNo : ℤ
  text : String
  isDigital : Bool
  heading : String := ""

/-- The parser with the packages that it found. -/
structure DeepDocParser where
  ocrEnabled : Bool := true
  pdfplumber : Bool
  pytesseract : Bool
  pil : Bool

section DeepDoc

variable (sha256Hex : List UInt8 → String) (doc : RawDocument)

def makeTextAtom (seq : ℕ) (text : String) (pageNo : ℤ) (heading : String)
    (extraMeta : List (String × Json)) : Except Exc Atom := do
  let contentHash ← computeAtomContentHash sha256Hex (some (.text text)) none
  return {
    atomId := doc.atomId seq
    docId := doc.docId.getD ""
    type := .text
    text := some text
    contentHash := contentHash
    page := some pageNo
    context := orNone heading
    metadata := .ofList (extraMeta ++ if heading = "" then [] else [("heading", .str heading)]) }

def makeImageAtom (seq : ℕ) (pageNo : Option ℤ) : Except Exc Atom := do
  let contentHash ← computeAtomContentHash sha256Hex (some (.bytes doc.content.raw)) none
  let shown := match pageNo with
    | some n => if n = 0 then "?" else toString n
    | none => "?"
  return {
    atomId := doc.atomId seq
    docId := doc.docId.getD ""
    type := .image
    text := some ("[image at page " ++ shown ++ "]")
    contentHash := contentHash
    page := pageNo
    metadata := .ofList [("payload_ref", orNull doc.sourceUri), ("ocr", .bool false)] }

namespace DeepDocParser

variable (parser : DeepDocParser)

def ocrReady : Bool := parser.ocrEnabled && parser.pytesseract && parser.pil

/-- `_ocr_page`, where `recognize` gives nothing if it raises. -/
def ocrPage (recognize : PdfPage → Option String) (page : PdfPage) : String :=
  if parser.pytesseract && parser.pdfplumber && parser.pil then (recognize page).getD "" else ""

def pageAtom (recognize : PdfPage → Option String) (seq : ℕ) (page : PdfPage) : Except Exc Atom :=
  if page.isDigital && !isBlankText page.text then
    makeTextAtom sha256Hex doc seq page.text page.pageNo page.heading []
  else if parser.ocrReady then
    let ocrText := parser.ocrPage recognize page
    if !isBlankText ocrText then
      makeTextAtom sha256Hex doc seq ocrText page.pageNo page.heading [("ocr", .bool true)]
    else makeImageAtom sha256Hex doc seq (some page.pageNo)
  else makeImageAtom sha256Hex doc seq (some page.pageNo)

def parsePdf (recognize : PdfPage → Option String) (pages : List PdfPage) :
    Except Exc ParseResult := do
  let atoms ← pages.zipIdx.mapM fun entry => parser.pageAtom sha256Hex doc recognize entry.2 entry.1
  let ocrUsed := atoms.any fun atom => ((atom.metadata.get? "ocr").map Json.truthy).getD false
  return {
    atoms := atoms
    metadata := .ofList [("parser", .str "deepdoc"), ("pages", .num pages.length),
      ("ocr_used", .bool ocrUsed)] }

/-- An image file is one page without a number; `recognized` is nothing if the recognition
raises. -/
def parseImage (recognized : Option String) : Except Exc ParseResult :=
  let text := if parser.ocrReady then recognized.getD "" else ""
  if !isBlankText text then do
    let atom ← makeTextAtom sha256Hex doc 0 text 1 "" [("ocr", .bool true)]
    return ⟨[atom], .ofList [("parser", .str "deepdoc"), ("ocr", .bool true)]⟩
  else do
    let atom ← makeImageAtom sha256Hex doc 0 none
    return ⟨[atom], .ofList [("parser", .str "deepdoc"), ("ocr", .bool false)]⟩

def parse (recognize : PdfPage → Option String) (pages : List PdfPage)
    (recognized : Option String) : Except Exc ParseResult :=
  parseScan "deepdoc" doc (parser.parsePdf sha256Hex doc recognize pages)
    (parser.parseImage sha256Hex doc recognized)

end DeepDocParser

end DeepDoc

/-! ## MinerU -/

/-- The text of a page, and the first table that pdfplumber extracts from it, if there is
pdfplumber, and a table, and nothing is raised. -/
structure MinerUPage where
  text : String
  table : Option (List (List (Option String)))

structure MinerUParser where
  formulaEnabled : Bool := true
  minCharsPerPage : ℤ := 8

/-- `_FORMULA_TOKEN`. -/
def formulaTokens : List String :=
  ["\\[", "\\(", "$", "\\begin\x7b", "\\frac", "\\sum", "\\int", "\\sqrt", "\\lim"]

def startsFormula (line : List Char) : Bool :=
  let body := line.dropWhile isWhitespace
  formulaTokens.any fun token => token.toList.isPrefixOf body

/-- The text between the outer delimiters of a formula. -/
def formulaBody (raw : List Char) : List Char :=
  let body := strip raw
  if "$$".toList.isPrefixOf body && "$$".toList.isSuffixOf body then
    strip ((body.take (body.length - 2)).drop 2)
  else if "$".toList.isPrefixOf body && "$".toList.isSuffixOf body then
    strip ((body.take (body.length - 1)).drop 1)
  else body

/-- A cell on one line. -/
def tableCell (cell : Option String) : String :=
  String.ofList (strip (((cell.getD "").toList).map fun c => if c = '\n' then ' ' else c))

def tableToMarkdown (table : List (List (Option String))) : String :=
  let rows := table.zipIdx.flatMap fun entry =>
    let cells := entry.1.map tableCell
    ("| " ++ " | ".intercalate cells ++ " |") ::
      if entry.2 = 0 then ["|" ++ "|".intercalate (cells.map fun _ => "---") ++ "|"] else []
  "\n".intercalate rows

namespace MinerUParser

variable (sha256Hex : List UInt8 → String) (doc : RawDocument) (parser : MinerUParser)

def readAtom (type : AtomType) (seq pageNo : ℕ) (text : String) : Except Exc Atom := do
  let contentHash ← computeAtomContentHash sha256Hex (some (.text text)) none
  return {
    atomId := doc.atomId seq
    docId := doc.docId.getD ""
    type := type
    text := some text
    contentHash := contentHash
    page := some pageNo
    metadata := .ofList [("parser", .str "mineru")] }

def imageAtom (seq : ℕ) (pageNo : Option ℕ) : Except Exc Atom := do
  let contentHash ← computeAtomContentHash sha256Hex (some (.bytes doc.content.raw)) none
  let shown := match pageNo with
    | some n => toString n
    | none => "None"
  return {
    atomId := doc.atomId seq
    docId := doc.docId.getD ""
    type := .image
    text := some ("[image page=" ++ shown ++ "]")
    contentHash := contentHash
    page := pageNo.map Int.ofNat
    metadata := .ofList [("parser", .str "mineru"), ("payload_ref", orNull doc.sourceUri)] }

/-- The Markdown of the table that `_detect_table` makes an atom of. -/
def detectTable (page : MinerUPage) : Option String :=
  match page.table with
  | none => none
  | some table =>
    if table.length < 2 then none
    else
      let md := tableToMarkdown table
      if isBlankText md then none else some md

/-- What a page is read as: its table and its lines, formulas apart. -/
def pageTexts (page : MinerUPage) : List (AtomType × String) :=
  let lines := ((splitlines page.text.toList).map strip).filter (!·.isEmpty)
  ((detectTable page).toList.map fun md => (.table, md)) ++ lines.map fun line =>
    if parser.formulaEnabled && startsFormula line then
      (.formula, String.ofList (formulaBody line))
    else (.text, String.ofList line)

def scannedLooking (page : MinerUPage) : Bool :=
  ((strip page.text.toList).length : ℤ) < parser.minCharsPerPage

def pageAtoms (seq pageNo : ℕ) (page : MinerUPage) : Except Exc (List Atom) :=
  if parser.scannedLooking page then (imageAtom sha256Hex doc seq (some pageNo)).map ([·])
  else (parser.pageTexts page).zipIdx.mapM fun entry =>
    readAtom sha256Hex doc entry.1.1 (seq + entry.2) pageNo entry.1.2

/-- The loop over the pages, from an atom number and a page number on. -/
def pagesAtoms (seq pageNo : ℕ) : List MinerUPage → Except Exc (List Atom)
  | [] => .ok []
  | page :: pages => do
    let atoms ← parser.pageAtoms sha256Hex doc seq pageNo page
    let rest ← pagesAtoms (seq + atoms.length) (pageNo + 1) pages
    return atoms ++ rest

def parsePdf (pages : List MinerUPage) : Except Exc ParseResult := do
  let atoms ← parser.pagesAtoms sha256Hex doc 0 1 pages
  let pageCount := (atoms.filterMap (·.page)).dedup.length
  return ⟨atoms, .ofList [("parser", .str "mineru"), ("page_count", .num pageCount)]⟩

def parseImage : Except Exc ParseResult := do
  let atom ← imageAtom sha256Hex doc 0 none
  return ⟨[atom], .ofList [("parser", .str "mineru")]⟩

def parse (pages : List MinerUPage) : Except Exc ParseResult :=
  parseScan "mineru" doc (parser.parsePdf sha256Hex doc pages) (parseImage sha256Hex doc)

end MinerUParser

end Ragx
