import Mathlib.Data.List.TakeWhile

/-!
# The fingerprint of a document

Documents are told apart by the hash of their normalised bytes: without a byte order mark,
with one kind of newline, and without blanks at the end.
-/
namespace Ragx

/-- The content of a document: the bytes of a file, or a text. -/
inductive DocContent where
  | bytes (data : List UInt8)
  | text (s : String)
deriving DecidableEq

/-- `text.encode("utf-8")`. -/
def encodeUtf8 (text : List Char) : List UInt8 := text.flatMap String.utf8EncodeChar

def DocContent.raw : DocContent → List UInt8
  | .bytes data => data
  | .text s => encodeUtf8 s.toList

/-- Of UTF-8 and of both orders of UTF-16. -/
def boms : List (List UInt8) := [[0xEF, 0xBB, 0xBF], [0xFF, 0xFE], [0xFE, 0xFF]]

/-- The byte order mark that the data starts with. -/
def bomOf (data : List UInt8) : List UInt8 := (boms.find? (·.isPrefixOf data)).getD []

/-- Every `\r\n`, and then every `\r`, becomes `\n`; behind a `\r` a `\n` is dropped. -/
def unifyNewlines (afterCr : Bool) : List UInt8 → List UInt8
  | [] => []
  | b :: rest =>
    if b = 0x0A ∧ afterCr then unifyNewlines false rest
    else if b = 0x0D then 0x0A :: unifyNewlines true rest
    else b :: unifyNewlines false rest

/-- The bytes that `bytes.rstrip` removes. -/
def isBlankByte (b : UInt8) : Bool := b == 0x20 || (0x09 ≤ b && b ≤ 0x0D)

/-- `data.rstrip()`. -/
def rstripBytes (data : List UInt8) : List UInt8 :=
  (data.reverse.dropWhile isBlankByte).reverse

def normalizeBytes (data : List UInt8) : List UInt8 :=
  rstripBytes (unifyNewlines false (data.drop (bomOf data).length))

/-- `sha256Hex` is the hex digest of SHA-256. -/
def computeDocHash (sha256Hex : List UInt8 → String) (content : DocContent) : String :=
  sha256Hex (normalizeBytes content.raw)

end Ragx
