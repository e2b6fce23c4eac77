import Ragx.TrailingBlanks

/-!
# The describing processor

A model describes an atom in free text and is asked to end with a line that says how confident
it is. The processor searches the text for such a line and takes it out.
-/
namespace Ragx

/-! ## The confidence pattern -/

/-- A letter of the pattern, in either case. -/
def sameLetter (letter c : Char) : Bool :=
  c == letter || c == letter.toUpper || (letter == 'i' && (c == 'İ' || c == 'ı'))

/-- The zeros of the decimal systems. -/
def decimalZeros : List ℕ := [
  0x30, 0x660, 0x6f0, 0x7c0, 0x966, 0x9e6, 0xa66, 0xae6, 0xb66, 0xbe6, 0xc66, 0xce6, 0xd66, 0xde6,
  0xe50, 0xed0, 0xf20, 0x1040, 0x1090, 0x17e0, 0x1810, 0x1946, 0x19d0, 0x1a80, 0x1a90, 0x1b50,
  0x1bb0, 0x1c40, 0x1c50, 0xa620, 0xa8d0, 0xa900, 0xa9d0, 0xa9f0, 0xaa50, 0xabf0, 0xff10, 0x104a0,
  0x10d30, 0x11066, 0x110f0, 0x11136, 0x111d0, 0x112f0, 0x11450, 0x114d0, 0x11650, 0x116c0, 0x11730,
  0x118e0, 0x11950, 0x11c50, 0x11d50, 0x11da0, 0x16a60, 0x16ac0, 0x16b50, 0x1d7ce, 0x1d7d8, 0x1d7e2,
  0x1d7ec, 0x1d7f6, 0x1e140, 0x1e2f0, 0x1e950, 0x1fbf0]

/-- The digits of `\d`, with their values. -/
def decimalValue (c : Char) : Option ℕ :=
  (decimalZeros.find? fun first => first ≤ c.toNat && c.toNat < first + 10).map (c.toNat - ·)

def isDecimal (c : Char) : Bool := (decimalValue c).isSome

def matchLetters : List Char → List Char → Option (List Char)
  | [], cs => some cs
  | _ :: _, [] => none
  | letter :: letters, c :: cs => if sameLetter letter c then matchLetters letters cs else none

/-- A run of digits of the pattern, behind what it stands behind. -/
def matchRun (digit : Char → Bool) (lead cs : List Char) : Option (List Char × List Char) :=
  if (cs.takeWhile digit).isEmpty then none
  else some (lead ++ cs.takeWhile digit, cs.dropWhile digit)

/-- `(0?\.\d+|1\.0+)`. -/
def matchScore : List Char → Option (List Char × List Char)
  | '0' :: '.' :: cs => matchRun isDecimal ['0', '.'] cs
  | '.' :: cs => matchRun isDecimal ['.'] cs
  | '1' :: '.' :: cs => matchRun (· == '0') ['1', '.'] cs
  | _ => none

def confidenceLetters : List Char := ['c', 'o', 'n', 'f', 'i', 'd', 'e', 'n', 'c', 'e']

/-- What stands behind `\s*:\s*` goes to the score. -/
def matchColon (cs : List Char) : Option (List Char × List Char) :=
  match cs.dropWhile isWhitespace with
  | ':' :: cs => matchScore (cs.dropWhile isWhitespace)
  | _ => none

/-- `_CONFIDENCE` at the start of a text: its group, and the text behind it. -/
def matchConfidence (cs : List Char) : Option (List Char × List Char) :=
  (matchLetters confidenceLetters cs).bind matchColon

structure ConfidenceMatch where
  before : List Char
  group : List Char
  after : List Char
deriving DecidableEq

/-- `_CONFIDENCE.search`. -/
def searchConfidence : List Char → Option ConfidenceMatch
  | [] => none
  | c :: cs =>
    match matchConfidence (c :: cs) with
    | some (group, after) => some ⟨[], group, after⟩
    | none => (searchConfidence cs).map fun m => { m with before := c :: m.before }

/-- The number that the digits write. -/
def decimalNumber (digits : List Char) : ℕ :=
  digits.foldl (fun n c => 10 * n + (decimalValue c).getD 0) 0

/-- `float` of a numeral with a point. -/
def floatOf (numeral : List Char) : ℚ :=
  let whole := numeral.takeWhile (· ≠ '.')
  let fraction := (numeral.dropWhile (· ≠ '.')).drop 1
  decimalNumber (whole ++ fraction) / 10 ^ fraction.length

def parseConfidence (text : List Char) : List Char × ℚ :=
  match searchConfidence text with
  | none => (strip text, 1 / 2)
  | some m => (strip (m.before ++ m.after), max 0 (min 1 (floatOf m.group)))

theorem parseConfidence_mem (text : List Char) :
    0 ≤ (parseConfidence text).2 ∧ (parseConfidence text).2 ≤ 1 := by
  unfold parseConfidence
  cases searchConfidence text with
  | none => norm_num
  | some m => exact ⟨le_max_left _ _, max_le zero_le_one (min_le_left _ _)⟩

example : parseConfidence "A chart.\nConfidence : .85".toList = ("A chart.".toList, 17 / 20) := by
  decide +kernel

/-! ## A line below the text -/

theorem matchLetters_append_newline {letters : List Char}
    (hletters : ∀ letter ∈ letters, sameLetter letter '\n' = false) (cs rest : List Char) :
    matchLetters letters (cs ++ '\n' :: rest) =
      (matchLetters letters cs).map (· ++ '\n' :: rest) := by
  induction letters generalizing cs with
  | nil => rfl
  | cons letter letters ih =>
    cases cs with
    | nil => simp [matchLetters, hletters letter List.mem_cons_self]
    | cons c cs =>
      rw [List.cons_append, matchLetters, matchLetters]
      split_ifs
      · exact ih (fun l hl => hletters l (List.mem_cons_of_mem letter hl)) cs
      · rfl

theorem matchRun_append_newline {digit : Char → Bool} (hdigit : digit '\n' = false)
    (lead cs rest : List Char) :
    matchRun digit lead (cs ++ '\n' :: rest) =
      (matchRun digit lead cs).map (Prod.map id (· ++ '\n' :: rest)) := by
  have htake : (cs ++ '\n' :: rest).takeWhile digit = cs.takeWhile digit := by
    rw [List.takeWhile_append]
    split_ifs with hall
    · rw [List.takeWhile_cons_of_neg (by simp [hdigit]), List.append_nil,
        (List.takeWhile_prefix digit).eq_of_length hall]
    · rfl
  have hdrop : (cs ++ '\n' :: rest).dropWhile digit = cs.dropWhile digit ++ '\n' :: rest := by
    rw [List.dropWhile_append]
    split_ifs with hempty
    · rw [List.isEmpty_iff.mp hempty, List.dropWhile_cons_of_neg (by simp [hdigit])]
      rfl
    · rfl
  rw [matchRun, matchRun, htake, hdrop]
  split_ifs
  · rfl
  · rfl

theorem isDecimal_newline : isDecimal '\n' = false := by decide

theorem matchScore_point (cs : List Char) :
    matchScore ('.' :: cs) = matchRun isDecimal ['.'] cs := rfl

theorem matchScore_of_head {c : Char} (hpoint : c ≠ '.') {cs : List Char}
    (h : cs.head? = some '.' → c ≠ '0' ∧ c ≠ '1') : matchScore (c :: cs) = none := by
  unfold matchScore
  split
  · rename_i heq
    obtain ⟨rfl, rfl⟩ := List.cons.inj heq
    exact absurd rfl (h rfl).1
  · rename_i heq
    exact absurd (List.cons.inj heq).1 hpoint
  · rename_i heq
    obtain ⟨rfl, rfl⟩ := List.cons.inj heq
    exact absurd rfl (h rfl).2
  · rfl

theorem matchScore_append_newline (cs rest : List Char) :
    matchScore (cs ++ '\n' :: rest) =
      (matchScore cs).map (Prod.map id (· ++ '\n' :: rest)) := by
  have hzero : ('0' == '\n') = false := rfl
  cases cs with
  | nil => exact matchScore_of_head (by decide) fun _ => by decide
  | cons c cs =>
    rw [List.cons_append]
    by_cases hpoint : c = '.'
    · rw [hpoint, matchScore_point, matchScore_point,
        matchRun_append_newline isDecimal_newline]
    · by_cases hscore : cs.head? = some '.' ∧ (c = '0' ∨ c = '1')
      · obtain ⟨cs, rfl⟩ := List.head?_eq_some_iff.mp hscore.1
        rcases hscore.2 with rfl | rfl
        · exact matchRun_append_newline isDecimal_newline ['0', '.'] cs rest
        · exact matchRun_append_newline (by decide) ['1', '.'] cs rest
      · have hhead : cs.head? = some '.' → c ≠ '0' ∧ c ≠ '1' := by tauto
        rw [matchScore_of_head hpoint hhead, matchScore_of_head hpoint]
        · rfl
        · cases cs with
          | nil => simp
          | cons d cs => exact hhead

/-- The white space before a line does not reach into it. -/
theorem dropWhile_append_line (cs rest : List Char) :
    (cs ++ '\n' :: 'c' :: rest).dropWhile isWhitespace =
      if (cs.dropWhile isWhitespace).isEmpty then 'c' :: rest
      else cs.dropWhile isWhitespace ++ '\n' :: 'c' :: rest := by
  rw [List.dropWhile_append]
  rfl

theorem matchColon_colon {cs after : List Char} (h : cs.dropWhile isWhitespace = ':' :: after) :
    matchColon cs = matchScore (after.dropWhile isWhitespace) := by
  simp only [matchColon, h]

theorem matchColon_of_head {cs : List Char}
    (h : (cs.dropWhile isWhitespace).head? ≠ some ':') : matchColon cs = none := by
  unfold matchColon
  split
  · rename_i hcolon
    rw [hcolon] at h
    exact absurd rfl h
  · rfl

/-- A match in the text ends before a line below it that begins with a letter. -/
theorem matchColon_append_line (cs rest : List Char) :
    matchColon (cs ++ '\n' :: 'c' :: rest) =
      (matchColon cs).map (Prod.map id (· ++ '\n' :: 'c' :: rest)) := by
  have hdrop := dropWhile_append_line cs rest
  cases hcs : cs.dropWhile isWhitespace with
  | nil =>
    rw [hcs] at hdrop
    rw [matchColon_of_head (by rw [hdrop]; simp), matchColon_of_head (by rw [hcs]; simp)]
    rfl
  | cons c after =>
    rw [hcs, List.isEmpty_cons, if_neg Bool.false_ne_true, List.cons_append] at hdrop
    by_cases hc : c = ':'
    · subst hc
      rw [matchColon_colon hdrop, matchColon_colon hcs, dropWhile_append_line]
      split_ifs with hblank
      · rw [List.isEmpty_iff.mp hblank, matchScore_of_head (by decide) fun _ => by decide]
        rfl
      · exact matchScore_append_newline _ _
    · rw [matchColon_of_head (by rw [hdrop]; simpa using hc),
        matchColon_of_head (by rw [hcs]; simpa using hc)]
      rfl

theorem sameLetter_newline : ∀ letter ∈ confidenceLetters, sameLetter letter '\n' = false := by
  simp only [confidenceLetters, List.forall_mem_cons]
  exact ⟨rfl, rfl, rfl, rfl, rfl, rfl, rfl, rfl, rfl, rfl, nofun⟩

theorem matchConfidence_append_line (cs rest : List Char) :
    matchConfidence (cs ++ '\n' :: 'c' :: rest) =
      (matchConfidence cs).map (Prod.map id (· ++ '\n' :: 'c' :: rest)) := by
  rw [matchConfidence, matchConfidence, matchLetters_append_newline sameLetter_newline]
  cases matchLetters confidenceLetters cs with
  | none => rfl
  | some after => exact matchColon_append_line after rest

theorem searchConfidence_append_line (cs rest : List Char) :
    searchConfidence (cs ++ '\n' :: 'c' :: rest) =
      match searchConfidence cs with
      | some m => some { m with after := m.after ++ '\n' :: 'c' :: rest }
      | none => (searchConfidence ('c' :: rest)).map fun m =>
          { m with before := cs ++ '\n' :: m.before } := by
  induction cs with
  | nil => rfl
  | cons c cs ih =>
    have hmatch := matchConfidence_append_line (c :: cs) rest
    rw [List.cons_append] at hmatch
    rw [List.cons_append, searchConfidence, searchConfidence, hmatch]
    cases matchConfidence (c :: cs) with
    | some found => rfl
    | none =>
      simp only [Option.map_none, ih]
      cases searchConfidence cs with
      | some m => rfl
      | none =>
        simp only [Option.map_none, Option.map_map]
        rfl

/-- A text has a match where a suffix of it starts with one. -/
theorem searchConfidence_eq_none_iff (cs : List Char) :
    searchConfidence cs = none ↔ ∀ rest, rest <:+ cs → matchConfidence rest = none := by
  induction cs with
  | nil =>
    simp only [List.suffix_nil, forall_eq]
    exact iff_of_true rfl rfl
  | cons c cs ih =>
    simp only [List.suffix_cons_iff, forall_eq_or_imp, ← ih]
    rw [searchConfidence]
    cases matchConfidence (c :: cs) with
    | some found => simp
    | none => simp

/-- What a search finds is a match at its place. -/
theorem exists_of_searchConfidence {cs : List Char} {m : ConfidenceMatch}
    (h : searchConfidence cs = some m) : ∃ rest, cs = m.before ++ rest ∧
      matchConfidence rest = some (m.group, m.after) := by
  induction cs generalizing m with
  | nil => cases h
  | cons c cs ih =>
    rw [searchConfidence] at h
    cases hmatch : matchConfidence (c :: cs) with
    | some found =>
      rw [hmatch] at h
      obtain rfl := Option.some.inj h
      exact ⟨c :: cs, rfl, hmatch⟩
    | none =>
      rw [hmatch] at h
      obtain ⟨m, hm, rfl⟩ := Option.map_eq_some_iff.mp h
      obtain ⟨rest, rfl, hrest⟩ := ih hm
      exact ⟨rest, rfl, hrest⟩

/-! ## The processor -/

structure VlmProcessor where
  chat : List (String × String) → Except Exc (Option String)
  systemPrompt : AtomType → String
  userPrompt : Atom → String
  smallModel : String := "vlm-small"
  largeModel : String := "vlm-large"
  modelName : String := "vlm-small"

namespace VlmProcessor

variable (vlm : VlmProcessor)

def modelFor (options : Metadata) : String :=
  let model := (options.get? "model").getD .null
  let hint := if model.truthy then model else (options.get? "tier").getD .null
  match hint with
  | .str "large" => vlm.largeModel
  | .str "small" => vlm.smallModel
  | _ => vlm.modelName

def describeOne (atom : Atom) (options : Metadata) : Except Exc AtomDescription :=
  let text := atom.text.getD ""
  if atom.type = .text then
    .ok {
      atomId := atom.atomId
      description := text
      confidence := if text = "" then 0 else 1
      model := "passthrough" }
  else do
    let raw ← vlm.chat [("system", vlm.systemPrompt atom.type), ("user", vlm.userPrompt atom)]
    let (body, confidence) := parseConfidence (raw.getD "").toList
    return {
      atomId := atom.atomId
      description := if body.isEmpty then text else String.ofList body
      confidence
      model := vlm.modelFor options }

/-- Every description has a confidence between 0 and 1, whatever the model wrote. -/
theorem confidence_mem_of_describeOne {atom : Atom} {options : Metadata} {d : AtomDescription}
    (h : vlm.describeOne atom options = .ok d) : 0 ≤ d.confidence ∧ d.confidence ≤ 1 := by
  unfold describeOne at h
  by_cases htext : atom.type = .text
  · rw [if_pos htext] at h
    obtain rfl := Except.ok.inj h
    dsimp only
    split_ifs <;> norm_num
  · rw [if_neg htext] at h
    cases hraw : vlm.chat
        [("system", vlm.systemPrompt atom.type), ("user", vlm.userPrompt atom)] with
    | error e =>
      rw [hraw] at h
      cases h
    | ok raw =>
      rw [hraw] at h
      obtain rfl := Except.ok.inj h
      exact parseConfidence_mem _

end VlmProcessor

end Ragx
