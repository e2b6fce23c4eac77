import Mathlib.Data.List.TakeWhile
import Mathlib.Data.Rat.Cast.Order
import Ragx.OrderedDict

/-!
# Strings and numbers in JSON texts

How strings are escaped and read again, and how far a number goes. How the digits of a number
stand for its value is a parameter, in which integers at least are exact.
-/
namespace Ragx.JsonTexts

/-! ## Escaped code units -/

def hexDigit (n : ℕ) : Char := Char.ofNat (if n < 10 then 48 + n else 87 + n)

def hexValue (c : Char) : Option ℕ :=
  let n := c.toNat
  if 48 ≤ n ∧ n ≤ 57 then some (n - 48)
  else if 97 ≤ n ∧ n ≤ 102 then some (n - 87)
  else if 65 ≤ n ∧ n ≤ 70 then some (n - 55)
  else none

theorem hexValue_hexDigit {n : ℕ} (h : n < 16) : hexValue (hexDigit n) = some n := by
  revert n
  decide

/-- `\uXXXX`. -/
def unicodeEscape (n : ℕ) : List Char :=
  ['\\', 'u', hexDigit (n / 4096 % 16), hexDigit (n / 256 % 16), hexDigit (n / 16 % 16),
    hexDigit (n % 16)]

/-- `_decode_uXXXX`: the code unit that a text starts with, and the rest. -/
def decodeUXXXX : List Char → Option (ℕ × List Char)
  | a :: b :: c :: d :: rest => do
    let a ← hexValue a
    let b ← hexValue b
    let c ← hexValue c
    let d ← hexValue d
    return (a * 4096 + b * 256 + c * 16 + d, rest)
  | _ => none

theorem decodeUXXXX_hexDigits {n : ℕ} (h : n < 65536) (rest : List Char) :
    decodeUXXXX ((unicodeEscape n).drop 2 ++ rest) = some (n, rest) := by
  have hdigits : n / 4096 % 16 * 4096 + n / 256 % 16 * 256 + n / 16 % 16 * 16 + n % 16 = n := by
    omega
  simp [unicodeEscape, decodeUXXXX, hexValue_hexDigit, Nat.mod_lt, hdigits]

def isHighSurrogate (n : ℕ) : Bool := 0xd800 ≤ n && n ≤ 0xdbff

def isLowSurrogate (n : ℕ) : Bool := 0xdc00 ≤ n && n ≤ 0xdfff

/-! ## Strings -/

/-- The escapes that are no code units, with what they stand for. -/
def backslash : List (Char × Char) :=
  [('"', '"'), ('\\', '\\'), ('/', '/'), ('b', Char.ofNat 8), ('f', Char.ofNat 12), ('n', '\n'),
    ('r', '\r'), ('t', '\t')]

/-- `ESCAPE_DCT`, as far as it is not made up of code units. -/
def escapeDct : List (Char × Char) :=
  [('\\', '\\'), ('"', '"'), (Char.ofNat 8, 'b'), (Char.ofNat 12, 'f'), ('\n', 'n'), ('\r', 'r'),
    ('\t', 't')]

/-- One character in a string. Beyond the basic plane it is two code units. -/
def encodeChar (ensureAscii : Bool) (c : Char) : List Char :=
  match OrderedDict.lookupIn c escapeDct with
  | some e => ['\\', e]
  | none =>
    if c.toNat < 0x20 ∨ (ensureAscii = true ∧ 0x7f ≤ c.toNat) then
      if c.toNat < 0x10000 then unicodeEscape c.toNat
      else
        unicodeEscape (0xd800 + (c.toNat - 0x10000) / 1024) ++
          unicodeEscape (0xdc00 + (c.toNat - 0x10000) % 1024)
    else [c]

/-- `py_encode_basestring`, without the first quote. -/
def encodeBody (ensureAscii : Bool) (s : List Char) : List Char :=
  s.flatMap (encodeChar ensureAscii) ++ ['"']

/-- What an escape behind `\u` stands for. A surrogate without its other half is no character. -/
def scanUnicode (text : List Char) : Option (Char × List Char) := do
  let (n, rest) ← decodeUXXXX text
  if isHighSurrogate n then
    match rest with
    | '\\' :: 'u' :: rest => do
      let (m, rest) ← decodeUXXXX rest
      if isLowSurrogate m then
        return (Char.ofNat (0x10000 + (n - 0xd800) * 1024 + (m - 0xdc00)), rest)
      else none
    | _ => none
  else if isLowSurrogate n then none
  else return (Char.ofNat n, rest)

/-- One character of a string; control characters have to be escaped. -/
def scanChar : List Char → Option (Char × List Char)
  | [] => none
  | c :: rest =>
    if c = '\\' then
      match rest with
      | [] => none
      | e :: rest =>
        if e = 'u' then scanUnicode rest
        else (OrderedDict.lookupIn e backslash).map fun c => (c, rest)
    else if c.toNat < 0x20 then none
    else some (c, rest)

/-- `scanstring` for a string of up to `n` characters. -/
def scanBody : ℕ → List Char → Option (List Char × List Char)
  | 0, _ => none
  | _ + 1, '"' :: rest => some ([], rest)
  | n + 1, text => do
    let (c, rest) ← scanChar text
    let (s, rest) ← scanBody n rest
    return (c :: s, rest)

theorem scanUnicode_of_basic {c : Char} (h : c.toNat < 0x10000) (rest : List Char) :
    scanUnicode ((unicodeEscape c.toNat).drop 2 ++ rest) = some (c, rest) := by
  have hvalid := c.valid
  have hhigh : isHighSurrogate c.toNat = false := by
    simp only [isHighSurrogate, Bool.and_eq_false_iff, decide_eq_false_iff_not]
    rcases hvalid with hlow | ⟨hup, -⟩
    · have hlow' : c.toNat < 0xd800 := hlow
      exact .inl (by omega)
    · have hup' : 0xdfff < c.toNat := hup
      exact .inr (by omega)
  have hlow : isLowSurrogate c.toNat = false := by
    simp only [isLowSurrogate, Bool.and_eq_false_iff, decide_eq_false_iff_not]
    rcases hvalid with hlow | ⟨hup, -⟩
    · have hlow' : c.toNat < 0xd800 := hlow
      exact .inl (by omega)
    · have hup' : 0xdfff < c.toNat := hup
      exact .inr (by omega)
  rw [scanUnicode, decodeUXXXX_hexDigits h]
  simp [hhigh, hlow]

theorem scanUnicode_of_pair {n m : ℕ} (hn : n < 1024) (hm : m < 1024) (rest : List Char) :
    scanUnicode ((unicodeEscape (0xd800 + n)).drop 2 ++ (unicodeEscape (0xdc00 + m) ++ rest)) =
      some (Char.ofNat (0x10000 + n * 1024 + m), rest) := by
  have hhigh : isHighSurrogate (0xd800 + n) = true := by
    simp only [isHighSurrogate, Bool.and_eq_true, decide_eq_true_eq]
    omega
  have hlow : isLowSurrogate (0xdc00 + m) = true := by
    simp only [isLowSurrogate, Bool.and_eq_true, decide_eq_true_eq]
    omega
  have hsplit : unicodeEscape (0xdc00 + m) ++ rest =
      '\\' :: 'u' :: ((unicodeEscape (0xdc00 + m)).drop 2 ++ rest) := rfl
  rw [scanUnicode, decodeUXXXX_hexDigits (by omega), hsplit]
  simp only [Option.bind_eq_bind, Option.bind_some, hhigh, if_true,
    decodeUXXXX_hexDigits (show 0xdc00 + m < 65536 by omega), hlow, Nat.add_sub_cancel_left]
  rfl

/-- The two halves of a character beyond the basic plane, put together again. -/
theorem ofNat_halves {c : Char} (h : 0x10000 ≤ c.toNat) :
    (c.toNat - 0x10000) / 1024 < 1024 ∧ Char.ofNat (0x10000 +
      (c.toNat - 0x10000) / 1024 * 1024 + (c.toNat - 0x10000) % 1024) = c := by
  have hlt : c.toNat < 0x110000 := by
    rcases c.valid with hlow | ⟨-, hup⟩
    · exact hlow.trans (by decide)
    · exact hup
  have hsum : 0x10000 + (c.toNat - 0x10000) / 1024 * 1024 + (c.toNat - 0x10000) % 1024 =
      c.toNat := by
    omega
  refine ⟨by omega, ?_⟩
  rw [hsum, Char.ofNat_toNat]

/-- Every short escape is read as what it was written for. -/
theorem lookupIn_backslash {c e : Char} (h : OrderedDict.lookupIn c escapeDct = some e) :
    e ≠ 'u' ∧ OrderedDict.lookupIn e backslash = some c ∧ 0x20 ≤ e.toNat := by
  have hall : ∀ entry ∈ escapeDct, entry.2 ≠ 'u' ∧
      OrderedDict.lookupIn entry.2 backslash = some entry.1 ∧ 0x20 ≤ entry.2.toNat := by
    decide
  exact hall (c, e) ((OrderedDict.lookupIn_eq_some (by decide)).mp h)

theorem ne_of_not_escaped {c : Char} (h : OrderedDict.lookupIn c escapeDct = none) :
    c ≠ '\\' ∧ c ≠ '"' := by
  constructor
  · rintro rfl
    cases h
  · rintro rfl
    cases h

/-- A character is read as it was written, whatever stands behind it. -/
theorem scanChar_encodeChar (ensureAscii : Bool) (c : Char) (rest : List Char) :
    scanChar (encodeChar ensureAscii c ++ rest) = some (c, rest) := by
  unfold encodeChar
  cases hescape : OrderedDict.lookupIn c escapeDct with
  | some e =>
    obtain ⟨hunicode, hback, -⟩ := lookupIn_backslash hescape
    simp only [List.cons_append, List.nil_append, scanChar, if_true, if_neg hunicode, hback,
      Option.map_some]
  | none =>
    dsimp only
    split_ifs with hcontrol hbasic
    · exact scanUnicode_of_basic hbasic rest
    · obtain ⟨hhalf, hchar⟩ := ofNat_halves (Nat.le_of_not_lt hbasic)
      rw [List.append_assoc]
      exact (scanUnicode_of_pair hhalf (Nat.mod_lt _ (by decide)) rest).trans (by rw [hchar])
    · have hprintable : ¬ c.toNat < 0x20 := fun hlt => hcontrol (.inl hlt)
      simp only [List.singleton_append, scanChar, (ne_of_not_escaped hescape).1, hprintable,
        if_false]

/-- What a character is written as starts with itself or with a backslash, and never with a
quote. -/
theorem head_encodeChar (ensureAscii : Bool) (c : Char) :
    ∃ d rest, encodeChar ensureAscii c = d :: rest ∧ d ≠ '"' := by
  have hbackslash : '\\' ≠ '"' := by decide
  unfold encodeChar
  cases hescape : OrderedDict.lookupIn c escapeDct with
  | some e => exact ⟨_, _, rfl, hbackslash⟩
  | none =>
    dsimp only
    split_ifs
    · exact ⟨_, _, rfl, hbackslash⟩
    · exact ⟨_, _, rfl, hbackslash⟩
    · exact ⟨_, _, rfl, (ne_of_not_escaped hescape).2⟩

theorem scanBody_encodeBody (ensureAscii : Bool) (s rest : List Char) {n : ℕ}
    (h : s.length < n) : scanBody n (encodeBody ensureAscii s ++ rest) = some (s, rest) := by
  induction s generalizing n with
  | nil =>
    obtain ⟨n, rfl⟩ := Nat.exists_eq_succ_of_ne_zero (Nat.ne_zero_of_lt h)
    rfl
  | cons c s ih =>
    obtain ⟨n, rfl⟩ := Nat.exists_eq_succ_of_ne_zero (Nat.ne_zero_of_lt h)
    have hbody : encodeBody ensureAscii (c :: s) ++ rest =
        encodeChar ensureAscii c ++ (encodeBody ensureAscii s ++ rest) := by
      simp only [encodeBody, List.flatMap_cons, List.append_assoc]
    have hchar := scanChar_encodeChar ensureAscii c (encodeBody ensureAscii s ++ rest)
    obtain ⟨d, tail, hd, hquote⟩ := head_encodeChar ensureAscii c
    rw [hbody]
    rw [hd, List.cons_append] at hchar ⊢
    rw [scanBody, hchar]
    · simp [ih (Nat.lt_of_succ_lt_succ h)]
    · exact fun _ heq => hquote (List.cons.inj heq).1

theorem le_toNat_of_mem_unicodeEscape {n : ℕ} {c : Char} (h : c ∈ unicodeEscape n) :
    0x20 ≤ c.toNat := by
  have hhex : ∀ n : ℕ, n < 16 → 0x20 ≤ (hexDigit n).toNat := by decide
  simp only [unicodeEscape, List.mem_cons, List.not_mem_nil, or_false] at h
  obtain rfl | rfl | rfl | rfl | rfl | rfl := h
  · decide
  · decide
  all_goals exact hhex _ (Nat.mod_lt _ (by decide))

/-- Nothing that is written for a character is a control character. -/
theorem le_toNat_of_mem_encodeChar {ensureAscii : Bool} {c d : Char}
    (h : d ∈ encodeChar ensureAscii c) : 0x20 ≤ d.toNat := by
  unfold encodeChar at h
  cases hescape : OrderedDict.lookupIn c escapeDct with
  | some e =>
    rw [hescape] at h
    simp only [List.mem_cons, List.not_mem_nil, or_false] at h
    obtain rfl | rfl := h
    · decide
    · exact (lookupIn_backslash hescape).2.2
  | none =>
    rw [hescape] at h
    dsimp only at h
    split_ifs at h with hcontrol
    · exact le_toNat_of_mem_unicodeEscape h
    · obtain h | h := List.mem_append.mp h
      · exact le_toNat_of_mem_unicodeEscape h
      · exact le_toNat_of_mem_unicodeEscape h
    · rw [List.mem_singleton.mp h]
      exact Nat.le_of_not_lt fun hlt => hcontrol (.inl hlt)

/-! ## Numbers -/

def isNumberChar (c : Char) : Bool := c.isDigit || c ∈ ['-', '+', '.', 'e', 'E']

/-- `(?:0|[1-9]\d*)` -/
def scanInteger : List Char → Option (List Char × List Char)
  | [] => none
  | c :: rest =>
    if c = '0' then some (['0'], rest)
    else if c.isDigit then
      some (c :: rest.takeWhile Char.isDigit, rest.dropWhile Char.isDigit)
    else none

/-- A sign that may stand there. -/
def scanSign (signs : List Char) : List Char → List Char × List Char
  | [] => ([], [])
  | c :: rest => if c ∈ signs then ([c], rest) else ([], c :: rest)

/-- One of the marks with a sign and digits behind it, or else nothing. -/
def scanPart (marks signs : List Char) : List Char → List Char × List Char
  | [] => ([], [])
  | c :: rest =>
    let signed := scanSign signs rest
    if c ∈ marks ∧ signed.2.takeWhile Char.isDigit ≠ [] then
      (c :: signed.1 ++ signed.2.takeWhile Char.isDigit, signed.2.dropWhile Char.isDigit)
    else ([], c :: rest)

/-- `NUMBER_RE`, with the fraction and the exponent. -/
def scanNumber (text : List Char) : Option (List Char × List Char) :=
  let sign := scanSign ['-'] text
  match scanInteger sign.2 with
  | none => none
  | some (integer, rest) =>
    let fraction := scanPart ['.'] [] rest
    let exponent := scanPart ['e', 'E'] ['+', '-'] fraction.2
    some (sign.1 ++ integer ++ fraction.1 ++ exponent.1, exponent.2)

/-- How numbers are written and read. The ones that are exact are read as they were written. -/
structure NumberFormat where
  Exact : ℚ → Prop
  write : ℚ → List Char
  read : List Char → Option ℚ
  exact_int : ∀ n : ℤ, Exact n
  scanNumber_write : ∀ {q}, Exact q → scanNumber (write q) = some (write q, [])
  read_write : ∀ {q}, Exact q → read (write q) = some q

namespace NumberFormat

variable (fmt : NumberFormat)

@[simp] theorem exact_intCast (n : ℤ) : fmt.Exact n := fmt.exact_int n

@[simp] theorem exact_natCast (n : ℕ) : fmt.Exact n := fmt.exact_int n

end NumberFormat

/-- A number that ends here is not continued by the text. -/
def EndsNumber (rest : List Char) : Prop := ∀ c, rest.head? = some c → isNumberChar c = false

theorem endsNumber_nil : EndsNumber [] := fun _ h => nomatch h

theorem endsNumber_cons {c : Char} (h : isNumberChar c = false) (rest : List Char) :
    EndsNumber (c :: rest) := by
  intro d hd
  rw [← Option.some.inj hd]
  exact h

section Prefixes

variable {rest : List Char}

theorem EndsNumber.not_isDigit (h : EndsNumber rest) {c : Char} (hc : rest.head? = some c) :
    c.isDigit = false := by
  have hchar := h c hc
  rw [isNumberChar, Bool.or_eq_false_iff] at hchar
  exact hchar.1

theorem span_digits_append (h : EndsNumber rest) (text : List Char) :
    (text ++ rest).takeWhile Char.isDigit = text.takeWhile Char.isDigit ∧
      (text ++ rest).dropWhile Char.isDigit = text.dropWhile Char.isDigit ++ rest := by
  induction text with
  | nil =>
    cases rest with
    | nil => exact ⟨rfl, rfl⟩
    | cons c rest =>
      have hc := h.not_isDigit (c := c) rfl
      simp [hc]
  | cons c text ih =>
    rw [List.cons_append, List.takeWhile_cons, List.takeWhile_cons, List.dropWhile_cons,
      List.dropWhile_cons]
    split_ifs
    · exact ⟨by rw [ih.1], ih.2⟩
    · exact ⟨rfl, rfl⟩

theorem scanInteger_append (h : EndsNumber rest) {text integer rest' : List Char}
    (ht : scanInteger text = some (integer, rest')) :
    scanInteger (text ++ rest) = some (integer, rest' ++ rest) := by
  cases text with
  | nil => cases ht
  | cons c text =>
    obtain ⟨htake, hdrop⟩ := span_digits_append h text
    rw [scanInteger] at ht
    rw [List.cons_append, scanInteger, htake, hdrop]
    split_ifs at ht ⊢
    · cases ht
      rfl
    · cases ht
      rfl

theorem scanSign_append {signs : List Char} (hsigns : ∀ c ∈ signs, isNumberChar c = true)
    (h : EndsNumber rest) (text : List Char) :
    scanSign signs (text ++ rest) = ((scanSign signs text).1, (scanSign signs text).2 ++ rest) := by
  cases text with
  | nil =>
    cases rest with
    | nil => rfl
    | cons c rest =>
      have hc : c ∉ signs := fun hmem => by
        have hno := h c rfl
        rw [hsigns c hmem] at hno
        cases hno
      simp [scanSign, hc]
  | cons c text =>
    rw [List.cons_append, scanSign, scanSign]
    split_ifs
    · rfl
    · rfl

theorem scanPart_append {marks signs : List Char} (hmarks : ∀ c ∈ marks, isNumberChar c = true)
    (hsigns : ∀ c ∈ signs, isNumberChar c = true) (h : EndsNumber rest) (text : List Char) :
    scanPart marks signs (text ++ rest) =
      ((scanPart marks signs text).1, (scanPart marks signs text).2 ++ rest) := by
  cases text with
  | nil =>
    cases rest with
    | nil => rfl
    | cons c rest =>
      have hc : c ∉ marks := fun hmem => by
        have hno := h c rfl
        rw [hmarks c hmem] at hno
        cases hno
      simp [scanPart, hc]
  | cons c text =>
    have hsigned := scanSign_append hsigns h text
    obtain ⟨htake, hdrop⟩ := span_digits_append h (scanSign signs text).2
    simp only [List.cons_append, scanPart, hsigned, htake, hdrop]
    split_ifs
    · rfl
    · rfl

/-- What matches the pattern as a whole does so also in front of a text that does not continue
it. -/
theorem scanNumber_append (h : EndsNumber rest) {text : List Char}
    (ht : scanNumber text = some (text, [])) : scanNumber (text ++ rest) = some (text, rest) := by
  have hminus : ∀ c ∈ ['-'], isNumberChar c = true := by simp [isNumberChar]
  have hsigns : ∀ c ∈ ['+', '-'], isNumberChar c = true := by simp [isNumberChar]
  have hnone : ∀ c ∈ ([] : List Char), isNumberChar c = true := by simp
  have hpoint : ∀ c ∈ ['.'], isNumberChar c = true := by simp [isNumberChar]
  have hpower : ∀ c ∈ ['e', 'E'], isNumberChar c = true := by simp [isNumberChar]
  have hsign := scanSign_append hminus h text
  unfold scanNumber at ht ⊢
  dsimp only at ht ⊢
  rw [hsign]
  cases hint : scanInteger (scanSign ['-'] text).2 with
  | none =>
    rw [hint] at ht
    cases ht
  | some found =>
    obtain ⟨integer, tail⟩ := found
    rw [hint] at ht
    dsimp only at ht
    obtain ⟨htext, hend⟩ := Prod.ext_iff.mp (Option.some.inj ht)
    dsimp only at htext hend
    rw [scanInteger_append h hint]
    dsimp only
    rw [scanPart_append hpoint hnone h, scanPart_append hpower hsigns h, htext, hend,
      List.nil_append]

end Prefixes

theorem isNumberChar_of_isDigit {c : Char} (h : c.isDigit = true) : isNumberChar c = true := by
  rw [isNumberChar, h, Bool.true_or]

theorem isNumberChar_of_mem_takeWhile {c : Char} {text : List Char}
    (h : c ∈ text.takeWhile Char.isDigit) : isNumberChar c = true :=
  isNumberChar_of_isDigit (List.mem_takeWhile_imp h)

theorem isNumberChar_of_mem_scanSign {signs text : List Char} {c : Char}
    (hsigns : ∀ c ∈ signs, isNumberChar c = true) (h : c ∈ (scanSign signs text).1) :
    isNumberChar c = true := by
  cases text with
  | nil => exact absurd h List.not_mem_nil
  | cons d text =>
    rw [scanSign] at h
    split_ifs at h with hd
    · rw [List.mem_singleton.mp h]
      exact hsigns d hd
    · exact absurd h List.not_mem_nil

theorem isNumberChar_of_mem_scanPart {marks signs text : List Char} {c : Char}
    (hmarks : ∀ c ∈ marks, isNumberChar c = true) (hsigns : ∀ c ∈ signs, isNumberChar c = true)
    (h : c ∈ (scanPart marks signs text).1) : isNumberChar c = true := by
  cases text with
  | nil => exact absurd h List.not_mem_nil
  | cons d text =>
    simp only [scanPart] at h
    split_ifs at h with hd
    · rw [List.cons_append, List.mem_cons, List.mem_append] at h
      obtain rfl | h | h := h
      · exact hmarks c hd.1
      · exact isNumberChar_of_mem_scanSign hsigns h
      · exact isNumberChar_of_mem_takeWhile h
    · exact absurd h List.not_mem_nil

theorem isNumberChar_of_mem_scanInteger {text integer rest : List Char} {c : Char}
    (h : scanInteger text = some (integer, rest)) (hc : c ∈ integer) : isNumberChar c = true := by
  cases text with
  | nil => cases h
  | cons d text =>
    rw [scanInteger] at h
    split_ifs at h with hzero hdigit
    · cases h
      rw [List.mem_singleton.mp hc]
      decide
    · cases h
      obtain rfl | hc := List.mem_cons.mp hc
      · exact isNumberChar_of_isDigit hdigit
      · exact isNumberChar_of_mem_takeWhile hc

theorem isNumberChar_of_mem_scanNumber {text number rest : List Char} {c : Char}
    (h : scanNumber text = some (number, rest)) (hc : c ∈ number) : isNumberChar c = true := by
  unfold scanNumber at h
  dsimp only at h
  cases hint : scanInteger (scanSign ['-'] text).2 with
  | none =>
    rw [hint] at h
    cases h
  | some found =>
    rw [hint] at h
    cases h
    rw [List.mem_append, List.mem_append, List.mem_append] at hc
    obtain ((hc | hc) | hc) | hc := hc
    · exact isNumberChar_of_mem_scanSign (by simp [isNumberChar]) hc
    · exact isNumberChar_of_mem_scanInteger hint hc
    · exact isNumberChar_of_mem_scanPart (by simp [isNumberChar]) (by simp) hc
    · exact isNumberChar_of_mem_scanPart (by simp [isNumberChar]) (by simp [isNumberChar]) hc

/-! ## Integers -/

def writeInt (n : ℤ) : List Char :=
  if n < 0 then '-' :: Nat.toDigits 10 n.natAbs else Nat.toDigits 10 n.natAbs

def readNat (digits : List Char) : Option ℚ :=
  if digits.all Char.isDigit then some (Nat.ofDigitChars 10 digits 0) else none

def readInt : List Char → Option ℚ
  | '-' :: digits => (readNat digits).map fun q => -q
  | digits => readNat digits

theorem isDigit_of_mem_toDigits {n : ℕ} {c : Char} (h : c ∈ Nat.toDigits 10 n) :
    c.isDigit = true :=
  Nat.isDigit_of_mem_toDigits (by decide) (by decide) h

/-- Only zero starts with a zero. -/
theorem exists_head_toDigits {n : ℕ} (h : 0 < n) :
    ∃ c tail, Nat.toDigits 10 n = c :: tail ∧ c ≠ '0' := by
  induction n using Nat.strongRecOn with
  | ind n ih =>
    by_cases hsmall : n < 10
    · have hdigit : ∀ m : ℕ, m < 10 → 0 < m → m.digitChar ≠ '0' := by decide
      exact ⟨n.digitChar, [], Nat.toDigits_of_lt_base hsmall, hdigit n hsmall h⟩
    · obtain ⟨c, tail, hhead, hne⟩ := ih (n / 10) (by omega) (by omega)
      refine ⟨c, tail ++ [(n % 10).digitChar], ?_, hne⟩
      rw [Nat.toDigits_of_base_le (by decide) (by omega), hhead, List.cons_append]

theorem scanInteger_toDigits (n : ℕ) :
    scanInteger (Nat.toDigits 10 n) = some (Nat.toDigits 10 n, []) := by
  obtain rfl | h := Nat.eq_zero_or_pos n
  · rfl
  · obtain ⟨c, tail, hhead, hne⟩ := exists_head_toDigits h
    have hall : ∀ d ∈ c :: tail, d.isDigit = true :=
      fun d hd => isDigit_of_mem_toDigits (hhead ▸ hd)
    have htail : ∀ d ∈ tail, d.isDigit = true := fun d hd => hall d (List.mem_cons_of_mem c hd)
    rw [hhead, scanInteger, if_neg hne, if_pos (hall c List.mem_cons_self),
      List.takeWhile_eq_self_iff.mpr htail, List.dropWhile_eq_nil_iff.mpr htail]

theorem scanNumber_writeInt (n : ℤ) : scanNumber (writeInt n) = some (writeInt n, []) := by
  have hne : Nat.toDigits 10 n.natAbs ≠ [] := Nat.toDigits_ne_nil
  obtain ⟨c, tail, hhead⟩ := List.exists_cons_of_ne_nil hne
  have hdigit : c.isDigit = true := isDigit_of_mem_toDigits (hhead ▸ List.mem_cons_self)
  have hminus : c ∉ ['-'] := fun hmem => by
    rw [List.mem_singleton.mp hmem] at hdigit
    exact absurd hdigit (by decide)
  have hint := scanInteger_toDigits n.natAbs
  rw [hhead] at hint
  unfold writeInt
  split_ifs
  · rw [hhead]
    simp [scanNumber, scanSign, hint, scanPart]
  · rw [hhead]
    simp [scanNumber, scanSign, hminus, hint, scanPart]

theorem readNat_toDigits (n : ℕ) : readNat (Nat.toDigits 10 n) = some (n : ℚ) := by
  have hall : (Nat.toDigits 10 n).all Char.isDigit = true :=
    List.all_eq_true.mpr fun c hc => isDigit_of_mem_toDigits hc
  rw [readNat, if_pos hall, Nat.ofDigitChars_ten_toDigits]

theorem readInt_writeInt (n : ℤ) : readInt (writeInt n) = some (n : ℚ) := by
  unfold writeInt
  split_ifs with h
  · rw [readInt, readNat_toDigits, Option.map_some]
    congr 1
    have hn : (n : ℚ) = ((-(n.natAbs : ℤ) : ℤ) : ℚ) := by
      congr 1
      omega
    rw [hn, Int.cast_neg, Int.cast_natCast]
  · have hnot : ∀ digits, Nat.toDigits 10 n.natAbs ≠ '-' :: digits := by
      intro digits heq
      have hdigit := isDigit_of_mem_toDigits (n := n.natAbs) (heq ▸ List.mem_cons_self)
      exact absurd hdigit (by decide)
    have hn : (n : ℚ) = ((n.natAbs : ℤ) : ℚ) := by
      congr 1
      omega
    rw [readInt, readNat_toDigits, hn]
    · rfl
    · exact fun digits heq => hnot digits heq

/-- The format that knows integers only. -/
def integerFormat : NumberFormat where
  Exact q := q.den = 1
  write q := writeInt q.num
  read := readInt
  exact_int n := rfl
  scanNumber_write _ := scanNumber_writeInt _
  read_write {q} h := by
    rw [readInt_writeInt]
    exact congrArg some (Rat.den_eq_one_iff q |>.mp h)

end Ragx.JsonTexts
