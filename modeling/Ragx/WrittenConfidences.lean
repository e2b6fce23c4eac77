import Ragx.FixedWidth
import Ragx.VlmProcessor

/-!
# Written confidences

A confidence is a number between 0 and 1, and there are several ways to write one. The pattern
reads those with a point and at most one digit before it.
-/
namespace Ragx

def numberOf (ds : List (Fin 10)) : ℕ := ds.foldl (fun n d => 10 * n + d.val) 0

/-- A number between 0 and 1 in decimal notation, with or without a fraction. -/
structure WrittenConfidence where
  whole : List (Fin 10)
  fraction : List (Fin 10)
  digits_ne : whole ++ fraction ≠ []
  le_one : numberOf (whole ++ fraction) ≤ 10 ^ fraction.length

namespace WrittenConfidence

variable (v : WrittenConfidence)

def value : ℚ := numberOf (v.whole ++ v.fraction) / 10 ^ v.fraction.length

def written : List Char :=
  v.whole.map decimalChar ++
    if v.fraction = [] then [] else '.' :: v.fraction.map decimalChar

/-- `confidence: ` and the number. -/
def line : List Char := confidenceLetters ++ ':' :: ' ' :: v.written

/-- The number has a fraction, and at most one digit before the point. -/
def Pointed : Prop := v.fraction ≠ [] ∧ (v.whole = [] ∨ v.whole = [0] ∨ v.whole = [1])

instance : Decidable v.Pointed := inferInstanceAs (Decidable (_ ∧ _))

end WrittenConfidence

/-! ## Digits -/

theorem foldl_number (n : ℕ) (ds : List (Fin 10)) :
    ds.foldl (fun n d => 10 * n + d.val) n = n * 10 ^ ds.length + numberOf ds := by
  induction ds generalizing n with
  | nil => simp [numberOf]
  | cons d ds ih =>
    have hcons : numberOf (d :: ds) = d * 10 ^ ds.length + numberOf ds := by
      rw [numberOf, List.foldl_cons, ih, Nat.mul_zero, Nat.zero_add]
    rw [List.foldl_cons, ih, hcons, List.length_cons]
    ring

theorem numberOf_cons (d : Fin 10) (ds : List (Fin 10)) :
    numberOf (d :: ds) = d * 10 ^ ds.length + numberOf ds := by
  rw [numberOf, List.foldl_cons, foldl_number, Nat.mul_zero, Nat.zero_add]

theorem eq_zero_of_numberOf {ds : List (Fin 10)} (h : numberOf ds = 0) : ∀ d ∈ ds, d = 0 := by
  induction ds with
  | nil => simp
  | cons d ds ih =>
    rw [numberOf_cons] at h
    have hd : (d : ℕ) = 0 := by simpa using Nat.eq_zero_of_add_eq_zero_right h
    intro e he
    rcases List.mem_cons.mp he with rfl | he
    · exact Fin.ext hd
    · exact ih (Nat.eq_zero_of_add_eq_zero_left h) e he

theorem decimalValue_decimalChar : ∀ d, decimalValue (decimalChar d) = some d.val := by decide

theorem decimalNumber_map (ds : List (Fin 10)) :
    decimalNumber (ds.map decimalChar) = numberOf ds := by
  rw [decimalNumber, List.foldl_map, numberOf]
  simp only [decimalValue_decimalChar, Option.getD_some]

theorem decimalChar_ne_point : ∀ d, decimalChar d ≠ '.' := by decide

theorem decimalChar_eq_zero_or_one :
    ∀ d, decimalChar d = '0' ∧ d = 0 ∨ decimalChar d = '1' ∧ d = 1 ∨
      decimalChar d ≠ '0' ∧ decimalChar d ≠ '1' ∧ d ≠ 0 ∧ d ≠ 1 := by decide

/-- No digit is white space. -/
theorem isDecimal_of_isWhitespace {c : Char} (h : isWhitespace c = true) :
    isDecimal c = false := by
  have hapart : ∀ first ∈ decimalZeros, ∀ gap ∈ [(9, 13), (28, 32), (0x85, 0x85), (0xA0, 0xA0),
      (0x1680, 0x1680), (0x2000, 0x200A), (0x2028, 0x2029), (0x202F, 0x202F), (0x205F, 0x205F),
      (0x3000, 0x3000)], gap.2 < first ∨ first + 10 ≤ gap.1 := by decide
  have hnone :
      (decimalZeros.find? fun first => first ≤ c.toNat && c.toNat < first + 10) = none := by
    rw [List.find?_eq_none]
    intro first hfirst
    have hgaps := hapart first hfirst
    simp only [List.forall_mem_cons] at hgaps
    simp only [isWhitespace, Bool.or_eq_true, Bool.and_eq_true, decide_eq_true_eq,
      beq_iff_eq] at h ⊢
    omega
  rw [isDecimal, decimalValue, hnone]
  rfl

theorem takeWhile_digits {digit : Char → Bool} {cs rest : List Char}
    (hdigit : ∀ c ∈ cs, digit c = true) (hrest : ∀ c ∈ rest.head?, digit c = false) :
    (cs ++ rest).takeWhile digit = cs ∧ (cs ++ rest).dropWhile digit = rest := by
  rw [List.takeWhile_append_of_pos hdigit, List.dropWhile_append_of_pos hdigit]
  cases rest with
  | nil => simp
  | cons c rest =>
    have hc : ¬digit c = true := by simp [hrest c rfl]
    rw [List.takeWhile_cons_of_neg hc, List.dropWhile_cons_of_neg hc, List.append_nil]
    exact ⟨rfl, rfl⟩

theorem matchRun_digits {digit : Char → Bool} (lead : List Char) {cs rest : List Char}
    (hne : cs ≠ []) (hdigit : ∀ c ∈ cs, digit c = true)
    (hrest : ∀ c ∈ rest.head?, digit c = false) :
    matchRun digit lead (cs ++ rest) = some (lead ++ cs, rest) := by
  obtain ⟨htake, hdrop⟩ := takeWhile_digits hdigit hrest
  rw [matchRun, htake, hdrop, if_neg (by simpa using hne)]

namespace WrittenConfidence

variable (v : WrittenConfidence)

theorem floatOf_written (hfraction : v.fraction ≠ []) : floatOf v.written = v.value := by
  have hwhole : ∀ c ∈ v.whole.map decimalChar, decide (c ≠ '.') = true := by
    simpa using fun d _ => decimalChar_ne_point d
  have hpoint : ∀ c ∈ ('.' :: v.fraction.map decimalChar).head?, decide (c ≠ '.') = false := by
    simp
  obtain ⟨htake, hdrop⟩ := takeWhile_digits hwhole hpoint
  rw [floatOf, written, if_neg hfraction, htake, hdrop, List.drop_one, List.tail_cons,
    ← List.map_append, decimalNumber_map, List.length_map, value]

theorem value_mem : 0 ≤ v.value ∧ v.value ≤ 1 := by
  have hle : (numberOf (v.whole ++ v.fraction) : ℚ) ≤ 10 ^ v.fraction.length := by
    exact_mod_cast v.le_one
  exact ⟨by unfold value; positivity, (div_le_one (by positivity)).mpr hle⟩

/-- A number that is written with a one before the point has only zeros behind it. -/
theorem fraction_eq_zero (hwhole : v.whole = [1]) : ∀ d ∈ v.fraction, d = 0 := by
  apply eq_zero_of_numberOf
  have hle := v.le_one
  rw [hwhole, List.singleton_append, numberOf_cons, Fin.val_one, Nat.one_mul] at hle
  omega

/-- Behind a number is nothing, or white space. -/
theorem matchScore_written (hv : v.Pointed) {rest : List Char}
    (hrest : ∀ c ∈ rest.head?, isWhitespace c = true) :
    matchScore (v.written ++ rest) = some (v.written, rest) := by
  obtain ⟨hfraction, hwhole⟩ := hv
  have hne : v.fraction.map decimalChar ≠ [] := by simpa using hfraction
  have hdecimal : ∀ c ∈ v.fraction.map decimalChar, isDecimal c = true := by
    simp [isDecimal, decimalValue_decimalChar]
  have hend : ∀ c ∈ rest.head?, isDecimal c = false :=
    fun c hc => isDecimal_of_isWhitespace (hrest c hc)
  rw [written, if_neg hfraction]
  rcases hwhole with hwhole | hwhole | hwhole
  · rw [hwhole]
    exact matchRun_digits ['.'] hne hdecimal hend
  · rw [hwhole]
    exact matchRun_digits ['0', '.'] hne hdecimal hend
  · have hzeros : ∀ c ∈ v.fraction.map decimalChar, (c == '0') = true := by
      intro c hc
      obtain ⟨d, hd, rfl⟩ := List.mem_map.mp hc
      rw [v.fraction_eq_zero hwhole d hd]
      rfl
    have hend : ∀ c ∈ rest.head?, (c == '0') = false := by
      rintro c hc
      by_contra hzero
      obtain rfl : c = '0' := by simpa using hzero
      exact absurd (hrest '0' hc) (by decide)
    rw [hwhole]
    exact matchRun_digits ['1', '.'] hne hzeros hend

theorem matchScore_not_pointed (hv : ¬v.Pointed) {rest : List Char}
    (hrest : ∀ c ∈ rest.head?, isWhitespace c = true) :
    matchScore (v.written ++ rest) = none := by
  have hpoint : rest.head? ≠ some '.' := fun h => absurd (hrest '.' h) (by decide)
  have hne := v.digits_ne
  unfold Pointed at hv
  unfold written
  generalize v.whole = whole at hne hv ⊢
  rcases whole with _ | ⟨d, _ | ⟨e, ds⟩⟩
  · exact absurd ⟨by simpa using hne, .inl rfl⟩ hv
  · apply matchScore_of_head (decimalChar_ne_point d)
    intro h
    by_cases hfraction : v.fraction = []
    · rw [if_pos hfraction] at h
      exact absurd h hpoint
    · rcases decimalChar_eq_zero_or_one d with ⟨-, rfl⟩ | ⟨-, rfl⟩ | ⟨hzero, hone, -⟩
      · exact absurd ⟨hfraction, .inr (.inl rfl)⟩ hv
      · exact absurd ⟨hfraction, .inr (.inr rfl)⟩ hv
      · exact ⟨hzero, hone⟩
  · apply matchScore_of_head (decimalChar_ne_point d)
    intro h
    exact absurd (Option.some.inj h) (decimalChar_ne_point e)

theorem mem_written {c : Char} (hc : c ∈ v.written) : c = '.' ∨ ∃ d, c = decimalChar d := by
  rw [written, List.mem_append] at hc
  split_ifs at hc with hfraction
  · obtain ⟨d, -, rfl⟩ := List.mem_map.mp (hc.resolve_right List.not_mem_nil)
    exact .inr ⟨d, rfl⟩
  · rcases hc with hc | hc
    · obtain ⟨d, -, rfl⟩ := List.mem_map.mp hc
      exact .inr ⟨d, rfl⟩
    · rcases List.mem_cons.mp hc with rfl | hc
      · exact .inl rfl
      · obtain ⟨d, -, rfl⟩ := List.mem_map.mp hc
        exact .inr ⟨d, rfl⟩

/-- What holds of the point and the digits holds of a written number. -/
theorem forall_mem_written {p : Char → Prop} (hpoint : p '.') (hdigit : ∀ d, p (decimalChar d)) :
    ∀ c ∈ v.written, p c := by
  intro c hc
  rcases v.mem_written hc with rfl | ⟨d, rfl⟩
  · exact hpoint
  · exact hdigit d

theorem isWhitespace_of_mem_written : ∀ c ∈ v.written, isWhitespace c = false :=
  v.forall_mem_written (by decide) (by decide)

theorem written_ne : v.written ≠ [] := by
  have hne := v.digits_ne
  unfold written
  split_ifs with hfraction
  · simpa [hfraction] using hne
  · simp

/-- The line is matched at its start if its number is written with a point. -/
theorem matchConfidence_line (rest : List Char) :
    matchConfidence (v.line ++ rest) = matchScore (v.written ++ rest) := by
  have hdrop : (v.written ++ rest).dropWhile isWhitespace = v.written ++ rest := by
    obtain ⟨c, cs, hwritten⟩ := List.exists_cons_of_ne_nil v.written_ne
    have hc := v.isWhitespace_of_mem_written c (hwritten ▸ List.mem_cons_self)
    rw [hwritten, List.cons_append, List.dropWhile_cons_of_neg (by simp [hc])]
  calc matchConfidence (v.line ++ rest)
      = matchScore ((v.written ++ rest).dropWhile isWhitespace) := rfl
    _ = matchScore (v.written ++ rest) := by rw [hdrop]

/-- No confidence line begins inside a line, behind its start. -/
theorem matchLetters_inside {x : List Char} (hx : x <:+ v.line) (hne : x ≠ [])
    (hinside : x ≠ v.line) (rest : List Char) :
    matchLetters confidenceLetters (x ++ rest) = none := by
  have hletters : ∀ x, x <:+ v.written → x ≠ [] →
      matchLetters confidenceLetters (x ++ rest) = none := by
    intro x hx hne
    obtain ⟨c, cs, rfl⟩ := List.exists_cons_of_ne_nil hne
    have hletter : ∀ c ∈ v.written, sameLetter 'c' c = false :=
      v.forall_mem_written (by decide) (by decide)
    have hc := hletter c (hx.mem List.mem_cons_self)
    rw [List.cons_append, confidenceLetters, matchLetters, if_neg (by simp [hc])]
  simp only [line, confidenceLetters, List.cons_append, List.nil_append, List.suffix_cons_iff] at hx
  rcases hx with rfl | rfl | rfl | rfl | rfl | rfl | rfl | rfl | rfl | rfl | rfl | rfl | hx
  · exact absurd rfl hinside
  all_goals try rfl
  exact hletters x hx hne

theorem searchConfidence_line (hv : v.Pointed) {rest : List Char}
    (hrest : ∀ c ∈ rest.head?, isWhitespace c = true) :
    searchConfidence (v.line ++ rest) = some ⟨[], v.written, rest⟩ := by
  have hmatch : matchConfidence (v.line ++ rest) = some (v.written, rest) := by
    rw [v.matchConfidence_line, v.matchScore_written hv hrest]
  rw [line, confidenceLetters, List.cons_append, List.cons_append] at hmatch ⊢
  rw [searchConfidence, hmatch]

theorem searchConfidence_line_eq_none (hv : ¬v.Pointed) : searchConfidence v.line = none := by
  rw [searchConfidence_eq_none_iff]
  intro rest hrest
  by_cases hne : rest = []
  · rw [hne]
    rfl
  · by_cases hinside : rest = v.line
    · have hline := v.matchConfidence_line []
      have hscore := @matchScore_not_pointed v hv [] (by simp)
      rw [List.append_nil] at hline
      rw [hinside, hline, hscore]
    · have hletters := v.matchLetters_inside hrest hne hinside []
      rw [List.append_nil] at hletters
      rw [matchConfidence, hletters]
      rfl

end WrittenConfidence

end Ragx
