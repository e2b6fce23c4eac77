import Ragx.BlankRuns
import Ragx.WordRotations
import Ragx.WrittenConfidences

/-!
# Confidence lines

A description with a confidence line below it is to be taken apart into the description and the
confidence. The pattern wants a point in the number, and the search takes the first line that
it finds, which is the right one only where the description itself has none or nothing else.
-/
namespace Ragx

open BlankRuns WordRotations

/-- The text is nothing but copies of the line, all with the same blanks between them. -/
def WrittenConfidence.Repeated (v : WrittenConfidence) (body : List Char) : Prop :=
  ∃ before blanks k, isBlank before = true ∧ isBlank blanks = true ∧
    body = before ++ power (v.line ++ (blanks ++ ['\n'])) k ++ v.line ++ blanks

/-- Somewhere in the text is a confidence line. -/
def MentionsConfidence (body : List Char) : Prop :=
  ∃ rest, rest <:+ body ∧ (matchConfidence rest).isSome = true

/-- The line below the body is split off, and gives the value. -/
def SplitsOff (body : List Char) (v : WrittenConfidence) : Prop :=
  parseConfidence (body ++ '\n' :: v.line) = (strip body, v.value)

/-! ## A body without a line -/

section Body

variable {body : List Char} {v : WrittenConfidence}

theorem searchConfidence_body (body : List Char) (v : WrittenConfidence) :
    searchConfidence (body ++ '\n' :: v.line) =
      match searchConfidence body with
      | some m => some { m with after := m.after ++ '\n' :: v.line }
      | none => (searchConfidence v.line).map fun m =>
          { m with before := body ++ '\n' :: m.before } :=
  searchConfidence_append_line body _

theorem not_mentions_iff : ¬MentionsConfidence body ↔ searchConfidence body = none := by
  rw [searchConfidence_eq_none_iff, MentionsConfidence]
  simp only [not_exists, not_and, Bool.not_eq_true, Option.isSome_eq_false_iff,
    Option.isNone_iff_eq_none]

theorem splitsOff_of_not_mentions (hbody : ¬MentionsConfidence body) (hv : v.Pointed) :
    SplitsOff body v := by
  have hsearch : searchConfidence (body ++ '\n' :: v.line) =
      some ⟨body ++ ['\n'], v.written, []⟩ := by
    have hline := @WrittenConfidence.searchConfidence_line v hv [] (by simp)
    rw [List.append_nil] at hline
    rw [searchConfidence_body, not_mentions_iff.mp hbody, hline]
    rfl
  obtain ⟨hzero, hone⟩ := v.value_mem
  simp only [SplitsOff, parseConfidence, hsearch, v.floatOf_written hv.1, List.append_nil,
    strip_append_of_isBlank body (show isBlank ['\n'] = true from rfl), min_eq_right hone,
    max_eq_right hzero]

/-! ## A body with a line -/

theorem endsBlank_of_forall {cs : List Char} (h : ∀ c ∈ cs, isWhitespace c = false) :
    endsBlank isWhitespace cs = false := by
  rw [endsBlank, Option.any_eq_false]
  exact fun c hc => by simp [h c (List.mem_of_mem_getLast? hc)]

theorem endsBlank_line (front : List Char) (v : WrittenConfidence) :
    endsBlank isWhitespace (front ++ v.line) = false := by
  have hsplit : front ++ v.line = (front ++ confidenceLetters ++ [':', ' ']) ++ v.written := by
    simp [WrittenConfidence.line]
  rw [hsplit, endsBlank_append v.written_ne]
  exact endsBlank_of_forall v.isWhitespace_of_mem_written

theorem exists_of_matchLetters {letters cs after : List Char}
    (h : matchLetters letters cs = some after) :
    ∃ m, cs = m ++ after ∧ ∀ rest, matchLetters letters (m ++ rest) = some rest := by
  induction letters generalizing cs with
  | nil => exact ⟨[], Option.some.inj h, fun _ => rfl⟩
  | cons letter letters ih =>
    cases cs with
    | nil => cases h
    | cons c cs =>
      rw [matchLetters] at h
      split_ifs at h with hc
      obtain ⟨m, rfl, hm⟩ := ih h
      refine ⟨c :: m, rfl, fun rest => ?_⟩
      rw [List.cons_append, matchLetters, if_pos hc, hm]

theorem exists_of_matchRun {digit : Char → Bool} {lead cs group after : List Char}
    (hdigit : ∀ c, digit c = true → isWhitespace c = false)
    (h : matchRun digit lead cs = some (group, after)) :
    lead ++ cs = group ++ after ∧ group ≠ [] ∧ endsBlank isWhitespace group = false := by
  unfold matchRun at h
  split_ifs at h with hempty
  obtain ⟨rfl, rfl⟩ := Prod.mk.inj (Option.some.inj h)
  have hne : cs.takeWhile digit ≠ [] := by simpa using hempty
  refine ⟨?_, List.append_ne_nil_of_right_ne_nil lead hne, ?_⟩
  · rw [List.append_assoc, List.takeWhile_append_dropWhile]
  · rw [endsBlank_append hne]
    exact endsBlank_of_forall fun c hc => hdigit c (List.mem_takeWhile_imp hc)

theorem exists_of_matchScore {cs group after : List Char}
    (h : matchScore cs = some (group, after)) :
    cs = group ++ after ∧ group ≠ [] ∧ endsBlank isWhitespace group = false := by
  have hdecimal (c : Char) (hc : isDecimal c = true) : isWhitespace c = false := by
    by_contra hblank
    rw [isDecimal_of_isWhitespace (by simpa using hblank)] at hc
    cases hc
  unfold matchScore at h
  split at h
  · exact exists_of_matchRun hdecimal h
  · exact exists_of_matchRun hdecimal h
  · refine exists_of_matchRun (fun c hc => ?_) h
    obtain rfl : c = '0' := by simpa using hc
    rfl
  · cases h

theorem exists_of_matchColon {cs group after : List Char}
    (h : matchColon cs = some (group, after)) :
    ∃ m, cs = m ++ after ∧ m ≠ [] ∧ endsBlank isWhitespace m = false := by
  unfold matchColon at h
  split at h
  · rename_i behind hcolon
    obtain ⟨hgroup, hne, hend⟩ := exists_of_matchScore h
    refine ⟨cs.takeWhile isWhitespace ++ ':' :: behind.takeWhile isWhitespace ++ group, ?_,
      List.append_ne_nil_of_right_ne_nil _ hne, ?_⟩
    · calc cs = cs.takeWhile isWhitespace ++ ':' :: behind := by
            rw [← hcolon, List.takeWhile_append_dropWhile]
        _ = cs.takeWhile isWhitespace ++
              ':' :: (behind.takeWhile isWhitespace ++ behind.dropWhile isWhitespace) := by
            rw [List.takeWhile_append_dropWhile]
        _ = _ := by rw [hgroup]; simp
    · rw [endsBlank_append hne, hend]
  · cases h

/-- A match begins with the letters of the pattern and ends with a digit. -/
theorem exists_of_matchConfidence {cs group after : List Char}
    (h : matchConfidence cs = some (group, after)) : ∃ m, cs = m ++ after ∧
      (∀ rest, (matchLetters confidenceLetters (m ++ rest)).isSome = true) ∧
      endsBlank isWhitespace m = false := by
  obtain ⟨behind, hletters, hcolon⟩ := Option.bind_eq_some_iff.mp h
  obtain ⟨letters, rfl, hstart⟩ := exists_of_matchLetters hletters
  obtain ⟨m, rfl, hne, hend⟩ := exists_of_matchColon hcolon
  refine ⟨letters ++ m, (List.append_assoc _ _ _).symm, fun rest => ?_, ?_⟩
  · rw [List.append_assoc, hstart]
    rfl
  · rw [endsBlank_append hne, hend]

theorem matchLetters_of_isWhitespace {c : Char} (hc : isWhitespace c = true) (cs : List Char) :
    matchLetters confidenceLetters (c :: cs) = none := by
  have hletter : sameLetter 'c' c = false := by
    by_contra h
    have hupper : 'c'.toUpper = 'C' := rfl
    have hcase : c = 'c' ∨ c = 'C' := by simpa [sameLetter, hupper, or_iff_not_imp_left] using h
    rcases hcase with rfl | rfl
    · exact absurd hc (by decide)
    · exact absurd hc (by decide)
  rw [confidenceLetters, matchLetters, if_neg (by simp [hletter])]

/-- If blanks with the line behind them are turned round to start like a line, they are turned
at the line. -/
theorem rotation_eq_line {gaps x y : List Char} (hne : gaps ≠ []) (hgaps : isBlank gaps = true)
    (hletters : (matchLetters confidenceLetters (x ++ y)).isSome = true)
    (h : gaps ++ v.line = y ++ x) : x = v.line ∧ y = gaps := by
  have hblank : ∀ c ∈ gaps, isWhitespace c = true := List.all_eq_true.mp hgaps
  rcases List.append_eq_append_iff.mp h with ⟨front, hy, hline⟩ | ⟨_ | ⟨c, back⟩, hback, hx⟩
  · by_cases hnil : x = []
    · obtain ⟨c, cs, rfl⟩ := List.exists_cons_of_ne_nil hne
      rw [hnil, hy, List.nil_append, List.cons_append,
        matchLetters_of_isWhitespace (hblank c List.mem_cons_self)] at hletters
      cases hletters
    · by_cases hinside : x = v.line
      · have hfront : front = [] := List.self_eq_append_left.mp (hinside ▸ hline)
        rw [hy, hfront, List.append_nil]
        exact ⟨hinside, rfl⟩
      · rw [v.matchLetters_inside ⟨front, hline.symm⟩ hnil hinside] at hletters
        cases hletters
  · rw [List.append_nil] at hback
    exact ⟨hx, hback.symm⟩
  · have hc : isWhitespace c = true := hblank c (by rw [hback]; simp)
    rw [hx, List.cons_append, List.cons_append, matchLetters_of_isWhitespace hc] at hletters
    cases hletters

/-- A word with blanks that repeats itself up to the line below is the line. -/
theorem line_of_rotation {m gap r gaps : List Char}
    (hletters : ∀ rest, (matchLetters confidenceLetters (m ++ rest)).isSome = true)
    (hend : endsBlank isWhitespace m = false) (hgap : isBlank gap = true)
    (hne : gaps ≠ []) (hgaps : isBlank gaps = true)
    (h : m ++ gap ++ r = r ++ (gaps ++ v.line)) :
    m = v.line ∧ gap = gaps ∧ ∃ k, r = power (v.line ++ gaps) k ++ v.line := by
  have hm : m ++ gap ≠ [] := by
    intro hnil
    have hnone := hletters gap
    rw [hnil] at hnone
    cases hnone
  obtain ⟨x, y, k, hxy, hyx, hr⟩ := (append_eq_append_iff_rotation hm).mp h
  obtain ⟨rfl, rfl⟩ := rotation_eq_line hne hgaps (hxy ▸ hletters gap) hyx
  obtain ⟨rfl, rfl⟩ := append_blanks_inj hend (endsBlank_line [] v) (List.all_eq_true.mp hgap)
    (List.all_eq_true.mp hgaps) hxy
  exact ⟨rfl, rfl, k, hr⟩

/-! ## Stripping -/

theorem dropWhile_append_visible (front : List Char) {m : List Char}
    (hm : startsBlank isWhitespace m = false) (hne : m ≠ []) :
    (front ++ m).dropWhile isWhitespace = front.dropWhile isWhitespace ++ m := by
  obtain ⟨c, cs, rfl⟩ := List.exists_cons_of_ne_nil hne
  have hc : ¬isWhitespace c = true := by simpa [startsBlank] using hm
  rw [List.dropWhile_append]
  split_ifs with hempty
  · rw [List.isEmpty_iff.mp hempty, List.dropWhile_cons_of_neg hc, List.nil_append]
  · rfl

theorem strip_append_line (front : List Char) :
    strip (front ++ v.line) = front.dropWhile isWhitespace ++ v.line := by
  have hne : v.line ≠ [] := List.cons_ne_nil _ _
  rw [strip_eq_trim, trim, dropWhile_append_visible front rfl hne,
    rdropWhile_eq_self (endsBlank_line _ v)]

/-- What is stripped of a text with a match in it stands before and behind the match. -/
theorem strip_around {before m after : List Char} (hne : m ≠ [])
    (hstart : startsBlank isWhitespace m = false) (hend : endsBlank isWhitespace m = false) :
    strip (before ++ m ++ after) =
      before.dropWhile isWhitespace ++ m ++ after.rdropWhile isWhitespace := by
  have hkept : endsBlank isWhitespace
      (before.dropWhile isWhitespace ++ m ++ after.rdropWhile isWhitespace) = false := by
    by_cases hnil : after.rdropWhile isWhitespace = []
    · rw [hnil, List.append_nil, endsBlank_append hne, hend]
    · rw [endsBlank_append hnil, endsBlank_rdropWhile]
  have hblanks : ∀ c ∈ after.rtakeWhile isWhitespace, isWhitespace c = true :=
    fun c hc => List.mem_rtakeWhile_imp hc
  have hdrop : (before ++ m ++ after).dropWhile isWhitespace =
      before.dropWhile isWhitespace ++ m ++ after.rdropWhile isWhitespace ++
        after.rtakeWhile isWhitespace := by
    rw [List.append_assoc, dropWhile_append_visible before
      (by rw [startsBlank_append hne, hstart]) (List.append_ne_nil_of_left_ne_nil hne after),
      List.append_assoc, List.rdropWhile_append_rtakeWhile, List.append_assoc]
  rw [strip_eq_trim, trim, hdrop, rdropWhile_append_blanks hkept hblanks]

theorem not_splitsOff_of_not_pointed (hbody : ¬MentionsConfidence body) (hv : ¬v.Pointed) :
    ¬SplitsOff body v := by
  intro h
  have hsearch : searchConfidence (body ++ '\n' :: v.line) = none := by
    rw [searchConfidence_body, not_mentions_iff.mp hbody, v.searchConfidence_line_eq_none hv]
    rfl
  have hstrip : strip (body ++ '\n' :: v.line) = strip body := by
    simpa only [parseConfidence, hsearch] using congrArg Prod.fst h
  have hkept : strip body <+: (body ++ ['\n']).dropWhile isWhitespace := by
    rw [List.dropWhile_append]
    split_ifs with hempty
    · rw [strip_eq_trim, trim, List.isEmpty_iff.mp hempty]
      exact List.nil_prefix
    · exact (List.rdropWhile_prefix _ _).trans (List.prefix_append _ _)
  rw [List.append_cons, strip_append_line] at hstrip
  have hlength := hkept.length_le
  rw [← hstrip, List.length_append, WrittenConfidence.line, List.length_append] at hlength
  simp [confidenceLetters] at hlength

theorem isBlank_append_newline {blanks : List Char} (hblanks : isBlank blanks = true) :
    isBlank (blanks ++ ['\n']) = true := by
  rw [isBlank_append, hblanks]
  rfl

theorem isBlank_iff_dropWhile (cs : List Char) :
    isBlank cs = true ↔ cs.dropWhile isWhitespace = [] := by
  rw [List.dropWhile_eq_nil_iff, isBlank, List.all_eq_true]

/-- What is kept behind the match, turned round its first blanks, is copies of the line. -/
theorem repeated_of_turned {m kept gaps : List Char}
    (hletters : ∀ rest, (matchLetters confidenceLetters (m ++ rest)).isSome = true)
    (hend : endsBlank isWhitespace m = false) (hne : gaps ≠ []) (hgaps : isBlank gaps = true)
    (h : kept.dropWhile isWhitespace ++ (gaps ++ v.line) = m ++ kept) :
    m = v.line ∧ ∃ k, m ++ kept = power (v.line ++ gaps) k ++ v.line := by
  have hturned : m ++ kept.takeWhile isWhitespace ++ kept.dropWhile isWhitespace =
      kept.dropWhile isWhitespace ++ (gaps ++ v.line) := by
    rw [h, List.append_assoc, List.takeWhile_append_dropWhile]
  have hgap : isBlank (kept.takeWhile isWhitespace) = true :=
    List.all_eq_true.mpr fun c hc => List.mem_takeWhile_imp hc
  obtain ⟨hm, hgap, k, hpower⟩ := line_of_rotation hletters hend hgap hne hgaps hturned
  refine ⟨hm, k + 1, ?_⟩
  calc m ++ kept
      = m ++ (kept.takeWhile isWhitespace ++ kept.dropWhile isWhitespace) := by
        rw [List.takeWhile_append_dropWhile]
    _ = power (v.line ++ gaps) (k + 1) ++ v.line := by
        rw [hgap, hpower, hm, power_succ]
        simp only [List.append_assoc]

theorem repeated_of_kept_eq {before m kept gaps : List Char}
    (hletters : ∀ rest, (matchLetters confidenceLetters (m ++ rest)).isSome = true)
    (hend : endsBlank isWhitespace m = false) (hkept : endsBlank isWhitespace kept = false)
    (hne : gaps ≠ []) (hgaps : isBlank gaps = true)
    (h : (before ++ (kept ++ gaps)).dropWhile isWhitespace ++ v.line =
      before.dropWhile isWhitespace ++ m ++ kept) :
    isBlank before = true ∧ m = v.line ∧ ∃ k, m ++ kept = power (v.line ++ gaps) k ++ v.line := by
  rw [List.dropWhile_append] at h
  by_cases hbefore : before.dropWhile isWhitespace = []
  · refine ⟨(isBlank_iff_dropWhile before).mpr hbefore, ?_⟩
    rw [hbefore, if_pos List.isEmpty_nil, List.dropWhile_append] at h
    by_cases hblank : kept.dropWhile isWhitespace = []
    · have hnil : kept = [] := by
        rw [← rdropWhile_eq_self hkept, List.rdropWhile_eq_nil_iff]
        exact List.dropWhile_eq_nil_iff.mp hblank
      rw [hblank, if_pos List.isEmpty_nil, (isBlank_iff_dropWhile gaps).mp hgaps, hnil,
        List.append_nil] at h
      have hline : v.line = m := h
      exact ⟨hline.symm, 0, by rw [hnil, hline]; simp⟩
    · rw [if_neg (by simpa using hblank), List.append_assoc, List.nil_append] at h
      exact repeated_of_turned hletters hend hne hgaps h
  · have hturned : m ++ [] ++ kept = kept ++ (gaps ++ v.line) := by
      rw [if_neg (by simpa using hbefore), List.append_assoc, List.append_assoc, List.append_assoc,
        List.append_cancel_left_eq] at h
      rw [List.append_nil, h]
    obtain ⟨-, hnil, -⟩ := line_of_rotation hletters hend rfl hne hgaps hturned
    exact absurd hnil.symm hne

/-- If the first match is taken out and the line stands below, the body is left only where the
match and all that follows it are copies of the line. -/
theorem repeated_of_strip_eq {before m after : List Char}
    (hletters : ∀ rest, (matchLetters confidenceLetters (m ++ rest)).isSome = true)
    (hend : endsBlank isWhitespace m = false)
    (h : strip (before ++ (after ++ '\n' :: v.line)) = strip (before ++ m ++ after)) :
    isBlank before = true ∧ m = v.line ∧ ∃ blanks k, isBlank blanks = true ∧
      m ++ after = power (v.line ++ (blanks ++ ['\n'])) k ++ v.line ++ blanks := by
  have hne : m ≠ [] := by
    rintro rfl
    exact absurd (hletters []) (by decide)
  have hstart : startsBlank isWhitespace m = false := by
    obtain ⟨c, cs, rfl⟩ := List.exists_cons_of_ne_nil hne
    by_contra hc
    have hletter := hletters []
    rw [List.cons_append, matchLetters_of_isWhitespace (by simpa [startsBlank] using hc)] at hletter
    cases hletter
  have hblanks : isBlank (after.rtakeWhile isWhitespace) = true :=
    List.all_eq_true.mpr fun c hc => List.mem_rtakeWhile_imp hc
  have hfront : before ++ (after ++ '\n' :: v.line) =
      before ++ (after.rdropWhile isWhitespace ++ (after.rtakeWhile isWhitespace ++ ['\n'])) ++
        v.line := by
    rw [← List.append_assoc (after.rdropWhile _), List.rdropWhile_append_rtakeWhile]
    simp
  rw [hfront, strip_append_line, strip_around hne hstart hend] at h
  obtain ⟨hbefore, hm, k, hpower⟩ := repeated_of_kept_eq hletters hend
    (endsBlank_rdropWhile isWhitespace after) (by simp) (isBlank_append_newline hblanks) h
  refine ⟨hbefore, hm, _, k, hblanks, ?_⟩
  rw [← hpower, List.append_assoc, List.rdropWhile_append_rtakeWhile]

/-- Behind the first copy of the line comes a blank, or nothing. -/
theorem head_of_repeated {after blanks : List Char} (hblanks : isBlank blanks = true) {k : ℕ}
    (h : v.line ++ after = power (v.line ++ (blanks ++ ['\n'])) k ++ v.line ++ blanks) :
    ∀ c ∈ after.head?, isWhitespace c = true := by
  have hgaps := isBlank_append_newline hblanks
  intro c hc
  have hmem := List.mem_of_mem_head? hc
  cases k with
  | zero =>
    have hafter : after = blanks := by simpa using h
    exact List.all_eq_true.mp hblanks c (hafter ▸ hmem)
  | succ k =>
    rw [power_succ] at h
    simp only [List.append_assoc, List.append_cancel_left_eq] at h
    have hhead : after.head? = (blanks ++ ['\n']).head? := by
      rw [h]
      cases blanks <;> rfl
    rw [hhead] at hc
    exact List.all_eq_true.mp hgaps c (List.mem_of_mem_head? hc)

theorem repeated_of_splitsOff (hbody : MentionsConfidence body) (h : SplitsOff body v) :
    v.Pointed ∧ v.Repeated body := by
  obtain ⟨found, hfound⟩ : ∃ found, searchConfidence body = some found :=
    Option.ne_none_iff_exists'.mp fun hnone => not_mentions_iff.mpr hnone hbody
  obtain ⟨rest, hrest, hmatch⟩ := exists_of_searchConfidence hfound
  obtain ⟨m, rfl, hletters, hend⟩ := exists_of_matchConfidence hmatch
  have hsearch := searchConfidence_body body v
  rw [hfound] at hsearch
  have hstrip : strip (found.before ++ (found.after ++ '\n' :: v.line)) =
      strip (found.before ++ m ++ found.after) := by
    rw [List.append_assoc found.before m, ← hrest]
    simpa only [SplitsOff, parseConfidence, hsearch] using congrArg Prod.fst h
  obtain ⟨hbefore, rfl, blanks, k, hblanks, hpower⟩ := repeated_of_strip_eq hletters hend hstrip
  constructor
  · by_contra hv
    rw [v.matchConfidence_line, v.matchScore_not_pointed hv (head_of_repeated hblanks hpower)]
      at hmatch
    cases hmatch
  · refine ⟨found.before, blanks, k, hbefore, hblanks, ?_⟩
    rw [hrest, hpower]
    simp only [List.append_assoc]

/-! ## A body of copies -/

theorem searchConfidence_blanks {before : List Char} (hbefore : isBlank before = true)
    (cs : List Char) : searchConfidence (before ++ cs) =
      (searchConfidence cs).map fun m => { m with before := before ++ m.before } := by
  induction before with
  | nil => simp
  | cons c before ih =>
    obtain ⟨hc, hrest⟩ := List.forall_mem_cons.mp (List.all_eq_true.mp hbefore)
    have hmatch : matchConfidence (c :: (before ++ cs)) = none := by
      rw [matchConfidence, matchLetters_of_isWhitespace hc]
      rfl
    rw [List.cons_append, searchConfidence, hmatch, ih (List.all_eq_true.mpr hrest)]
    simp only [Option.map_map]
    rfl

/-- The first copy is taken out of a text of copies, and as many are left as the body has. -/
theorem splitsOff_of_repeated (hv : v.Pointed) (hbody : v.Repeated body) : SplitsOff body v := by
  obtain ⟨before, blanks, k, hbefore, hblanks, rfl⟩ := hbody
  have hgaps := isBlank_append_newline hblanks
  have hturn := append_power (v.line ++ (blanks ++ ['\n'])) [] k
  rw [List.nil_append, List.append_nil] at hturn
  generalize power (v.line ++ (blanks ++ ['\n'])) k = copies at hturn
  have htext : before ++ copies ++ v.line ++ blanks ++ '\n' :: v.line =
      before ++ (v.line ++ (blanks ++ ['\n'] ++ (copies ++ v.line))) := by
    have hline := congrArg (before ++ · ++ v.line) hturn.symm
    simpa using hline
  have hhead : ∀ c ∈ (blanks ++ ['\n'] ++ (copies ++ v.line)).head?, isWhitespace c = true := by
    intro c hc
    rw [List.head?_append_of_ne_nil _ (by simp)] at hc
    exact List.all_eq_true.mp hgaps c (List.mem_of_mem_head? hc)
  have hsearch : searchConfidence (before ++ copies ++ v.line ++ blanks ++ '\n' :: v.line) =
      some ⟨before, v.written, blanks ++ ['\n'] ++ (copies ++ v.line)⟩ := by
    rw [htext, searchConfidence_blanks hbefore, v.searchConfidence_line hv hhead]
    simp
  have hstrip : strip (before ++ (blanks ++ ['\n'] ++ (copies ++ v.line))) =
      strip (before ++ copies ++ v.line ++ blanks) := by
    rw [strip_append_of_isBlank _ hblanks, List.append_assoc before,
      strip_append_left_of_isBlank hbefore, strip_append_left_of_isBlank hgaps,
      strip_append_left_of_isBlank hbefore]
  obtain ⟨hzero, hone⟩ := v.value_mem
  simp only [SplitsOff, parseConfidence, hsearch, hstrip, v.floatOf_written hv.1, min_eq_right hone,
    max_eq_right hzero]

/-- A line below a body is split off exactly when its number has a fraction and at most one
digit before the point, and the body has no such line or is nothing but copies of this one. -/
theorem splitsOff_iff (body : List Char) (v : WrittenConfidence) :
    SplitsOff body v ↔ v.Pointed ∧ (¬MentionsConfidence body ∨ v.Repeated body) := by
  constructor
  · intro h
    by_cases hbody : MentionsConfidence body
    · obtain ⟨hv, hrepeated⟩ := repeated_of_splitsOff hbody h
      exact ⟨hv, .inr hrepeated⟩
    · refine ⟨?_, .inl hbody⟩
      by_contra hv
      exact not_splitsOff_of_not_pointed hbody hv h
  · rintro ⟨hv, hbody | hbody⟩
    · exact splitsOff_of_not_mentions hbody hv
    · exact splitsOff_of_repeated hv hbody

end Body

/-- The body reports the confidence of a chart, and that is the one that is taken. -/
theorem not_splitsOff_legend : ¬∀ body v, SplitsOff body v := by
  intro h
  have hvalue := congrArg Prod.snd (h "confidence: 0.9 is plotted".toList
    ⟨[0], [3], by decide, by decide⟩)
  exact absurd hvalue (by decide +kernel)

end Ragx
