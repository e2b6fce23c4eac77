import Mathlib.Data.List.TakeWhile
import Ragx.Chunker

/-!
# Lines of a text

`str.splitlines` cuts at every line boundary, where `\r\n` is one. What counts about a
text are its lines that are not blank; they do not depend on how newlines are doubled
or stripped. Texts are lists of characters here.
-/
namespace Ragx

/-- The line boundaries of `str.splitlines`. -/
def isLineBreak (c : Char) : Bool :=
  let n := c.toNat
  (10 ≤ n && n ≤ 13) || (28 ≤ n && n ≤ 30) || n == 0x85 || n == 0x2028 || n == 0x2029

/-- The loop of `splitlines`; a carriage return leaves the break to a newline behind it. -/
def splitlinesFrom (line : List Char) : List Char → List (List Char)
  | [] => if line.isEmpty then [] else [line]
  | c :: cs =>
    if c = '\r' ∧ cs.head? = some '\n' then splitlinesFrom line cs
    else if isLineBreak c then line :: splitlinesFrom [] cs
    else splitlinesFrom (line ++ [c]) cs

def splitlines (text : List Char) : List (List Char) := splitlinesFrom [] text

def isBlank (line : List Char) : Bool := line.all isWhitespace

/-- The lines of a text that are not blank. -/
def contentLines (text : List Char) : List (List Char) := (splitlines text).filter (!isBlank ·)

/-- `"\n".join(lines)`. -/
def joinLines (lines : List (List Char)) : List Char := ['\n'].intercalate lines

/-- `text.strip("\n")`. -/
def stripNewlines (text : List Char) : List Char :=
  ((text.dropWhile (· = '\n')).reverse.dropWhile (· = '\n')).reverse

@[simp] theorem isBlank_nil : isBlank [] = true := rfl

@[simp] theorem contentLines_nil : contentLines [] = [] := rfl

/-! ## Cutting at a newline -/

theorem filter_splitlinesFrom_nil (line : List Char) :
    (splitlinesFrom line []).filter (!isBlank ·) = [line].filter (!isBlank ·) := by
  cases line <;> rfl

theorem splitlinesFrom_cons (line : List Char) (c : Char) (cs : List Char) :
    splitlinesFrom line (c :: cs) =
      if c = '\r' ∧ cs.head? = some '\n' then splitlinesFrom line cs
      else if isLineBreak c then line :: splitlinesFrom [] cs
      else splitlinesFrom (line ++ [c]) cs := rfl

/-- A newline cuts the text, also when it ends a pair. -/
theorem filter_splitlinesFrom_append (line front back : List Char) :
    (splitlinesFrom line (front ++ '\n' :: back)).filter (!isBlank ·) =
      (splitlinesFrom line front).filter (!isBlank ·) ++ contentLines back := by
  induction front generalizing line with
  | nil =>
    have hcut : splitlinesFrom line ('\n' :: back) = [line] ++ splitlinesFrom [] back := by
      simp [splitlinesFrom, isLineBreak]
    rw [List.nil_append, hcut, filter_splitlinesFrom_nil, List.filter_append]
    rfl
  | cons c front ih =>
    by_cases hreturn : c = '\r' ∧ front = []
    · obtain ⟨rfl, rfl⟩ := hreturn
      have hpair :
          splitlinesFrom line ('\r' :: '\n' :: back) = splitlinesFrom line ('\n' :: back) := by
        simp [splitlinesFrom]
      have halone : splitlinesFrom line ['\r'] = [line] := by simp [splitlinesFrom, isLineBreak]
      have hrest := ih line
      rw [List.nil_append, filter_splitlinesFrom_nil] at hrest
      rw [List.cons_append, List.nil_append, hpair, halone, hrest]
    · have hiff : (c = '\r' ∧ (front ++ '\n' :: back).head? = some '\n') ↔
          (c = '\r' ∧ front.head? = some '\n') := by
        cases front with
        | nil => simpa using hreturn
        | cons next front => simp
      simp only [List.cons_append, splitlinesFrom_cons, hiff]
      split_ifs
      · exact ih line
      · rw [List.filter_cons, List.filter_cons, ih []]
        split_ifs <;> rfl
      · exact ih (line ++ [c])

theorem contentLines_append_newline (front back : List Char) :
    contentLines (front ++ '\n' :: back) = contentLines front ++ contentLines back :=
  filter_splitlinesFrom_append [] front back

@[simp] theorem contentLines_newline_cons (text : List Char) :
    contentLines ('\n' :: text) = contentLines text :=
  contentLines_append_newline [] text

/-! ## Stripping newlines -/

theorem contentLines_dropWhile (text : List Char) :
    contentLines (text.dropWhile (· = '\n')) = contentLines text := by
  induction text with
  | nil => rfl
  | cons c text ih =>
    by_cases hc : c = '\n'
    · rw [List.dropWhile_cons_of_pos (by simpa using hc), ih, hc, contentLines_newline_cons]
    · rw [List.dropWhile_cons_of_neg (by simpa using hc)]

theorem contentLines_dropWhile_reverse (text : List Char) :
    contentLines (text.reverse.dropWhile (· = '\n')).reverse = contentLines text := by
  induction text using List.reverseRecOn with
  | nil => rfl
  | append_singleton text c ih =>
    rw [List.reverse_append, List.reverse_singleton, List.singleton_append]
    by_cases hc : c = '\n'
    · rw [List.dropWhile_cons_of_pos (by simpa using hc), ih, hc, contentLines_append_newline]
      simp
    · rw [List.dropWhile_cons_of_neg (by simpa using hc)]
      simp

theorem contentLines_stripNewlines (text : List Char) :
    contentLines (stripNewlines text) = contentLines text := by
  rw [stripNewlines, contentLines_dropWhile_reverse, contentLines_dropWhile]

/-! ## Lines have no breaks -/

theorem mem_of_mem_splitlinesFrom {line text out : List Char} {c : Char}
    (h : out ∈ splitlinesFrom line text) (hc : c ∈ out) : c ∈ line ∨ c ∈ text := by
  induction text generalizing line with
  | nil =>
    unfold splitlinesFrom at h
    split_ifs at h
    · cases h
    · exact Or.inl (List.mem_singleton.mp h ▸ hc)
  | cons c' text ih =>
    rw [splitlinesFrom_cons] at h
    split_ifs at h
    · exact (ih h).imp_right (List.mem_cons_of_mem c')
    · rcases List.mem_cons.mp h with rfl | h
      · exact Or.inl hc
      · exact Or.inr (List.mem_cons_of_mem c' ((ih h).resolve_left List.not_mem_nil))
    · rcases ih h with hmem | hmem
      · rcases List.mem_append.mp hmem with hmem | hmem
        · exact Or.inl hmem
        · exact Or.inr (List.mem_singleton.mp hmem ▸ List.mem_cons_self)
      · exact Or.inr (List.mem_cons_of_mem c' hmem)

theorem not_isLineBreak_of_mem_splitlinesFrom {line text out : List Char}
    (hline : ∀ c ∈ line, isLineBreak c = false) (h : out ∈ splitlinesFrom line text) :
    ∀ c ∈ out, isLineBreak c = false := by
  induction text generalizing line with
  | nil =>
    unfold splitlinesFrom at h
    split_ifs at h
    · cases h
    · rwa [List.mem_singleton.mp h]
  | cons c' text ih =>
    rw [splitlinesFrom_cons] at h
    split_ifs at h with _ hbreak
    · exact ih hline h
    · rcases List.mem_cons.mp h with rfl | h
      · exact hline
      · exact ih (fun _ hc => absurd hc List.not_mem_nil) h
    · refine ih (fun c hc => ?_) h
      rcases List.mem_append.mp hc with hc | hc
      · exact hline c hc
      · rw [List.mem_singleton.mp hc]
        exact Bool.eq_false_iff.mpr hbreak

theorem not_isLineBreak_of_mem_splitlines {text line : List Char} (h : line ∈ splitlines text) :
    ∀ c ∈ line, isLineBreak c = false :=
  not_isLineBreak_of_mem_splitlinesFrom (fun _ hc => absurd hc List.not_mem_nil) h

theorem splitlinesFrom_of_not_isLineBreak (line : List Char) {text : List Char}
    (h : ∀ c ∈ text, isLineBreak c = false) :
    splitlinesFrom line text = splitlinesFrom (line ++ text) [] := by
  induction text generalizing line with
  | nil => rw [List.append_nil]
  | cons c text ih =>
    have hc := h c List.mem_cons_self
    have hreturn : ¬(c = '\r' ∧ text.head? = some '\n') := by
      rintro ⟨rfl, _⟩
      cases hc
    rw [splitlinesFrom_cons, if_neg hreturn, if_neg (by simp [hc]),
      ih (line ++ [c]) fun c' hc' => h c' (List.mem_cons_of_mem c hc'), List.append_assoc]
    rfl

/-- Joined lines are those lines again, up to blank ones. -/
theorem contentLines_joinLines {lines : List (List Char)}
    (h : ∀ line ∈ lines, ∀ c ∈ line, isLineBreak c = false) :
    contentLines (joinLines lines) = lines.filter (!isBlank ·) := by
  have hone : ∀ line : List Char, (∀ c ∈ line, isLineBreak c = false) →
      contentLines line = [line].filter (!isBlank ·) := by
    intro line hline
    rw [contentLines, splitlines, splitlinesFrom_of_not_isLineBreak [] hline, List.nil_append,
      filter_splitlinesFrom_nil]
  induction lines with
  | nil => rfl
  | cons line lines ih =>
    have hline := hone line (h line List.mem_cons_self)
    have hrest := ih fun l hl => h l (List.mem_cons_of_mem line hl)
    cases lines with
    | nil => simpa [joinLines] using hline
    | cons next lines =>
      have hjoin :
          joinLines (line :: next :: lines) = line ++ '\n' :: joinLines (next :: lines) := by
        simp [joinLines, List.intercalate]
      rw [hjoin, contentLines_append_newline, hline, hrest, ← List.filter_append]
      rfl

/-! ## Blank texts -/

theorem isEmpty_strip (text : List Char) : (strip text).isEmpty = isBlank text := by
  induction text with
  | nil => rfl
  | cons c text ih =>
    by_cases hc : isWhitespace c = true
    · have hdrop : strip (c :: text) = strip text := by
        rw [strip, strip, List.dropWhile_cons_of_pos hc]
      rw [hdrop, ih, isBlank, isBlank, List.all_cons, hc, Bool.true_and]
    · have hkept : ((c :: text).reverse.dropWhile isWhitespace) ≠ [] :=
        fun hnil => hc ((List.dropWhile_eq_nil_iff).mp hnil c (by simp))
      have hblank : isBlank (c :: text) = false := by simp [isBlank, hc]
      rw [strip, List.dropWhile_cons_of_neg hc, hblank, List.isEmpty_reverse]
      simpa using hkept

theorem contentLines_of_isBlank {text : List Char} (h : isBlank text = true) :
    contentLines text = [] := by
  refine List.filter_eq_nil_iff.mpr fun line hline => ?_
  have hmem : ∀ c ∈ line, isWhitespace c = true := by
    intro c hc
    have hin := (mem_of_mem_splitlinesFrom hline hc).resolve_left List.not_mem_nil
    exact List.all_eq_true.mp h c hin
  simpa [isBlank] using hmem

end Ragx
