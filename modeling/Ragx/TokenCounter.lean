import Mathlib.Algebra.BigOperators.Group.List.Basic
import Mathlib.Algebra.Order.Ring.Int
import Mathlib.Tactic.SplitIfs

/-!
# The heuristic token counter

A word counts as one token, a CJK character as one, and four of the other characters make
one token. So a text is worth a number of quarter tokens, which its count rounds down. Joining
texts adds their quarters, and those of the separators.
-/
namespace Ragx

section Runs

variable {α : Type*} (p : α → Bool)

/-- The number of maximal runs of items that pass the test; `inside` a run, the first
items belong to it. -/
def runCount : Bool → List α → ℕ
  | _, [] => 0
  | inside, x :: xs =>
    if p x then (if inside then 0 else 1) + runCount true xs else runCount false xs

variable {p}

/-- An item that fails the test ends the run before it. -/
theorem runCount_append_cons {sep : α} (hsep : p sep = false) (inside : Bool) (xs ys : List α) :
    runCount p inside (xs ++ sep :: ys) = runCount p inside xs + runCount p false ys := by
  induction xs generalizing inside with
  | nil => simp [runCount, hsep]
  | cons x xs ih =>
    simp only [List.cons_append, runCount, ih]
    split_ifs <;> omega

end Runs

namespace HeuristicCounter

/-- A letter, a digit, an underscore or a backtick (code 96). -/
def isAsciiWord (c : Char) : Bool :=
  c.isAlphanum || c == '_' || c.val == 96

def isCjk (c : Char) : Bool :=
  (0x3040 ≤ c.val && c.val ≤ 0x30ff) || (0x3400 ≤ c.val && c.val ≤ 0x4dbf) ||
    (0x4e00 ≤ c.val && c.val ≤ 0x9fff) || (0xf900 ≤ c.val && c.val ≤ 0xfaff) ||
    (0xff00 ≤ c.val && c.val ≤ 0xffef)

def count (text : String) : ℤ :=
  if text = "" then 0
  else
    let asciiTokens : ℤ := runCount isAsciiWord false text.toList
    let consumed : ℤ := text.toList.countP isAsciiWord
    let residualAscii := max 0 (text.length - consumed)
    let cjkChars : ℤ := text.toList.countP isCjk
    max 1 (asciiTokens + (residualAscii - cjkChars) / 4 + cjkChars)

def isOther (c : Char) : Bool := !isAsciiWord c && !isCjk c

/-- What a text is worth before rounding, in quarters of a token. -/
def quarters (text : String) : ℤ :=
  4 * runCount isAsciiWord false text.toList + 4 * text.toList.countP isCjk +
    text.toList.countP isOther

theorem isAsciiWord_le {c : Char} (h : isAsciiWord c = true) : c.toNat ≤ 122 := by
  delta isAsciiWord Char.isAlphanum Char.isAlpha Char.isUpper Char.isLower Char.isDigit at h
  simp only [Bool.or_eq_true, Bool.and_eq_true, decide_eq_true_eq, beq_iff_eq,
    UInt32.le_iff_toNat_le, UInt32.ext_iff, Char.reduceVal, UInt32.reduceToNat,
    Char.toNat_val] at h
  rcases h with (h | rfl) | h
  · omega
  · decide
  · omega

theorem isCjk_of_isAsciiWord {c : Char} (h : isAsciiWord c = true) : isCjk c = false := by
  have hle := isAsciiWord_le h
  simp [isCjk, UInt32.le_iff_toNat_le]
  omega

/-- The three kinds of characters share out the text. -/
theorem length_eq_countP (cs : List Char) :
    cs.length = cs.countP isAsciiWord + cs.countP isCjk + cs.countP isOther := by
  induction cs with
  | nil => rfl
  | cons c cs ih =>
    have hother : isOther c = (!isAsciiWord c && !isCjk c) := rfl
    by_cases hword : isAsciiWord c = true
    · have hcjk := isCjk_of_isAsciiWord hword
      simp [hother, hword, hcjk]
      omega
    · by_cases hcjk : isCjk c = true
      · simp [hother, hword, hcjk]
        omega
      · simp [hother, hword, hcjk]
        omega

/-- The count rounds the quarters down, and counts at least one for what is not empty. -/
theorem count_eq (text : String) :
    count text = if text = "" then 0 else max 1 (quarters text / 4) := by
  have hlength := length_eq_countP text.toList
  rw [String.length_toList] at hlength
  unfold count quarters
  split_ifs
  · rfl
  · dsimp only
    omega

theorem count_nonneg (text : String) : 0 ≤ count text := by
  rw [count_eq]
  split_ifs <;> omega

theorem quarters_div_le_count (text : String) : quarters text / 4 ≤ count text := by
  rw [count_eq]
  split_ifs with h
  · rw [h]
    rfl
  · exact le_max_right _ _

/-- A blank line between two texts is worth half a token. -/
theorem quarters_append_break (a b : String) :
    quarters (a ++ "\n\n" ++ b) = quarters a + 2 + quarters b := by
  have hbreak : (a ++ "\n\n" ++ b).toList = a.toList ++ '\n' :: ([] ++ '\n' :: b.toList) := by
    simp
  have hword : isAsciiWord '\n' = false := by decide
  have hcjk : isCjk '\n' = false := by decide
  have hother : isOther '\n' = true := by decide
  rw [quarters, hbreak, runCount_append_cons hword, runCount_append_cons hword]
  simp only [List.countP_append, List.countP_cons, List.nil_append, hcjk, hother, quarters,
    runCount]
  push_cast
  omega

theorem quarters_join {texts : List String} (h : texts ≠ []) :
    quarters ("\n\n".intercalate texts) =
      (texts.map quarters).sum + 2 * (texts.length - 1) := by
  induction texts with
  | nil => exact absurd rfl h
  | cons text texts ih =>
    cases texts with
    | nil => simp
    | cons next texts =>
      rw [String.intercalate_cons_cons, quarters_append_break, ih (List.cons_ne_nil _ _)]
      simp only [List.map_cons, List.sum_cons, List.length_cons]
      push_cast
      omega

theorem join_ne_empty {a b : String} {texts : List String} :
    "\n\n".intercalate (a :: b :: texts) ≠ "" := by
  rw [String.intercalate_cons_cons, ne_eq, ← String.toList_inj]
  simp

/-- A text's quarters that its count does not show, or that it shows too many. -/
def uncounted (text : String) : ℤ := quarters text - 4 * count text

/-- The tokens that a joined text counts beyond its parts. -/
def joinExcess (texts : List String) : ℤ :=
  ((texts.map uncounted).sum + 2 * (texts.length - 1)) / 4

theorem sum_uncounted (texts : List String) :
    (texts.map uncounted).sum = (texts.map quarters).sum - 4 * (texts.map count).sum := by
  induction texts with
  | nil => rfl
  | cons text texts ih =>
    simp only [List.map_cons, List.sum_cons, ih, uncounted]
    omega

theorem quarters_join_div {texts : List String} (h : texts ≠ []) :
    quarters ("\n\n".intercalate texts) / 4 = (texts.map count).sum + joinExcess texts := by
  rw [quarters_join h, joinExcess, sum_uncounted]
  omega

/-- A joined text keeps to a limit that its parts keep to, if the limit has room for what the
rounding and the separators add. -/
theorem count_join_le_iff {texts : List String} {limit : ℤ}
    (hsum : (texts.map count).sum ≤ limit) :
    count ("\n\n".intercalate texts) ≤ limit ↔
      (2 ≤ texts.length → 1 ≤ limit) ∧ (texts.map count).sum + joinExcess texts ≤ limit := by
  match texts with
  | [] =>
    have hexcess : joinExcess [] = -1 := by decide
    have hempty : count "" = 0 := rfl
    simp [hexcess, hempty] at hsum ⊢
    omega
  | [text] =>
    have hround := quarters_div_le_count text
    have hdiv := quarters_join_div (List.cons_ne_nil text [])
    simp only [List.map_cons, List.map_nil, List.sum_cons, List.sum_nil, List.length_singleton,
      String.intercalate_singleton] at hsum hdiv ⊢
    refine iff_of_true (by omega) ⟨by omega, by omega⟩
  | a :: b :: texts =>
    rw [count_eq, if_neg join_ne_empty, quarters_join_div (List.cons_ne_nil _ _), max_le_iff]
    simp

end HeuristicCounter

end Ragx
