import Mathlib.Algebra.Order.Ring.Nat
import Mathlib.Data.Char
import Mathlib.Data.List.Lex
import Mathlib.Order.Fin.Basic
import Mathlib.Order.Monotone.Basic

/-!
# Numerals of a fixed width

The last `width` digits of a number, the most significant digit first. Written with an
alphabet in increasing order, numerals of one width sort as texts like the numbers
that they show.
-/
namespace Ragx

/-- The last `width` digits of `n`. -/
def digits (base : ℕ) [NeZero base] : ℕ → ℕ → List (Fin base)
  | 0, _ => []
  | width + 1, n => digits base width (n / base) ++ [Fin.ofNat base n]

section Digits

variable {base : ℕ} [NeZero base]

@[simp] theorem length_digits (width n : ℕ) : (digits base width n).length = width := by
  induction width generalizing n with
  | zero => rfl
  | succ width ih => rw [digits, List.length_append, ih, List.length_singleton]

/-- The positions of a numeral, from the most significant one on. -/
theorem digits_eq_map (width n : ℕ) :
    digits base width n =
      (List.range width).reverse.map fun position => Fin.ofNat base (n / base ^ position) := by
  induction width generalizing n with
  | zero => rfl
  | succ width ih =>
    rw [digits, ih, List.range_succ_eq_map, List.reverse_cons, List.map_append, ← List.map_reverse,
      List.map_map]
    simp [Function.comp_def, Nat.div_div_eq_div_mul, Nat.pow_succ']

end Digits

/-! ## Order -/

theorem append_lt_append_iff {α : Type} [LinearOrder α] {front back front' back' : List α}
    (h : front.length = front'.length) :
    front ++ back < front' ++ back' ↔ front < front' ∨ front = front' ∧ back < back' := by
  induction front generalizing front' with
  | nil =>
    obtain rfl := List.length_eq_zero_iff.mp h.symm
    simp
  | cons a front ih =>
    cases front' with
    | nil => cases h
    | cons b front' =>
      have hrest := ih (Nat.succ.inj h)
      simp only [List.cons_append, List.cons_lt_cons_iff, hrest, List.cons.injEq]
      tauto

theorem map_lt_map_iff {α β : Type} [LinearOrder α] [LinearOrder β] {f : α → β}
    (hf : StrictMono f) {xs ys : List α} : xs.map f < ys.map f ↔ xs < ys := by
  induction xs generalizing ys with
  | nil => cases ys <;> simp
  | cons x xs ih =>
    cases ys with
    | nil => simp
    | cons y ys =>
      simp only [List.map_cons, List.cons_lt_cons_iff, ih, hf.lt_iff_lt, hf.injective.eq_iff]

theorem string_append_lt_append_iff (front : String) {a b : List Char} :
    front ++ String.ofList a < front ++ String.ofList b ↔ a < b := by
  rw [String.lt_iff, String.toList_append, String.toList_append, append_lt_append_iff rfl,
    String.toList_ofList, String.toList_ofList]
  simp

section Digits

variable {base : ℕ} [NeZero base]

omit [NeZero base] in
theorem mod_pow_succ_eq (width n : ℕ) :
    n % base ^ (width + 1) = n % base + base * (n / base % base ^ width) := by
  rw [Nat.pow_succ', Nat.mod_mul]

theorem mod_pow_succ_lt_iff {width m n : ℕ} :
    m % base ^ (width + 1) < n % base ^ (width + 1) ↔
      m / base % base ^ width < n / base % base ^ width ∨
      m / base % base ^ width = n / base % base ^ width ∧ m % base < n % base := by
  have hm := Nat.mod_lt m (Nat.pos_of_neZero base)
  have hn := Nat.mod_lt n (Nat.pos_of_neZero base)
  rw [mod_pow_succ_eq, mod_pow_succ_eq]
  generalize m % base = x at *
  generalize n % base = y at *
  generalize m / base % base ^ width = a
  generalize n / base % base ^ width = b
  rcases lt_trichotomy a b with hab | rfl | hba
  · refine iff_of_true ?_ (Or.inl hab)
    calc x + base * a < base * (a + 1) := by rw [Nat.mul_succ]; omega
      _ ≤ base * b := Nat.mul_le_mul_left base hab
      _ ≤ y + base * b := Nat.le_add_left _ _
  · simp
  · refine iff_of_false (not_lt.mpr ?_) (by omega)
    calc y + base * b ≤ base * (b + 1) := by rw [Nat.mul_succ]; omega
      _ ≤ base * a := Nat.mul_le_mul_left base hba
      _ ≤ x + base * a := Nat.le_add_left _ _

theorem digits_eq_iff {width m n : ℕ} :
    digits base width m = digits base width n ↔ m % base ^ width = n % base ^ width := by
  induction width generalizing m n with
  | zero => simp [digits, Nat.mod_one]
  | succ width ih =>
    have hdigit : Fin.ofNat base m = Fin.ofNat base n ↔ m % base = n % base := Fin.ext_iff
    constructor
    · intro h
      obtain ⟨hrest, hlast⟩ := List.append_inj' h rfl
      rw [mod_pow_succ_eq, mod_pow_succ_eq, ih.mp hrest, hdigit.mp (List.singleton_inj.mp hlast)]
    · intro h
      have hlt : m % base ^ (width + 1) < n % base ^ (width + 1) ↔ _ := mod_pow_succ_lt_iff
      have hgt : n % base ^ (width + 1) < m % base ^ (width + 1) ↔ _ := mod_pow_succ_lt_iff
      have hrest : m / base % base ^ width = n / base % base ^ width := by omega
      have hlast : m % base = n % base := by omega
      rw [digits, digits, ih.mpr hrest, hdigit.mpr hlast]

/-- Numerals of one width compare like the numbers that they show. -/
theorem digits_lt_iff {width m n : ℕ} :
    digits base width m < digits base width n ↔ m % base ^ width < n % base ^ width := by
  induction width generalizing m n with
  | zero => simp [digits, Nat.mod_one]
  | succ width ih =>
    rw [digits, digits, append_lt_append_iff (by simp), ih, digits_eq_iff,
      mod_pow_succ_lt_iff]
    simp [List.cons_lt_cons_iff, Fin.lt_def]

end Digits

/-! ## Decimal numerals -/

/-- The decimal numeral, filled up with zeros to the width. -/
def zeroPad (width n : ℕ) : List Char :=
  List.replicate (width - (Nat.toDigits 10 n).length) '0' ++ Nat.toDigits 10 n

def decimalChar (digit : Fin 10) : Char := Nat.digitChar digit

theorem strictMono_decimalChar : StrictMono decimalChar := by
  unfold StrictMono
  decide

theorem map_digits_zero (width : ℕ) :
    (digits 10 width 0).map decimalChar = List.replicate width '0' := by
  induction width with
  | zero => rfl
  | succ width ih =>
    rw [digits, List.map_append, Nat.zero_div, ih, List.replicate_succ']
    rfl

/-- Numbers that fit are written with exactly the digits of the width. -/
theorem zeroPad_eq {width n : ℕ} (h : n < 10 ^ (width + 1)) :
    zeroPad (width + 1) n = (digits 10 (width + 1) n).map decimalChar := by
  induction width generalizing n with
  | zero =>
    have hn : n < 10 := by simpa using h
    rw [zeroPad, Nat.toDigits_of_lt_base hn]
    simp [digits, decimalChar, Fin.ofNat, Nat.mod_eq_of_lt hn]
  | succ width ih =>
    rw [digits, List.map_append]
    by_cases hn : n < 10
    · rw [Nat.div_eq_of_lt hn, map_digits_zero, zeroPad, Nat.toDigits_of_lt_base hn]
      simp [decimalChar, Fin.ofNat, Nat.mod_eq_of_lt hn]
    · have hrest : n / 10 < 10 ^ (width + 1) := by
        rw [Nat.pow_succ'] at h
        exact Nat.div_lt_of_lt_mul h
      have hlast : Nat.toDigits 10 n = Nat.toDigits 10 (n / 10) ++ [(n % 10).digitChar] :=
        Nat.toDigits_of_base_le (by omega) (by omega)
      rw [← ih hrest, zeroPad, zeroPad, hlast, List.length_append, List.length_singleton,
        Nat.add_sub_add_right, List.append_assoc]
      rfl

theorem zeroPad_lt_iff {width m n : ℕ} (hm : m < 10 ^ (width + 1)) (hn : n < 10 ^ (width + 1)) :
    zeroPad (width + 1) m < zeroPad (width + 1) n ↔ m < n := by
  rw [zeroPad_eq hm, zeroPad_eq hn, map_lt_map_iff strictMono_decimalChar, digits_lt_iff,
    Nat.mod_eq_of_lt hm, Nat.mod_eq_of_lt hn]

end Ragx
