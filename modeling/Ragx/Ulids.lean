import Ragx.FixedWidth
import Ragx.ReadingOrder

/-!
# Ids from times

A ULID is a numeral of fixed width for a time and random bits, the time in front. The first ten
digits are exactly those above the random bits, so they give the time back, and the order of the
alphabet makes the texts sort by it.
-/
namespace Ragx

/-! ## Digits in two parts -/

section Digits

variable {base : ℕ} [NeZero base]

theorem digits_add (front back n : ℕ) :
    digits base (front + back) n = digits base front (n / base ^ back) ++ digits base back n := by
  induction back generalizing n with
  | zero => rw [pow_zero, Nat.div_one, Nat.add_zero, digits, List.append_nil]
  | succ back ih =>
    rw [← Nat.add_assoc, digits, ih, digits, Nat.div_div_eq_div_mul, Nat.pow_succ',
      List.append_assoc]

/-- Reading the digits gives the number back, as far as they show it. -/
theorem foldl_digits (width n init : ℕ) :
    (digits base width n).foldl (fun acc (d : Fin base) => acc * base + d.val) init =
      init * base ^ width + n % base ^ width := by
  induction width generalizing n with
  | zero => simp [digits, Nat.mod_one]
  | succ width ih =>
    rw [digits, List.foldl_append, List.foldl_cons, List.foldl_nil, ih, mod_pow_succ_eq,
      Fin.val_ofNat]
    ring

end Digits

/-! ## Reading an id -/

/-- `str.upper()` of one character, which may be several. -/
structure UpperTable where
  upper : Char → List Char
  upper_alphabet : ∀ c ∈ ulidAlphabet, upper c = [c]

/-- ASCII letters alone. -/
instance : Inhabited UpperTable where
  default := {
    upper := fun c => [c.toUpper]
    upper_alphabet := List.map_inj_left.mp (rfl : ulidAlphabet.map _ = ulidAlphabet.map _) }

/-- `str.index`: where the first occurrence begins. -/
def strIndex (sub : List Char) : List Char → Option ℕ
  | [] => if sub = [] then some 0 else none
  | c :: cs => if sub.isPrefixOf (c :: cs) then some 0 else (strIndex sub cs).map (· + 1)

/-- The next five bits. -/
def addChar (u : UpperTable) (bits : ℕ) (ch : Char) : Option ℕ :=
  (strIndex (u.upper ch) ulidAlphabet).map fun index => bits <<< 5 ||| index

def ulidTimestampMs (u : UpperTable) (value : String) : Option ℕ :=
  ((value.toList.take 10).foldlM (addChar u) 0).map fun bits => bits &&& (1 <<< 48 - 1)

/-- An id whose time fits its 48 bits. -/
structure UlidDraw extends IdDraw where
  millis_lt : millis < 2 ^ 48

/-! ## The digits of an id -/

theorem ulidChar_mem (digit : Fin 32) : ulidChar digit ∈ ulidAlphabet := by
  revert digit
  decide +kernel

theorem strIndex_ulidChar (digit : Fin 32) :
    strIndex [ulidChar digit] ulidAlphabet = some digit.val := by
  revert digit
  decide +kernel

theorem addChar_ulidChar (u : UpperTable) (bits : ℕ) (digit : Fin 32) :
    addChar u bits (ulidChar digit) = some (bits * 32 + digit.val) := by
  unfold addChar
  rw [u.upper_alphabet _ (ulidChar_mem digit), strIndex_ulidChar, Option.map_some,
    ← Nat.shiftLeft_add_eq_or_of_lt (i := 5) digit.isLt, Nat.shiftLeft_eq]

theorem foldlM_addChar (u : UpperTable) (ds : List (Fin 32)) (bits : ℕ) :
    (ds.map ulidChar).foldlM (addChar u) bits =
      some (ds.foldl (fun acc (d : Fin 32) => acc * 32 + d.val) bits) := by
  induction ds generalizing bits with
  | nil => rfl
  | cons d ds ih =>
    rw [List.map_cons, List.foldlM_cons, addChar_ulidChar]
    exact ih _

theorem IdDraw.value_eq (draw : IdDraw) :
    draw.value = draw.millis * 2 ^ 80 + draw.randomBits := by
  rw [value, ← Nat.shiftLeft_add_eq_or_of_lt draw.randomBits_lt, Nat.shiftLeft_eq]

theorem UlidDraw.value_lt (draw : UlidDraw) : draw.value < 2 ^ 128 := by
  have hmillis := draw.millis_lt
  have hrandom := draw.randomBits_lt
  rw [IdDraw.value_eq]
  omega

/-- Two ids compare like the numbers behind them. -/
theorem ulid_lt_iff (draw draw' : UlidDraw) :
    ulid draw.toIdDraw < ulid draw'.toIdDraw ↔ draw.value < draw'.value := by
  have hlt := draw.value_lt
  have hlt' := draw'.value_lt
  rw [ulid_eq, ulid_eq, String.lt_iff, String.toList_ofList, String.toList_ofList,
    map_lt_map_iff strictMono_ulidChar, digits_lt_iff, Nat.mod_eq_of_lt (by omega),
    Nat.mod_eq_of_lt (by omega)]

theorem ulid_injective {draw draw' : UlidDraw} (h : ulid draw.toIdDraw = ulid draw'.toIdDraw) :
    draw.millis = draw'.millis ∧ draw.randomBits = draw'.randomBits := by
  have hle : ¬ draw.value < draw'.value := by
    rw [← ulid_lt_iff, h]
    exact String.lt_irrefl _
  have hge : ¬ draw'.value < draw.value := by
    rw [← ulid_lt_iff, h]
    exact String.lt_irrefl _
  have hvalue : draw.value = draw'.value := by omega
  have hrandom := draw.randomBits_lt
  have hrandom' := draw'.randomBits_lt
  rw [IdDraw.value_eq, IdDraw.value_eq] at hvalue
  omega

/-- The first ten digits are those of the time. -/
theorem take_ulid (draw : UlidDraw) :
    (ulid draw.toIdDraw).toList.take 10 = (digits 32 10 draw.millis).map ulidChar := by
  have htime : draw.value / 32 ^ 16 = draw.millis := by
    have hrandom := draw.randomBits_lt
    rw [IdDraw.value_eq]
    omega
  rw [ulid_eq, String.toList_ofList, digits_add 10 16, htime, List.map_append]
  exact List.take_left' (by rw [List.length_map, length_digits])

theorem ulidTimestampMs_ulid (u : UpperTable) (draw : UlidDraw) :
    ulidTimestampMs u (ulid draw.toIdDraw) = some draw.millis := by
  have hmillis := draw.millis_lt
  unfold ulidTimestampMs
  rw [take_ulid, foldlM_addChar, foldl_digits, Nat.zero_mul, Nat.zero_add,
    Nat.mod_eq_of_lt (by omega), Option.map_some]
  have hmask : draw.millis &&& (1 <<< 48 - 1) = draw.millis % 2 ^ 48 :=
    Nat.and_two_pow_sub_one_eq_mod _ 48
  rw [hmask, Nat.mod_eq_of_lt hmillis]

/-- An id has 26 characters of the alphabet, its time and random bits can be told from it, the time
is read back from it, and ids sort by their times. -/
theorem ulid_encodes_and_sorts (u : UpperTable) (draw draw' : UlidDraw) :
    (ulid draw.toIdDraw).length = 26 ∧
    (∀ c ∈ (ulid draw.toIdDraw).toList, c ∈ ulidAlphabet) ∧
    (ulid draw.toIdDraw = ulid draw'.toIdDraw →
      draw.millis = draw'.millis ∧ draw.randomBits = draw'.randomBits) ∧
    ulidTimestampMs u (ulid draw.toIdDraw) = some draw.millis ∧
    (draw.millis < draw'.millis → ulid draw.toIdDraw < ulid draw'.toIdDraw) := by
  refine ⟨?_, fun c hc => ?_, ulid_injective, ulidTimestampMs_ulid u draw, fun htime => ?_⟩
  · rw [ulid_eq, String.length_ofList, List.length_map, length_digits]
  · rw [ulid_eq, String.toList_ofList] at hc
    obtain ⟨digit, -, rfl⟩ := List.mem_map.mp hc
    exact ulidChar_mem digit
  · have hrandom := draw.randomBits_lt
    rw [ulid_lt_iff, IdDraw.value_eq, IdDraw.value_eq]
    omega

end Ragx
