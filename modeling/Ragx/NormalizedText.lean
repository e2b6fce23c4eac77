import Mathlib.Data.List.DropRight
import Ragx.TextCodecs
import Ragx.TextLines

/-!
# Decoding normalised data

Unifying newlines and dropping blanks at the end commute with decoding, so that the texts of
two files with the same normalised data are one text with different newlines in it and
different blanks behind it. Its lines do not depend on the newlines.
-/
namespace Ragx

section UnifyBreaks

variable {α : Type} [DecidableEq α]

/-- `unifyNewlines` over any alphabet with a carriage return and a newline. -/
def unifyBreaks (cr lf : α) (afterCr : Bool) : List α → List α
  | [] => []
  | x :: rest =>
    if x = lf ∧ afterCr then unifyBreaks cr lf false rest
    else if x = cr then lf :: unifyBreaks cr lf true rest
    else x :: unifyBreaks cr lf false rest

theorem unifyNewlines_eq (afterCr : Bool) (data : List UInt8) :
    unifyNewlines afterCr data = unifyBreaks 0x0D 0x0A afterCr data := by
  induction data generalizing afterCr with
  | nil => rfl
  | cons b data ih => simp only [unifyNewlines, unifyBreaks, ih]

variable {cr lf : α}

theorem unifyBreaks_cons (afterCr : Bool) (x : α) (rest : List α) :
    unifyBreaks cr lf afterCr (x :: rest) =
      if x = lf ∧ afterCr then unifyBreaks cr lf false rest
      else if x = cr then lf :: unifyBreaks cr lf true rest
      else x :: unifyBreaks cr lf false rest := rfl

theorem unifyBreaks_append_of_ne_nil {front : List α} (hfree : ∀ x ∈ front, x ≠ cr ∧ x ≠ lf)
    (hne : front ≠ []) (afterCr : Bool) (back : List α) :
    unifyBreaks cr lf afterCr (front ++ back) = front ++ unifyBreaks cr lf false back := by
  induction front generalizing afterCr with
  | nil => exact absurd rfl hne
  | cons x front ih =>
    obtain ⟨hcr, hlf⟩ := hfree x List.mem_cons_self
    rw [List.cons_append, unifyBreaks_cons, if_neg fun h => hlf h.1, if_neg hcr]
    cases front with
    | nil => rfl
    | cons y front =>
      rw [ih (fun z hz => hfree z (List.mem_cons_of_mem x hz)) (List.cons_ne_nil y front)]
      rfl

theorem unifyBreaks_append {front : List α} (hfree : ∀ x ∈ front, x ≠ cr ∧ x ≠ lf)
    (back : List α) :
    unifyBreaks cr lf false (front ++ back) = front ++ unifyBreaks cr lf false back := by
  by_cases hne : front = []
  · rw [hne]
    rfl
  · exact unifyBreaks_append_of_ne_nil hfree hne false back

theorem unifyBreaks_of_free {text : List α} (hfree : ∀ x ∈ text, x ≠ cr ∧ x ≠ lf)
    (afterCr : Bool) : unifyBreaks cr lf afterCr text = text := by
  by_cases hne : text = []
  · rw [hne]
    rfl
  · have happend := unifyBreaks_append_of_ne_nil hfree hne afterCr []
    rwa [List.append_nil, unifyBreaks, List.append_nil] at happend

/-- Up to the first break everything is kept; a newline right behind a return is dropped. -/
theorem unifyBreaks_append_cons {front : List α} (hfree : ∀ x ∈ front, x ≠ cr ∧ x ≠ lf) {x : α}
    (hx : x = cr ∨ x = lf) {afterCr : Bool} (hkept : ¬(front = [] ∧ x = lf ∧ afterCr = true))
    (back : List α) :
    unifyBreaks cr lf afterCr (front ++ x :: back) =
      front ++ lf :: unifyBreaks cr lf (decide (x = cr)) back := by
  have hbreak : ∀ flag, ¬(x = lf ∧ flag = true) →
      unifyBreaks cr lf flag (x :: back) = lf :: unifyBreaks cr lf (decide (x = cr)) back := by
    intro flag hflag
    rw [unifyBreaks_cons, if_neg hflag]
    by_cases hcr : x = cr
    · rw [if_pos hcr, decide_eq_true hcr]
    · rw [if_neg hcr, decide_eq_false hcr, hx.resolve_left hcr]
  by_cases hne : front = []
  · rw [hne]
    exact hbreak afterCr fun h => hkept ⟨hne, h⟩
  · rw [unifyBreaks_append_of_ne_nil hfree hne, hbreak false (by simp)]

theorem not_mem_unifyBreaks (hne : cr ≠ lf) (afterCr : Bool) (text : List α) :
    cr ∉ unifyBreaks cr lf afterCr text := by
  induction text generalizing afterCr with
  | nil => exact List.not_mem_nil
  | cons x text ih =>
    rw [unifyBreaks_cons]
    split_ifs with _ hx
    · exact ih false
    · exact List.not_mem_cons_of_ne_of_not_mem hne (ih true)
    · exact List.not_mem_cons_of_ne_of_not_mem (Ne.symm hx) (ih false)

theorem exists_first_break (cr lf : α) (text : List α) :
    (∀ x ∈ text, x ≠ cr ∧ x ≠ lf) ∨
      ∃ front x back, text = front ++ x :: back ∧ (∀ y ∈ front, y ≠ cr ∧ y ≠ lf) ∧
        (x = cr ∨ x = lf) := by
  induction text with
  | nil => exact Or.inl fun _ h => absurd h List.not_mem_nil
  | cons x text ih =>
    by_cases hx : x = cr ∨ x = lf
    · exact Or.inr ⟨[], x, text, rfl, fun _ h => absurd h List.not_mem_nil, hx⟩
    · rw [not_or] at hx
      rcases ih with hfree | ⟨front, y, back, rfl, hfree, hy⟩
      · exact Or.inl (List.forall_mem_cons.mpr ⟨hx, hfree⟩)
      · exact Or.inr ⟨x :: front, y, back, rfl, List.forall_mem_cons.mpr ⟨hx, hfree⟩, hy⟩

end UnifyBreaks

/-- The newlines of a text unified. -/
def unifyLines (afterCr : Bool) (text : List Char) : List Char := unifyBreaks '\r' '\n' afterCr text

section Decode

variable {decode : List UInt8 → Option (List Char)} (h : CutsAtBlanks decode)

include h

theorem CutsAtBlanks.free {data : List UInt8} {text : List Char} (hdecode : decode data = some text)
    (hfree : ∀ b ∈ data, b ≠ 0x0D ∧ b ≠ 0x0A) : ∀ c ∈ text, c ≠ '\r' ∧ c ≠ '\n' := by
  intro c hc
  constructor
  · rintro rfl
    exact (hfree 0x0D (h.mem hdecode rfl hc)).1 rfl
  · rintro rfl
    exact (hfree 0x0A (h.mem hdecode rfl hc)).2 rfl

/-- Behind the first break the rest is unified on both sides. -/
theorem CutsAtBlanks.decode_unifyNewlines (afterCr : Bool) (data : List UInt8) :
    decode (unifyNewlines afterCr data) = (decode data).map (unifyLines afterCr) := by
  induction hlength : data.length using Nat.strong_induction_on generalizing data afterCr with
  | _ length ih =>
    rw [unifyNewlines_eq]
    rcases exists_first_break (0x0D : UInt8) 0x0A data with
      hfree | ⟨front, b, back, rfl, hfree, hb⟩
    · rw [unifyBreaks_of_free hfree]
      cases hdecode : decode data with
      | none => rfl
      | some text => exact congrArg some (unifyBreaks_of_free (h.free hdecode hfree) _).symm
    · have hrest : ∀ flag, decode (unifyBreaks 0x0D 0x0A flag back) =
          (decode back).map (unifyLines flag) := by
        intro flag
        have hshorter : back.length < length := by
          rw [← hlength, List.length_append, List.length_cons]
          omega
        rw [← unifyNewlines_eq]
        exact ih back.length hshorter flag back rfl
      have hblank : isBlankByte b = true := by
        rcases hb with rfl | rfl <;> rfl
      rw [h.cut front back hblank]
      by_cases hdropped : front = [] ∧ b = 0x0A ∧ afterCr = true
      · obtain ⟨rfl, rfl, rfl⟩ := hdropped
        rw [h.eq_nil_iff.mpr rfl, List.nil_append, unifyBreaks_cons, if_pos ⟨rfl, rfl⟩, hrest]
        cases decode back with
        | none => rfl
        | some ds => rfl
      · rw [unifyBreaks_append_cons hfree hb hdropped, h.cut front _ rfl, hrest]
        cases hfront : decode front with
        | none => rfl
        | some cs =>
          cases decode back with
          | none => rfl
          | some ds =>
            have hflag : decide (b = 0x0D) = decide (byteChar b = '\r') :=
              decide_eq_decide.mpr (byteChar_inj (b := 0x0D)).symm
            have hbreak : byteChar b = '\r' ∨ byteChar b = '\n' :=
              hb.imp (congrArg byteChar) (congrArg byteChar)
            have hkept : ¬(cs = [] ∧ byteChar b = '\n' ∧ afterCr = true) := by
              rintro ⟨rfl, hnewline, hafter⟩
              exact hdropped ⟨h.eq_nil_iff.mp hfront, (byteChar_inj (b := 0x0A)).mp hnewline, hafter⟩
            rw [hflag]
            exact congrArg some (unifyBreaks_append_cons (h.free hfront hfree) hbreak hkept ds).symm

theorem CutsAtBlanks.decode_of_isBlankByte {blanks : List UInt8}
    (hblanks : ∀ b ∈ blanks, isBlankByte b = true) :
    decode blanks = some (blanks.map byteChar) := by
  induction blanks with
  | nil => exact h.eq_nil_iff.mpr rfl
  | cons b blanks ih =>
    obtain ⟨hb, hblanks⟩ := List.forall_mem_cons.mp hblanks
    have hcut := h.cut [] blanks hb
    rwa [h.eq_nil_iff.mpr rfl, ih hblanks] at hcut

theorem CutsAtBlanks.decode_append (data : List UInt8) {blanks : List UInt8}
    (hblanks : ∀ b ∈ blanks, isBlankByte b = true) :
    decode (data ++ blanks) = (decode data).map (· ++ blanks.map byteChar) := by
  cases blanks with
  | nil => cases hdecode : decode data <;> simp [hdecode]
  | cons b blanks =>
    obtain ⟨hb, hblanks⟩ := List.forall_mem_cons.mp hblanks
    rw [h.cut data blanks hb, h.decode_of_isBlankByte hblanks]
    cases decode data <;> rfl

theorem CutsAtBlanks.map_unifyLines {data core blanks : List UInt8}
    (hblanks : ∀ b ∈ blanks, isBlankByte b = true)
    (hunify : unifyNewlines false data = core ++ blanks) :
    (decode data).map (unifyLines false) = (decode core).map (· ++ blanks.map byteChar) := by
  rw [← h.decode_unifyNewlines, hunify, h.decode_append core hblanks]

end Decode

/-! ## Files with the same normalised data -/

theorem bomOf_prefix (data : List UInt8) : bomOf data <+: data := by
  unfold bomOf
  cases hbom : boms.find? (·.isPrefixOf data) with
  | none => exact List.nil_prefix
  | some bom =>
    have hprefix : List.isPrefixOf bom data = true :=
      List.find?_some (p := fun mark => List.isPrefixOf mark data) hbom
    exact List.isPrefixOf_iff_prefix.mp hprefix

theorem bomOf_free (data : List UInt8) : ∀ b ∈ bomOf data, b ≠ 0x0D ∧ b ≠ 0x0A := by
  unfold bomOf
  cases hbom : boms.find? (·.isPrefixOf data) with
  | none => exact fun _ hb => absurd hb List.not_mem_nil
  | some bom =>
    have hmem := List.mem_of_find?_eq_some hbom
    simp only [boms, List.mem_cons, List.not_mem_nil, or_false] at hmem
    rcases hmem with rfl | rfl | rfl <;> simp

/-- The mark, the normalised data and blanks are what unifying the newlines leaves. -/
theorem exists_unifyNewlines_eq (data : List UInt8) :
    ∃ blanks, (∀ b ∈ blanks, isBlankByte b = true) ∧
      unifyNewlines false data = (bomOf data ++ normalizeBytes data) ++ blanks := by
  obtain ⟨rest, hrest⟩ := bomOf_prefix data
  have hmark : unifyNewlines false data = bomOf data ++ unifyNewlines false rest := by
    have happend := unifyBreaks_append (bomOf_free data) rest
    rwa [hrest, ← unifyNewlines_eq, ← unifyNewlines_eq] at happend
  have hnormal : normalizeBytes data = (unifyNewlines false rest).rdropWhile isBlankByte := by
    rw [normalizeBytes, ← congrArg (List.drop (bomOf data).length) hrest, List.drop_left]
    rfl
  refine ⟨(unifyNewlines false rest).rtakeWhile isBlankByte, fun b => List.mem_rtakeWhile_imp, ?_⟩
  rw [hmark, hnormal, List.append_assoc, List.rdropWhile_append_rtakeWhile]

theorem isBlank_map_byteChar {blanks : List UInt8} (h : ∀ b ∈ blanks, isBlankByte b = true) :
    isBlank (blanks.map byteChar) = true := by
  rw [isBlank, List.all_map, List.all_eq_true]
  intro b hb
  have hblank := h b hb
  simp only [isBlankByte, Bool.or_eq_true, beq_iff_eq, Bool.and_eq_true, decide_eq_true_eq,
    UInt8.le_iff_toNat_le] at hblank
  simp only [Function.comp_apply, isWhitespace, toNat_byteChar]
  rcases hblank with rfl | ⟨hlow, hhigh⟩
  · rfl
  · have hrange : 9 ≤ b.toNat ∧ b.toNat ≤ 13 := ⟨hlow, hhigh⟩
    simp [hrange.1, hrange.2]

theorem decodeContent_bytes (gb : Gb18030) (data : List UInt8) :
    some (decodeContent gb (.bytes data)) =
      ((decodeUtf8 data).or (gb.decode data)).or (some (decodeLatin1 data)) := by
  rw [decodeContent, decodeUtf8_or_sig]
  cases (decodeUtf8 data).or (gb.decode data) <;> rfl

theorem decodeContent_encodeUtf8 (gb : Gb18030) (text : List Char) :
    decodeContent gb (.bytes (encodeUtf8 text)) = text := by
  have hutf8 : decodeUtf8 (encodeUtf8 text) = some text := decodeUtf8_eq_some_iff.mpr rfl
  rw [decodeContent, hutf8]
  rfl

/-- The text of a file is the text of its normalised data, up to newlines and blanks behind. -/
theorem exists_unifyLines_decodeContent (gb : Gb18030) (data : List UInt8) :
    ∃ blanks, isBlank blanks = true ∧
      unifyLines false (decodeContent gb (.bytes data)) =
        decodeContent gb (.bytes (bomOf data ++ normalizeBytes data)) ++ blanks := by
  obtain ⟨blanks, hblanks, hunify⟩ := exists_unifyNewlines_eq data
  refine ⟨blanks.map byteChar, isBlank_map_byteChar hblanks, Option.some.inj ?_⟩
  have hutf8 := cutsAtBlanks_decodeUtf8.map_unifyLines hblanks hunify
  have hgb := (cutsAtBlanks_gb18030 gb).map_unifyLines hblanks hunify
  have hlatin := cutsAtBlanks_decodeLatin1.map_unifyLines hblanks hunify
  calc some (unifyLines false (decodeContent gb (.bytes data)))
      = (some (decodeContent gb (.bytes data))).map (unifyLines false) := rfl
    _ = (some (decodeContent gb (.bytes (bomOf data ++ normalizeBytes data)))).map
          (· ++ blanks.map byteChar) := by
        rw [decodeContent_bytes, decodeContent_bytes]
        simp only [Option.map_or, hutf8, hgb, hlatin]
    _ = _ := rfl

/-! ## The lines of a text with unified newlines -/

theorem splitlinesFrom_cons_of_ne (line : List Char) {c : Char} (hc : c ≠ '\r') (cs : List Char) :
    splitlinesFrom line (c :: cs) =
      if isLineBreak c then line :: splitlinesFrom [] cs else splitlinesFrom (line ++ [c]) cs :=
  (splitlinesFrom_cons line c cs).trans (if_neg fun h => hc h.1)

theorem splitlinesFrom_unifyLines (line text : List Char) :
    splitlinesFrom line (unifyLines false text) = splitlinesFrom line text := by
  induction text generalizing line with
  | nil => rfl
  | cons c cs ih =>
    unfold unifyLines at ih ⊢
    rw [unifyBreaks_cons, if_neg (by simp)]
    by_cases hc : c = '\r'
    · subst hc
      rw [if_pos rfl, splitlinesFrom_cons line '\r' cs]
      by_cases hpair : cs.head? = some '\n'
      · obtain ⟨rest, rfl⟩ : ∃ rest, cs = '\n' :: rest := by
          cases cs with
          | nil => cases hpair
          | cons c' rest => exact ⟨rest, congrArg (· :: rest) (Option.some.inj hpair)⟩
        rw [if_pos ⟨rfl, rfl⟩, ← ih line]
        rfl
      · have hkept : unifyBreaks '\r' '\n' true cs = unifyBreaks '\r' '\n' false cs := by
          cases cs with
          | nil => rfl
          | cons c' rest =>
            have hc' : c' ≠ '\n' := fun h => hpair (congrArg some h)
            simp [unifyBreaks_cons, hc']
        rw [if_neg fun h => hpair h.2, hkept, splitlinesFrom_cons_of_ne line (by decide), ih []]
        rfl
    · rw [if_neg hc, splitlinesFrom_cons_of_ne line hc, splitlinesFrom_cons_of_ne line hc, ih, ih]

theorem isBlank_unifyLines (afterCr : Bool) (text : List Char) :
    isBlank (unifyLines afterCr text) = isBlank text := by
  induction text generalizing afterCr with
  | nil => rfl
  | cons c text ih =>
    have hnewline : isWhitespace '\n' = true := rfl
    have hreturn : isWhitespace '\r' = true := rfl
    unfold isBlank unifyLines at ih ⊢
    rw [unifyBreaks_cons]
    split_ifs with hdropped hc
    · rw [ih, List.all_cons, hdropped.1, hnewline, Bool.true_and]
    · rw [List.all_cons, List.all_cons, ih, hc, hnewline, hreturn]
    · rw [List.all_cons, List.all_cons, ih]

end Ragx
