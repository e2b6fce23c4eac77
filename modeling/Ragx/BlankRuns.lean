import Mathlib.Data.List.Chain
import Mathlib.Data.List.DropRight
import Mathlib.Data.List.Induction
import Mathlib.Tactic.SplitIfs

/-!
# Runs of blanks

Trimming takes the blanks off both ends of a list, and collapsing puts one separator in the
place of every run of blanks. A collapsed list is its trimmed core with at most one separator
at either end, so that two of them are equal when their cores and their ends agree.
-/
namespace Ragx

namespace BlankRuns

variable {α : Type*} (blank : α → Bool)

def trim (l : List α) : List α := (l.dropWhile blank).rdropWhile blank

def startsBlank (l : List α) : Bool := l.head?.any blank

def endsBlank (l : List α) : Bool := l.getLast?.any blank

variable (sep : α)

/-- The flag says that the run of blanks before has its separator. -/
def collapse : Bool → List α → List α
  | _, [] => []
  | opened, a :: l =>
    if blank a then
      if opened then collapse true l else sep :: collapse true l
    else a :: collapse false l

/-- No two blanks in a row, and no blank but the separator. -/
structure Collapsed (l : List α) : Prop where
  blank_eq : ∀ a ∈ l, blank a = true → a = sep
  apart : l.IsChain fun a b => ¬ (blank a = true ∧ blank b = true)

variable {blank sep}

/-! ## Trimming -/

theorem trim_append_left {w : List α} (hw : ∀ a ∈ w, blank a = true) (l : List α) :
    trim blank (w ++ l) = trim blank l := by
  rw [trim, List.dropWhile_append_of_pos hw, trim]

theorem rdropWhile_append_right (l : List α) {w : List α} (hw : ∀ a ∈ w, blank a = true) :
    (l ++ w).rdropWhile blank = l.rdropWhile blank := by
  rw [List.rdropWhile, List.reverse_append, List.dropWhile_append_of_pos, List.rdropWhile]
  exact fun a ha => hw a (List.mem_reverse.mp ha)

theorem trim_append_right (l : List α) {w : List α} (hw : ∀ a ∈ w, blank a = true) :
    trim blank (l ++ w) = trim blank l := by
  by_cases hl : ∀ a ∈ l, blank a = true
  · rw [trim_append_left hl, trim, trim, List.dropWhile_eq_nil_iff.mpr hw,
      List.dropWhile_eq_nil_iff.mpr hl]
  · have hdrop : (l ++ w).dropWhile blank = l.dropWhile blank ++ w := by
      rw [List.dropWhile_append, if_neg]
      simpa using hl
    rw [trim, trim, hdrop, rdropWhile_append_right _ hw]

variable (blank) in
/-- What trimming takes off. -/
theorem exists_append_trim (l : List α) :
    ∃ w w', l = w ++ trim blank l ++ w' ∧ (∀ a ∈ w, blank a = true) ∧
      ∀ a ∈ w', blank a = true := by
  refine ⟨l.takeWhile blank, (l.dropWhile blank).rtakeWhile blank, ?_,
    fun a ha => List.mem_takeWhile_imp ha, fun a ha => List.mem_rtakeWhile_imp ha⟩
  rw [trim, List.append_assoc, List.rdropWhile_append_rtakeWhile, List.takeWhile_append_dropWhile]

theorem rdropWhile_eq_self {l : List α} (hend : endsBlank blank l = false) :
    l.rdropWhile blank = l := by
  rw [List.rdropWhile_eq_self_iff]
  intro h
  rw [endsBlank, List.getLast?_eq_some_getLast h] at hend
  simpa using hend

theorem rdropWhile_append_blanks {l w : List α} (hend : endsBlank blank l = false)
    (hw : ∀ a ∈ w, blank a = true) : (l ++ w).rdropWhile blank = l := by
  rw [rdropWhile_append_right l hw, rdropWhile_eq_self hend]

/-- What stands before the last blanks is determined. -/
theorem append_blanks_inj {l l' w w' : List α} (hend : endsBlank blank l = false)
    (hend' : endsBlank blank l' = false) (hw : ∀ a ∈ w, blank a = true)
    (hw' : ∀ a ∈ w', blank a = true) (h : l ++ w = l' ++ w') : l = l' ∧ w = w' := by
  have hl : l = l' := by
    rw [← rdropWhile_append_blanks hend hw, h, rdropWhile_append_blanks hend' hw']
  subst hl
  exact ⟨rfl, List.append_cancel_left h⟩

theorem trim_eq_self {l : List α} (hstart : startsBlank blank l = false)
    (hend : endsBlank blank l = false) : trim blank l = l := by
  cases l with
  | nil => rfl
  | cons a l =>
    have ha : ¬ blank a = true := by simpa [startsBlank] using hstart
    rw [trim, List.dropWhile_cons_of_neg ha, rdropWhile_eq_self hend]

variable (blank) in
theorem startsBlank_trim (l : List α) : startsBlank blank (trim blank l) = false := by
  obtain ⟨w, hw⟩ := List.rdropWhile_prefix blank (l.dropWhile blank)
  rw [startsBlank, trim]
  cases htrim : (l.dropWhile blank).rdropWhile blank with
  | nil => rfl
  | cons a rest =>
    rw [htrim] at hw
    have hhead := List.head?_dropWhile_not blank l
    rw [← hw, List.cons_append, List.head?_cons] at hhead
    simpa using hhead

variable (blank) in
theorem endsBlank_rdropWhile (l : List α) : endsBlank blank (l.rdropWhile blank) = false := by
  by_cases h : l.rdropWhile blank = []
  · rw [h]
    rfl
  · rw [endsBlank, List.getLast?_eq_some_getLast h]
    simpa using List.rdropWhile_last_not blank l h

variable (blank) in
theorem endsBlank_trim (l : List α) : endsBlank blank (trim blank l) = false :=
  endsBlank_rdropWhile blank (l.dropWhile blank)

/-! ## Collapsing -/

section Collapse

theorem collapse_of_not_starts {opened : Bool} {l : List α} (h : startsBlank blank l = false) :
    collapse blank sep opened l = collapse blank sep false l := by
  cases l with
  | nil => rfl
  | cons a l =>
    have ha : ¬ blank a = true := by simpa [startsBlank] using h
    rw [collapse, collapse, if_neg ha, if_neg ha]

theorem collapse_run {w : List α} (hne : w ≠ []) (hw : ∀ a ∈ w, blank a = true) (opened : Bool)
    (l : List α) : collapse blank sep opened (w ++ l) =
      if opened then collapse blank sep true l else sep :: collapse blank sep true l := by
  induction w generalizing opened with
  | nil => exact absurd rfl hne
  | cons a w ih =>
    have ha : blank a = true := hw a List.mem_cons_self
    rw [List.cons_append, collapse, if_pos ha]
    by_cases hnil : w = []
    · rw [hnil, List.nil_append]
    · rw [ih hnil (fun b hb => hw b (List.mem_cons_of_mem a hb)) true, if_pos rfl]

/-- How long a run of blanks is does not matter. -/
theorem collapse_resize {w w' : List α} (hne : w ≠ []) (hne' : w' ≠ [])
    (hw : ∀ a ∈ w, blank a = true) (hw' : ∀ a ∈ w', blank a = true) (opened : Bool)
    (before after : List α) : collapse blank sep opened (before ++ w ++ after) =
      collapse blank sep opened (before ++ w' ++ after) := by
  induction before generalizing opened with
  | nil => rw [List.nil_append, List.nil_append, collapse_run hne hw, collapse_run hne' hw']
  | cons b before ih =>
    rw [List.cons_append, List.cons_append, List.cons_append, List.cons_append, collapse, collapse,
      ih, ih]

theorem blank_of_mem_collapse {opened : Bool} {l : List α} {a : α}
    (ha : a ∈ collapse blank sep opened l) : a = sep ∨ a ∈ l ∧ ¬ blank a = true := by
  induction l generalizing opened with
  | nil => exact absurd ha List.not_mem_nil
  | cons b l ih =>
    have hlater {opened : Bool} (h : a ∈ collapse blank sep opened l) :
        a = sep ∨ a ∈ b :: l ∧ ¬ blank a = true :=
      (ih h).imp_right fun h => ⟨List.mem_cons_of_mem b h.1, h.2⟩
    rw [collapse] at ha
    split_ifs at ha with hb
    · exact hlater ha
    · rcases List.mem_cons.mp ha with rfl | ha
      · exact Or.inl rfl
      · exact hlater ha
    · rcases List.mem_cons.mp ha with rfl | ha
      · exact Or.inr ⟨List.mem_cons_self, hb⟩
      · exact hlater ha

variable (blank) in
/-- What the list so far ends with decides whether another blank has its separator. -/
def opens (opened : Bool) (l : List α) : Bool := (l.getLast?.map blank).getD opened

theorem opens_cons (opened : Bool) (b : α) (l : List α) :
    opens blank opened (b :: l) = opens blank (blank b) l := by
  cases h : l.getLast? with
  | none => simp [opens, List.getLast?_cons, h]
  | some a => simp [opens, List.getLast?_cons, h]

theorem collapse_concat (opened : Bool) (l : List α) (a : α) :
    collapse blank sep opened (l ++ [a]) = collapse blank sep opened l ++
      if blank a then (if opens blank opened l then [] else [sep]) else [a] := by
  induction l generalizing opened with
  | nil =>
    rw [List.nil_append, collapse, collapse, collapse, collapse, List.nil_append]
    rfl
  | cons b l ih =>
    rw [opens_cons, List.cons_append, collapse, collapse, ih, ih]
    by_cases hb : blank b
    · rw [if_pos hb, if_pos hb, hb]
      split_ifs <;> rfl
    · rw [if_neg hb, if_neg hb, Bool.eq_false_iff.mpr hb]
      rfl

variable (hsep : blank sep = true)

include hsep

theorem trim_collapse_opened (opened : Bool) (l : List α) :
    trim blank (collapse blank sep opened l) = trim blank (collapse blank sep false l) := by
  cases opened with
  | false => rfl
  | true =>
    cases l with
    | nil => rfl
    | cons a l =>
      rw [collapse, collapse]
      by_cases ha : blank a
      · rw [if_pos ha, if_pos ha, if_pos rfl, if_neg Bool.false_ne_true]
        exact (trim_append_left (w := [sep]) (by simpa using hsep) _).symm
      · rw [if_neg ha, if_neg ha]

/-- Blanks at the ends do not change the core. -/
theorem trim_collapse_append_left {w : List α} (hw : ∀ a ∈ w, blank a = true) (l : List α) :
    trim blank (collapse blank sep false (w ++ l)) = trim blank (collapse blank sep false l) := by
  by_cases hne : w = []
  · rw [hne, List.nil_append]
  · rw [collapse_run hne hw, if_neg Bool.false_ne_true, ← trim_collapse_opened hsep true l]
    exact trim_append_left (w := [sep]) (by simpa using hsep) _

theorem trim_collapse_append_right (l : List α) {w : List α} (hw : ∀ a ∈ w, blank a = true) :
    trim blank (collapse blank sep false (l ++ w)) = trim blank (collapse blank sep false l) := by
  induction w using List.reverseRecOn with
  | nil => rw [List.append_nil]
  | append_singleton w a ih =>
    rw [List.forall_mem_append, List.forall_mem_singleton] at hw
    rw [← List.append_assoc, collapse_concat, if_pos hw.2, ← ih hw.1]
    refine trim_append_right _ fun b hb => ?_
    split_ifs at hb
    · exact absurd hb List.not_mem_nil
    · rw [List.mem_singleton.mp hb]
      exact hsep

theorem startsBlank_collapse (l : List α) :
    startsBlank blank (collapse blank sep false l) = startsBlank blank l := by
  cases l with
  | nil => rfl
  | cons a l =>
    rw [collapse]
    by_cases ha : blank a
    · rw [if_pos ha, if_neg Bool.false_ne_true]
      exact hsep.trans ha.symm
    · rw [if_neg ha]
      rfl

theorem endsBlank_collapse (l : List α) :
    endsBlank blank (collapse blank sep false l) = endsBlank blank l := by
  induction l using List.reverseRecOn with
  | nil => rfl
  | append_singleton l a ih =>
    rw [collapse_concat]
    by_cases ha : blank a
    · have hends : endsBlank blank (l ++ [a]) = true := by simp [endsBlank, ha]
      rw [if_pos ha, hends]
      split_ifs with hopen
      · rw [List.append_nil, ih]
        cases hlast : l.getLast? with
        | none => simp [opens, hlast] at hopen
        | some b => simpa [opens, endsBlank, hlast] using hopen
      · simp [endsBlank, hsep]
    · simp [endsBlank, ha]

theorem collapsed_collapse (l : List α) : Collapsed blank sep (collapse blank sep false l) where
  blank_eq a ha hblank := (blank_of_mem_collapse ha).resolve_right fun h => h.2 hblank
  apart := by
    induction l using List.reverseRecOn with
    | nil => exact List.IsChain.nil
    | append_singleton l a ih =>
      have hends := endsBlank_collapse hsep l
      rw [collapse_concat]
      split_ifs with ha hopen
      · rwa [List.append_nil]
      · -- a separator comes only behind something that is no blank
        refine ih.append (List.isChain_singleton sep) fun b hb c _ hboth => hopen ?_
        rw [endsBlank, Option.mem_def.mp hb, Option.any_some, hboth.1, endsBlank] at hends
        cases hlast : l.getLast? with
        | none => simp [hlast] at hends
        | some d => simpa [opens, hlast] using hends.symm
      · refine ih.append (List.isChain_singleton a) fun b _ c hc hboth => ha ?_
        rw [List.head?_singleton, Option.mem_some_iff] at hc
        exact hc ▸ hboth.2

omit hsep in
theorem collapse_of_collapsed {l : List α} (h : Collapsed blank sep l) :
    collapse blank sep false l = l := by
  obtain ⟨hsep, hapart⟩ := h
  induction l with
  | nil => rfl
  | cons a l ih =>
    have hrest := ih (fun b hb => hsep b (List.mem_cons_of_mem a hb)) hapart.tail
    rw [collapse]
    by_cases ha : blank a
    · have hnext : startsBlank blank l = false := by
        cases l with
        | nil => rfl
        | cons b l =>
          have hb := (List.isChain_cons_cons.mp hapart).1
          exact Bool.eq_false_iff.mpr fun h => hb ⟨ha, h⟩
      rw [if_pos ha, if_neg Bool.false_ne_true, collapse_of_not_starts hnext, hrest,
        hsep a List.mem_cons_self ha]
    · rw [if_neg ha, hrest]

end Collapse

/-! ## Cores and ends -/

section Ends

variable {l l' : List α}

/-- A run of blanks in a collapsed list is one separator. -/
theorem Collapsed.run_eq {w : List α} (h : Collapsed blank sep w)
    (hw : ∀ a ∈ w, blank a = true) : w = [] ∨ w = [sep] := by
  cases w with
  | nil => exact Or.inl rfl
  | cons a w =>
    cases w with
    | nil => exact Or.inr (congrArg (fun x => [x]) (h.blank_eq a List.mem_cons_self (by simp_all)))
    | cons b w =>
      refine absurd ?_ (List.isChain_cons_cons.mp h.apart).1
      exact ⟨hw a List.mem_cons_self, hw b (List.mem_cons_of_mem a List.mem_cons_self)⟩

theorem Collapsed.part {w : List α} (h : Collapsed blank sep l) (hw : w <:+: l) :
    Collapsed blank sep w :=
  ⟨fun a ha => h.blank_eq a (hw.subset ha), List.IsChain.infix h.apart hw⟩

theorem startsBlank_append {w : List α} (hw : w ≠ []) (l : List α) :
    startsBlank blank (w ++ l) = startsBlank blank w := by
  cases w with
  | nil => exact absurd rfl hw
  | cons a w => rfl

theorem endsBlank_append {w : List α} (hw : w ≠ []) (l : List α) :
    endsBlank blank (l ++ w) = endsBlank blank w := by
  rw [endsBlank, List.getLast?_append_of_ne_nil l hw, endsBlank]

/-- A collapsed list is its core with a separator at the ends that have a blank. -/
theorem Collapsed.eq_core (h : Collapsed blank sep l) : l =
    if trim blank l = [] then (if startsBlank blank l then [sep] else [])
    else (if startsBlank blank l then [sep] else []) ++ trim blank l ++
      if endsBlank blank l then [sep] else [] := by
  obtain ⟨w, w', heq, hw, hw'⟩ := exists_append_trim blank l
  by_cases hcore : trim blank l = []
  · have hall : ∀ a ∈ l, blank a = true := by
      rw [heq, hcore, List.append_nil, List.forall_mem_append]
      exact ⟨hw, hw'⟩
    rw [if_pos hcore]
    rcases h.run_eq hall with rfl | rfl
    · rfl
    · rw [startsBlank, List.head?_cons, Option.any_some, hall sep List.mem_cons_self, if_pos rfl]
  · have hleft : w <:+: l :=
      ⟨[], trim blank l ++ w', by rw [List.nil_append, ← List.append_assoc, ← heq]⟩
    have hright : w' <:+: l := ⟨w ++ trim blank l, [], by rw [List.append_nil, ← heq]⟩
    have hstart : (if startsBlank blank l then [sep] else []) = w := by
      have hl : startsBlank blank l = startsBlank blank (w ++ (trim blank l ++ w')) := by
        rw [← List.append_assoc, ← heq]
      rcases (h.part hleft).run_eq hw with rfl | rfl
      · rw [hl, List.nil_append, startsBlank_append hcore, startsBlank_trim,
          if_neg Bool.false_ne_true]
      · rw [hl, startsBlank, List.singleton_append, List.head?_cons, Option.any_some,
          hw sep List.mem_cons_self, if_pos rfl]
    have hend : (if endsBlank blank l then [sep] else []) = w' := by
      have hl : endsBlank blank l = endsBlank blank (w ++ trim blank l ++ w') := by rw [← heq]
      rcases (h.part hright).run_eq hw' with rfl | rfl
      · rw [hl, List.append_nil, endsBlank_append hcore, endsBlank_trim, if_neg Bool.false_ne_true]
      · rw [hl, endsBlank, List.getLast?_concat, Option.any_some, hw' sep List.mem_cons_self,
          if_pos rfl]
    rw [if_neg hcore, hstart, hend]
    exact heq

/-- Two collapsed lists are equal when their cores and their ends agree. -/
theorem Collapsed.eq_iff (h : Collapsed blank sep l) (h' : Collapsed blank sep l')
    (hcore : trim blank l = trim blank l') : l = l' ↔
      (startsBlank blank l = startsBlank blank l' ∧ endsBlank blank l = endsBlank blank l') := by
  constructor
  · rintro rfl
    exact ⟨rfl, rfl⟩
  · rintro ⟨hstarts, hends⟩
    rw [h.eq_core, h'.eq_core, hcore, hstarts, hends]

end Ends

end BlankRuns

end Ragx
