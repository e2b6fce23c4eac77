import Mathlib.Algebra.GroupWithZero.Nat
import Mathlib.Data.List.Flatten
import Mathlib.Data.List.Sublists
import Mathlib.Tactic.SplitIfs

/-!
# Outlines

Headings of ranks `0, 1, …` in a row. A heading encloses what comes behind it up to the next
heading of its rank or of a higher, smaller one. A stack that is cut by position instead of by
rank holds these headings and perhaps more: ranks that are skipped leave positions behind at
which a later heading does not cut.
-/
namespace Ragx.Outlines

variable {α : Type*} (rank : α → ℕ)

/-- The headings that are not followed by one of the same or a higher rank. -/
def enclosing : List α → List α
  | [] => []
  | h :: hs => if ∃ g ∈ hs, rank g ≤ rank h then enclosing hs else h :: enclosing hs

/-- The stack after one more heading: it is put at the position of its rank, or as far behind
as there are headings. -/
def push (stack : List α) (h : α) : List α := stack.take (rank h) ++ [h]

/-- The headings that stay on a stack with `depth` headings below them. -/
def staying (depth : ℕ) : List α → List α
  | [] => []
  | h :: hs =>
    let position := min depth (rank h)
    if ∃ g ∈ hs, rank g ≤ position then staying (position + 1) hs
    else h :: staying (position + 1) hs

/-- A heading that is followed by one of its rank, or of a higher one, is followed by one whose
rank is no greater than its position. -/
def Settled (depth : ℕ) : List α → Prop
  | [] => True
  | h :: hs =>
    let position := min depth (rank h)
    ((∃ g ∈ hs, rank g ≤ rank h) → ∃ g ∈ hs, rank g ≤ position) ∧ Settled (position + 1) hs

instance decidableSettled : ∀ (depth : ℕ) (hs : List α), Decidable (Settled rank depth hs)
  | _, [] => isTrue trivial
  | depth, h :: hs =>
    have := decidableSettled (min depth (rank h) + 1) hs
    inferInstanceAs (Decidable ((_ → _) ∧ _))

/-! ## Enclosing headings -/

theorem enclosing_sublist (hs : List α) : (enclosing rank hs).Sublist hs := by
  induction hs with
  | nil => exact List.Sublist.slnil
  | cons h hs ih =>
    rw [enclosing]
    split_ifs
    · exact ih.cons h
    · exact ih.cons_cons h

/-- Ranks along the chain increase. -/
theorem pairwise_enclosing (hs : List α) :
    (enclosing rank hs).Pairwise fun h g => rank h < rank g := by
  induction hs with
  | nil => exact List.Pairwise.nil
  | cons h hs ih =>
    rw [enclosing]
    split_ifs with hcut
    · exact ih
    · refine List.pairwise_cons.mpr ⟨fun g hg => ?_, ih⟩
      have hmem := (enclosing_sublist rank hs).subset hg
      exact lt_of_not_ge fun hle => hcut ⟨g, hmem, hle⟩

theorem enclosing_ne_nil {hs : List α} (h : hs ≠ []) : enclosing rank hs ≠ [] := by
  induction hs with
  | nil => exact absurd rfl h
  | cons h' hs ih =>
    rw [enclosing]
    split_ifs with hcut
    · obtain ⟨g, hg, _⟩ := hcut
      exact ih (List.ne_nil_of_mem hg)
    · exact List.cons_ne_nil h' _

/-! ## The stack -/

/-- How much of a stack the headings leave. -/
def lowest (size : ℕ) (hs : List α) : ℕ := hs.foldl (fun n h => min n (rank h)) size

theorem lowest_cons (size : ℕ) (h : α) (hs : List α) :
    lowest rank size (h :: hs) = lowest rank (min size (rank h)) hs := rfl

theorem lowest_le (size : ℕ) (hs : List α) : lowest rank size hs ≤ size := by
  induction hs generalizing size with
  | nil => exact le_rfl
  | cons h hs ih => exact (ih _).trans (min_le_left _ _)

theorem lowest_of_forall_le {size : ℕ} {hs : List α} (h : ∀ g ∈ hs, size ≤ rank g) :
    lowest rank size hs = size := by
  induction hs with
  | nil => rfl
  | cons g hs ih =>
    obtain ⟨hg, hrest⟩ := List.forall_mem_cons.mp h
    rw [lowest_cons, min_eq_left hg, ih hrest]

/-- A heading that cuts below the last position cuts it off. -/
theorem lowest_succ {size : ℕ} {hs : List α} (h : ∃ g ∈ hs, rank g ≤ size) :
    lowest rank (size + 1) hs = lowest rank size hs := by
  induction hs with
  | nil =>
    obtain ⟨g, hg, _⟩ := h
    exact absurd hg List.not_mem_nil
  | cons g hs ih =>
    rw [lowest_cons, lowest_cons]
    by_cases hg : rank g ≤ size
    · rw [min_eq_right hg, min_eq_right (hg.trans size.le_succ)]
    · have hlarge : size + 1 ≤ rank g := not_le.mp hg
      rw [min_eq_left hlarge, min_eq_left (size.le_succ.trans hlarge)]
      obtain ⟨g', hmem, hg'⟩ := h
      rcases List.mem_cons.mp hmem with rfl | hmem
      · exact absurd hg' hg
      · exact ih ⟨g', hmem, hg'⟩

theorem length_push (stack : List α) (h : α) :
    (push rank stack h).length = min stack.length (rank h) + 1 := by
  rw [push, List.length_append, List.length_take, min_comm, List.length_singleton]

theorem foldl_push (stack hs : List α) :
    hs.foldl (push rank) stack =
      stack.take (lowest rank stack.length hs) ++ staying rank stack.length hs := by
  induction hs generalizing stack with
  | nil => simp [lowest, staying]
  | cons h hs ih =>
    have htake : stack.take (min stack.length (rank h)) = stack.take (rank h) := by
      rw [min_comm, ← List.take_take, List.take_length]
    rw [List.foldl_cons, ih, length_push, staying, lowest_cons]
    split_ifs with hcut
    · have hle := lowest_le rank (min stack.length (rank h)) hs
      rw [lowest_succ rank hcut, push, List.take_append_of_le_length, List.take_take,
        min_eq_left (hle.trans (min_le_right _ _))]
      rw [List.length_take]
      exact hle.trans_eq (min_comm _ _)
    · have hall : ∀ g ∈ hs, min stack.length (rank h) + 1 ≤ rank g := fun g hg =>
        not_le.mp fun hle => hcut ⟨g, hg, hle⟩
      rw [lowest_of_forall_le rank hall,
        lowest_of_forall_le rank fun g hg => (Nat.le_succ _).trans (hall g hg), htake,
        ← length_push, List.take_length, push, List.append_assoc, List.singleton_append]

theorem foldl_push_nil (hs : List α) : hs.foldl (push rank) [] = staying rank 0 hs := by
  rw [foldl_push, List.take_nil, List.nil_append, List.length_nil]

/-! ## Both -/

/-- The stack holds every heading that encloses. -/
theorem enclosing_sublist_staying (depth : ℕ) (hs : List α) :
    (enclosing rank hs).Sublist (staying rank depth hs) := by
  induction hs generalizing depth with
  | nil => exact List.Sublist.slnil
  | cons h hs ih =>
    rw [enclosing, staying]
    split_ifs with hrank hposition hposition
    · exact ih _
    · exact (ih _).cons h
    · obtain ⟨g, hg, hle⟩ := hposition
      exact absurd ⟨g, hg, hle.trans (min_le_right _ _)⟩ hrank
    · exact (ih _).cons_cons h

theorem staying_eq_enclosing_iff (depth : ℕ) (hs : List α) :
    staying rank depth hs = enclosing rank hs ↔ Settled rank depth hs := by
  induction hs generalizing depth with
  | nil => exact iff_of_true rfl trivial
  | cons h hs ih =>
    rw [staying, enclosing, Settled]
    split_ifs with hposition hrank hrank
    · exact (ih _).trans (and_iff_right fun _ => hposition).symm
    · obtain ⟨g, hg, hle⟩ := hposition
      exact absurd ⟨g, hg, hle.trans (min_le_right _ _)⟩ hrank
    · refine iff_of_false (fun heq => ?_) fun hsettled => hposition (hsettled.1 hrank)
      have hlength := (enclosing_sublist_staying rank (min depth (rank h) + 1) hs).length_le
      have hsame := congrArg List.length heq
      rw [List.length_cons] at hsame
      omega
    · rw [List.cons.injEq, ih]
      exact ⟨fun hsame => ⟨fun hcut => absurd hcut hrank, hsame.2⟩,
        fun hsettled => ⟨rfl, hsettled.2⟩⟩

/-- The enclosing headings do not depend on how ranks are numbered. -/
theorem enclosing_congr {rank' : α → ℕ} {hs : List α}
    (h : ∀ a ∈ hs, ∀ b ∈ hs, rank a ≤ rank b ↔ rank' a ≤ rank' b) :
    enclosing rank hs = enclosing rank' hs := by
  induction hs with
  | nil => rfl
  | cons a hs ih =>
    have hrest := ih fun b hb c hc =>
      h b (List.mem_cons_of_mem a hb) c (List.mem_cons_of_mem a hc)
    have hcut : (∃ g ∈ hs, rank g ≤ rank a) ↔ ∃ g ∈ hs, rank' g ≤ rank' a :=
      exists_congr fun g => and_congr_right fun hg =>
        h g (List.mem_cons_of_mem a hg) a List.mem_cons_self
    simp only [enclosing, hcut, hrest]

/-! ## Joined paths -/

theorem length_intercalate_cons {β : Type*} (sep part : List β) (parts : List (List β)) :
    (sep.intercalate (part :: parts)).length + sep.length =
      ((part :: parts).map fun p => sep.length + p.length).sum := by
  induction parts generalizing part with
  | nil => simp [List.intercalate_singleton, Nat.add_comm]
  | cons next parts ih =>
    rw [List.intercalate_cons_cons, List.map_cons, List.sum_cons, ← ih next]
    simp only [List.length_append]
    omega

theorem sum_length_add_le_of_sublist {β : Type*} {sep : List β} (hsep : sep ≠ [])
    {parts parts' : List (List β)} (h : parts.Sublist parts') :
    (parts.map fun p => sep.length + p.length).sum + parts'.length ≤
      (parts'.map fun p => sep.length + p.length).sum + parts.length := by
  have hpos : 0 < sep.length := List.length_pos_iff.mpr hsep
  induction h with
  | slnil => exact le_rfl
  | cons part _ ih =>
    simp only [List.map_cons, List.sum_cons, List.length_cons]
    omega
  | cons_cons part _ ih =>
    simp only [List.map_cons, List.sum_cons, List.length_cons]
    omega

/-- Parts that are left out show in the joined text. -/
theorem eq_of_intercalate_eq {β : Type*} {sep : List β} (hsep : sep ≠ [])
    {parts parts' : List (List β)} (hsub : parts.Sublist parts') (hne : parts ≠ [])
    (h : sep.intercalate parts = sep.intercalate parts') : parts = parts' := by
  have hne' : parts' ≠ [] := fun hnil => hne (List.sublist_nil.mp (hnil ▸ hsub))
  refine hsub.eq_of_length_le ?_
  have hsums := sum_length_add_le_of_sublist hsep hsub
  obtain ⟨part, parts, rfl⟩ := List.exists_cons_of_ne_nil hne
  obtain ⟨part', parts', rfl⟩ := List.exists_cons_of_ne_nil hne'
  rw [← length_intercalate_cons, ← length_intercalate_cons, h] at hsums
  omega

end Ragx.Outlines
