import Mathlib.Data.List.Perm.Basic
import Mathlib.Order.Lattice
import Mathlib.Order.Monotone.Basic

/-!
# Best prefixes of a scored list

`IsBest` says that a list holds the best-scoring members of another list in
non-increasing score. A prefix of a list has this property exactly when the
scores of the list are themselves ranked as far as the prefix reaches.
-/
namespace Ragx

variable {α β : Type*} [LinearOrder β]

/-- `best` splits off from `xs`, is in non-increasing score, and nothing that
is left over scores higher than a member of `best`. -/
def IsBest (score : α → β) (xs best : List α) : Prop :=
  ∃ rest, (best ++ rest).Perm xs ∧ best.Pairwise (fun a b => score b ≤ score a) ∧
    ∀ a ∈ best, ∀ b ∈ rest, score b ≤ score a

/-- The first `k` scores are at least as large as every score after them. -/
def HeadDominates (k : ℕ) (scores : List β) : Prop :=
  ∀ a ∈ scores.take k, ∀ b ∈ scores.drop k, b ≤ a

instance (k : ℕ) (scores : List β) : Decidable (HeadDominates k scores) :=
  inferInstanceAs (Decidable (∀ a ∈ scores.take k, ∀ b ∈ scores.drop k, b ≤ a))

/-- The first `k` scores dominate the rest and are ranked among themselves. -/
def RankedHead (k : ℕ) (scores : List β) : Prop :=
  (scores.take k).Pairwise (fun a b => b ≤ a) ∧ HeadDominates k scores

instance (k : ℕ) (scores : List β) : Decidable (RankedHead k scores) :=
  inferInstanceAs (Decidable (_ ∧ _))

theorem headDominates_map (score : α → β) (k : ℕ) (xs : List α) :
    HeadDominates k (xs.map score) ↔
      ∀ a ∈ xs.take k, ∀ b ∈ xs.drop k, score b ≤ score a := by
  simp [HeadDominates, ← List.map_take, ← List.map_drop]

/-- A prefix is the best part of a list iff the list is ranked up to its end. -/
theorem isBest_take_iff (score : α → β) (k : ℕ) (xs : List α) :
    IsBest score xs (xs.take k) ↔ RankedHead k (xs.map score) := by
  rw [RankedHead, headDominates_map, ← List.map_take, List.pairwise_map]
  constructor
  · rintro ⟨rest, hperm, hsorted, hbelow⟩
    have hrest : rest.Perm (xs.drop k) := by
      rw [← List.perm_append_left_iff (xs.take k), List.take_append_drop]
      exact hperm
    exact ⟨hsorted, fun a ha b hb => hbelow a ha b (hrest.mem_iff.mpr hb)⟩
  · rintro ⟨hsorted, hbelow⟩
    exact ⟨xs.drop k, by rw [List.take_append_drop], hsorted, hbelow⟩

/-- Increasing transformations of the scores keep a head ranked. -/
theorem rankedHead_map {γ : Type*} [LinearOrder γ] {g : β → γ} (hg : StrictMono g) (k : ℕ)
    (scores : List β) : RankedHead k (scores.map g) ↔ RankedHead k scores := by
  simp [RankedHead, HeadDominates, ← List.map_take, ← List.map_drop, List.pairwise_map,
    hg.le_iff_le]

theorem headDominates_map_iff {γ : Type*} [LinearOrder γ] {g : β → γ} (hg : StrictMono g)
    (k : ℕ) (scores : List β) : HeadDominates k (scores.map g) ↔ HeadDominates k scores := by
  simp [HeadDominates, ← List.map_take, ← List.map_drop, hg.le_iff_le]

end Ragx
