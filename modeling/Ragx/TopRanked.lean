import Mathlib.Data.List.Sort
import Ragx.BestPrefix

/-!
# The best of a list

The best `k` members of a list by a score, or all of them if there are fewer. Members of the same
score may stand for each other. Sorting and taking the first `k` finds the best, and the best of a
list are the best of every part of it that they all belong to.
-/
namespace Ragx

variable {α β : Type*} [LinearOrder β]

namespace IsBest

variable {score : α → β} {xs best : List α}

theorem subperm (h : IsBest score xs best) : best.Subperm xs := by
  obtain ⟨rest, hperm, _⟩ := h
  exact (List.sublist_append_left best rest).subperm.trans hperm.subperm

/-- Any arrangement of the list has the same best. -/
theorem of_perm {ys : List α} (h : IsBest score xs best) (hperm : xs.Perm ys) :
    IsBest score ys best := by
  obtain ⟨rest, hsplit, hsorted, hbelow⟩ := h
  exact ⟨rest, hsplit.trans hperm, hsorted, hbelow⟩

theorem filter {p : α → Bool} (h : IsBest score xs best) (hp : ∀ a ∈ best, p a = true) :
    IsBest score (xs.filter p) best := by
  obtain ⟨rest, hsplit, hsorted, hbelow⟩ := h
  have hpart := hsplit.filter p
  rw [List.filter_append, List.filter_eq_self.mpr hp] at hpart
  exact ⟨rest.filter p, hpart, hsorted, fun a ha b hb => hbelow a ha b (List.mem_of_mem_filter hb)⟩

theorem take_of_sorted (h : xs.Pairwise fun a b => score b ≤ score a) (k : ℕ) :
    IsBest score xs (xs.take k) := by
  refine ⟨xs.drop k, by rw [List.take_append_drop], h.sublist (List.take_sublist k xs), ?_⟩
  rw [← List.take_append_drop k xs, List.pairwise_append] at h
  exact h.2.2

end IsBest

/-- `best` are the best `k` members of `xs`, or all of them. -/
structure TopRanked (score : α → β) (k : ℕ) (xs best : List α) : Prop where
  isBest : IsBest score xs best
  length : best.length = min k xs.length

namespace TopRanked

variable {score : α → β} {k : ℕ} {xs best : List α}

theorem mem (h : TopRanked score k xs best) {a : α} (ha : a ∈ best) : a ∈ xs :=
  h.isBest.subperm.subset ha

theorem eq_nil_of_zero (h : TopRanked score 0 xs best) : best = [] :=
  List.length_eq_zero_iff.mp (h.length.trans (Nat.zero_min _))

/-- The best of a list are the best of its part that they all belong to. -/
theorem filter (h : TopRanked score k xs best) {p : α → Bool} (hp : ∀ a ∈ best, p a = true) :
    TopRanked score k (xs.filter p) best where
  isBest := h.isBest.filter hp
  length := by
    have hle := (h.isBest.filter hp).subperm.length_le
    have hwhole := List.length_filter_le p xs
    have hlength := h.length
    omega

/-- Pair each member with its score, sort by the scores and take the first. -/
theorem sort_take (score : α → β) (k : ℕ) (xs : List α) :
    TopRanked score k xs
      ((((xs.map fun x => (score x, x)).insertionSort fun a b => b.1 ≤ a.1).take k).map
        Prod.snd) := by
  have hperm := (xs.map fun x => (score x, x)).perm_insertionSort fun a b => b.1 ≤ a.1
  have hsorted := (xs.map fun x => (score x, x)).pairwise_insertionSort fun a b => b.1 ≤ a.1
  have hscored : ∀ p ∈ (xs.map fun x => (score x, x)).insertionSort fun a b => b.1 ≤ a.1,
      p.1 = score p.2 := by
    intro p hp
    obtain ⟨x, _, rfl⟩ := List.mem_map.mp (hperm.mem_iff.mp hp)
    rfl
  have hback : (((xs.map fun x => (score x, x)).insertionSort fun a b => b.1 ≤ a.1).map
      Prod.snd).Perm xs := by
    have hmembers : (xs.map fun x => (score x, x)).map Prod.snd = xs := by
      rw [List.map_map]
      exact List.map_id xs
    exact (hperm.map Prod.snd).trans (List.Perm.of_eq hmembers)
  rw [List.map_take]
  refine ⟨(IsBest.take_of_sorted ?_ k).of_perm hback, ?_⟩
  · rw [List.pairwise_map]
    refine hsorted.imp_of_mem fun ha hb hle => ?_
    rwa [← hscored _ ha, ← hscored _ hb]
  · rw [List.length_take, hback.length_eq]

/-- All of the best have a property of the high scores exactly if no member lacks it, or enough
have it. -/
theorem forall_best_iff {p : α → Prop} [DecidablePred p] (h : TopRanked score k xs best)
    (hp : ∀ a b, score a ≤ score b → p a → p b) :
    (∀ a ∈ best, p a) ↔ ∀ a ∈ xs, ¬ p a → k ≤ xs.countP fun x => p x := by
  have hlength := h.length
  obtain ⟨⟨rest, hsplit, _, hbelow⟩, _⟩ := h
  have hwhole : xs.length = best.length + rest.length := by
    rw [← hsplit.length_eq, List.length_append]
  have hcount : xs.countP (fun x => p x) =
      best.countP (fun x => p x) + rest.countP fun x => p x := by
    rw [← hsplit.countP_eq, List.countP_append]
  constructor
  · intro hall a ha hno
    have hrest : a ∈ rest := by
      rcases List.mem_append.mp (hsplit.mem_iff.mpr ha) with hbest | hrest
      · exact absurd (hall a hbest) hno
      · exact hrest
    have hpos := List.length_pos_of_mem hrest
    have hbest : best.countP (fun x => p x) = best.length :=
      List.countP_eq_length.mpr fun b hb => decide_eq_true (hall b hb)
    omega
  · intro henough b hb
    by_contra hno
    have hrest : rest.countP (fun x => p x) = 0 := by
      refine List.countP_eq_zero.mpr fun c hc hpc => hno ?_
      exact hp c b (hbelow b hb c hc) (of_decide_eq_true hpc)
    have hbest : best.countP (fun x => p x) < best.length := by
      refine lt_of_le_of_ne List.countP_le_length fun heq => hno ?_
      exact of_decide_eq_true (List.countP_eq_length.mp heq b hb)
    have hk := henough b (hsplit.mem_iff.mp (List.mem_append_left _ hb)) hno
    omega

end TopRanked

end Ragx
