import Mathlib.Algebra.BigOperators.Fin
import Mathlib.Algebra.Order.BigOperators.Ring.Finset
import Mathlib.Analysis.Real.Sqrt

/-!
# Cosines of lists

The cosine of two vectors over the reals, from sums that one loop adds up. It lies between minus
one and one, and it has the sign of the dot product.
-/
namespace Ragx

/-- The sums of the products, of the first squares and of the second squares. -/
structure PairSums where
  dot : ℚ
  left : ℚ
  right : ℚ

namespace PairSums

def add (s : PairSums) (p : ℚ × ℚ) : PairSums where
  dot := s.dot + p.1 * p.2
  left := s.left + p.1 * p.1
  right := s.right + p.2 * p.2

/-- The loop of `cosine_similarity`. -/
def ofLists (a b : List ℚ) : PairSums := (a.zip b).foldl add ⟨0, 0, 0⟩

theorem foldl_add (ps : List (ℚ × ℚ)) (s : PairSums) :
    ps.foldl add s = ⟨s.dot + (ps.map fun p => p.1 * p.2).sum,
      s.left + (ps.map fun p => p.1 * p.1).sum, s.right + (ps.map fun p => p.2 * p.2).sum⟩ := by
  induction ps generalizing s with
  | nil => simp
  | cons p ps ih =>
    rw [List.foldl_cons, ih]
    simp only [add, List.map_cons, List.sum_cons, add_assoc]

theorem ofLists_eq (a b : List ℚ) :
    ofLists a b = ⟨((a.zip b).map fun p => p.1 * p.2).sum,
      ((a.zip b).map fun p => p.1 * p.1).sum, ((a.zip b).map fun p => p.2 * p.2).sum⟩ := by
  rw [ofLists, foldl_add]
  simp only [zero_add]

theorem left_nonneg (a b : List ℚ) : 0 ≤ (ofLists a b).left := by
  rw [ofLists_eq]
  refine List.sum_nonneg fun x hx => ?_
  obtain ⟨p, _, rfl⟩ := List.mem_map.mp hx
  exact mul_self_nonneg p.1

theorem right_nonneg (a b : List ℚ) : 0 ≤ (ofLists a b).right := by
  rw [ofLists_eq]
  refine List.sum_nonneg fun x hx => ?_
  obtain ⟨p, _, rfl⟩ := List.mem_map.mp hx
  exact mul_self_nonneg p.2

/-- The Cauchy–Schwarz inequality. -/
theorem sq_dot_le (a b : List ℚ) :
    (ofLists a b).dot ^ 2 ≤ (ofLists a b).left * (ofLists a b).right := by
  have h := Finset.sum_mul_sq_le_sq_mul_sq Finset.univ
    (fun i : Fin (a.zip b).length => ((a.zip b)[i.1]).1) fun i => ((a.zip b)[i.1]).2
  simp only [pow_two] at h
  rw [Fin.sum_univ_fun_getElem (a.zip b) fun p => p.1 * p.2,
    Fin.sum_univ_fun_getElem (a.zip b) fun p => p.1 * p.1,
    Fin.sum_univ_fun_getElem (a.zip b) fun p => p.2 * p.2] at h
  rw [ofLists_eq, pow_two]
  exact h

end PairSums

/-- `cosine_similarity` of two vectors of one length, over the reals. -/
noncomputable def cosineSimilarity (a b : List ℚ) : ℝ :=
  let s := PairSums.ofLists a b
  if s.left = 0 ∨ s.right = 0 then 0 else s.dot / (√s.left * √s.right)

theorem sqrt_mul_sqrt_pos {x y : ℚ} (hx : 0 ≤ x) (hy : 0 ≤ y) (h : ¬ (x = 0 ∨ y = 0)) :
    0 < √(x : ℝ) * √(y : ℝ) := by
  rw [not_or] at h
  have hx' : (0 : ℝ) < x := by exact_mod_cast lt_of_le_of_ne hx (Ne.symm h.1)
  have hy' : (0 : ℝ) < y := by exact_mod_cast lt_of_le_of_ne hy (Ne.symm h.2)
  exact mul_pos (Real.sqrt_pos.mpr hx') (Real.sqrt_pos.mpr hy')

theorem cosineSimilarity_le_one (a b : List ℚ) : cosineSimilarity a b ≤ 1 := by
  unfold cosineSimilarity
  simp only
  split_ifs with hzero
  · exact zero_le_one
  · have hpos := sqrt_mul_sqrt_pos (PairSums.left_nonneg a b) (PairSums.right_nonneg a b) hzero
    have hleft : (0 : ℝ) ≤ (PairSums.ofLists a b).left := by
      exact_mod_cast PairSums.left_nonneg a b
    have hsq : ((PairSums.ofLists a b).dot : ℝ) ^ 2 ≤
        (PairSums.ofLists a b).left * (PairSums.ofLists a b).right := by
      exact_mod_cast PairSums.sq_dot_le a b
    rw [div_le_one hpos, ← Real.sqrt_mul hleft]
    exact (le_abs_self _).trans (Real.abs_le_sqrt hsq)

/-- Without a length both the dot product and the cosine are zero. -/
theorem cosineSimilarity_nonneg_iff (a b : List ℚ) :
    0 ≤ cosineSimilarity a b ↔ 0 ≤ (PairSums.ofLists a b).dot := by
  unfold cosineSimilarity
  simp only
  split_ifs with hzero
  · have hsq := PairSums.sq_dot_le a b
    have hproduct : (PairSums.ofLists a b).left * (PairSums.ofLists a b).right = 0 :=
      mul_eq_zero.mpr hzero
    have hdot : (PairSums.ofLists a b).dot = 0 :=
      pow_eq_zero_iff two_ne_zero |>.mp (le_antisymm (hsq.trans hproduct.le) (sq_nonneg _))
    rw [hdot]
    exact iff_of_true le_rfl le_rfl
  · have hpos := sqrt_mul_sqrt_pos (PairSums.left_nonneg a b) (PairSums.right_nonneg a b) hzero
    rw [le_div_iff₀ hpos, zero_mul]
    exact_mod_cast Iff.rfl

end Ragx
