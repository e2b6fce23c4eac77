import Mathlib.Data.List.Basic
import Mathlib.Data.Nat.Init

/-!
# Rotations of words

A word that can be moved from the front of another to its back only up to a rotation: the
other word then repeats it, and breaks off where the rotation does.
-/
namespace Ragx.WordRotations

variable {α : Type*}

/-- The word, `k` times. -/
def power (u : List α) (k : ℕ) : List α := (List.replicate k u).flatten

@[simp] theorem power_zero (u : List α) : power u 0 = [] := rfl

theorem power_succ (u : List α) (k : ℕ) : power u (k + 1) = u ++ power u k := by
  rw [power, List.replicate_succ, List.flatten_cons, power]

/-- A power of one rotation is a power of the other, cut at another place. -/
theorem append_power (x y : List α) (k : ℕ) :
    x ++ power (y ++ x) k = power (x ++ y) k ++ x := by
  induction k with
  | zero => simp
  | succ k ih =>
    calc x ++ power (y ++ x) (k + 1)
        = x ++ y ++ (x ++ power (y ++ x) k) := by rw [power_succ]; simp
      _ = power (x ++ y) (k + 1) ++ x := by rw [ih, power_succ]; simp

theorem power_succ' (u : List α) (k : ℕ) : power u (k + 1) = power u k ++ u := by
  simpa [power_succ] using append_power u [] k

theorem append_eq_append_iff_rotation {u r w : List α} (hu : u ≠ []) :
    u ++ r = r ++ w ↔ ∃ x y k, u = x ++ y ∧ w = y ++ x ∧ r = power u k ++ x := by
  constructor
  · intro h
    induction hlen : r.length using Nat.strongRecOn generalizing r with
    | _ n ih =>
      rcases List.append_eq_append_iff.mp h with ⟨rest, hrest, hback⟩ | ⟨y, hu, hw⟩
      · have hlt : rest.length < n := by
          have := List.length_pos_iff.mpr hu
          rw [← hlen, hrest, List.length_append]
          omega
        obtain ⟨x, y, k, hxy, hyx, hpower⟩ := ih rest.length hlt (hrest.symm.trans hback) rfl
        refine ⟨x, y, k + 1, hxy, hyx, ?_⟩
        rw [hrest, hpower, power_succ, List.append_assoc]
      · exact ⟨r, y, 0, hu, hw, by simp⟩
  · rintro ⟨x, y, k, rfl, rfl, rfl⟩
    calc x ++ y ++ (power (x ++ y) k ++ x)
        = power (x ++ y) (k + 1) ++ x := by rw [power_succ]; simp
      _ = power (x ++ y) k ++ x ++ (y ++ x) := by rw [power_succ']; simp

end Ragx.WordRotations
