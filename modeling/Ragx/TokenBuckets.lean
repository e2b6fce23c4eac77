import Mathlib.Algebra.Order.Field.Basic
import Mathlib.Tactic.Linarith
import Mathlib.Tactic.Ring

/-!
# Token buckets

A bucket of capacity `cap` fills at a constant rate and overflows. What it gives out
over a span of time is at most its capacity and what flows in over the span; the ledger of
what was granted keeps that account through refills, grants and drains.
-/
namespace Ragx

variable {α : Type*} [Field α] [LinearOrder α]

/-- The level after some time without any outflow. -/
def refilled (cap rate level elapsed : α) : α := min cap (level + elapsed * rate)

section Refill

variable {cap rate level elapsed : α}

theorem refilled_le : refilled cap rate level elapsed ≤ cap := min_le_left _ _

theorem refilled_le_add : refilled cap rate level elapsed ≤ level + elapsed * rate :=
  min_le_right _ _

theorem refilled_zero (h : level ≤ cap) : refilled cap rate level 0 = level := by
  rw [refilled, zero_mul, add_zero, min_eq_right h]

/-- What is missing has flowed in once it is over the rate. -/
theorem le_refilled_deficit {need : α} (hrate : 0 < rate) (hneed : need ≤ cap) :
    need ≤ refilled cap rate level ((need - level) / rate) := by
  refine le_min hneed (le_of_eq ?_)
  rw [div_mul_cancel₀ _ hrate.ne']
  ring

variable [IsStrictOrderedRing α]

theorem refilled_nonneg (hcap : 0 ≤ cap) (hrate : 0 ≤ rate) (hlevel : 0 ≤ level)
    (helapsed : 0 ≤ elapsed) : 0 ≤ refilled cap rate level elapsed :=
  le_min hcap (add_nonneg hlevel (mul_nonneg helapsed hrate))

theorem refilled_full (hrate : 0 ≤ rate) (helapsed : 0 ≤ elapsed) :
    refilled cap rate cap elapsed = cap :=
  min_eq_left (le_add_of_nonneg_right (mul_nonneg helapsed hrate))

/-- Refilling twice is refilling once over the whole time. -/
theorem refilled_refilled {elapsed' : α} (hrate : 0 ≤ rate) (helapsed' : 0 ≤ elapsed') :
    refilled cap rate (refilled cap rate level elapsed) elapsed' =
      refilled cap rate level (elapsed + elapsed') := by
  have hflow : cap ≤ cap + elapsed' * rate :=
    le_add_of_nonneg_right (mul_nonneg helapsed' hrate)
  unfold refilled
  rw [← min_add_add_right, ← min_assoc, min_eq_left hflow, add_assoc, ← add_mul]

end Refill

/-- The account of a bucket: what it has granted over a span and what it still holds is no
more than its capacity and the inflow of the span. -/
structure Ledger (cap rate granted level span : α) : Prop where
  level_nonneg : 0 ≤ level
  level_le : level ≤ cap
  sum_le : granted + level ≤ cap + rate * span

namespace Ledger

variable {cap rate granted level span : α}

theorem full (hcap : 0 ≤ cap) : Ledger cap rate 0 cap 0 :=
  ⟨hcap, le_rfl, by simp⟩

variable [IsStrictOrderedRing α]

theorem granted_le (h : Ledger cap rate granted level span) :
    granted ≤ cap + rate * span := by
  linarith [h.level_nonneg, h.sum_le]

theorem refill (h : Ledger cap rate granted level span) (hrate : 0 ≤ rate) {elapsed : α}
    (helapsed : 0 ≤ elapsed) :
    Ledger cap rate granted (refilled cap rate level elapsed) (span + elapsed) where
  level_nonneg := refilled_nonneg (h.level_nonneg.trans h.level_le) hrate h.level_nonneg helapsed
  level_le := refilled_le
  sum_le := by
    have hle : refilled cap rate level elapsed ≤ level + elapsed * rate := refilled_le_add
    linarith [h.sum_le]

/-- A bucket that is filled up at once must have had the time for it. -/
theorem fillUp (h : Ledger cap rate granted level span) {elapsed : α}
    (helapsed : cap ≤ rate * elapsed) : Ledger cap rate granted cap (span + elapsed) where
  level_nonneg := h.level_nonneg.trans h.level_le
  level_le := le_rfl
  sum_le := by linarith [h.sum_le, h.level_nonneg]

theorem grant (h : Ledger cap rate granted level span) {amount : α} (hnonneg : 0 ≤ amount)
    (hamount : amount ≤ level) : Ledger cap rate (granted + amount) (level - amount) span where
  level_nonneg := sub_nonneg.mpr hamount
  level_le := (sub_le_self level hnonneg).trans h.level_le
  sum_le := by linarith [h.sum_le]

/-- Taking out what is not granted, down to an empty bucket. -/
theorem drain (h : Ledger cap rate granted level span) {amount : α} (hamount : 0 ≤ amount) :
    Ledger cap rate granted (max 0 (level - amount)) span := by
  have hle : max 0 (level - amount) ≤ level := max_le h.level_nonneg (sub_le_self level hamount)
  exact ⟨le_max_left _ _, hle.trans h.level_le, by linarith [h.sum_le]⟩

theorem mono (h : Ledger cap rate granted level span) (hrate : 0 ≤ rate) {span' : α}
    (hspan : span ≤ span') : Ledger cap rate granted level span' where
  level_nonneg := h.level_nonneg
  level_le := h.level_le
  sum_le := h.sum_le.trans (by linarith [mul_le_mul_of_nonneg_left hspan hrate])

end Ledger

end Ragx
