import Mathlib.Data.List.Basic
import Mathlib.Order.Lattice

/-!
# Windows cut from the front

Entries arrive in the order of their keys. A window is kept as a list that gets its entries at
the back and is cut at the front, now and then, up to a cutoff that never falls. It then has
exactly the entries from the cutoff on.
-/
namespace Ragx.SlidingWindow

variable {α β : Type*} [LinearOrder β] (key : α → β)

/-- The entries from the cutoff on. -/
def since (cutoff : β) (xs : List α) : List α := xs.filter fun x => cutoff ≤ key x

/-- Entries are dropped from the front as long as they are before the cutoff. -/
def cut (cutoff : β) (xs : List α) : List α := xs.dropWhile fun x => key x < cutoff

def InOrder (xs : List α) : Prop := xs.Pairwise fun x y => key x ≤ key y

/-- What is kept of all entries, with the cutoff that it was cut to. -/
structure IsWindow (cutoff : β) (all kept : List α) : Prop where
  inOrder : InOrder key all
  kept_eq : kept = since key cutoff all

variable {key} {cutoff cutoff' : β} {xs all kept : List α} {x : α}

theorem since_eq_self (h : ∀ x ∈ xs, cutoff ≤ key x) : since key cutoff xs = xs :=
  List.filter_eq_self.mpr fun x hx => decide_eq_true (h x hx)

theorem cut_eq_since (h : InOrder key xs) : cut key cutoff xs = since key cutoff xs := by
  induction xs with
  | nil => rfl
  | cons x xs ih =>
    obtain ⟨hfirst, hrest⟩ := List.pairwise_cons.mp h
    by_cases hx : key x < cutoff
    · rw [cut, List.dropWhile_cons_of_pos (by simpa using hx), since,
        List.filter_cons_of_neg (by simpa using hx)]
      exact ih hrest
    · have hge := not_lt.mp hx
      rw [cut, List.dropWhile_cons_of_neg (by simpa using hge)]
      refine (since_eq_self fun y hy => ?_).symm
      rcases List.mem_cons.mp hy with rfl | hy
      · exact hge
      · exact hge.trans (hfirst y hy)

theorem since_since (h : cutoff ≤ cutoff') :
    since key cutoff' (since key cutoff xs) = since key cutoff' xs := by
  unfold since
  rw [List.filter_filter]
  refine List.filter_congr fun x _ => ?_
  by_cases hx : cutoff' ≤ key x
  · simp [hx, h.trans hx]
  · simp [hx]

namespace IsWindow

theorem empty (cutoff : β) : IsWindow key cutoff [] [] := ⟨List.Pairwise.nil, rfl⟩

/-- A later cut. -/
theorem recut (h : IsWindow key cutoff all kept) (hle : cutoff ≤ cutoff') :
    IsWindow key cutoff' all (cut key cutoff' kept) := by
  refine ⟨h.inOrder, ?_⟩
  rw [cut_eq_since (h.kept_eq ▸ h.inOrder.filter _), h.kept_eq, since_since hle]

/-- A new entry at the back, and a later cut. -/
theorem append (h : IsWindow key cutoff all kept) (hlast : ∀ y ∈ all, key y ≤ key x)
    (hle : cutoff ≤ cutoff') :
    IsWindow key cutoff' (all ++ [x]) (cut key cutoff' (kept ++ [x])) := by
  have horder : InOrder key (all ++ [x]) :=
    List.pairwise_append.mpr ⟨h.inOrder, List.pairwise_singleton _ _, fun y hy z hz =>
      List.mem_singleton.mp hz ▸ hlast y hy⟩
  have hsub : (kept ++ [x]).Sublist (all ++ [x]) := by
    rw [h.kept_eq]
    exact List.filter_sublist.append_right [x]
  refine ⟨horder, ?_⟩
  rw [cut_eq_since (horder.sublist hsub), h.kept_eq, since, List.filter_append]
  exact (congrArg (· ++ _) (since_since hle)).trans (List.filter_append _ _).symm

end IsWindow

end Ragx.SlidingWindow
