import Mathlib.Data.List.Nodup
import Mathlib.Data.List.Sigma

/-!
# Items by group and place

Numbering the items of a list of groups: no two items have the same group and place, and
forgetting the numbers gives the groups one behind the other.
-/
namespace Ragx

variable {α β γ : Type*}

/-- Every item with the number of its group and its place in the group. -/
def placed (xss : List (List α)) : List (α × ℕ × ℕ) :=
  xss.zipIdx.flatMap fun group => group.1.zipIdx.map fun item => (item.1, group.2, item.2)

theorem exists_mem_zipIdx_of_mem {xs : List α} {x : α} (h : x ∈ xs) :
    ∃ i, (x, i) ∈ xs.zipIdx := by
  obtain ⟨i, hi⟩ := List.mem_iff_getElem?.mp h
  exact ⟨i, List.mk_mem_zipIdx_iff_getElem?.mpr hi⟩

theorem map_fst_placed (xss : List (List α)) : (placed xss).map Prod.fst = xss.flatten := by
  have hgroup (xs : List α) (i : ℕ) :
      (xs.zipIdx.map fun item => (item.1, i, item.2)).map Prod.fst = xs := by
    rw [List.map_map]
    exact List.zipIdx_map_fst 0 xs
  rw [placed, List.map_flatMap]
  calc (xss.zipIdx.flatMap fun group => (group.1.zipIdx.map fun item =>
        (item.1, group.2, item.2)).map Prod.fst)
      = xss.zipIdx.flatMap fun group => group.1 := by simp only [hgroup]
    _ = (xss.zipIdx.map Prod.fst).flatten := List.flatMap_def
    _ = xss.flatten := by rw [List.zipIdx_map_fst]

theorem nodup_map_snd_placed (xss : List (List α)) : ((placed xss).map Prod.snd).Nodup := by
  rw [placed, List.map_flatMap]
  refine List.nodup_flatMap.mpr ⟨fun group _ => ?_, ?_⟩
  · rw [List.map_map]
    have hpair : Function.Injective (Prod.mk (β := ℕ) group.2) := fun _ _ h => congrArg Prod.snd h
    have hplaces := (List.nodup_zipIdx_map_snd group.1).map hpair
    rwa [List.map_map] at hplaces
  · have hgroups : xss.zipIdx.Pairwise fun group group' => group.2 ≠ group'.2 :=
      List.pairwise_map.mp (List.nodup_zipIdx_map_snd xss)
    refine hgroups.imp fun {group group'} hne => ?_
    intro x hx hx'
    obtain ⟨y, hy, rfl⟩ := List.mem_map.mp hx
    obtain ⟨y', hy', heq⟩ := List.mem_map.mp hx'
    obtain ⟨item, _, rfl⟩ := List.mem_map.mp hy
    obtain ⟨item', _, rfl⟩ := List.mem_map.mp hy'
    exact hne (congrArg Prod.fst heq).symm

theorem mem_flatten_of_mem_placed {xss : List (List α)} {x : α × ℕ × ℕ} (h : x ∈ placed xss) :
    x.1 ∈ xss.flatten := by
  rw [← map_fst_placed]
  exact List.mem_map_of_mem h

/-- Selecting items by something their numbers do not enter into. -/
theorem map_filter_map_placed {xss : List (List α)} {g : α × ℕ × ℕ → β} {q : β → Bool}
    {h : β → γ} {q' : α → Bool} (h' : α → γ) (hq : ∀ x ∈ placed xss, q (g x) = q' x.1)
    (hh : ∀ x ∈ placed xss, q' x.1 = true → h (g x) = h' x.1) :
    (((placed xss).map g).filter q).map h = (xss.flatten.filter q').map h' := by
  calc (((placed xss).map g).filter q).map h
      = ((placed xss).filter fun x => q (g x)).map fun x => h (g x) := by
        rw [List.filter_map, List.map_map]
        rfl
    _ = ((placed xss).filter fun x => q' x.1).map fun x => h (g x) := by
        rw [List.filter_congr hq]
    _ = ((placed xss).filter fun x => q' x.1).map fun x => h' x.1 := by
        refine List.map_congr_left fun x hx => ?_
        obtain ⟨hmem, hsel⟩ := List.mem_filter.mp hx
        exact hh x hmem hsel
    _ = (((placed xss).map Prod.fst).filter q').map h' := by
        rw [List.filter_map, List.map_map]
        rfl
    _ = (xss.flatten.filter q').map h' := by rw [map_fst_placed]

theorem exists_mem_placed {xss : List (List α)} {x : α} (h : x ∈ xss.flatten) :
    ∃ i j, (x, i, j) ∈ placed xss := by
  rw [← map_fst_placed] at h
  obtain ⟨⟨x, i, j⟩, hx, rfl⟩ := List.mem_map.mp h
  exact ⟨i, j, hx⟩

/-- What is read off the numbers alone, injectively, is different for different items. -/
theorem nodup_map_filter_map_placed {xss : List (List α)} {g : α × ℕ × ℕ → β} {q : β → Bool}
    {h : β → γ} (number : ℕ × ℕ → γ) (hinj : Function.Injective number)
    (hh : ∀ x ∈ placed xss, q (g x) = true → h (g x) = number x.2) :
    ((((placed xss).map g).filter q).map h).Nodup := by
  have heq : (((placed xss).map g).filter q).map h =
      (((placed xss).filter fun x => q (g x)).map Prod.snd).map number := by
    rw [List.filter_map, List.map_map, List.map_map]
    refine List.map_congr_left fun x hx => ?_
    obtain ⟨hmem, hsel⟩ := List.mem_filter.mp hx
    exact hh x hmem hsel
  rw [heq]
  exact ((nodup_map_snd_placed xss).sublist (List.filter_sublist.map Prod.snd)).map hinj

end Ragx
