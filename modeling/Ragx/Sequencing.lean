import Mathlib.Data.List.Flatten
import Mathlib.Data.List.Forall2

/-!
# Lists of fallible steps, and pieces of a text

A traversal that may fail succeeds when every step does, and otherwise raises what
its first failing step raises. Texts joined with a separator contain any selection
of their pieces in order.
-/
namespace Ragx

section Traversal

variable {α β γ ε : Type} {f : α → Except ε β}

theorem bind_eq_ok_iff {x : Except ε α} {g : α → Except ε γ} {c : γ} :
    (x >>= g) = .ok c ↔ ∃ a, x = .ok a ∧ g a = .ok c := by
  cases x with
  | error e => simp [bind, Except.bind]
  | ok a => simp [bind, Except.bind]

theorem map_eq_ok_iff {x : Except ε α} {g : α → γ} {c : γ} :
    x.map g = .ok c ↔ ∃ a, x = .ok a ∧ g a = c := by
  cases x with
  | error e => simp [Except.map]
  | ok a => simp [Except.map]

theorem bind_eq_error_iff {x : Except ε α} {g : α → Except ε γ} {e : ε} :
    (x >>= g) = .error e ↔ x = .error e ∨ ∃ a, x = .ok a ∧ g a = .error e := by
  cases x with
  | error e => simp [bind, Except.bind]
  | ok a => simp [bind, Except.bind]

theorem map_eq_error_iff {x : Except ε α} {g : α → γ} {e : ε} :
    x.map g = .error e ↔ x = .error e := by
  cases x with
  | error e => simp [Except.map]
  | ok a => simp [Except.map]

/-- A traversal succeeds exactly with the results of its steps. -/
theorem mapM_eq_ok_iff {xs : List α} {ys : List β} :
    xs.mapM f = .ok ys ↔ List.Forall₂ (fun x y => f x = .ok y) xs ys := by
  induction xs generalizing ys with
  | nil => cases ys <;> simp [pure, Except.pure]
  | cons x xs ih =>
    rw [List.mapM_cons, List.forall₂_cons_left_iff, bind_eq_ok_iff]
    constructor
    · rintro ⟨y, hy, hrest⟩
      obtain ⟨zs, hzs, hys⟩ := bind_eq_ok_iff.mp hrest
      cases hys
      exact ⟨y, zs, hy, ih.mp hzs, rfl⟩
    · rintro ⟨y, zs, hy, hzs, rfl⟩
      exact ⟨y, hy, bind_eq_ok_iff.mpr ⟨zs, ih.mpr hzs, rfl⟩⟩

/-- Traversing in groups is traversing all. -/
theorem mapM_flatten_eq_ok_iff {xss : List (List α)} {ys : List β} :
    xss.flatten.mapM f = .ok ys ↔
      ∃ yss, List.Forall₂ (fun xs ys => xs.mapM f = .ok ys) xss yss ∧ yss.flatten = ys := by
  induction xss generalizing ys with
  | nil => simp [pure, Except.pure, eq_comm]
  | cons xs xss ih =>
    rw [List.flatten_cons, List.mapM_append, bind_eq_ok_iff]
    constructor
    · rintro ⟨zs, hzs, hrest⟩
      obtain ⟨ws, hws, hys⟩ := bind_eq_ok_iff.mp hrest
      cases hys
      obtain ⟨yss, hyss, rfl⟩ := ih.mp hws
      exact ⟨zs :: yss, .cons hzs hyss, rfl⟩
    · rintro ⟨_, hyss, rfl⟩
      obtain ⟨zs, yss, hzs, hrest, rfl⟩ := List.forall₂_cons_left_iff.mp hyss
      exact ⟨zs, hzs, bind_eq_ok_iff.mpr ⟨yss.flatten, ih.mpr ⟨yss, hrest, rfl⟩, rfl⟩⟩

/-- A failing traversal raises what one of its steps raises. -/
theorem exists_of_mapM_eq_error {xs : List α} {e : ε} (h : xs.mapM f = .error e) :
    ∃ x ∈ xs, f x = .error e := by
  induction xs with
  | nil => cases h
  | cons x xs ih =>
    rw [List.mapM_cons] at h
    cases hx : f x with
    | error e' =>
      rw [hx] at h
      cases h
      exact ⟨x, List.mem_cons_self, hx⟩
    | ok y =>
      rw [hx] at h
      cases hrest : xs.mapM f with
      | error e' =>
        simp only [hrest, bind, Except.bind] at h
        cases h
        obtain ⟨x', hmem, hx'⟩ := ih hrest
        exact ⟨x', List.mem_cons_of_mem x hmem, hx'⟩
      | ok ys =>
        simp only [hrest, bind, Except.bind] at h
        cases h

theorem exists_of_mem_left {R : α → β → Prop} {xs : List α} {ys : List β}
    (h : List.Forall₂ R xs ys) {x : α} (hx : x ∈ xs) : ∃ y ∈ ys, R x y := by
  induction h with
  | nil => exact absurd hx List.not_mem_nil
  | cons hxy _ ih =>
    rcases List.mem_cons.mp hx with rfl | hx
    · exact ⟨_, List.mem_cons_self, hxy⟩
    · obtain ⟨y, hy, hrel⟩ := ih hx
      exact ⟨y, List.mem_cons_of_mem _ hy, hrel⟩

theorem exists_of_mem_right {R : α → β → Prop} {xs : List α} {ys : List β}
    (h : List.Forall₂ R xs ys) {y : β} (hy : y ∈ ys) : ∃ x ∈ xs, R x y := by
  obtain ⟨x, hx, hrel⟩ := exists_of_mem_left h.flip hy
  exact ⟨x, hx, hrel⟩

theorem exists_ok_of_mapM {xs : List α} {ys : List β} (h : xs.mapM f = .ok ys) {x : α}
    (hx : x ∈ xs) : ∃ y ∈ ys, f x = .ok y :=
  exists_of_mem_left (mapM_eq_ok_iff.mp h) hx

theorem exists_of_mem_mapM {xs : List α} {ys : List β} (h : xs.mapM f = .ok ys) {y : β}
    (hy : y ∈ ys) : ∃ x ∈ xs, f x = .ok y :=
  exists_of_mem_right (mapM_eq_ok_iff.mp h) hy

theorem mapM_eq_ok_map {g : α → β} {xs : List α} (h : ∀ x ∈ xs, f x = .ok (g x)) :
    xs.mapM f = .ok (xs.map g) := by
  rw [mapM_eq_ok_iff, List.forall₂_map_right_iff]
  exact List.forall₂_same.mpr h

theorem exists_mapM_eq_ok {xs : List α} (h : ∀ x ∈ xs, ∃ y, f x = .ok y) :
    ∃ ys, xs.mapM f = .ok ys := by
  induction xs with
  | nil => exact ⟨[], rfl⟩
  | cons x xs ih =>
    obtain ⟨y, hy⟩ := h x List.mem_cons_self
    obtain ⟨ys, hys⟩ := ih fun x' hx' => h x' (List.mem_cons_of_mem x hx')
    exact ⟨y :: ys, mapM_eq_ok_iff.mpr (.cons hy (mapM_eq_ok_iff.mp hys))⟩

/-- A pointwise composition goes through a list in the middle. -/
theorem forall₂_exists_iff {R : α → β → Prop} {S : β → γ → Prop} {xs : List α} {zs : List γ} :
    List.Forall₂ (fun x z => ∃ y, R x y ∧ S y z) xs zs ↔
      ∃ ys, List.Forall₂ R xs ys ∧ List.Forall₂ S ys zs := by
  constructor
  · intro h
    induction h with
    | nil => exact ⟨[], .nil, .nil⟩
    | cons hxz _ ih =>
      obtain ⟨y, hxy, hyz⟩ := hxz
      obtain ⟨ys, hxs, hzs⟩ := ih
      exact ⟨y :: ys, .cons hxy hxs, .cons hyz hzs⟩
  · rintro ⟨ys, hxs, hzs⟩
    induction hxs generalizing zs with
    | nil =>
      cases hzs
      exact .nil
    | cons hxy _ ih =>
      cases hzs with
      | cons hyz hzs => exact .cons ⟨_, hxy, hyz⟩ (ih hzs)

end Traversal

/-! ## Pieces of a text -/

/-- The texts occur in `whole` one behind the other. -/
def ContainsInOrder : List String → String → Prop
  | [], _ => True
  | text :: texts, whole =>
    ∃ front rest, whole = front ++ text ++ rest ∧ ContainsInOrder texts rest

theorem ContainsInOrder.prepend {texts : List String} {whole : String}
    (h : ContainsInOrder texts whole) (front : String) :
    ContainsInOrder texts (front ++ whole) := by
  cases texts with
  | nil => trivial
  | cons text texts =>
    obtain ⟨before, rest, rfl, hrest⟩ := h
    exact ⟨front ++ before, rest, by simp only [String.append_assoc], hrest⟩

/-- A joined text contains any selection of its pieces in order. -/
theorem containsInOrder_intercalate {sep : String} {texts pieces : List String}
    (h : texts.Sublist pieces) : ContainsInOrder texts (sep.intercalate pieces) := by
  induction h with
  | slnil => trivial
  | @cons texts pieces piece _ ih =>
    cases pieces with
    | nil =>
      obtain rfl : texts = [] := List.sublist_nil.mp ‹_›
      trivial
    | cons next pieces =>
      rw [String.intercalate_cons_cons]
      exact ih.prepend (piece ++ sep)
  | @cons_cons texts pieces piece _ ih =>
    cases pieces with
    | nil =>
      obtain rfl : texts = [] := List.sublist_nil.mp ‹_›
      exact ⟨"", "", by simp, trivial⟩
    | cons next pieces =>
      rw [String.intercalate_cons_cons, String.append_assoc]
      exact ⟨"", sep ++ sep.intercalate (next :: pieces), by simp, ih.prepend sep⟩

end Ragx
