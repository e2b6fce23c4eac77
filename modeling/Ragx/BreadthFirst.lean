import Mathlib.Algebra.GroupWithZero.Nat
import Mathlib.Algebra.Order.BigOperators.Group.List
import Mathlib.Algebra.Order.Group.Nat
import Ragx.KeyedTable

/-!
# Breadth-first order

A search goes from its sources through a relation, level by level. `WithinSteps` says what lies in
reach of a number of steps, `order` lists it: every item once, nearer items first. A source is
listed only when a step leads back to it.
-/
namespace Ragx

/-- At most that many steps away from one of the sources. -/
inductive WithinSteps {α : Type*} (r : α → α → Prop) (sources : List α) : ℕ → α → Prop
  | source {d : ℕ} {a : α} : a ∈ sources → WithinSteps r sources d a
  | step {d : ℕ} {a b : α} : WithinSteps r sources d a → r a b → WithinSteps r sources (d + 1) b

namespace WithinSteps

variable {α : Type*} {r : α → α → Prop} {sources : List α}

theorem mono {d d' : ℕ} {a : α} (h : WithinSteps r sources d a) (hd : d ≤ d') :
    WithinSteps r sources d' a := by
  induction h generalizing d' with
  | source ha => exact source ha
  | step hfrom hr ih =>
    obtain ⟨k, rfl⟩ := Nat.exists_eq_add_of_le hd
    rw [Nat.add_right_comm]
    exact step (ih (Nat.le_add_right _ k)) hr

/-- What is no source is reached by a step. -/
theorem exists_step {d : ℕ} {b : α} (h : WithinSteps r sources d b) (hb : b ∉ sources) :
    ∃ d' a, d = d' + 1 ∧ WithinSteps r sources d' a ∧ r a b := by
  cases h with
  | source ha => exact absurd ha hb
  | step hfrom hr => exact ⟨_, _, rfl, hfrom, hr⟩

end WithinSteps

namespace BreadthFirst

variable {α : Type*} (adj : α → List α)

/-- How many entries a queue sees that starts with one item and never skips a repetition. -/
def treeSize : ℕ → α → ℕ
  | 0, _ => 1
  | k + 1, a => 1 + ((adj a).map (treeSize k)).sum

theorem treeSize_pos (k : ℕ) (a : α) : 0 < treeSize adj k a := by
  cases k with
  | zero => exact Nat.one_pos
  | succ k => exact Nat.add_pos_left Nat.one_pos _

/-- An item gives way to some of those it leads to. -/
theorem sum_treeSize_lt (k : ℕ) (a : α) {next : List α} (h : next.Sublist (adj a)) :
    (next.map (treeSize adj k)).sum < treeSize adj (k + 1) a := by
  have hle := (h.map (treeSize adj k)).sum_le_sum fun _ _ => Nat.zero_le _
  exact Nat.lt_of_le_of_lt hle (Nat.lt_add_of_pos_left Nat.one_pos)

/-! ## Steps -/

variable (r : α → α → Prop) (sources : List α)

/-- Reached by exactly that many steps. -/
def ReachedIn : ℕ → α → Prop
  | 0, a => a ∈ sources
  | d + 1, b => ∃ a, ReachedIn d a ∧ r a b

variable {r sources}

theorem within_of_reachedIn {j d : ℕ} {a : α} (h : ReachedIn r sources j a) (hj : j ≤ d) :
    WithinSteps r sources d a := by
  induction j generalizing d a with
  | zero => exact .source h
  | succ j ih =>
    obtain ⟨b, hb, hr⟩ := h
    obtain ⟨k, rfl⟩ := Nat.exists_eq_add_of_le hj
    rw [Nat.add_right_comm]
    exact .step (ih hb (Nat.le_add_right j k)) hr

theorem exists_reachedIn {d : ℕ} {a : α} (h : WithinSteps r sources d a) :
    ∃ j ≤ d, ReachedIn r sources j a := by
  induction h with
  | source ha => exact ⟨0, Nat.zero_le _, ha⟩
  | step _ hr ih =>
    obtain ⟨j, hj, hreach⟩ := ih
    exact ⟨j + 1, Nat.succ_le_succ hj, _, hreach, hr⟩

/-- One step or more, for an item that is no source. -/
theorem exists_reachedIn_pos {d : ℕ} {a : α} (h : WithinSteps r sources d a) (ha : a ∉ sources) :
    ∃ j, 1 ≤ j ∧ j ≤ d ∧ ReachedIn r sources j a := by
  obtain ⟨j, hj, hreach⟩ := exists_reachedIn h
  cases j with
  | zero => exact absurd hreach ha
  | succ j => exact ⟨j + 1, Nat.le_add_left 1 j, hj, hreach⟩

/-! ## The order -/

variable [DecidableEq α]

open KeyedTable (newcomers)

/-- Goes on from the candidates of one level for that many levels more. -/
def discover : ℕ → List α → List α → List α
  | 0, seen, candidates => seen ++ newcomers id seen candidates
  | k + 1, seen, candidates =>
    discover k (seen ++ newcomers id seen candidates)
      ((newcomers id seen candidates).flatMap adj)

def order (sources : List α) : ℕ → List α
  | 0 => []
  | k + 1 => discover adj k [] (sources.flatMap adj)

theorem prefix_discover (k : ℕ) (seen candidates : List α) :
    seen <+: discover adj k seen candidates := by
  induction k generalizing seen candidates with
  | zero => exact List.prefix_append _ _
  | succ k ih => exact (List.prefix_append _ _).trans (ih _ _)

theorem mem_newcomers {seen candidates : List α} {a : α} :
    a ∈ newcomers id seen candidates ↔ a ∉ seen ∧ a ∈ candidates := by
  have h : a ∈ (newcomers id seen candidates).map id ↔ a ∉ seen ∧ a ∈ candidates.map id :=
    KeyedTable.mem_map_newcomers
  rwa [List.map_id, List.map_id] at h

theorem nodup_append_newcomers {seen : List α} (hseen : seen.Nodup) (candidates : List α) :
    (seen ++ newcomers id seen candidates).Nodup := by
  have hnew : ((newcomers id seen candidates).map id).Nodup := KeyedTable.newcomers_nodup _ _
  rw [List.map_id] at hnew
  refine List.nodup_append.mpr ⟨hseen, hnew, ?_⟩
  rintro a ha b hb rfl
  exact (mem_newcomers.mp hb).1 ha

/-! ## A level under way -/

variable {adj}

theorem newcomers_congr {seen seen' : List α} (h : ∀ a, a ∈ seen ↔ a ∈ seen') (xs : List α) :
    newcomers id seen xs = newcomers id seen' xs := by
  induction xs generalizing seen seen' with
  | nil => rfl
  | cons x xs ih =>
    change (if x ∈ seen then _ else _) = if x ∈ seen' then _ else _
    refine if_congr (h x) (ih h) (congrArg _ (ih fun a => ?_))
    rw [List.mem_cons, List.mem_cons, h]

/-- Candidates that were seen before need not be in the list. -/
theorem newcomers_filter {seen known : List α} (hsub : known ⊆ seen) (before xs after : List α) :
    newcomers id seen (before ++ xs.filter (· ∉ known) ++ after) =
      newcomers id seen (before ++ xs ++ after) := by
  induction before generalizing seen with
  | nil =>
    rw [List.nil_append, List.nil_append]
    induction xs generalizing seen with
    | nil => rfl
    | cons x xs ih =>
      rw [List.filter_cons]
      by_cases hx : x ∈ known
      · rw [if_neg (by simpa using hx), List.cons_append]
        change _ = if x ∈ seen then _ else _
        rw [if_pos (hsub hx), ih hsub]
      · rw [if_pos (by simpa using hx), List.cons_append, List.cons_append]
        change (if x ∈ seen then _ else _) = if x ∈ seen then _ else _
        rw [ih hsub]
        exact if_congr Iff.rfl rfl (congrArg _ (ih fun a ha => List.mem_cons_of_mem x (hsub ha)))
  | cons b before ih =>
    rw [List.cons_append, List.cons_append, List.cons_append, List.cons_append]
    change (if b ∈ seen then _ else _) = if b ∈ seen then _ else _
    rw [ih hsub]
    exact if_congr Iff.rfl rfl (congrArg _ (ih fun a ha => List.mem_cons_of_mem b (hsub ha)))

variable (adj)

theorem discover_congr (k : ℕ) {seen candidates candidates' : List α}
    (h : newcomers id seen candidates = newcomers id seen candidates') :
    discover adj k seen candidates = discover adj k seen candidates' := by
  cases k with
  | zero => rw [discover, discover, h]
  | succ k => rw [discover, discover, h]

/-- A part of the level is still to visit, and the part before it has led to `next`. -/
def resume : ℕ → List α → List α → List α → List α
  | 0, seen, level, _ => seen ++ newcomers id seen level
  | k + 1, seen, level, next =>
    discover adj k (seen ++ newcomers id seen level) (next ++ (newcomers id seen level).flatMap adj)

theorem resume_start (k : ℕ) (seen level : List α) :
    resume adj k seen level [] = discover adj k seen level := by
  cases k with
  | zero => rfl
  | succ k => rfl

theorem resume_end (k : ℕ) (seen next : List α) :
    resume adj (k + 1) seen [] next = resume adj k seen next [] := by
  rw [resume_start, resume]
  change discover adj k (seen ++ []) (next ++ []) = _
  rw [List.append_nil, List.append_nil]

theorem prefix_resume (k : ℕ) (seen level next : List α) :
    seen <+: resume adj k seen level next := by
  cases k with
  | zero => exact List.prefix_append _ _
  | succ k => exact (List.prefix_append _ _).trans (prefix_discover adj k _ _)

theorem resume_skip (k : ℕ) {seen : List α} {a : α} (ha : a ∈ seen) (level next : List α) :
    resume adj k seen (a :: level) next = resume adj k seen level next := by
  have hnew : newcomers id seen (a :: level) = newcomers id seen level := if_pos ha
  cases k with
  | zero => rw [resume, resume, hnew]
  | succ k => rw [resume, resume, hnew]

/-- Visiting an item puts what it leads to behind what is found already. -/
theorem resume_visit (k : ℕ) {seen : List α} {a : α} (ha : a ∉ seen) (level next : List α) :
    resume adj k seen (a :: level) next = resume adj k (seen ++ [a]) level
      (next ++ if 0 < k then (adj a).filter (· ∉ seen ++ [a]) else []) := by
  have hsame : newcomers id (a :: seen) level = newcomers id (seen ++ [a]) level := by
    refine newcomers_congr (fun b => ?_) level
    rw [List.mem_cons, List.mem_append, List.mem_singleton, or_comm]
  have hnew : newcomers id seen (a :: level) = a :: newcomers id (seen ++ [a]) level :=
    (if_neg ha).trans (congrArg _ hsame)
  cases k with
  | zero => rw [resume, resume, hnew, List.append_assoc, List.singleton_append]
  | succ k =>
    rw [resume, resume, hnew, if_pos (Nat.succ_pos k), List.append_assoc, List.singleton_append,
      List.flatMap_cons, ← List.append_assoc]
    refine discover_congr adj k (newcomers_filter (fun b hb => ?_) next (adj a) _).symm
    rw [List.mem_append, List.mem_singleton] at hb
    rw [List.mem_append, List.mem_cons]
    exact hb.imp_right Or.inl

/-! ## What a level knows -/

variable (r sources) in
/-- After the levels below `d` everything is seen that they reach, nearer items first, and the
candidates lead on to what the level `d` reaches. -/
structure Level (d : ℕ) (seen candidates : List α) : Prop where
  nodup : seen.Nodup
  mem_seen : ∀ a, a ∈ seen ↔ ∃ j, 1 ≤ j ∧ j < d ∧ ReachedIn r sources j a
  candidate : ∀ a ∈ candidates, ReachedIn r sources d a
  reached : ∀ a, ReachedIn r sources d a → a ∈ seen ∨ a ∈ candidates
  nearer_first : seen.Pairwise fun a b => ∀ j, 1 ≤ j → ReachedIn r sources j b →
    ∃ i, 1 ≤ i ∧ i ≤ j ∧ ReachedIn r sources i a

variable {adj}

/-- A first repetition of a level is farther than everything seen before. -/
theorem Level.le_of_newcomer {d : ℕ} {seen candidates : List α}
    (h : Level r sources d seen candidates) {a : α} (ha : a ∈ newcomers id seen candidates)
    {j : ℕ} (hj : 1 ≤ j) (hreach : ReachedIn r sources j a) : d ≤ j := by
  by_contra hlt
  exact (mem_newcomers.mp ha).1 ((h.mem_seen a).mpr ⟨j, hj, Nat.lt_of_not_le hlt, hreach⟩)

theorem Level.mem_visited {d : ℕ} {seen candidates : List α} (h : Level r sources d seen candidates)
    (hd : 1 ≤ d) (a : α) : a ∈ seen ++ newcomers id seen candidates ↔
      ∃ j, 1 ≤ j ∧ j < d + 1 ∧ ReachedIn r sources j a := by
  rw [List.mem_append, mem_newcomers, h.mem_seen]
  constructor
  · rintro (⟨j, hj, hjd, hreach⟩ | ⟨_, ha⟩)
    · exact ⟨j, hj, Nat.lt_succ_of_lt hjd, hreach⟩
    · exact ⟨d, hd, Nat.lt_succ_self d, h.candidate a ha⟩
  · rintro ⟨j, hj, hjd, hreach⟩
    rcases Nat.lt_succ_iff_lt_or_eq.mp hjd with hlt | rfl
    · exact Or.inl ⟨j, hj, hlt, hreach⟩
    · rw [← h.mem_seen]
      by_cases hseen : a ∈ seen
      · exact Or.inl hseen
      · exact Or.inr ⟨hseen, (h.reached a hreach).resolve_left hseen⟩

theorem Level.pairwise_visited {d : ℕ} {seen candidates : List α}
    (h : Level r sources d seen candidates) (hd : 1 ≤ d) :
    (seen ++ newcomers id seen candidates).Pairwise fun a b =>
      ∀ j, 1 ≤ j → ReachedIn r sources j b → ∃ i, 1 ≤ i ∧ i ≤ j ∧ ReachedIn r sources i a := by
  have hnew : ∀ a ∈ newcomers id seen candidates, ReachedIn r sources d a := fun a ha =>
    h.candidate a (mem_newcomers.mp ha).2
  refine List.pairwise_append.mpr ⟨h.nearer_first, ?_, ?_⟩
  · refine List.pairwise_of_forall_mem_list fun a ha b hb j hj hreach => ?_
    exact ⟨d, hd, h.le_of_newcomer hb hj hreach, hnew a ha⟩
  · intro a ha b hb j hj hreach
    obtain ⟨i, hi, hid, hreachA⟩ := (h.mem_seen a).mp ha
    exact ⟨i, hi, hid.le.trans (h.le_of_newcomer hb hj hreach), hreachA⟩

omit [DecidableEq α] in
theorem level_one (hadj : ∀ a b, b ∈ adj a ↔ r a b) :
    Level r sources 1 [] (sources.flatMap adj) where
  nodup := List.nodup_nil
  mem_seen a := by
    refine iff_of_false List.not_mem_nil ?_
    rintro ⟨j, hj, hlt, _⟩
    exact absurd (hj.trans_lt hlt) (lt_irrefl 1)
  candidate b hb := by
    obtain ⟨a, ha, hab⟩ := List.mem_flatMap.mp hb
    exact ⟨a, ha, (hadj a b).mp hab⟩
  reached b := by
    rintro ⟨a, ha, hab⟩
    exact Or.inr (List.mem_flatMap.mpr ⟨a, ha, (hadj a b).mpr hab⟩)
  nearer_first := List.Pairwise.nil

theorem Level.next {d : ℕ} {seen candidates : List α} (hadj : ∀ a b, b ∈ adj a ↔ r a b)
    (h : Level r sources d seen candidates) (hd : 1 ≤ d) :
    Level r sources (d + 1) (seen ++ newcomers id seen candidates)
      ((newcomers id seen candidates).flatMap adj) where
  nodup := nodup_append_newcomers h.nodup candidates
  mem_seen := h.mem_visited hd
  candidate b hb := by
    obtain ⟨a, ha, hab⟩ := List.mem_flatMap.mp hb
    exact ⟨a, h.candidate a (mem_newcomers.mp ha).2, (hadj a b).mp hab⟩
  reached b := by
    rintro ⟨a, hreach, hab⟩
    by_cases hseen : a ∈ seen
    · obtain ⟨j, hj, hjd, hreachA⟩ := (h.mem_seen a).mp hseen
      refine Or.inl ((h.mem_visited hd b).mpr ⟨j + 1, ?_, Nat.succ_lt_succ hjd, a, hreachA, hab⟩)
      exact Nat.le_add_left 1 j
    · have hnew := mem_newcomers.mpr ⟨hseen, (h.reached a hreach).resolve_left hseen⟩
      exact Or.inr (List.mem_flatMap.mpr ⟨a, hnew, (hadj a b).mpr hab⟩)
  nearer_first := h.pairwise_visited hd

/-! ## What the order lists -/

/-- The levels together: another level would find the list `discover` ends with. -/
theorem Level.discover (k : ℕ) {d : ℕ} {seen candidates : List α}
    (hadj : ∀ a b, b ∈ adj a ↔ r a b) (h : Level r sources d seen candidates) (hd : 1 ≤ d) :
    ∃ rest, Level r sources (d + k + 1) (discover adj k seen candidates) rest := by
  induction k generalizing d seen candidates with
  | zero => exact ⟨_, h.next hadj hd⟩
  | succ k ih =>
    obtain ⟨rest, hrest⟩ := ih (h.next hadj hd) (Nat.le_add_left 1 d)
    refine ⟨rest, ?_⟩
    rwa [Nat.add_right_comm d 1 k] at hrest

theorem exists_level_order (hadj : ∀ a b, b ∈ adj a ↔ r a b) (hops : ℕ) :
    ∃ rest, Level r sources (hops + 1) (order adj sources hops) rest := by
  cases hops with
  | zero => exact ⟨_, level_one hadj⟩
  | succ k =>
    obtain ⟨rest, hrest⟩ := (level_one hadj).discover k hadj le_rfl
    refine ⟨rest, ?_⟩
    rwa [Nat.add_comm 1 k] at hrest

theorem order_nodup (hadj : ∀ a b, b ∈ adj a ↔ r a b) (hops : ℕ) :
    (order adj sources hops).Nodup := by
  obtain ⟨rest, h⟩ := exists_level_order hadj hops
  exact h.nodup

theorem within_of_mem_order (hadj : ∀ a b, b ∈ adj a ↔ r a b) {hops : ℕ} {a : α}
    (ha : a ∈ order adj sources hops) : WithinSteps r sources hops a := by
  obtain ⟨rest, h⟩ := exists_level_order hadj hops
  obtain ⟨j, _, hj, hreach⟩ := (h.mem_seen a).mp ha
  exact within_of_reachedIn hreach (Nat.lt_succ_iff.mp hj)

theorem mem_order_of_within (hadj : ∀ a b, b ∈ adj a ↔ r a b) {hops : ℕ} {a : α}
    (h : WithinSteps r sources hops a) (ha : a ∉ sources) : a ∈ order adj sources hops := by
  obtain ⟨rest, hlevel⟩ := exists_level_order hadj hops
  obtain ⟨j, hj, hjd, hreach⟩ := exists_reachedIn_pos h ha
  exact (hlevel.mem_seen a).mpr ⟨j, hj, Nat.lt_succ_of_le hjd, hreach⟩

variable (sources) in
/-- What is listed earlier is not farther away. -/
theorem order_nearer_first (hadj : ∀ a b, b ∈ adj a ↔ r a b) (hops : ℕ) :
    (order adj sources hops).Pairwise fun a b =>
      b ∉ sources → ∀ d, WithinSteps r sources d b → WithinSteps r sources d a := by
  obtain ⟨rest, h⟩ := exists_level_order hadj hops
  refine h.nearer_first.imp fun {a b} hab hb d hwithin => ?_
  obtain ⟨j, hj, hjd, hreach⟩ := exists_reachedIn_pos hwithin hb
  obtain ⟨i, _, hij, hreachA⟩ := hab j hj hreach
  exact within_of_reachedIn hreachA (hij.trans hjd)

end BreadthFirst

end Ragx
