import Mathlib.Data.List.Basic

/-!
# Commands that may raise

A command takes a state to a state, and may raise after it has changed it. A sequence and
a loop stop at the first part that raises; what was done before stays done. So an invariant
rule is about every command, and the views of a loop are about successful ones.
-/
namespace Ragx

/-- The state afterwards, and the exception if the command raised. -/
abbrev Command (σ ε : Type*) := σ → σ × Option ε

namespace Command

variable {σ ε α : Type*}

def skip : Command σ ε := fun s => (s, none)

def andThen (c d : Command σ ε) : Command σ ε := fun s =>
  match c s with
  | (s', none) => d s'
  | (s', some e) => (s', some e)

def forEach (body : α → Command σ ε) : List α → Command σ ε
  | [] => skip
  | x :: xs => (body x).andThen (forEach body xs)

/-- The state after the command, if it does not raise. -/
def completed (c : Command σ ε) (s : σ) : Option σ :=
  match c s with
  | (s', none) => some s'
  | (_, some _) => none

theorem completed_eq_some {c : Command σ ε} {s s' : σ} :
    c.completed s = some s' ↔ (c s).2 = none ∧ (c s).1 = s' := by
  unfold completed
  cases c s with
  | mk t raised =>
    cases raised with
    | none => simp
    | some e => simp

/-! ## Sequences -/

theorem andThen_of_none {c d : Command σ ε} {s : σ} (h : (c s).2 = none) :
    c.andThen d s = d (c s).1 := by
  unfold andThen
  cases hc : c s with
  | mk s' raised =>
    rw [hc] at h
    cases h
    rfl

theorem andThen_of_some {c d : Command σ ε} {s : σ} {e : ε} (h : (c s).2 = some e) :
    c.andThen d s = c s := by
  unfold andThen
  cases hc : c s with
  | mk s' raised =>
    rw [hc] at h
    cases h
    rfl

theorem andThen_raised_eq_none {c d : Command σ ε} {s : σ} :
    (c.andThen d s).2 = none ↔ (c s).2 = none ∧ (d (c s).1).2 = none := by
  cases h : (c s).2 with
  | none => simp [andThen_of_none h]
  | some e => simp [andThen_of_some h, h]

theorem andThen_invariant {c d : Command σ ε} {I : σ → Prop} {s : σ} (hc : I (c s).1)
    (hd : (c s).2 = none → I (d (c s).1).1) : I (c.andThen d s).1 := by
  cases h : (c s).2 with
  | none =>
    rw [andThen_of_none h]
    exact hd h
  | some e =>
    rw [andThen_of_some h]
    exact hc

/-- What neither part changes, the sequence leaves as it was. -/
theorem andThen_keeps {τ : Type*} (view : σ → τ) {c d : Command σ ε}
    (hc : ∀ s, view (c s).1 = view s) (hd : ∀ s, view (d s).1 = view s) (s : σ) :
    view (c.andThen d s).1 = view s :=
  andThen_invariant (I := fun t => view t = view s) (hc s) fun _ => (hd _).trans (hc s)

/-! ## Loops -/

variable {body : α → Command σ ε}

theorem forEach_append (xs ys : List α) (s : σ) :
    forEach body (xs ++ ys) s = (forEach body xs).andThen (forEach body ys) s := by
  induction xs generalizing s with
  | nil => rfl
  | cons x xs ih =>
    cases h : (body x s).2 with
    | none =>
      have hhead : forEach body (x :: xs) s = forEach body xs (body x s).1 := andThen_of_none h
      calc forEach body (x :: (xs ++ ys)) s
          = forEach body (xs ++ ys) (body x s).1 := andThen_of_none h
        _ = (forEach body xs).andThen (forEach body ys) (body x s).1 := ih _
        _ = (forEach body (x :: xs)).andThen (forEach body ys) s := by
          unfold andThen
          rw [hhead]
    | some e =>
      have hhead : forEach body (x :: xs) s = body x s := andThen_of_some h
      have hsnd : (forEach body (x :: xs) s).2 = some e := hhead ▸ h
      exact (andThen_of_some h).trans (hhead.symm.trans (andThen_of_some hsnd).symm)

theorem forEach_singleton (x : α) (s : σ) : forEach body [x] s = body x s := by
  cases h : (body x s).2 with
  | none =>
    have hskip : forEach body [x] s = ((body x s).1, none) := andThen_of_none h
    exact hskip.trans (Prod.ext rfl h.symm)
  | some e => exact andThen_of_some h

theorem forEach_concat_raised_eq_none {xs : List α} {x : α} {s : σ} :
    (forEach body (xs ++ [x]) s).2 = none ↔
      (forEach body xs s).2 = none ∧ (body x (forEach body xs s).1).2 = none := by
  rw [forEach_append, andThen_raised_eq_none, forEach_singleton]

theorem forEach_concat_of_none {xs : List α} {x : α} {s : σ}
    (h : (forEach body xs s).2 = none) :
    (forEach body (xs ++ [x]) s).1 = (body x (forEach body xs s).1).1 := by
  rw [forEach_append, andThen_of_none h, forEach_singleton]

/-- What every body keeps, whether it raises or not, the loop keeps. -/
theorem forEach_invariant {I : σ → Prop} {xs : List α} {s : σ}
    (hbody : ∀ x ∈ xs, ∀ s, I s → I (body x s).1) (hs : I s) : I (forEach body xs s).1 := by
  induction xs generalizing s with
  | nil => exact hs
  | cons x xs ih =>
    have hhead := hbody x List.mem_cons_self s hs
    exact andThen_invariant hhead fun _ =>
      ih (fun y hy => hbody y (List.mem_cons_of_mem x hy)) hhead

/-- A successful loop is the fold of what its bodies do to a part of the state. -/
theorem forEach_view_of_none {τ : Type*} (view : σ → τ) {f : τ → α → τ} {xs : List α} {s : σ}
    (hbody : ∀ x ∈ xs, ∀ s, (body x s).2 = none → view (body x s).1 = f (view s) x)
    (hok : (forEach body xs s).2 = none) :
    view (forEach body xs s).1 = xs.foldl f (view s) := by
  induction xs generalizing s with
  | nil => rfl
  | cons x xs ih =>
    obtain ⟨hx, hxs⟩ := andThen_raised_eq_none.mp hok
    have hloop : forEach body (x :: xs) s = forEach body xs (body x s).1 := andThen_of_none hx
    rw [hloop, ih (fun y hy => hbody y (List.mem_cons_of_mem x hy)) hxs,
      hbody x List.mem_cons_self s hx, List.foldl_cons]

end Command

end Ragx
