import Mathlib.Data.Nat.Init
import Mathlib.Data.Option.Basic

/-!
# Runs of a partial step function

A system takes one event at a time; `none` says that the event cannot happen in
that state. A property of a run is a property of each of its steps, and both
directions of an equivalence between two such properties follow from one
invariant and one lemma about a single step.
-/
namespace Ragx

section EventRuns

variable {σ ε : Type*} (step : σ → ε → Option σ)

/-- The state after all events, if each of them can happen. -/
def run (s : σ) : List ε → Option σ
  | [] => some s
  | e :: es =>
    match step s e with
    | none => none
    | some s' => run s' es

/-- `P` holds of every step that the run takes, up to an event that cannot happen. -/
def EveryStep (P : σ → ε → σ → Prop) (s : σ) : List ε → Prop
  | [] => True
  | e :: es =>
    match step s e with
    | none => True
    | some s' => P s e s' ∧ EveryStep P s' es

instance (P : σ → ε → σ → Prop) [∀ s e s', Decidable (P s e s')] :
    ∀ (s : σ) (es : List ε), Decidable (EveryStep step P s es)
  | _, [] => isTrue trivial
  | s, e :: es =>
    match h : step s e with
    | none => isTrue (by simp only [EveryStep, h])
    | some s' =>
      have := instDecidableEveryStep P s' es
      decidable_of_iff (P s e s' ∧ EveryStep step P s' es) (by simp only [EveryStep, h])

variable {step}

theorem everyStep_cons {P : σ → ε → σ → Prop} {s s' : σ} {e : ε} {es : List ε}
    (h : step s e = some s') :
    EveryStep step P s (e :: es) ↔ P s e s' ∧ EveryStep step P s' es := by
  simp only [EveryStep, h]

theorem run_cons {s s' : σ} {e : ε} {es : List ε} (h : step s e = some s') :
    run step s (e :: es) = run step s' es := by
  simp only [run, h]

theorem run_cons_eq_some {s t : σ} {e : ε} {es : List ε} (h : run step s (e :: es) = some t) :
    ∃ s', step s e = some s' ∧ run step s' es = some t := by
  cases hs : step s e with
  | none => simp [run, hs] at h
  | some s' => exact ⟨s', rfl, run_cons hs ▸ h⟩

/-- Invariant rule: what every step keeps, the run keeps. -/
theorem run_invariant {I : σ → Prop} (hstep : ∀ s e s', I s → step s e = some s' → I s')
    {s t : σ} {es : List ε} (hs : I s) (hrun : run step s es = some t) : I t := by
  induction es generalizing s with
  | nil =>
    cases hrun
    exact hs
  | cons e es ih =>
    obtain ⟨s', hs', hrest⟩ := run_cons_eq_some hrun
    exact ih (hstep s e s' hs hs') hrest

/-- What the events of a run have by themselves, its steps have. -/
theorem everyStep_of_forall {P : σ → ε → σ → Prop} {es : List ε}
    (h : ∀ e ∈ es, ∀ s s', P s e s') (s : σ) : EveryStep step P s es := by
  induction es generalizing s with
  | nil => trivial
  | cons e es ih =>
    cases hs : step s e with
    | none => simp only [EveryStep, hs]
    | some s' =>
      exact (everyStep_cons hs).mpr ⟨h e List.mem_cons_self s s',
        ih (fun x hx => h x (List.mem_cons_of_mem e hx)) s'⟩

/-- In a system that never stops, the steps have what all events have by themselves. -/
theorem everyStep_iff_forall (htotal : ∀ s e, (step s e).isSome) {P : ε → Prop} (s : σ)
    (es : List ε) : EveryStep step (fun _ e _ => P e) s es ↔ ∀ e ∈ es, P e := by
  refine ⟨fun h => ?_, fun h => everyStep_of_forall (fun e he _ _ => h e he) s⟩
  induction es generalizing s with
  | nil => exact fun _ he => absurd he List.not_mem_nil
  | cons e es ih =>
    obtain ⟨s', hs'⟩ := Option.isSome_iff_exists.mp (htotal s e)
    obtain ⟨hP, hrest⟩ := (everyStep_cons hs').mp h
    exact List.forall_mem_cons.mpr ⟨hP, ih s' hrest⟩

/-- What every guarded step keeps, a guarded run keeps. -/
theorem run_invariant_of_guarded {I : σ → Prop} {G : σ → ε → σ → Prop}
    (hstep : ∀ s e s', I s → step s e = some s' → G s e s' → I s') {s t : σ} {es : List ε}
    (hs : I s) (hG : EveryStep step G s es) (hrun : run step s es = some t) : I t := by
  induction es generalizing s with
  | nil =>
    cases hrun
    exact hs
  | cons e es ih =>
    obtain ⟨s', hs', hrest⟩ := run_cons_eq_some hrun
    obtain ⟨hguard, hguards⟩ := (everyStep_cons hs').mp hG
    exact ih (hstep s e s' hs hs' hguard) hguards hrest

/-- Progress rule: where the invariant holds, some allowed event reaches the goal or lowers the
rank, so a run of allowed events reaches the goal. -/
theorem exists_run_of_rank {I G : σ → Prop} {A : ε → Prop} (rank : σ → ℕ)
    (hnext : ∀ s, I s → ¬ G s →
      ∃ e s', A e ∧ step s e = some s' ∧ I s' ∧ (G s' ∨ rank s' < rank s))
    {s : σ} (hs : I s) : ∃ es s', (∀ e ∈ es, A e) ∧ run step s es = some s' ∧ G s' := by
  induction hn : rank s using Nat.strong_induction_on generalizing s with
  | _ n ih =>
    by_cases hG : G s
    · exact ⟨[], s, fun _ h => absurd h List.not_mem_nil, rfl, hG⟩
    · obtain ⟨e, s', hA, hstep, hs', hgoal | hless⟩ := hnext s hs hG
      · exact ⟨[e], s', fun x hx => List.mem_singleton.mp hx ▸ hA, run_cons hstep, hgoal⟩
      · obtain ⟨es, t, hes, hrun, ht⟩ := ih (rank s') (hn ▸ hless) hs' rfl
        refine ⟨e :: es, t, fun x hx => ?_, (run_cons hstep).trans hrun, ht⟩
        rcases List.mem_cons.mp hx with rfl | hx
        · exact hA
        · exact hes x hx

/-- What holds in a run holds in the rest of it. -/
theorem EveryStep.of_append {P : σ → ε → σ → Prop} {s t : σ} {es es' : List ε}
    (h : EveryStep step P s (es ++ es')) (hrun : run step s es = some t) :
    EveryStep step P t es' := by
  induction es generalizing s with
  | nil =>
    cases hrun
    exact h
  | cons e es ih =>
    obtain ⟨s', hs', hrest⟩ := run_cons_eq_some hrun
    rw [List.cons_append, everyStep_cons hs'] at h
    exact ih h.2 hrest

/-- Under an invariant that the guard keeps, each step inherits a property from the guard. -/
theorem EveryStep.of_invariant {I : σ → Prop} {G P : σ → ε → σ → Prop}
    (hstep : ∀ s e s', I s → step s e = some s' → G s e s' → P s e s' ∧ I s')
    {s : σ} {es : List ε} (hs : I s) (hG : EveryStep step G s es) : EveryStep step P s es := by
  induction es generalizing s with
  | nil => trivial
  | cons e es ih =>
    cases h : step s e with
    | none => simp only [EveryStep, h]
    | some s' =>
      obtain ⟨hguard, hguards⟩ := (everyStep_cons h).mp hG
      obtain ⟨hP, hs'⟩ := hstep s e s' hs h hguard
      exact (everyStep_cons h).mpr ⟨hP, ih hs' hguards⟩

theorem EveryStep.and {P Q : σ → ε → σ → Prop} {s : σ} {es : List ε}
    (hP : EveryStep step P s es) (hQ : EveryStep step Q s es) :
    EveryStep step (fun s e s' => P s e s' ∧ Q s e s') s es := by
  induction es generalizing s with
  | nil => trivial
  | cons e es ih =>
    cases h : step s e with
    | none => simp only [EveryStep, h]
    | some s' =>
      rw [everyStep_cons h] at hP hQ
      exact (everyStep_cons h).mpr ⟨⟨hP.1, hQ.1⟩, ih hP.2 hQ.2⟩

theorem EveryStep.imp {P Q : σ → ε → σ → Prop} (hPQ : ∀ s e s', P s e s' → Q s e s') {s : σ}
    {es : List ε} (h : EveryStep step P s es) : EveryStep step Q s es :=
  EveryStep.of_invariant (I := fun _ => True) (fun s e s' _ _ hP => ⟨hPQ s e s' hP, trivial⟩)
    trivial h

/-- Two step properties that agree wherever the invariant holds, and keep it, agree on
every run. -/
theorem everyStep_congr {I : σ → Prop} {P Q : σ → ε → σ → Prop}
    (hstep : ∀ s e s', I s → step s e = some s' → (P s e s' ↔ Q s e s') ∧ (Q s e s' → I s'))
    {s : σ} {es : List ε} (hs : I s) : EveryStep step P s es ↔ EveryStep step Q s es := by
  constructor
  · refine EveryStep.of_invariant (fun s e s' hI h hP => ?_) hs
    have hQ := (hstep s e s' hI h).1.mp hP
    exact ⟨hQ, (hstep s e s' hI h).2 hQ⟩
  · refine EveryStep.of_invariant (fun s e s' hI h hQ => ?_) hs
    exact ⟨(hstep s e s' hI h).1.mpr hQ, (hstep s e s' hI h).2 hQ⟩

end EventRuns

end Ragx
