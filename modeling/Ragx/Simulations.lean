import Ragx.EventRuns

/-!
# Outputs of runs and forward simulations

What the steps of a run put out, one after the other. If the outputs are events of a
second system and every step of the first is matched by the events that it puts out, then a
whole run is matched by all of its outputs.
-/
namespace Ragx

section Simulations

variable {σ τ ε δ ω : Type*} {step : σ → ε → Option σ} {astep : τ → δ → Option τ}

/-- What the steps of a run put out, up to an event that cannot happen. -/
def outputs (step : σ → ε → Option σ) (out : σ → ε → σ → List ω) (s : σ) : List ε → List ω
  | [] => []
  | e :: es =>
    match step s e with
    | none => []
    | some s' => out s e s' ++ outputs step out s' es

theorem outputs_cons {out : σ → ε → σ → List ω} {s s' : σ} {e : ε} (h : step s e = some s')
    (es : List ε) : outputs step out s (e :: es) = out s e s' ++ outputs step out s' es := by
  simp only [outputs, h]

/-- A run of two parts goes through the state between them. -/
theorem run_append {s t : σ} {es es' : List ε} :
    run step s (es ++ es') = some t ↔
      ∃ u, run step s es = some u ∧ run step u es' = some t := by
  induction es generalizing s with
  | nil => exact ⟨fun h => ⟨s, rfl, h⟩, fun ⟨_, hu, h⟩ => by cases hu; exact h⟩
  | cons e es ih =>
    rw [List.cons_append]
    cases hs : step s e with
    | none => simp [run, hs]
    | some s' =>
      rw [run_cons hs, run_cons hs]
      exact ih

theorem outputs_append {out : σ → ε → σ → List ω} {s t : σ} {es : List ε}
    (h : run step s es = some t) (es' : List ε) :
    outputs step out s (es ++ es') = outputs step out s es ++ outputs step out t es' := by
  induction es generalizing s with
  | nil =>
    cases h
    rfl
  | cons e es ih =>
    obtain ⟨s', hs, hrest⟩ := run_cons_eq_some h
    rw [List.cons_append, outputs_cons hs, outputs_cons hs, ih hrest, List.append_assoc]

/-- Invariant rule for the state beside everything that has been put out so far. -/
theorem run_outputs {out : σ → ε → σ → List ω} {I : σ → List ω → Prop}
    (hstep : ∀ s e s' os, I s os → step s e = some s' → I s' (os ++ out s e s'))
    {s t : σ} {es : List ε} {os : List ω} (hs : I s os) (hrun : run step s es = some t) :
    I t (os ++ outputs step out s es) := by
  induction es generalizing s os with
  | nil =>
    cases hrun
    rwa [outputs, List.append_nil]
  | cons e es ih =>
    obtain ⟨s', he, hrest⟩ := run_cons_eq_some hrun
    rw [outputs_cons he, ← List.append_assoc]
    exact ih (hstep s e s' os hs he) hrest

/-- What holds of everything that a step can put out holds of all that a run does. -/
theorem forall_mem_outputs {out : σ → ε → σ → List ω} {P : ω → Prop} {es : List ε}
    (h : ∀ e ∈ es, ∀ s s', step s e = some s' → ∀ o ∈ out s e s', P o) (s : σ) :
    ∀ o ∈ outputs step out s es, P o := by
  induction es generalizing s with
  | nil => exact fun _ ho => absurd ho List.not_mem_nil
  | cons e es ih =>
    cases hs : step s e with
    | none => simp [outputs, hs]
    | some s' =>
      rw [outputs_cons hs]
      refine List.forall_mem_append.mpr ⟨h e List.mem_cons_self s s' hs, ?_⟩
      exact ih (fun x hx => h x (List.mem_cons_of_mem e hx)) s'

/-- Steps that put out at most what belongs to their event put out no more in a run. -/
theorem outputs_sublist {out : σ → ε → σ → List ω} {f : ε → ω}
    (h : ∀ s e s', (out s e s').Sublist [f e]) (s : σ) (es : List ε) :
    (outputs step out s es).Sublist (es.map f) := by
  induction es generalizing s with
  | nil => exact List.Sublist.refl _
  | cons e es ih =>
    cases hs : step s e with
    | none => simp [outputs, hs]
    | some s' =>
      rw [outputs_cons hs]
      exact (h s e s').append (ih s')

/-- Simulation rule: a relation that every step keeps, with the events that the step puts out on
the other side, is kept by a run. -/
theorem run_simulates {R : σ → τ → Prop} {out : σ → ε → σ → List δ} {es : List ε}
    (hstep : ∀ e ∈ es, ∀ s s' a, R s a → step s e = some s' →
      ∃ a', run astep a (out s e s') = some a' ∧ R s' a')
    {s t : σ} {a : τ} (hR : R s a) (hrun : run step s es = some t) :
    ∃ a', run astep a (outputs step out s es) = some a' ∧ R t a' := by
  induction es generalizing s a with
  | nil =>
    cases hrun
    exact ⟨a, rfl, hR⟩
  | cons e es ih =>
    obtain ⟨s', hs, hrest⟩ := run_cons_eq_some hrun
    obtain ⟨b, hb, hR'⟩ := hstep e List.mem_cons_self s s' a hR hs
    obtain ⟨a', ha', hR''⟩ := ih (fun x hx => hstep x (List.mem_cons_of_mem e hx)) hR' hrest
    refine ⟨a', ?_, hR''⟩
    rw [outputs_cons hs]
    exact run_append.mpr ⟨b, hb, ha'⟩

/-- A system in which some events may be left out: the rest of them does what it did. -/
theorem run_filter {R : σ → σ → Prop} {keep : ε → Bool} {es : List ε}
    (hkept : ∀ e ∈ es, keep e = true → ∀ s s' a, R s a → step s e = some s' →
      ∃ a', step a e = some a' ∧ R s' a')
    (hleft : ∀ e ∈ es, keep e = false → ∀ s s' a, R s a → step s e = some s' → R s' a)
    {s t a : σ} (hR : R s a) (hrun : run step s es = some t) :
    ∃ a', run step a (es.filter keep) = some a' ∧ R t a' := by
  induction es generalizing s a with
  | nil =>
    cases hrun
    exact ⟨a, rfl, hR⟩
  | cons e es ih =>
    obtain ⟨s', hs, hrest⟩ := run_cons_eq_some hrun
    have hkept' := fun x hx => hkept x (List.mem_cons_of_mem e hx)
    have hleft' := fun x hx => hleft x (List.mem_cons_of_mem e hx)
    cases hkeep : keep e with
    | true =>
      obtain ⟨b, hb, hR'⟩ := hkept e List.mem_cons_self hkeep s s' a hR hs
      rw [List.filter_cons_of_pos hkeep, run_cons hb]
      exact ih hkept' hleft' hR' hrest
    | false =>
      rw [List.filter_cons_of_neg (by rw [hkeep]; exact Bool.false_ne_true)]
      exact ih hkept' hleft' (hleft e List.mem_cons_self hkeep s s' a hR hs) hrest

end Simulations

end Ragx
