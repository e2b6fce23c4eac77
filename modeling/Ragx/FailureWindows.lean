import Ragx.CircuitBreaker
import Ragx.SlidingWindows

/-!
# The window of the failure rate

The samples of a key are kept in one-second buckets, cut from the front. A failure of a closed
circuit is judged by the buckets kept, and one more is kept than the window has seconds.
-/
namespace Ragx

open SlidingWindow

inductive KeyEvent where
  | ask
  | success
  | failure

structure TimedEvent where
  time : ℚ
  event : KeyEvent

/-- One key, with all the samples ever recorded for it. -/
structure SampleRun where
  clock : ℚ
  circuit : KeyCircuit := {}
  samples : List (ℤ × Bool) := []

/-- Enough of `n` samples are failures, of which there are `k`. -/
def TripsAt (cfg : CircuitConfig) (n k : ℕ) : Prop :=
  cfg.minSamples ≤ n ∧ cfg.failureRate ≤ (k : ℚ) / n

instance (cfg : CircuitConfig) (n k : ℕ) : Decidable (TripsAt cfg n k) :=
  inferInstanceAs (Decidable (_ ∧ _))

/-- The samples of the buckets from `low` to `high`. -/
def inBuckets (low high : ℤ) (samples : List (ℤ × Bool)) : List (ℤ × Bool) :=
  samples.filter fun b => low ≤ b.1 ∧ b.1 ≤ high

def failureCount (samples : List (ℤ × Bool)) : ℕ := samples.countP fun b => !b.2

namespace SampleRun

/-- Time never goes back. -/
def step (cfg : CircuitConfig) (w : SampleRun) (e : TimedEvent) : Option SampleRun :=
  if e.time < w.clock then none
  else match e.event with
    | .ask => some { w with clock := e.time, circuit := (w.circuit.isOpen cfg e.time).2 }
    | .success => some {
        clock := e.time
        circuit := w.circuit.recordSuccess cfg e.time
        samples := w.samples ++ [(truncate e.time, true)] }
    | .failure => some {
        clock := e.time
        circuit := w.circuit.recordFailure cfg e.time
        samples := w.samples ++ [(truncate e.time, false)] }

/-- A failure opens a closed circuit exactly if it trips the last `W` buckets. -/
def DecidesByWindow (cfg : CircuitConfig) (W : ℕ) (w : SampleRun) (e : TimedEvent)
    (w' : SampleRun) : Prop :=
  match e.event with
  | .failure =>
    w.circuit.state = .closed →
      (w'.circuit.state = .opened ↔
        let window := inBuckets (truncate e.time - W + 1) (truncate e.time) w'.samples
        TripsAt cfg window.length (failureCount window))
  | _ => True

/-- The samples that are `W` seconds old make no difference to a failure of a closed circuit. -/
def OldestIrrelevant (cfg : CircuitConfig) (W : ℕ) (w : SampleRun) (e : TimedEvent)
    (_ : SampleRun) : Prop :=
  match e.event with
  | .failure =>
    w.circuit.state = .closed →
      let recent := inBuckets (truncate e.time - W + 1) (truncate e.time) w.samples
      let oldest := inBuckets (truncate e.time - W) (truncate e.time - W) w.samples
      (TripsAt cfg (oldest.length + recent.length + 1)
          (failureCount oldest + failureCount recent + 1) ↔
        TripsAt cfg (recent.length + 1) (failureCount recent + 1))
  | _ => True

instance (cfg : CircuitConfig) (W : ℕ) (w : SampleRun) (e : TimedEvent) (w' : SampleRun) :
    Decidable (DecidesByWindow cfg W w e w') :=
  match e with
  | ⟨_, .ask⟩ | ⟨_, .success⟩ => isTrue trivial
  | ⟨now, .failure⟩ =>
    inferInstanceAs (Decidable (w.circuit.state = .closed →
      (w'.circuit.state = .opened ↔
        TripsAt cfg (inBuckets (truncate now - W + 1) (truncate now) w'.samples).length
          (failureCount (inBuckets (truncate now - W + 1) (truncate now) w'.samples)))))

/-- The buckets are a window of the samples, none of which is ahead of the clock. -/
structure Windowed (cfg : CircuitConfig) (w : SampleRun) : Prop where
  kept : ∃ cutoff ≤ truncate w.clock - truncate cfg.windowS,
    IsWindow Prod.fst cutoff w.samples w.circuit.buckets
  recorded : ∀ b ∈ w.samples, b.1 ≤ truncate w.clock

end SampleRun

theorem truncate_mono {p q : ℚ} (h : p ≤ q) : truncate p ≤ truncate q := by
  unfold truncate
  split_ifs with hp hq hq
  · exact Int.floor_mono h
  · exact absurd (hp.trans h) hq
  · exact (Int.ceil_le.mpr (by simpa using (not_le.mp hp).le)).trans (Int.floor_nonneg.mpr hq)
  · exact Int.ceil_mono h

namespace KeyCircuit

variable {cfg : CircuitConfig} {now : ℚ} {c : KeyCircuit}

theorem prune_eq_cut (buckets : List (ℤ × Bool)) :
    prune cfg now buckets = cut Prod.fst (truncate now - truncate cfg.windowS) buckets := rfl

theorem windowTrips_iff {window : List (ℤ × Bool)} :
    windowTrips cfg window = true ↔ TripsAt cfg window.length (failureCount window) := by
  rw [windowTrips, Bool.and_eq_true, decide_eq_true_iff, decide_eq_true_iff]
  exact Iff.rfl

/-- A failure of a closed circuit opens it exactly if it trips the buckets kept. -/
theorem state_recordFailure_iff (h : c.state = .closed) :
    (c.recordFailure cfg now).state = .opened ↔
      TripsAt cfg (c.failureWindow cfg now).length (failureCount (c.failureWindow cfg now)) := by
  rw [← windowTrips_iff]
  cases htrips : windowTrips cfg (c.failureWindow cfg now) with
  | true => exact iff_of_true (recordFailure_of_trips htrips).1 rfl
  | false =>
    rw [(recordFailure_of_not_trips htrips).1, h]
    exact iff_of_false nofun nofun

theorem buckets_isOpen : (c.isOpen cfg now).2.buckets = c.buckets := by
  unfold isOpen
  cases c.state with
  | opened =>
    dsimp only
    split_ifs <;> rfl
  | closed | halfOpen => rfl

theorem buckets_recordSuccess : (c.recordSuccess cfg now).buckets =
    cut Prod.fst (truncate now - truncate cfg.windowS) (c.buckets ++ [(truncate now, true)]) := by
  unfold recordSuccess append
  split_ifs
  · exact prune_eq_cut _
  · exact prune_eq_cut _

theorem buckets_recordFailure : (c.recordFailure cfg now).buckets = c.failureWindow cfg now := by
  unfold recordFailure maybeOpen
  dsimp only
  split_ifs <;> rfl

end KeyCircuit

/-! ## Counting samples by buckets -/

section Buckets

variable {low now : ℤ} {samples : List (ℤ × Bool)}

/-- Up to now, the samples from a bucket on are those of that bucket and of the later ones. -/
theorem countP_since (q : ℤ × Bool → Bool) (h : ∀ b ∈ samples, b.1 ≤ now) :
    (since Prod.fst low samples).countP q =
      (inBuckets low low samples).countP q + (inBuckets (low + 1) now samples).countP q := by
  induction samples with
  | nil => rfl
  | cons b samples ih =>
    have hlast := h b List.mem_cons_self
    have hrest := ih fun b hb => h b (List.mem_cons_of_mem _ hb)
    unfold since inBuckets at hrest ⊢
    simp only [List.filter_cons, decide_eq_true_eq]
    rcases lt_trichotomy b.1 low with hlt | rfl | hgt
    · rw [if_neg (by omega), if_neg (by omega), if_neg (by omega)]
      exact hrest
    · rw [if_pos le_rfl, if_pos ⟨le_rfl, le_rfl⟩, if_neg (by omega), List.countP_cons,
        List.countP_cons, hrest]
      omega
    · rw [if_pos hgt.le, if_neg (by omega), if_pos ⟨hgt, hlast⟩, List.countP_cons,
        List.countP_cons, hrest]
      omega

theorem length_since (h : ∀ b ∈ samples, b.1 ≤ now) :
    (since Prod.fst low samples).length =
      (inBuckets low low samples).length + (inBuckets (low + 1) now samples).length := by
  simpa only [List.countP_true] using countP_since (fun _ => true) h

theorem inBuckets_concat_of_mem {b : ℤ × Bool} (h : low ≤ b.1 ∧ b.1 ≤ now) :
    inBuckets low now (samples ++ [b]) = inBuckets low now samples ++ [b] := by
  rw [inBuckets, List.filter_append, List.filter_cons_of_pos (by rwa [decide_eq_true_eq])]
  rfl

theorem inBuckets_concat_of_not_mem {b : ℤ × Bool} (h : ¬ (low ≤ b.1 ∧ b.1 ≤ now)) :
    inBuckets low now (samples ++ [b]) = inBuckets low now samples := by
  rw [inBuckets, List.filter_append, List.filter_cons_of_neg (by rwa [decide_eq_true_eq]),
    List.filter_nil, List.append_nil]
  rfl

theorem failureCount_since (h : ∀ b ∈ samples, b.1 ≤ now) :
    failureCount (since Prod.fst low samples) =
      failureCount (inBuckets low low samples) + failureCount (inBuckets (low + 1) now samples) :=
  countP_since _ h

theorem failureCount_concat_failure :
    failureCount (samples ++ [(now, false)]) = failureCount samples + 1 := by
  rw [failureCount, List.countP_append]
  rfl

end Buckets

/-! ## Runs -/

namespace SampleRun

variable {cfg : CircuitConfig} {W : ℕ} {w w' : SampleRun} {e : TimedEvent}

/-- What the clock and the samples of a step allow for the window. -/
theorem Windowed.record (hw : Windowed cfg w) {now : ℚ} (hclock : w.clock ≤ now) (success : Bool) :
    IsWindow Prod.fst (truncate now - truncate cfg.windowS)
        (w.samples ++ [(truncate now, success)])
        (cut Prod.fst (truncate now - truncate cfg.windowS)
          (w.circuit.buckets ++ [(truncate now, success)])) ∧
      ∀ b ∈ w.samples ++ [(truncate now, success)], b.1 ≤ truncate now := by
  have hmono := truncate_mono hclock
  obtain ⟨cutoff, hcutoff, hwindow⟩ := hw.kept
  refine ⟨hwindow.append (fun b hb => (hw.recorded b hb).trans hmono) (by omega), ?_⟩
  intro b hb
  rcases List.mem_append.mp hb with hb | hb
  · exact (hw.recorded b hb).trans hmono
  · rw [List.mem_singleton.mp hb]

/-- The window that a failure is judged by. -/
theorem Windowed.failureWindow (hw : Windowed cfg w) {now : ℚ} (hclock : w.clock ≤ now) :
    IsWindow Prod.fst (truncate now - truncate cfg.windowS)
      (w.samples ++ [(truncate now, false)]) (w.circuit.failureWindow cfg now) :=
  (hw.record hclock false).1.recut le_rfl

theorem windowed_step (hw : Windowed cfg w) (hs : w.step cfg e = some w') : Windowed cfg w' := by
  unfold step at hs
  split_ifs at hs with htime
  have hclock := not_lt.mp htime
  obtain ⟨now, event⟩ := e
  cases event with
  | ask =>
    cases hs
    obtain ⟨cutoff, hcutoff, hwindow⟩ := hw.kept
    have hmono := truncate_mono hclock
    refine ⟨⟨cutoff, ?_, ?_⟩, fun b hb => (hw.recorded b hb).trans hmono⟩
    · dsimp only at hmono ⊢
      omega
    · dsimp only
      rwa [KeyCircuit.buckets_isOpen]
  | success =>
    cases hs
    obtain ⟨hwindow, hlast⟩ := hw.record hclock true
    refine ⟨⟨_, le_rfl, ?_⟩, hlast⟩
    dsimp only
    rw [KeyCircuit.buckets_recordSuccess]
    exact hwindow
  | failure =>
    cases hs
    refine ⟨⟨_, le_rfl, ?_⟩, (hw.record hclock false).2⟩
    dsimp only
    rw [KeyCircuit.buckets_recordFailure]
    exact hw.failureWindow hclock

/-- One step judges by its window exactly if the oldest samples make no difference. -/
theorem decidesByWindow_step (hW : cfg.windowS = W) (hw : Windowed cfg w)
    (hs : w.step cfg e = some w') :
    (DecidesByWindow cfg W w e w' ↔ OldestIrrelevant cfg W w e w') := by
  have hwindow : truncate cfg.windowS = W := by
    rw [hW, truncate, if_pos (Nat.cast_nonneg W)]
    exact Int.floor_natCast W
  have hpos : 0 < W := by
    have hlt := cfg.window_pos
    rw [hW] at hlt
    exact_mod_cast hlt
  unfold step at hs
  split_ifs at hs with htime
  have hclock := not_lt.mp htime
  obtain ⟨now, event⟩ := e
  cases event with
  | ask | success => exact Iff.rfl
  | failure =>
    cases hs
    unfold DecidesByWindow OldestIrrelevant
    refine forall_congr' fun hclosed => ?_
    dsimp only at hclock ⊢
    have hkept := (hw.failureWindow hclock).kept_eq
    have hlast := (hw.record hclock false).2
    have holdest : inBuckets (truncate now - W) (truncate now - W)
        (w.samples ++ [(truncate now, false)]) =
        inBuckets (truncate now - W) (truncate now - W) w.samples :=
      inBuckets_concat_of_not_mem (by dsimp only; omega)
    have hrecent : inBuckets (truncate now - W + 1) (truncate now)
        (w.samples ++ [(truncate now, false)]) =
        inBuckets (truncate now - W + 1) (truncate now) w.samples ++ [(truncate now, false)] :=
      inBuckets_concat_of_mem ⟨by dsimp only; omega, le_rfl⟩
    rw [KeyCircuit.state_recordFailure_iff hclosed, hkept, hwindow, length_since hlast,
      failureCount_since hlast, holdest, hrecent, failureCount_concat_failure, List.length_append,
      List.length_singleton, ← Nat.add_assoc, ← Nat.add_assoc]

/-- In any run from a fresh key, every failure of a closed circuit is judged by the last `W`
buckets exactly if the samples that are `W` seconds old never make a difference. -/
theorem decidesByWindow_iff (cfg : CircuitConfig) (W : ℕ) (start : ℚ) (events : List TimedEvent)
    (hW : cfg.windowS = W) :
    EveryStep (step cfg) (DecidesByWindow cfg W) { clock := start } events ↔
      EveryStep (step cfg) (OldestIrrelevant cfg W) { clock := start } events := by
  have hstep (w : SampleRun) (e : TimedEvent) (w' : SampleRun) (hw : Windowed cfg w)
      (hs : w.step cfg e = some w') :
      (DecidesByWindow cfg W w e w' ↔ OldestIrrelevant cfg W w e w') ∧
        (OldestIrrelevant cfg W w e w' → Windowed cfg w') :=
    ⟨decidesByWindow_step hW hw hs, fun _ => windowed_step hw hs⟩
  exact everyStep_congr hstep ⟨⟨_, le_rfl, IsWindow.empty _⟩, nofun⟩

instance (cfg : CircuitConfig) (W : ℕ) (w : SampleRun) (e : TimedEvent) (w' : SampleRun) :
    Decidable (OldestIrrelevant cfg W w e w') :=
  match e with
  | ⟨_, .ask⟩ | ⟨_, .success⟩ => isTrue trivial
  | ⟨now, .failure⟩ =>
    inferInstanceAs (Decidable (w.circuit.state = .closed →
      (TripsAt cfg
          ((inBuckets (truncate now - W) (truncate now - W) w.samples).length +
            (inBuckets (truncate now - W + 1) (truncate now) w.samples).length + 1)
          (failureCount (inBuckets (truncate now - W) (truncate now - W) w.samples) +
            failureCount (inBuckets (truncate now - W + 1) (truncate now) w.samples) + 1) ↔
        TripsAt cfg ((inBuckets (truncate now - W + 1) (truncate now) w.samples).length + 1)
          (failureCount (inBuckets (truncate now - W + 1) (truncate now) w.samples) + 1))))

/-- Nine failures in one second and one more after the given time. -/
def tenFailures (later : ℚ) : List TimedEvent :=
  List.replicate 9 ⟨0, .failure⟩ ++ [⟨later, .failure⟩]

theorem decidesByWindow_tenFailures :
    EveryStep (step default) (DecidesByWindow default 60) { clock := 0 } (tenFailures 61) :=
  (decidesByWindow_iff default 60 0 (tenFailures 61) rfl).mpr (by decide +kernel)

/-- A minute later the nine are out of the window, and still the tenth opens the circuit. -/
theorem not_decidesByWindow_tenFailures :
    ¬ EveryStep (step default) (DecidesByWindow default 60) { clock := 0 } (tenFailures 60) := by
  decide +kernel

end SampleRun

end Ragx
