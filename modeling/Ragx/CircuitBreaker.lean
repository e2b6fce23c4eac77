import Mathlib.Algebra.Order.Field.Rat
import Mathlib.Data.Rat.Floor
import Ragx.EventRuns

/-!
# Circuit breaker

One circuit for each provider and model: closed, open after too many failures in
a sliding window of one-second buckets, half open once it has been open for
`open_s`. The second half follows the calls around one key and asks which runs
treat the half-open state as a single probe.
-/
namespace Ragx

structure CircuitConfig where
  windowS : ℚ := 60
  failureRate : ℚ := 1 / 2
  minSamples : ℕ := 10
  openS : ℚ := 30
  window_pos : 0 < windowS := by decide +kernel
  rate_nonneg : 0 ≤ failureRate := by decide +kernel
  rate_le_one : failureRate ≤ 1 := by decide +kernel
  minSamples_pos : 1 ≤ minSamples := by decide
  open_pos : 0 < openS := by decide +kernel

instance : Inhabited CircuitConfig := ⟨{}⟩

inductive CircuitState where
  | closed
  | opened
  | halfOpen
deriving DecidableEq, Repr

/-- What the breaker keeps for one key. `openedAt` is read in state `opened` only. -/
structure KeyCircuit where
  state : CircuitState := .closed
  buckets : List (ℤ × Bool) := []
  openedAt : ℚ := 0

/-- Python's `int(x)`: rounds towards zero. -/
def truncate (q : ℚ) : ℤ := if 0 ≤ q then ⌊q⌋ else ⌈q⌉

namespace KeyCircuit

/-- True means fail fast. -/
def isOpen (cfg : CircuitConfig) (now : ℚ) (c : KeyCircuit) : Bool × KeyCircuit :=
  match c.state with
  | .opened =>
    if cfg.openS ≤ now - c.openedAt then (false, { c with state := .halfOpen }) else (true, c)
  | _ => (false, c)

/-- Drops samples older than the window. -/
def prune (cfg : CircuitConfig) (now : ℚ) (buckets : List (ℤ × Bool)) : List (ℤ × Bool) :=
  buckets.dropWhile fun b => b.1 < truncate now - truncate cfg.windowS

def append (cfg : CircuitConfig) (now : ℚ) (success : Bool) (c : KeyCircuit) : KeyCircuit :=
  { c with buckets := prune cfg now (c.buckets ++ [(truncate now, success)]) }

/-- Enough samples, and too many of them failures. -/
def windowTrips (cfg : CircuitConfig) (window : List (ℤ × Bool)) : Bool :=
  decide (cfg.minSamples ≤ window.length) &&
    decide (cfg.failureRate ≤ (window.countP fun b => !b.2 : ℚ) / window.length)

def maybeOpen (cfg : CircuitConfig) (now : ℚ) (c : KeyCircuit) : KeyCircuit :=
  let window := prune cfg now c.buckets
  if windowTrips cfg window then { state := .opened, buckets := window, openedAt := now }
  else { c with buckets := window }

def recordSuccess (cfg : CircuitConfig) (now : ℚ) (c : KeyCircuit) : KeyCircuit :=
  append cfg now true (if c.state = .halfOpen then { c with state := .closed } else c)

def recordFailure (cfg : CircuitConfig) (now : ℚ) (c : KeyCircuit) : KeyCircuit :=
  maybeOpen cfg now (append cfg now false c)

/-- The window that a failure recorded now is judged by. -/
def failureWindow (cfg : CircuitConfig) (now : ℚ) (c : KeyCircuit) : List (ℤ × Bool) :=
  prune cfg now (prune cfg now (c.buckets ++ [(truncate now, false)]))

theorem recordFailure_of_trips {cfg : CircuitConfig} {now : ℚ} {c : KeyCircuit}
    (h : windowTrips cfg (c.failureWindow cfg now) = true) :
    (c.recordFailure cfg now).state = .opened ∧ (c.recordFailure cfg now).openedAt = now := by
  have hr : c.recordFailure cfg now =
      { state := .opened, buckets := c.failureWindow cfg now, openedAt := now } := if_pos h
  rw [hr]
  exact ⟨rfl, rfl⟩

theorem recordFailure_of_not_trips {cfg : CircuitConfig} {now : ℚ} {c : KeyCircuit}
    (h : windowTrips cfg (c.failureWindow cfg now) = false) :
    (c.recordFailure cfg now).state = c.state ∧
      (c.recordFailure cfg now).openedAt = c.openedAt := by
  have hr : c.recordFailure cfg now = { c with buckets := c.failureWindow cfg now } :=
    if_neg (by rw [append]; exact Bool.eq_false_iff.mp h)
  rw [hr]
  exact ⟨rfl, rfl⟩

theorem state_recordSuccess (cfg : CircuitConfig) (now : ℚ) (c : KeyCircuit) :
    (c.recordSuccess cfg now).state = if c.state = .halfOpen then .closed else c.state := by
  unfold recordSuccess append
  split_ifs <;> rfl

end KeyCircuit

/-- All keys of a breaker; a key never used is closed with no samples. -/
abbrev CircuitBreaker := String × String → KeyCircuit

namespace CircuitBreaker

def isOpen (cfg : CircuitConfig) (now : ℚ) (key : String × String) (b : CircuitBreaker) :
    Bool × CircuitBreaker :=
  let asked := (b key).isOpen cfg now
  (asked.1, Function.update b key asked.2)

def recordSuccess (cfg : CircuitConfig) (now : ℚ) (key : String × String) (b : CircuitBreaker) :
    CircuitBreaker :=
  Function.update b key ((b key).recordSuccess cfg now)

def recordFailure (cfg : CircuitConfig) (now : ℚ) (key : String × String) (b : CircuitBreaker) :
    CircuitBreaker :=
  Function.update b key ((b key).recordFailure cfg now)

end CircuitBreaker

/-! ## Calls around one key -/

inductive CallEvent where
  | ask
  | success (call : ℕ)
  | failure (call : ℕ)

structure TimedCall where
  time : ℚ
  event : CallEvent

/-- One key and its callers. Calls are numbered in the order they are let through. -/
structure CircuitRun where
  clock : ℚ
  circuit : KeyCircuit := {}
  started : ℕ := 0
  inFlight : List ℕ := []
  /-- The calls let through by a question that found the circuit open. -/
  probes : List ℕ := []
  /-- How many calls the latest half-open episode has let through. -/
  admitted : ℕ := 0

namespace CircuitRun

/-- A caller who is let through goes on, and later records one outcome. -/
def ask (cfg : CircuitConfig) (now : ℚ) (w : CircuitRun) : CircuitRun :=
  let asked := w.circuit.isOpen cfg now
  if asked.1 then { w with clock := now, circuit := asked.2 }
  else
    { clock := now
      circuit := asked.2
      started := w.started + 1
      inFlight := w.started :: w.inFlight
      probes := if w.circuit.state = .opened then w.started :: w.probes else w.probes
      admitted :=
        match w.circuit.state with
        | .opened => 1
        | .halfOpen => w.admitted + 1
        | .closed => w.admitted }

/-- Time never goes back, and only a call in flight can record its outcome. -/
def step (cfg : CircuitConfig) (w : CircuitRun) (e : TimedCall) : Option CircuitRun :=
  if e.time < w.clock then none
  else match e.event with
    | .ask => some (w.ask cfg e.time)
    | .success call =>
      if call ∈ w.inFlight then
        some { w with
          clock := e.time
          circuit := w.circuit.recordSuccess cfg e.time
          inFlight := w.inFlight.erase call }
      else none
    | .failure call =>
      if call ∈ w.inFlight then
        some { w with
          clock := e.time
          circuit := w.circuit.recordFailure cfg e.time
          inFlight := w.inFlight.erase call }
      else none

/-- While the circuit is half open, one call has been let through. -/
def SingleProbe (w : CircuitRun) : Prop := w.circuit.state = .halfOpen → w.admitted = 1

/-- One step as the half-open state is meant: a single probe, whose failure opens the
circuit again from now on and whose success closes it. -/
def ProbeSound (w : CircuitRun) (e : TimedCall) (w' : CircuitRun) : Prop :=
  w'.SingleProbe ∧
    match e.event with
    | .ask => True
    | .success call => call ∈ w.probes → w'.circuit.state = .closed
    | .failure call =>
      call ∈ w.probes → w'.circuit.state = .opened ∧ w'.circuit.openedAt = e.time

/-- Nobody asks while the circuit is half open; a probe fails into a window that trips,
and succeeds while the circuit has not been opened again. -/
def ProbeGuarded (cfg : CircuitConfig) (w : CircuitRun) (e : TimedCall) (_ : CircuitRun) : Prop :=
  match e.event with
  | .ask => w.circuit.state ≠ .halfOpen
  | .success call => call ∈ w.probes → w.circuit.state ≠ .opened
  | .failure call =>
    call ∈ w.probes →
      KeyCircuit.windowTrips cfg (w.circuit.failureWindow cfg e.time) = true ∨
        w.circuit.state = .opened ∧ w.circuit.openedAt = e.time

theorem singleProbe_ask_iff (cfg : CircuitConfig) (now : ℚ) {w : CircuitRun}
    (hw : w.SingleProbe) : (w.ask cfg now).SingleProbe ↔ w.circuit.state ≠ .halfOpen := by
  unfold SingleProbe ask KeyCircuit.isOpen
  cases hs : w.circuit.state with
  | closed => simp [hs]
  | opened => split_ifs <;> simp [hs]
  | halfOpen => simp [hs, hw hs]

theorem probeSound_success_iff {cfg : CircuitConfig} {w w' : CircuitRun} {now : ℚ} {call : ℕ}
    (hc : w'.circuit = w.circuit.recordSuccess cfg now) :
    ProbeSound w ⟨now, .success call⟩ w' ↔ ProbeGuarded cfg w ⟨now, .success call⟩ w' := by
  simp only [ProbeSound, ProbeGuarded, SingleProbe, hc, KeyCircuit.state_recordSuccess]
  cases w.circuit.state <;> simp

theorem singleProbe_of_recordSuccess {cfg : CircuitConfig} {w w' : CircuitRun} {now : ℚ}
    (hc : w'.circuit = w.circuit.recordSuccess cfg now) : w'.SingleProbe := by
  intro hhalf
  rw [hc, KeyCircuit.state_recordSuccess] at hhalf
  cases hs : w.circuit.state <;> simp [hs] at hhalf

/-- A recorded failure opens the circuit or leaves it as it was. -/
theorem singleProbe_of_recordFailure {cfg : CircuitConfig} {w w' : CircuitRun} {now : ℚ}
    (hw : w.SingleProbe) (hc : w'.circuit = w.circuit.recordFailure cfg now)
    (ha : w'.admitted = w.admitted) : w'.SingleProbe := by
  intro hhalf
  rw [hc] at hhalf
  cases ht : KeyCircuit.windowTrips cfg (w.circuit.failureWindow cfg now) with
  | true =>
    rw [(KeyCircuit.recordFailure_of_trips ht).1] at hhalf
    cases hhalf
  | false =>
    rw [(KeyCircuit.recordFailure_of_not_trips ht).1] at hhalf
    exact ha.trans (hw hhalf)

theorem probeSound_failure_iff {cfg : CircuitConfig} {w w' : CircuitRun} {now : ℚ} {call : ℕ}
    (hc : w'.circuit = w.circuit.recordFailure cfg now) (hw' : w'.SingleProbe) :
    ProbeSound w ⟨now, .failure call⟩ w' ↔ ProbeGuarded cfg w ⟨now, .failure call⟩ w' := by
  simp only [ProbeSound, ProbeGuarded, hw', hc, true_and]
  cases ht : KeyCircuit.windowTrips cfg (w.circuit.failureWindow cfg now) with
  | true => simp [KeyCircuit.recordFailure_of_trips ht]
  | false => simp [KeyCircuit.recordFailure_of_not_trips ht]

/-- One step keeps to a single probe exactly under the guard. -/
theorem probeSound_step {cfg : CircuitConfig} {w w' : CircuitRun} {e : TimedCall}
    (hw : w.SingleProbe) (hs : w.step cfg e = some w') :
    (ProbeSound w e w' ↔ ProbeGuarded cfg w e w') ∧ (ProbeGuarded cfg w e w' → w'.SingleProbe) := by
  obtain ⟨now, event⟩ := e
  unfold step at hs
  split_ifs at hs
  cases event with
  | ask =>
    cases hs
    have hiff := singleProbe_ask_iff cfg now hw
    exact ⟨(iff_of_eq (and_true _)).trans hiff, hiff.mpr⟩
  | success call =>
    dsimp only at hs
    split_ifs at hs
    cases hs
    exact ⟨probeSound_success_iff rfl, fun _ => singleProbe_of_recordSuccess rfl⟩
  | failure call =>
    dsimp only at hs
    split_ifs at hs
    cases hs
    have hw' : SingleProbe { w with
        clock := now
        circuit := w.circuit.recordFailure cfg now
        inFlight := w.inFlight.erase call } := singleProbe_of_recordFailure hw rfl rfl
    exact ⟨probeSound_failure_iff rfl hw', fun _ => hw'⟩

/-- In any run from a fresh key, every half-open episode is a single probe whose failure
reopens and whose success closes the circuit exactly if every step is guarded. -/
theorem probeSound_iff (cfg : CircuitConfig) (start : ℚ) (events : List TimedCall) :
    EveryStep (step cfg) ProbeSound { clock := start } events ↔
      EveryStep (step cfg) (ProbeGuarded cfg) { clock := start } events := by
  refine everyStep_congr (I := SingleProbe) (fun w e w' => probeSound_step) ?_
  intro hhalf
  cases hhalf

instance : DecidablePred SingleProbe :=
  fun w => inferInstanceAs (Decidable (w.circuit.state = .halfOpen → w.admitted = 1))

instance (w : CircuitRun) (e : TimedCall) (w' : CircuitRun) : Decidable (ProbeSound w e w') :=
  match e with
  | ⟨_, .ask⟩ => inferInstanceAs (Decidable (_ ∧ True))
  | ⟨_, .success call⟩ =>
    inferInstanceAs (Decidable (_ ∧ (call ∈ w.probes → w'.circuit.state = .closed)))
  | ⟨now, .failure call⟩ =>
    inferInstanceAs (Decidable (_ ∧ (call ∈ w.probes →
      w'.circuit.state = .opened ∧ w'.circuit.openedAt = now)))

/-- Ten failures open the circuit; by the time the probe fails they have left the window. -/
def lonelyProbe : List TimedCall :=
  List.replicate 10 ⟨0, .ask⟩ ++ (List.range 10).map (fun call => ⟨0, .failure call⟩) ++
    [⟨100, .ask⟩, ⟨100, .failure 10⟩, ⟨100, .ask⟩]

theorem lonelyProbe_not_sound : ¬ EveryStep (step {}) ProbeSound { clock := 0 } lonelyProbe := by
  decide +kernel

end CircuitRun

end Ragx
