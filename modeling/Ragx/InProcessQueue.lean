import Mathlib.Order.Nat
import Ragx.EventRuns
import Ragx.OrderedDict

/-!
# The in-process task queue

One queue for each knowledge base, and a worker that goes round them: a pass visits the
knowledge bases that were known at its start and takes one task of each. Tasks may arrive at
any point. The consumer may raise; only an exception that is not an `Exception` ends the worker.
-/
namespace Ragx

inductive ConsumerOutcome where
  | returned
  | raised
  | fatal
deriving DecidableEq

inductive InProcessEvent where
  | enqueue (taskId kbId : String)
  | consume
  | startPass
  /-- The worker looks at the next queue of its pass. -/
  | visit
  /-- The worker has its turn at the semaphore and calls the consumer. -/
  | deliver
  | finish (outcome : ConsumerOutcome)
  | endPass

inductive Worker where
  | off
  | idle
  | passing (todo : List String)
  | holding (kbId taskId : String) (todo : List String)
  | running (todo : List String)
  | dead

structure Delivery where
  kbId : String
  taskId : String
  pass : ℕ

/-- `enqueued`, `delivered` and `starts` record what happened: for each pass the knowledge bases
that had tasks at its start. -/
structure InProcessQueue where
  queues : OrderedDict String (List String) := .empty
  worker : Worker := .off
  ended : ℕ := 0
  enqueued : List (String × String) := []
  delivered : List Delivery := []
  starts : List (List String) := []

namespace Worker

/-- What the pass has still to serve. -/
def ahead : Worker → List String
  | .passing todo => todo
  | .holding kbId _ todo => kbId :: todo
  | .running todo => todo
  | _ => []

def held (kbId : String) : Worker → List String
  | .holding kb taskId _ => if kb = kbId then [taskId] else []
  | _ => []

def InPass : Worker → Prop
  | .off | .idle => False
  | _ => True

end Worker

namespace InProcessQueue

def waiting (w : InProcessQueue) (kbId : String) : List String := w.queues.getD kbId []

def enqueuedOf (w : InProcessQueue) (kbId : String) : List String :=
  (w.enqueued.filter fun e => e.1 = kbId).map Prod.snd

def deliveredOf (w : InProcessQueue) (kbId : String) : List String :=
  (w.delivered.filter fun d => d.kbId = kbId).map (·.taskId)

def step (workerConcurrency : ℤ) (w : InProcessQueue) : InProcessEvent → Option InProcessQueue
  | .enqueue taskId kbId =>
    some { w with
      queues := w.queues.insert kbId (w.waiting kbId ++ [taskId])
      enqueued := w.enqueued ++ [(kbId, taskId)] }
  | .consume =>
    match w.worker with
    | .off => if workerConcurrency < 0 then some w else some { w with worker := .idle }
    | _ => some w
  | .startPass =>
    match w.worker with
    | .idle =>
      if w.queues.keys = [] then some w
      else some { w with
        worker := .passing w.queues.keys
        starts := w.starts ++ [w.queues.keys.filter fun kbId => w.waiting kbId ≠ []] }
    | _ => none
  | .visit =>
    match w.worker with
    | .passing (kbId :: todo) =>
      match w.waiting kbId with
      | [] => some { w with worker := .passing todo }
      | taskId :: rest =>
        some { w with
          worker := .holding kbId taskId todo
          queues := w.queues.insert kbId rest }
    | _ => none
  | .deliver =>
    match w.worker with
    | .holding kbId taskId todo =>
      if 0 < workerConcurrency then
        some { w with
          worker := .running todo
          delivered := w.delivered ++ [{ kbId, taskId, pass := w.ended }] }
      else none
    | _ => none
  | .finish outcome =>
    match w.worker with
    | .running todo =>
      some { w with worker := if outcome = .fatal then .dead else .passing todo }
    | _ => none
  | .endPass =>
    match w.worker with
    | .passing [] => some { w with worker := .idle, ended := w.ended + 1 }
    | _ => none

/-- Between two deliveries to a knowledge base, every other one that had tasks when the pass of
the first one started has its turn, or had it in this pass. -/
def Fair (w : InProcessQueue) : Prop :=
  ∀ (i j : ℕ) (d d' : Delivery), i < j → w.delivered[i]? = some d → w.delivered[j]? = some d' →
    d.kbId = d'.kbId → ∀ started, w.starts[d.pass]? = some started →
    ∀ kbId ∈ started, kbId ≠ d.kbId →
      ∃ (m : ℕ) (e : Delivery), w.delivered[m]? = some e ∧ e.kbId = kbId ∧
        (i < m ∧ m < j ∨ m < i ∧ e.pass = d.pass)

variable {workerConcurrency : ℤ} {w w' : InProcessQueue} {e : InProcessEvent}

/-! ## One step -/

/-- What an event does: a task arrives, the worker starts or stops, a pass starts or ends, a
queue is empty, or its first task is taken and then delivered. -/
inductive Moves (w : InProcessQueue) : InProcessQueue → Prop
  | enqueue (taskId kbId : String) : Moves w { w with
      queues := w.queues.insert kbId (w.waiting kbId ++ [taskId])
      enqueued := w.enqueued ++ [(kbId, taskId)] }
  | stay : Moves w w
  | consume (h : w.worker = .off) : Moves w { w with worker := .idle }
  | startPass (h : w.worker = .idle) : Moves w { w with
      worker := .passing w.queues.keys
      starts := w.starts ++ [w.queues.keys.filter fun kbId => w.waiting kbId ≠ []] }
  | skip {kbId : String} {todo : List String} (h : w.worker = .passing (kbId :: todo))
      (hempty : w.waiting kbId = []) : Moves w { w with worker := .passing todo }
  | take {kbId taskId : String} {todo rest : List String}
      (h : w.worker = .passing (kbId :: todo)) (hnext : w.waiting kbId = taskId :: rest) :
      Moves w { w with
        worker := .holding kbId taskId todo
        queues := w.queues.insert kbId rest }
  | deliver {kbId taskId : String} {todo : List String}
      (h : w.worker = .holding kbId taskId todo) : Moves w { w with
        worker := .running todo
        delivered := w.delivered ++ [{ kbId, taskId, pass := w.ended }] }
  | finish {todo : List String} (h : w.worker = .running todo) :
      Moves w { w with worker := .passing todo }
  | die {todo : List String} (h : w.worker = .running todo) : Moves w { w with worker := .dead }
  | endPass (h : w.worker = .passing []) :
      Moves w { w with worker := .idle, ended := w.ended + 1 }

theorem moves_of_step (h : w.step workerConcurrency e = some w') : Moves w w' := by
  cases e with
  | enqueue taskId kbId =>
    cases h
    exact .enqueue taskId kbId
  | consume =>
    simp only [step] at h
    split at h
    · split_ifs at h
      · cases h
        exact .stay
      · cases h
        exact .consume ‹_›
    · cases h
      exact .stay
  | startPass =>
    simp only [step] at h
    split at h
    · split_ifs at h
      · cases h
        exact .stay
      · cases h
        exact .startPass ‹_›
    · cases h
  | visit =>
    simp only [step] at h
    split at h
    · split at h
      · cases h
        exact .skip ‹_› ‹_›
      · cases h
        exact .take ‹_› ‹_›
    · cases h
  | deliver =>
    simp only [step] at h
    split at h
    · split_ifs at h
      cases h
      exact .deliver ‹_›
    · cases h
  | finish outcome =>
    simp only [step] at h
    split at h
    · split_ifs at h
      · cases h
        exact .die ‹_›
      · cases h
        exact .finish ‹_›
    · cases h
  | endPass =>
    simp only [step] at h
    split at h
    · cases h
      exact .endPass ‹_›
    · cases h

theorem waiting_insert (w : InProcessQueue) (kbId other : String) (tasks : List String) :
    (w.queues.insert kbId tasks).getD other [] =
      if kbId = other then tasks else w.waiting other := by
  unfold OrderedDict.getD waiting
  rw [OrderedDict.get?_insert]
  split_ifs <;> rfl

theorem enqueuedOf_append (entries : List (String × String)) (taskId kbId other : String) :
    ((entries ++ [(kbId, taskId)]).filter fun e => e.1 = other).map Prod.snd =
      (entries.filter fun e => e.1 = other).map Prod.snd ++
        if kbId = other then [taskId] else [] := by
  rw [List.filter_append, List.map_append]
  by_cases h : kbId = other <;> simp [h]

theorem deliveredOf_append (deliveries : List Delivery) (d : Delivery) (other : String) :
    ((deliveries ++ [d]).filter fun d => d.kbId = other).map (·.taskId) =
      (deliveries.filter fun d => d.kbId = other).map (·.taskId) ++
        if d.kbId = other then [d.taskId] else [] := by
  rw [List.filter_append, List.map_append]
  by_cases h : d.kbId = other <;> simp [h]

/-! ## The rounds of the worker -/

/-- What holds between the steps. A delivery carries the number of its pass, and what had tasks
at the start of a pass is served in it or still ahead. -/
structure Rounds (w : InProcessQueue) : Prop where
  accounted : ∀ kbId, w.deliveredOf kbId ++ (w.worker.held kbId ++ w.waiting kbId) =
    w.enqueuedOf kbId
  in_pass : w.worker.InPass → w.starts.length = w.ended + 1
  between : ¬ w.worker.InPass → w.starts.length = w.ended
  pass_lt : ∀ d ∈ w.delivered, d.pass < w.starts.length
  sorted : (w.delivered.map (·.pass)).Pairwise (· ≤ ·)
  once : (w.delivered.map fun d => (d.kbId, d.pass)).Nodup
  ahead_nodup : w.worker.ahead.Nodup
  ahead_fresh : ∀ d ∈ w.delivered, d.kbId ∈ w.worker.ahead → d.pass < w.ended
  served : ∀ (p : ℕ) started, w.starts[p]? = some started → ∀ kbId ∈ started,
    (∃ d ∈ w.delivered, d.kbId = kbId ∧ d.pass = p) ∨
      p = w.ended ∧ (w.worker = .dead ∨
        kbId ∈ w.worker.ahead ∧ w.worker.held kbId ++ w.waiting kbId ≠ [])

theorem rounds_initial : Rounds {} where
  accounted _ := rfl
  in_pass h := absurd h id
  between _ := rfl
  pass_lt _ hd := absurd hd List.not_mem_nil
  sorted := List.Pairwise.nil
  once := List.nodup_nil
  ahead_nodup := List.nodup_nil
  ahead_fresh _ hd := absurd hd List.not_mem_nil
  served _ _ h := absurd h (by simp)

/-- While the worker is in a pass, an event that only moves it within the pass. -/
theorem Rounds.withWorker {worker : Worker} {queues : OrderedDict String (List String)}
    (hw : Rounds w) (hpass : w.worker.InPass) (hpass' : worker.InPass)
    (hsub : worker.ahead.Sublist w.worker.ahead)
    (hkept : ∀ kbId, worker.held kbId ++ queues.getD kbId [] =
      w.worker.held kbId ++ w.waiting kbId)
    (hserved : ∀ kbId ∈ w.worker.ahead, w.worker.held kbId ++ w.waiting kbId ≠ [] →
      worker = .dead ∨ kbId ∈ worker.ahead) (hdead : w.worker ≠ .dead) :
    Rounds { w with worker, queues } where
  accounted kbId :=
    (congrArg (w.deliveredOf kbId ++ ·) (hkept kbId)).trans (hw.accounted kbId)
  in_pass _ := hw.in_pass hpass
  between h := absurd hpass' h
  pass_lt := hw.pass_lt
  sorted := hw.sorted
  once := hw.once
  ahead_nodup := hw.ahead_nodup.sublist hsub
  ahead_fresh d hd hahead := hw.ahead_fresh d hd (hsub.subset hahead)
  served p started hp kbId hmem := by
    refine (hw.served p started hp kbId hmem).imp_right fun ⟨hended, hrest⟩ => ⟨hended, ?_⟩
    obtain ⟨hahead, htasks⟩ := hrest.resolve_left hdead
    refine (hserved kbId hahead htasks).imp_right fun hahead' => ⟨hahead', ?_⟩
    have hsame : (worker.held kbId ++ queues.getD kbId []) ≠ [] := by
      rw [hkept kbId]
      exact htasks
    exact hsame

/-- Between two passes, all that had tasks at the start of a pass has been served in it. -/
theorem Rounds.served_between (hw : Rounds w) (hout : ¬ w.worker.InPass) {p : ℕ}
    {started : List String} (hp : w.starts[p]? = some started) {kbId : String}
    (hmem : kbId ∈ started) : ∃ d ∈ w.delivered, d.kbId = kbId ∧ d.pass = p := by
  have hlt : p < w.starts.length := (List.getElem?_eq_some_iff.mp hp).1
  rw [hw.between hout] at hlt
  refine (hw.served p started hp kbId hmem).resolve_right fun h => ?_
  have hended : p = w.ended := h.1
  omega

theorem Rounds.enqueue (hw : Rounds w) (taskId kbId : String) : Rounds { w with
    queues := w.queues.insert kbId (w.waiting kbId ++ [taskId])
    enqueued := w.enqueued ++ [(kbId, taskId)] } := by
  refine { hw with accounted := fun other => ?_, served := fun p started hp other hmem => ?_ }
  · have hacc := hw.accounted other
    unfold deliveredOf enqueuedOf waiting at hacc ⊢
    dsimp only at hacc ⊢
    rw [enqueuedOf_append, waiting_insert, ← hacc]
    by_cases hkb : kbId = other
    · subst hkb
      simp
    · simp [hkb, waiting]
  · refine (hw.served p started hp other hmem).imp_right fun ⟨hended, hrest⟩ => ⟨hended, ?_⟩
    refine hrest.imp_right fun ⟨hahead, htasks⟩ => ⟨hahead, ?_⟩
    unfold waiting at htasks ⊢
    dsimp only
    rw [waiting_insert]
    by_cases hkb : kbId = other
    · simp [hkb]
    · rw [if_neg hkb]
      exact htasks

theorem Rounds.consume (hw : Rounds w) (hoff : w.worker = .off) :
    Rounds { w with worker := .idle } := by
  have hout : ¬ w.worker.InPass := by
    rw [hoff]
    exact id
  refine { hw with
    accounted := fun kbId => ?_, in_pass := fun h => absurd h id
    between := fun _ => hw.between hout
    ahead_nodup := List.nodup_nil, ahead_fresh := fun _ _ h => absurd h List.not_mem_nil
    served := fun p started hp kbId hmem => Or.inl (hw.served_between hout hp hmem) }
  have hacc := hw.accounted kbId
  rw [hoff] at hacc
  exact hacc

/-- A pass has all queues ahead of it, each once. -/
theorem Rounds.startPass (hw : Rounds w) (hidle : w.worker = .idle) : Rounds { w with
    worker := .passing w.queues.keys
    starts := w.starts ++ [w.queues.keys.filter fun kbId => w.waiting kbId ≠ []] } := by
  have hout : ¬ w.worker.InPass := by
    rw [hidle]
    exact id
  have hlength : w.starts.length = w.ended := hw.between hout
  refine { hw with
    accounted := fun kbId => ?_
    in_pass := fun _ => by rw [List.length_append, hlength]; rfl
    between := fun h => absurd trivial h
    pass_lt := fun d hd => ?_
    ahead_nodup := w.queues.nodup
    ahead_fresh := fun d hd _ => hlength ▸ hw.pass_lt d hd
    served := fun p started hp kbId hmem => ?_ }
  · have hacc := hw.accounted kbId
    rw [hidle] at hacc
    exact hacc
  · rw [List.length_append]
    exact Nat.lt_add_right _ (hw.pass_lt d hd)
  · rw [List.getElem?_append] at hp
    split_ifs at hp with hlt
    · exact Or.inl (hw.served_between hout hp hmem)
    · have hp' : p = w.ended ∧
          w.queues.keys.filter (fun kbId => w.waiting kbId ≠ []) = started := by
        rw [List.getElem?_singleton] at hp
        split_ifs at hp with hzero
        exact ⟨by omega, Option.some.inj hp⟩
      obtain ⟨hended, rfl⟩ := hp'
      obtain ⟨hkey, htasks⟩ := List.mem_filter.mp hmem
      have hne : w.waiting kbId ≠ [] := by simpa using htasks
      exact Or.inr ⟨hended, Or.inr ⟨hkey, hne⟩⟩

/-- A delivery is the first one to its knowledge base in its pass, which is the last pass. -/
theorem Rounds.deliver (hw : Rounds w) {kbId taskId : String} {todo : List String}
    (hholding : w.worker = .holding kbId taskId todo) : Rounds { w with
      worker := .running todo
      delivered := w.delivered ++ [{ kbId, taskId, pass := w.ended }] } := by
  have hlength : w.starts.length = w.ended + 1 := hw.in_pass (by rw [hholding]; trivial)
  have hnodup : (kbId :: todo).Nodup := by
    have hahead := hw.ahead_nodup
    rw [hholding] at hahead
    exact hahead
  have hfresh (d : Delivery) (hd : d ∈ w.delivered) (hmem : d.kbId ∈ kbId :: todo) :
      d.pass < w.ended := hw.ahead_fresh d hd (by rw [hholding]; exact hmem)
  refine
    { hw with
      accounted := fun other => ?_, in_pass := fun _ => hlength
      between := fun h => absurd trivial h, pass_lt := fun d hd => ?_, sorted := ?_, once := ?_
      ahead_nodup := hnodup.of_cons, ahead_fresh := fun d hd hmem => ?_
      served := fun p started hp other hmem => ?_ }
  · have hacc := hw.accounted other
    rw [hholding, Worker.held] at hacc
    unfold deliveredOf at hacc ⊢
    dsimp only at hacc ⊢
    rw [deliveredOf_append, List.append_assoc]
    exact hacc
  · rcases List.mem_append.mp hd with hd | hd
    · exact hw.pass_lt d hd
    · rw [List.mem_singleton.mp hd]
      exact hlength ▸ Nat.lt_succ_self w.ended
  · rw [List.map_append, List.pairwise_append]
    refine ⟨hw.sorted, List.pairwise_singleton _ _, fun p hp q hq => ?_⟩
    obtain ⟨d, hd, rfl⟩ := List.mem_map.mp hp
    obtain rfl : q = w.ended := List.mem_singleton.mp hq
    have hlt := hw.pass_lt d hd
    omega
  · rw [List.map_append, List.nodup_append]
    refine ⟨hw.once, List.nodup_singleton _, fun x hx y hy hxy => ?_⟩
    obtain ⟨d, hd, rfl⟩ := List.mem_map.mp hx
    rw [List.map_singleton, List.mem_singleton] at hy
    obtain ⟨hkb, hpass⟩ := Prod.mk.inj (hxy.trans hy)
    exact absurd hpass (hfresh d hd (List.mem_cons.mpr (Or.inl hkb))).ne
  · rcases List.mem_append.mp hd with hd | hd
    · exact hfresh d hd (List.mem_cons_of_mem _ hmem)
    · rw [List.mem_singleton.mp hd] at hmem
      exact absurd hmem (List.nodup_cons.mp hnodup).1
  · rcases hw.served p started hp other hmem with ⟨d, hd, hserved⟩ | ⟨hended, hrest⟩
    · exact Or.inl ⟨d, List.mem_append_left _ hd, hserved⟩
    · rw [hholding] at hrest
      obtain ⟨hahead, htasks⟩ := hrest.resolve_left Worker.noConfusion
      rcases List.mem_cons.mp hahead with heq | htodo
      · exact Or.inl ⟨{ kbId, taskId, pass := w.ended },
          List.mem_append_right _ (List.mem_singleton.mpr rfl), heq.symm, hended.symm⟩
      · refine Or.inr ⟨hended, Or.inr ⟨htodo, ?_⟩⟩
        have hne : kbId ≠ other := fun heq =>
          (List.nodup_cons.mp hnodup).1 (heq ▸ htodo)
        rw [Worker.held, if_neg hne] at htasks
        exact htasks

theorem Rounds.endPass (hw : Rounds w) (hpassing : w.worker = .passing []) :
    Rounds { w with worker := .idle, ended := w.ended + 1 } := by
  have hlength : w.starts.length = w.ended + 1 := hw.in_pass (by rw [hpassing]; trivial)
  refine
    { hw with
      accounted := fun kbId => ?_, in_pass := fun h => absurd h id, between := fun _ => hlength
      ahead_nodup := List.nodup_nil, ahead_fresh := fun _ _ h => absurd h List.not_mem_nil
      served := fun p started hp kbId hmem => Or.inl ?_ }
  · have hacc := hw.accounted kbId
    rw [hpassing] at hacc
    exact hacc
  · refine (hw.served p started hp kbId hmem).resolve_right fun h => ?_
    have hrest := h.2
    rw [hpassing] at hrest
    exact absurd (hrest.resolve_left Worker.noConfusion).1 List.not_mem_nil

theorem rounds_moves (hw : Rounds w) (h : Moves w w') : Rounds w' := by
  cases h with
  | stay => exact hw
  | enqueue taskId kbId => exact hw.enqueue taskId kbId
  | consume hoff => exact hw.consume hoff
  | startPass hidle => exact hw.startPass hidle
  | skip hpassing hempty =>
    refine hw.withWorker (by rw [hpassing]; trivial) trivial ?_ (fun kbId => ?_)
      (fun kbId hahead htasks => Or.inr ?_) (by rw [hpassing]; exact Worker.noConfusion)
    · rw [hpassing]
      exact List.sublist_cons_self _ _
    · rw [hpassing]
      rfl
    · rw [hpassing] at hahead htasks
      refine (List.mem_cons.mp hahead).resolve_left fun heq => htasks ?_
      rw [heq]
      exact hempty
  | take hpassing hnext =>
    refine hw.withWorker (by rw [hpassing]; trivial) trivial ?_ (fun kbId => ?_)
      (fun kbId hahead _ => Or.inr ?_) (by rw [hpassing]; exact Worker.noConfusion)
    · rw [hpassing]
      exact List.Sublist.refl _
    · have hnone : w.worker.held kbId = [] := by
        rw [hpassing]
        rfl
      rw [hnone, waiting_insert, Worker.held]
      split_ifs with hkb
      · rw [← hkb, hnext]
        rfl
      · rfl
    · rw [hpassing] at hahead
      exact hahead
  | deliver hholding => exact hw.deliver hholding
  | finish hrunning =>
    refine hw.withWorker (by rw [hrunning]; trivial) trivial ?_ (fun kbId => ?_)
      (fun kbId hahead _ => Or.inr ?_) (by rw [hrunning]; exact Worker.noConfusion)
    · rw [hrunning]
      exact List.Sublist.refl _
    · rw [hrunning]
      rfl
    · rw [hrunning] at hahead
      exact hahead
  | die hrunning =>
    refine hw.withWorker (by rw [hrunning]; trivial) trivial (List.nil_sublist _) (fun kbId => ?_)
      (fun _ _ _ => Or.inl rfl) (by rw [hrunning]; exact Worker.noConfusion)
    rw [hrunning]
    rfl
  | endPass hpassing => exact hw.endPass hpassing

theorem rounds_step (hw : Rounds w) (h : w.step workerConcurrency e = some w') : Rounds w' :=
  rounds_moves hw (moves_of_step h)

theorem Rounds.delivered_prefix (hw : Rounds w) (kbId : String) :
    w.deliveredOf kbId <+: w.enqueuedOf kbId :=
  ⟨_, hw.accounted kbId⟩

theorem Rounds.starts_le (hw : Rounds w) : w.starts.length ≤ w.ended + 1 := by
  by_cases h : w.worker.InPass
  · exact (hw.in_pass h).le
  · exact (hw.between h).trans_le (Nat.le_succ _)

theorem Rounds.pass_le (hw : Rounds w) {i j : ℕ} {d d' : Delivery} (hij : i < j)
    (hd : w.delivered[i]? = some d) (hd' : w.delivered[j]? = some d') : d.pass ≤ d'.pass := by
  obtain ⟨hi, rfl⟩ := List.getElem?_eq_some_iff.mp hd
  obtain ⟨hj, rfl⟩ := List.getElem?_eq_some_iff.mp hd'
  exact List.pairwise_iff_getElem.mp (List.pairwise_map.mp hw.sorted) i j hi hj hij

/-- In one pass a knowledge base has one delivery at most. -/
theorem Rounds.pass_ne (hw : Rounds w) {i j : ℕ} {d d' : Delivery} (hij : i < j)
    (hd : w.delivered[i]? = some d) (hd' : w.delivered[j]? = some d')
    (hkb : d.kbId = d'.kbId) : d.pass ≠ d'.pass := by
  obtain ⟨hi, rfl⟩ := List.getElem?_eq_some_iff.mp hd
  obtain ⟨hj, rfl⟩ := List.getElem?_eq_some_iff.mp hd'
  intro hpass
  exact List.pairwise_iff_getElem.mp (List.pairwise_map.mp hw.once) i j hi hj hij
    (Prod.ext hkb hpass)

theorem Rounds.fair (hw : Rounds w) : w.Fair := by
  intro i j d d' hij hd hd' hkb started hstarted kbId hmem hne
  have hlt : d.pass < d'.pass :=
    lt_of_le_of_ne (hw.pass_le hij hd hd') (hw.pass_ne hij hd hd' hkb)
  have hended : d.pass < w.ended := by
    have hpass := hw.pass_lt d' (List.mem_of_getElem? hd')
    have hstarts := hw.starts_le
    omega
  rcases hw.served d.pass started hstarted kbId hmem with ⟨e, he, hekb, hepass⟩ | ⟨hlast, _⟩
  · obtain ⟨m, hm⟩ := List.mem_iff_getElem?.mp he
    refine ⟨m, e, hm, hekb, ?_⟩
    rcases lt_trichotomy m i with hmi | rfl | him
    · exact Or.inr ⟨hmi, hepass⟩
    · rw [hd] at hm
      exact absurd (Option.some.inj hm ▸ hekb.symm) hne
    · refine Or.inl ⟨him, ?_⟩
      by_contra hjm
      rcases (not_lt.mp hjm).lt_or_eq with hjm | rfl
      · have hle := hw.pass_le hjm hd' hm
        omega
      · rw [hd'] at hm
        rw [Option.some.inj hm] at hlt
        omega
  · omega

/-! ## The turns of a knowledge base -/

/-- Since the state `s`, each pass that ended delivered a task, as long as there were any. -/
structure Progress (s : InProcessQueue) (kbId : String) (w : InProcessQueue) : Prop where
  known : kbId ∈ w.queues.keys
  since : s.ended ≤ w.ended
  enqueued : s.enqueuedOf kbId <+: w.enqueuedOf kbId
  served : (s.deliveredOf kbId).length + min (w.ended - s.ended) (s.waiting kbId).length ≤
    (w.deliveredOf kbId).length
  served_pass : w.worker.InPass → w.worker ≠ .dead → kbId ∉ w.worker.ahead →
    (s.deliveredOf kbId).length + min (w.ended - s.ended + 1) (s.waiting kbId).length ≤
      (w.deliveredOf kbId).length

/-- In a pass that has the knowledge base behind it, its turn of the pass is counted. -/
theorem Progress.served_at {s : InProcessQueue} {kbId : String} {worker : Worker}
    (hp : Progress s kbId w) (hworker : w.worker = worker) (hpass : worker.InPass)
    (halive : worker ≠ .dead) (hbehind : kbId ∉ worker.ahead) :
    (s.deliveredOf kbId).length + min (w.ended - s.ended + 1) (s.waiting kbId).length ≤
      (w.deliveredOf kbId).length := by
  subst hworker
  exact hp.served_pass hpass halive hbehind

theorem mem_keys_insert {queues : OrderedDict String (List String)} {kbId other : String}
    {tasks : List String} (h : other ∈ queues.keys) : other ∈ (queues.insert kbId tasks).keys := by
  rw [OrderedDict.keys_insert]
  split_ifs
  · exact h
  · exact List.mem_append_left _ h

theorem progress_moves {s : InProcessQueue} {kbId : String} (hs : (s.deliveredOf kbId).length +
    (s.waiting kbId).length ≤ (s.enqueuedOf kbId).length) (hw : Rounds w)
    (hp : Progress s kbId w) (h : Moves w w') : Progress s kbId w' := by
  cases h with
  | stay => exact hp
  | enqueue taskId other =>
    refine { hp with known := mem_keys_insert hp.known, enqueued := hp.enqueued.trans ?_ }
    unfold enqueuedOf
    dsimp only
    rw [enqueuedOf_append]
    exact List.prefix_append _ _
  | consume _ => exact { hp with served_pass := fun h => absurd h id }
  | startPass _ => exact { hp with served_pass := fun _ _ h => absurd hp.known h }
  | @skip other todo hpassing hempty =>
    refine { hp with served_pass := fun _ _ hahead => ?_ }
    by_cases hother : other = kbId
    · -- nothing was left of its tasks
      subst hother
      have hheld : w.worker.held other = [] := by
        rw [hpassing]
        rfl
      have hlength := hp.enqueued.length_le
      rw [← hw.accounted other, hheld, hempty, List.append_nil, List.append_nil] at hlength
      have hmin := Nat.min_le_right (w.ended - s.ended + 1) (s.waiting other).length
      exact (Nat.add_le_add_left hmin _).trans (hs.trans hlength)
    · refine hp.served_at hpassing trivial Worker.noConfusion fun hmem => ?_
      exact hahead ((List.mem_cons.mp hmem).resolve_left (Ne.symm hother))
  | take hpassing _ =>
    refine { hp with known := mem_keys_insert hp.known, served_pass := fun _ _ hahead => ?_ }
    exact hp.served_at hpassing trivial Worker.noConfusion hahead
  | @deliver other taskId todo hholding =>
    have hlength : (((w.delivered ++ [Delivery.mk other taskId w.ended]).filter
        fun d => d.kbId = kbId).map (·.taskId)).length =
        (w.deliveredOf kbId).length + (if other = kbId then [taskId] else []).length := by
      rw [deliveredOf_append, List.length_append]
      rfl
    refine { hp with served := ?_, served_pass := fun _ _ hahead => ?_ }
    · exact hp.served.trans (hlength ▸ Nat.le_add_right _ _)
    · refine le_of_le_of_eq ?_ hlength.symm
      by_cases hother : other = kbId
      · rw [if_pos hother, List.length_singleton]
        have hserved := hp.served
        dsimp only
        omega
      · rw [if_neg hother, List.length_nil, Nat.add_zero]
        refine hp.served_at hholding trivial Worker.noConfusion fun hmem => ?_
        exact hahead ((List.mem_cons.mp hmem).resolve_left (Ne.symm hother))
  | finish hrunning =>
    refine { hp with served_pass := fun _ _ hahead => ?_ }
    exact hp.served_at hrunning trivial Worker.noConfusion hahead
  | die _ => exact { hp with served_pass := fun _ h => absurd rfl h }
  | endPass hpassing =>
    have hserved := hp.served_at hpassing trivial Worker.noConfusion List.not_mem_nil
    have hsince := hp.since
    refine { hp with since := hsince.trans (Nat.le_succ _), served := ?_
                     served_pass := fun h => absurd h id }
    have hpasses : w.ended + 1 - s.ended = w.ended - s.ended + 1 := by omega
    rw [← hpasses] at hserved
    exact hserved

theorem rounds_run {events : List InProcessEvent} (hw : Rounds w)
    (h : run (step workerConcurrency) w events = some w') : Rounds w' :=
  run_invariant (fun _ _ _ => rounds_step) hw h

/-- The task at position `k` when a pass starts is delivered when the `k`-th pass after it has
ended. -/
theorem Rounds.delivered_of_ended (hw : Rounds w) (hidle : w.worker = .idle) {kbId task : String}
    {k : ℕ} (htask : (w.waiting kbId)[k]? = some task) {events : List InProcessEvent}
    (h : run (step workerConcurrency) w events = some w') (hended : w.ended + k < w'.ended) :
    (w'.deliveredOf kbId)[(w.deliveredOf kbId).length + k]? = some task := by
  obtain ⟨hk, _⟩ := List.getElem?_eq_some_iff.mp htask
  have hheld : w.worker.held kbId = [] := by
    rw [hidle]
    rfl
  have hall : w.deliveredOf kbId ++ w.waiting kbId = w.enqueuedOf kbId := by
    rw [← hw.accounted kbId, hheld, List.nil_append]
  have hlength : (w.deliveredOf kbId).length + (w.waiting kbId).length ≤
      (w.enqueuedOf kbId).length := by
    rw [← hall, List.length_append]
  have hknown : kbId ∈ w.queues.keys := by
    unfold waiting OrderedDict.getD at hk
    cases hget : w.queues.get? kbId with
    | none =>
      rw [hget] at hk
      exact absurd hk (Nat.not_lt_zero k)
    | some tasks => exact List.mem_map_of_mem (f := Prod.fst) (OrderedDict.mem_entries.mpr hget)
  have hstart : Progress w kbId w :=
    { known := hknown, since := le_rfl, enqueued := List.prefix_refl _
      served := by rw [Nat.sub_self, Nat.zero_min, Nat.add_zero]
      served_pass := fun h => absurd h (by rw [hidle]; exact id) }
  obtain ⟨hrounds, hprogress⟩ : Rounds w' ∧ Progress w kbId w' :=
    run_invariant (I := fun t => Rounds t ∧ Progress w kbId t)
      (fun _ _ _ ht hstep => ⟨rounds_step ht.1 hstep,
        progress_moves hlength ht.1 ht.2 (moves_of_step hstep)⟩) ⟨hw, hstart⟩ h
  have hserved := hprogress.served
  have hlt : (w.deliveredOf kbId).length + k < (w'.deliveredOf kbId).length := by omega
  have henq : (w.enqueuedOf kbId)[(w.deliveredOf kbId).length + k]? = some task := by
    rw [← hall, List.getElem?_append_right (Nat.le_add_right _ _), Nat.add_sub_cancel_left]
    exact htask
  obtain ⟨rest, hrest⟩ := hprogress.enqueued
  obtain ⟨rest', hrest'⟩ := hrounds.delivered_prefix kbId
  obtain ⟨henqLt, _⟩ := List.getElem?_eq_some_iff.mp henq
  calc (w'.deliveredOf kbId)[(w.deliveredOf kbId).length + k]?
      = (w'.enqueuedOf kbId)[(w.deliveredOf kbId).length + k]? := by
        rw [← hrest', List.getElem?_append_left hlt]
    _ = (w.enqueuedOf kbId)[(w.deliveredOf kbId).length + k]? := by
        rw [← hrest, List.getElem?_append_left henqLt]
    _ = some task := henq

/-- Whatever arrives while the worker goes round and however the consumer ends: of each
knowledge base the delivered tasks are the first ones that were enqueued, each once and in their
order, a task has its turn in the pass of its position, and no knowledge base is passed over. -/
theorem delivers_in_turn (workerConcurrency : ℤ) (events : List InProcessEvent)
    (w : InProcessQueue) (hrun : run (step workerConcurrency) {} events = some w) :
    (∀ kbId, w.deliveredOf kbId <+: w.enqueuedOf kbId) ∧
      (∀ kbId task (k : ℕ) later w', w.worker = .idle → (w.waiting kbId)[k]? = some task →
        run (step workerConcurrency) w (.startPass :: later) = some w' →
        w.ended + k < w'.ended →
        (w'.deliveredOf kbId)[(w.deliveredOf kbId).length + k]? = some task) ∧
      w.Fair := by
  have hw : Rounds w := rounds_run rounds_initial hrun
  exact ⟨hw.delivered_prefix,
    fun _ _ _ _ _ hidle htask hlater hended => hw.delivered_of_ended hidle htask hlater hended,
    hw.fair⟩

/-- Two tasks of one knowledge base and one of another, which arrives while the consumer raises
on the first. -/
def threeTasks : List InProcessEvent :=
  [.enqueue "t1" "a", .enqueue "t2" "a", .consume, .startPass, .visit, .deliver,
    .enqueue "t3" "b", .finish .raised, .endPass]

/-- The pass over both, behind its start. -/
def bothServed : List InProcessEvent :=
  [.visit, .deliver, .finish .returned, .visit, .deliver, .finish .returned, .endPass]

theorem delivers_in_turn_threeTasks :
    ∃ w, run (step 4) {} threeTasks = some w ∧ (∀ kbId, w.deliveredOf kbId <+: w.enqueuedOf kbId) ∧
      (∃ w', run (step 4) w (.startPass :: bothServed) = some w' ∧
        (w'.deliveredOf "b")[0 + 0]? = some "t3") ∧ w.Fair := by
  obtain ⟨w, hw⟩ : ∃ w, run (step 4) {} threeTasks = some w := ⟨_, rfl⟩
  obtain ⟨hbegins, hturn, hfair⟩ := delivers_in_turn 4 threeTasks w hw
  cases hw
  exact ⟨_, rfl, hbegins, ⟨_, rfl, hturn "b" "t3" 0 bothServed _ rfl rfl rfl (by decide)⟩, hfair⟩

end InProcessQueue

end Ragx
