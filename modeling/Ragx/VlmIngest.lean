import Mathlib.Data.Fintype.EquivFin
import Ragx.IngestRecovery
import Ragx.Sequencing
import Ragx.VlmCosts

/-!
# Ingestion with an image model

The processing stage hands on the ids of the described atoms in place of the descriptions, in
the first run as in a resumed one, where they come out of the checkpoint. The chunking stage
reads the `atom_id` of each, which a string does not have.
-/
namespace Ragx

open IngestRun IngestStores

/-- A document that is ingested with `vlm_enabled` and a configured processor. -/
structure VlmSetup where
  ingest : IngestEnv
  processor : Processor
  completion : Completion
  completion' : Completion

/-- A run, and the description cache if one is wired in. -/
structure VlmRun where
  run : IngestRun
  cache : Option DescriptionCache

namespace VlmSetup

variable (setup : VlmSetup)

/-- `_do_process`: the ids of the described atoms. -/
def doProcess (atoms : List Atom) :
    Option DescriptionCache → Option DescriptionCache × Except Exc (List String)
  | none =>
    (none,
      if (nonText atoms).isEmpty then .ok []
      else .error (.foreign "'NoneType' object has no attribute 'exists'"))
  | some cache =>
    let described := processAtoms true (some setup.processor) (some setup.processor)
      setup.completion setup.completion' 16 {} atoms cache
    (some described.1, described.2.map fun descs => descs.map (·.atomId))

def env (cache : Option DescriptionCache) : IngestEnv :=
  { setup.ingest with
    vlmEnabled := true
    processed := fun atoms => (setup.doProcess atoms cache).2 }

/-- Only the processing stage writes to the cache, and a crash loses it. -/
def cacheAfter (v : VlmRun) : IngestEvent → Option DescriptionCache
  | .start => v.cache
  | .advance _ =>
    match v.run.memory with
    | none => v.cache
    | some m =>
      match m.position with
      | .work .processing => (setup.doProcess m.atoms v.cache).1
      | _ => v.cache
  | .crash _ => v.cache.map fun _ => .empty

def step (v : VlmRun) (e : IngestEvent) : Option VlmRun :=
  (IngestRun.step (setup.env v.cache) v.run e).map fun run =>
    { run, cache := setup.cacheAfter v e }

def initial (cache : Option DescriptionCache) : VlmRun where
  run := IngestRun.initial setup.ingest
  cache := cache

/-- The atoms of the document as the stages behind the parsing read them. -/
def atomRows : List Atom := getAtoms (saveAtoms .empty setup.ingest.parse)

/-- A description that the processor gives for the atom. -/
def Produces (atom : Atom) (d : AtomDescription) : Prop :=
  ∃ batch descs, atom ∈ batch ∧ setup.processor.describe batch = .ok descs ∧ d ∈ descs ∧
    d.atomId = atom.atomId

/-- Every non-text atom has its description in the text of each chunk that holds the atom. -/
def Described (s : IngestStores) : Prop :=
  ∀ atom ∈ getAtoms s.atoms, atom.type ≠ .text → ∃ d, setup.Produces atom d ∧
    ∀ chunk ∈ s.chunks.values, atom.atomId ∈ chunk.atomIds →
      d.description.toList <:+: chunk.text.toList

/-- A crash comes when the processing stage is over and the chunking stage has not begun. -/
def AfterProcessing (v : VlmRun) (e : IngestEvent) (_ : VlmRun) : Prop :=
  match e with
  | .crash _ => ∀ m ∈ v.run.memory, m.position = .check .chunking
  | _ => True

/-- A run that returns has finished the document, with all descriptions in place. -/
def EndsDescribed (_ : VlmRun) (e : IngestEvent) (v' : VlmRun) : Prop :=
  match e with
  | .advance _ => v'.run.memory = none → v'.run.task.status = .done ∧ setup.Described v'.run.stores
  | _ => True

/-- Whatever is interrupted and resumed, a run that returns has finished the document, and it can
be carried on until then. -/
structure DescribesAll (cache : Option DescriptionCache) : Prop where
  right : ∀ events, EveryStep setup.step AfterProcessing (setup.initial cache) events →
    EveryStep setup.step setup.EndsDescribed (setup.initial cache) events
  ends : ∀ events v, EveryStep setup.step AfterProcessing (setup.initial cache) events →
    Ragx.run setup.step (setup.initial cache) events = some v →
      ∃ more v', (∀ e ∈ more, ∀ written, e ≠ .crash written) ∧
        Ragx.run setup.step v more = some v' ∧ v'.run.task.status = .done

end VlmSetup

/-! ## The invariant of untorn runs

It does not depend on what the processing stage makes of the atoms. -/

section Processed

variable {ingest : IngestEnv} (f : List Atom → Except Exc (List String)) {s : IngestStores}
  {w : IngestRun}

theorem IngestStores.Chunked.withProcessed (h : Chunked ingest s) :
    Chunked { ingest with processed := f } s := ⟨h.keyed, h.drafted⟩

theorem IngestStores.Settled.withProcessed (h : Settled ingest s) :
    Settled { ingest with processed := f } s := ⟨h.toChunked.withProcessed f, h.same⟩

theorem IngestStores.Sound.withProcessed (h : Sound ingest s) :
    Sound { ingest with processed := f } s where
  atoms := h.atoms
  agree := h.agree
  parsed := h.parsed
  chunked hckpt := (h.chunked hckpt).withProcessed f
  embedded hckpt := (h.embedded hckpt).withProcessed f

theorem IngestRun.Entered.withProcessed {m : IngestMemory} {stage : IngestStage}
    (h : Entered ingest s m stage) : Entered { ingest with processed := f } s m stage := by
  cases stage with
  | parsing => trivial
  | processing => exact h
  | chunking => exact h
  | embedding => exact ⟨h.1.withProcessed f, h.2⟩
  | kgBuilding => exact IngestStores.Settled.withProcessed f h

theorem IngestRun.Established.withProcessed {ids : List String} {stage : IngestStage}
    (h : Established ingest s ids stage) :
    Established { ingest with processed := f } s ids stage := by
  cases stage with
  | parsing => exact h
  | processing => trivial
  | chunking => exact ⟨h.1.withProcessed f, h.2⟩
  | embedding => exact IngestStores.Settled.withProcessed f h
  | kgBuilding => exact IngestStores.Settled.withProcessed f h

theorem IngestRun.Located.withProcessed {m : IngestMemory} (h : Located ingest s m) :
    Located { ingest with processed := f } s m := by
  unfold Located at h ⊢
  cases hpos : m.position with
  | check stage =>
    rw [hpos] at h
    exact Entered.withProcessed f h
  | announce stage =>
    rw [hpos] at h
    exact ⟨Entered.withProcessed f h.1, h.2⟩
  | work stage =>
    rw [hpos] at h
    exact ⟨Entered.withProcessed f h.1, h.2⟩
  | record stage ids =>
    rw [hpos] at h
    exact ⟨Entered.withProcessed f h.1, Established.withProcessed f h.2⟩
  | recover stage =>
    rw [hpos] at h
    exact Entered.withProcessed f h
  | loadAtoms =>
    rw [hpos] at h
    exact h
  | loadChunks =>
    rw [hpos] at h
    exact IngestStores.Chunked.withProcessed f h
  | finish =>
    rw [hpos] at h
    exact IngestStores.Settled.withProcessed f h

theorem IngestRun.Consistent.withProcessed (h : Consistent ingest w) :
    Consistent { ingest with processed := f } w where
  sound := h.sound.withProcessed f
  located m hm := Located.withProcessed f (h.located m hm)
  unchunked := h.unchunked
  done hdone := (h.done hdone).withProcessed f
  memory_done m hm hdone := (h.memory_done m hm hdone).withProcessed f

end Processed

/-! ## How far a run has to go -/

def IngestStage.remaining : IngestStage → ℕ
  | .parsing => 20
  | .processing => 15
  | .chunking => 11
  | .embedding => 6
  | .kgBuilding => 2

/-- A bound on the awaits up to the end of a run in which no stage fails. -/
def IngestPosition.remaining : IngestPosition → ℕ
  | .check stage => stage.remaining + 3
  | .announce stage => stage.remaining + 2
  | .work stage => stage.remaining + 1
  | .record stage _ => stage.remaining
  | .recover stage => stage.remaining + 4
  | .loadAtoms => 19
  | .loadChunks => 10
  | .finish => 1

/-- No stage has failed, and the processing stage has nothing to hand on. -/
def IngestPosition.OnTrack : IngestPosition → Prop
  | .recover _ => False
  | .record .processing ids => ids = []
  | _ => True

/-- The position behind a stage, in a run without descriptions. -/
theorem completed_onTrack (ingest : IngestEnv) {m : IngestMemory} {ids : List String}
    {stage : IngestStage} (hids : stage = .processing → ids = []) (hm : m.descriptions = []) :
    (ingest.completed m ids stage).descriptions = [] ∧
      (ingest.completed m ids stage).position.OnTrack ∧
      (ingest.completed m ids stage).position.remaining < stage.remaining := by
  cases stage with
  | parsing =>
    refine ⟨hm, trivial, ?_⟩
    show 19 < 20
    omega
  | processing =>
    refine ⟨hids rfl, trivial, ?_⟩
    show 14 < 15
    omega
  | chunking =>
    refine ⟨hm, trivial, ?_⟩
    show 10 < 11
    omega
  | embedding =>
    refine ⟨hm, ?_⟩
    show IngestPosition.OnTrack (if ingest.kgEnabled then .check .kgBuilding else .finish) ∧
      IngestPosition.remaining (if ingest.kgEnabled then .check .kgBuilding else .finish) < 6
    split_ifs
    · exact ⟨trivial, by decide⟩
    · exact ⟨trivial, by decide⟩
  | kgBuilding =>
    refine ⟨hm, trivial, ?_⟩
    show 1 < 2
    omega

/-- There are always enough new ids. -/
theorem exists_drawn (ingest : IngestEnv) (s : IngestStores) (m : IngestMemory)
    (stage : IngestStage) : ∃ freshIds, ingest.Drawn freshIds s m stage := by
  let used : Finset String := (s.chunks.keys ++ s.vectors.keys).toFinset
  let n := ((ingest.drafts m.atoms).toOption.getD []).length
  obtain ⟨t, hsub, hcard⟩ := Infinite.exists_superset_card_eq used (used.card + n)
    (Nat.le_add_right _ _)
  refine ⟨(t \ used).toList, fun _ => ⟨Finset.nodup_toList _, fun id hid => ?_, ?_⟩⟩
  · have hnew := (Finset.mem_sdiff.mp (Finset.mem_toList.mp hid)).2
    rw [List.mem_toFinset, List.mem_append, not_or] at hnew
    exact hnew
  · rw [Finset.length_toList, Finset.card_sdiff_of_subset hsub, hcard]
    omega

namespace VlmSetup

variable {setup : VlmSetup} {v v' : VlmRun} {m : IngestMemory}

theorem step_eq_some {e : IngestEvent} (h : setup.step v e = some v') :
    IngestRun.step (setup.env v.cache) v.run e = some v'.run := by
  obtain ⟨w, hw, rfl⟩ := Option.map_eq_some_iff.mp h
  exact hw

theorem consistent_step {e : IngestEvent} (hv : Consistent (setup.env v.cache) v.run)
    (h : setup.step v e = some v') (hcrash : AfterProcessing v e v') :
    Consistent (setup.env v'.cache) v'.run := by
  have huntorn : Untorn v.run e v'.run := by
    cases e with
    | start => trivial
    | advance freshIds => trivial
    | crash written =>
      intro m hm hrec
      unfold Unrecorded at hrec
      rw [hcrash m hm] at hrec
      exact hrec
  exact (IngestRun.consistent_step hv (step_eq_some h) huntorn).withProcessed _

theorem consistent_initial (setup : VlmSetup) (cache : Option DescriptionCache) :
    Consistent (setup.env cache) (setup.initial cache).run :=
  IngestRun.consistent_initial (setup.env cache)

/-! ## Documents without other atoms than text -/

theorem doProcess_of_text {atoms : List Atom} (h : ∀ atom ∈ atoms, atom.type = .text)
    (cache : Option DescriptionCache) : (setup.doProcess atoms cache).2 = .ok [] := by
  have hempty : nonText atoms = [] := List.filter_eq_nil_iff.mpr fun atom hatom => by
    simp [h atom hatom]
  cases cache with
  | none => simp [doProcess, hempty]
  | some cache => simp [doProcess, processAtoms, hempty, Except.map]

/-- What the code does meet: the document has text atoms only, and the chunker takes them. -/
structure Plain (setup : VlmSetup) : Prop where
  text : ∀ atom ∈ setup.atomRows, atom.type = .text
  chunked : ∃ drafts, setup.ingest.drafts setup.atomRows = .ok drafts

/-- The invariant of the runs of such a document. -/
structure Clear (setup : VlmSetup) (v : VlmRun) : Prop where
  consistent : Consistent (setup.env v.cache) v.run
  unprocessed : v.run.stores.checkpoint .processing = []
  undescribed : ∀ m ∈ v.run.memory, m.descriptions = []
  onTrack : ∀ m ∈ v.run.memory, m.position.OnTrack

/-- No stage function raises. -/
theorem exists_stageFn (hsetup : Plain setup) {s : IngestStores} {cache : Option DescriptionCache}
    {stage : IngestStage} (he : Entered (setup.env cache) s m stage) (hm : m.descriptions = [])
    (freshIds : List String) :
    ∃ s' ids, (setup.env cache).stageFn freshIds s m stage = .ok (s', ids) ∧
      s'.checkpoints = s.checkpoints ∧ (stage = .processing → ids = []) := by
  cases stage with
  | parsing => exact ⟨_, _, rfl, rfl, fun h => absurd h (by decide)⟩
  | processing =>
    have hatoms : m.atoms = setup.atomRows := he
    have hnone : (setup.env cache).processed m.atoms = .ok [] := by
      rw [hatoms]
      exact doProcess_of_text hsetup.text cache
    refine ⟨s, [], ?_, rfl, fun _ => rfl⟩
    rw [IngestEnv.stageFn, hnone]
    rfl
  | chunking =>
    obtain ⟨drafts, hdrafts⟩ := hsetup.chunked
    have hatoms : m.atoms = setup.atomRows := he
    have hok : (setup.env cache).drafts m.atoms = .ok drafts := hatoms ▸ hdrafts
    rw [IngestEnv.stageFn, hm]
    dsimp only
    rw [hok]
    exact ⟨_, _, rfl, rfl, fun h => absurd h (by decide)⟩
  | embedding => exact ⟨_, _, rfl, rfl, fun h => absurd h (by decide)⟩
  | kgBuilding => exact ⟨_, _, rfl, rfl, fun h => absurd h (by decide)⟩

/-- What an await does to a run on its track: it stays there and gets nearer to the end, or the
run returns. -/
structure Onward (m : IngestMemory) (s : IngestStores) (w' : IngestRun) : Prop where
  unprocessed : w'.stores.checkpoint .processing = []
  nearer : ∀ m' ∈ w'.memory, m'.descriptions = [] ∧ m'.position.OnTrack ∧
    m'.position.remaining < m.position.remaining
  returned : w'.memory = none → w'.task.status = .done ∧ w'.stores = s

theorem Onward.of_memory {s : IngestStores} {w' : IngestRun} {m' : IngestMemory}
    (hs : w'.stores.checkpoint .processing = []) (hmemory : w'.memory = some m')
    (hnearer : m'.descriptions = [] ∧ m'.position.OnTrack ∧
      m'.position.remaining < m.position.remaining) : Onward m s w' where
  unprocessed := hs
  nearer m'' hm'' := by
    rw [hmemory] at hm''
    cases hm''
    exact hnearer
  returned hnone := by
    rw [hmemory] at hnone
    cases hnone

theorem onward_check (hv : Clear setup v) (hm : v.run.memory = some m) {freshIds : List String}
    {w' : IngestRun} {stage : IngestStage} (hpos : m.position = .check stage)
    (h : IngestRun.advance (setup.env v.cache) freshIds v.run m = some w') :
    Onward m v.run.stores w' := by
  have hdesc := hv.undescribed m hm
  unfold IngestRun.advance at h
  rw [hpos] at h
  dsimp only at h
  cases hckpt : v.run.stores.checkpoint stage with
  | nil =>
    rw [hckpt] at h
    cases h
    refine .of_memory hv.unprocessed rfl ⟨hdesc, trivial, ?_⟩
    rw [hpos]
    show stage.remaining + 2 < stage.remaining + 3
    omega
  | cons id ids =>
    rw [hckpt] at h
    cases h
    have hother : stage = .processing → id :: ids = [] := fun hstage => by
      rw [← hckpt, hstage]
      exact hv.unprocessed
    obtain ⟨hdesc', htrack, hless⟩ := completed_onTrack (setup.env v.cache) hother hdesc
    refine .of_memory hv.unprocessed rfl ⟨hdesc', htrack, hless.trans ?_⟩
    rw [hpos]
    show stage.remaining < stage.remaining + 3
    omega

theorem onward_work (hsetup : Plain setup) (hv : Clear setup v) (hm : v.run.memory = some m)
    {freshIds : List String} {w' : IngestRun} {stage : IngestStage}
    (hpos : m.position = .work stage)
    (h : IngestRun.advance (setup.env v.cache) freshIds v.run m = some w') :
    Onward m v.run.stores w' := by
  have hdesc := hv.undescribed m hm
  have hloc := hv.consistent.located m hm
  unfold Located at hloc
  rw [hpos] at hloc
  obtain ⟨s', ids, hfn, hckpts, hids⟩ := exists_stageFn hsetup hloc.1 hdesc freshIds
  unfold IngestRun.advance at h
  rw [hpos] at h
  dsimp only at h
  rw [hfn] at h
  split_ifs at h
  cases h
  refine .of_memory ?_ rfl ⟨hdesc, ?_, ?_⟩
  · show (s'.checkpoints.get? .processing).getD [] = []
    rw [hckpts]
    exact hv.unprocessed
  · cases stage with
    | processing => exact hids rfl
    | _ => trivial
  · rw [hpos]
    show stage.remaining < stage.remaining + 1
    omega

theorem onward_record (hv : Clear setup v) (hm : v.run.memory = some m) {freshIds ids : List String}
    {w' : IngestRun} {stage : IngestStage} (hpos : m.position = .record stage ids)
    (h : IngestRun.advance (setup.env v.cache) freshIds v.run m = some w') :
    Onward m v.run.stores w' := by
  have hdesc := hv.undescribed m hm
  have hids : stage = .processing → ids = [] := by
    rintro rfl
    have htrack := hv.onTrack m hm
    rw [hpos] at htrack
    exact htrack
  unfold IngestRun.advance at h
  rw [hpos] at h
  cases h
  obtain ⟨hdesc', htrack, hless⟩ := completed_onTrack (setup.env v.cache) hids hdesc
  refine .of_memory ?_ rfl ⟨hdesc', htrack, ?_⟩
  · show ((v.run.stores.checkpoints.insert stage ids).get? .processing).getD [] = []
    rw [OrderedDict.get?_insert]
    split_ifs with hstage
    · exact hids hstage
    · exact hv.unprocessed
  · rw [hpos]
    exact hless

/-- Each await of such a document leads onward. -/
theorem onward_advance (hsetup : Plain setup) (hv : Clear setup v) (hm : v.run.memory = some m)
    {freshIds : List String} {w' : IngestRun}
    (h : IngestRun.advance (setup.env v.cache) freshIds v.run m = some w') :
    Onward m v.run.stores w' := by
  have hdesc := hv.undescribed m hm
  cases hpos : m.position with
  | check stage => exact onward_check hv hm hpos h
  | work stage => exact onward_work hsetup hv hm hpos h
  | record stage ids => exact onward_record hv hm hpos h
  | recover stage =>
    have htrack := hv.onTrack m hm
    rw [hpos] at htrack
    exact htrack.elim
  | announce stage =>
    unfold IngestRun.advance at h
    rw [hpos] at h
    cases h
    refine .of_memory hv.unprocessed rfl ⟨hdesc, trivial, ?_⟩
    rw [hpos]
    show stage.remaining + 1 < stage.remaining + 2
    omega
  | loadAtoms =>
    unfold IngestRun.advance at h
    rw [hpos] at h
    cases h
    refine .of_memory hv.unprocessed rfl ⟨hdesc, trivial, ?_⟩
    rw [hpos]
    show 18 < 19
    omega
  | loadChunks =>
    unfold IngestRun.advance at h
    rw [hpos] at h
    cases h
    refine .of_memory hv.unprocessed rfl ⟨hdesc, trivial, ?_⟩
    rw [hpos]
    show 9 < 10
    omega
  | finish =>
    unfold IngestRun.advance at h
    rw [hpos] at h
    cases h
    exact ⟨hv.unprocessed, fun _ hnone => absurd hnone (Option.not_mem_none _),
      fun _ => ⟨rfl, rfl⟩⟩

theorem exists_advance (ingest : IngestEnv) (w : IngestRun) (m : IngestMemory) :
    ∃ freshIds w', IngestRun.advance ingest freshIds w m = some w' := by
  unfold IngestRun.advance
  cases m.position with
  | check stage =>
    dsimp only
    cases w.stores.checkpoint stage with
    | nil => exact ⟨[], _, rfl⟩
    | cons id ids => exact ⟨[], _, rfl⟩
  | work stage =>
    obtain ⟨freshIds, hdrawn⟩ := exists_drawn ingest w.stores m stage
    refine ⟨freshIds, ?_⟩
    dsimp only
    rw [if_pos hdrawn]
    cases ingest.stageFn freshIds w.stores m stage with
    | error e => exact ⟨_, rfl⟩
    | ok result => exact ⟨_, rfl⟩
  | announce stage => exact ⟨[], _, rfl⟩
  | record stage ids => exact ⟨[], _, rfl⟩
  | recover stage => exact ⟨[], _, rfl⟩
  | loadAtoms => exact ⟨[], _, rfl⟩
  | loadChunks => exact ⟨[], _, rfl⟩
  | finish => exact ⟨[], _, rfl⟩

/-- A document of text atoms has no atom to describe. -/
theorem described_of_plain (hsetup : Plain setup)
    (hv : Consistent (setup.env v.cache) v.run) : setup.Described v.run.stores := by
  intro atom hatom htype
  rcases hv.sound.atoms with hnone | hparsed
  · rw [hnone] at hatom
    exact absurd hatom List.not_mem_nil
  · have hrows : getAtoms v.run.stores.atoms = setup.atomRows := congrArg getAtoms hparsed
    exact absurd (hsetup.text atom (hrows ▸ hatom)) htype

theorem clear_step (hsetup : Plain setup) {e : IngestEvent} (hv : Clear setup v)
    (h : setup.step v e = some v') (hcrash : AfterProcessing v e v') :
    setup.EndsDescribed v e v' ∧ Clear setup v' := by
  have hconsistent := consistent_step hv.consistent h hcrash
  have hstep := step_eq_some h
  cases e with
  | start =>
    refine ⟨trivial, ?_⟩
    cases hmem : v.run.memory with
    | some m => simp [IngestRun.step, hmem] at hstep
    | none =>
      have hrun : v'.run = { v.run with memory := some { task := v.run.task } } := by
        simp only [IngestRun.step, hmem, Option.some.injEq] at hstep
        exact hstep.symm
      refine ⟨hconsistent, ?_, ?_, ?_⟩
      · rw [hrun]
        exact hv.unprocessed
      · intro m' hm'
        rw [hrun] at hm'
        cases hm'
        rfl
      · intro m' hm'
        rw [hrun] at hm'
        cases hm'
        trivial
  | advance freshIds =>
    obtain ⟨m, hm, hadvance⟩ := Option.bind_eq_some_iff.mp hstep
    have honward := onward_advance hsetup hv hm hadvance
    exact ⟨fun hnone => ⟨(honward.returned hnone).1, described_of_plain hsetup hconsistent⟩,
      hconsistent, honward.unprocessed, fun m' hm' => (honward.nearer m' hm').1,
      fun m' hm' => (honward.nearer m' hm').2.1⟩
  | crash written =>
    obtain ⟨m, hm, hw⟩ := Option.map_eq_some_iff.mp hstep
    have hckpts : (torn (setup.env v.cache) written v.run.stores m).checkpoints =
        v.run.stores.checkpoints := by
      unfold torn
      split
      · rfl
      · rfl
    refine ⟨trivial, hconsistent, ?_, ?_, ?_⟩
    · rw [← hw]
      show ((torn (setup.env v.cache) written v.run.stores m).checkpoints.get?
        .processing).getD [] = []
      rw [hckpts]
      exact hv.unprocessed
    · rw [← hw]
      exact fun _ hnone => absurd hnone (Option.not_mem_none _)
    · rw [← hw]
      exact fun _ hnone => absurd hnone (Option.not_mem_none _)

theorem clear_initial (setup : VlmSetup) (cache : Option DescriptionCache) :
    Clear setup (setup.initial cache) where
  consistent := consistent_initial setup cache
  unprocessed := rfl
  undescribed _ hm := absurd hm (Option.not_mem_none _)
  onTrack _ hm := absurd hm (Option.not_mem_none _)

/-- The awaits that a run may still take; one that was interrupted starts again. -/
def remaining (v : VlmRun) : ℕ := (v.run.memory.map fun m => m.position.remaining).getD 24

/-- A run of such a document can go on until it is done. -/
theorem exists_done_of_clear (hsetup : Plain setup) (hv : Clear setup v) :
    ∃ more v', (∀ e ∈ more, ∀ written, e ≠ .crash written) ∧
      Ragx.run setup.step v more = some v' ∧ v'.run.task.status = .done := by
  refine exists_run_of_rank (I := Clear setup) (G := fun v => v.run.task.status = .done)
    (A := fun e => ∀ written, e ≠ IngestEvent.crash written) remaining (fun v hv _ => ?_) hv
  cases hmem : v.run.memory with
  | none =>
    have hstep : setup.step v .start =
        some ⟨{ v.run with memory := some { task := v.run.task } }, v.cache⟩ := by
      rw [step, IngestRun.step, hmem]
      rfl
    refine ⟨.start, _, by simp, hstep, (clear_step hsetup hv hstep trivial).2, Or.inr ?_⟩
    rw [remaining, remaining, hmem]
    show 23 < 24
    omega
  | some m =>
    obtain ⟨freshIds, w', hadvance⟩ := exists_advance (setup.env v.cache) v.run m
    have hstep : setup.step v (.advance freshIds) =
        some ⟨w', setup.cacheAfter v (.advance freshIds)⟩ := by
      rw [step, IngestRun.step, hmem, Option.bind_some, hadvance]
      rfl
    refine ⟨.advance freshIds, _, by simp, hstep, (clear_step hsetup hv hstep trivial).2, ?_⟩
    have honward := onward_advance hsetup hv hmem hadvance
    cases hmem' : w'.memory with
    | none => exact Or.inl (honward.returned hmem').1
    | some m' =>
      refine Or.inr ?_
      rw [remaining, remaining, hmem, hmem']
      exact (honward.nearer m' hmem').2.2

theorem describesAll_of_plain (hsetup : Plain setup) (cache : Option DescriptionCache) :
    setup.DescribesAll cache where
  right _ hevents := EveryStep.of_invariant (I := Clear setup) (G := AfterProcessing)
    (P := setup.EndsDescribed) (fun _ _ _ hv hstep hcrash => clear_step hsetup hv hstep hcrash)
    (clear_initial setup cache) hevents
  ends _ _ hevents hrun := exists_done_of_clear hsetup <|
    run_invariant_of_guarded (I := Clear setup)
      (fun _ _ _ hv hstep hcrash => (clear_step hsetup hv hstep hcrash).2)
      (clear_initial setup cache) hevents hrun

/-! ## Documents with another atom -/

theorem ne_nil_of_doProcess {atoms : List Atom} (h : ∃ atom ∈ atoms, atom.type ≠ .text)
    {cache : Option DescriptionCache} {ids : List String}
    (hok : (setup.doProcess atoms cache).2 = .ok ids) : ids ≠ [] := by
  obtain ⟨atom, hatom, htype⟩ := h
  have hmem : atom ∈ nonText atoms := List.mem_filter.mpr ⟨hatom, decide_eq_true htype⟩
  cases cache with
  | none =>
    have hnonempty : ¬ (nonText atoms).isEmpty = true := fun hempty =>
      List.ne_nil_of_mem hmem (List.isEmpty_iff.mp hempty)
    rw [doProcess, if_neg hnonempty] at hok
    cases hok
  | some cache =>
    obtain ⟨descs, hdescs, rfl⟩ := map_eq_ok_iff.mp hok
    have hlength := length_processAtoms hdescs
    intro hnil
    rw [List.map_eq_nil_iff.mp hnil] at hlength
    exact List.ne_nil_of_mem hmem (List.length_eq_zero_iff.mp hlength.symm)

/-- A run may be at a stage up to the chunking, and there with something to read. -/
def Stopped (m : IngestMemory) : IngestStage → Prop
  | .parsing => True
  | .processing => True
  | .chunking => m.descriptions ≠ []
  | .embedding => False
  | .kgBuilding => False

/-- No chunk has been made. -/
def BeforeChunks (m : IngestMemory) : Prop :=
  match m.position with
  | .check stage => Stopped m stage
  | .announce stage => Stopped m stage
  | .work stage => Stopped m stage
  | .recover stage => Stopped m stage
  | .record .parsing _ => True
  | .record .processing ids => ids ≠ []
  | .record _ _ => False
  | .loadAtoms => True
  | .loadChunks => False
  | .finish => False

/-- The invariant of the runs of a document with an atom that is not text. -/
structure Blocked (w : IngestRun) : Prop where
  unchunked : w.stores.checkpoint .chunking = []
  not_done : w.task.status ≠ .done
  memory : ∀ m ∈ w.memory, m.task.status ≠ .done ∧ BeforeChunks m

theorem Blocked.of_memory {w' : IngestRun} {m' : IngestMemory}
    (hs : w'.stores.checkpoint .chunking = []) (htask : w'.task.status ≠ .done)
    (hmemory : w'.memory = some m') (hstatus : m'.task.status ≠ .done) (hbefore : BeforeChunks m') :
    Blocked w' where
  unchunked := hs
  not_done := htask
  memory m'' hm'' := by
    rw [hmemory] at hm''
    cases hm''
    exact ⟨hstatus, hbefore⟩

theorem status_failStage_ne_done (ingest : IngestEnv) {task : IngestTask} (e : Exc)
    (h : task.status ≠ .done) : (ingest.failStage task e).status ≠ .done := by
  unfold IngestEnv.failStage
  dsimp only
  split_ifs
  · exact fun hfailed => absurd hfailed (by decide)
  · exact h

theorem blocked_check {ingest : IngestEnv} {w w' : IngestRun} (hw : Blocked w) (hm : m ∈ w.memory)
    {freshIds : List String} {stage : IngestStage} (hpos : m.position = .check stage)
    (h : IngestRun.advance ingest freshIds w m = some w') : Blocked w' := by
  obtain ⟨hstatus, hbefore⟩ := hw.memory m hm
  rw [BeforeChunks, hpos] at hbefore
  unfold IngestRun.advance at h
  rw [hpos] at h
  dsimp only at h
  cases hckpt : w.stores.checkpoint stage with
  | nil =>
    rw [hckpt] at h
    cases h
    refine .of_memory hw.unchunked hw.not_done rfl ?_ hbefore
    show stage.status ≠ .done
    cases stage <;> decide
  | cons id ids =>
    rw [hckpt] at h
    cases h
    cases stage with
    | parsing => exact .of_memory hw.unchunked hw.not_done rfl hstatus trivial
    | processing =>
      exact .of_memory hw.unchunked hw.not_done rfl hstatus (List.cons_ne_nil id ids)
    | chunking =>
      rw [hw.unchunked] at hckpt
      cases hckpt
    | embedding => exact hbefore.elim
    | kgBuilding => exact hbefore.elim

theorem blocked_work {w w' : IngestRun} {cache : Option DescriptionCache}
    (hother : ∃ atom ∈ setup.atomRows, atom.type ≠ .text)
    (hconsistent : Consistent (setup.env cache) w) (hw : Blocked w) (hm : m ∈ w.memory)
    {freshIds : List String} {stage : IngestStage} (hpos : m.position = .work stage)
    (h : IngestRun.advance (setup.env cache) freshIds w m = some w') : Blocked w' := by
  obtain ⟨hstatus, hbefore⟩ := hw.memory m hm
  rw [BeforeChunks, hpos] at hbefore
  have hloc := hconsistent.located m hm
  unfold Located at hloc
  rw [hpos] at hloc
  unfold IngestRun.advance at h
  rw [hpos] at h
  dsimp only at h
  split_ifs at h
  cases hfn : (setup.env cache).stageFn freshIds w.stores m stage with
  | error e =>
    rw [hfn] at h
    cases h
    exact .of_memory hw.unchunked hw.not_done rfl (status_failStage_ne_done _ e hstatus) hbefore
  | ok result =>
    rw [hfn] at h
    cases h
    cases stage with
    | parsing =>
      cases hfn
      exact .of_memory hw.unchunked hw.not_done rfl hstatus trivial
    | processing =>
      obtain ⟨ids, hids, rfl⟩ := map_eq_ok_iff.mp hfn
      have hatoms : m.atoms = setup.atomRows := hloc.1
      rw [hatoms] at hids
      exact .of_memory hw.unchunked hw.not_done rfl hstatus (ne_nil_of_doProcess hother hids)
    | chunking =>
      obtain ⟨d, ds, hds⟩ := List.exists_cons_of_ne_nil hbefore
      rw [IngestEnv.stageFn, hds] at hfn
      cases hfn
    | embedding => exact hbefore.elim
    | kgBuilding => exact hbefore.elim

theorem blocked_record {ingest : IngestEnv} {w w' : IngestRun} (hw : Blocked w) (hm : m ∈ w.memory)
    {freshIds ids : List String} {stage : IngestStage} (hpos : m.position = .record stage ids)
    (h : IngestRun.advance ingest freshIds w m = some w') : Blocked w' := by
  obtain ⟨hstatus, hbefore⟩ := hw.memory m hm
  rw [BeforeChunks, hpos] at hbefore
  unfold IngestRun.advance at h
  rw [hpos] at h
  cases h
  have hckpt (hstage : stage ≠ .chunking) :
      ((w.stores.checkpoints.insert stage ids).get? .chunking).getD [] = [] := by
    rw [OrderedDict.get?_insert, if_neg hstage]
    exact hw.unchunked
  cases stage with
  | parsing => exact .of_memory (hckpt (by decide)) hw.not_done rfl hstatus trivial
  | processing => exact .of_memory (hckpt (by decide)) hw.not_done rfl hstatus hbefore
  | chunking => exact hbefore.elim
  | embedding => exact hbefore.elim
  | kgBuilding => exact hbefore.elim

/-- No await brings such a document past the chunking stage. -/
theorem blocked_advance {w w' : IngestRun} {cache : Option DescriptionCache}
    (hother : ∃ atom ∈ setup.atomRows, atom.type ≠ .text)
    (hconsistent : Consistent (setup.env cache) w) (hw : Blocked w) (hm : m ∈ w.memory)
    {freshIds : List String}
    (h : IngestRun.advance (setup.env cache) freshIds w m = some w') : Blocked w' := by
  obtain ⟨hstatus, hbefore⟩ := hw.memory m hm
  cases hpos : m.position with
  | check stage => exact blocked_check hw hm hpos h
  | work stage => exact blocked_work hother hconsistent hw hm hpos h
  | record stage ids => exact blocked_record hw hm hpos h
  | announce stage =>
    rw [BeforeChunks, hpos] at hbefore
    unfold IngestRun.advance at h
    rw [hpos] at h
    cases h
    exact .of_memory hw.unchunked hstatus rfl hstatus hbefore
  | recover stage =>
    rw [BeforeChunks, hpos] at hbefore
    unfold IngestRun.advance at h
    rw [hpos] at h
    cases h
    refine ⟨hw.unchunked, hstatus, fun m' hm' => ?_⟩
    dsimp only at hm'
    split_ifs at hm'
    · cases hm'
    · cases hm'
      exact ⟨hstatus, hbefore⟩
  | loadAtoms =>
    unfold IngestRun.advance at h
    rw [hpos] at h
    cases h
    exact .of_memory hw.unchunked hw.not_done rfl hstatus trivial
  | loadChunks =>
    rw [BeforeChunks, hpos] at hbefore
    exact hbefore.elim
  | finish =>
    rw [BeforeChunks, hpos] at hbefore
    exact hbefore.elim

theorem blocked_step {e : IngestEvent} (hother : ∃ atom ∈ setup.atomRows, atom.type ≠ .text)
    (hconsistent : Consistent (setup.env v.cache) v.run) (hv : Blocked v.run)
    (h : setup.step v e = some v') (hcrash : ∀ written, e ≠ .crash written) : Blocked v'.run := by
  have hstep := step_eq_some h
  cases e with
  | start =>
    cases hmem : v.run.memory with
    | some m => simp [IngestRun.step, hmem] at hstep
    | none =>
      simp only [IngestRun.step, hmem, Option.some.injEq] at hstep
      rw [← hstep]
      exact .of_memory hv.unchunked hv.not_done rfl hv.not_done trivial
  | advance freshIds =>
    obtain ⟨m, hm, hadvance⟩ := Option.bind_eq_some_iff.mp hstep
    exact blocked_advance hother hconsistent hv hm hadvance
  | crash written => exact absurd rfl (hcrash written)

theorem blocked_initial (setup : VlmSetup) (cache : Option DescriptionCache) :
    Blocked (setup.initial cache).run where
  unchunked := rfl
  not_done := by
    show TaskStatus.pending ≠ .done
    decide
  memory _ hm := absurd hm (Option.not_mem_none _)

theorem afterProcessing_of_ne {e : IngestEvent} (h : ∀ written, e ≠ .crash written) :
    AfterProcessing v e v' := by
  cases e with
  | start => trivial
  | advance freshIds => trivial
  | crash written => exact absurd rfl (h written)

/-- A run that is done has read text atoms only, and the chunker took them. -/
theorem plain_of_done {cache : Option DescriptionCache} {events : List IngestEvent}
    (hfree : ∀ e ∈ events, ∀ written, e ≠ .crash written)
    (hrun : Ragx.run setup.step (setup.initial cache) events = some v)
    (hdone : v.run.task.status = .done) : Plain setup := by
  have hinvariant := run_invariant_of_guarded (G := fun _ e _ => ∀ written, e ≠ .crash written)
    (I := fun v => Consistent (setup.env v.cache) v.run ∧
      ((∃ atom ∈ setup.atomRows, atom.type ≠ .text) → Blocked v.run))
    (fun v e v' hv hstep hcrash => ⟨consistent_step hv.1 hstep (afterProcessing_of_ne hcrash),
      fun hother => blocked_step hother hv.1 (hv.2 hother) hstep hcrash⟩)
    ⟨consistent_initial setup cache, fun _ => blocked_initial setup cache⟩
    (everyStep_of_forall (fun e he _ _ => hfree e he) _) hrun
  obtain ⟨hconsistent, hblocked⟩ := hinvariant
  refine ⟨fun atom hatom => ?_, ?_⟩
  · by_contra htype
    exact (hblocked ⟨atom, hatom, htype⟩).not_done hdone
  · obtain ⟨drafts, hdrafts, _⟩ := (hconsistent.done hdone).drafted
    exact ⟨drafts, hdrafts⟩

theorem plain_of_describesAll {cache : Option DescriptionCache} (h : setup.DescribesAll cache) :
    Plain setup := by
  obtain ⟨more, v, hfree, hrun, hdone⟩ := h.ends [] (setup.initial cache) trivial rfl
  exact plain_of_done hfree hrun hdone

/-- Documents go through with all their descriptions exactly when they have none to be given:
when every atom is text, and the chunker takes the atoms. -/
theorem describesAll_iff (setup : VlmSetup) (cache : Option DescriptionCache) :
    setup.DescribesAll cache ↔ (∀ atom ∈ setup.atomRows, atom.type = .text) ∧
      ∃ drafts, setup.ingest.drafts setup.atomRows = .ok drafts :=
  ⟨fun h => ⟨(plain_of_describesAll h).text, (plain_of_describesAll h).chunked⟩,
    fun h => describesAll_of_plain ⟨h.1, h.2⟩ cache⟩

/-! ## One image -/

/-- A processor that describes everything as a chart, with confidence. -/
def chartProcessor : Processor where
  describe atoms := .ok (atoms.map fun a =>
    { atomId := a.atomId, description := "a chart", confidence := 1, model := "vlm-small" })

def imageSetup : VlmSetup where
  ingest := { sampleEnv with
    parse := [{ atomId := "doc_1#0000", docId := "doc_1", type := .image, contentHash := "h" }] }
  processor := chartProcessor
  completion := { order := id, perm := fun _ => List.Perm.refl _ }
  completion' := { order := id, perm := fun _ => List.Perm.refl _ }

theorem not_describesAll_image (cache : Option DescriptionCache) :
    ¬ imageSetup.DescribesAll cache := by
  intro h
  have hall : imageSetup.atomRows.all (fun atom => atom.type = .text) = true :=
    List.all_eq_true.mpr fun atom hatom =>
      decide_eq_true ((plain_of_describesAll h).text atom hatom)
  revert hall
  decide +kernel

/-- How a run of the image's document ends. -/
def imageOutcome (cache : Option DescriptionCache) (events : List IngestEvent) :
    Option (TaskStatus × Option String) :=
  (Ragx.run imageSetup.step (imageSetup.initial cache) events).map fun v =>
    (v.run.task.status, v.run.task.error)

/-- The described image fails the chunking stage, also after an interruption and a resume; without
a cache it fails the processing stage. -/
theorem not_describesAll_oneImage :
    imageOutcome (some .empty) (.start :: awaits 11 ["chk_1"] 1) =
        some (.failed, some "0: 'str' object has no attribute 'atom_id'") ∧
      imageOutcome (some .empty)
        (.start :: List.replicate 9 (.advance []) ++ .crash 0 :: .start :: awaits 5 ["chk_1"] 1) =
        some (.failed, some "0: 'str' object has no attribute 'atom_id'") ∧
      imageOutcome none (.start :: List.replicate 9 (.advance [])) =
        some (.failed, some "0: 'NoneType' object has no attribute 'exists'") ∧
      ¬ imageSetup.DescribesAll (some .empty) ∧ ¬ imageSetup.DescribesAll none :=
  ⟨by decide +kernel, by decide +kernel, by decide +kernel, not_describesAll_image _,
    not_describesAll_image _⟩

end VlmSetup

end Ragx
