import Ragx.IngestStores

/-!
# Crashes and re-runs of the ingestion pipeline

Every crash but one leaves the stores sound: the chunk rows and their checkpoint are two
commits, and a replay of the chunking stage between them draws new ids. The main
result is about every run without that crash.
-/
namespace Ragx

namespace IngestRun

open IngestStores

variable (env : IngestEnv)

/-- What a stage may rely on when it is entered. -/
def Entered (s : IngestStores) (m : IngestMemory) : IngestStage → Prop
  | .parsing => True
  | .processing => m.atoms = getAtoms (saveAtoms .empty env.parse)
  | .chunking => m.atoms = getAtoms (saveAtoms .empty env.parse)
  | .embedding => Chunked env s ∧ m.chunks = getChunksByDoc s.chunks
  | .kgBuilding => Settled env s

/-- What a stage has established when its ids are to be recorded. -/
def Established (s : IngestStores) (ids : List String) : IngestStage → Prop
  | .parsing => Parsed env s
  | .processing => True
  | .chunking => Chunked env s ∧ (ids = [] → s.chunks = .empty)
  | .embedding => Settled env s
  | .kgBuilding => Settled env s

/-- What holds at each await of a run. -/
def Located (s : IngestStores) (m : IngestMemory) : Prop :=
  match m.position with
  | .check stage => Entered env s m stage
  | .announce stage => Entered env s m stage ∧ (stage = .chunking → s.checkpoint .chunking = [])
  | .work stage => Entered env s m stage ∧ (stage = .chunking → s.checkpoint .chunking = [])
  | .record stage ids => Entered env s m stage ∧ Established env s ids stage
  | .recover stage => Entered env s m stage
  | .loadAtoms => Parsed env s
  | .loadChunks => Chunked env s
  | .finish => Settled env s

/-- The chunk rows are committed and their checkpoint is not. -/
def Unrecorded (m : IngestMemory) : Prop :=
  match m.position with
  | .record .chunking (_ :: _) => True
  | _ => False

instance (m : IngestMemory) : Decidable (Unrecorded m) := by
  unfold Unrecorded
  split <;> infer_instance

/-- The invariant of untorn runs. -/
structure Consistent (w : IngestRun) : Prop where
  sound : Sound env w.stores
  located : ∀ m ∈ w.memory, Located env w.stores m
  /-- Without a checkpoint there are chunk rows only until it is written. -/
  unchunked : w.stores.checkpoint .chunking = [] →
    w.stores.chunks = .empty ∨ ∃ m ∈ w.memory, Unrecorded m
  done : w.task.status = .done → Settled env w.stores
  memory_done : ∀ m ∈ w.memory, m.task.status = .done → Settled env w.stores

/-- No crash comes between the commit of chunk rows and the commit of their checkpoint. -/
def Untorn (w : IngestRun) (e : IngestEvent) (_ : IngestRun) : Prop :=
  match e with
  | .crash _ => ∀ m ∈ w.memory, ¬ Unrecorded m
  | _ => True

variable {env} {w w' : IngestRun} {m : IngestMemory}

theorem Consistent.chunks_eq_empty (hw : Consistent env w) (hm : ∀ m ∈ w.memory, ¬ Unrecorded m)
    (hckpt : w.stores.checkpoint .chunking = []) : w.stores.chunks = .empty := by
  rcases hw.unchunked hckpt with hempty | ⟨m, hmem, hrec⟩
  · exact hempty
  · exact absurd hrec (hm m hmem)

/-- A step that touches the in-memory part and the task record only. -/
theorem Consistent.move {task : IngestTask} {memory : Option IngestMemory}
    (hw : Consistent env w) (hm : ∀ m ∈ w.memory, ¬ Unrecorded m)
    (hloc : ∀ m' ∈ memory, Located env w.stores m')
    (hdone : task.status = .done → Settled env w.stores)
    (hmemory : ∀ m' ∈ memory, m'.task.status = .done → Settled env w.stores) :
    Consistent env { w with task := task, memory := memory } :=
  ⟨hw.sound, hloc, fun hckpt => Or.inl (hw.chunks_eq_empty hm hckpt), hdone, hmemory⟩

/-- The run goes on behind an established stage. -/
theorem located_completed {s : IngestStores} {ids : List String} {stage : IngestStage}
    (he : Entered env s m stage) (hest : Established env s ids stage) :
    Located env s (env.completed m ids stage) := by
  cases stage with
  | parsing => exact hest
  | processing => exact he
  | chunking => exact hest.1
  | embedding =>
    unfold IngestEnv.completed Located
    cases env.kgEnabled
    · exact hest
    · exact hest
  | kgBuilding => exact hest

/-- A checkpoint that lets the wrapper skip a stage says that it is established. -/
theorem established_of_checkpoint {s : IngestStores} {stage : IngestStage} (hs : Sound env s)
    (he : Entered env s m stage) (hckpt : s.checkpoint stage ≠ []) :
    Established env s (s.checkpoint stage) stage := by
  cases stage with
  | parsing => exact hs.parsed hckpt
  | processing => trivial
  | chunking => exact ⟨hs.chunked hckpt, fun h => absurd h hckpt⟩
  | embedding => exact hs.embedded hckpt
  | kgBuilding => exact he

/-- What a stage function that returns has done. -/
theorem stageFn_spec {s s' : IngestStores} {freshIds ids : List String} {stage : IngestStage}
    (hs : Sound env s) (he : Entered env s m stage)
    (hempty : stage = .chunking → s.chunks = .empty) (hdrawn : env.Drawn freshIds s m stage)
    (h : env.stageFn freshIds s m stage = .ok (s', ids)) :
    Sound env s' ∧ Keeps env s s' ∧ Entered env s' m stage ∧ Established env s' ids stage ∧
      s'.checkpoints = s.checkpoints ∧ (stage ≠ .chunking → s'.chunks = s.chunks) := by
  cases stage with
  | parsing =>
    cases h
    obtain ⟨hsound, hkeeps, hparsed⟩ := parse_spec hs
    exact ⟨hsound, hkeeps, trivial, hparsed, rfl, fun _ => rfl⟩
  | processing =>
    simp only [IngestEnv.stageFn] at h
    cases hp : env.processed m.atoms with
    | error e => rw [hp] at h; cases h
    | ok produced =>
      rw [hp] at h
      cases h
      exact ⟨hs, ⟨id, id, id⟩, he, trivial, rfl, fun _ => rfl⟩
  | chunking =>
    simp only [IngestEnv.stageFn] at h
    obtain ⟨hn, -, hlength⟩ := hdrawn rfl
    cases hdesc : m.descriptions with
    | cons d ds => rw [hdesc] at h; cases h
    | nil =>
      rw [hdesc] at h
      cases hdrafts : env.drafts m.atoms with
      | error e => rw [hdrafts] at h; cases h
      | ok drafts =>
        rw [hdrafts] at h hlength
        cases h
        have hatoms : m.atoms = getAtoms (saveAtoms .empty env.parse) := he
        have hids := map_chunkId_identified hlength
        obtain ⟨hsound, hkeeps, hchunked, hnone⟩ :=
          chunk_spec hs (hempty rfl) hn hlength (hatoms ▸ hdrafts)
        exact ⟨hsound, hkeeps, he, ⟨hchunked, fun h => hnone (hids.symm.trans h)⟩, rfl,
          fun h => absurd rfl h⟩
  | embedding =>
    cases h
    obtain ⟨hchunked, hchunks⟩ := he
    obtain ⟨hsound, hkeeps, hsettled⟩ := upsert_spec hs hchunked (env.embedded m.chunks)
      fun x hx => hchunks ▸ hx
    exact ⟨hsound, hkeeps, ⟨hkeeps.chunked hchunked, hchunks⟩, hsettled (hchunks ▸ rfl), rfl,
      fun _ => rfl⟩
  | kgBuilding =>
    cases h
    exact ⟨hs, ⟨id, id, id⟩, he, he, rfl, fun _ => rfl⟩

theorem unrecorded_iff {stage : IngestStage} {ids : List String}
    (hpos : m.position = .record stage ids) : Unrecorded m ↔ stage = .chunking ∧ ids ≠ [] := by
  rw [Unrecorded, hpos]
  cases stage <;> cases ids <;> simp

theorem not_unrecorded (hm : m ∈ w.memory) (h : ∀ stage ids, m.position ≠ .record stage ids) :
    ∀ m' ∈ w.memory, ¬ Unrecorded m' := by
  intro m' hm'
  obtain rfl := Option.mem_unique hm hm'
  unfold Unrecorded
  split
  · exact fun _ => h _ _ ‹_›
  · exact id

/-- A stage function returns or raises. -/
theorem consistent_work {freshIds : List String} {stage : IngestStage} (hw : Consistent env w)
    (hm : m ∈ w.memory) (hpos : m.position = .work stage)
    (h : advance env freshIds w m = some w') : Consistent env w' := by
  have hloc := hw.located m hm
  simp only [Located, hpos] at hloc
  obtain ⟨he, hckpt⟩ := hloc
  have hquiet := not_unrecorded hm fun _ _ => by rw [hpos]; nofun
  have hempty := hw.chunks_eq_empty hquiet
  simp only [advance, hpos] at h
  split_ifs at h with hdrawn
  cases hfn : env.stageFn freshIds w.stores m stage with
  | error e =>
    rw [hfn] at h
    cases h
    refine hw.move hquiet ?_ hw.done ?_
    · rintro m' ⟨⟩
      exact he
    · rintro m' ⟨⟩ hstatus
      simp only [IngestEnv.failStage] at hstatus
      split_ifs at hstatus
      exact hw.memory_done m hm hstatus
  | ok result =>
    obtain ⟨stores, ids⟩ := result
    rw [hfn] at h
    cases h
    obtain ⟨hsound, hkeeps, he', hest, hsame, hchunks⟩ :=
      stageFn_spec hw.sound he (fun hstage => hempty (hckpt hstage)) hdrawn hfn
    refine ⟨hsound, ?_, fun hc => ?_, fun hd => hkeeps.settled (hw.done hd), ?_⟩
    · rintro m' ⟨⟩
      exact ⟨he', hest⟩
    · by_cases hstage : stage = .chunking
      · subst hstage
        cases ids with
        | nil => exact Or.inl (hest.2 rfl)
        | cons id ids => exact Or.inr ⟨_, rfl, trivial⟩
      · rw [checkpoint, hsame] at hc
        exact Or.inl ((hchunks hstage).trans (hempty hc))
    · rintro m' ⟨⟩ hstatus
      exact hkeeps.settled (hw.memory_done m hm hstatus)

theorem consistent_record {freshIds ids : List String} {stage : IngestStage}
    (hw : Consistent env w) (hm : m ∈ w.memory) (hpos : m.position = .record stage ids)
    (h : advance env freshIds w m = some w') : Consistent env w' := by
  have hloc := hw.located m hm
  simp only [Located, hpos] at hloc
  obtain ⟨he, hest⟩ := hloc
  simp only [advance, hpos] at h
  cases h
  have hkeeps : Keeps env w.stores
      { w.stores with checkpoints := w.stores.checkpoints.insert stage ids } :=
    Keeps.of_tables rfl rfl rfl
  refine ⟨?_, ?_, fun hc => Or.inl ?_, fun hd => hkeeps.settled (hw.done hd), ?_⟩
  · refine record_spec hw.sound ?_ ?_ ?_
    · rintro rfl
      exact hest
    · rintro rfl
      exact hest.1
    · rintro rfl
      exact hest
  · rintro m' ⟨⟩
    refine located_completed ?_ ?_
    · cases stage with
      | embedding => exact ⟨hkeeps.chunked he.1, he.2⟩
      | kgBuilding => exact hkeeps.settled he
      | _ => exact he
    · cases stage with
      | chunking => exact ⟨hkeeps.chunked hest.1, hest.2⟩
      | embedding => exact hkeeps.settled hest
      | kgBuilding => exact hkeeps.settled hest
      | _ => exact hest
  · rw [checkpoint, OrderedDict.get?_insert] at hc
    by_cases hstage : stage = .chunking
    · subst hstage
      exact hest.2 (by simpa using hc)
    · rw [if_neg hstage] at hc
      refine hw.chunks_eq_empty (fun m' hm' hrec => ?_) hc
      obtain rfl := Option.mem_unique hm hm'
      exact hstage ((unrecorded_iff hpos).mp hrec).1
  · rintro m' ⟨⟩ hstatus
    refine hkeeps.settled (hw.memory_done m hm ?_)
    cases stage <;> exact hstatus

/-- A stage is skipped or announced. -/
theorem consistent_check {freshIds : List String} {stage : IngestStage} (hw : Consistent env w)
    (hm : m ∈ w.memory) (hpos : m.position = .check stage)
    (h : advance env freshIds w m = some w') : Consistent env w' := by
  have hloc := hw.located m hm
  have hquiet := not_unrecorded hm fun _ _ => by rw [hpos]; nofun
  simp only [Located, hpos] at hloc
  simp only [advance, hpos] at h
  cases hckpt : w.stores.checkpoint stage with
  | nil =>
    rw [hckpt] at h
    cases h
    refine hw.move hquiet ?_ hw.done ?_
    · rintro m' ⟨⟩
      exact ⟨hloc, fun hstage => hstage ▸ hckpt⟩
    · rintro m' ⟨⟩ hstatus
      cases stage <;> cases hstatus
  | cons id ids =>
    rw [hckpt] at h
    cases h
    have hest := established_of_checkpoint hw.sound hloc (by rw [hckpt]; nofun)
    rw [hckpt] at hest
    refine hw.move hquiet ?_ hw.done ?_
    · rintro m' ⟨⟩
      exact located_completed hloc hest
    · rintro m' ⟨⟩ hstatus
      refine hw.memory_done m hm ?_
      cases stage <;> exact hstatus

/-- The awaits that neither look at a checkpoint nor write to a table. -/
theorem consistent_between {freshIds : List String} (hw : Consistent env w) (hm : m ∈ w.memory)
    (hcheck : ∀ stage, m.position ≠ .check stage) (hwork : ∀ stage, m.position ≠ .work stage)
    (hrecord : ∀ stage ids, m.position ≠ .record stage ids)
    (h : advance env freshIds w m = some w') : Consistent env w' := by
  have hloc := hw.located m hm
  have hdone := hw.memory_done m hm
  have hquiet := not_unrecorded hm hrecord
  simp only [Located] at hloc
  cases hpos : m.position with
  | check stage => exact absurd hpos (hcheck stage)
  | work stage => exact absurd hpos (hwork stage)
  | record stage ids => exact absurd hpos (hrecord stage ids)
  | announce stage =>
    rw [hpos] at hloc
    simp only [advance, hpos] at h
    cases h
    refine hw.move hquiet ?_ hdone ?_
    · rintro m' ⟨⟩
      exact hloc
    · rintro m' ⟨⟩
      exact hdone
  | recover stage =>
    rw [hpos] at hloc
    simp only [advance, hpos] at h
    cases h
    refine hw.move hquiet ?_ hdone ?_
    · intro m' hm'
      split_ifs at hm'
      · cases hm'
      · cases hm'
        exact hloc
    · intro m' hm'
      split_ifs at hm'
      · cases hm'
      · cases hm'
        exact hdone
  | loadAtoms =>
    rw [hpos] at hloc
    simp only [advance, hpos] at h
    cases h
    have hatoms : getAtoms w.stores.atoms = getAtoms (saveAtoms .empty env.parse) :=
      congrArg getAtoms hloc
    refine hw.move hquiet ?_ hw.done ?_
    · rintro m' ⟨⟩
      cases env.vlmEnabled
      · exact hatoms
      · exact hatoms
    · rintro m' ⟨⟩
      exact hdone
  | loadChunks =>
    rw [hpos] at hloc
    simp only [advance, hpos] at h
    cases h
    refine hw.move hquiet ?_ hw.done ?_
    · rintro m' ⟨⟩
      exact ⟨hloc, rfl⟩
    · rintro m' ⟨⟩
      exact hdone
  | finish =>
    rw [hpos] at hloc
    simp only [advance, hpos] at h
    cases h
    refine hw.move hquiet ?_ (fun _ => hloc) ?_
    · exact fun _ h => absurd h (Option.not_mem_none _)
    · exact fun _ h => absurd h (Option.not_mem_none _)

/-- A crash leaves the stores sound: of a running upsert only some rows are missing. -/
theorem consistent_crash {written : ℕ} (hw : Consistent env w) (hm : m ∈ w.memory)
    (hrec : ¬ Unrecorded m) :
    Consistent env { w with stores := torn env written w.stores m, memory := none } := by
  have hempty := hw.chunks_eq_empty fun m' hm' => Option.mem_unique hm hm' ▸ hrec
  have htorn : Sound env (torn env written w.stores m) ∧
      Keeps env w.stores (torn env written w.stores m) ∧
      (torn env written w.stores m).checkpoints = w.stores.checkpoints ∧
      (torn env written w.stores m).chunks = w.stores.chunks := by
    have hloc := hw.located m hm
    unfold torn
    split
    · rename_i hpos
      simp only [Located, hpos] at hloc
      obtain ⟨⟨hchunked, hchunks⟩, -⟩ := hloc
      obtain ⟨hsound, hkeeps, -⟩ := upsert_spec hw.sound hchunked
        ((env.embedded m.chunks).take written)
        fun x hx => hchunks ▸ List.mem_of_mem_take hx
      exact ⟨hsound, hkeeps, rfl, rfl⟩
    · exact ⟨hw.sound, ⟨id, id, id⟩, rfl, rfl⟩
  obtain ⟨hsound, hkeeps, hsame, hchunks⟩ := htorn
  refine ⟨hsound, ?_, fun hc => Or.inl ?_, fun hd => hkeeps.settled (hw.done hd), ?_⟩
  · exact fun _ h => absurd h (Option.not_mem_none _)
  · simp only [checkpoint, hsame] at hc
    exact hchunks.trans (hempty hc)
  · exact fun _ h => absurd h (Option.not_mem_none _)

theorem consistent_step {e : IngestEvent} (hw : Consistent env w)
    (hs : w.step env e = some w') (hu : Untorn w e w') : Consistent env w' := by
  cases e with
  | start =>
    cases hmem : w.memory with
    | some m => simp [step, hmem] at hs
    | none =>
      simp only [step, hmem] at hs
      cases hs
      refine hw.move ?_ ?_ hw.done ?_
      · rw [hmem]
        exact fun _ h => absurd h (Option.not_mem_none _)
      · rintro m' ⟨⟩
        trivial
      · rintro m' ⟨⟩
        exact hw.done
  | advance freshIds =>
    obtain ⟨m, hm, h⟩ := Option.bind_eq_some_iff.mp hs
    cases hpos : m.position with
    | check stage => exact consistent_check hw hm hpos h
    | work stage => exact consistent_work hw hm hpos h
    | record stage ids => exact consistent_record hw hm hpos h
    | _ => exact consistent_between hw hm (by simp [hpos]) (by simp [hpos]) (by simp [hpos]) h
  | crash written =>
    obtain ⟨m, hm, h⟩ := Option.map_eq_some_iff.mp hs
    cases h
    exact consistent_crash hw hm (hu m hm)

/-! ## The stores of a finished document -/

/-- The same rows up to the ids, and the same ids in both stores. -/
structure SameUpToIds (s t : IngestStores) : Prop where
  chunks : (s.chunks.values.map Chunk.withoutId).Perm (t.chunks.values.map Chunk.withoutId)
  vectors : (s.vectors.values.map fun row => row.toChunk.withoutId).Perm
    (t.vectors.values.map fun row => row.toChunk.withoutId)
  same_ids : s.vectors.keys.Perm s.chunks.keys

/-- In a state with a finished task the stores are those of any finished crash-free run. -/
def MatchesCrashFree (env : IngestEnv) (_ : IngestRun) (_ : IngestEvent) (w' : IngestRun) : Prop :=
  w'.task.status = .done → ∀ (drawn : List (List String)) (ref : IngestRun),
    run (step env) (initial env) (.start :: drawn.map .advance) = some ref →
      ref.task.status = .done → SameUpToIds w'.stores ref.stores

theorem perm_vectors {s : IngestStores} (hs : Settled env s) :
    (s.vectors.entries.map fun e => (e.1, e.2.toChunk)).Perm s.chunks.entries := by
  have h : ∀ id, (s.vectors.mapValues EmbeddedChunk.toChunk).get? id = s.chunks.get? id := by
    intro id
    rw [OrderedDict.get?_mapValues]
    exact hs.same id
  exact OrderedDict.perm_entries_of_get? h

/-- Settled stores of one document hold the same drafts. -/
theorem sameUpToIds_of_settled {s t : IngestStores} (hs : Settled env s) (ht : Settled env t) :
    SameUpToIds s t := by
  obtain ⟨drafts, hdrafts, hvalues⟩ := hs.drafted
  obtain ⟨drafts', hdrafts', hvalues'⟩ := ht.drafted
  rw [hdrafts, Except.ok.injEq] at hdrafts'
  have hchunks : s.chunks.values.map Chunk.withoutId = t.chunks.values.map Chunk.withoutId := by
    rw [hvalues, hvalues', hdrafts']
  have hvectors {u : IngestStores} (hu : Settled env u) :
      (u.vectors.values.map fun row => row.toChunk.withoutId).Perm
        (u.chunks.values.map Chunk.withoutId) := by
    have h := (perm_vectors hu).map fun e => Chunk.withoutId e.2
    simpa [OrderedDict.values, Function.comp_def] using h
  refine ⟨hchunks ▸ List.Perm.refl _, ?_, ?_⟩
  · exact (hvectors hs).trans (hchunks ▸ (hvectors ht).symm)
  · have h := (perm_vectors hs).map Prod.fst
    simpa [OrderedDict.keys, Function.comp_def] using h

theorem consistent_initial (env : IngestEnv) : Consistent env (initial env) := by
  refine ⟨⟨Or.inl rfl, fun _ _ h => absurd h (Option.not_mem_none _), ?_, ?_, ?_⟩, ?_,
    fun _ => Or.inl rfl, nofun, ?_⟩
  · exact fun h => absurd rfl h
  · exact fun h => absurd rfl h
  · exact fun h => absurd rfl h
  · exact fun _ h => absurd h (Option.not_mem_none _)
  · exact fun _ h => absurd h (Option.not_mem_none _)

theorem consistent_crashFree {drawn : List (List String)} (hw : Consistent env w)
    (h : run (step env) w (drawn.map .advance) = some w') : Consistent env w' := by
  induction drawn generalizing w with
  | nil =>
    cases h
    exact hw
  | cons ids drawn ih =>
    obtain ⟨w₁, hstep, hrest⟩ := run_cons_eq_some h
    exact ih (consistent_step hw hstep trivial) hrest

/-- However often a run is crashed and started again, a finished task's stores are those of a
crash-free run, if no crash tears the chunk rows from their checkpoint. -/
theorem matchesCrashFree_of_untorn {env : IngestEnv} {events : List IngestEvent}
    (h : EveryStep (step env) Untorn (initial env) events) :
    EveryStep (step env) (MatchesCrashFree env) (initial env) events := by
  refine EveryStep.of_invariant (I := Consistent env) (fun w e w' hw hs hu => ?_)
    (consistent_initial env) h
  have hw' := consistent_step hw hs hu
  refine ⟨fun hdone drawn ref hrun href => ?_, hw'⟩
  obtain ⟨w₁, hstart, hrest⟩ := run_cons_eq_some hrun
  have hconsistent := consistent_crashFree
    (consistent_step (consistent_initial env) hstart trivial) hrest
  exact sameUpToIds_of_settled (hw'.done hdone) (hconsistent.done href)

/-- A document with one atom, under the default configuration. -/
def sampleEnv : IngestEnv where
  taskId := "task_1"
  docId := "doc_1"
  kbId := "default"
  vlmEnabled := false
  kgEnabled := false
  chunking := default
  chunker := {
    countTokens := fun text => if text = "" then 0 else 1
    sha256 := fun _ => ""
    cosine := fun _ _ => 1 }
  parse := [{ atomId := "doc_1#0000", docId := "doc_1", type := .text, text := some "hello" }]
  processed := fun _ => .ok []
  embed := fun texts => texts.map fun _ => [1]
  embed_length := fun texts => by simp

/-- The awaits of a run, with the ids that its chunking stage draws. -/
def awaits (before : ℕ) (ids : List String) (behind : ℕ) : List IngestEvent :=
  List.replicate before (.advance []) ++ .advance ids :: List.replicate behind (.advance [])

instance (w : IngestRun) (e : IngestEvent) (w' : IngestRun) : Decidable (Untorn w e w') := by
  unfold Untorn
  split <;> infer_instance

/-- A crash in the embedding stage, then a re-run. -/
theorem matchesCrashFree_tornUpsert :
    EveryStep (step sampleEnv) (MatchesCrashFree sampleEnv) (initial sampleEnv)
      (.start :: awaits 7 ["chk_1"] 4 ++ .crash 1 :: .start :: awaits 0 [] 8) :=
  matchesCrashFree_of_untorn (by decide +kernel)

/-- A crash between the chunk rows and their checkpoint doubles the chunks. -/
theorem tornChunking_not_matchesCrashFree :
    ¬ EveryStep (step sampleEnv) (MatchesCrashFree sampleEnv) (initial sampleEnv)
      (.start :: awaits 7 ["chk_1"] 0 ++ .crash 0 :: .start :: awaits 4 ["chk_2"] 7) := by
  intro h
  have href : (run (step sampleEnv) (initial sampleEnv)
      (.start :: ((List.replicate 7 []) ++ ["chk_1"] :: List.replicate 7 []).map .advance)).map
        (fun ref => (ref.task.status, ref.stores.chunks.values.length)) = some (.done, 1) := by
    decide +kernel
  obtain ⟨ref, hrun, hpair⟩ := Option.map_eq_some_iff.mp href
  obtain ⟨hdone, hlength⟩ := Prod.mk.inj hpair
  have hone := h.imp (Q := fun _ _ w' => w'.task.status = .done →
    w'.stores.chunks.values.length = 1) fun _ _ w' hmatch hw' => by
      have hperm := (hmatch hw' _ ref hrun hdone).chunks.length_eq
      simpa [hlength] using hperm
  revert hone
  decide +kernel

end IngestRun

end Ragx
