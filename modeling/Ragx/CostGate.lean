import Ragx.Sequencing
import Ragx.VlmCosts

/-!
# The cost gate with its limits

A pass over the atoms asks its processor in batches, of which only a few are in flight at the
same time. What it describes is kept under the content hash of the atom, and that is also
where the second pass looks first.
-/
namespace Ragx

structure BatchConfig where
  maxBatchSize : ℤ := 16
  maxConcurrentBatches : ℤ := 4

/-- After a pass, with the batches that the processor was asked for. -/
structure PassOutcome where
  cache : DescriptionCache
  asked : List (List Atom) := []
  descs : Except Exc (List AtomDescription)

def DescriptionCache.uncached (cache : DescriptionCache) (atoms : List Atom) : List Atom :=
  atoms.filter fun a => (cache.get? a.contentHash).isNone

/-- The descriptions that are to be replaced. -/
def toUpgrade (cfg : DegradationConfig) (atoms : List Atom) (descs : List AtomDescription) :
    List AtomDescription :=
  let lowConf := descs.filter fun d => d.confidence < cfg.confidenceThreshold
  sliceTo lowConf (min (lowConf.length : ℤ) (truncate (atoms.length * cfg.maxUpgradeRatio)))

/-- Each description, or the one that the second pass has for the same atom. -/
def withUpgraded (descs upgraded : List AtomDescription) : List AtomDescription :=
  let upgradedMap : DescriptionCache := .ofList (upgraded.map fun d => (d.atomId, d))
  descs.map fun d => (upgradedMap.get? d.atomId).getD d

namespace BatchConfig

/-- `none` when a batch waits forever for its turn. -/
def batchDescribe (cfg : BatchConfig) (processor : Processor) (completion : Completion)
    (atoms : List Atom) (cache : DescriptionCache) : Option PassOutcome :=
  if cfg.maxConcurrentBatches < 0 then
    some { cache, descs := .error (.foreign "Semaphore initial value must be >= 0") }
  else
    match batchesOf cfg.maxBatchSize (DescriptionCache.uncached cache atoms) with
    | .error e => some { cache, descs := .error e }
    | .ok batches =>
      if cfg.maxConcurrentBatches = 0 ∧ batches ≠ [] then none
      else
        let out := Ragx.batchDescribe processor completion cfg.maxBatchSize atoms cache
        some { cache := out.1, asked := completion.order batches, descs := out.2 }

/-- The outcome names the batches of the large model. -/
def describeWithDegradation (cfg : BatchConfig) (small large : Processor)
    (completion completion' : Completion) (degradation : DegradationConfig) (atoms : List Atom)
    (cache : DescriptionCache) : Option PassOutcome :=
  (cfg.batchDescribe small completion atoms cache).bind fun first =>
    match first.descs with
    | .error e => some { first with asked := [], descs := .error e }
    | .ok descs =>
      if (toUpgrade degradation atoms descs).isEmpty then some { first with asked := [] }
      else
        let selected := (toUpgrade degradation atoms descs).mapM fun d =>
          match (byId atoms).get? d.atomId with
          | none => Except.error (Exc.foreign s!"'{d.atomId}'")
          | some a => .ok a
        match selected with
        | .error e => some { first with asked := [], descs := .error e }
        | .ok selected =>
          (cfg.batchDescribe large completion' selected first.cache).map fun second =>
            { second with descs := second.descs.map (withUpgraded descs) }

end BatchConfig

/-! ## What the processors are asked for -/

def Processor.output (p : Processor) (batch : List Atom) : List AtomDescription :=
  match p.describe batch with
  | .ok descs => descs
  | .error _ => []

/-- One description for each atom of the batch. -/
def Processor.Answers (p : Processor) (batch : List Atom) : Prop :=
  p.describe batch = .ok (p.output batch) ∧
    ((p.output batch).map (·.atomId)).Perm (batch.map (·.atomId))

def Processor.OnePerAtom (p : Processor) : Prop :=
  ∀ batch : List Atom, (batch.map (·.atomId)).Nodup → p.Answers batch

theorem flatten_map_range_take (xs : List Atom) (size count : ℕ) :
    ((List.range count).map fun i => (xs.drop (i * size)).take size).flatten =
      xs.take (count * size) := by
  induction count with
  | zero => simp
  | succ count ih =>
    rw [List.range_succ, List.map_append, List.flatten_append, ih, List.map_singleton,
      List.flatten_singleton, Nat.succ_mul, List.take_add]

/-- The batches partition the atoms. -/
theorem exists_batchesOf {size : ℤ} (hsize : 0 < size) (xs : List Atom) :
    ∃ batches, batchesOf size xs = .ok batches ∧ batches.flatten = xs := by
  have hbatches : batchesOf size xs = .ok ((List.range ((xs.length + size.toNat - 1) /
      size.toNat)).map fun i => (xs.drop (i * size.toNat)).take size.toNat) := by
    unfold batchesOf
    rw [if_neg hsize.ne', if_neg (not_lt.mpr hsize.le)]
  refine ⟨_, hbatches, (flatten_map_range_take xs _ _).trans (List.take_of_length_le ?_)⟩
  have hpos : 0 < size.toNat := by omega
  have hcount := Nat.lt_mul_div_succ (xs.length + size.toNat - 1) hpos
  rw [Nat.mul_comm, Nat.succ_mul] at hcount
  omega

theorem batchesOf_neg {size : ℤ} (hsize : size < 0) (xs : List Atom) :
    batchesOf size xs = .ok [] := by
  unfold batchesOf
  rw [if_neg hsize.ne, if_pos hsize]

theorem batchesOf_nil {size : ℤ} (hsize : size ≠ 0) : batchesOf size [] = .ok [] := by
  rcases lt_or_gt_of_ne hsize with hneg | hpos
  · exact batchesOf_neg hneg []
  · unfold batchesOf
    rw [if_neg hsize, if_neg (not_lt.mpr hpos.le)]
    have hcount : ([] : List Atom).length + size.toNat - 1 < size.toNat := by
      simp only [List.length_nil]
      omega
    rw [Nat.div_eq_of_lt hcount]
    rfl

/-! ## What the batches write -/

theorem byId_get? {atoms : List Atom} (hn : (atoms.map (·.atomId)).Nodup) {a : Atom}
    (ha : a ∈ atoms) : (byId atoms).get? a.atomId = some a := by
  refine OrderedDict.get?_update_of_mem _ ?_ (List.mem_map_of_mem (f := fun a => (a.atomId, a)) ha)
  rw [List.map_map]
  exact hn

/-- The hash under which a description is kept. -/
def hashOf (atoms : List Atom) (d : AtomDescription) : String :=
  (((byId atoms).get? d.atomId).map (·.contentHash)).getD ""

def BatchState.recorded (s : BatchState) (atoms : List Atom) (descs : List AtomDescription) :
    BatchState where
  results := s.results.update (descs.map fun d => (d.atomId, d))
  cache := s.cache.update (descs.map fun d => (hashOf atoms d, d))

theorem forEach_recordDescription {atoms : List Atom} {descs : List AtomDescription}
    (h : ∀ d ∈ descs, ((byId atoms).get? d.atomId).isSome) (s : BatchState) :
    Command.forEach (recordDescription atoms) descs s = (s.recorded atoms descs, none) := by
  induction descs generalizing s with
  | nil => rfl
  | cons d descs ih =>
    obtain ⟨a, ha⟩ := Option.isSome_iff_exists.mp (h d List.mem_cons_self)
    have hhash : hashOf atoms d = a.contentHash := by
      unfold hashOf
      rw [ha]
      rfl
    have hhead : recordDescription atoms d s = (s.recorded atoms [d], none) := by
      unfold recordDescription BatchState.recorded
      rw [ha, List.map_singleton, List.map_singleton, hhash]
      rfl
    rw [Command.forEach, Command.andThen_of_none (congrArg Prod.snd hhead), hhead,
      ih (fun d hd => h d (List.mem_cons_of_mem _ hd))]
    rfl

theorem gather_runBatch {p : Processor} {atoms : List Atom} {batches : List (List Atom)}
    (hok : ∀ batch ∈ batches, p.describe batch = .ok (p.output batch))
    (hknown : ∀ d ∈ batches.flatMap p.output, ((byId atoms).get? d.atomId).isSome)
    (s : BatchState) :
    Command.gather (batches.map (runBatch p atoms)) s =
      (s.recorded atoms (batches.flatMap p.output), none) := by
  induction batches generalizing s with
  | nil => rfl
  | cons batch batches ih =>
    rw [List.flatMap_cons] at hknown ⊢
    have hhead : runBatch p atoms batch s = (s.recorded atoms (p.output batch), none) := by
      unfold runBatch
      rw [hok batch List.mem_cons_self]
      exact forEach_recordDescription (fun d hd => hknown d (List.mem_append_left _ hd)) s
    have hrest := ih (fun b hb => hok b (List.mem_cons_of_mem _ hb))
      (fun d hd => hknown d (List.mem_append_right _ hd)) (s.recorded atoms (p.output batch))
    have hboth : (s.recorded atoms (p.output batch)).recorded atoms (batches.flatMap p.output) =
        s.recorded atoms (p.output batch ++ batches.flatMap p.output) := by
      simp only [BatchState.recorded, List.map_append, OrderedDict.update_append]
    calc Command.gather ((batch :: batches).map (runBatch p atoms)) s
        = ((Command.gather (batches.map (runBatch p atoms)) (runBatch p atoms batch s).1).1,
            (runBatch p atoms batch s).2 <|>
              (Command.gather (batches.map (runBatch p atoms)) (runBatch p atoms batch s).1).2) :=
          rfl
      _ = (s.recorded atoms (p.output batch ++ batches.flatMap p.output), none) := by
          rw [hhead, hrest, hboth]
          rfl

/-- What the batches of a pass say. Each description stands for an atom of its batch, and no
two of them for the same atom. -/
structure Processor.Outputs (p : Processor) (asked : List Atom) (descs : List AtomDescription) :
    Prop where
  nodup : (descs.map (·.atomId)).Nodup
  covers : ∀ a ∈ asked, ∃ d ∈ descs, d.atomId = a.atomId
  source : ∀ d ∈ descs, ∃ a ∈ asked, d.atomId = a.atomId ∧
    ∃ batch, (batch.map (·.atomId)).Nodup ∧ a ∈ batch ∧ d ∈ p.output batch

theorem Processor.outputs_flatMap {p : Processor} {batches : List (List Atom)}
    (hn : (batches.flatten.map (·.atomId)).Nodup) (hp : ∀ batch ∈ batches, p.Answers batch) :
    p.Outputs batches.flatten (batches.flatMap p.output) := by
  have hids : ((batches.flatMap p.output).map (·.atomId)).Perm
      (batches.flatten.map (·.atomId)) := by
    rw [List.map_flatMap, List.map_flatten, List.flatten_eq_flatMap, List.flatMap_map]
    exact List.Perm.flatMap_left _ fun batch hbatch => (hp batch hbatch).2
  have hbatchIds (batch : List Atom) (hbatch : batch ∈ batches) :
      (batch.map (·.atomId)).Nodup :=
    hn.sublist ((List.sublist_flatten_of_mem hbatch).map _)
  refine ⟨hids.nodup_iff.mpr hn, fun a ha => ?_, fun d hd => ?_⟩
  · have hmem := hids.mem_iff.mpr (List.mem_map_of_mem (f := fun a : Atom => a.atomId) ha)
    obtain ⟨d, hd, hid⟩ := List.mem_map.mp hmem
    exact ⟨d, hd, hid⟩
  · obtain ⟨batch, hbatch, hout⟩ := List.mem_flatMap.mp hd
    have hmem := (hp batch hbatch).2.mem_iff.mp
      (List.mem_map_of_mem (f := fun d : AtomDescription => d.atomId) hout)
    obtain ⟨a, ha, hid⟩ := List.mem_map.mp hmem
    exact ⟨a, List.mem_flatten_of_mem hbatch ha, hid.symm, batch, hbatchIds batch hbatch, ha, hout⟩

theorem eq_of_atomId_eq {atoms : List Atom} (hn : (atoms.map (·.atomId)).Nodup) {a b : Atom}
    (ha : a ∈ atoms) (hb : b ∈ atoms) (h : a.atomId = b.atomId) : a = b :=
  List.inj_on_of_nodup_map hn ha hb h

theorem hashOf_eq {atoms : List Atom} (hn : (atoms.map (·.atomId)).Nodup) {a : Atom}
    (ha : a ∈ atoms) {d : AtomDescription} (hd : d.atomId = a.atomId) :
    hashOf atoms d = a.contentHash := by
  unfold hashOf
  rw [hd, byId_get? hn ha]
  rfl

/-! ## One pass -/

theorem DescriptionCache.mem_uncached {cache : DescriptionCache} {atoms : List Atom} {a : Atom} :
    a ∈ cache.uncached atoms ↔ a ∈ atoms ∧ cache.get? a.contentHash = none := by
  rw [uncached, List.mem_filter, Option.isNone_iff_eq_none]

namespace BatchConfig

variable {cfg : BatchConfig} {p : Processor} {completion : Completion} {atoms : List Atom}
  {cache : DescriptionCache}

/-- A pass comes to an end. -/
structure Passes (cfg : BatchConfig) (atoms : List Atom) (cache : DescriptionCache) : Prop where
  size : cfg.maxBatchSize ≠ 0
  concurrency : 0 ≤ cfg.maxConcurrentBatches
  turn : cfg.maxConcurrentBatches = 0 → cfg.maxBatchSize < 0 ∨ cache.uncached atoms = []

theorem exists_batches (h : cfg.Passes atoms cache) :
    ∃ batches, batchesOf cfg.maxBatchSize (cache.uncached atoms) = .ok batches ∧
      batches.flatten = (if 0 < cfg.maxBatchSize then cache.uncached atoms else []) ∧
      (cfg.maxBatchSize < 0 ∨ cache.uncached atoms = [] → batches = []) := by
  rcases lt_or_gt_of_ne h.size with hneg | hpos
  · exact ⟨[], batchesOf_neg hneg _, by rw [if_neg (not_lt.mpr hneg.le)]; rfl, fun _ => rfl⟩
  · obtain ⟨batches, hbatches, hflat⟩ := exists_batchesOf hpos (cache.uncached atoms)
    refine ⟨batches, hbatches, by rw [if_pos hpos, hflat], fun hnone => ?_⟩
    have hempty := hnone.resolve_left (not_lt.mpr hpos.le)
    rw [hempty, batchesOf_nil h.size] at hbatches
    cases hbatches
    rfl

/-- What comes out of a pass whose batches are all answered. -/
theorem batchDescribe_of_answers {batches : List (List Atom)} (hpass : cfg.Passes atoms cache)
    (hbatches : batchesOf cfg.maxBatchSize (cache.uncached atoms) = .ok batches)
    (hturn : cfg.maxConcurrentBatches = 0 → batches = [])
    (hok : ∀ batch ∈ batches, p.describe batch = .ok (p.output batch))
    (hknown : ∀ d ∈ batches.flatMap p.output, ((byId atoms).get? d.atomId).isSome) :
    cfg.batchDescribe p completion atoms cache = some
      { cache := (BatchState.recorded { cache } atoms
          ((completion.order batches).flatMap p.output)).cache
        asked := completion.order batches
        descs := .ok (atoms.map (BatchState.recorded { cache } atoms
          ((completion.order batches).flatMap p.output)).describes) } := by
  have hperm := completion.perm batches
  have hgather : Command.gather ((completion.order batches).map (runBatch p atoms)) { cache } =
      (BatchState.recorded { cache } atoms ((completion.order batches).flatMap p.output), none) :=
    gather_runBatch (fun batch hb => hok batch (hperm.mem_iff.mp hb))
      (fun d hd => hknown d ((hperm.flatMap_right p.output).mem_iff.mp hd)) _
  have hwait : ¬ (cfg.maxConcurrentBatches = 0 ∧ batches ≠ []) := fun h => h.2 (hturn h.1)
  have hdescribe : Ragx.batchDescribe p completion cfg.maxBatchSize atoms cache =
      ((BatchState.recorded { cache } atoms
          ((completion.order batches).flatMap p.output)).cache,
        .ok (atoms.map (BatchState.recorded { cache } atoms
          ((completion.order batches).flatMap p.output)).describes)) := by
    unfold Ragx.batchDescribe
    unfold DescriptionCache.uncached at hbatches
    simp only [hbatches, hgather]
  unfold batchDescribe
  rw [if_neg (not_lt.mpr hpass.concurrency), hbatches]
  dsimp only
  rw [if_neg hwait, hdescribe]

/-- A pass without batches only reads the cache. -/
theorem batchDescribe_of_no_batches (hpass : cfg.Passes atoms cache)
    (hnone : cfg.maxBatchSize < 0 ∨ cache.uncached atoms = []) :
    cfg.batchDescribe p completion atoms cache = some
      { cache,
        descs := .ok (atoms.map fun a => (cache.get? a.contentHash).getD (fallback a)) } := by
  obtain ⟨batches, hbatches, _, hempty⟩ := exists_batches hpass
  obtain rfl : batches = [] := hempty hnone
  have horder : completion.order [] = [] := (completion.perm []).eq_nil
  rw [batchDescribe_of_answers hpass hbatches (fun _ => rfl)
    (fun batch hb => absurd hb List.not_mem_nil) (fun d hd => absurd hd List.not_mem_nil), horder]
  rfl

/-- Otherwise it raises before the first batch, or waits. -/
theorem passes_or_raised {out : PassOutcome}
    (h : cfg.batchDescribe p completion atoms cache = some out) :
    cfg.Passes atoms cache ∨ ∃ e, out = { cache, descs := .error e } := by
  unfold batchDescribe at h
  split_ifs at h with hneg
  · cases h
    exact Or.inr ⟨_, rfl⟩
  · have hconc : 0 ≤ cfg.maxConcurrentBatches := not_lt.mp hneg
    by_cases hsize : cfg.maxBatchSize = 0
    · unfold batchesOf at h
      rw [if_pos hsize] at h
      cases h
      exact Or.inr ⟨_, rfl⟩
    · refine Or.inl ⟨hsize, hconc, fun hzero => ?_⟩
      by_contra hmany
      obtain ⟨hpos, huncached⟩ := not_or.mp hmany
      obtain ⟨batches, hbatches, hflat⟩ := exists_batchesOf
        (lt_of_le_of_ne (not_lt.mp hpos) (Ne.symm hsize)) (cache.uncached atoms)
      rw [hbatches] at h
      dsimp only at h
      rw [if_pos ⟨hzero, fun hnil => huncached (by rw [← hflat, hnil]; rfl)⟩] at h
      cases h

end BatchConfig

/-! ## What a pass leaves behind -/

/-- The atoms that a pass asked for, and what it was told. -/
structure Processor.Described (p : Processor) (cache : DescriptionCache) (atoms asked : List Atom)
    (descs : List AtomDescription) : Prop extends p.Outputs asked descs where
  uncached : ∀ a ∈ asked, a ∈ cache.uncached atoms
  all : asked = [] ∨ ∀ a ∈ cache.uncached atoms, a ∈ asked

theorem BatchConfig.exists_described {cfg : BatchConfig} {p : Processor} (completion : Completion)
    {atoms : List Atom} {cache : DescriptionCache} (hn : (atoms.map (·.atomId)).Nodup)
    (hp : p.OnePerAtom) (hpass : cfg.Passes atoms cache) :
    ∃ batches asked, batchesOf cfg.maxBatchSize (cache.uncached atoms) = .ok batches ∧
      asked.Perm batches ∧ p.Described cache atoms asked.flatten (asked.flatMap p.output) ∧
      cfg.batchDescribe p completion atoms cache = some
        { cache := (BatchState.recorded { cache } atoms (asked.flatMap p.output)).cache
          asked
          descs := .ok (atoms.map
            (BatchState.recorded { cache } atoms (asked.flatMap p.output)).describes) } := by
  obtain ⟨batches, hbatches, hflat, hempty⟩ := exists_batches hpass
  have hperm := completion.perm batches
  have hflatPerm := hperm.flatten
  have hsub (a : Atom) (ha : a ∈ batches.flatten) : a ∈ cache.uncached atoms := by
    rw [hflat] at ha
    split_ifs at ha
    · exact ha
    · exact absurd ha List.not_mem_nil
  have hids : (batches.flatten.map (·.atomId)).Nodup := by
    rw [hflat]
    split_ifs
    · exact hn.sublist (List.filter_sublist.map _)
    · exact List.nodup_nil
  have hanswers (batch : List Atom) (hb : batch ∈ batches) : p.Answers batch :=
    hp batch (hids.sublist ((List.sublist_flatten_of_mem hb).map _))
  have hout : p.Outputs (completion.order batches).flatten
      ((completion.order batches).flatMap p.output) :=
    Processor.outputs_flatMap ((hflatPerm.map _).nodup_iff.mpr hids)
      fun batch hb => hanswers batch (hperm.mem_iff.mp hb)
  refine ⟨batches, completion.order batches, hbatches, hperm,
    ⟨hout, fun a ha => hsub a (hflatPerm.mem_iff.mp ha), ?_⟩, ?_⟩
  · by_cases hsize : 0 < cfg.maxBatchSize
    · rw [if_pos hsize] at hflat
      exact Or.inr fun a ha => hflatPerm.mem_iff.mpr (hflat ▸ ha)
    · rw [if_neg hsize] at hflat
      exact Or.inl (hflat ▸ hflatPerm).eq_nil
  · refine batchDescribe_of_answers hpass hbatches (fun hzero => hempty (hpass.turn hzero))
      (fun batch hb => (hanswers batch hb).1) fun d hd => ?_
    obtain ⟨a, ha, hid, _⟩ := hout.source d ((hperm.flatMap_right p.output).mem_iff.mpr hd)
    rw [hid, byId_get? hn (DescriptionCache.mem_uncached.mp
      (hsub a (hflatPerm.mem_iff.mp ha))).1]
    rfl

namespace Processor.Described

variable {p : Processor} {cache : DescriptionCache} {atoms asked : List Atom}
  {descs : List AtomDescription} {a : Atom}

theorem hash_source (h : p.Described cache atoms asked descs) (hn : (atoms.map (·.atomId)).Nodup)
    {d : AtomDescription} (hd : d ∈ descs) :
    ∃ a ∈ atoms, d.atomId = a.atomId ∧ hashOf atoms d = a.contentHash ∧
      cache.get? a.contentHash = none := by
  obtain ⟨a, ha, hid, _⟩ := h.source d hd
  obtain ⟨hmem, hnone⟩ := DescriptionCache.mem_uncached.mp (h.uncached a ha)
  exact ⟨a, hmem, hid, hashOf_eq hn hmem hid, hnone⟩

/-- An entry of the cache is one of the pass, or it was there and no atom of the pass had its
hash. -/
theorem cache_cases (cache : DescriptionCache) (atoms : List Atom) (descs : List AtomDescription)
    (hash : String) :
    (∃ d ∈ descs, hashOf atoms d = hash ∧
        (BatchState.recorded { cache } atoms descs).cache.get? hash = some d) ∨
      (∀ d ∈ descs, hashOf atoms d ≠ hash) ∧
        (BatchState.recorded { cache } atoms descs).cache.get? hash = cache.get? hash := by
  by_cases hmem : hash ∈ (descs.map fun d => (hashOf atoms d, d)).map Prod.fst
  · obtain ⟨d, hd, hget⟩ := OrderedDict.exists_get?_update_of_mem cache hmem
    obtain ⟨d', hd', hpair⟩ := List.mem_map.mp hd
    obtain ⟨rfl, rfl⟩ := Prod.mk.inj hpair
    exact Or.inl ⟨d', hd', rfl, hget⟩
  · refine Or.inr ⟨fun d hd hhash => hmem ?_, OrderedDict.get?_update_of_not_mem cache hmem⟩
    rw [List.map_map]
    exact List.mem_map.mpr ⟨d, hd, hhash⟩

theorem describes_of_mem (h : p.Described cache atoms asked descs) {d : AtomDescription}
    (hd : d ∈ descs) (hid : d.atomId = a.atomId) :
    (BatchState.recorded { cache } atoms descs).describes a = d := by
  have hget : (BatchState.recorded { cache } atoms descs).results.get? a.atomId = some d := by
    refine OrderedDict.get?_update_of_mem _ ?_
      (hid ▸ List.mem_map_of_mem (f := fun d : AtomDescription => (d.atomId, d)) hd)
    rw [List.map_map]
    exact h.nodup
  unfold BatchState.describes
  rw [hget]
  rfl

theorem describes_of_not_mem (h : ∀ d ∈ descs, d.atomId ≠ a.atomId) :
    (BatchState.recorded { cache } atoms descs).describes a =
      ((BatchState.recorded { cache } atoms descs).cache.get? a.contentHash).getD (fallback a) := by
  have hget : (BatchState.recorded { cache } atoms descs).results.get? a.atomId = none := by
    refine (OrderedDict.get?_update_of_not_mem _ fun hmem => ?_).trans
      (OrderedDict.get?_empty a.atomId)
    rw [List.map_map] at hmem
    obtain ⟨d, hd, hid⟩ := List.mem_map.mp hmem
    exact h d hd hid
  unfold BatchState.describes
  rw [hget]
  rfl

/-- A cached description is used as it is. -/
theorem describes_of_cached (h : p.Described cache atoms asked descs)
    (hn : (atoms.map (·.atomId)).Nodup) (ha : a ∈ atoms) {c : AtomDescription}
    (hc : cache.get? a.contentHash = some c) :
    (BatchState.recorded { cache } atoms descs).describes a = c := by
  have hown (d : AtomDescription) (hd : d ∈ descs) : hashOf atoms d ≠ a.contentHash := by
    intro hhash
    obtain ⟨b, _, _, hb, hnone⟩ := h.hash_source hn hd
    rw [← hb, hhash, hc] at hnone
    cases hnone
  rw [describes_of_not_mem fun d hd hid => hown d hd (hashOf_eq hn ha hid)]
  rcases cache_cases cache atoms descs a.contentHash with ⟨d, hd, hhash, _⟩ | ⟨_, hget⟩
  · exact absurd hhash (hown d hd)
  · rw [hget, hc]
    rfl

/-- Without a cached one, an atom gets its own description, or its text if nothing was asked. -/
theorem describes_of_uncached (h : p.Described cache atoms asked descs) (ha : a ∈ atoms)
    (hc : cache.get? a.contentHash = none) :
    (∃ d ∈ descs, d.atomId = a.atomId ∧
        (BatchState.recorded { cache } atoms descs).describes a = d) ∨
      descs = [] ∧ (BatchState.recorded { cache } atoms descs).describes a = fallback a := by
  rcases h.all with hnil | hall
  · have hdescs : descs = [] := by
      refine List.eq_nil_iff_forall_not_mem.mpr fun d hd => ?_
      obtain ⟨b, hb, _⟩ := h.source d hd
      rw [hnil] at hb
      exact absurd hb List.not_mem_nil
    subst hdescs
    refine Or.inr ⟨rfl, ?_⟩
    rw [describes_of_not_mem fun d hd => absurd hd List.not_mem_nil]
    rw [show (BatchState.recorded { cache } atoms []).cache = cache from rfl, hc]
    rfl
  · obtain ⟨d, hd, hid⟩ := h.covers a (hall a (DescriptionCache.mem_uncached.mpr ⟨ha, hc⟩))
    exact Or.inl ⟨d, hd, hid, h.describes_of_mem hd hid⟩

end Processor.Described

end Ragx
