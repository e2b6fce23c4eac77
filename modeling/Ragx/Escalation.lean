import Ragx.CostGate

/-!
# Alignment and escalation in the cost gate

The first pass leaves a description under the hash of every atom. The second pass finds them
there, so it asks for nothing, and what it returns changes no description.
-/
namespace Ragx

/-- A description that a processor gave for an atom with this hash. -/
def Produced (procs : Set Processor) (hash : String) (d : AtomDescription) : Prop :=
  ∃ p ∈ procs, ∃ batch : List Atom, (batch.map (·.atomId)).Nodup ∧
    ∃ a ∈ batch, a.contentHash = hash ∧ d ∈ p.output batch ∧ d.atomId = a.atomId

/-- Every entry comes from a processor. -/
def FilledBy (procs : Set Processor) (cache : DescriptionCache) : Prop :=
  ∀ hash, ∀ d ∈ cache.get? hash, Produced procs hash d

/-- The description is for this atom, and its text is for this content. -/
def Aligned (procs : Set Processor) (a : Atom) (d : AtomDescription) : Prop :=
  d.atomId = a.atomId ∧
    (d = fallback a ∨ ∃ d', Produced procs a.contentHash d' ∧ d.description = d'.description)

theorem filledBy_empty (procs : Set Processor) : FilledBy procs .empty :=
  fun _ _ hd => absurd hd (Option.not_mem_none _)

/-- What a pass adds to the cache comes from its processor. -/
theorem Processor.Described.filledBy {procs : Set Processor} {p : Processor}
    {cache : DescriptionCache} {atoms asked : List Atom} {descs : List AtomDescription}
    (h : p.Described cache atoms asked descs) (hp : p ∈ procs)
    (hn : (atoms.map (·.atomId)).Nodup) (hcache : FilledBy procs cache) :
    FilledBy procs (BatchState.recorded { cache } atoms descs).cache := by
  intro hash d hd
  rcases Processor.Described.cache_cases cache atoms descs hash with
    ⟨d', hd', hhash, hget⟩ | ⟨_, hget⟩
  · obtain rfl : d' = d := Option.some.inj (hget.symm.trans hd)
    obtain ⟨a, ha, hid, batch, hbatch, hmem, hout⟩ := h.source d' hd'
    have hatom := (DescriptionCache.mem_uncached.mp (h.uncached a ha)).1
    exact ⟨p, hp, batch, hbatch, a, hmem, (hashOf_eq hn hatom hid).symm.trans hhash, hout, hid⟩
  · rw [hget] at hd
    exact hcache hash d hd

theorem map_atomId_withUpgraded (descs upgraded : List AtomDescription) :
    (withUpgraded descs upgraded).map (·.atomId) = descs.map (·.atomId) := by
  unfold withUpgraded
  rw [List.map_map]
  refine List.map_congr_left fun d _ => ?_
  cases hget : (OrderedDict.ofList (upgraded.map fun d => (d.atomId, d))).get? d.atomId with
  | none => simp [hget]
  | some u =>
    have hmem := OrderedDict.mem_entries_ofList (OrderedDict.mem_entries.mpr hget)
    obtain ⟨u', _, hpair⟩ := List.mem_map.mp hmem
    obtain ⟨hid, rfl⟩ := Prod.mk.inj hpair
    simpa [hget] using hid

/-- An element is kept or replaced by one for the same atom. -/
theorem withUpgraded_cases (f : Atom → AtomDescription) (atoms : List Atom)
    (upgraded : List AtomDescription) :
    ∃ g : Atom → AtomDescription, withUpgraded (atoms.map f) upgraded = atoms.map g ∧
      ∀ a ∈ atoms, g a = f a ∨ g a ∈ upgraded ∧ (g a).atomId = (f a).atomId := by
  refine ⟨_, List.map_map, fun a _ => ?_⟩
  dsimp only [Function.comp]
  cases hget : (OrderedDict.ofList (upgraded.map fun d => (d.atomId, d))).get? (f a).atomId with
  | none => exact Or.inl rfl
  | some u =>
    have hmem := OrderedDict.mem_entries_ofList (OrderedDict.mem_entries.mpr hget)
    obtain ⟨u', hu', hpair⟩ := List.mem_map.mp hmem
    obtain ⟨hid, rfl⟩ := Prod.mk.inj hpair
    exact Or.inr ⟨hu', hid⟩

/-! ## The second pass -/

namespace BatchConfig

variable {cfg : BatchConfig} {small large : Processor} {completion completion' : Completion}
  {degradation : DegradationConfig} {atoms : List Atom} {cache : DescriptionCache}

/-- After a pass with batches every atom finds a description under its hash. -/
theorem cached_of_described {p : Processor} {asked : List (List Atom)} {batches : List (List Atom)}
    (hn : (atoms.map (·.atomId)).Nodup) (hsize : 0 < cfg.maxBatchSize)
    (hbatches : batchesOf cfg.maxBatchSize (cache.uncached atoms) = .ok batches)
    (hperm : asked.Perm batches)
    (h : p.Described cache atoms asked.flatten (asked.flatMap p.output)) {a : Atom}
    (ha : a ∈ atoms) :
    ((BatchState.recorded { cache } atoms (asked.flatMap p.output)).cache.get?
      a.contentHash).isSome := by
  rcases Processor.Described.cache_cases cache atoms (asked.flatMap p.output) a.contentHash with
    ⟨d, _, _, hget⟩ | ⟨hnone, hget⟩
  · rw [hget]
    rfl
  · rw [hget]
    by_contra hc
    obtain ⟨batches', hbatches', hflat⟩ := exists_batchesOf hsize (cache.uncached atoms)
    obtain rfl : batches' = batches := Except.ok.inj (hbatches'.symm.trans hbatches)
    have hmem : a ∈ asked.flatten := by
      rw [hperm.flatten.mem_iff, hflat, DescriptionCache.mem_uncached]
      exact ⟨ha, Option.not_isSome_iff_eq_none.mp hc⟩
    obtain ⟨d, hd, hid⟩ := h.covers a hmem
    exact hnone d hd (hashOf_eq hn ha hid)

/-- The second pass reads descriptions of these atoms off the cache and asks for none. -/
theorem describeWithDegradation_of_first (large : Processor) (completion' : Completion)
    (degradation : DegradationConfig) {first : PassOutcome} {descs : List AtomDescription}
    (hpass : cfg.Passes atoms cache)
    (hfirst : cfg.batchDescribe small completion atoms cache = some first)
    (hdescs : first.descs = .ok descs)
    (hcached : cfg.maxBatchSize < 0 ∨ ∀ a ∈ atoms, (first.cache.get? a.contentHash).isSome) :
    (∃ e, cfg.describeWithDegradation small large completion completion' degradation atoms cache =
        some { cache := first.cache, descs := .error e } ∧
      ∃ d ∈ descs, (byId atoms).get? d.atomId = none) ∨
    ∃ upgraded : List AtomDescription,
      cfg.describeWithDegradation small large completion completion' degradation atoms cache =
        some { cache := first.cache, descs := .ok (withUpgraded descs upgraded) } ∧
      ∀ u ∈ upgraded, ∃ a ∈ atoms, u = (first.cache.get? a.contentHash).getD (fallback a) := by
  unfold describeWithDegradation
  rw [hfirst, Option.bind_some, hdescs]
  dsimp only
  split_ifs with hempty
  · refine Or.inr ⟨[], ?_, fun u hu => absurd hu List.not_mem_nil⟩
    rw [withUpgraded, List.map_nil]
    simp [OrderedDict.ofList, OrderedDict.update]
  · split
    · rename_i e hselected
      obtain ⟨d, hd, herror⟩ := exists_of_mapM_eq_error hselected
      refine Or.inl ⟨e, rfl, d, List.mem_of_mem_filter (mem_of_mem_sliceTo hd), ?_⟩
      split at herror
      · assumption
      · cases herror
    · rename_i selected hselected
      have hmem (a : Atom) (ha : a ∈ selected) : a ∈ atoms := by
        obtain ⟨d, _, hok⟩ := exists_of_mem_mapM hselected ha
        split at hok
        · cases hok
        · rename_i b hb
          cases hok
          have hentry := OrderedDict.mem_entries_ofList (OrderedDict.mem_entries.mpr hb)
          obtain ⟨a', ha', hpair⟩ := List.mem_map.mp hentry
          exact (Prod.mk.inj hpair).2 ▸ ha'
      have hnone : cfg.maxBatchSize < 0 ∨ first.cache.uncached selected = [] := by
        refine hcached.imp_right fun hall => ?_
        refine List.eq_nil_iff_forall_not_mem.mpr fun a ha => ?_
        obtain ⟨hsel, hget⟩ := DescriptionCache.mem_uncached.mp ha
        have hsome := hall a (hmem a hsel)
        rw [hget] at hsome
        cases hsome
      have hpass' : cfg.Passes selected first.cache :=
        ⟨hpass.size, hpass.concurrency, fun _ => hnone⟩
      refine Or.inr ⟨selected.map fun a => (first.cache.get? a.contentHash).getD (fallback a),
        ?_, fun u hu => ?_⟩
      · rw [batchDescribe_of_no_batches hpass' hnone]
        rfl
      · obtain ⟨a, ha, rfl⟩ := List.mem_map.mp hu
        exact ⟨a, hmem a ha, rfl⟩

/-- The first pass of a gate, as the second one finds it. -/
theorem exists_first (completion : Completion) (hn : (atoms.map (·.atomId)).Nodup)
    (hp : small.OnePerAtom) (hpass : cfg.Passes atoms cache) :
    ∃ (batches asked : List (List Atom)) (first : PassOutcome),
      batchesOf cfg.maxBatchSize (cache.uncached atoms) = .ok batches ∧ asked.Perm batches ∧
      small.Described cache atoms asked.flatten (asked.flatMap small.output) ∧
      cfg.batchDescribe small completion atoms cache = some first ∧
      first.cache = (BatchState.recorded { cache } atoms (asked.flatMap small.output)).cache ∧
      first.descs = .ok (atoms.map
        (BatchState.recorded { cache } atoms (asked.flatMap small.output)).describes) ∧
      (cfg.maxBatchSize < 0 ∨ ∀ a ∈ atoms, (first.cache.get? a.contentHash).isSome) := by
  obtain ⟨batches, asked, hbatches, hperm, hdescribed, hfirst⟩ :=
    exists_described completion hn hp hpass
  refine ⟨batches, asked, _, hbatches, hperm, hdescribed, hfirst, rfl, rfl, ?_⟩
  rcases lt_or_gt_of_ne hpass.size with hneg | hpos
  · exact Or.inl hneg
  · exact Or.inr fun a ha => cached_of_described hn hpos hbatches hperm hdescribed ha

/-- Only a first pass that comes to an end gives descriptions. -/
theorem passes_of_describeWithDegradation {out : PassOutcome} {descs : List AtomDescription}
    (h : cfg.describeWithDegradation small large completion completion' degradation atoms cache =
      some out) (hok : out.descs = .ok descs) : cfg.Passes atoms cache := by
  obtain ⟨first, hfirst, hrest⟩ := Option.bind_eq_some_iff.mp h
  rcases passes_or_raised hfirst with hpass | ⟨e, rfl⟩
  · exact hpass
  · cases hrest
    cases hok

/-- So every cache that runs have filled has its entries from the processors. -/
theorem filledBy_describeWithDegradation {procs : Set Processor} {out : PassOutcome}
    (hsmall : small ∈ procs) (hp : small.OnePerAtom) (hn : (atoms.map (·.atomId)).Nodup)
    (hcache : FilledBy procs cache)
    (h : cfg.describeWithDegradation small large completion completion' degradation atoms cache =
      some out) : FilledBy procs out.cache := by
  by_cases hpass : cfg.Passes atoms cache
  · obtain ⟨_, asked, first, _, _, hdescribed, hfirst, hcache', hdescs, hcached⟩ :=
      exists_first completion hn hp hpass
    have hout : out.cache = first.cache := by
      rcases describeWithDegradation_of_first large completion' degradation hpass hfirst hdescs
          hcached with
        ⟨_, hrun, _⟩ | ⟨_, hrun, _⟩
      · rw [← Option.some.inj (hrun.symm.trans h)]
      · rw [← Option.some.inj (hrun.symm.trans h)]
    rw [hout, hcache']
    exact hdescribed.filledBy hsmall hn hcache
  · obtain ⟨first, hfirst, hrest⟩ := Option.bind_eq_some_iff.mp h
    obtain ⟨e, rfl⟩ := (passes_or_raised hfirst).resolve_left hpass
    cases hrest
    exact hcache

/-! ## Alignment -/

/-- The first pass gives an atom a description of its own exactly if the cache holds no other
one for its content. -/
theorem atomId_describes_eq_iff {p : Processor} {asked : List Atom} {descs : List AtomDescription}
    (h : p.Described cache atoms asked descs) (hn : (atoms.map (·.atomId)).Nodup) {a : Atom}
    (ha : a ∈ atoms) :
    ((BatchState.recorded { cache } atoms descs).describes a).atomId = a.atomId ↔
      ∀ d ∈ cache.get? a.contentHash, d.atomId = a.atomId := by
  cases hc : cache.get? a.contentHash with
  | some c =>
    rw [h.describes_of_cached hn ha hc]
    exact ⟨fun hid d hd => Option.some.inj hd ▸ hid, fun hall => hall c rfl⟩
  | none =>
    refine iff_of_true ?_ fun d hd => absurd hd (Option.not_mem_none d)
    rcases h.describes_of_uncached ha hc with ⟨d, _, hid, hdescribes⟩ | ⟨_, hdescribes⟩
    · rw [hdescribes, hid]
    · rw [hdescribes]
      rfl

theorem aligned_describes {procs : Set Processor} {p : Processor} {asked : List Atom}
    {descs : List AtomDescription} (h : p.Described cache atoms asked descs) (hp : p ∈ procs)
    (hn : (atoms.map (·.atomId)).Nodup) (hcache : FilledBy procs cache) {a : Atom} (ha : a ∈ atoms)
    (hhits : ∀ d ∈ cache.get? a.contentHash, d.atomId = a.atomId) :
    Aligned procs a ((BatchState.recorded { cache } atoms descs).describes a) := by
  refine ⟨(atomId_describes_eq_iff h hn ha).mpr hhits, ?_⟩
  cases hc : cache.get? a.contentHash with
  | some c =>
    rw [h.describes_of_cached hn ha hc]
    exact Or.inr ⟨c, hcache _ c hc, rfl⟩
  | none =>
    rcases h.describes_of_uncached ha hc with ⟨d, hd, hid, hdescribes⟩ | ⟨_, hdescribes⟩
    · rw [hdescribes]
      obtain ⟨b, hb, hid', batch, hbatch, hmem, hout⟩ := h.source d hd
      have hatom := (DescriptionCache.mem_uncached.mp (h.uncached b hb)).1
      obtain rfl := eq_of_atomId_eq hn hatom ha (hid'.symm.trans hid)
      exact Or.inr ⟨d, ⟨p, hp, batch, hbatch, b, hmem, rfl, hout, hid'⟩, rfl⟩
    · exact Or.inl hdescribes

/-- What the second pass finds for an atom was kept for the same content. -/
theorem aligned_upgraded {procs : Set Processor} {p : Processor} {asked : List Atom}
    {descs : List AtomDescription} (h : p.Described cache atoms asked descs) (hp : p ∈ procs)
    (hn : (atoms.map (·.atomId)).Nodup) (hcache : FilledBy procs cache)
    (hhits : ∀ a ∈ atoms, ∀ d ∈ cache.get? a.contentHash, d.atomId = a.atomId) {a b : Atom}
    (ha : a ∈ atoms) (hb : b ∈ atoms) {u : AtomDescription} (hid : u.atomId = a.atomId)
    (hu : u = ((BatchState.recorded { cache } atoms descs).cache.get? b.contentHash).getD
      (fallback b)) : Aligned procs a u := by
  refine ⟨hid, ?_⟩
  cases hget : (BatchState.recorded { cache } atoms descs).cache.get? b.contentHash with
  | none =>
    rw [hget, Option.getD_none] at hu
    rw [hu] at hid
    obtain rfl : b = a := eq_of_atomId_eq hn hb ha hid
    exact Or.inl hu
  | some v =>
    rw [hget, Option.getD_some] at hu
    subst hu
    have hhash : b.contentHash = a.contentHash := by
      rcases Processor.Described.cache_cases cache atoms descs b.contentHash with
        ⟨d, _, hkey, hd⟩ | ⟨_, hold⟩
      · obtain rfl : d = u := Option.some.inj (hd.symm.trans hget)
        rw [← hkey, hashOf_eq hn ha hid]
      · have hown := hhits b hb u (hold.symm.trans hget)
        rw [eq_of_atomId_eq hn hb ha (hown.symm.trans hid)]
    exact Or.inr ⟨u, hhash ▸ h.filledBy hp hn hcache b.contentHash u hget, rfl⟩

/-- Where every atom gets a description of its own, the cache held no other one for its
content. -/
theorem own_hits_of_aligned {procs : Set Processor} {out : PassOutcome}
    {descs : List AtomDescription} (hp : small.OnePerAtom) (hn : (atoms.map (·.atomId)).Nodup)
    (hrun : cfg.describeWithDegradation small large completion completion' degradation atoms cache =
      some out) (hok : out.descs = .ok descs)
    (haligned : List.Forall₂ (Aligned procs) atoms descs) :
    cfg.Passes atoms cache ∧ ∀ a ∈ atoms, ∀ d ∈ cache.get? a.contentHash, d.atomId = a.atomId := by
  have hpass := passes_of_describeWithDegradation hrun hok
  obtain ⟨_, asked, first, _, _, hdescribed, hfirst, _, hdescs, hcached⟩ :=
    exists_first completion hn hp hpass
  refine ⟨hpass, fun a ha => (atomId_describes_eq_iff hdescribed hn ha).mp ?_⟩
  rcases describeWithDegradation_of_first large completion' degradation hpass hfirst hdescs
      hcached with
    ⟨_, hrun', _⟩ | ⟨upgraded, hrun', _⟩
  · rw [← Option.some.inj (hrun'.symm.trans hrun)] at hok
    cases hok
  · rw [← Option.some.inj (hrun'.symm.trans hrun)] at hok
    have hids : descs.map (·.atomId) = atoms.map (·.atomId) :=
      List.forall₂_eq_eq_eq ▸ List.forall₂_map_left_iff.mpr (List.forall₂_map_right_iff.mpr
        (haligned.flip.imp fun _ _ h => h.1))
    rw [← Except.ok.inj hok, map_atomId_withUpgraded, List.map_map] at hids
    exact List.map_inj_left.mp hids a ha

theorem exists_aligned {procs : Set Processor} (hmem : small ∈ procs) (hp : small.OnePerAtom)
    (hn : (atoms.map (·.atomId)).Nodup) (hcache : FilledBy procs cache)
    (hpass : cfg.Passes atoms cache)
    (hhits : ∀ a ∈ atoms, ∀ d ∈ cache.get? a.contentHash, d.atomId = a.atomId) :
    ∃ out descs,
      cfg.describeWithDegradation small large completion completion' degradation atoms cache =
        some out ∧ out.descs = .ok descs ∧ List.Forall₂ (Aligned procs) atoms descs := by
  obtain ⟨_, asked, first, _, _, hdescribed, hfirst, hfirstCache, hdescs, hcached⟩ :=
    exists_first completion hn hp hpass
  rcases describeWithDegradation_of_first large completion' degradation hpass hfirst hdescs
      hcached with
    ⟨_, _, d, hd, hnone⟩ | ⟨upgraded, hrun, hupgraded⟩
  · obtain ⟨a, ha, rfl⟩ := List.mem_map.mp hd
    rw [(atomId_describes_eq_iff hdescribed hn ha).mpr (hhits a ha), byId_get? hn ha] at hnone
    cases hnone
  · obtain ⟨g, hg, hcases⟩ := withUpgraded_cases
      (BatchState.recorded { cache } atoms (asked.flatMap small.output)).describes atoms upgraded
    refine ⟨_, atoms.map g, hrun, congrArg Except.ok hg, ?_⟩
    refine List.forall₂_map_right_iff.mpr (List.forall₂_same.mpr fun a ha => ?_)
    rcases hcases a ha with hsame | ⟨hu, hid⟩
    · rw [hsame]
      exact aligned_describes hdescribed hmem hn hcache ha (hhits a ha)
    · obtain ⟨b, hb, hread⟩ := hupgraded (g a) hu
      rw [hfirstCache] at hread
      rw [(atomId_describes_eq_iff hdescribed hn ha).mpr (hhits a ha)] at hid
      exact aligned_upgraded hdescribed hmem hn hcache hhits ha hb hid hread

/-- Every atom gets a description of its own for its content exactly if the passes come to an
end and no atom finds the description of another one in the cache. -/
theorem aligned_iff (procs : Set Processor) (cfg : BatchConfig) (small large : Processor)
    (completion completion' : Completion) (degradation : DegradationConfig) (atoms : List Atom)
    (cache : DescriptionCache) (hmem : small ∈ procs) (hp : small.OnePerAtom)
    (hn : (atoms.map (·.atomId)).Nodup) (hcache : FilledBy procs cache) :
    (∃ out descs,
      cfg.describeWithDegradation small large completion completion' degradation atoms cache =
        some out ∧ out.descs = .ok descs ∧ List.Forall₂ (Aligned procs) atoms descs) ↔
      cfg.Passes atoms cache ∧
        ∀ a ∈ atoms, ∀ d ∈ cache.get? a.contentHash, d.atomId = a.atomId :=
  ⟨fun ⟨_, _, hrun, hok, haligned⟩ => own_hits_of_aligned hp hn hrun hok haligned,
    fun ⟨hpass, hhits⟩ => exists_aligned hmem hp hn hcache hpass hhits⟩

theorem perm_id (batches : List (List Atom)) : (id batches).Perm batches := List.Perm.refl batches

def inTurn : Completion where
  order := id
  perm := perm_id

/-- Describes everything as a figure, and is not sure of it. -/
def unsureProcessor : Processor where
  describe atoms := .ok (atoms.map fun a =>
    { atomId := a.atomId, description := "a figure", confidence := 1 / 2, model := "vlm-small" })

/-- The same figures in every document. -/
def figures (docId : String) (count : ℕ) : List Atom :=
  (List.range count).map fun i =>
    { atomId := s!"{docId}#{i}", docId, type := .image, contentHash := s!"h{i}" }

theorem onePerAtom_unsureProcessor : unsureProcessor.OnePerAtom := by
  refine fun batch _ => ⟨rfl, ?_⟩
  rw [Processor.output, unsureProcessor, List.map_map]
  exact List.Perm.refl _

theorem aligned_iff_oneDocument :
    (∃ out descs,
      ({} : BatchConfig).describeWithDegradation unsureProcessor unsureProcessor inTurn inTurn {}
        (figures "doc_1" 4) .empty = some out ∧ out.descs = .ok descs ∧
        List.Forall₂ (Aligned {unsureProcessor}) (figures "doc_1" 4) descs) ↔
      ({} : BatchConfig).Passes (figures "doc_1" 4) .empty ∧
        ∀ a ∈ figures "doc_1" 4, ∀ d ∈ (.empty : DescriptionCache).get? a.contentHash,
          d.atomId = a.atomId :=
  aligned_iff {unsureProcessor} {} unsureProcessor unsureProcessor inTurn inTurn {}
    (figures "doc_1" 4) .empty rfl onePerAtom_unsureProcessor (by decide +kernel)
    (filledBy_empty _)

/-- What the figures of a first document leave in the cache. -/
def afterFirstDocument : DescriptionCache :=
  ((({} : BatchConfig).describeWithDegradation unsureProcessor unsureProcessor inTurn inTurn {}
    (figures "doc_1" 4) .empty).map (·.cache)).getD .empty

/-- The figures of a second document find the descriptions of the first one. With many of them
the lookup of an atom raises. -/
theorem not_aligned_secondDocument :
    FilledBy {unsureProcessor} afterFirstDocument ∧
      (¬ ∃ out descs,
        ({} : BatchConfig).describeWithDegradation unsureProcessor unsureProcessor inTurn inTurn {}
          (figures "doc_2" 1) afterFirstDocument = some out ∧ out.descs = .ok descs ∧
          List.Forall₂ (Aligned {unsureProcessor}) (figures "doc_2" 1) descs) ∧
      (({} : BatchConfig).describeWithDegradation unsureProcessor unsureProcessor inTurn inTurn {}
        (figures "doc_2" 4) afterFirstDocument).bind (fun out => match out.descs with
          | .ok _ => none
          | .error e => some e.message) = some "'doc_1#0'" := by
  refine ⟨?_, ?_, by decide +kernel⟩
  · unfold afterFirstDocument
    cases hrun : ({} : BatchConfig).describeWithDegradation unsureProcessor unsureProcessor inTurn
        inTurn {} (figures "doc_1" 4) .empty with
    | none => exact filledBy_empty _
    | some out =>
      exact filledBy_describeWithDegradation rfl onePerAtom_unsureProcessor (by decide +kernel)
        (filledBy_empty _) hrun
  · rintro ⟨out, descs, hrun, hok, haligned⟩
    have hown := (own_hits_of_aligned onePerAtom_unsureProcessor (by decide +kernel) hrun hok
      haligned).2
    have hfound : (figures "doc_2" 1).all (fun a => (OrderedDict.get? afterFirstDocument
        a.contentHash).all fun d => d.atomId = a.atomId) = true :=
      List.all_eq_true.mpr fun a ha => Option.all_eq_true _ _ |>.mpr fun d hd =>
        decide_eq_true (hown a ha d hd)
    revert hfound
    decide +kernel

/-! ## Escalation -/

/-- What the small model says about the atoms. -/
def smallDescs (cfg : BatchConfig) (small : Processor) (atoms : List Atom) :
    List AtomDescription :=
  match batchesOf cfg.maxBatchSize atoms with
  | .ok batches => batches.flatMap small.output
  | .error _ => []

def descriptionIn (descs : List AtomDescription) (a : Atom) : Option AtomDescription :=
  descs.find? fun d => d.atomId = a.atomId

/-- The first atoms with a low confidence, up to the share. -/
def escalated (degradation : DegradationConfig) (descs : List AtomDescription)
    (atoms : List Atom) : List Atom :=
  let low := atoms.filter fun a =>
    (descriptionIn descs a).any fun d => d.confidence < degradation.confidenceThreshold
  low.take (min (low.length : ℤ) ⌊atoms.length * degradation.maxUpgradeRatio⌋).toNat

/-- The large model is asked for exactly these atoms, and has the word on them. -/
structure Escalates (cfg : BatchConfig) (small large : Processor) (degradation : DegradationConfig)
    (atoms : List Atom) (out : PassOutcome) : Prop where
  asked : out.asked.flatten.Perm (escalated degradation (cfg.smallDescs small atoms) atoms)
  described : ∃ descs, out.descs = .ok descs ∧ List.Forall₂ (fun a d =>
    (a ∈ escalated degradation (cfg.smallDescs small atoms) atoms →
      descriptionIn (out.asked.flatMap large.output) a = some d) ∧
    (a ∉ escalated degradation (cfg.smallDescs small atoms) atoms →
      descriptionIn (cfg.smallDescs small atoms) a = some d)) atoms descs

theorem descriptionIn_eq_some {descs : List AtomDescription}
    (hn : (descs.map (·.atomId)).Nodup) {a : Atom} {d : AtomDescription} (hd : d ∈ descs)
    (hid : d.atomId = a.atomId) : descriptionIn descs a = some d := by
  cases hfind : descriptionIn descs a with
  | none => exact absurd (decide_eq_true hid) (List.find?_eq_none.mp hfind d hd)
  | some d' =>
    unfold descriptionIn at hfind
    have hid' : d'.atomId = a.atomId := by simpa using List.find?_some hfind
    rw [List.inj_on_of_nodup_map hn (List.mem_of_find?_eq_some hfind) hd (hid'.trans hid.symm)]

theorem escalated_eq_nil_iff {descs : List AtomDescription} :
    escalated degradation descs atoms = [] ↔
      (∀ a ∈ atoms, ∀ d ∈ descriptionIn descs a, degradation.confidenceThreshold ≤ d.confidence) ∨
        ⌊atoms.length * degradation.maxUpgradeRatio⌋ ≤ 0 := by
  unfold escalated
  dsimp only
  rw [List.take_eq_nil_iff, List.filter_eq_nil_iff]
  have hlow : (∀ a ∈ atoms, ¬ (descriptionIn descs a).any
        (fun d => d.confidence < degradation.confidenceThreshold) = true) ↔
      ∀ a ∈ atoms, ∀ d ∈ descriptionIn descs a,
        degradation.confidenceThreshold ≤ d.confidence := by
    simp [Option.any_eq_true]
  rw [← hlow]
  constructor
  · rintro (hzero | hnil)
    · rw [Int.toNat_eq_zero, min_le_iff] at hzero
      rcases hzero with hlength | hshare
      · exact Or.inl (List.filter_eq_nil_iff.mp (List.length_eq_zero_iff.mp (by omega)))
      · exact Or.inr hshare
    · exact Or.inl hnil
  · rintro (hnone | hshare)
    · exact Or.inr hnone
    · exact Or.inl (Int.toNat_eq_zero.mpr (min_le_of_right_le hshare))

theorem uncached_empty (atoms : List Atom) : DescriptionCache.uncached .empty atoms = atoms :=
  List.filter_eq_self.mpr fun _ _ => rfl

/-- What the second pass finds for an atom is what the first one said. -/
theorem withUpgraded_eq_self {p : Processor} {asked : List Atom} {descs : List AtomDescription}
    (h : p.Described .empty atoms asked descs) (hn : (atoms.map (·.atomId)).Nodup)
    (hall : ∀ a ∈ atoms, a ∈ asked)
    {upgraded : List AtomDescription}
    (hupgraded : ∀ u ∈ upgraded, ∃ a ∈ atoms,
      u = ((BatchState.recorded { cache := .empty } atoms descs).cache.get?
        a.contentHash).getD (fallback a)) :
    withUpgraded (atoms.map (BatchState.recorded { cache := .empty } atoms descs).describes)
        upgraded =
      atoms.map (BatchState.recorded { cache := .empty } atoms descs).describes := by
  obtain ⟨g, hg, hcases⟩ := withUpgraded_cases
    (BatchState.recorded { cache := .empty } atoms descs).describes atoms upgraded
  rw [hg]
  refine List.map_congr_left fun a ha => ?_
  rcases hcases a ha with hsame | ⟨hu, hid⟩
  · exact hsame
  · obtain ⟨b, hb, hread⟩ := hupgraded (g a) hu
    obtain ⟨d, hd, hdid⟩ := h.covers a (hall a ha)
    rw [h.describes_of_mem hd hdid] at hid ⊢
    rcases Processor.Described.cache_cases .empty atoms descs b.contentHash with
      ⟨d', hd', hkey, hget⟩ | ⟨hnone, _⟩
    · rw [hget, Option.getD_some] at hread
      rw [hread] at hid ⊢
      exact List.inj_on_of_nodup_map h.nodup hd' hd hid
    · obtain ⟨e, he, heid⟩ := h.covers b (hall b hb)
      exact absurd (hashOf_eq hn hb heid) (hnone e he)

/-- The large model has the word on nothing, so where the escalation does what it says there
was nothing to escalate. -/
theorem escalated_eq_nil_of_escalates {out : PassOutcome} (hp : small.OnePerAtom)
    (hn : (atoms.map (·.atomId)).Nodup)
    (hrun : cfg.describeWithDegradation small large completion completion' degradation atoms
      .empty = some out) (h : cfg.Escalates small large degradation atoms out) :
    cfg.Passes atoms .empty ∧ (atoms = [] ∨ 0 < cfg.maxBatchSize) ∧
      escalated degradation (cfg.smallDescs small atoms) atoms = [] := by
  obtain ⟨descs, hok, hdescribed⟩ := h.described
  have hpass := passes_of_describeWithDegradation hrun hok
  obtain ⟨_, _, first, _, _, _, hfirst, _, hdescs, hcached⟩ :=
    exists_first completion hn hp hpass
  have hnone : out.asked = [] := by
    rcases describeWithDegradation_of_first large completion' degradation hpass hfirst hdescs
        hcached with
      ⟨_, hrun', _⟩ | ⟨_, hrun', _⟩
    · rw [← Option.some.inj (hrun'.symm.trans hrun)]
    · rw [← Option.some.inj (hrun'.symm.trans hrun)]
  have hasked := h.asked
  rw [hnone] at hasked
  have hempty := hasked.symm.eq_nil
  refine ⟨hpass, or_iff_not_imp_left.mpr fun hatoms => ?_, hempty⟩
  obtain ⟨a, ha⟩ := List.exists_mem_of_ne_nil atoms hatoms
  obtain ⟨d, _, _, hkept⟩ := exists_of_mem_left hdescribed ha
  rw [hempty] at hkept
  have hd := hkept List.not_mem_nil
  by_contra hsize
  have hneg : cfg.maxBatchSize < 0 := lt_of_le_of_ne (not_lt.mp hsize) hpass.size
  unfold smallDescs at hd
  rw [batchesOf_neg hneg] at hd
  cases hd

theorem exists_escalates (hp : small.OnePerAtom) (hn : (atoms.map (·.atomId)).Nodup)
    (hpass : cfg.Passes atoms .empty) (hsize : atoms = [] ∨ 0 < cfg.maxBatchSize)
    (hempty : escalated degradation (cfg.smallDescs small atoms) atoms = []) :
    ∃ out,
      cfg.describeWithDegradation small large completion completion' degradation atoms .empty =
        some out ∧ cfg.Escalates small large degradation atoms out := by
  obtain ⟨batches, asked, first, hbatches, hperm, hdescribed, hfirst, hcache, hdescs, hcached⟩ :=
    exists_first completion hn hp hpass
  rw [uncached_empty] at hbatches
  have hall (a : Atom) (ha : a ∈ atoms) : a ∈ asked.flatten := by
    have hpos := hsize.resolve_left fun hnil => absurd (hnil ▸ ha) List.not_mem_nil
    obtain ⟨batches', hbatches', hflat⟩ := exists_batchesOf hpos atoms
    obtain rfl : batches' = batches := Except.ok.inj (hbatches'.symm.trans hbatches)
    rw [hperm.flatten.mem_iff, hflat]
    exact ha
  rcases describeWithDegradation_of_first large completion' degradation hpass hfirst hdescs
      hcached with
    ⟨_, _, d, hd, hnone⟩ | ⟨upgraded, hrun, hupgraded⟩
  · obtain ⟨a, ha, rfl⟩ := List.mem_map.mp hd
    rw [(atomId_describes_eq_iff hdescribed hn ha).mpr fun d hd =>
      absurd hd (Option.not_mem_none d), byId_get? hn ha] at hnone
    cases hnone
  · rw [hcache] at hupgraded
    rw [withUpgraded_eq_self hdescribed hn hall hupgraded] at hrun
    refine ⟨_, hrun, by rw [hempty]; exact List.Perm.refl _, _, rfl, ?_⟩
    refine List.forall₂_map_right_iff.mpr (List.forall₂_same.mpr fun a ha => ?_)
    rw [hempty]
    refine ⟨fun hmem => absurd hmem List.not_mem_nil, fun _ => ?_⟩
    obtain ⟨d, hd, hid⟩ := hdescribed.covers a (hall a ha)
    have hdescsPerm : (asked.flatMap small.output).Perm (cfg.smallDescs small atoms) := by
      unfold smallDescs
      rw [hbatches]
      exact hperm.flatMap_right _
    rw [hdescribed.describes_of_mem hd hid]
    exact descriptionIn_eq_some ((hdescsPerm.map _).nodup_iff.mp hdescribed.nodup)
      (hdescsPerm.mem_iff.mp hd) hid

/-- The escalation does what it says exactly if there is nothing to escalate. -/
theorem escalates_iff (cfg : BatchConfig) (small large : Processor)
    (completion completion' : Completion) (degradation : DegradationConfig) (atoms : List Atom)
    (hp : small.OnePerAtom) (hn : (atoms.map (·.atomId)).Nodup) :
    (∃ out,
      cfg.describeWithDegradation small large completion completion' degradation atoms .empty =
        some out ∧ cfg.Escalates small large degradation atoms out) ↔
      cfg.Passes atoms .empty ∧ (atoms = [] ∨ 0 < cfg.maxBatchSize) ∧
        ((∀ a ∈ atoms, ∀ d ∈ descriptionIn (cfg.smallDescs small atoms) a,
            degradation.confidenceThreshold ≤ d.confidence) ∨
          ⌊atoms.length * degradation.maxUpgradeRatio⌋ ≤ 0) := by
  rw [← escalated_eq_nil_iff]
  exact ⟨fun ⟨_, hrun, h⟩ => escalated_eq_nil_of_escalates hp hn hrun h,
    fun ⟨hpass, hsize, hempty⟩ => exists_escalates hp hn hpass hsize hempty⟩

/-- Describes everything in detail. -/
def sureProcessor : Processor where
  describe atoms := .ok (atoms.map fun a =>
    { atomId := a.atomId, description := "a sketch of a bridge", confidence := 9 / 10,
      model := "vlm-large" })

theorem escalates_iff_oneFigure :
    (∃ out,
      ({} : BatchConfig).describeWithDegradation unsureProcessor sureProcessor inTurn inTurn {}
        (figures "doc_1" 1) .empty = some out ∧
      ({} : BatchConfig).Escalates unsureProcessor sureProcessor {} (figures "doc_1" 1) out) ↔
      ({} : BatchConfig).Passes (figures "doc_1" 1) .empty ∧
        (figures "doc_1" 1 = [] ∨ 0 < ({} : BatchConfig).maxBatchSize) ∧
        ((∀ a ∈ figures "doc_1" 1,
            ∀ d ∈ descriptionIn (({} : BatchConfig).smallDescs unsureProcessor
              (figures "doc_1" 1)) a, ({} : DegradationConfig).confidenceThreshold ≤ d.confidence) ∨
          ⌊(figures "doc_1" 1).length * ({} : DegradationConfig).maxUpgradeRatio⌋ ≤ 0) :=
  escalates_iff {} unsureProcessor sureProcessor inTurn inTurn {} (figures "doc_1" 1)
    onePerAtom_unsureProcessor (by decide +kernel)

/-- One of four uncertain descriptions is to be replaced, and none is. -/
theorem not_escalates_fourFigures :
    ¬ ∃ out,
      ({} : BatchConfig).describeWithDegradation unsureProcessor sureProcessor inTurn inTurn {}
        (figures "doc_1" 4) .empty = some out ∧
      ({} : BatchConfig).Escalates unsureProcessor sureProcessor {} (figures "doc_1" 4) out := by
  rintro ⟨out, hrun, h⟩
  have hnone := (escalated_eq_nil_of_escalates onePerAtom_unsureProcessor (by decide +kernel) hrun
    h).2.2
  have hone : (escalated {} (({} : BatchConfig).smallDescs unsureProcessor (figures "doc_1" 4))
      (figures "doc_1" 4)).length = 1 := by decide +kernel
  rw [hnone] at hone
  cases hone

end BatchConfig

end Ragx
