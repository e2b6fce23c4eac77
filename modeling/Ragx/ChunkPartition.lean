import Ragx.ChunkGroups

/-!
# Chunking keeps every atom

Up to the overlap, the chunks of a document partition its atoms in reading order,
and a chunk's text has the texts of its own text atoms one behind the other.
-/
namespace Ragx

/-- Ids of overlap copies end in `#ov`. -/
def isOverlapId (atomId : String) : Bool := "#ov".toList.isSuffixOf atomId.toList

/-- The ids of a chunk that are not overlap. -/
def Chunk.ownAtomIds (chunk : Chunk) : List String := chunk.atomIds.filter (!isOverlapId ·)

/-- The texts of the text atoms. -/
def textsOf (atoms : List Atom) : List String :=
  (atoms.filter (·.type = .text)).map (·.text.getD "")

theorem isOverlapId_overlapAtom (env : ChunkerEnv) (atom : Atom) (sentence : String) :
    isOverlapId (overlapAtom env atom sentence).atomId = true := by
  rw [isOverlapId, overlapAtom, List.isSuffixOf_iff_suffix, String.toList_append]
  exact List.suffix_append _ _

section

variable {env : ChunkerEnv} {opts : ChunkingOptions} {embed : List String → List (List ℚ)}
  {kbId docId : String} {descriptions : OrderedDict String AtomDescription}

theorem Extends.mono {sources sources' own part : List Atom} (h : Extends env sources own part)
    (hsub : ∀ atom ∈ sources, atom ∈ sources') : Extends env sources' own part := by
  obtain ⟨copies, rfl, hcopies⟩ := h
  refine ⟨copies, rfl, fun copy hcopy => ?_⟩
  obtain ⟨atom, hatom, hsentence⟩ := hcopies copy hcopy
  exact ⟨atom, hsub atom hatom, hsentence⟩

theorem extends_singletons (sources atoms : List Atom) :
    List.Forall₂ (Extends env sources) (atoms.map fun atom => [atom])
      (atoms.map fun atom => [atom]) :=
  List.forall₂_same.mpr fun _ _ => ⟨[], rfl, fun _ h => absurd h List.not_mem_nil⟩

/-- A visual group is assembled from a partition of its atoms. -/
theorem exists_partition_of_groupParts {group : List Atom} {parts : List (List Atom)}
    (hgroup : Unbroken group) (h : groupParts env opts embed group = .ok parts) :
    ∃ owns : List (List Atom), owns.flatten = group ∧
      List.Forall₂ (Extends env group) owns parts := by
  unfold groupParts at h
  dsimp only at h
  split_ifs at h with hempty
  · cases h
    refine ⟨_, ?_, extends_singletons group _⟩
    have hall := filter_append_filter_of_unbroken hgroup
    rw [List.isEmpty_iff.mp hempty, List.append_nil] at hall
    rw [← List.flatMap_def, List.flatMap_singleton', hall]
  · obtain ⟨merged, hmerged, rfl⟩ := map_eq_ok_iff.mp h
    have hflat := flatten_of_mergeTextAtoms hmerged
    refine ⟨(group.filter (·.type ≠ .text)).map (fun atom => [atom]) ++ merged, ?_, ?_⟩
    · rw [List.flatten_append, ← List.flatMap_def, List.flatMap_singleton', hflat]
      exact filter_append_filter_of_unbroken hgroup
    · refine List.rel_append (extends_singletons group _) ?_
      refine (extends_applyOverlap merged).imp fun own part hext => hext.mono fun atom hatom => ?_
      rw [hflat] at hatom
      exact List.mem_of_mem_filter hatom

/-- The atoms of a document, partitioned into what its chunks own. -/
theorem exists_partition_of_finalGroups {atoms : List Atom} {groups : List (List Atom)}
    (h : finalGroups env opts embed atoms = .ok groups) :
    ∃ owns : List (List Atom), owns.flatten = atoms ∧
      List.Forall₂ (Extends env atoms) owns groups := by
  obtain ⟨partss, hpartss, rfl⟩ := map_eq_ok_iff.mp h
  have hsteps := mapM_eq_ok_iff.mp hpartss
  have howns : ∀ (visual : List (List Atom)) (partss : List (List (List Atom))),
      (∀ group ∈ visual, Unbroken group ∧ ∀ atom ∈ group, atom ∈ atoms) →
      List.Forall₂ (fun group parts => groupParts env opts embed group = .ok parts) visual partss →
      ∃ owns : List (List Atom), owns.flatten = visual.flatten ∧
        List.Forall₂ (Extends env atoms) owns partss.flatten := by
    intro visual partss hvisual hall
    induction hall with
    | nil => exact ⟨[], rfl, .nil⟩
    | @cons group parts visual partss hparts _ ih =>
      obtain ⟨hunbroken, hsub⟩ := hvisual group List.mem_cons_self
      obtain ⟨owns, hflat, hext⟩ := exists_partition_of_groupParts hunbroken hparts
      obtain ⟨rest, hrest, hexts⟩ := ih fun g hg => hvisual g (List.mem_cons_of_mem group hg)
      refine ⟨owns ++ rest, by simp [hflat, hrest], ?_⟩
      exact List.rel_append (hext.imp fun _ _ hpart => hpart.mono hsub) hexts
  have hvisual : ∀ group ∈ splitByVisualBounds atoms,
      Unbroken group ∧ ∀ atom ∈ group, atom ∈ atoms := by
    refine fun group hgroup => ⟨unbroken_of_mem_splitByVisualBounds hgroup, fun atom hatom => ?_⟩
    rw [← flatten_splitByVisualBounds atoms]
    exact List.mem_flatten_of_mem hgroup hatom
  obtain ⟨owns, hflat, hext⟩ := howns _ _ hvisual hsteps
  exact ⟨owns, hflat.trans (flatten_splitByVisualBounds atoms), hext⟩

theorem assembleChunk_eq_ok {atoms : List Atom} {c : Chunk}
    (h : assembleChunk env opts kbId docId descriptions atoms = .ok c) :
    c.atomIds = atoms.map (·.atomId) ∧
      c.text = "\n".intercalate
        (contextParts opts atoms ++ atoms.flatMap (atomParts opts descriptions)) ∧
      c.tokenCount = env.countTokens c.text ∧ (c.tokenCount : ℚ) ≤ opts.maxTokens * (6 / 5) := by
  unfold assembleChunk at h
  dsimp only at h
  split_ifs at h with hsize
  cases h
  exact ⟨rfl, rfl, rfl, not_lt.mp hsize⟩

/-- The text of an atom is among the lines that the atom adds. -/
theorem textsOf_sublist (atoms : List Atom) :
    (textsOf atoms).Sublist (atoms.flatMap (atomParts opts descriptions)) := by
  induction atoms with
  | nil => exact List.Sublist.slnil
  | cons atom atoms ih =>
    rw [List.flatMap_cons, textsOf]
    by_cases htype : atom.type = .text
    · rw [List.filter_cons_of_pos (by simpa using htype), List.map_cons]
      have hparts : atomParts opts descriptions atom = [atom.text.getD ""] := by
        rw [atomParts, htype]
      rw [hparts]
      exact List.Sublist.cons_cons _ ih
    · rw [List.filter_cons_of_neg (by simpa using htype)]
      exact ih.trans (List.sublist_append_right _ _)

/-- What a chunk shows of the atoms that it owns. -/
def Shows (own : List Atom) (c : Chunk) : Prop :=
  c.ownAtomIds = own.map (·.atomId) ∧ ContainsInOrder (textsOf own) c.text

theorem shows_of_extends {sources own part : List Atom} {c : Chunk}
    (hids : ∀ atom ∈ own, isOverlapId atom.atomId = false) (hext : Extends env sources own part)
    (h : assembleChunk env opts kbId docId descriptions part = .ok c) : Shows own c := by
  obtain ⟨copies, rfl, hcopies⟩ := hext
  obtain ⟨hatomIds, htext, -, -⟩ := assembleChunk_eq_ok h
  constructor
  · have hcopied : (copies.map (·.atomId)).filter (!isOverlapId ·) = [] := by
      refine List.filter_eq_nil_iff.mpr fun id hid => ?_
      obtain ⟨copy, hcopy, rfl⟩ := List.mem_map.mp hid
      obtain ⟨atom, _, sentence, rfl⟩ := hcopies copy hcopy
      simp [isOverlapId_overlapAtom]
    have howned : (own.map (·.atomId)).filter (!isOverlapId ·) = own.map (·.atomId) := by
      refine List.filter_eq_self.mpr fun id hid => ?_
      obtain ⟨atom, hatom, rfl⟩ := List.mem_map.mp hid
      simp [hids atom hatom]
    rw [Chunk.ownAtomIds, hatomIds, List.map_append, List.filter_append, hcopied, howned,
      List.nil_append]
  · rw [htext, List.flatMap_append, ← List.append_assoc]
    exact containsInOrder_intercalate
      ((textsOf_sublist own).trans (List.sublist_append_right _ _))

/-- The chunks of a document show its atoms: none is lost, doubled or moved. -/
theorem chunk_partition {atoms : List Atom} {chunks : List Chunk}
    (hids : ∀ atom ∈ atoms, isOverlapId atom.atomId = false)
    (h : chunk env opts embed atoms kbId docId descriptions = .ok chunks) :
    chunks.flatMap Chunk.ownAtomIds = atoms.map (·.atomId) ∧
      ∃ owns : List (List Atom), owns.flatten = atoms ∧ List.Forall₂ Shows owns chunks := by
  obtain ⟨groups, hgroups, hchunks⟩ := chunk_eq_ok_iff.mp h
  obtain ⟨owns, hflat, hext⟩ := exists_partition_of_finalGroups hgroups
  have hshows : List.Forall₂ Shows owns chunks := by
    have hmem : ∀ own ∈ owns, ∀ atom ∈ own, isOverlapId atom.atomId = false :=
      fun own hown atom hatom => hids atom (hflat ▸ List.mem_flatten_of_mem hown hatom)
    have hpairs := forall₂_exists_iff.mpr ⟨groups, hext, mapM_eq_ok_iff.mp hchunks⟩
    refine ((List.forall₂_and_left owns chunks).mpr ⟨hmem, hpairs⟩).imp ?_
    rintro own c ⟨hown, part, hpart, hc⟩
    exact shows_of_extends hown hpart hc
  refine ⟨?_, owns, hflat, hshows⟩
  rw [← hflat]
  clear hflat hext hgroups hchunks h
  induction hshows with
  | nil => rfl
  | cons hown _ ih => simp [List.flatMap_cons, hown.1, ih]

end

/-- An image, then two text atoms under one heading. -/
def illustratedAtoms : List Atom := [
  { atomId := "doc_1#0000", docId := "doc_1", type := .image },
  { atomId := "doc_1#0001", docId := "doc_1", type := .text, text := some "One." },
  { atomId := "doc_1#0002", docId := "doc_1", type := .text, text := some "Two." }]

/-- Words are counted, roughly; all vectors are equal. -/
def roughChunker : ChunkerEnv where
  countTokens := fun text => text.length / 4
  sha256 := fun _ => ""
  cosine := fun _ _ => 1

theorem chunk_partition_illustrated :
    ∃ chunks, chunk roughChunker default (fun texts => texts.map fun _ => [1, 0]) illustratedAtoms
        "default" "doc_1" .empty = .ok chunks ∧
      chunks.flatMap Chunk.ownAtomIds = ["doc_1#0000", "doc_1#0001", "doc_1#0002"] := by
  have hok : (chunk roughChunker default (fun texts => texts.map fun _ => [1, 0]) illustratedAtoms
      "default" "doc_1" .empty).isOk = true := by decide +kernel
  cases h : chunk roughChunker default (fun texts => texts.map fun _ => [1, 0]) illustratedAtoms
      "default" "doc_1" .empty with
  | error e =>
    rw [h] at hok
    cases hok
  | ok chunks => exact ⟨chunks, rfl, (chunk_partition (by decide) h).1⟩

end Ragx
