import Ragx.ChunkSizes

/-!
# Hard bounds inside chunks

A boundary is looked for between neighbours only. Contexts and non-text atoms stay apart
all the same, but two pages meet in one chunk behind an atom whose page is not known.
-/
namespace Ragx

/-- One known page, one context, and a non-text atom only by itself. -/
structure WithinBounds (atoms : List Atom) : Prop where
  onePage : ∀ a ∈ atoms, ∀ b ∈ atoms, ∀ p q, a.page = some p → b.page = some q → p = q
  oneContext : ∀ a ∈ atoms, ∀ b ∈ atoms, a.context.getD "" ≠ "" → b.context.getD "" ≠ "" →
    a.context = b.context
  alone : ∀ a ∈ atoms, a.type ≠ .text → atoms = [a]

/-- Between two text atoms of different known pages lies a hard boundary. -/
def PagesApart (atoms : List Atom) : Prop :=
  ∀ segment, segment <:+: atoms → Unbroken segment →
    ∀ a ∈ segment, ∀ b ∈ segment, a.type = .text → b.type = .text →
      ∀ p q, a.page = some p → b.page = some q → p = q

section ChunkBounds

variable (env : ChunkerEnv) (opts : ChunkingOptions) (embed : List String → List (List ℚ))

/-- Every chunk is assembled from atoms within bounds. -/
def BoundsHeld (kbId docId : String) (descriptions : OrderedDict String AtomDescription)
    (atoms : List Atom) : Prop :=
  ∀ chunks, chunk env opts embed atoms kbId docId descriptions = .ok chunks →
    ∃ groups, finalGroups env opts embed atoms = .ok groups ∧
      List.Forall₂ (fun group c => assembleChunk env opts kbId docId descriptions group = .ok c)
        groups chunks ∧
      ∀ group ∈ groups, WithinBounds group

variable {env opts embed}

theorem infix_of_mem_splitByVisualBounds {atoms group : List Atom}
    (h : group ∈ splitByVisualBounds atoms) : group <:+: atoms := by
  obtain ⟨front, back, heq⟩ := List.append_of_mem h
  refine ⟨front.flatten, back.flatten, ?_⟩
  rw [← flatten_splitByVisualBounds atoms, heq]
  simp

/-! ## Contexts and non-text atoms -/

theorem context_of_not_isHardBoundary {prev curr : Atom} (h : isHardBoundary prev curr = false)
    (hcurr : curr.context.getD "" ≠ "") : curr.context = prev.context := by
  simp only [isHardBoundary, Bool.or_eq_false_iff, Bool.and_eq_false_imp, bne_iff_ne, ne_eq,
    bne_eq_false_iff_eq] at h
  exact h.1.2 hcurr

/-- In a visual group every context that is there is the one of the head. -/
theorem context_of_mem_tail {head : Atom} {tail : List Atom} (h : Unbroken (head :: tail)) :
    ∀ atom ∈ tail, atom.context.getD "" ≠ "" → atom.context = head.context := by
  induction tail generalizing head with
  | nil => exact fun _ h => absurd h List.not_mem_nil
  | cons next tail ih =>
    obtain ⟨hnext, hrest⟩ := List.isChain_cons_cons.mp h
    intro atom hatom hcontext
    rcases List.mem_cons.mp hatom with rfl | hatom
    · exact context_of_not_isHardBoundary hnext hcontext
    · have hsame := ih hrest atom hatom hcontext
      exact hsame.trans (context_of_not_isHardBoundary hnext (hsame ▸ hcontext))

theorem oneContext_of_unbroken {group : List Atom} (h : Unbroken group) :
    ∀ a ∈ group, ∀ b ∈ group, a.context.getD "" ≠ "" → b.context.getD "" ≠ "" →
      a.context = b.context := by
  cases group with
  | nil => exact fun _ h => absurd h List.not_mem_nil
  | cons head tail =>
    have hhead : ∀ a ∈ head :: tail, a.context.getD "" ≠ "" → a.context = head.context := by
      intro a ha hcontext
      rcases List.mem_cons.mp ha with rfl | ha
      · rfl
      · exact context_of_mem_tail h a ha hcontext
    exact fun a ha b hb hac hbc => (hhead a ha hac).trans (hhead b hb hbc).symm

/-! ## Pages -/

/-- `part` has its pages and contexts from text atoms of `group`. -/
def TakenFrom (group part : List Atom) : Prop :=
  ∀ atom ∈ part, atom.type = .text ∧
    ∃ source ∈ group, source.type = .text ∧ atom.page = source.page ∧
      atom.context = source.context

theorem takenFrom_of_extends {group own part : List Atom}
    (hown : ∀ atom ∈ own, atom ∈ group.filter (·.type = .text))
    (h : Extends env (group.filter (·.type = .text)) own part) : TakenFrom group part := by
  obtain ⟨copies, rfl, hcopies⟩ := h
  intro atom hatom
  rcases List.mem_append.mp hatom with hatom | hatom
  · obtain ⟨source, hsource, sentence, rfl⟩ := hcopies atom hatom
    obtain ⟨hmem, htext⟩ := List.mem_filter.mp hsource
    exact ⟨rfl, source, hmem, by simpa using htext, rfl, rfl⟩
  · obtain ⟨hmem, htext⟩ := List.mem_filter.mp (hown atom hatom)
    have htype : atom.type = .text := by simpa using htext
    exact ⟨htype, atom, hmem, htype, rfl, rfl⟩

/-- A visual group is assembled from single non-text atoms and from text of the group. -/
theorem singleton_or_takenFrom {group part : List Atom} {parts : List (List Atom)}
    (h : groupParts env opts embed group = .ok parts) (hpart : part ∈ parts) :
    (∃ atom, part = [atom]) ∨ TakenFrom group part := by
  have hsingle : part ∈ ((group.filter (·.type ≠ .text)).map fun atom => [atom]) →
      ∃ atom, part = [atom] := by
    intro hmem
    obtain ⟨atom, _, rfl⟩ := List.mem_map.mp hmem
    exact ⟨atom, rfl⟩
  unfold groupParts at h
  dsimp only at h
  split_ifs at h
  · cases h
    exact Or.inl (hsingle hpart)
  · obtain ⟨merged, hmerged, rfl⟩ := map_eq_ok_iff.mp h
    rcases List.mem_append.mp hpart with hpart | hpart
    · exact Or.inl (hsingle hpart)
    · have hflat := flatten_of_mergeTextAtoms hmerged
      have hext : List.Forall₂ (Extends env merged.flatten) merged (applyOverlap env opts merged) :=
        extends_applyOverlap merged
      obtain ⟨own, hown, hpart⟩ := exists_of_mem_right hext hpart
      rw [hflat] at hpart
      refine Or.inr (takenFrom_of_extends (fun atom hatom => ?_) hpart)
      rw [← hflat]
      exact List.mem_flatten_of_mem hown hatom

theorem withinBounds_singleton (atom : Atom) : WithinBounds [atom] where
  onePage := by
    intro a ha b hb p q hp hq
    obtain rfl := List.mem_singleton.mp ha
    obtain rfl := List.mem_singleton.mp hb
    exact Option.some.inj (hp.symm.trans hq)
  oneContext := by
    intro a ha b hb _ _
    obtain rfl := List.mem_singleton.mp ha
    obtain rfl := List.mem_singleton.mp hb
    rfl
  alone := by
    intro a ha _
    obtain rfl := List.mem_singleton.mp ha
    rfl

theorem withinBounds_of_takenFrom {atoms group part : List Atom} (hapart : PagesApart atoms)
    (hgroup : group ∈ splitByVisualBounds atoms) (h : TakenFrom group part) :
    WithinBounds part where
  onePage := by
    intro a ha b hb p q hp hq
    obtain ⟨_, source, hsource, htext, hpage, _⟩ := h a ha
    obtain ⟨_, source', hsource', htext', hpage', _⟩ := h b hb
    exact hapart group (infix_of_mem_splitByVisualBounds hgroup)
      (unbroken_of_mem_splitByVisualBounds hgroup) source hsource source' hsource' htext htext' p q
      (hpage ▸ hp) (hpage' ▸ hq)
  oneContext := by
    intro a ha b hb hac hbc
    obtain ⟨_, source, hsource, _, _, hcontext⟩ := h a ha
    obtain ⟨_, source', hsource', _, _, hcontext'⟩ := h b hb
    rw [hcontext] at hac ⊢
    rw [hcontext'] at hbc ⊢
    exact oneContext_of_unbroken (unbroken_of_mem_splitByVisualBounds hgroup) source hsource
      source' hsource' hac hbc
  alone := fun a ha hne => absurd (h a ha).1 hne

/-! ## One chunk for the text of a visual group -/

/-- What a visual group is assembled from when all of its text stays together. -/
def wholeParts (group : List Atom) : List (List Atom) :=
  let textAtoms := group.filter (·.type = .text)
  ((group.filter (·.type ≠ .text)).map fun atom => [atom]) ++
    if textAtoms.isEmpty then [] else [textAtoms]

variable (env) in
def partTokens (descriptions : OrderedDict String AtomDescription) (part : List Atom) : ℕ :=
  env.countTokens ("\n".intercalate (part.flatMap (atomParts default descriptions)))

variable (env) in
/-- Room for the text of a visual group and for everything that is assembled from it. -/
def groupRoom (descriptions : OrderedDict String AtomDescription) (group : List Atom) : ℕ :=
  groupTokens env (group.filter (·.type = .text)) +
    ((wholeParts group).map (partTokens env descriptions)).sum

/-- Options under which nothing is too large. -/
def wideOptions (room : ℕ) : ChunkingOptions :=
  { (default : ChunkingOptions) with
    maxTokens := 16 + room
    contextPrefix := false
    max_ge := Nat.le_add_right 16 room }

/-- The embedder that answers with one vector for all texts. -/
def sameVectors (texts : List String) : List (List ℚ) := texts.map fun _ => unitVector true

theorem groupParts_wide {newline room : ℕ} (hlaw : env.Lawful newline) {group : List Atom}
    (hroom : groupTokens env (group.filter (·.type = .text)) ≤ room) :
    groupParts env (wideOptions room) sameVectors group = .ok (wholeParts group) := by
  unfold groupParts wholeParts
  dsimp only
  split_ifs with hempty
  · rw [List.append_nil]
  · have hsmall : ∀ part ∈ [group.filter (·.type = .text)], Small env (wideOptions room) part := by
      intro part hpart
      obtain rfl := List.mem_singleton.mp hpart
      refine ⟨fun hnil => hempty (List.isEmpty_iff.mpr hnil), ?_⟩
      exact hroom.trans (Nat.le_add_left room 16)
    have hsoft := softMerge_turning hlaw hsmall
    have hvectors : turningVectors true [group.filter (·.type = .text)] =
        sameVectors ((group.filter (·.type = .text)).map (·.text.getD "")) := by
      simp [turningVectors, sameVectors, List.map_map, Function.comp_def]
    rw [hvectors, List.flatten_singleton] at hsoft
    rw [mergeTextAtoms_eq, hsoft]
    have hon : (wideOptions room).mergeShortChunks = true := rfl
    simp [Except.map, hon, mergeShort, mergeShortFrom, applyOverlap, overlapFrom]

variable {kbId docId : String} {descriptions : OrderedDict String AtomDescription}

theorem exists_assembled_wide {room : ℕ} {part : List Atom}
    (hroom : partTokens env descriptions part ≤ room) :
    ∃ c, assembleChunk env (wideOptions room) kbId docId descriptions part = .ok c := by
  have htext : contextParts (wideOptions room) part ++
      part.flatMap (atomParts (wideOptions room) descriptions) =
        part.flatMap (atomParts default descriptions) := rfl
  unfold assembleChunk
  rw [htext]
  dsimp only
  rw [if_neg]
  · exact ⟨_, rfl⟩
  · rw [not_lt]
    have hcast : ((partTokens env descriptions part : ℕ) : ℚ) ≤ room := Nat.cast_le.mpr hroom
    have hwide : ((wideOptions room).maxTokens : ℚ) = 16 + room := by simp [wideOptions]
    rw [hwide]
    unfold partTokens at hcast
    have hnonneg : (0 : ℚ) ≤ room := Nat.cast_nonneg room
    linarith

theorem le_sum_of_mem {α : Type} {size : α → ℕ} {xs : List α} {x : α} (h : x ∈ xs) :
    size x ≤ (xs.map size).sum := by
  obtain ⟨front, back, rfl⟩ := List.append_of_mem h
  simp only [List.map_append, List.map_cons, List.sum_append, List.sum_cons]
  omega

/-- With room enough, every visual group keeps its text together. -/
theorem exists_whole_chunks {newline : ℕ} (hlaw : env.Lawful newline) (kbId docId : String)
    (descriptions : OrderedDict String AtomDescription) (atoms : List Atom) :
    ∃ opts chunks, chunk env opts sameVectors atoms kbId docId descriptions = .ok chunks ∧
      finalGroups env opts sameVectors atoms =
        .ok ((splitByVisualBounds atoms).map wholeParts).flatten := by
  let room := ((splitByVisualBounds atoms).map (groupRoom env descriptions)).sum
  have hroom : ∀ group ∈ splitByVisualBounds atoms, groupRoom env descriptions group ≤ room :=
    fun group hgroup => le_sum_of_mem hgroup
  have hparts : ∀ group ∈ splitByVisualBounds atoms,
      groupParts env (wideOptions room) sameVectors group = .ok (wholeParts group) := by
    intro group hgroup
    exact groupParts_wide hlaw ((Nat.le_add_right _ _).trans (hroom group hgroup))
  have hgroups : finalGroups env (wideOptions room) sameVectors atoms =
      .ok ((splitByVisualBounds atoms).map wholeParts).flatten := by
    rw [finalGroups, mapM_eq_ok_map hparts]
    rfl
  have hassembled : ∀ part ∈ ((splitByVisualBounds atoms).map wholeParts).flatten,
      ∃ c, assembleChunk env (wideOptions room) kbId docId descriptions part = .ok c := by
    intro part hpart
    obtain ⟨parts, hparts, hpart⟩ := List.mem_flatten.mp hpart
    obtain ⟨group, hgroup, rfl⟩ := List.mem_map.mp hparts
    have hle : partTokens env descriptions part ≤ groupRoom env descriptions group :=
      (le_sum_of_mem hpart).trans (Nat.le_add_left _ _)
    exact exists_assembled_wide (hle.trans (hroom group hgroup))
  obtain ⟨chunks, hchunks⟩ := exists_mapM_eq_ok hassembled
  exact ⟨wideOptions room, chunks, chunk_eq_ok_iff.mpr ⟨_, hgroups, hchunks⟩, hgroups⟩

/-- Chunks stay within bounds exactly when pages are kept apart in the document. -/
theorem chunk_bounds_iff {newline : ℕ} (hlaw : env.Lawful newline) (atoms : List Atom) :
    (∀ opts embed kbId docId descriptions,
      BoundsHeld env opts embed kbId docId descriptions atoms) ↔ PagesApart atoms := by
  constructor
  · intro hheld segment hinfix hunbroken a ha b hb hatext hbtext p q hp hq
    obtain ⟨group, hgroup, hsegment⟩ :=
      exists_mem_splitByVisualBounds_of_infix (List.ne_nil_of_mem ha) hunbroken hinfix
    obtain ⟨opts, chunks, hchunk, hfinal⟩ := exists_whole_chunks hlaw "" "" .empty atoms
    obtain ⟨groups, hgroups, _, hbounds⟩ := hheld opts sameVectors "" "" .empty chunks hchunk
    obtain rfl := Except.ok.inj (hfinal.symm.trans hgroups)
    have hmem : ∀ atom ∈ segment, atom.type = .text → atom ∈ group.filter (·.type = .text) :=
      fun atom hatom htext => List.mem_filter.mpr ⟨hsegment.subset hatom, by simpa using htext⟩
    have hpart : group.filter (·.type = .text) ∈
        ((splitByVisualBounds atoms).map wholeParts).flatten := by
      refine List.mem_flatten.mpr ⟨_, List.mem_map_of_mem hgroup, List.mem_append_right _ ?_⟩
      rw [if_neg (by simpa using ⟨a, hsegment.subset ha, hatext⟩)]
      exact List.mem_singleton_self _
    exact (hbounds _ hpart).onePage a (hmem a ha hatext) b (hmem b hb hbtext) p q hp hq
  · intro hapart opts embed kbId docId descriptions chunks hchunk
    obtain ⟨groups, hgroups, hchunks⟩ := chunk_eq_ok_iff.mp hchunk
    refine ⟨groups, hgroups, mapM_eq_ok_iff.mp hchunks, fun part hpart => ?_⟩
    obtain ⟨partss, hpartss, rfl⟩ := map_eq_ok_iff.mp hgroups
    obtain ⟨parts, hparts, hpart⟩ := List.mem_flatten.mp hpart
    obtain ⟨group, hgroup, hstep⟩ := exists_of_mem_mapM hpartss hparts
    rcases singleton_or_takenFrom hstep hpart with ⟨atom, rfl⟩ | htaken
    · exact withinBounds_singleton atom
    · exact withinBounds_of_takenFrom hapart hgroup htaken

end ChunkBounds

/-- The page of the atom in the middle is not known. -/
def pagedAtoms : List Atom := [
  { atomId := "doc_1#0000", docId := "doc_1", type := .text, text := some "First page.",
    page := some 1 },
  { atomId := "doc_1#0001", docId := "doc_1", type := .text, text := some "Somewhere." },
  { atomId := "doc_1#0002", docId := "doc_1", type := .text, text := some "Second page.",
    page := some 2 }]

theorem chunk_bounds_iff_paged :
    (∀ opts embed kbId docId descriptions,
      BoundsHeld charCounter opts embed kbId docId descriptions pagedAtoms) ↔
      PagesApart pagedAtoms :=
  chunk_bounds_iff charCounter_lawful pagedAtoms

/-- A chunk has atoms of the pages 1 and 2. -/
theorem paged_atoms_cross_bounds :
    ¬BoundsHeld charCounter default sameVectors "default" "doc_1" .empty pagedAtoms := by
  intro hheld
  have hok : (chunk charCounter default sameVectors pagedAtoms "default" "doc_1"
      .empty).isOk = true := by
    decide +kernel
  have hpages : (finalGroups charCounter default sameVectors pagedAtoms).toOption.map
      (·.map (·.map (·.page))) = some [[some 1, none, some 2]] := by decide +kernel
  cases hchunk : chunk charCounter default sameVectors pagedAtoms "default" "doc_1" .empty with
  | error e =>
    rw [hchunk] at hok
    cases hok
  | ok chunks =>
    obtain ⟨groups, hgroups, _, hbounds⟩ := hheld chunks hchunk
    rw [hgroups] at hpages
    have hmap : groups.map (·.map (·.page)) = [[some 1, none, some 2]] := Option.some.inj hpages
    obtain ⟨group, hgroup, hpage⟩ := List.mem_map.mp (hmap ▸ List.mem_singleton_self _)
    have hmem : ∀ page ∈ [some 1, none, some 2], ∃ atom ∈ group, atom.page = page :=
      fun page h => List.mem_map.mp (hpage ▸ h)
    obtain ⟨a, ha, hfirst⟩ := hmem (some 1) (by decide)
    obtain ⟨b, hb, hsecond⟩ := hmem (some 2) (by decide)
    exact absurd ((hbounds group hgroup).onePage a ha b hb 1 2 hfirst hsecond) (by decide)

end Ragx
