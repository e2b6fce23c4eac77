import Mathlib.Data.List.Chain
import Ragx.Chunker
import Ragx.Sequencing

/-!
# The groups behind the chunks

Every chunk is assembled from one list of atoms. The passes over a document keep the
atoms in order: visual bounds, soft merge and short merge cut the list in pieces,
and an overlap only puts copies in front of a piece.
-/
namespace Ragx

section ChunkGroups

variable (env : ChunkerEnv) (opts : ChunkingOptions)

/-- The lists of atoms that a visual group is assembled from. -/
def groupParts (embed : List String → List (List ℚ)) (group : List Atom) :
    Except Exc (List (List Atom)) :=
  let nonText := (group.filter (·.type ≠ .text)).map fun atom => [atom]
  let textAtoms := group.filter (·.type = .text)
  if textAtoms.isEmpty then .ok nonText
  else (mergeTextAtoms env opts textAtoms (embed (textAtoms.map (·.text.getD "")))).map
    fun merged => nonText ++ applyOverlap env opts merged

/-- The lists of atoms that a document is assembled from. -/
def finalGroups (embed : List String → List (List ℚ)) (atoms : List Atom) :
    Except Exc (List (List Atom)) :=
  ((splitByVisualBounds atoms).mapM (groupParts env opts embed)).map List.flatten

variable {env opts} {embed : List String → List (List ℚ)} {kbId docId : String}
  {descriptions : OrderedDict String AtomDescription}

/-- A visual group becomes the chunks of its lists of atoms. -/
theorem chunkGroup_eq_ok_iff {group : List Atom} {chunks : List Chunk} :
    chunkGroup env opts embed kbId docId descriptions group = .ok chunks ↔
      ∃ parts, groupParts env opts embed group = .ok parts ∧
        parts.mapM (assembleChunk env opts kbId docId descriptions) = .ok chunks := by
  unfold chunkGroup groupParts
  dsimp only
  rw [bind_eq_ok_iff]
  by_cases hempty : (group.filter (·.type = .text)).isEmpty = true
  · simp only [hempty, if_true, Except.ok.injEq, exists_eq_left', List.mapM_map]
    constructor
    · rintro ⟨nonText, hnonText, hchunks⟩
      cases hchunks
      exact hnonText
    · intro h
      exact ⟨chunks, h, rfl⟩
  · simp only [hempty, Bool.false_eq_true, if_false, map_eq_ok_iff]
    constructor
    · rintro ⟨nonText, hnonText, hrest⟩
      obtain ⟨merged, hmerged, hrest⟩ := bind_eq_ok_iff.mp hrest
      obtain ⟨texts, htexts, hchunks⟩ := bind_eq_ok_iff.mp hrest
      cases hchunks
      refine ⟨_, ⟨merged, hmerged, rfl⟩, ?_⟩
      rw [List.mapM_append, List.mapM_map]
      exact bind_eq_ok_iff.mpr ⟨nonText, hnonText, bind_eq_ok_iff.mpr ⟨texts, htexts, rfl⟩⟩
    · rintro ⟨_, ⟨merged, hmerged, rfl⟩, hparts⟩
      rw [List.mapM_append, List.mapM_map] at hparts
      obtain ⟨nonText, hnonText, hrest⟩ := bind_eq_ok_iff.mp hparts
      obtain ⟨texts, htexts, hchunks⟩ := bind_eq_ok_iff.mp hrest
      exact ⟨nonText, hnonText, bind_eq_ok_iff.mpr ⟨merged, hmerged,
        bind_eq_ok_iff.mpr ⟨texts, htexts, hchunks⟩⟩⟩

/-- A document becomes the chunks of its lists of atoms. -/
theorem chunk_eq_ok_iff {atoms : List Atom} {chunks : List Chunk} :
    chunk env opts embed atoms kbId docId descriptions = .ok chunks ↔
      ∃ groups, finalGroups env opts embed atoms = .ok groups ∧
        groups.mapM (assembleChunk env opts kbId docId descriptions) = .ok chunks := by
  unfold chunk finalGroups
  simp only [map_eq_ok_iff, bind_eq_ok_iff,
    mapM_eq_ok_iff (f := chunkGroup env opts embed kbId docId descriptions),
    mapM_eq_ok_iff (f := groupParts env opts embed), chunkGroup_eq_ok_iff, forall₂_exists_iff]
  constructor
  · rintro ⟨css, ⟨partss, hpartss, hcss⟩, hchunks⟩
    cases hchunks
    exact ⟨partss.flatten, ⟨partss, hpartss, rfl⟩, mapM_flatten_eq_ok_iff.mpr ⟨css, hcss, rfl⟩⟩
  · rintro ⟨_, ⟨partss, hpartss, rfl⟩, hchunks⟩
    obtain ⟨css, hcss, rfl⟩ := mapM_flatten_eq_ok_iff.mp hchunks
    exact ⟨css, ⟨partss, hpartss, hcss⟩, rfl⟩

end ChunkGroups

/-! ## Visual bounds -/

/-- No hard boundary lies between neighbours. -/
def Unbroken (atoms : List Atom) : Prop :=
  atoms.IsChain fun prev curr => isHardBoundary prev curr = false

theorem flatten_splitFrom (prev : Atom) (current atoms : List Atom) :
    (splitFrom prev current atoms).flatten = current ++ atoms := by
  induction atoms generalizing prev current with
  | nil => simp [splitFrom]
  | cons atom atoms ih =>
    unfold splitFrom
    split_ifs <;> simp [ih]

theorem flatten_splitByVisualBounds (atoms : List Atom) :
    (splitByVisualBounds atoms).flatten = atoms := by
  cases atoms with
  | nil => rfl
  | cons atom atoms => exact flatten_splitFrom atom [atom] atoms

theorem unbroken_of_mem_splitFrom {prev : Atom} (current : List Atom) {atoms group : List Atom}
    (hc : Unbroken (current ++ [prev])) (h : group ∈ splitFrom prev (current ++ [prev]) atoms) :
    Unbroken group := by
  induction atoms generalizing prev current with
  | nil =>
    obtain rfl := List.mem_singleton.mp h
    exact hc
  | cons atom atoms ih =>
    unfold splitFrom at h
    split_ifs at h with hbound
    · rcases List.mem_cons.mp h with rfl | h
      · exact hc
      · exact ih [] (List.isChain_singleton atom) h
    · refine ih (current ++ [prev]) ?_ h
      refine List.isChain_append.mpr ⟨hc, List.isChain_singleton atom, fun a ha b hb => ?_⟩
      obtain rfl : prev = a := by simpa using ha
      obtain rfl : atom = b := by simpa using hb
      exact Bool.eq_false_iff.mpr hbound

/-- Inside a visual group there is no hard boundary. -/
theorem unbroken_of_mem_splitByVisualBounds {atoms group : List Atom}
    (h : group ∈ splitByVisualBounds atoms) : Unbroken group := by
  cases atoms with
  | nil => cases h
  | cons atom atoms =>
    exact unbroken_of_mem_splitFrom [] (List.isChain_singleton atom) h

/-- An unbroken segment does not reach over a hard boundary. -/
theorem infix_of_unbroken {front back seg : List Atom} {prev atom : Atom}
    (hbound : isHardBoundary prev atom = true) (hseg : Unbroken seg)
    (h : seg <:+: (front ++ [prev]) ++ atom :: back) :
    seg <:+: front ++ [prev] ∨ seg <:+: atom :: back := by
  obtain ⟨before, after, heq⟩ := h
  rw [List.append_assoc] at heq
  rcases List.append_eq_append_iff.mp heq with ⟨rest, hfront, hrest⟩ | ⟨rest, hbefore, hrest⟩
  · rcases List.append_eq_append_iff.mp hrest with ⟨tail, hsplit, htail⟩ | ⟨tail, hsplit, htail⟩
    · exact Or.inl ⟨before, tail, by rw [hfront, hsplit, List.append_assoc]⟩
    · cases tail with
      | nil => exact Or.inl ⟨before, [], by rw [hfront, hsplit]; simp⟩
      | cons x tail =>
        obtain ⟨rfl, hback⟩ := List.cons.inj htail
        rcases List.eq_nil_or_concat rest with rfl | ⟨init, last, rfl⟩
        · exact Or.inr ⟨[], after, by rw [hsplit, hback]; rfl⟩
        · -- the segment has both sides of the boundary
          exfalso
          rw [List.concat_eq_append] at hsplit hfront
          have hlast : last = prev := by
            have := congrArg List.getLast? hfront
            simpa using this.symm
          rw [hsplit, Unbroken, List.isChain_append] at hseg
          have := hseg.2.2 last (by simp) atom (by simp)
          rw [hlast, hbound] at this
          cases this
  · exact Or.inr ⟨rest, after, by rw [hrest, List.append_assoc]⟩

theorem exists_mem_splitFrom_of_infix {prev : Atom} (current : List Atom) {atoms seg : List Atom}
    (hseg : Unbroken seg) (h : seg <:+: (current ++ [prev]) ++ atoms) :
    ∃ group ∈ splitFrom prev (current ++ [prev]) atoms, seg <:+: group := by
  induction atoms generalizing prev current with
  | nil => exact ⟨_, List.mem_singleton_self _, by simpa using h⟩
  | cons atom atoms ih =>
    unfold splitFrom
    split_ifs with hbound
    · rcases infix_of_unbroken hbound hseg h with h | h
      · exact ⟨_, List.mem_cons_self, h⟩
      · obtain ⟨group, hmem, hin⟩ := ih [] h
        exact ⟨group, List.mem_cons_of_mem _ hmem, hin⟩
    · exact ih (current ++ [prev]) (by simpa using h)

/-- Every unbroken segment lies in one visual group. -/
theorem exists_mem_splitByVisualBounds_of_infix {atoms seg : List Atom} (hne : seg ≠ [])
    (hseg : Unbroken seg) (h : seg <:+: atoms) :
    ∃ group ∈ splitByVisualBounds atoms, seg <:+: group := by
  cases atoms with
  | nil => exact absurd (List.infix_nil.mp h) hne
  | cons atom atoms => exact exists_mem_splitFrom_of_infix [] hseg h

theorem type_of_not_isHardBoundary {prev curr : Atom} (h : isHardBoundary prev curr = false) :
    curr.type = .text := by
  simp only [isHardBoundary, Bool.or_eq_false_iff, bne_eq_false_iff_eq] at h
  exact h.2

/-- A non-text atom can only stand at the head of a visual group. -/
theorem type_of_mem_tail {head : Atom} {tail : List Atom} (h : Unbroken (head :: tail)) :
    ∀ atom ∈ tail, atom.type = .text := by
  induction tail generalizing head with
  | nil => exact fun _ h => absurd h List.not_mem_nil
  | cons next tail ih =>
    obtain ⟨hnext, hrest⟩ := List.isChain_cons_cons.mp h
    intro atom hatom
    rcases List.mem_cons.mp hatom with rfl | hatom
    · exact type_of_not_isHardBoundary hnext
    · exact ih hrest atom hatom

/-- Non-text atoms first and text atoms behind them: that is the order they stand in. -/
theorem filter_append_filter_of_unbroken {group : List Atom} (h : Unbroken group) :
    group.filter (·.type ≠ .text) ++ group.filter (·.type = .text) = group := by
  cases group with
  | nil => rfl
  | cons head tail =>
    have htail := type_of_mem_tail h
    have htext : tail.filter (·.type = .text) = tail :=
      List.filter_eq_self.mpr fun atom hatom => by simpa using htail atom hatom
    by_cases hhead : head.type = .text
    · simpa [hhead, htext] using htail
    · simpa [hhead, htext] using htail

/-! ## Merges -/

section Merges

variable {env : ChunkerEnv} {opts : ChunkingOptions}

theorem flatten_mergeShortFrom (minTokens : ℕ) (last : List Atom) (groups : List (List Atom)) :
    (mergeShortFrom env minTokens last groups).flatten = last ++ groups.flatten := by
  induction groups generalizing last with
  | nil => simp [mergeShortFrom]
  | cons group groups ih =>
    unfold mergeShortFrom
    split_ifs <;> simp [ih]

theorem flatten_mergeShort (groups : List (List Atom)) (minTokens : ℕ) :
    (mergeShort env groups minTokens).flatten = groups.flatten := by
  cases groups with
  | nil => rfl
  | cons group groups => exact flatten_mergeShortFrom minTokens group groups

theorem flatten_of_mergeFrom {current atoms : List Atom} {currentTokens : ℕ} {prev : List ℚ}
    {vectors : List (List ℚ)} {groups : List (List Atom)}
    (h : mergeFrom env opts current currentTokens prev atoms vectors = .ok groups) :
    groups.flatten = current ++ atoms := by
  induction atoms generalizing current currentTokens prev vectors groups with
  | nil =>
    cases h
    simp
  | cons atom atoms ih =>
    cases vectors with
    | nil => cases h
    | cons vector vectors =>
      unfold mergeFrom at h
      split_ifs at h
      · obtain ⟨rest, hrest, rfl⟩ := map_eq_ok_iff.mp h
        simp [ih hrest]
      · simp [ih h]

variable (env opts) in
/-- The soft merge by itself, before short groups are merged. -/
def softMerge (textAtoms : List Atom) (vectors : List (List ℚ)) :
    Except Exc (List (List Atom)) :=
  match textAtoms, vectors with
  | [], _ => .ok []
  | [atom], _ => .ok [[atom]]
  | _ :: _ :: _, [] => .error (.foreign "list index out of range")
  | atom :: atoms, vector :: vectors =>
    mergeFrom env opts [atom] (atomTokens env atom) vector atoms vectors

theorem mergeTextAtoms_eq (textAtoms : List Atom) (vectors : List (List ℚ)) :
    mergeTextAtoms env opts textAtoms vectors =
      (softMerge env opts textAtoms vectors).map fun groups =>
        if opts.mergeShortChunks then mergeShort env groups opts.minTokens else groups := rfl

theorem flatten_of_softMerge {textAtoms : List Atom} {vectors : List (List ℚ)}
    {groups : List (List Atom)} (h : softMerge env opts textAtoms vectors = .ok groups) :
    groups.flatten = textAtoms := by
  unfold softMerge at h
  split at h
  · cases h
    rfl
  · cases h
    rfl
  · cases h
  · exact flatten_of_mergeFrom h

/-- Merging keeps the text atoms in order. -/
theorem flatten_of_mergeTextAtoms {textAtoms : List Atom} {vectors : List (List ℚ)}
    {groups : List (List Atom)} (h : mergeTextAtoms env opts textAtoms vectors = .ok groups) :
    groups.flatten = textAtoms := by
  rw [mergeTextAtoms_eq] at h
  obtain ⟨softs, hsofts, rfl⟩ := map_eq_ok_iff.mp h
  split_ifs
  · rw [flatten_mergeShort, flatten_of_softMerge hsofts]
  · exact flatten_of_softMerge hsofts

end Merges

/-! ## Overlap -/

section Overlap

variable {env : ChunkerEnv} {opts : ChunkingOptions}

variable (env) in
/-- `part` is `own` behind copies of sentences of `sources`. -/
def Extends (sources own part : List Atom) : Prop :=
  ∃ copies, part = copies ++ own ∧
    ∀ copy ∈ copies, ∃ atom ∈ sources, ∃ sentence, copy = overlapAtom env atom sentence

theorem mem_collectTail {targetTokens total : ℕ} {collected : List Atom}
    {sentences : List (Atom × String)} {copy : Atom}
    (h : copy ∈ collectTail env targetTokens collected total sentences) :
    copy ∈ collected ∨ ∃ e ∈ sentences, copy = overlapAtom env e.1 e.2 := by
  induction sentences generalizing collected total with
  | nil => exact Or.inl h
  | cons e sentences ih =>
    unfold collectTail at h
    split_ifs at h
    · exact Or.inl h
    · rcases ih h with h | ⟨e', he', rfl⟩
      · rcases List.mem_cons.mp h with rfl | h
        · exact Or.inr ⟨e, List.mem_cons_self, rfl⟩
        · exact Or.inl h
      · exact Or.inr ⟨e', List.mem_cons_of_mem e he', rfl⟩

theorem mem_extractTailSentences {atoms : List Atom} {targetTokens : ℕ} {copy : Atom}
    (h : copy ∈ extractTailSentences env atoms targetTokens) :
    ∃ atom ∈ atoms, ∃ sentence, copy = overlapAtom env atom sentence := by
  rcases mem_collectTail h with h | ⟨e, he, rfl⟩
  · exact absurd h List.not_mem_nil
  · obtain ⟨atom, hatom, he⟩ := List.mem_flatMap.mp he
    obtain ⟨sentence, _, rfl⟩ := List.mem_map.mp he
    exact ⟨atom, List.mem_reverse.mp hatom, sentence, rfl⟩

theorem extends_overlapFrom {overlapTokens : ℕ} {sources prev : List Atom}
    {groups : List (List Atom)} (hprev : ∀ atom ∈ prev, atom ∈ sources)
    (hgroups : ∀ group ∈ groups, ∀ atom ∈ group, atom ∈ sources) :
    List.Forall₂ (Extends env sources) groups (overlapFrom env overlapTokens prev groups) := by
  induction groups generalizing prev with
  | nil => exact .nil
  | cons group groups ih =>
    refine .cons ⟨_, rfl, fun copy hcopy => ?_⟩ (ih (hgroups group List.mem_cons_self)
      fun g hg => hgroups g (List.mem_cons_of_mem group hg))
    obtain ⟨atom, hatom, hsentence⟩ := mem_extractTailSentences hcopy
    exact ⟨atom, hprev atom hatom, hsentence⟩

/-- The overlap only puts copies in front of the groups. -/
theorem extends_applyOverlap (groups : List (List Atom)) :
    List.Forall₂ (Extends env groups.flatten) groups (applyOverlap env opts groups) := by
  cases groups with
  | nil => exact .nil
  | cons group groups =>
    refine .cons ⟨[], rfl, fun _ h => absurd h List.not_mem_nil⟩ (extends_overlapFrom ?_ ?_)
    · exact fun atom hatom => List.mem_flatten_of_mem List.mem_cons_self hatom
    · exact fun g hg atom hatom => List.mem_flatten_of_mem (List.mem_cons_of_mem group hg) hatom

end Overlap

end Ragx
