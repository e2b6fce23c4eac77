import Ragx.ChunkPartition

/-!
# How large merged chunks get

The soft merge keeps the sum of a group within the limit. The merge of short groups
does not look at the limit, and neither of them counts the newlines between atoms.
-/
namespace Ragx

/-- One of two opposite vectors. -/
def unitVector (positive : Bool) : List ℚ := [if positive then 1 else -1, 0]

/-- What the token counter and the cosine promise: a text that is not empty has a token, a
newline between two texts costs at most `newline`, and the cosines of two opposite unit
vectors are exact. -/
structure ChunkerEnv.Lawful (env : ChunkerEnv) (newline : ℕ) : Prop where
  one_le : ∀ text, text ≠ "" → 1 ≤ env.countTokens text
  join_le : ∀ a b,
    env.countTokens (a ++ "\n" ++ b) ≤ env.countTokens a + newline + env.countTokens b
  cosine_unit : ∀ a b, env.cosine (unitVector a) (unitVector b) = if a = b then 1 else -1

section ChunkSizes

variable (env : ChunkerEnv) (opts : ChunkingOptions)

/-- The tokens of the atoms one by one. -/
def groupTokens (atoms : List Atom) : ℕ := (atoms.map (atomTokens env)).sum

/-- The text of a chunk of text atoms without a context line. -/
def joinedText (atoms : List Atom) : String := "\n".intercalate (atoms.map (·.text.getD ""))

/-- A stretch `head ++ shorts` of a visual group that merging can make one group: a head
within the limit and short atoms behind it. The stretch begins the visual group or its head
is not short, and what follows it is not short either. -/
def MergedRun (before head shorts after : List Atom) : Prop :=
  head ≠ [] ∧ groupTokens env head ≤ opts.maxTokens ∧
    if opts.mergeShortChunks then
      (∀ atom ∈ shorts, atomTokens env atom < opts.minTokens) ∧
        (before = [] ∨ opts.minTokens ≤ groupTokens env head) ∧
        (after = [] ∨ ∃ next, next <+: after ∧ opts.minTokens ≤ groupTokens env next ∧
          groupTokens env next ≤ opts.maxTokens)
    else shorts = []

/-- The hard cap, against the tokens of the atoms and of the newlines between them. -/
def OverBudget (newline : ℕ) (atoms : List Atom) : Prop :=
  (opts.maxTokens : ℚ) * (6 / 5) < (groupTokens env atoms + newline * (atoms.length - 1) : ℕ)

/-- A run over the budget still counts within the cap when it is joined. -/
def RunsFit (newline : ℕ) (atoms : List Atom) : Prop :=
  ∀ group ∈ splitByVisualBounds atoms, ∀ before head shorts after,
    group = before ++ (head ++ shorts) ++ after → MergedRun env opts before head shorts after →
      OverBudget env opts newline (head ++ shorts) →
        (env.countTokens (joinedText (head ++ shorts)) : ℚ) ≤ opts.maxTokens * (6 / 5)

def raisedClass : Except Exc (List Chunk) → Option ExcClass
  | .error e => some e.cls
  | .ok _ => none

/-- Chunking does not give up on a size, and no chunk is over the hard cap. -/
def SizesHeld (result : Except Exc (List Chunk)) : Prop :=
  raisedClass result ≠ some .chunkTooLarge ∧
    ∀ chunks, result = .ok chunks → ∀ c ∈ chunks, (c.tokenCount : ℚ) ≤ opts.maxTokens * (6 / 5)

variable {env opts} {newline : ℕ}

@[simp] theorem groupTokens_nil : groupTokens env [] = 0 := rfl

@[simp] theorem groupTokens_cons (atom : Atom) (atoms : List Atom) :
    groupTokens env (atom :: atoms) = atomTokens env atom + groupTokens env atoms := rfl

@[simp] theorem groupTokens_append (front back : List Atom) :
    groupTokens env (front ++ back) = groupTokens env front + groupTokens env back := by
  simp [groupTokens]

theorem atomTokens_le_groupTokens {atom : Atom} {atoms : List Atom} (h : atom ∈ atoms) :
    atomTokens env atom ≤ groupTokens env atoms := by
  obtain ⟨front, back, rfl⟩ := List.append_of_mem h
  simp only [groupTokens_append, groupTokens_cons]
  omega

/-! ## Budgets -/

theorem countTokens_joinedText_le (hlaw : env.Lawful newline) {atoms : List Atom}
    (hne : atoms ≠ []) :
    env.countTokens (joinedText atoms) ≤ groupTokens env atoms + newline * (atoms.length - 1) := by
  induction atoms with
  | nil => exact absurd rfl hne
  | cons atom atoms ih =>
    cases atoms with
    | nil => simp [joinedText, atomTokens]
    | cons next atoms =>
      have hrest := ih (List.cons_ne_nil next atoms)
      have hjoin := hlaw.join_le (atom.text.getD "") (joinedText (next :: atoms))
      have htext : joinedText (atom :: next :: atoms) =
          atom.text.getD "" ++ "\n" ++ joinedText (next :: atoms) := by
        simp only [joinedText, List.map_cons, String.intercalate_cons_cons]
      rw [htext]
      simp only [List.length_cons, Nat.add_sub_cancel, groupTokens_cons] at hrest ⊢
      have hone : newline * (atoms.length + 1) = newline * atoms.length + newline := rfl
      have hfirst : atomTokens env atom = env.countTokens (atom.text.getD "") := rfl
      omega

theorem joined_le_of_runsFit (hlaw : env.Lawful newline) {atoms group : List Atom}
    (hfit : RunsFit env opts newline atoms) (hgroup : group ∈ splitByVisualBounds atoms)
    {before head shorts after : List Atom} (heq : group = before ++ (head ++ shorts) ++ after)
    (hrun : MergedRun env opts before head shorts after) :
    (env.countTokens (joinedText (head ++ shorts)) : ℚ) ≤ opts.maxTokens * (6 / 5) := by
  by_cases hover : OverBudget env opts newline (head ++ shorts)
  · exact hfit group hgroup before head shorts after heq hrun hover
  · have hne : head ++ shorts ≠ [] := fun h => hrun.1 (List.append_eq_nil_iff.mp h).1
    have hcount := countTokens_joinedText_le hlaw hne
    exact le_trans (Nat.cast_le.mpr hcount) (not_lt.mp hover)

/-! ## What merging can build -/

/-- The soft merge makes groups within the limit. -/
def Small (env : ChunkerEnv) (opts : ChunkingOptions) (group : List Atom) : Prop :=
  group ≠ [] ∧ groupTokens env group ≤ opts.maxTokens

theorem small_of_mergeFrom (current : List Atom) {atoms : List Atom} {prev : List ℚ}
    {vectors : List (List ℚ)} {groups : List (List Atom)}
    (hatoms : ∀ atom ∈ atoms, atomTokens env atom ≤ opts.maxTokens)
    (hcurrent : Small env opts current)
    (h : mergeFrom env opts current (groupTokens env current) prev atoms vectors = .ok groups) :
    ∀ group ∈ groups, Small env opts group := by
  induction atoms generalizing current prev vectors groups with
  | nil =>
    cases h
    simpa using hcurrent
  | cons atom atoms ih =>
    cases vectors with
    | nil => cases h
    | cons vector vectors =>
      have hrest : ∀ atom ∈ atoms, atomTokens env atom ≤ opts.maxTokens :=
        fun a ha => hatoms a (List.mem_cons_of_mem atom ha)
      unfold mergeFrom at h
      split_ifs at h with _ hsplit
      · obtain ⟨rest, hrestok, rfl⟩ := map_eq_ok_iff.mp h
        have hsingle : Small env opts [atom] := by
          refine ⟨List.cons_ne_nil atom [], ?_⟩
          simpa using hatoms atom List.mem_cons_self
        have hih := ih [atom] hrest hsingle (by simpa using hrestok)
        intro group hgroup
        rcases List.mem_cons.mp hgroup with rfl | hgroup
        · exact hcurrent
        · exact hih group hgroup
      · have hsum : groupTokens env current + atomTokens env atom ≤ opts.maxTokens := by
          simp only [shouldSplit, Bool.or_eq_true, decide_eq_true_eq, not_or, not_lt] at hsplit
          exact hsplit.1.1
        have hgrown : Small env opts (current ++ [atom]) := ⟨by simp, by simpa using hsum⟩
        have htokens : groupTokens env (current ++ [atom]) =
            groupTokens env current + atomTokens env atom := by simp
        exact ih (current ++ [atom]) hrest hgrown (htokens ▸ h)

theorem softMerge_cons (atom : Atom) (atoms : List Atom) (vector : List ℚ)
    (vectors : List (List ℚ)) :
    softMerge env opts (atom :: atoms) (vector :: vectors) =
      mergeFrom env opts [atom] (atomTokens env atom) vector atoms vectors := by
  cases atoms <;> rfl

theorem small_of_softMerge {atoms : List Atom} {vectors : List (List ℚ)}
    {groups : List (List Atom)}
    (hatoms : ∀ atom ∈ atoms, atomTokens env atom ≤ opts.maxTokens)
    (h : softMerge env opts atoms vectors = .ok groups) :
    ∀ group ∈ groups, Small env opts group := by
  cases atoms with
  | nil =>
    cases h
    exact fun _ h => absurd h List.not_mem_nil
  | cons atom atoms =>
    have hsingle : Small env opts [atom] := by
      refine ⟨List.cons_ne_nil atom [], ?_⟩
      simpa using hatoms atom List.mem_cons_self
    cases atoms with
    | nil =>
      cases h
      simpa using hsingle
    | cons next atoms =>
      cases vectors with
      | nil => cases h
      | cons vector vectors =>
        have hfrom : mergeFrom env opts [atom] (groupTokens env [atom]) vector (next :: atoms)
            vectors = .ok groups := by simpa [softMerge_cons] using h
        exact small_of_mergeFrom [atom] (fun a ha => hatoms a (List.mem_cons_of_mem atom ha))
          hsingle hfrom

/-- The merge of short groups makes runs of groups within the limit. -/
theorem exists_run_of_mem_mergeShortFrom (hon : opts.mergeShortChunks = true)
    (before head shorts : List Atom) {groups : List (List Atom)} {out : List Atom}
    (hhead : Small env opts head) (hshorts : ∀ atom ∈ shorts, atomTokens env atom < opts.minTokens)
    (hbefore : before = [] ∨ opts.minTokens ≤ groupTokens env head)
    (hgroups : ∀ group ∈ groups, Small env opts group)
    (h : out ∈ mergeShortFrom env opts.minTokens (head ++ shorts) groups) :
    ∃ before' head' shorts' after, out = head' ++ shorts' ∧
      before ++ (head ++ shorts) ++ groups.flatten = before' ++ (head' ++ shorts') ++ after ∧
      MergedRun env opts before' head' shorts' after := by
  induction groups generalizing before head shorts with
  | nil =>
    obtain rfl := List.mem_singleton.mp h
    refine ⟨before, head, shorts, [], rfl, by simp, hhead.1, hhead.2, ?_⟩
    rw [if_pos hon]
    exact ⟨hshorts, hbefore, Or.inl rfl⟩
  | cons group groups ih =>
    have hgroup := hgroups group List.mem_cons_self
    have hrest : ∀ g ∈ groups, Small env opts g := fun g hg => hgroups g (List.mem_cons_of_mem _ hg)
    unfold mergeShortFrom at h
    split_ifs at h with hshort
    · have hmore : ∀ atom ∈ shorts ++ group, atomTokens env atom < opts.minTokens := by
        intro atom hatom
        rcases List.mem_append.mp hatom with hatom | hatom
        · exact hshorts atom hatom
        · exact lt_of_le_of_lt (atomTokens_le_groupTokens hatom) hshort
      obtain ⟨before', head', shorts', after, hout, heq, hrun⟩ :=
        ih before head (shorts ++ group) hhead hmore hbefore hrest (by simpa using h)
      exact ⟨before', head', shorts', after, hout, by simpa using heq, hrun⟩
    · have hlong : opts.minTokens ≤ groupTokens env group := not_lt.mp hshort
      rcases List.mem_cons.mp h with rfl | h
      · refine ⟨before, head, shorts, group ++ groups.flatten, rfl, by simp, hhead.1, hhead.2, ?_⟩
        rw [if_pos hon]
        exact ⟨hshorts, hbefore,
          Or.inr ⟨group, List.prefix_append group _, hlong, hgroup.2⟩⟩
      · obtain ⟨before', head', shorts', after, hout, heq, hrun⟩ :=
          ih (before ++ (head ++ shorts)) group [] hgroup (fun _ h => absurd h List.not_mem_nil)
            (Or.inr hlong) hrest (by simpa using h)
        exact ⟨before', head', shorts', after, hout, by simpa using heq, hrun⟩

/-- Every group that merging makes is such a run. -/
theorem exists_run_of_mem_merge {group out : List Atom} {vectors : List (List ℚ)}
    {merged : List (List Atom)} (hatoms : ∀ atom ∈ group, atomTokens env atom ≤ opts.maxTokens)
    (h : mergeTextAtoms env opts group vectors = .ok merged) (hout : out ∈ merged) :
    ∃ before head shorts after, out = head ++ shorts ∧
      group = before ++ (head ++ shorts) ++ after ∧
        MergedRun env opts before head shorts after := by
  rw [mergeTextAtoms_eq] at h
  obtain ⟨softs, hsofts, rfl⟩ := map_eq_ok_iff.mp h
  have hsmall := small_of_softMerge hatoms hsofts
  have hflat := flatten_of_softMerge hsofts
  split_ifs at hout with hon
  · cases softs with
    | nil => cases hout
    | cons first softs =>
      obtain ⟨before, head, shorts, after, hsplit, heq, hrun⟩ :=
        exists_run_of_mem_mergeShortFrom hon [] first [] (hsmall first List.mem_cons_self)
          (fun _ h => absurd h List.not_mem_nil) (Or.inl rfl)
          (fun g hg => hsmall g (List.mem_cons_of_mem first hg)) (by simpa [mergeShort] using hout)
      exact ⟨before, head, shorts, after, hsplit, by rw [← hflat]; simpa using heq, hrun⟩
  · obtain ⟨front, back, rfl⟩ := List.append_of_mem hout
    refine ⟨front.flatten, out, [], back.flatten, by simp, ?_, (hsmall out hout).1,
      (hsmall out hout).2, ?_⟩
    · rw [← hflat]
      simp
    · rw [if_neg hon]

/-! ## Every run can be built -/

/-- Vectors that turn round at the start of every part. -/
def turningVectors (positive : Bool) : List (List Atom) → List (List ℚ)
  | [] => []
  | part :: parts => part.map (fun _ => unitVector positive) ++ turningVectors (!positive) parts

theorem length_turningVectors (positive : Bool) (parts : List (List Atom)) :
    (turningVectors positive parts).length = parts.flatten.length := by
  induction parts generalizing positive with
  | nil => rfl
  | cons part parts ih => simp [turningVectors, ih]

theorem length_of_mem_turningVectors {positive : Bool} {parts : List (List Atom)} {vector : List ℚ}
    (h : vector ∈ turningVectors positive parts) : vector.length = 2 := by
  induction parts generalizing positive with
  | nil => cases h
  | cons part parts ih =>
    rcases List.mem_append.mp h with h | h
    · obtain ⟨_, _, rfl⟩ := List.mem_map.mp h
      rfl
    · exact ih h

theorem mergeFrom_same (hlaw : env.Lawful newline) (positive : Bool)
    (current part atoms : List Atom)
    (currentTokens : ℕ) (vectors : List (List ℚ))
    (hsum : currentTokens + groupTokens env part ≤ opts.maxTokens) :
    mergeFrom env opts current currentTokens (unitVector positive) (part ++ atoms)
        (part.map (fun _ => unitVector positive) ++ vectors) =
      mergeFrom env opts (current ++ part) (currentTokens + groupTokens env part)
        (unitVector positive) atoms vectors := by
  induction part generalizing current currentTokens with
  | nil => simp
  | cons atom part ih =>
    have hstay : shouldSplit opts currentTokens (atomTokens env atom)
        (env.cosine (unitVector positive) (unitVector positive)) = false := by
      rw [hlaw.cosine_unit, if_pos rfl]
      have hthreshold := opts.threshold_mem.2
      simp only [groupTokens_cons] at hsum
      simp only [shouldSplit, Bool.or_eq_false_iff, Bool.and_eq_false_imp, decide_eq_false_iff_not,
        not_lt]
      exact ⟨⟨by omega, fun _ => hthreshold⟩, by linarith⟩
    have hstep := ih (current ++ [atom]) (currentTokens + atomTokens env atom)
      (by simpa [add_assoc] using hsum)
    simp only [List.map_cons, List.cons_append, mergeFrom, ne_eq, not_true_eq_false, if_false,
      hstay, Bool.false_eq_true]
    simpa [add_assoc] using hstep

theorem mergeFrom_turning (hlaw : env.Lawful newline) (positive : Bool) (current : List Atom)
    (currentTokens : ℕ) {parts : List (List Atom)} (hparts : ∀ part ∈ parts, Small env opts part) :
    mergeFrom env opts current currentTokens (unitVector positive) parts.flatten
      (turningVectors (!positive) parts) = .ok (current :: parts) := by
  induction parts generalizing positive current currentTokens with
  | nil => rfl
  | cons part parts ih =>
    obtain ⟨hne, hsum⟩ := hparts part List.mem_cons_self
    obtain ⟨atom, part, rfl⟩ := List.exists_cons_of_ne_nil hne
    have hturn : shouldSplit opts currentTokens (atomTokens env atom)
        (env.cosine (unitVector positive) (unitVector !positive)) = true := by
      rw [hlaw.cosine_unit, if_neg (by simp)]
      have hthreshold := opts.threshold_mem.1
      simp only [shouldSplit, Bool.or_eq_true, decide_eq_true_eq]
      exact Or.inr (by linarith)
    have hsame := mergeFrom_same hlaw (!positive) [atom] part parts.flatten (atomTokens env atom)
      (turningVectors (!!positive) parts) hsum
    have hrest := ih (!positive) ([atom] ++ part) (atomTokens env atom + groupTokens env part)
      fun p hp => hparts p (List.mem_cons_of_mem _ hp)
    have hlength : ¬(unitVector positive).length ≠ (unitVector !positive).length := by
      simp [unitVector]
    simp only [turningVectors, List.map_cons, List.cons_append, List.flatten_cons, mergeFrom,
      if_neg hlength, if_pos hturn]
    rw [hsame, hrest]
    rfl

theorem softMerge_turning (hlaw : env.Lawful newline) {parts : List (List Atom)}
    (hparts : ∀ part ∈ parts, Small env opts part) :
    softMerge env opts parts.flatten (turningVectors true parts) = .ok parts := by
  cases parts with
  | nil => rfl
  | cons part parts =>
    obtain ⟨hne, hsum⟩ := hparts part List.mem_cons_self
    obtain ⟨atom, part, rfl⟩ := List.exists_cons_of_ne_nil hne
    simp only [turningVectors, List.map_cons, List.cons_append, List.flatten_cons, softMerge_cons]
    rw [mergeFrom_same hlaw true [atom] part parts.flatten _ _ hsum]
    exact mergeFrom_turning hlaw true _ _ fun p hp => hparts p (List.mem_cons_of_mem _ hp)

theorem mem_mergeShortFrom_of_shorts {minTokens : ℕ} (last : List Atom)
    {shorts after : List (List Atom)} (hshorts : ∀ part ∈ shorts, groupTokens env part < minTokens)
    (hafter : ∀ part ∈ after.head?, minTokens ≤ groupTokens env part) :
    last ++ shorts.flatten ∈ mergeShortFrom env minTokens last (shorts ++ after) := by
  induction shorts generalizing last with
  | nil =>
    cases after with
    | nil => simp [mergeShortFrom]
    | cons part after =>
      have hlong : ¬(part.map (atomTokens env)).sum < minTokens := not_lt.mpr (hafter part rfl)
      simp [mergeShortFrom, if_neg hlong]
  | cons part shorts ih =>
    have hshort : (part.map (atomTokens env)).sum < minTokens := hshorts part List.mem_cons_self
    have hrest := ih (last ++ part) fun p hp => hshorts p (List.mem_cons_of_mem _ hp)
    simpa [mergeShortFrom, if_pos hshort] using hrest

theorem mem_mergeShortFrom_of_long {minTokens : ℕ} (last : List Atom) (before : List (List Atom))
    {head out : List Atom} {groups : List (List Atom)} (hlong : minTokens ≤ groupTokens env head)
    (h : out ∈ mergeShortFrom env minTokens head groups) :
    out ∈ mergeShortFrom env minTokens last (before ++ head :: groups) := by
  induction before generalizing last with
  | nil =>
    have hnot : ¬(head.map (atomTokens env)).sum < minTokens := not_lt.mpr hlong
    simpa [mergeShortFrom, if_neg hnot] using Or.inr h
  | cons part before ih =>
    rw [List.cons_append, mergeShortFrom]
    split_ifs
    · exact ih (last ++ part)
    · exact List.mem_cons_of_mem last (ih part)

theorem small_singletons {atoms : List Atom}
    (hatoms : ∀ atom ∈ atoms, atomTokens env atom ≤ opts.maxTokens) :
    ∀ part ∈ atoms.map fun atom => [atom], Small env opts part := by
  intro part hpart
  obtain ⟨atom, hatom, rfl⟩ := List.mem_map.mp hpart
  exact ⟨List.cons_ne_nil atom [], by simpa using hatoms atom hatom⟩

@[simp] theorem flatten_singletons (atoms : List Atom) :
    (atoms.map fun atom => [atom]).flatten = atoms := by
  rw [← List.flatMap_def, List.flatMap_singleton']

/-- What follows a run is in parts of which the first one is not short. -/
theorem exists_long_tail {after : List Atom}
    (hatoms : ∀ atom ∈ after, atomTokens env atom ≤ opts.maxTokens)
    (h : after = [] ∨ ∃ next, next <+: after ∧ opts.minTokens ≤ groupTokens env next ∧
      groupTokens env next ≤ opts.maxTokens) :
    ∃ tail : List (List Atom), tail.flatten = after ∧ (∀ part ∈ tail, Small env opts part) ∧
      ∀ part ∈ tail.head?, opts.minTokens ≤ groupTokens env part := by
  rcases h with rfl | ⟨next, ⟨rest, rfl⟩, hlong, hnext⟩
  · exact ⟨[], rfl, fun _ h => absurd h List.not_mem_nil, fun _ h => by cases h⟩
  · have hne : next ≠ [] := by
      rintro rfl
      exact absurd hlong (not_le.mpr opts.min_ge)
    have hrest : ∀ part ∈ rest.map fun atom => [atom], Small env opts part :=
      small_singletons fun atom hatom => hatoms atom (List.mem_append_right next hatom)
    refine ⟨next :: rest.map fun atom => [atom], by simp, ?_, fun part hpart => ?_⟩
    · exact List.forall_mem_cons.mpr ⟨⟨hne, hnext⟩, hrest⟩
    · obtain rfl : next = part := by simpa using hpart
      exact hlong

/-- Every run is a group of some merge. -/
theorem exists_merge_of_run (hlaw : env.Lawful newline) {group before head shorts after : List Atom}
    (hatoms : ∀ atom ∈ group, atomTokens env atom ≤ opts.maxTokens)
    (heq : group = before ++ (head ++ shorts) ++ after)
    (hrun : MergedRun env opts before head shorts after) :
    ∃ parts merged, parts.flatten = group ∧
      mergeTextAtoms env opts group (turningVectors true parts) = .ok merged ∧
      head ++ shorts ∈ merged := by
  subst heq
  obtain ⟨hne, hsum, hrest⟩ := hrun
  have hhead : Small env opts head := ⟨hne, hsum⟩
  obtain ⟨hmiddle, hatomsAfter⟩ := List.forall_mem_append.mp hatoms
  obtain ⟨hatomsBefore, hatomsRun⟩ := List.forall_mem_append.mp hmiddle
  have hbeforeParts := small_singletons hatomsBefore
  by_cases hon : opts.mergeShortChunks = true
  · rw [if_pos hon] at hrest
    obtain ⟨hshorts, hbefore, hafter⟩ := hrest
    obtain ⟨tail, hflat, htailsmall, htaillong⟩ := exists_long_tail hatomsAfter hafter
    have hshortparts : ∀ part ∈ shorts.map fun atom => [atom],
        groupTokens env part < opts.minTokens := by
      intro part hpart
      obtain ⟨atom, hatom, rfl⟩ := List.mem_map.mp hpart
      simpa using hshorts atom hatom
    have hmem := mem_mergeShortFrom_of_shorts head hshortparts htaillong
    rw [flatten_singletons] at hmem
    let parts :=
      (before.map fun atom => [atom]) ++ head :: ((shorts.map fun atom => [atom]) ++ tail)
    have hparts : ∀ part ∈ parts, Small env opts part := by
      have hshortsSmall := small_singletons (List.forall_mem_append.mp hatomsRun).2
      refine List.forall_mem_append.mpr ⟨hbeforeParts, List.forall_mem_cons.mpr ⟨hhead, ?_⟩⟩
      exact List.forall_mem_append.mpr ⟨hshortsSmall, htailsmall⟩
    have hgroup : parts.flatten = before ++ (head ++ shorts) ++ after := by simp [parts, hflat]
    refine ⟨parts, mergeShort env parts opts.minTokens, hgroup, ?_, ?_⟩
    · rw [mergeTextAtoms_eq, ← hgroup, softMerge_turning hlaw hparts]
      simp [Except.map, hon]
    · cases before with
      | nil => exact hmem
      | cons first before =>
        have hlong := hbefore.resolve_left (List.cons_ne_nil first before)
        exact mem_mergeShortFrom_of_long [first] _ hlong hmem
  · rw [if_neg hon] at hrest
    subst hrest
    let parts := (before.map fun atom => [atom]) ++ head :: after.map fun atom => [atom]
    have hparts : ∀ part ∈ parts, Small env opts part := by
      have hafterParts := small_singletons hatomsAfter
      exact List.forall_mem_append.mpr
        ⟨hbeforeParts, List.forall_mem_cons.mpr ⟨hhead, hafterParts⟩⟩
    have hgroup : parts.flatten = before ++ (head ++ []) ++ after := by simp [parts]
    refine ⟨parts, parts, hgroup, ?_, by simp [parts]⟩
    rw [mergeTextAtoms_eq, ← hgroup, softMerge_turning hlaw hparts]
    simp [Except.map, hon]

/-! ## Assembly -/

theorem ne_empty_of_mem_splitSentences {text sentence : String}
    (h : sentence ∈ splitSentences text) : sentence ≠ "" := by
  obtain ⟨piece, hpiece, rfl⟩ := List.mem_map.mp h
  have hstrip := (List.mem_filter.mp hpiece).2
  intro hempty
  rw [show piece = [] from String.ofList_eq_empty_iff.mp hempty] at hstrip
  cases hstrip

/-- Without room there is no overlap. -/
theorem extractTailSentences_zero (hlaw : env.Lawful newline) (atoms : List Atom) :
    extractTailSentences env atoms 0 = [] := by
  unfold extractTailSentences
  cases hsentences : atoms.reverse.flatMap fun atom =>
      (splitSentences (atom.text.getD "")).reverse.map fun sentence => (atom, sentence) with
  | nil => rfl
  | cons e rest =>
    obtain ⟨atom, _, he⟩ := List.mem_flatMap.mp (hsentences ▸ List.mem_cons_self : e ∈ _)
    obtain ⟨sentence, hmem, rfl⟩ := List.mem_map.mp he
    have hone := hlaw.one_le sentence (ne_empty_of_mem_splitSentences (List.mem_reverse.mp hmem))
    rw [collectTail, if_pos (by omega)]

theorem applyOverlap_of_zero (hlaw : env.Lawful newline) (hoverlap : opts.overlapRatio = 0)
    (groups : List (List Atom)) : applyOverlap env opts groups = groups := by
  have htail : ∀ (prev : List Atom) (groups : List (List Atom)),
      overlapFrom env 0 prev groups = groups := by
    intro prev groups
    induction groups generalizing prev with
    | nil => rfl
    | cons group groups ih => rw [overlapFrom, extractTailSentences_zero hlaw, ih, List.nil_append]
  cases groups with
  | nil => rfl
  | cons group groups => simp [applyOverlap, hoverlap, htail]

variable {kbId docId : String} {descriptions : OrderedDict String AtomDescription}

theorem text_of_textAtoms (hcontext : opts.contextPrefix = false) {atoms : List Atom}
    (htext : ∀ atom ∈ atoms, atom.type = .text) :
    "\n".intercalate (contextParts opts atoms ++ atoms.flatMap (atomParts opts descriptions)) =
      joinedText atoms := by
  have hparts : atoms.flatMap (atomParts opts descriptions) = atoms.map (·.text.getD "") := by
    rw [← List.flatMap_singleton' (atoms.map (·.text.getD "")), List.flatMap_map]
    refine List.flatMap_congr fun atom hatom => ?_
    rw [atomParts, htext atom hatom]
  rw [contextParts, hcontext, hparts]
  rfl

theorem assembleChunk_error_iff (hcontext : opts.contextPrefix = false) {atoms : List Atom}
    (htext : ∀ atom ∈ atoms, atom.type = .text) :
    (∃ e, assembleChunk env opts kbId docId descriptions atoms = .error e) ↔
      (opts.maxTokens : ℚ) * (6 / 5) < env.countTokens (joinedText atoms) := by
  unfold assembleChunk
  rw [text_of_textAtoms hcontext htext]
  dsimp only
  split_ifs with hsize <;> simp [hsize]

theorem cls_of_assembleChunk {atoms : List Atom} {e : Exc}
    (h : assembleChunk env opts kbId docId descriptions atoms = .error e) :
    e.cls = .chunkTooLarge := by
  unfold assembleChunk at h
  dsimp only at h
  split_ifs at h
  cases h
  rfl

theorem exists_of_raisedClass {result : Except Exc (List Chunk)} {cls : ExcClass}
    (h : raisedClass result = some cls) : ∃ e, result = .error e ∧ e.cls = cls := by
  cases result with
  | ok chunks => cases h
  | error e => exact ⟨e, rfl, Option.some.inj h⟩

theorem cls_of_mergeFrom {current atoms : List Atom} {currentTokens : ℕ} {prev : List ℚ}
    {vectors : List (List ℚ)} {e : Exc}
    (h : mergeFrom env opts current currentTokens prev atoms vectors = .error e) :
    e.cls = .foreign ∧
      ¬(atoms.length ≤ vectors.length ∧ ∀ v ∈ vectors, v.length = prev.length) := by
  induction atoms generalizing current currentTokens prev vectors with
  | nil => cases h
  | cons atom atoms ih =>
    cases vectors with
    | nil =>
      cases h
      exact ⟨rfl, fun hlength => absurd hlength.1 (by simp)⟩
    | cons vector vectors =>
      have hrest : ∀ {current : List Atom} {currentTokens : ℕ},
          mergeFrom env opts current currentTokens vector atoms vectors = .error e →
          e.cls = .foreign ∧ ¬((atom :: atoms).length ≤ (vector :: vectors).length ∧
            ∀ v ∈ vector :: vectors, v.length = prev.length) := by
        intro current currentTokens hrec
        obtain ⟨hcls, hnot⟩ := ih hrec
        refine ⟨hcls, fun ⟨hlength, hall⟩ => hnot ⟨by simpa using hlength, fun v hv => ?_⟩⟩
        rw [hall v (List.mem_cons_of_mem vector hv), hall vector List.mem_cons_self]
      unfold mergeFrom at h
      split_ifs at h with hlength
      · cases h
        exact ⟨rfl, fun hall => hlength (hall.2 vector List.mem_cons_self).symm⟩
      · exact hrest (map_eq_error_iff.mp h)
      · exact hrest h

/-- Merging fails only on vectors that are too few or of several lengths. -/
theorem cls_of_mergeTextAtoms {atoms : List Atom} {vectors : List (List ℚ)} {e : Exc}
    (h : mergeTextAtoms env opts atoms vectors = .error e) :
    e.cls = .foreign ∧ ¬(vectors.length = atoms.length ∧ ∀ v ∈ vectors, v.length = 2) := by
  have hsoft := map_eq_error_iff.mp ((mergeTextAtoms_eq atoms vectors).symm.trans h)
  cases atoms with
  | nil => cases hsoft
  | cons atom atoms =>
    cases vectors with
    | nil =>
      refine ⟨?_, by simp⟩
      cases atoms with
      | nil => cases hsoft
      | cons next atoms =>
        cases hsoft
        rfl
    | cons vector vectors =>
      rw [softMerge_cons] at hsoft
      obtain ⟨hcls, hnot⟩ := cls_of_mergeFrom hsoft
      refine ⟨hcls, fun ⟨hlength, hall⟩ => hnot ⟨?_, fun v hv => ?_⟩⟩
      · exact (Nat.succ.inj hlength).ge
      · rw [hall v (List.mem_cons_of_mem vector hv), hall vector List.mem_cons_self]

theorem mergeTextAtoms_nil (vectors : List (List ℚ)) :
    mergeTextAtoms env opts [] vectors = .ok [] := by
  by_cases hon : opts.mergeShortChunks = true <;>
    simp [mergeTextAtoms_eq, softMerge, Except.map, mergeShort, hon]

theorem chunkGroup_eq_of_text (hlaw : env.Lawful newline) (hoverlap : opts.overlapRatio = 0)
    {embed : List String → List (List ℚ)} {group : List Atom}
    (htext : ∀ atom ∈ group, atom.type = .text) :
    chunkGroup env opts embed kbId docId descriptions group =
      (mergeTextAtoms env opts group (embed (group.map (·.text.getD "")))).bind fun merged =>
        merged.mapM (assembleChunk env opts kbId docId descriptions) := by
  have hnone : group.filter (·.type ≠ .text) = [] :=
    List.filter_eq_nil_iff.mpr fun atom hatom => by simp [htext atom hatom]
  have hall : group.filter (·.type = .text) = group :=
    List.filter_eq_self.mpr fun atom hatom => by simp [htext atom hatom]
  unfold chunkGroup
  simp only [hnone, hall, List.mapM_nil, pure_bind, applyOverlap_of_zero hlaw hoverlap]
  cases group with
  | nil =>
    rw [mergeTextAtoms_nil]
    rfl
  | cons atom group =>
    simp only [List.isEmpty_cons, Bool.false_eq_true, if_false, List.nil_append]
    refine congrArg _ (funext fun merged => ?_)
    exact bind_pure _

theorem mem_of_mem_splitByVisualBounds {atoms group : List Atom} {atom : Atom}
    (hgroup : group ∈ splitByVisualBounds atoms) (hatom : atom ∈ group) : atom ∈ atoms := by
  rw [← flatten_splitByVisualBounds atoms]
  exact List.mem_flatten_of_mem hgroup hatom

/-- Chunking text fails in a merge or on a merged group. -/
theorem exists_of_chunk_eq_error (hlaw : env.Lawful newline) (hoverlap : opts.overlapRatio = 0)
    {embed : List String → List (List ℚ)} {atoms : List Atom} {e : Exc}
    (htext : ∀ atom ∈ atoms, atom.type = .text)
    (h : chunk env opts embed atoms kbId docId descriptions = .error e) :
    ∃ group ∈ splitByVisualBounds atoms,
      mergeTextAtoms env opts group (embed (group.map (·.text.getD ""))) = .error e ∨
      ∃ merged, mergeTextAtoms env opts group (embed (group.map (·.text.getD ""))) = .ok merged ∧
        ∃ part ∈ merged, assembleChunk env opts kbId docId descriptions part = .error e := by
  rcases bind_eq_error_iff.mp h with hgroups | ⟨_, _, hpure⟩
  · obtain ⟨group, hgroup, hstep⟩ := exists_of_mapM_eq_error hgroups
    refine ⟨group, hgroup, ?_⟩
    rw [chunkGroup_eq_of_text hlaw hoverlap fun atom hatom =>
      htext atom (mem_of_mem_splitByVisualBounds hgroup hatom)] at hstep
    rcases bind_eq_error_iff.mp hstep with hmerge | ⟨merged, hmerged, hparts⟩
    · exact Or.inl hmerge
    · exact Or.inr ⟨merged, hmerged, exists_of_mapM_eq_error hparts⟩
  · cases hpure

/-- Chunking text assembles every merged group. -/
theorem exists_assembled_of_chunk (hlaw : env.Lawful newline) (hoverlap : opts.overlapRatio = 0)
    {embed : List String → List (List ℚ)} {atoms group part : List Atom} {chunks : List Chunk}
    {merged : List (List Atom)} (htext : ∀ atom ∈ atoms, atom.type = .text)
    (h : chunk env opts embed atoms kbId docId descriptions = .ok chunks)
    (hgroup : group ∈ splitByVisualBounds atoms)
    (hmerged : mergeTextAtoms env opts group (embed (group.map (·.text.getD ""))) = .ok merged)
    (hpart : part ∈ merged) :
    ∃ c, assembleChunk env opts kbId docId descriptions part = .ok c := by
  obtain ⟨css, hcss, _⟩ := bind_eq_ok_iff.mp h
  obtain ⟨cs, _, hcs⟩ := exists_ok_of_mapM hcss hgroup
  rw [chunkGroup_eq_of_text hlaw hoverlap fun atom hatom =>
    htext atom (mem_of_mem_splitByVisualBounds hgroup hatom), hmerged] at hcs
  obtain ⟨c, _, hc⟩ := exists_ok_of_mapM hcs hpart
  exact ⟨c, hc⟩

theorem sizes_of_chunk {embed : List String → List (List ℚ)} {atoms : List Atom}
    {chunks : List Chunk} (h : chunk env opts embed atoms kbId docId descriptions = .ok chunks) :
    ∀ c ∈ chunks, (c.tokenCount : ℚ) ≤ opts.maxTokens * (6 / 5) := by
  obtain ⟨groups, _, hchunks⟩ := chunk_eq_ok_iff.mp h
  intro c hc
  obtain ⟨group, _, hgroup⟩ := exists_of_mem_mapM hchunks hc
  exact (assembleChunk_eq_ok hgroup).2.2.2

end ChunkSizes

/-- Characters count as tokens, and the dot product is the cosine of unit vectors. -/
def charCounter : ChunkerEnv where
  countTokens := String.length
  sha256 := fun _ => ""
  cosine := fun u v => (List.zipWith (· * ·) u v).sum

theorem charCounter_lawful : charCounter.Lawful 1 where
  one_le := by
    intro text hne
    have hlength : text.length ≠ 0 := fun h => hne (String.length_eq_zero_iff.mp h)
    exact Nat.one_le_iff_ne_zero.mpr hlength
  join_le := by
    intro a b
    show (a ++ "\n" ++ b).length ≤ a.length + 1 + b.length
    rw [String.length_append, String.length_append]
    exact le_rfl
  cosine_unit := by decide +kernel

/-- Groups of at most 16 tokens, each of them short. -/
def tightOptions : ChunkingOptions :=
  { (default : ChunkingOptions) with
    targetTokens := 16
    maxTokens := 16
    minTokens := 16
    overlapRatio := 0
    contextPrefix := false
    target_ge := le_rfl
    max_ge := le_rfl
    min_ge := Nat.one_le_ofNat
    overlap_mem := ⟨le_rfl, by norm_num⟩ }

def dissimilarAtoms : List Atom := [
  { atomId := "doc_1#0000", docId := "doc_1", type := .text, text := some "aardvark" },
  { atomId := "doc_1#0001", docId := "doc_1", type := .text, text := some "bassoons" },
  { atomId := "doc_1#0002", docId := "doc_1", type := .text, text := some "cyclones" }]

end Ragx
