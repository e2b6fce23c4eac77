import Ragx.TrailingBlanks

/-!
# What the atoms of a section are made of

The paragraphs of a section are merged into atoms, and an oversized paragraph is cut into
sentences that are merged in the same way. Whatever the mixture, the atoms hold the visible
characters of the section in order, and more than one piece goes into an atom only within the
limit.
-/
namespace Ragx

/-- The characters of a text that are not white space. -/
def visibleChars (text : List Char) : List Char := text.filter (!isWhitespace ·)

theorem visibleChars_append (front back : List Char) :
    visibleChars (front ++ back) = visibleChars front ++ visibleChars back := List.filter_append ..

theorem visibleChars_eq_nil_iff {text : List Char} :
    visibleChars text = [] ↔ isBlank text = true := by
  rw [visibleChars, List.filter_eq_nil_iff, isBlank, List.all_eq_true]
  simp

theorem visibleChars_cons_of_isWhitespace {c : Char} (hc : isWhitespace c = true)
    (text : List Char) : visibleChars (c :: text) = visibleChars text := by
  simp [visibleChars, hc]

theorem visibleChars_dropWhile (text : List Char) :
    visibleChars (text.dropWhile isWhitespace) = visibleChars text := by
  induction text with
  | nil => rfl
  | cons c text ih =>
    by_cases hc : isWhitespace c = true
    · rw [List.dropWhile_cons_of_pos hc, ih, visibleChars_cons_of_isWhitespace hc]
    · rw [List.dropWhile_cons_of_neg hc]

theorem visibleChars_reverse (text : List Char) :
    visibleChars text.reverse = (visibleChars text).reverse := List.filter_reverse ..

theorem visibleChars_strip (text : List Char) : visibleChars (strip text) = visibleChars text := by
  rw [strip, visibleChars_reverse, visibleChars_dropWhile, visibleChars_reverse,
    visibleChars_dropWhile, List.reverse_reverse]

theorem visibleChars_flatten (pieces : List (List Char)) :
    visibleChars pieces.flatten = pieces.flatMap visibleChars := by
  rw [visibleChars, List.filter_flatten]
  rfl

/-- Blanks between the parts do not show. -/
theorem visibleChars_intercalate {sep : List Char} (hsep : isBlank sep = true)
    (parts : List (List Char)) :
    visibleChars (sep.intercalate parts) = parts.flatMap visibleChars := by
  induction parts with
  | nil => rfl
  | cons part parts ih =>
    cases parts with
    | nil => simp [List.intercalate_singleton]
    | cons next parts =>
      rw [List.intercalate_cons_cons, visibleChars_append, visibleChars_append, ih,
        visibleChars_eq_nil_iff.mpr hsep, List.append_nil]
      rfl

/-! ## Paragraphs and sentences -/

theorem paragraphBreak_le {rest : List Char} {length : ℕ} (h : paragraphBreak rest = some length) :
    length ≤ (rest.takeWhile isWhitespace).length := by
  unfold paragraphBreak at h
  dsimp only at h
  split_ifs at h
  cases h
  exact Nat.sub_le _ _

/-- A cut between paragraphs takes nothing but white space. -/
theorem visibleChars_splitParagraphs {skip : ℕ} {text : List Char}
    (hskip : skip ≤ (text.takeWhile isWhitespace).length) (piece : List Char) :
    visibleChars (splitParagraphs skip piece text).flatten =
      visibleChars piece ++ visibleChars text := by
  induction text generalizing skip piece with
  | nil => simp [splitParagraphs, visibleChars]
  | cons c rest ih =>
    cases skip with
    | succ skip =>
      have hc : isWhitespace c = true := by
        by_contra hc
        rw [List.takeWhile_cons_of_neg hc] at hskip
        exact absurd hskip (Nat.not_succ_le_zero skip)
      rw [List.takeWhile_cons_of_pos hc, List.length_cons] at hskip
      rw [splitParagraphs_cons_skip, ih (Nat.le_of_succ_le_succ hskip),
        visibleChars_cons_of_isWhitespace hc]
    | zero =>
      rw [splitParagraphs_cons]
      cases hbreak : if c = '\n' then paragraphBreak rest else none with
      | some length =>
        obtain ⟨rfl, hlength⟩ := Option.ite_none_right_eq_some.mp hbreak
        dsimp only
        rw [List.flatten_cons, visibleChars_append, ih (paragraphBreak_le hlength) []]
        rfl
      | none =>
        dsimp only
        rw [ih (Nat.zero_le _), visibleChars_append, List.append_assoc, ← visibleChars_append]
        rfl

theorem visibleChars_visiblePieces (pieces : List (List Char)) :
    (visiblePieces pieces).flatMap visibleChars = visibleChars pieces.flatten := by
  induction pieces with
  | nil => rfl
  | cons piece pieces ih =>
    rw [visiblePieces_cons, List.flatMap_append, ih, List.flatten_cons, visibleChars_append]
    congr 1
    by_cases hempty : (strip piece).isEmpty = true
    · have hblank : isBlank piece = true := (isEmpty_strip piece).symm.trans hempty
      rw [visibleChars_eq_nil_iff.mpr hblank]
      simp [visiblePieces, hempty]
    · rw [← visibleChars_strip piece]
      simp [visiblePieces, hempty]

theorem visibleChars_paragraphTexts (block : List Char) :
    (paragraphTexts block).flatMap visibleChars = visibleChars block := by
  rw [paragraphTexts, visibleChars_visiblePieces, visibleChars_splitParagraphs (Nat.zero_le _)]
  rfl

/-- The sentences of a paragraph. -/
def sentenceTexts (paragraph : List Char) : List (List Char) :=
  (splitHard false [] paragraph).filter (!isBlank ·)

theorem visibleChars_splitHard (cut : Bool) (piece text : List Char) :
    visibleChars (splitHard cut piece text).flatten = visibleChars piece ++ visibleChars text := by
  induction text generalizing cut piece with
  | nil => simp [splitHard, visibleChars]
  | cons c rest ih =>
    have hcons : visibleChars (c :: rest) = visibleChars [c] ++ visibleChars rest :=
      visibleChars_append [c] rest
    rw [splitHard]
    split_ifs with hdropped hend
    · rw [ih, visibleChars_cons_of_isWhitespace (Bool.and_eq_true_iff.mp hdropped).2]
    · rw [List.flatten_cons, visibleChars_append, ih, visibleChars_append, List.append_assoc, hcons]
      rfl
    · rw [ih, visibleChars_append, List.append_assoc, hcons]

theorem visibleChars_sentenceTexts (paragraph : List Char) :
    (sentenceTexts paragraph).flatMap visibleChars = visibleChars paragraph := by
  have hfilter (pieces : List (List Char)) :
      (pieces.filter (!isBlank ·)).flatMap visibleChars = pieces.flatMap visibleChars := by
    induction pieces with
    | nil => rfl
    | cons piece pieces ih =>
      cases hblank : isBlank piece with
      | true => simp [hblank, ih, visibleChars_eq_nil_iff.mpr hblank]
      | false => simp [hblank, ih]
  rw [sentenceTexts, hfilter, ← visibleChars_flatten, visibleChars_splitHard]
  rfl

/-! ## Units -/

/-- What one stretch of a section becomes: paragraphs merged into one atom, or a paragraph cut
into sentences that are merged group by group. -/
inductive AtomUnit where
  | merged (paragraphs : List (List Char))
  | cut (paragraph : List Char) (groups : List (List (List Char)))

namespace AtomUnit

def paragraphs : AtomUnit → List (List Char)
  | merged paragraphs => paragraphs
  | cut paragraph _ => [paragraph]

def atoms : AtomUnit → List (List Char)
  | merged paragraphs => [joinParagraphs paragraphs]
  | cut _ groups => groups.map joinLines

end AtomUnit

section Units

variable (countTokens : String → ℕ)

def totalTokens (pieces : List (List Char)) : ℕ := (pieces.map (tokensOf countTokens)).sum

/-- There are pieces in the atom, and more than one only within the limit. -/
def FitsLimit (limit : ℤ) (pieces : List (List Char)) : Prop :=
  pieces ≠ [] ∧ (1 < pieces.length → (totalTokens countTokens pieces : ℤ) ≤ limit)

/-- The pieces of every atom fit. The groups of a paragraph that is cut are its sentences. -/
def AtomUnit.Fits (limit : ℤ) : AtomUnit → Prop
  | merged paragraphs => FitsLimit countTokens limit paragraphs
  | cut paragraph groups =>
    groups.flatten = sentenceTexts paragraph ∧ ∀ group ∈ groups, FitsLimit countTokens limit group

/-- The atoms of a section. -/
structure GroupsSection (limit : ℤ) (part : List Char × List Char)
    (atoms : List (List Char × List Char)) : Prop where
  context : ∀ atom ∈ atoms, atom.2 = part.2
  content : atoms.flatMap (fun atom => visibleChars atom.1) = visibleChars part.1
  visible : ∀ atom ∈ atoms, isBlank atom.1 = false
  units : ∃ units : List AtomUnit, atoms.map Prod.fst = units.flatMap AtomUnit.atoms ∧
    units.flatMap AtomUnit.paragraphs = paragraphTexts part.1 ∧
    ∀ unit ∈ units, unit.Fits countTokens limit

variable {countTokens}

/-! ## The two accumulators -/

theorem totalTokens_concat (pieces : List (List Char)) (piece : List Char) :
    totalTokens countTokens (pieces ++ [piece]) =
      totalTokens countTokens pieces + tokensOf countTokens piece := by
  simp [totalTokens]

theorem fitsLimit_singleton (limit : ℤ) (piece : List Char) :
    FitsLimit countTokens limit [piece] :=
  ⟨List.cons_ne_nil piece [], fun h => absurd h (lt_irrefl 1)⟩

/-- A piece that is added within the limit, or to nothing. -/
theorem fitsLimit_concat {limit : ℤ} {pieces : List (List Char)} {piece : List Char}
    (h : pieces = [] ∨
      ((totalTokens countTokens pieces + tokensOf countTokens piece : ℕ) : ℤ) ≤ limit) :
    FitsLimit countTokens limit (pieces ++ [piece]) := by
  refine ⟨List.append_ne_nil_of_right_ne_nil pieces (List.cons_ne_nil piece []), fun hlong => ?_⟩
  rcases h with rfl | h
  · exact absurd hlong (lt_irrefl 1)
  · rwa [totalTokens_concat]

theorem FitsLimit.mono {limit limit' : ℤ} (hle : limit ≤ limit') {pieces : List (List Char)}
    (h : FitsLimit countTokens limit pieces) : FitsLimit countTokens limit' pieces :=
  ⟨h.1, fun hlong => (h.2 hlong).trans hle⟩

/-- The sentences that are collected and those that come are cut into groups that fit. -/
theorem exists_packSentences (buf sentences : List (List Char))
    (hbuf : buf = [] ∨ FitsLimit countTokens 768 buf) :
    ∃ groups : List (List (List Char)),
      packSentences countTokens buf (totalTokens countTokens buf) sentences =
        groups.map joinLines ∧
      groups.flatten = buf ++ sentences ∧ ∀ group ∈ groups, FitsLimit countTokens 768 group := by
  induction sentences generalizing buf with
  | nil =>
    rw [packSentences]
    rcases hbuf with rfl | hfits
    · exact ⟨[], rfl, rfl, fun group h => absurd h List.not_mem_nil⟩
    · refine ⟨[buf], ?_, by simp, fun group h => List.mem_singleton.mp h ▸ hfits⟩
      rw [if_neg (by simpa using hfits.1)]
      rfl
  | cons sentence sentences ih =>
    rw [packSentences]
    split_ifs with hfull
    · obtain ⟨hover, hne⟩ := Bool.and_eq_true_iff.mp hfull
      have hfits : FitsLimit countTokens 768 buf :=
        hbuf.resolve_left fun hnil => by simp [hnil] at hne
      have hsize : totalTokens countTokens [sentence] = tokensOf countTokens sentence := by
        simp [totalTokens]
      obtain ⟨groups, hatoms, hflatten, hgroups⟩ :=
        ih [sentence] (Or.inr (fitsLimit_singleton 768 sentence))
      rw [hsize] at hatoms
      refine ⟨buf :: groups, congrArg (joinLines buf :: ·) hatoms, ?_, ?_⟩
      · rw [List.flatten_cons, hflatten]
        rfl
      · exact List.forall_mem_cons.mpr ⟨hfits, hgroups⟩
    · have hadded : FitsLimit countTokens 768 (buf ++ [sentence]) := by
        refine fitsLimit_concat ?_
        by_cases hnil : buf = []
        · exact Or.inl hnil
        · refine Or.inr ?_
          have hsmall : ¬768 < totalTokens countTokens buf + tokensOf countTokens sentence := by
            simpa [hnil] using hfull
          exact_mod_cast not_lt.mp hsmall
      obtain ⟨groups, hatoms, hflatten, hgroups⟩ := ih (buf ++ [sentence]) (Or.inr hadded)
      rw [totalTokens_concat] at hatoms
      exact ⟨groups, hatoms, by rw [hflatten, List.append_assoc]; rfl, hgroups⟩

theorem exists_hardSplit (countTokens : String → ℕ) (paragraph : List Char) :
    ∃ groups : List (List (List Char)), hardSplit countTokens paragraph = groups.map joinLines ∧
      groups.flatten = sentenceTexts paragraph ∧
        ∀ group ∈ groups, FitsLimit countTokens 768 group :=
  exists_packSentences [] (sentenceTexts paragraph) (Or.inl rfl)

/-- The unit that an oversized paragraph becomes. -/
theorem exists_unit_of_hardSplit (countTokens : String → ℕ) {limit : ℤ} (hlimit : 768 ≤ limit)
    (paragraph : List Char) :
    ∃ unit : AtomUnit, unit.atoms = hardSplit countTokens paragraph ∧
      unit.paragraphs = [paragraph] ∧ unit.Fits countTokens limit := by
  obtain ⟨groups, hatoms, hflatten, hgroups⟩ := exists_hardSplit countTokens paragraph
  exact ⟨.cut paragraph groups, hatoms.symm, rfl, hflatten,
    fun group hgroup => (hgroups group hgroup).mono hlimit⟩

/-- Units, with the pieces they are made of and the atoms that they become. -/
structure AtomUnits (countTokens : String → ℕ) (limit : ℤ) (pieces atoms : List (List Char))
    (units : List AtomUnit) : Prop where
  atoms : atoms = units.flatMap AtomUnit.atoms
  pieces : units.flatMap AtomUnit.paragraphs = pieces
  fits : ∀ unit ∈ units, unit.Fits countTokens limit

theorem AtomUnits.nil (limit : ℤ) : AtomUnits countTokens limit [] [] [] :=
  ⟨rfl, rfl, fun _ h => absurd h List.not_mem_nil⟩

theorem AtomUnits.cons {limit : ℤ} {pieces atoms : List (List Char)} {units : List AtomUnit}
    (h : AtomUnits countTokens limit pieces atoms units) (unit : AtomUnit)
    (hunit : unit.Fits countTokens limit) :
    AtomUnits countTokens limit (unit.paragraphs ++ pieces) (unit.atoms ++ atoms)
      (unit :: units) where
  atoms := congrArg (unit.atoms ++ ·) h.atoms
  pieces := congrArg (unit.paragraphs ++ ·) h.pieces
  fits := List.forall_mem_cons.mpr ⟨hunit, h.fits⟩

/-- The paragraphs that are collected and those that come are cut into units that fit. -/
theorem exists_packParagraphs (countTokens : String → ℕ) (parser : TextMarkdownParser)
    (chunks pieces : List (List Char))
    (hchunks : chunks = [] ∨ FitsLimit countTokens (max parser.targetTokens 768) chunks) :
    ∃ units, AtomUnits countTokens (max parser.targetTokens 768) (chunks ++ visiblePieces pieces)
      (packParagraphs countTokens parser chunks (totalTokens countTokens chunks) pieces) units := by
  have hhard : (768 : ℤ) ≤ max parser.targetTokens 768 := le_max_right _ _
  induction pieces generalizing chunks with
  | nil =>
    rw [packParagraphs]
    rcases hchunks with rfl | hfits
    · exact ⟨[], AtomUnits.nil _⟩
    · rw [if_neg (by simpa using hfits.1)]
      exact ⟨[.merged chunks], (AtomUnits.nil _).cons (.merged chunks) hfits⟩
  | cons piece pieces ih =>
    rw [packParagraphs]
    dsimp only
    by_cases hempty : (strip piece).isEmpty = true
    · have hpassed : visiblePieces (piece :: pieces) = visiblePieces pieces := by
        simp [visiblePieces, hempty]
      rw [if_pos hempty, hpassed]
      exact ih chunks hchunks
    · have hkept : visiblePieces (piece :: pieces) = [strip piece] ++ visiblePieces pieces := by
        simp [visiblePieces, hempty]
      rw [if_neg hempty, hkept]
      obtain ⟨unit, hatoms, hparagraphs, hcut⟩ :=
        exists_unit_of_hardSplit countTokens hhard (strip piece)
      have hfits (h : (!chunks.isEmpty) = true) :
          FitsLimit countTokens (max parser.targetTokens 768) chunks :=
        hchunks.resolve_left fun hnil => by simp [hnil] at h
      -- the paragraph may be cut behind collected ones and behind none
      obtain ⟨cutUnits, hcutUnits⟩ := ih [] (Or.inl rfl)
      replace hcutUnits := hcutUnits.cons unit hcut
      rw [hatoms, hparagraphs] at hcutUnits
      split_ifs with hfull hlarge hlarge
      · exact ⟨_, hcutUnits.cons (.merged chunks) (hfits (Bool.and_eq_true_iff.mp hfull).2)⟩
      · obtain ⟨units, hunits⟩ := ih [strip piece] (Or.inr (fitsLimit_singleton _ _))
        have hsize :
            totalTokens countTokens [strip piece] = tokensOf countTokens (strip piece) := by
          simp [totalTokens]
        rw [hsize] at hunits
        exact ⟨_, hunits.cons (.merged chunks) (hfits (Bool.and_eq_true_iff.mp hfull).2)⟩
      · obtain rfl : chunks = [] := List.isEmpty_iff.mp (Bool.and_eq_true_iff.mp hlarge).2
        exact ⟨_, hcutUnits⟩
      · have hadded :
            FitsLimit countTokens (max parser.targetTokens 768) (chunks ++ [strip piece]) := by
          refine fitsLimit_concat ?_
          by_cases hnil : chunks = []
          · exact Or.inl hnil
          · refine Or.inr ((not_lt.mp ?_).trans (le_max_left _ _))
            simpa [hnil] using hfull
        obtain ⟨units, hunits⟩ := ih (chunks ++ [strip piece]) (Or.inr hadded)
        rw [totalTokens_concat, List.append_assoc] at hunits
        exact ⟨units, hunits⟩

/-! ## Sections -/

theorem visibleChars_atoms {limit : ℤ} {unit : AtomUnit} (h : unit.Fits countTokens limit) :
    unit.atoms.flatMap visibleChars = unit.paragraphs.flatMap visibleChars := by
  cases unit with
  | merged paragraphs =>
    have hjoin : visibleChars (joinParagraphs paragraphs) = paragraphs.flatMap visibleChars :=
      visibleChars_intercalate rfl paragraphs
    exact (List.flatMap_singleton _ _).trans hjoin
  | cut paragraph groups =>
    have hjoin (group : List (List Char)) :
        visibleChars (joinLines group) = group.flatMap visibleChars :=
      visibleChars_intercalate rfl group
    have hgroups : groups.flatten.flatMap visibleChars = visibleChars paragraph := by
      rw [h.1, visibleChars_sentenceTexts]
    simp only [AtomUnit.atoms, AtomUnit.paragraphs, List.flatMap_map, hjoin, List.flatMap_singleton]
    rw [← hgroups, ← List.flatMap_id, List.flatMap_assoc]
    rfl

theorem isBlank_intercalate {sep : List Char} (hsep : isBlank sep = true)
    {pieces : List (List Char)} (hne : pieces ≠ [])
    (hvisible : ∀ piece ∈ pieces, isBlank piece = false) :
    isBlank (sep.intercalate pieces) = false := by
  obtain ⟨piece, hpiece⟩ := List.exists_mem_of_ne_nil pieces hne
  rw [← Bool.not_eq_true, ← visibleChars_eq_nil_iff, visibleChars_intercalate hsep,
    List.flatMap_eq_nil_iff]
  intro hall
  have hblank := visibleChars_eq_nil_iff.mp (hall piece hpiece)
  rw [hvisible piece hpiece] at hblank
  exact Bool.false_ne_true hblank

theorem isBlank_of_mem_atoms {limit : ℤ} {unit : AtomUnit} (h : unit.Fits countTokens limit)
    (hvisible : ∀ paragraph ∈ unit.paragraphs, isBlank paragraph = false) {atom : List Char}
    (hatom : atom ∈ unit.atoms) : isBlank atom = false := by
  cases unit with
  | merged paragraphs =>
    rw [List.mem_singleton.mp hatom]
    exact isBlank_intercalate rfl h.1 hvisible
  | cut paragraph groups =>
    obtain ⟨group, hgroup, rfl⟩ := List.mem_map.mp hatom
    refine isBlank_intercalate rfl (h.2 group hgroup).1 fun sentence hsentence => ?_
    have hmem : sentence ∈ sentenceTexts paragraph :=
      h.1 ▸ List.mem_flatten.mpr ⟨group, hgroup, hsentence⟩
    simpa using (List.mem_filter.mp hmem).2

theorem isBlank_of_mem_paragraphTexts {block paragraph : List Char}
    (h : paragraph ∈ paragraphTexts block) : isBlank paragraph = false := by
  obtain ⟨hpiece, hne⟩ := List.mem_filter.mp h
  obtain ⟨piece, _, rfl⟩ := List.mem_map.mp hpiece
  rw [← isEmpty_strip, strip_strip]
  simpa using hne

/-- The atoms of one section, from its units. -/
theorem groupsSection (parser : TextMarkdownParser) (part : List Char × List Char) :
    GroupsSection countTokens (max parser.targetTokens 768) part
      ((packParagraphs countTokens parser [] 0 (splitParagraphs 0 [] part.1)).map
        fun text => (text, part.2)) := by
  obtain ⟨units, hunits⟩ := exists_packParagraphs countTokens parser []
    (splitParagraphs 0 [] part.1) (Or.inl rfl)
  set texts := packParagraphs countTokens parser [] 0 (splitParagraphs 0 [] part.1) with htexts
  have hatoms : texts = units.flatMap AtomUnit.atoms := hunits.atoms
  have hpieces : units.flatMap AtomUnit.paragraphs = paragraphTexts part.1 := hunits.pieces
  have hvisible : ∀ unit ∈ units, ∀ paragraph ∈ unit.paragraphs, isBlank paragraph = false :=
    fun unit hunit paragraph hparagraph => isBlank_of_mem_paragraphTexts
      (hpieces ▸ List.mem_flatMap.mpr ⟨unit, hunit, hparagraph⟩)
  have hfst : (texts.map fun text => (text, part.2)).map Prod.fst = texts := by
    rw [List.map_map]
    exact List.map_id' texts
  refine ⟨fun atom hatom => ?_, ?_, fun atom hatom => ?_, units, hfst.trans hatoms, hpieces,
    hunits.fits⟩
  · obtain ⟨_, _, rfl⟩ := List.mem_map.mp hatom
    rfl
  · rw [List.flatMap_map, hatoms, List.flatMap_assoc, ← visibleChars_paragraphTexts, ← hpieces,
      List.flatMap_assoc]
    exact List.flatMap_congr fun unit hunit => visibleChars_atoms (hunits.fits unit hunit)
  · obtain ⟨text, htext, rfl⟩ := List.mem_map.mp hatom
    rw [hatoms] at htext
    obtain ⟨unit, hunit, hmem⟩ := List.mem_flatMap.mp htext
    exact isBlank_of_mem_atoms (hunits.fits unit hunit) (hvisible unit hunit) hmem

/-- The atoms of every section hold what is visible in it, in order and under its context. None
is blank, and where several pieces are in one atom they are within the limit. -/
theorem groupToAtoms_groups (parser : TextMarkdownParser)
    (sections : List (List Char × List Char)) :
    ∃ parts, groupToAtoms countTokens parser sections = parts.flatten ∧
      List.Forall₂ (GroupsSection countTokens (max parser.targetTokens 768)) sections parts := by
  refine ⟨_, List.flatMap_def, List.forall₂_map_right_iff.mpr (List.forall₂_same.mpr ?_)⟩
  exact fun part _ => groupsSection parser part

end Units

end Ragx
