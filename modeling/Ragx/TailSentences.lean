import Mathlib.Algebra.GroupWithZero.Nat
import Ragx.Chunker

/-!
# The overlap is the longest tail that fits

The sentences of a group are gone through from the last to the first, atom by atom, until one no
longer fits. What has been collected by then is the longest end of the whole sequence of sentences
that stays within the target.
-/
namespace Ragx

/-! ## Longest tails -/

section Tails

variable {α : Type*} (weight : α → ℕ)

def totalWeight (xs : List α) : ℕ := (xs.map weight).sum

/-- The longest end of a list within a budget. Below zero not even the empty one fits, and it is
taken all the same. -/
structure IsLongestTail (budget : ℤ) (all tail : List α) : Prop where
  suffix : tail <:+ all
  fits : tail = [] ∨ totalWeight weight tail ≤ budget
  longest : ∀ other, other <:+ all → totalWeight weight other ≤ budget → other <:+ tail

variable {weight} {budget : ℤ} {all tail : List α}

theorem totalWeight_cons (x : α) (xs : List α) :
    totalWeight weight (x :: xs) = weight x + totalWeight weight xs := List.sum_cons

theorem totalWeight_append (xs ys : List α) :
    totalWeight weight (xs ++ ys) = totalWeight weight xs + totalWeight weight ys := by
  unfold totalWeight
  rw [List.map_append, List.sum_append]

theorem totalWeight_le_of_suffix (weight : α → ℕ) {xs ys : List α} (h : xs <:+ ys) :
    totalWeight weight xs ≤ totalWeight weight ys := by
  obtain ⟨front, rfl⟩ := h
  rw [totalWeight_append]
  exact Nat.le_add_left _ _

theorem IsLongestTail.unique {tail' : List α} (h : IsLongestTail weight budget all tail)
    (h' : IsLongestTail weight budget all tail') : tail = tail' := by
  have hsuffix {xs ys : List α} (hx : IsLongestTail weight budget all xs)
      (hy : IsLongestTail weight budget all ys) : xs <:+ ys := by
    obtain rfl | hfits := hx.fits
    · exact List.nil_suffix
    · exact hy.longest xs hx.suffix hfits
  exact (hsuffix h h').eq_of_length_le (hsuffix h' h).length_le

/-- A tail in front of which there is no room for the next item cannot be made longer. -/
theorem isLongestTail_of_full {front : List α} {x : α}
    (hfits : tail = [] ∨ totalWeight weight tail ≤ budget)
    (hfull : budget < totalWeight weight tail + weight x) :
    IsLongestTail weight budget (front ++ [x] ++ tail) tail := by
  refine ⟨List.suffix_append _ _, hfits, fun other hother hle => ?_⟩
  by_contra hlonger
  have hlength : (x :: tail).length ≤ other.length := by
    by_contra hshort
    rw [List.length_cons] at hshort
    exact hlonger
      (List.suffix_of_suffix_length_le hother (List.suffix_append _ _) (by omega))
  have hx : x :: tail <:+ front ++ [x] ++ tail :=
    ⟨front, by rw [List.append_assoc, List.singleton_append]⟩
  have hweight :=
    totalWeight_le_of_suffix weight (List.suffix_of_suffix_length_le hx hother hlength)
  rw [totalWeight_cons] at hweight
  omega

/-- A list that fits is its own longest tail. -/
theorem isLongestTail_self (hfits : all = [] ∨ totalWeight weight all ≤ budget) :
    IsLongestTail weight budget all all :=
  ⟨List.suffix_rfl, hfits, fun _ h _ => h⟩

end Tails

/-! ## The loops -/

section Loops

variable (env : ChunkerEnv) (targetTokens : ℤ)

/-- One round of the inner loop; an error is the early return. -/
def tailRound (atom : Atom) (state : List Atom × ℕ) (sentence : String) :
    Except (List Atom) (List Atom × ℕ) :=
  let (collected, total) := state
  let tokens := env.countTokens sentence
  if targetTokens < total + tokens then .error collected
  else .ok (overlapAtom env atom sentence :: collected, total + tokens)

/-- The sentences of one atom, the last one first. -/
def tailOfAtom (state : List Atom × ℕ) (atom : Atom) : Except (List Atom) (List Atom × ℕ) :=
  (splitSentences (atom.text.getD "")).reverse.foldlM (tailRound env targetTokens atom) state

def returned : Except (List Atom) (List Atom × ℕ) → List Atom
  | .error collected => collected
  | .ok (collected, _) => collected

/-- `extract_tail_sentences` with its two loops, for any integer as the target. -/
def tailSentences (atoms : List Atom) : List Atom :=
  returned (atoms.reverse.foldlM (tailOfAtom env targetTokens) ([], 0))

/-- The sentences of a group in order, each with its atom. -/
def sentenceSequence (atoms : List Atom) : List (Atom × String) :=
  atoms.flatMap fun atom =>
    (splitSentences (atom.text.getD "")).map fun sentence => (atom, sentence)

/-- A sentence with its atom in one round. -/
def pairRound (state : List Atom × ℕ) (s : Atom × String) : Except (List Atom) (List Atom × ℕ) :=
  tailRound env targetTokens s.1 state s.2

/-- The two loops are one loop through the sentences. -/
theorem foldlM_tailOfAtom (atoms : List Atom) (state : List Atom × ℕ) :
    atoms.foldlM (tailOfAtom env targetTokens) state =
      (atoms.flatMap fun atom => (splitSentences (atom.text.getD "")).reverse.map
        fun sentence => (atom, sentence)).foldlM (pairRound env targetTokens) state := by
  induction atoms generalizing state with
  | nil => rfl
  | cons atom atoms ih =>
    rw [List.foldlM_cons, List.flatMap_cons, List.foldlM_append, List.foldlM_map]
    refine bind_congr fun state' => ?_
    exact ih state'

theorem tailSentences_eq (atoms : List Atom) : tailSentences env targetTokens atoms =
    returned ((sentenceSequence atoms).reverse.foldlM (pairRound env targetTokens) ([], 0)) := by
  have hreverse : (sentenceSequence atoms).reverse = atoms.reverse.flatMap fun atom =>
      (splitSentences (atom.text.getD "")).reverse.map fun sentence => (atom, sentence) := by
    unfold sentenceSequence
    rw [List.reverse_flatMap]
    exact List.flatMap_congr fun atom _ => List.map_reverse.symm
  rw [tailSentences, foldlM_tailOfAtom, hreverse]

def sentenceTokens (s : Atom × String) : ℕ := env.countTokens s.2

def overlapOf (s : Atom × String) : Atom := overlapAtom env s.1 s.2

/-- What has been collected is an end of the sequence that fits; the loop goes on in front of it
as long as there is room. -/
theorem exists_tail_of_rounds (front done : List (Atom × String))
    (hfits : done = [] ∨ totalWeight (sentenceTokens env) done ≤ targetTokens) :
    ∃ tail, IsLongestTail (sentenceTokens env) targetTokens (front ++ done) tail ∧
      returned (front.reverse.foldlM (pairRound env targetTokens)
        (done.map (overlapOf env), totalWeight (sentenceTokens env) done)) =
          tail.map (overlapOf env) := by
  induction front using List.reverseRecOn generalizing done with
  | nil => exact ⟨done, isLongestTail_self hfits, rfl⟩
  | append_singleton front s ih =>
    rw [List.reverse_append, List.reverse_singleton, List.singleton_append, List.foldlM_cons]
    unfold pairRound tailRound
    dsimp only
    split_ifs with hfull
    · exact ⟨done, isLongestTail_of_full hfits hfull, rfl⟩
    · obtain ⟨tail, htail, hreturned⟩ := ih (s :: done) (.inr (by
        have htokens : sentenceTokens env s = env.countTokens s.2 := rfl
        rw [totalWeight_cons]
        omega))
      refine ⟨tail, by rwa [List.append_assoc, List.singleton_append], ?_⟩
      rw [← hreturned, List.map_cons, totalWeight_cons, add_comm]
      rfl

theorem exists_longest_tail (atoms : List Atom) :
    ∃ tail, IsLongestTail (sentenceTokens env) targetTokens (sentenceSequence atoms) tail ∧
      tailSentences env targetTokens atoms = tail.map (overlapOf env) := by
  obtain ⟨tail, htail, hreturned⟩ :=
    exists_tail_of_rounds env targetTokens (sentenceSequence atoms) [] (.inl rfl)
  rw [List.append_nil] at htail
  exact ⟨tail, htail, (tailSentences_eq env targetTokens atoms).trans hreturned⟩

/-- The chunker's overlap, whose target is not negative, is made by these loops. -/
theorem extractTailSentences_eq (atoms : List Atom) (target : ℕ) :
    extractTailSentences env atoms target = tailSentences env target atoms := by
  have hloop (rest : List (Atom × String)) (collected : List Atom) (total : ℕ) :
      collectTail env target collected total rest =
        returned (rest.foldlM (pairRound env target) (collected, total)) := by
    induction rest generalizing collected total with
    | nil => rfl
    | cons s rest ih =>
      obtain ⟨atom, sentence⟩ := s
      rw [collectTail, List.foldlM_cons]
      unfold pairRound tailRound
      dsimp only
      split_ifs with hfull hfull' hfull'
      · rfl
      · omega
      · omega
      · exact ih _ _
  rw [extractTailSentences, hloop, tailSentences, foldlM_tailOfAtom]

/-- The overlap is the longest end of the sentences of a group that fits: nothing if the last
sentence is too long, everything if all of them fit. -/
theorem tailSentences_longest (atoms : List Atom) :
    (∃ tail, IsLongestTail (fun s => env.countTokens s.2) targetTokens (sentenceSequence atoms)
        tail ∧
      tailSentences env targetTokens atoms = tail.map fun s => overlapAtom env s.1 s.2) ∧
    (∀ front atom sentence, sentenceSequence atoms = front ++ [(atom, sentence)] →
      targetTokens < env.countTokens sentence → tailSentences env targetTokens atoms = []) ∧
    (totalWeight (fun s => env.countTokens s.2) (sentenceSequence atoms) ≤ targetTokens →
      tailSentences env targetTokens atoms =
        (sentenceSequence atoms).map fun s => overlapAtom env s.1 s.2) := by
  obtain ⟨tail, htail, htailSentences⟩ := exists_longest_tail env targetTokens atoms
  refine ⟨⟨tail, htail, htailSentences⟩, ?_, fun hfits => ?_⟩
  · intro front atom sentence hall hfull
    have hnone : IsLongestTail (sentenceTokens env) targetTokens (sentenceSequence atoms) [] := by
      rw [hall, ← List.append_nil (front ++ [(atom, sentence)])]
      refine isLongestTail_of_full (.inl rfl) ?_
      have hempty : totalWeight (sentenceTokens env) [] = 0 := rfl
      rw [hempty]
      exact hfull.trans_eq (by rw [Nat.cast_zero, zero_add]; rfl)
    rw [htailSentences, htail.unique hnone, List.map_nil]
  · rw [htailSentences, htail.unique (isLongestTail_self (.inr hfits))]
    rfl

end Loops

end Ragx
