import Mathlib.Data.List.Infix

/-!
# Wildcard patterns

Patterns of characters, single-character wildcards and wildcards for any text, which match whole
texts and take the two cases of an ASCII letter for one. A text without special characters,
between two wildcards, matches the texts that contain it. A text with one matches another text
as well, which does not contain it.
-/
namespace Ragx

inductive WildcardItem where
  | lit (c : Char)
  | one
  | many
deriving DecidableEq, Repr

abbrev Wildcard := List WildcardItem

/-- The characters with ASCII capitals made small. -/
def lowered (text : List Char) : List Char := text.map Char.toLower

/-- Substring, whatever the case of ASCII letters. -/
def Within (part text : List Char) : Prop := lowered part <:+: lowered text

instance (part text : List Char) : Decidable (Within part text) :=
  inferInstanceAs (Decidable (_ <:+: _))

namespace Wildcard

/-- Whether a whole text matches. -/
def matchesText : Wildcard → List Char → Bool
  | [], text => text.isEmpty
  | .lit _ :: _, [] => false
  | .lit c :: p, d :: text => c.toLower == d.toLower && matchesText p text
  | .one :: _, [] => false
  | .one :: p, _ :: text => matchesText p text
  | .many :: p, text => text.tails.any fun rest => matchesText p rest

/-- Each item as the shortest text that it matches, with some letter for a single wildcard. -/
def sample (c : Char) : Wildcard → List Char
  | [] => []
  | .lit d :: p => d :: sample c p
  | .one :: p => c :: sample c p
  | .many :: p => sample c p

theorem matchesText_many {p : Wildcard} {text : List Char} :
    matchesText (.many :: p) text = true ↔ ∃ rest, rest <:+ text ∧ matchesText p rest = true := by
  simp [matchesText]

theorem matchesText_many_nil (text : List Char) : matchesText [.many] text = true := by
  rw [matchesText_many]
  exact ⟨[], List.nil_suffix, rfl⟩

/-- Characters and then anything: a prefix. -/
theorem matchesText_lits (part text : List Char) :
    matchesText (part.map .lit ++ [.many]) text = true ↔ lowered part <+: lowered text := by
  induction part generalizing text with
  | nil => simp [matchesText_many_nil, lowered]
  | cons c cs ih =>
    cases text with
    | nil => simp [matchesText, lowered]
    | cons d text => simp [matchesText, ih, lowered, List.cons_prefix_cons]

/-- Anything, characters and anything: a substring. -/
theorem matchesText_within (part text : List Char) :
    matchesText (.many :: (part.map .lit ++ [.many])) text = true ↔ Within part text := by
  rw [matchesText_many, Within, List.infix_iff_prefix_suffix]
  constructor
  · rintro ⟨rest, hrest, hmatch⟩
    exact ⟨lowered rest, (matchesText_lits part rest).mp hmatch, hrest.map _⟩
  · rintro ⟨low, hlow, hrest⟩
    obtain ⟨rest, hsuffix, rfl⟩ := (List.suffix_map_iff).mp hrest
    exact ⟨rest, hsuffix, (matchesText_lits part rest).mpr hlow⟩

theorem matchesText_sample (c : Char) (p : Wildcard) :
    matchesText (p ++ [.many]) (sample c p) = true := by
  induction p with
  | nil => exact matchesText_many_nil []
  | cons i p ih =>
    cases i with
    | lit d => simpa [matchesText, sample] using ih
    | one => simpa [matchesText, sample] using ih
    | many =>
      rw [List.cons_append, matchesText_many]
      exact ⟨sample c p, List.suffix_refl _, ih⟩

/-- The sample matches with anything around. -/
theorem matchesText_around_sample (c : Char) (p : Wildcard) :
    matchesText (.many :: (p ++ [.many])) (sample c p) = true :=
  matchesText_many.mpr ⟨_, List.suffix_refl _, matchesText_sample c p⟩

/-- A pattern that ends with a character matches only texts that end with it. -/
theorem getLast?_of_matchesText {p : Wildcard} {c : Char} {text : List Char}
    (h : matchesText (p ++ [.lit c]) text = true) :
    ∃ front d, text = front ++ [d] ∧ d.toLower = c.toLower := by
  induction p generalizing text with
  | nil =>
    cases text with
    | nil => simp [matchesText] at h
    | cons d text =>
      obtain ⟨hd, hnil⟩ : c.toLower = d.toLower ∧ text = [] := by
        simpa [matchesText] using h
      exact ⟨[], d, by simp [hnil], hd.symm⟩
  | cons i p ih =>
    have hrest : ∃ rest, rest <:+ text ∧ matchesText (p ++ [.lit c]) rest = true := by
      cases i with
      | many => exact matchesText_many.mp h
      | lit e =>
        cases text with
        | nil => simp [matchesText] at h
        | cons d text =>
          have hmatch : matchesText (p ++ [.lit c]) text = true := by
            simp only [List.cons_append, matchesText, Bool.and_eq_true] at h
            exact h.2
          exact ⟨text, List.suffix_cons d text, hmatch⟩
      | one =>
        cases text with
        | nil => simp [matchesText] at h
        | cons d text => exact ⟨text, List.suffix_cons d text, h⟩
    obtain ⟨rest, ⟨before, rfl⟩, hmatch⟩ := hrest
    obtain ⟨front, d, rfl, hd⟩ := ih hmatch
    exact ⟨before ++ front, d, by simp, hd⟩

theorem length_sample_le (c : Char) (p : Wildcard) : (sample c p).length ≤ p.length := by
  induction p with
  | nil => exact Nat.le_refl 0
  | cons i p ih => cases i <;> simp only [sample, List.length_cons] <;> omega

end Wildcard

theorem lowered_eq_of_within {part text : List Char} (hw : Within part text)
    (h : text.length ≤ part.length) : lowered part = lowered text := by
  refine hw.eq_of_length_le ?_
  simpa [lowered] using h

theorem lowered_ne_of_length {text part : List Char} (h : text.length < part.length) :
    lowered text ≠ lowered part := by
  intro heq
  have hlength := congrArg List.length heq
  simp only [lowered, List.length_map] at hlength
  omega

/-! ## Exact substrings -/

/-- A fact about ASCII characters can be checked on each. -/
theorem forall_ascii {P : Char → Prop} (h : ∀ n < 128, P (Char.ofNat n)) {c : Char}
    (hc : c.toNat < 128) : P c := by
  have hn := h c.toNat hc
  rwa [Char.ofNat_toNat] at hn

theorem isAlpha_iff {c : Char} : c.isAlpha = true ↔ c.isUpper = true ∨ c.isLower = true := by
  show (c.isUpper || c.isLower) = true ↔ _
  exact Bool.or_eq_true_iff

theorem toNat_lt_of_isAlpha {c : Char} (h : c.isAlpha = true) : c.toNat < 128 := by
  rcases isAlpha_iff.mp h with hupper | hlower
  · have hle : c.val ≤ 'Z'.val := (of_decide_eq_true hupper).2
    exact Nat.lt_of_le_of_lt (UInt32.le_iff_toNat_le.mp hle) (by decide)
  · have hle : c.val ≤ 'z'.val := of_decide_eq_true (Bool.and_eq_true_iff.mp hlower).2
    exact Nat.lt_of_le_of_lt (UInt32.le_iff_toNat_le.mp hle) (by decide)

theorem exists_other_case {c : Char} (h : c.isAlpha = true) :
    ∃ d, d ≠ c ∧ d.toLower = c.toLower := by
  have hall : ∀ n < 128, (Char.ofNat n).isAlpha = true →
      (Char.ofNat n).toLower ≠ Char.ofNat n ∨ (Char.ofNat n).toUpper ≠ Char.ofNat n ∧
        (Char.ofNat n).toUpper.toLower = (Char.ofNat n).toLower := by
    decide
  have hlower : ∀ n < 128, (Char.ofNat n).toLower.toLower = (Char.ofNat n).toLower := by
    decide
  have hascii := toNat_lt_of_isAlpha h
  have hcase := forall_ascii (P := fun c => c.isAlpha = true →
    c.toLower ≠ c ∨ c.toUpper ≠ c ∧ c.toUpper.toLower = c.toLower) hall hascii h
  rcases hcase with hsmall | hcapital
  · have htwice := forall_ascii (P := fun c => c.toLower.toLower = c.toLower) hlower hascii
    exact ⟨c.toLower, hsmall, htwice⟩
  · exact ⟨c.toUpper, hcapital⟩

theorem toLower_eq_self {c : Char} (h : c.isUpper = false) : c.toLower = c :=
  dif_neg (of_decide_eq_false h)

/-- Other characters than ASCII letters are small only for themselves. -/
theorem eq_of_toLower_eq {c d : Char} (hc : c.isAlpha = false) (h : d.toLower = c.toLower) :
    d = c := by
  have hupper : c.isUpper = false := by
    by_contra hletter
    rw [isAlpha_iff.mpr (Or.inl ((Bool.not_eq_false _).mp hletter))] at hc
    cases hc
  rw [toLower_eq_self hupper] at h
  cases hd : d.isUpper with
  | false => rwa [toLower_eq_self hd] at h
  | true =>
    have hall : ∀ n < 128, (Char.ofNat n).isUpper = true →
        (Char.ofNat n).toLower.isAlpha = true := by decide
    have hletter : d.isAlpha = true := isAlpha_iff.mpr (Or.inl hd)
    have hlow := forall_ascii (P := fun d => d.isUpper = true → d.toLower.isAlpha = true) hall
      (toNat_lt_of_isAlpha hletter) hd
    rw [h, hc] at hlow
    cases hlow

theorem eq_of_lowered_eq {part text : List Char} (hpart : ∀ c ∈ part, c.isAlpha = false)
    (h : lowered text = lowered part) : text = part := by
  induction part generalizing text with
  | nil => simpa [lowered] using h
  | cons c cs ih =>
    cases text with
    | nil => simp [lowered] at h
    | cons d ds =>
      obtain ⟨hd, hds⟩ := List.cons.inj h
      rw [eq_of_toLower_eq (hpart c List.mem_cons_self) hd,
        ih (fun e he => hpart e (List.mem_cons_of_mem c he)) hds]

/-- Without letters in the part, the case of the text does not matter. -/
theorem infix_iff_within {part : List Char} (hpart : ∀ c ∈ part, c.isAlpha = false)
    (text : List Char) : part <:+: text ↔ Within part text := by
  constructor
  · intro h
    exact h.map _
  · rintro ⟨before, after, h⟩
    obtain ⟨front, back, rfl, hfront, hback⟩ := List.map_eq_append_iff.mp h.symm
    obtain ⟨first, middle, rfl, hfirst, hmiddle⟩ := List.map_eq_append_iff.mp hfront
    rw [eq_of_lowered_eq hpart hmiddle]
    exact ⟨first, back, rfl⟩

/-- With a letter in it, a part is in a text that has it in the other case. -/
theorem exists_within_not_infix {part : List Char} (h : ∃ c ∈ part, c.isAlpha = true) :
    ∃ text, Within part text ∧ ¬ part <:+: text := by
  obtain ⟨c, hc, hletter⟩ := h
  obtain ⟨d, hd, hlow⟩ := exists_other_case hletter
  obtain ⟨before, after, rfl⟩ := List.append_of_mem hc
  refine ⟨before ++ d :: after, ?_, fun hin => ?_⟩
  · have hsame : lowered (before ++ c :: after) = lowered (before ++ d :: after) := by
      simp [lowered, hlow]
    rw [Within, hsame]
  · have heq := hin.eq_of_length (by simp)
    have hcd := (List.cons.inj (List.append_cancel_left heq)).1
    exact hd hcd.symm

/-! ## LIKE patterns -/

/-- The items of a `LIKE` pattern without an escape character. -/
def likeItems (pattern : List Char) : Wildcard :=
  pattern.map fun c => if c = '%' then .many else if c = '_' then .one else .lit c

def Like (pattern text : List Char) : Bool := Wildcard.matchesText (likeItems pattern) text

theorem likeItems_append (xs ys : List Char) :
    likeItems (xs ++ ys) = likeItems xs ++ likeItems ys :=
  List.map_append

theorem likeItems_plain {part : List Char} (h : '%' ∉ part ∧ '_' ∉ part) :
    likeItems part = part.map .lit := by
  refine List.map_congr_left fun c hc => ?_
  have hpercent : c ≠ '%' := fun hcp => h.1 (hcp ▸ hc)
  have hunder : c ≠ '_' := fun hcu => h.2 (hcu ▸ hc)
  rw [if_neg hpercent, if_neg hunder]

/-- A part without wildcards is matched as a substring. -/
theorem like_iff_within {part : List Char} (h : '%' ∉ part ∧ '_' ∉ part) (text : List Char) :
    Like ('%' :: part ++ ['%']) text = true ↔ Within part text := by
  have hitems : likeItems ('%' :: part ++ ['%']) = .many :: (part.map .lit ++ [.many]) := by
    rw [List.cons_append, ← List.singleton_append, likeItems_append, likeItems_append,
      likeItems_plain h]
    rfl
  rw [Like, hitems, Wildcard.matchesText_within]

theorem length_likeSample_le (part : List Char) :
    (Wildcard.sample 'a' (likeItems part)).length ≤ part.length := by
  have hlength : (likeItems part).length = part.length := List.length_map _
  exact hlength ▸ Wildcard.length_sample_le 'a' (likeItems part)

/-- The sample of a part with wildcards is another text. -/
theorem plain_of_lowered_likeSample {part : List Char}
    (h : lowered part = lowered (Wildcard.sample 'a' (likeItems part))) :
    '%' ∉ part ∧ '_' ∉ part := by
  induction part with
  | nil => simp
  | cons c cs ih =>
    by_cases hpercent : c = '%'
    · -- the sample is shorter
      have hitems : likeItems (c :: cs) = .many :: likeItems cs := by
        simp [likeItems, hpercent]
      have hshort := Nat.lt_succ_of_le (length_likeSample_le cs)
      rw [hitems] at h
      exact absurd h.symm (lowered_ne_of_length hshort)
    · by_cases hunder : c = '_'
      · have hhead := congrArg List.head? h
        simp [lowered, likeItems, hunder, Wildcard.sample] at hhead
      · have htail : lowered cs = lowered (Wildcard.sample 'a' (likeItems cs)) := by
          simpa [lowered, likeItems, hpercent, hunder, Wildcard.sample] using h
        obtain ⟨hno, hno'⟩ := ih htail
        simp [hno, hno', Ne.symm hpercent, Ne.symm hunder]

/-- A part with wildcards is found where it is not. -/
theorem exists_like_of_special {part : List Char} (h : ¬ ('%' ∉ part ∧ '_' ∉ part)) :
    ∃ text, Like ('%' :: part ++ ['%']) text = true ∧ ¬ Within part text := by
  refine ⟨Wildcard.sample 'a' (likeItems part), ?_, fun hw => ?_⟩
  · have hitems : likeItems ('%' :: part ++ ['%']) = .many :: (likeItems part ++ [.many]) := by
      rw [List.cons_append, ← List.singleton_append, likeItems_append, likeItems_append]
      rfl
    rw [Like, hitems]
    exact Wildcard.matchesText_around_sample 'a' _
  · have hsame := lowered_eq_of_within hw (length_likeSample_le part)
    exact h (plain_of_lowered_likeSample hsame)

/-! ## Escaped patterns -/

/-- The items of a pattern in which a backslash escapes the next character. -/
def escapedItems : List Char → Wildcard
  | [] => []
  | ['\\'] => [.lit '\\']
  | '\\' :: c :: rest => .lit c :: escapedItems rest
  | '*' :: rest => .many :: escapedItems rest
  | '?' :: rest => .one :: escapedItems rest
  | c :: rest => .lit c :: escapedItems rest

def EscapedMatch (pattern text : List Char) : Bool :=
  Wildcard.matchesText (escapedItems pattern) text

def EscapedPlain (part : List Char) : Prop := '*' ∉ part ∧ '?' ∉ part ∧ '\\' ∉ part

instance (part : List Char) : Decidable (EscapedPlain part) :=
  inferInstanceAs (Decidable (_ ∧ _))

theorem escapedItems_cons {c : Char} (hstar : c ≠ '*') (hone : c ≠ '?') (hback : c ≠ '\\')
    (ys : List Char) : escapedItems (c :: ys) = .lit c :: escapedItems ys := by
  rw [escapedItems]
  · exact fun h _ => hback h
  · exact fun _ _ h _ => hback h
  · exact fun h => hstar h
  · exact fun h => hone h

theorem escapedItems_plain {part : List Char} (h : EscapedPlain part) :
    escapedItems (part ++ ['*']) = part.map .lit ++ [.many] := by
  induction part with
  | nil => rfl
  | cons c cs ih =>
    simp only [EscapedPlain, List.mem_cons, not_or] at h
    obtain ⟨⟨hstar, hstars⟩, ⟨hone, hones⟩, ⟨hback, hbacks⟩⟩ := h
    rw [List.cons_append, escapedItems_cons (Ne.symm hstar) (Ne.symm hone) (Ne.symm hback),
      ih ⟨hstars, hones, hbacks⟩]
    rfl

/-- A part without special characters is matched as a substring. -/
theorem escapedMatch_iff_within {part : List Char} (h : EscapedPlain part) (text : List Char) :
    EscapedMatch ('*' :: part ++ ['*']) text = true ↔ Within part text := by
  have hitems : escapedItems ('*' :: part ++ ['*']) = .many :: (part.map .lit ++ [.many]) := by
    rw [List.cons_append, escapedItems, escapedItems_plain h]
  rw [EscapedMatch, hitems, Wildcard.matchesText_within]

theorem length_escapedItems_le (part : List Char) : (escapedItems part).length ≤ part.length := by
  induction part using escapedItems.induct with
  | case1 => exact Nat.le_refl 0
  | case2 => exact Nat.le_refl 1
  | case3 c rest ih =>
    rw [escapedItems]
    simp only [List.length_cons]
    omega
  | case4 rest ih => simpa [escapedItems] using ih
  | case5 rest ih => simpa [escapedItems] using ih
  | case6 c rest h₁ h₂ h₃ h₄ ih => simpa [escapedItems] using ih

theorem length_escapedSample_le (part : List Char) :
    (Wildcard.sample 'a' (escapedItems part)).length ≤ part.length :=
  Nat.le_trans (Wildcard.length_sample_le 'a' _) (length_escapedItems_le part)

/-- Before a wildcard, a part either is read by itself, and is its own sample only without
special characters, or it ends with a backslash that escapes the wildcard. -/
theorem escapedItems_concat (part : List Char) :
    (escapedItems (part ++ ['*']) = escapedItems part ++ [.many] ∧
      (lowered part = lowered (Wildcard.sample 'a' (escapedItems part)) → EscapedPlain part)) ∨
      ∃ front p, part = front ++ ['\\'] ∧ escapedItems (part ++ ['*']) = p ++ [.lit '*'] := by
  induction part using escapedItems.induct with
  | case1 => exact Or.inl ⟨rfl, fun _ => by simp [EscapedPlain]⟩
  | case2 => exact Or.inr ⟨[], [], rfl, rfl⟩
  | case3 c rest ih =>
    have hitems : escapedItems ('\\' :: c :: rest ++ ['*']) =
        .lit c :: escapedItems (rest ++ ['*']) := rfl
    rcases ih with ⟨hconcat, _⟩ | ⟨front, p, rfl, hp⟩
    · refine Or.inl ⟨by rw [hitems, hconcat]; rfl, fun h => ?_⟩
      -- the sample is shorter
      have hshort := Nat.succ_lt_succ (Nat.lt_succ_of_le (length_escapedSample_le rest))
      exact absurd h.symm (lowered_ne_of_length hshort)
    · exact Or.inr ⟨'\\' :: c :: front, .lit c :: p, rfl, by rw [hitems, hp]; rfl⟩
  | case4 rest ih =>
    have hitems : escapedItems ('*' :: rest ++ ['*']) = .many :: escapedItems (rest ++ ['*']) := rfl
    rcases ih with ⟨hconcat, _⟩ | ⟨front, p, rfl, hp⟩
    · refine Or.inl ⟨by rw [hitems, hconcat]; rfl, fun h => ?_⟩
      have hshort := Nat.lt_succ_of_le (length_escapedSample_le rest)
      exact absurd h.symm (lowered_ne_of_length hshort)
    · exact Or.inr ⟨'*' :: front, .many :: p, rfl, by rw [hitems, hp]; rfl⟩
  | case5 rest ih =>
    have hitems : escapedItems ('?' :: rest ++ ['*']) = .one :: escapedItems (rest ++ ['*']) := rfl
    rcases ih with ⟨hconcat, _⟩ | ⟨front, p, rfl, hp⟩
    · refine Or.inl ⟨by rw [hitems, hconcat]; rfl, fun h => ?_⟩
      have hhead := congrArg List.head? h
      simp [lowered, escapedItems, Wildcard.sample] at hhead
    · exact Or.inr ⟨'?' :: front, .one :: p, rfl, by rw [hitems, hp]; rfl⟩
  | case6 c rest h₁ h₂ h₃ h₄ ih =>
    have hback : c ≠ '\\' := by
      intro hc
      cases rest with
      | nil => exact h₁ hc rfl
      | cons d rest => exact h₂ d rest hc rfl
    have hstar : c ≠ '*' := fun hc => h₃ hc
    have hone : c ≠ '?' := fun hc => h₄ hc
    have hstep := escapedItems_cons hstar hone hback
    rcases ih with ⟨hconcat, hplain⟩ | ⟨front, p, rfl, hp⟩
    · refine Or.inl ⟨by rw [List.cons_append, hstep, hconcat, hstep]; rfl, fun h => ?_⟩
      rw [hstep] at h
      obtain ⟨h₁, h₂, h₃⟩ := hplain (List.cons.inj h).2
      simp [EscapedPlain, h₁, h₂, h₃, Ne.symm hback, Ne.symm hstar, Ne.symm hone]
    · exact Or.inr ⟨c :: front, .lit c :: p, rfl, by rw [List.cons_append, hstep, hp]; rfl⟩

/-- A part with special characters is found where it is not, or not found where it is. -/
theorem exists_escapedMatch_of_special {part : List Char} (h : ¬ EscapedPlain part) :
    ∃ text, ¬ (EscapedMatch ('*' :: part ++ ['*']) text = true ↔ Within part text) := by
  have hitems : escapedItems ('*' :: part ++ ['*']) = .many :: escapedItems (part ++ ['*']) := rfl
  rcases escapedItems_concat part with ⟨hconcat, hplain⟩ | ⟨front, p, hpart, hp⟩
  · refine ⟨Wildcard.sample 'a' (escapedItems part), fun hiff => h (hplain ?_)⟩
    have hmatch : EscapedMatch ('*' :: part ++ ['*']) (Wildcard.sample 'a' (escapedItems part)) =
        true := by
      rw [EscapedMatch, hitems, hconcat]
      exact Wildcard.matchesText_around_sample 'a' _
    exact lowered_eq_of_within (hiff.mp hmatch) (length_escapedSample_le part)
  · refine ⟨part, fun hiff => ?_⟩
    have hmatch := hiff.mpr (List.infix_refl _)
    rw [EscapedMatch, hitems, hp, ← List.cons_append] at hmatch
    obtain ⟨front', d, hlast, hd⟩ := Wildcard.getLast?_of_matchesText hmatch
    have hsame := (List.append_inj' (hpart.symm.trans hlast) rfl).2
    obtain rfl : '\\' = d := List.singleton_inj.mp hsame
    exact absurd hd (by decide)

end Ragx
