import Mathlib.Data.List.Basic
import Mathlib.Data.List.Infix

/-!
# Regular expressions that backtrack

Expressions over classes of characters, with greedy repetition, groups, a look at the character
before and word boundaries. All ways in which an expression can match are listed in the order in
which backtracking tries them, and the first one is the match. The list is then characterised by a
relation that knows nothing of the order.
-/
namespace Ragx.Patterns

inductive Pattern where
  | char (p : Char → Bool)
  | seq (first second : Pattern)
  | either (first second : Pattern)
  /-- Greedy repetition; without `max` there is no bound. -/
  | many (body : Pattern) (min : ℕ) (max : Option ℕ)
  | group (index : ℕ) (body : Pattern)
  /-- `(?<!...)` for a single character. -/
  | notAfter (p : Char → Bool)
  /-- `\b`. -/
  | boundary (isWord : Char → Bool)

/-- One text literally. -/
def Pattern.word (c : Char) : List Char → Pattern
  | [] => .char (· == c)
  | d :: cs => .seq (.char (· == c)) (word d cs)

/-- The groups in the order in which they open. -/
def Pattern.indices : Pattern → List ℕ
  | .char _ | .notAfter _ | .boundary _ => []
  | .seq first second | .either first second => first.indices ++ second.indices
  | .many body _ _ => body.indices
  | .group index body => index :: body.indices

/-- A class `[lo-hi]`. -/
def inRange (lo hi c : Char) : Bool := lo.toNat ≤ c.toNat && c.toNat ≤ hi.toNat

/-- A place in a text: the character before it, what follows, and the groups so far, the last one
first. -/
structure Cursor where
  before : Option Char
  rest : List Char
  groups : List (ℕ × List Char) := []

/-- What has been read between two places. -/
def consumed (c c' : Cursor) : List Char := c.rest.take (c.rest.length - c'.rest.length)

def Cursor.Advances (c c' : Cursor) : Prop := c'.rest.length < c.rest.length

instance (c c' : Cursor) : Decidable (c.Advances c') :=
  inferInstanceAs (Decidable (c'.rest.length < c.rest.length))

/-- Up to `n` rounds, as many as possible first; every round reads something. -/
def rounds (step : Cursor → List Cursor) : (min n : ℕ) → Cursor → List Cursor
  | min, 0, c => if min = 0 then [c] else []
  | min, n + 1, c =>
    ((step c).filter fun c' => c.Advances c').flatMap (rounds step (min - 1) n) ++
      if min = 0 then [c] else []

/-- The places that a match can lead to, in the order in which they are tried. -/
def results : Pattern → Cursor → List Cursor
  | .char p, c =>
    match c.rest with
    | [] => []
    | x :: rest => if p x then [{ c with before := some x, rest }] else []
  | .seq first second, c => (results first c).flatMap (results second)
  | .either first second, c => results first c ++ results second c
  | .many body min max, c => rounds (results body) min (max.getD c.rest.length) c
  | .group index body, c =>
    (results body c).map fun c' => { c' with groups := (index, consumed c c') :: c'.groups }
  | .notAfter p, c => if c.before.any p then [] else [c]
  | .boundary isWord, c =>
    if c.before.any isWord ≠ c.rest.head?.any isWord then [c] else []

/-! ## What a match is -/

/-- So many rounds, each of which reads something. -/
def Rounds (step : Cursor → Cursor → Prop) : ℕ → Cursor → Cursor → Prop
  | 0, c, c' => c' = c
  | n + 1, c, c' => ∃ mid, step c mid ∧ c.Advances mid ∧ Rounds step n mid c'

/-- The expression can match from one place to another. -/
def Reads : Pattern → Cursor → Cursor → Prop
  | .char p, c, c' => ∃ x rest, c.rest = x :: rest ∧ p x = true ∧
      c' = { c with before := some x, rest }
  | .seq first second, c, c' => ∃ mid, Reads first c mid ∧ Reads second mid c'
  | .either first second, c, c' => Reads first c c' ∨ Reads second c c'
  | .many body min max, c, c' => ∃ n, min ≤ n ∧ (∀ m, max = some m → n ≤ m) ∧
      Rounds (Reads body) n c c'
  | .group index body, c, c' => ∃ mid, Reads body c mid ∧
      c' = { mid with groups := (index, consumed c mid) :: mid.groups }
  | .notAfter p, c, c' => c.before.any p = false ∧ c' = c
  | .boundary isWord, c, c' => c.before.any isWord ≠ c.rest.head?.any isWord ∧ c' = c

theorem mem_rounds {step : Cursor → List Cursor} {c c' : Cursor} {min n : ℕ} :
    c' ∈ rounds step min n c ↔
      ∃ k, min ≤ k ∧ k ≤ n ∧ Rounds (fun a b => b ∈ step a) k c c' := by
  induction n generalizing min c with
  | zero =>
    unfold rounds
    constructor
    · intro h
      split_ifs at h with hmin
      · exact ⟨0, hmin.le, le_rfl, List.mem_singleton.mp h⟩
      · exact absurd h List.not_mem_nil
    · rintro ⟨k, hmin, hk, hrounds⟩
      obtain rfl : k = 0 := Nat.le_zero.mp hk
      rw [if_pos (Nat.le_zero.mp hmin)]
      exact List.mem_singleton.mpr hrounds
  | succ n ih =>
    rw [rounds, List.mem_append, List.mem_flatMap]
    constructor
    · rintro (⟨mid, hmid, hrest⟩ | h)
      · obtain ⟨hstep, hadvances⟩ := List.mem_filter.mp hmid
        obtain ⟨k, hmin, hk, hrounds⟩ := ih.mp hrest
        exact ⟨k + 1, by omega, by omega, mid, hstep, of_decide_eq_true hadvances, hrounds⟩
      · split_ifs at h with hmin
        · exact ⟨0, hmin.le, Nat.zero_le _, List.mem_singleton.mp h⟩
        · exact absurd h List.not_mem_nil
    · rintro ⟨k, hmin, hk, hrounds⟩
      cases k with
      | zero =>
        refine .inr ?_
        rw [if_pos (Nat.le_zero.mp hmin)]
        exact List.mem_singleton.mpr hrounds
      | succ k =>
        obtain ⟨mid, hstep, hadvances, hrest⟩ := hrounds
        refine .inl ⟨mid, List.mem_filter.mpr ⟨hstep, decide_eq_true hadvances⟩, ?_⟩
        exact ih.mpr ⟨k, by omega, by omega, hrest⟩

/-- Every round reads something, so there are no more rounds than characters. -/
theorem le_length_of_rounds {step : Cursor → Cursor → Prop} {n : ℕ} {c c' : Cursor}
    (h : Rounds step n c c') : n + c'.rest.length ≤ c.rest.length := by
  induction n generalizing c with
  | zero =>
    cases h
    rw [Nat.zero_add]
  | succ n ih =>
    obtain ⟨mid, -, hadvances, hrest⟩ := h
    have hlength := ih hrest
    unfold Cursor.Advances at hadvances
    omega

theorem mem_results {p : Pattern} {c c' : Cursor} : c' ∈ results p c ↔ Reads p c c' := by
  induction p generalizing c c' with
  | char p =>
    unfold results Reads
    cases hrest : c.rest with
    | nil => simp
    | cons x rest =>
      dsimp only
      split_ifs with hp
      · simp [hp]
      · simp [hp]
  | seq first second hfirst hsecond =>
    simp only [results, Reads, List.mem_flatMap, hfirst, hsecond]
  | either first second hfirst hsecond =>
    simp only [results, Reads, List.mem_append, hfirst, hsecond]
  | many body min max hbody =>
    have hstep : (fun a b => b ∈ results body a) = Reads body := by
      funext a b
      exact propext hbody
    rw [results, mem_rounds, hstep]
    refine exists_congr fun n => and_congr_right fun _ => ?_
    cases max with
    | none => exact ⟨fun h => ⟨nofun, h.2⟩, fun h => ⟨by
        have hlength := le_length_of_rounds h.2
        exact (Nat.le_add_right _ _).trans hlength, h.2⟩⟩
    | some m => simp
  | group index body hbody =>
    simp only [results, Reads, List.mem_map, hbody, eq_comm]
  | notAfter p =>
    unfold results Reads
    split_ifs with hp
    · simp [hp]
    · simp [hp]
  | boundary isWord =>
    unfold results Reads
    split_ifs with hp
    · simp [hp]
    · simp [hp]

/-! ## What a match reads -/

theorem suffix_of_rounds {step : Cursor → Cursor → Prop} {n : ℕ} {c c' : Cursor}
    (hstep : ∀ a b, step a b → b.rest <:+ a.rest) (h : Rounds step n c c') :
    c'.rest <:+ c.rest := by
  induction n generalizing c with
  | zero =>
    cases h
    exact List.suffix_rfl
  | succ n ih =>
    obtain ⟨mid, hmid, -, hrest⟩ := h
    exact (ih hrest).trans (hstep c mid hmid)

/-- A match reads from the front of the text. -/
theorem suffix_of_reads {p : Pattern} {c c' : Cursor} (h : Reads p c c') :
    c'.rest <:+ c.rest := by
  induction p generalizing c c' with
  | char p =>
    obtain ⟨x, rest, hrest, -, rfl⟩ := h
    rw [hrest]
    exact List.suffix_cons x rest
  | seq first second hfirst hsecond =>
    obtain ⟨mid, h₁, h₂⟩ := h
    exact (hsecond h₂).trans (hfirst h₁)
  | either first second hfirst hsecond => exact h.elim hfirst hsecond
  | many body min max hbody =>
    obtain ⟨n, -, -, hrounds⟩ := h
    exact suffix_of_rounds (fun a b => hbody) hrounds
  | group index body hbody =>
    obtain ⟨mid, hmid, rfl⟩ := h
    have hsuffix : mid.rest <:+ c.rest := hbody hmid
    exact hsuffix
  | notAfter p =>
    obtain ⟨-, rfl⟩ := h
    exact List.suffix_rfl
  | boundary isWord =>
    obtain ⟨-, rfl⟩ := h
    exact List.suffix_rfl

theorem consumed_append {c c' : Cursor} (h : c'.rest <:+ c.rest) :
    consumed c c' ++ c'.rest = c.rest := by
  obtain ⟨front, hfront⟩ := h
  unfold consumed
  rw [← hfront, List.length_append, Nat.add_sub_cancel, List.take_left]

theorem consumed_eq {c c' : Cursor} {front : List Char} (h : c.rest = front ++ c'.rest) :
    consumed c c' = front := by
  unfold consumed
  rw [h, List.length_append, Nat.add_sub_cancel, List.take_left]

/-! ## Runs of characters -/

/-- Repeating a class of characters reads a run of them. -/
theorem reads_many_char {p : Char → Bool} {min : ℕ} {max : Option ℕ} {c c' : Cursor}
    (h : Reads (.many (.char p) min max) c c') :
    ∃ run, c.rest = run ++ c'.rest ∧ (∀ x ∈ run, p x = true) ∧ min ≤ run.length ∧
      (∀ m, max = some m → run.length ≤ m) ∧ c'.groups = c.groups := by
  obtain ⟨n, hmin, hmax, hrounds⟩ := h
  suffices hrun : ∃ run, c.rest = run ++ c'.rest ∧ (∀ x ∈ run, p x = true) ∧ run.length = n ∧
      c'.groups = c.groups by
    obtain ⟨run, hrest, hall, rfl, hgroups⟩ := hrun
    exact ⟨run, hrest, hall, hmin, hmax, hgroups⟩
  clear hmin hmax
  induction n generalizing c with
  | zero =>
    cases hrounds
    exact ⟨[], rfl, nofun, rfl, rfl⟩
  | succ n ih =>
    obtain ⟨mid, ⟨x, rest, hrest, hx, rfl⟩, -, hrounds⟩ := hrounds
    obtain ⟨run, hrun, hall, hlength, hgroups⟩ := ih hrounds
    refine ⟨x :: run, ?_, ?_, congrArg (· + 1) hlength, hgroups⟩
    · rw [hrest, List.cons_append, ← hrun]
    · rintro y (_ | ⟨_, hy⟩)
      · exact hx
      · exact hall y hy

/-- A group around a repeated class keeps the run. -/
theorem reads_group_many_char {p : Char → Bool} {index min : ℕ} {max : Option ℕ} {c c' : Cursor}
    (h : Reads (.group index (.many (.char p) min max)) c c') :
    ∃ run, (∀ x ∈ run, p x = true) ∧ min ≤ run.length ∧
      c'.groups = (index, run) :: c.groups := by
  obtain ⟨mid, hmid, rfl⟩ := h
  obtain ⟨run, hrest, hall, hmin, -, hgroups⟩ := reads_many_char hmid
  exact ⟨run, hall, hmin, by rw [consumed_eq hrest, hgroups]⟩

theorem reads_word {d : Char} {ds : List Char} {c c' : Cursor} (h : Reads (.word d ds) c c') :
    c.rest = d :: ds ++ c'.rest ∧ c'.groups = c.groups := by
  induction ds generalizing d c with
  | nil =>
    obtain ⟨x, rest, hrest, hx, rfl⟩ := h
    exact ⟨by rw [hrest, beq_iff_eq.mp hx]; rfl, rfl⟩
  | cons e ds ih =>
    obtain ⟨_, ⟨x, rest, hrest, hx, rfl⟩, hword⟩ := h
    obtain ⟨hrest', hgroups⟩ := ih hword
    dsimp only at hrest' hgroups
    exact ⟨by rw [hrest, beq_iff_eq.mp hx, hrest']; rfl, hgroups⟩

theorem getLast?_cons_or (before : Option Char) (c : Char) (w : List Char) :
    (c :: w).getLast?.or before = w.getLast?.or (some c) := by
  rw [List.getLast?_cons]
  cases w.getLast? <;> rfl

theorem reads_many_char_of_run {p : Char → Bool} {min : ℕ} {max : Option ℕ} {run : List Char}
    (hall : ∀ x ∈ run, p x = true) (hmin : min ≤ run.length)
    (hmax : ∀ m, max = some m → run.length ≤ m) (before : Option Char) (rest : List Char)
    (groups : List (ℕ × List Char)) :
    Reads (.many (.char p) min max) { before, rest := run ++ rest, groups }
      { before := run.getLast?.or before, rest, groups } := by
  refine ⟨run.length, hmin, hmax, ?_⟩
  clear hmin hmax
  induction run generalizing before with
  | nil => rfl
  | cons x run ih =>
    refine ⟨_, ⟨x, run ++ rest, rfl, hall x List.mem_cons_self, rfl⟩, Nat.lt_succ_self _, ?_⟩
    rw [getLast?_cons_or]
    exact ih (fun y hy => hall y (List.mem_cons_of_mem x hy)) (some x)

/-- A repetition without bounds reads any run of the class. -/
theorem reads_run {p : Char → Bool} {run : List Char} (hall : ∀ x ∈ run, p x = true)
    (before : Option Char) (rest : List Char) (groups : List (ℕ × List Char)) :
    Reads (.many (.char p) 0 none) { before, rest := run ++ rest, groups }
      { before := run.getLast?.or before, rest, groups } := by
  refine reads_many_char_of_run hall (Nat.zero_le _) ?_ before rest groups
  exact fun _ h => nomatch h

/-! ## Matches in a text -/

/-- A match with its text and its groups, the last one first. -/
structure Match where
  text : List Char
  groups : List (ℕ × List Char)

/-- The text of a group, if it has taken part in the match. -/
def Match.group (m : Match) (index : ℕ) : Option (List Char) :=
  (m.groups.find? fun g => g.1 = index).map (·.2)

theorem Match.group_of_groups {m : Match} {groups : List (ℕ × List Char)}
    (h : m.groups = groups) (index : ℕ) :
    m.group index = (groups.find? fun g => g.1 = index).map (·.2) := by
  rw [Match.group, h]

/-- `groups()` of a match of the expression. -/
def Match.groupTexts (m : Match) (p : Pattern) : List (Option (List Char)) :=
  p.indices.map m.group

/-- The match at a place. The expressions are meant not to match the empty text. -/
def matchAt (p : Pattern) (before : Option Char) (text : List Char) : Option Match :=
  let c : Cursor := { before, rest := text }
  ((results p c).find? fun c' => c.Advances c').map fun c' => ⟨consumed c c', c'.groups⟩

/-- What lies between the matches, character by character, and the matches. -/
inductive Piece where
  | char (c : Char)
  | found (m : Match)

def Piece.text : Piece → List Char
  | .char c => [c]
  | .found m => m.text

def Piece.match? : Piece → Option Match
  | .char _ => none
  | .found m => some m

/-- The text from left to right, behind so many characters of the last match. -/
def scan (p : Pattern) : ℕ → Option Char → List Char → List Piece
  | _, _, [] => []
  | skip + 1, _, c :: rest => scan p skip (some c) rest
  | 0, before, c :: rest =>
    match matchAt p before (c :: rest) with
    | none => .char c :: scan p 0 (some c) rest
    | some m => .found m :: scan p (m.text.length - 1) (some c) rest

def pieces (p : Pattern) (text : List Char) : List Piece := scan p 0 none text

/-- `finditer`. -/
def finditer (p : Pattern) (text : List Char) : List Match := (pieces p text).filterMap Piece.match?

/-- `sub` with a function of the match. -/
def sub (p : Pattern) (replace : Match → List Char) (text : List Char) : List Char :=
  (pieces p text).flatMap fun piece =>
    match piece with
    | .char c => [c]
    | .found m => replace m

section Scan

variable {p : Pattern} {before : Option Char} {text : List Char} {m : Match}

theorem matchAt_eq_some (h : matchAt p before text = some m) :
    ∃ c', Reads p { before, rest := text } c' ∧ m.groups = c'.groups ∧
      text = m.text ++ c'.rest ∧ m.text ≠ [] := by
  obtain ⟨c', hc', rfl⟩ := Option.map_eq_some_iff.mp h
  have hadvances : Cursor.Advances { before, rest := text } c' := by
    simpa using List.find?_some hc'
  have hreads := mem_results.mp (List.mem_of_find?_eq_some hc')
  have htext := consumed_append (suffix_of_reads hreads)
  refine ⟨c', hreads, rfl, htext.symm, fun hnil => ?_⟩
  dsimp only at hnil
  rw [hnil] at htext
  unfold Cursor.Advances at hadvances
  rw [← htext] at hadvances
  exact lt_irrefl _ hadvances

/-- Where the expression can read something, there is a match. -/
theorem exists_matchAt {c' : Cursor} (h : Reads p { before, rest := text } c')
    (hadvances : Cursor.Advances { before, rest := text } c') :
    ∃ m, matchAt p before text = some m := by
  have hsome : ((results p { before, rest := text }).find? fun c' =>
      Cursor.Advances { before, rest := text } c').isSome = true :=
    List.find?_isSome.mpr ⟨c', mem_results.mpr h, decide_eq_true hadvances⟩
  obtain ⟨found, hfound⟩ := Option.isSome_iff_exists.mp hsome
  exact ⟨_, by rw [matchAt, hfound]; rfl⟩

theorem scan_skip (w : List Char) :
    scan p w.length before (w ++ text) = scan p 0 (w.getLast?.or before) text := by
  induction w generalizing before with
  | nil => rfl
  | cons c w ih => rw [List.length_cons, List.cons_append, scan, ih, getLast?_cons_or]

/-- Behind a match the scan goes on at its end. -/
theorem scan_found {c : Char} {rest back : List Char} (h : matchAt p before (c :: rest) = some m)
    (hback : c :: rest = m.text ++ back) :
    scan p 0 before (c :: rest) = .found m :: scan p 0 m.text.getLast? back := by
  obtain ⟨c', -, -, -, hne⟩ := matchAt_eq_some h
  obtain ⟨d, w, hw⟩ := List.exists_cons_of_ne_nil hne
  rw [hw, List.cons_append] at hback
  obtain ⟨rfl, rfl⟩ := List.cons.inj hback
  have hlast : (c :: w).getLast? = w.getLast?.or (some c) := by
    rw [← getLast?_cons_or none, Option.or_none]
  rw [scan, h]
  dsimp only
  rw [hw, List.length_cons, Nat.add_sub_cancel, scan_skip, hlast]

/-- Every match of a scan stands in the text. -/
theorem exists_of_found_mem_scan (h : .found m ∈ scan p 0 before text) :
    ∃ front back before', text = front ++ (m.text ++ back) ∧
      matchAt p before' (m.text ++ back) = some m := by
  induction hn : text.length using Nat.strong_induction_on generalizing text before with
  | _ n ih =>
    subst hn
    cases text with
    | nil => exact absurd h List.not_mem_nil
    | cons c rest =>
      cases hmatch : matchAt p before (c :: rest) with
      | none =>
        rw [scan, hmatch] at h
        obtain h | h := List.mem_cons.mp h
        · exact nomatch h
        · obtain ⟨front, back, before', rfl, hm⟩ := ih _ (Nat.lt_succ_self _) h rfl
          exact ⟨c :: front, back, before', rfl, hm⟩
      | some found =>
        obtain ⟨c', -, -, hback, hne⟩ := matchAt_eq_some hmatch
        rw [scan_found hmatch hback] at h
        obtain h | h := List.mem_cons.mp h
        · cases h
          exact ⟨[], c'.rest, before, hback, hback ▸ hmatch⟩
        · have hlength : c'.rest.length < (c :: rest).length := by
            rw [hback, List.length_append]
            have hpos := List.length_pos_of_ne_nil hne
            omega
          obtain ⟨front, back, before', hrest, hm⟩ := ih _ hlength h rfl
          refine ⟨found.text ++ front, back, before', ?_, hm⟩
          rw [hback, hrest, List.append_assoc]

theorem mem_finditer (h : m ∈ finditer p text) : ∃ front back before c',
    text = front ++ (m.text ++ back) ∧ Reads p { before, rest := m.text ++ back } c' ∧
      c'.rest = back ∧ m.groups = c'.groups ∧ m.text ≠ [] := by
  obtain ⟨piece, hpiece, hm⟩ := List.mem_filterMap.mp h
  cases piece with
  | char c => exact nomatch hm
  | found found =>
    cases hm
    obtain ⟨front, back, before, htext, hmatch⟩ := exists_of_found_mem_scan hpiece
    obtain ⟨c', hreads, hgroups, hrest, hne⟩ := matchAt_eq_some hmatch
    exact ⟨front, back, before, c', htext, hreads, (List.append_cancel_left hrest).symm, hgroups,
      hne⟩

end Scan

end Ragx.Patterns
