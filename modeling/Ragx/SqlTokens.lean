import Mathlib.Data.List.Count
import Mathlib.Data.Option.Basic

/-!
# SQL tokens

The tokens of SQL expressions, read one character at a time: words, numbers, string literals
with doubled quotes, parameters, punctuation, comparison signs and both kinds of comments. What
is not listed is no token, nor is a text that ends inside a literal or has a null character.
-/
namespace Ragx

inductive SqlKeyword where
  | «and» | «or» | cast | «as» | «in» | like
deriving DecidableEq, Repr

def SqlKeyword.text : SqlKeyword → String
  | .and => "AND"
  | .or => "OR"
  | .cast => "CAST"
  | .as => "AS"
  | .in => "IN"
  | .like => "LIKE"

inductive SqlSign where
  | eq | ne | lt | le | gt | ge
deriving DecidableEq, Repr

inductive SqlToken where
  | word (text : List Char)
  | keyword (k : SqlKeyword)
  | number (digits : List Char)
  | literal (text : List Char)
  | param | lparen | rparen | comma | dot
  | sign (s : SqlSign)
deriving DecidableEq, Repr

namespace SqlLexer

/-- What was read since the last complete token. -/
inductive Mode where
  | blank
  | word (text : List Char)
  | number (digits : List Char)
  | literal (text : List Char)
  | quote (text : List Char)
  | equals | less | greater | bang | minus | slash | comment | block | star
deriving DecidableEq, Repr

def isBlank (c : Char) : Bool := c ∈ [' ', '\t', '\n', '\x0c', '\r']

def isWordStart (c : Char) : Bool := c.isAlpha || c == '_' || 0x80 ≤ c.val

def isWordChar (c : Char) : Bool := isWordStart c || c.isDigit || c == '$'

/-- Keywords are words in any case. -/
def wordToken (text : List Char) : SqlToken :=
  match [SqlKeyword.and, .or, .cast, .as, .in, .like].find? fun k =>
    k.text.toList = text.map Char.toUpper with
  | some k => .keyword k
  | none => .word text

/-- The first character of a token. -/
def start (c : Char) : Option (Mode × List SqlToken) :=
  if isBlank c then some (.blank, [])
  else if isWordStart c then some (.word [c], [])
  else if c.isDigit then some (.number [c], [])
  else match c with
    | '\'' => some (.literal [], [])
    | '?' => some (.blank, [.param])
    | '(' => some (.blank, [.lparen])
    | ')' => some (.blank, [.rparen])
    | ',' => some (.blank, [.comma])
    | '.' => some (.blank, [.dot])
    | '=' => some (.equals, [])
    | '<' => some (.less, [])
    | '>' => some (.greater, [])
    | '!' => some (.bang, [])
    | '-' => some (.minus, [])
    | '/' => some (.slash, [])
    | _ => none

/-- A token that ends before the character. -/
def after (t : SqlToken) (c : Char) : Option (Mode × List SqlToken) :=
  (start c).map fun r => (r.1, t :: r.2)

def step : Mode → Char → Option (Mode × List SqlToken)
  | .blank, c => start c
  | .word text, c =>
    if isWordChar c then some (.word (text ++ [c]), [])
    -- a quote after a lone x opens a blob
    else if c = '\'' ∧ text.map Char.toUpper = ['X'] then none
    else after (wordToken text) c
  | .number digits, c =>
    if c.isDigit then some (.number (digits ++ [c]), [])
    else if isWordChar c || c == '.' then none
    else after (.number digits) c
  | .literal text, c =>
    if c = '\'' then some (.quote text, [])
    else if c = '\x00' then none
    else some (.literal (text ++ [c]), [])
  | .quote text, c =>
    if c = '\'' then some (.literal (text ++ ['\'']), []) else after (.literal text) c
  | .equals, c => if c = '=' then some (.blank, [.sign .eq]) else after (.sign .eq) c
  | .less, c =>
    if c = '=' then some (.blank, [.sign .le])
    else if c = '>' then some (.blank, [.sign .ne])
    else if c = '<' then none
    else after (.sign .lt) c
  | .greater, c =>
    if c = '=' then some (.blank, [.sign .ge])
    else if c = '>' then none
    else after (.sign .gt) c
  | .bang, c => if c = '=' then some (.blank, [.sign .ne]) else none
  | .minus, c => if c = '-' then some (.comment, []) else none
  | .slash, c => if c = '*' then some (.block, []) else none
  | .comment, c =>
    if c = '\n' then some (.blank, []) else if c = '\x00' then none else some (.comment, [])
  | .block, c =>
    if c = '*' then some (.star, []) else if c = '\x00' then none else some (.block, [])
  | .star, c =>
    if c = '/' then some (.blank, [])
    else if c = '*' then some (.star, [])
    else if c = '\x00' then none
    else some (.block, [])

/-- What is left when the text ends. -/
def finish : Mode → Option (List SqlToken)
  | .blank | .comment | .block | .star => some []
  | .word text => some [wordToken text]
  | .number digits => some [.number digits]
  | .quote text => some [.literal text]
  | .equals => some [.sign .eq]
  | .less => some [.sign .lt]
  | .greater => some [.sign .gt]
  | .literal _ | .bang | .minus | .slash => none

/-- The mode and the tokens so far. -/
abbrev State := Mode × List SqlToken

def feed (s : State) (c : Char) : Option State := (step s.1 c).map fun r => (r.1, s.2 ++ r.2)

def scan (s : State) (text : List Char) : Option State := text.foldlM feed s

/-- All tokens, when the text ends here. -/
def tokens (s : State) (text : List Char) : Option (List SqlToken) :=
  (scan s text).bind fun s' => (finish s'.1).map (s'.2 ++ ·)

def lex (text : List Char) : Option (List SqlToken) := tokens (.blank, []) text

theorem scan_append (s : State) (xs ys : List Char) :
    scan s (xs ++ ys) = (scan s xs).bind fun s' => scan s' ys :=
  List.foldlM_append

theorem scan_cons (s : State) (c : Char) (cs : List Char) :
    scan s (c :: cs) = (feed s c).bind fun s' => scan s' cs :=
  List.foldlM_cons

theorem tokens_append {s s' : State} {xs : List Char} (h : scan s xs = some s') (ys : List Char) :
    tokens s (xs ++ ys) = tokens s' ys := by
  rw [tokens, scan_append, h]
  rfl

theorem tokens_cons {s s' : State} {c : Char} (h : feed s c = some s') (cs : List Char) :
    tokens s (c :: cs) = tokens s' cs := by
  have hscan : scan s [c] = some s' := by
    rw [scan_cons, h]
    rfl
  exact tokens_append hscan cs

theorem scan_prepend (m : Mode) (acc : List SqlToken) (text : List Char) :
    scan (m, acc) text = (scan (m, []) text).map fun s => (s.1, acc ++ s.2) := by
  have hfeed (m : Mode) (acc us : List SqlToken) (c : Char) :
      feed (m, acc ++ us) c = (feed (m, us) c).map fun s => (s.1, acc ++ s.2) := by
    simp [feed, Function.comp_def]
  have hscan (text : List Char) (m : Mode) (us : List SqlToken) :
      scan (m, acc ++ us) text = (scan (m, us) text).map fun s => (s.1, acc ++ s.2) := by
    induction text generalizing m us with
    | nil => rfl
    | cons c cs ih =>
      rw [scan_cons, scan_cons, hfeed]
      cases feed (m, us) c with
      | none => rfl
      | some s => exact ih s.1 s.2
  simpa using hscan text m []

/-- Tokens are only added. -/
theorem tokens_eq_append {s : State} {text : List Char} {ts : List SqlToken}
    (h : tokens s text = some ts) : ∃ more, ts = s.2 ++ more := by
  induction text generalizing s with
  | nil =>
    obtain ⟨more, _, rfl⟩ := Option.map_eq_some_iff.mp h
    exact ⟨more, rfl⟩
  | cons c cs ih =>
    cases hfeed : feed s c with
    | none => simp [tokens, scan_cons, hfeed] at h
    | some s' =>
      rw [tokens_cons hfeed] at h
      obtain ⟨more, rfl⟩ := ih h
      obtain ⟨r, _, rfl⟩ := Option.map_eq_some_iff.mp hfeed
      exact ⟨r.2 ++ more, List.append_assoc _ _ _⟩

/-! ## Literals -/

/-- What a literal with this content looks like between its quotes. -/
def doubled (text : List Char) : List Char :=
  text.flatMap fun c => if c = '\'' then ['\'', '\''] else [c]

/-- A literal ends at a quote that no other quote follows. -/
theorem tokens_quote {text : List Char} {acc ts : List SqlToken} {cs : List Char}
    (hcs : cs.head? ≠ some '\'') (h : tokens (.quote text, acc) cs = some ts) :
    ∃ more, ts = acc ++ .literal text :: more := by
  cases cs with
  | nil =>
    have hend : acc ++ [.literal text] = ts := Option.some.inj h
    exact ⟨[], hend.symm⟩
  | cons d cs =>
    have hd : d ≠ '\'' := fun hd => hcs (by simp [hd])
    cases hstart : start d with
    | none => simp [tokens, scan_cons, feed, step, hd, after, hstart] at h
    | some r =>
      have hfeed : feed (.quote text, acc) d = some (r.1, acc ++ .literal text :: r.2) := by
        simp [feed, step, hd, after, hstart]
      rw [tokens_cons hfeed] at h
      obtain ⟨more, rfl⟩ := tokens_eq_append h
      exact ⟨r.2 ++ more, by simp⟩

/-- Until then its content is read with the quotes undone. -/
theorem tokens_literal {text : List Char} {acc ts : List SqlToken} {cs : List Char}
    (h : tokens (.literal text, acc) cs = some ts) :
    ∃ content rest more, cs = doubled content ++ '\'' :: rest ∧ rest.head? ≠ some '\'' ∧
      '\x00' ∉ content ∧ ts = acc ++ .literal (text ++ content) :: more := by
  induction hn : cs.length using Nat.strongRecOn generalizing text cs with
  | ind n ih =>
    cases cs with
    | nil => simp [tokens, scan, finish] at h
    | cons c cs =>
      have hshorter : cs.length < n := by
        rw [← hn]
        exact Nat.lt_succ_self _
      by_cases hquote : c = '\''
      · subst hquote
        have hfeed : feed (.literal text, acc) '\'' = some (.quote text, acc) := by
          simp [feed, step]
        rw [tokens_cons hfeed] at h
        by_cases hagain : cs.head? = some '\''
        · -- a doubled quote: the literal goes on
          obtain ⟨cs, rfl⟩ := List.head?_eq_some_iff.mp hagain
          have hdouble : feed (.quote text, acc) '\'' = some (.literal (text ++ ['\'']), acc) := by
            simp [feed, step]
          rw [tokens_cons hdouble] at h
          obtain ⟨content, rest, more, rfl, hrest, hnull, rfl⟩ :=
            ih cs.length (Nat.lt_of_succ_lt hshorter) h rfl
          exact ⟨'\'' :: content, rest, more, by simp [doubled], hrest, by simpa using hnull,
            by simp⟩
        · obtain ⟨more, rfl⟩ := tokens_quote hagain h
          exact ⟨[], cs, more, by simp [doubled], hagain, by simp, by simp⟩
      · have hnull : c ≠ '\x00' := by
          intro hnull
          simp [tokens, scan_cons, feed, step, hnull] at h
        have hfeed : feed (.literal text, acc) c = some (.literal (text ++ [c]), acc) := by
          simp [feed, step, hquote, hnull]
        rw [tokens_cons hfeed] at h
        obtain ⟨content, rest, more, rfl, hrest, hno, rfl⟩ := ih cs.length hshorter h rfl
        exact ⟨c :: content, rest, more, by simp [doubled, hquote], hrest,
          by simp [Ne.symm hnull, hno], by simp⟩

/-- A text is the content of a literal when it is put between quotes as it is. -/
def Plain (text : List Char) : Prop := '\'' ∉ text ∧ '\x00' ∉ text

instance (text : List Char) : Decidable (Plain text) := inferInstanceAs (Decidable (_ ∧ _))

theorem scan_plain {content : List Char} (h : Plain content) (text : List Char)
    (acc : List SqlToken) :
    scan (.literal text, acc) content = some (.literal (text ++ content), acc) := by
  induction content generalizing text with
  | nil => simp [scan]
  | cons c cs ih =>
    obtain ⟨hquote, hnull⟩ := h
    rw [List.mem_cons, not_or] at hquote hnull
    have hfeed : feed (.literal text, acc) c = some (.literal (text ++ [c]), acc) := by
      simp [feed, step, Ne.symm hquote.1, Ne.symm hnull.1]
    rw [scan_cons, hfeed, Option.bind_some, ih ⟨hquote.2, hnull.2⟩, List.append_assoc]
    rfl

theorem length_doubled (text : List Char) :
    (doubled text).length = text.length + text.count '\'' := by
  induction text with
  | nil => rfl
  | cons c cs ih =>
    rw [doubled, List.flatMap_cons, ← doubled, List.length_append, ih]
    by_cases hc : c = '\''
    · simp [hc]
      omega
    · simp [hc]
      omega

theorem count_doubled (text : List Char) :
    (doubled text).count '\'' = 2 * text.count '\'' := by
  induction text with
  | nil => rfl
  | cons c cs ih =>
    rw [doubled, List.flatMap_cons, ← doubled, List.count_append, ih]
    by_cases hc : c = '\''
    · simp [hc]
      omega
    · simp [hc]

/-- A text with a quote in it, put between quotes as it is, is not the content that is read:
counting the quotes of both sides, something after the closing quote would have to be one. -/
theorem count_eq_zero_of_doubled {text rest tail : List Char} (htail : tail.head? ≠ some '\'')
    (hne : tail ≠ [])
    (h : doubled text ++ '\'' :: rest = text ++ '\'' :: tail) : text.count '\'' = 0 := by
  have hlength := length_doubled text
  have hcount := congrArg (fun cs => (cs.take ((doubled text).length + 1)).count '\'') h
  have hleft : (doubled text ++ '\'' :: rest).take ((doubled text).length + 1) =
      doubled text ++ ['\''] := by
    rw [List.take_append, List.take_of_length_le (by omega)]
    simp
  have hright : (text ++ '\'' :: tail).take ((doubled text).length + 1) =
      text ++ '\'' :: tail.take (text.count '\'') := by
    rw [List.take_append, List.take_of_length_le (by omega), hlength,
      show text.length + text.count '\'' + 1 - text.length = text.count '\'' + 1 by omega,
      List.take_succ_cons]
  simp only [hleft, hright, List.count_append, count_doubled, List.count_cons_self,
    List.count_nil] at hcount
  cases hk : text.count '\'' with
  | zero => rfl
  | succ k =>
    obtain ⟨d, tail, rfl⟩ := List.exists_cons_of_ne_nil hne
    have hd : d ≠ '\'' := fun hd => htail (by simp [hd])
    rw [hk, List.take_succ_cons, List.count_cons_of_ne hd] at hcount
    have hle := (List.count_le_length (a := '\'') (l := tail.take k))
    have hshort := List.length_take_le k tail
    omega

/-! ## Reading exactly -/

/-- From the mode the text is read as the tokens if the condition holds, and no text that begins
with it is if the condition fails. -/
structure ReadsIff (m : Mode) (text : List Char) (m' : Mode) (ts : List SqlToken) (P : Prop) :
    Prop where
  reads : P → ∀ acc, scan (m, acc) text = some (m', acc ++ ts)
  only : ∀ acc rest more, tokens (m, acc) (text ++ rest) = some (acc ++ ts ++ more) → P

namespace ReadsIff

variable {m m' m'' : Mode} {xs ys : List Char} {ts us : List SqlToken} {P Q : Prop}

theorem of_scan (h : ∀ acc, scan (m, acc) xs = some (m', acc ++ ts)) : ReadsIff m xs m' ts True :=
  ⟨fun _ => h, fun _ _ _ _ => trivial⟩

theorem append (h : ReadsIff m xs m' ts P) (h' : ReadsIff m' ys m'' us Q) :
    ReadsIff m (xs ++ ys) m'' (ts ++ us) (P ∧ Q) where
  reads hPQ acc := by
    rw [scan_append, h.reads hPQ.1, Option.bind_some, h'.reads hPQ.2, List.append_assoc]
  only acc rest more htokens := by
    rw [List.append_assoc] at htokens
    have hP : P := h.only acc (ys ++ rest) (us ++ more) (by rw [htokens]; simp)
    rw [tokens_append (h.reads hP acc)] at htokens
    exact ⟨hP, h'.only (acc ++ ts) rest more (by rw [htokens]; simp)⟩

/-- What is read does not depend on what was read before. -/
theorem of_scan_nil (h : scan (m, []) xs = some (m', ts)) : ReadsIff m xs m' ts True :=
  of_scan fun acc => by rw [scan_prepend, h]; rfl

theorem congr (h : ReadsIff m xs m' ts P) (hPQ : P ↔ Q) : ReadsIff m xs m' ts Q :=
  ⟨fun hQ => h.reads (hPQ.mpr hQ), fun acc rest more ht => hPQ.mp (h.only acc rest more ht)⟩

/-- A text between quotes, with a closing parenthesis after it. -/
theorem quoted {before : List Char} (content : List Char) (hbefore : Plain before) :
    ReadsIff .blank ('\'' :: before ++ content ++ ['\'', ')']) .blank
      [.literal (before ++ content), .rparen] (Plain content) where
  reads hplain acc := by
    have hboth : Plain (before ++ content) := by
      simp only [Plain, List.mem_append, not_or] at *
      exact ⟨⟨hbefore.1, hplain.1⟩, ⟨hbefore.2, hplain.2⟩⟩
    have hopen : feed (.blank, acc) '\'' = some (.literal [], acc) := by
      simp [feed, step, start, isBlank, isWordStart]
    rw [List.cons_append, List.cons_append, scan_cons, hopen, Option.bind_some, scan_append,
      scan_plain hboth, Option.bind_some]
    simp [scan, feed, step, after, start, isBlank, isWordStart]
  only acc rest more htokens := by
    have hopen : feed (.blank, acc) '\'' = some (.literal [], acc) := by
      simp [feed, step, start, isBlank, isWordStart]
    rw [List.cons_append, List.cons_append, List.cons_append, tokens_cons hopen, List.append_assoc,
      List.append_assoc, tokens_append (scan_plain hbefore [] acc)] at htokens
    obtain ⟨found, after, more', htext, _, hnull, hts⟩ := tokens_literal htokens
    have hfound : found = content := by
      simp only [List.append_assoc, List.nil_append, List.append_cancel_left_eq, List.cons_append,
        List.cons.injEq, SqlToken.literal.injEq] at hts
      exact hts.1.symm
    subst hfound
    have hzero := count_eq_zero_of_doubled (by simp) (by simp) htext.symm
    exact ⟨List.count_eq_zero.mp hzero, hnull⟩

/-- Texts that are joined by a separator are read one after the other. -/
theorem intercalate {α : Type*} {sep : List Char} {sepTokens : List SqlToken}
    (hsep : ReadsIff .blank sep .blank sepTokens True) {text : α → List Char}
    {toks : α → List SqlToken} {P : α → Prop} {items : List α}
    (h : ∀ x ∈ items, ReadsIff .blank (text x) .blank (toks x) (P x)) :
    ReadsIff .blank (sep.intercalate (items.map text)) .blank
      (sepTokens.intercalate (items.map toks)) (∀ x ∈ items, P x) := by
  induction items with
  | nil => exact (of_scan_nil rfl).congr (by simp)
  | cons x xs ih =>
    have hx := h x List.mem_cons_self
    have hxs := ih fun y hy => h y (List.mem_cons_of_mem x hy)
    cases xs with
    | nil =>
      simp only [List.map_cons, List.map_nil, List.intercalate_singleton]
      exact hx.congr (by simp)
    | cons y ys =>
      have hall : P x ∧ True ∧ (∀ z ∈ y :: ys, P z) ↔ ∀ z ∈ x :: y :: ys, P z := by simp
      simp only [List.map_cons, List.intercalate_cons_cons, List.append_assoc] at hxs ⊢
      exact (hx.append (hsep.append hxs)).congr hall

end ReadsIff

/-- A text that ends between tokens has exactly its tokens. -/
theorem lex_eq_some_iff {text : List Char} {ts : List SqlToken} {P : Prop}
    (h : ReadsIff .blank text .blank ts P) : lex text = some ts ↔ P := by
  constructor
  · intro hlex
    exact h.only [] [] [] (by simpa [lex] using hlex)
  · intro hP
    rw [lex, tokens, h.reads hP]
    simp [finish]

end SqlLexer

end Ragx
