import Ragx.Chunker
import Ragx.Patterns

/-!
# Prompt templates

A template is rendered by a regular expression for its placeholders. A text falls in one way only
into placeholders and other characters, and rendering puts a value in the place of each
placeholder and leaves the rest alone; what a value contains is not looked at.
-/
namespace Ragx

open Patterns

/-! ## Placeholders -/

def openBrace : Char := '\x7b'

def closeBrace : Char := '\x7d'

def isNameStart (c : Char) : Bool := inRange 'a' 'z' c || inRange 'A' 'Z' c || inRange '_' '_' c

def isNameChar (c : Char) : Bool := isNameStart c || inRange '0' '9' c

/-- Two opening braces, a name in group 1 and two closing braces, with blanks around the name. -/
def placeholder : Pattern :=
  .seq (.char (· == openBrace)) <| .seq (.char (· == openBrace)) <|
  .seq (.many (.char isWhitespace) 0 none) <|
  .seq (.group 1 (.seq (.char isNameStart) (.many (.char isNameChar) 0 none))) <|
  .seq (.many (.char isWhitespace) 0 none) <|
  .seq (.char (· == closeBrace)) (.char (· == closeBrace))

/-- Letters, digits and underscores that do not begin with a digit. -/
def IsName (name : List Char) : Prop :=
  ∃ c cs, name = c :: cs ∧ isNameStart c = true ∧ ∀ x ∈ cs, isNameChar x = true

/-- The text is a placeholder for the name. -/
def IsPlaceholder (occurrence name : List Char) : Prop :=
  ∃ before after, occurrence = openBrace :: openBrace ::
      (before ++ (name ++ (after ++ [closeBrace, closeBrace]))) ∧
    (∀ x ∈ before, isWhitespace x = true) ∧ IsName name ∧ ∀ x ∈ after, isWhitespace x = true

def BeginsPlaceholder (text : List Char) : Prop :=
  ∃ occurrence name rest, text = occurrence ++ rest ∧ IsPlaceholder occurrence name

/-- A part of a template: a character by itself, or a placeholder. -/
inductive Part where
  | char (c : Char)
  | hole (name : List Char)
deriving DecidableEq

/-- The parts that a template falls into. -/
inductive Parts : List Char → List Part → Prop
  | nil : Parts [] []
  | hole {occurrence name rest : List Char} {parts : List Part}
      (h : IsPlaceholder occurrence name) (hrest : Parts rest parts) :
    Parts (occurrence ++ rest) (.hole name :: parts)
  | char {c : Char} {rest : List Char} {parts : List Part} (h : ¬ BeginsPlaceholder (c :: rest))
      (hrest : Parts rest parts) : Parts (c :: rest) (.char c :: parts)

/-! ## One way to read a placeholder -/

/-- A run ends where its class of characters does. -/
theorem run_unique {p : Char → Bool} {run run' rest rest' : List Char} {c c' : Char}
    (hrun : ∀ x ∈ run, p x = true) (hrun' : ∀ x ∈ run', p x = true) (hc : p c = false)
    (hc' : p c' = false) (h : run ++ c :: rest = run' ++ c' :: rest') :
    run = run' ∧ c :: rest = c' :: rest' := by
  induction run generalizing run' with
  | nil =>
    cases run' with
    | nil => exact ⟨rfl, h⟩
    | cons x run' =>
      obtain ⟨rfl, -⟩ := List.cons.inj h
      rw [hrun' c List.mem_cons_self] at hc
      exact nomatch hc
  | cons x run ih =>
    cases run' with
    | nil =>
      obtain ⟨rfl, -⟩ := List.cons.inj h
      rw [hrun x List.mem_cons_self] at hc'
      exact nomatch hc'
    | cons y run' =>
      obtain ⟨rfl, htail⟩ := List.cons.inj h
      obtain ⟨rfl, hrest⟩ := ih (fun z hz => hrun z (List.mem_cons_of_mem x hz))
        (fun z hz => hrun' z (List.mem_cons_of_mem x hz)) htail
      exact ⟨rfl, hrest⟩

section Classes

variable {c : Char}

theorem isNameChar_of_isNameStart (h : isNameStart c = true) : isNameChar c = true := by
  rw [isNameChar, h, Bool.true_or]

/-- A name character is a digit, a letter or the underscore. -/
theorem isNameChar_iff : isNameChar c = true ↔ 48 ≤ c.toNat ∧ c.toNat ≤ 57 ∨
    65 ≤ c.toNat ∧ c.toNat ≤ 90 ∨ c.toNat = 95 ∨ 97 ≤ c.toNat ∧ c.toNat ≤ 122 := by
  simp only [isNameChar, isNameStart, inRange, Bool.or_eq_true, Bool.and_eq_true,
    decide_eq_true_eq, Char.reduceToNat]
  omega

theorem isWhitespace_eq_false (h : isNameChar c = true) : isWhitespace c = false := by
  rw [isNameChar_iff] at h
  simp only [isWhitespace, Bool.or_eq_false_iff, Bool.and_eq_false_iff, decide_eq_false_iff_not,
    beq_eq_false_iff_ne]
  omega

theorem isWhitespace_closeBrace : isWhitespace closeBrace = false := by decide

theorem isNameChar_closeBrace : isNameChar closeBrace = false := by decide

/-- Behind a name comes a character that is not in it. -/
theorem isNameChar_eq_false (h : isWhitespace c = true) : isNameChar c = false := by
  by_contra hname
  rw [isWhitespace_eq_false (Bool.eq_true_of_not_eq_false hname)] at h
  exact nomatch h

end Classes

theorem IsName.isNameChar {name : List Char} (h : IsName name) :
    ∀ x ∈ name, isNameChar x = true := by
  obtain ⟨c, cs, rfl, hc, hcs⟩ := h
  rintro x (_ | ⟨_, hx⟩)
  · exact isNameChar_of_isNameStart hc
  · exact hcs x hx

/-- The braces and blanks behind a name begin with no name character. -/
theorem exists_head_after {after : List Char} (hafter : ∀ x ∈ after, isWhitespace x = true)
    (rest : List Char) : ∃ c tail,
      after ++ ([closeBrace, closeBrace] ++ rest) = c :: tail ∧ isNameChar c = false := by
  cases after with
  | nil => exact ⟨closeBrace, _, rfl, isNameChar_closeBrace⟩
  | cons c after => exact ⟨c, _, rfl, isNameChar_eq_false (hafter c List.mem_cons_self)⟩

/-- A text begins with one placeholder at most. -/
theorem placeholder_unique {occurrence occurrence' name name' rest rest' : List Char}
    (h : IsPlaceholder occurrence name) (h' : IsPlaceholder occurrence' name')
    (heq : occurrence ++ rest = occurrence' ++ rest') :
    occurrence = occurrence' ∧ name = name' ∧ rest = rest' := by
  obtain ⟨before, after, rfl, hbefore, hname, hafter⟩ := h
  obtain ⟨before', after', rfl, hbefore', hname', hafter'⟩ := h'
  obtain ⟨c, cs, rfl, hc, hcs⟩ := hname
  obtain ⟨c', cs', rfl, hc', hcs'⟩ := hname'
  simp only [List.cons_append, List.append_assoc, List.cons.injEq, true_and] at heq
  obtain ⟨rfl, hnames⟩ := run_unique hbefore hbefore'
    (isWhitespace_eq_false (isNameChar_of_isNameStart hc))
    (isWhitespace_eq_false (isNameChar_of_isNameStart hc')) heq
  obtain ⟨rfl, htails⟩ := List.cons.inj hnames
  obtain ⟨d, tail, hd, hnot⟩ := exists_head_after hafter rest
  obtain ⟨d', tail', hd', hnot'⟩ := exists_head_after hafter' rest'
  simp only [List.cons_append, List.nil_append] at hd hd' htails
  rw [hd, hd'] at htails
  obtain ⟨rfl, hends⟩ := run_unique hcs hcs' hnot hnot' htails
  rw [← hd, ← hd'] at hends
  obtain ⟨rfl, hbraces⟩ := run_unique hafter hafter' isWhitespace_closeBrace
    isWhitespace_closeBrace hends
  obtain ⟨-, hbraces⟩ := List.cons.inj hbraces
  obtain ⟨-, rfl⟩ := List.cons.inj hbraces
  exact ⟨rfl, rfl, rfl⟩

/-! ## What the expression matches -/

/-- The expression matches placeholders, with their names in group 1. -/
theorem reads_placeholder {c c' : Cursor} (h : Reads placeholder c c') :
    ∃ occurrence name, c.rest = occurrence ++ c'.rest ∧ IsPlaceholder occurrence name ∧
      c'.groups = (1, name) :: c.groups := by
  obtain ⟨_, ⟨b₁, rest₁, hb₁, hopen₁, rfl⟩, _, ⟨b₂, rest₂, hb₂, hopen₂, rfl⟩, c₃, hblanks, _,
    ⟨c₅, ⟨_, ⟨x, rest₃, hx, hstart, rfl⟩, hname⟩, rfl⟩, c₆, hblanks', _,
    ⟨b₃, rest₄, hb₃, hclose₁, rfl⟩, ⟨b₄, rest₅, hb₄, hclose₂, rfl⟩⟩ := h
  obtain ⟨before, hbefore, hallBefore, -, -, hgroups₃⟩ := reads_many_char hblanks
  obtain ⟨cs, hcs, hallName, -, -, hgroups₅⟩ := reads_many_char hname
  obtain ⟨after, hafter, hallAfter, -, -, hgroups₆⟩ := reads_many_char hblanks'
  dsimp only at *
  have hconsumed : consumed c₃ c₅ = x :: cs := consumed_eq (by rw [hx, hcs]; rfl)
  refine ⟨openBrace :: openBrace :: (before ++ (x :: cs ++ (after ++ [closeBrace, closeBrace]))),
    x :: cs, ?_, ⟨before, after, rfl, hallBefore, ⟨x, cs, rfl, hstart, hallName⟩, hallAfter⟩, ?_⟩
  · rw [hb₁, hb₂, hbefore, hx, hcs, hafter, hb₃, hb₄, beq_iff_eq.mp hopen₁, beq_iff_eq.mp hopen₂,
      beq_iff_eq.mp hclose₁, beq_iff_eq.mp hclose₂]
    simp
  · rw [hgroups₆, hconsumed, hgroups₅, hgroups₃]

/-- It matches every placeholder, whatever is behind it. -/
theorem exists_reads_placeholder {occurrence name : List Char} (h : IsPlaceholder occurrence name)
    (before : Option Char) (rest : List Char) :
    ∃ c', Reads placeholder { before, rest := occurrence ++ rest } c' ∧ c'.rest = rest := by
  obtain ⟨blanks, after, rfl, hblanks, ⟨x, cs, rfl, hx, hcs⟩, hafter⟩ := h
  have hopen : (openBrace == openBrace) = true := rfl
  have hclose : (closeBrace == closeBrace) = true := rfl
  simp only [List.cons_append, List.append_assoc, List.nil_append]
  refine ⟨_, ⟨_, ⟨_, _, rfl, hopen, rfl⟩, _, ⟨_, _, rfl, hopen, rfl⟩, _,
    reads_run hblanks _ _ _, _,
    ⟨_, ⟨_, ⟨_, _, rfl, hx, rfl⟩, reads_run hcs _ _ _⟩, rfl⟩, _,
    reads_run hafter _ _ _, _, ⟨_, _, rfl, hclose, rfl⟩,
    ⟨_, _, rfl, hclose, rfl⟩⟩, rfl⟩

/-- The match at a place is the placeholder with which the text goes on there. -/
theorem matchAt_placeholder {before : Option Char} {text : List Char} {m : Match} :
    matchAt placeholder before text = some m ↔
      ∃ occurrence name rest, text = occurrence ++ rest ∧ IsPlaceholder occurrence name ∧
        m = ⟨occurrence, [(1, name)]⟩ := by
  have hsound {m : Match} (h : matchAt placeholder before text = some m) :
      ∃ occurrence name rest, text = occurrence ++ rest ∧ IsPlaceholder occurrence name ∧
        m = ⟨occurrence, [(1, name)]⟩ := by
    obtain ⟨c', hreads, hgroups, htext, -⟩ := matchAt_eq_some h
    obtain ⟨occurrence, name, hrest, hplaceholder, hnames⟩ := reads_placeholder hreads
    have hoccurrence : m.text = occurrence := List.append_cancel_right (htext.symm.trans hrest)
    refine ⟨occurrence, name, c'.rest, hrest, hplaceholder, ?_⟩
    obtain ⟨found, groups⟩ := m
    have hnames' : groups = [(1, name)] := hgroups.trans hnames
    rw [hnames', ← hoccurrence]
  refine ⟨hsound, ?_⟩
  rintro ⟨occurrence, name, rest, htext, hplaceholder, rfl⟩
  obtain ⟨c', hreads, hrest⟩ := exists_reads_placeholder hplaceholder before rest
  rw [← htext] at hreads
  have hadvances : Cursor.Advances { before, rest := text } c' := by
    obtain ⟨blanks, after, rfl, -, -, -⟩ := hplaceholder
    simp [Cursor.Advances, hrest, htext]
    omega
  obtain ⟨m, hm⟩ := exists_matchAt hreads hadvances
  obtain ⟨occurrence', name', rest', htext', hplaceholder', rfl⟩ := hsound hm
  obtain ⟨rfl, rfl, -⟩ := placeholder_unique hplaceholder hplaceholder' (htext.symm.trans htext')
  exact hm

/-! ## Reading a template -/

def partOf : Piece → Part
  | .char c => .char c
  | .found m => .hole ((m.group 1).getD [])

theorem not_beginsPlaceholder {before : Option Char} {text : List Char}
    (h : matchAt placeholder before text = none) : ¬ BeginsPlaceholder text := by
  rintro ⟨occurrence, name, rest, htext, hplaceholder⟩
  rw [matchAt_placeholder.mpr ⟨occurrence, name, rest, htext, hplaceholder, rfl⟩] at h
  exact nomatch h

/-- The scan reads the parts of a template. -/
theorem parts_scan (before : Option Char) (text : List Char) :
    Parts text ((scan placeholder 0 before text).map partOf) := by
  induction hn : text.length using Nat.strong_induction_on generalizing text before with
  | _ n ih =>
    subst hn
    cases text with
    | nil => exact .nil
    | cons c rest =>
      cases hmatch : matchAt placeholder before (c :: rest) with
      | none =>
        rw [scan, hmatch]
        exact .char (not_beginsPlaceholder hmatch) (ih _ (Nat.lt_succ_self _) (some c) rest rfl)
      | some m =>
        obtain ⟨occurrence, name, back, htext, hplaceholder, rfl⟩ := matchAt_placeholder.mp hmatch
        rw [scan_found hmatch htext, htext]
        refine .hole hplaceholder (ih _ ?_ _ back rfl)
        obtain ⟨blanks, after, rfl, -, -, -⟩ := hplaceholder
        rw [htext]
        simp
        omega

/-- There is no other way to read it. -/
theorem eq_of_parts {text : List Char} {parts : List Part} (h : Parts text parts)
    (before : Option Char) : parts = (scan placeholder 0 before text).map partOf := by
  induction h generalizing before with
  | nil => rfl
  | @hole occurrence name rest parts hplaceholder hrest ih =>
    have hmatch : matchAt placeholder before (occurrence ++ rest) =
        some ⟨occurrence, [(1, name)]⟩ :=
      matchAt_placeholder.mpr ⟨occurrence, name, rest, rfl, hplaceholder, rfl⟩
    have hscan : scan placeholder 0 before (occurrence ++ rest) =
        .found ⟨occurrence, [(1, name)]⟩ :: scan placeholder 0 occurrence.getLast? rest := by
      obtain ⟨blanks, after, rfl, -, -, -⟩ := hplaceholder
      exact scan_found hmatch rfl
    rw [hscan, List.map_cons, ← ih]
    rfl
  | @char c rest parts hnone hrest ih =>
    have hmatch : matchAt placeholder before (c :: rest) = none := by
      cases hmatch : matchAt placeholder before (c :: rest) with
      | none => rfl
      | some m =>
        obtain ⟨occurrence, name, back, htext, hplaceholder, -⟩ := matchAt_placeholder.mp hmatch
        exact absurd ⟨occurrence, name, back, htext, hplaceholder⟩ hnone
    rw [scan, hmatch]
    dsimp only
    rw [List.map_cons, ← ih]
    rfl

theorem parts_iff {text : List Char} {parts : List Part} :
    Parts text parts ↔ parts = (pieces placeholder text).map partOf :=
  ⟨fun h => eq_of_parts h none, fun h => h ▸ parts_scan none text⟩

/-! ## Prompts -/

structure Prompt where
  name : String
  version : ℤ
  system : String
  user : String
deriving DecidableEq

/-- The stem of the file of a prompt. -/
def Prompt.key (p : Prompt) : String := p.name ++ ".v" ++ toString p.version

/-- What a caller passes by name, as texts. The names of the method's own parameters cannot be
among them. -/
structure PromptVars where
  values : OrderedDict String String
  unreserved : ∀ name ∈ values.keys, name ∉ ["self", "name", "kb_overrides", "version"]

/-- `_PLACEHOLDER.findall(template)`. -/
def findPlaceholders (template : String) : List String :=
  (finditer placeholder template.toList).map fun m => String.ofList ((m.group 1).getD [])

/-- `_sub`. By then every name has a value. -/
def subPlaceholders (vars : PromptVars) (template : String) : String :=
  String.ofList <| sub placeholder (fun m =>
    ((vars.values.get? (String.ofList ((m.group 1).getD []))).getD "").toList) template.toList

def Prompt.vars (p : Prompt) : List String :=
  findPlaceholders p.system ++ findPlaceholders p.user

def configError (message : String) (details : List (String × Json)) : Exc where
  cls := .config
  code := 9003
  message := message
  details := details

def Prompt.render (p : Prompt) (vars : PromptVars) : Except Exc (String × String) :=
  let missing := p.vars.filter fun name => (vars.values.get? name).isNone
  if missing.isEmpty then .ok (subPlaceholders vars p.system, subPlaceholders vars p.user)
  else .error (configError "prompt placeholder not provided"
    [("prompt", .str p.key),
      ("missing", .arr ((missing.dedup.mergeSort fun a b => a ≤ b).map .str))])

/-! ## What a rendered text is -/

/-- The value of a name stands in the place of its placeholder. -/
def Part.fill (vars : PromptVars) : Part → List Char
  | .char c => [c]
  | .hole name => ((vars.values.get? (String.ofList name)).getD "").toList

def Rendered (vars : PromptVars) (template text : String) : Prop :=
  ∃ parts, Parts template.toList parts ∧ text = String.ofList (parts.flatMap (Part.fill vars))

/-- The template has a placeholder for the name. -/
def HasPlaceholder (template name : String) : Prop :=
  ∃ parts, Parts template.toList parts ∧ .hole name.toList ∈ parts

theorem rendered_sub (vars : PromptVars) (template : String) :
    Rendered vars template (subPlaceholders vars template) := by
  refine ⟨_, parts_iff.mpr rfl, ?_⟩
  unfold subPlaceholders sub
  rw [List.flatMap_map]
  congr 1
  refine List.flatMap_congr fun piece _ => ?_
  cases piece <;> rfl

theorem mem_findPlaceholders {template name : String} :
    name ∈ findPlaceholders template ↔ HasPlaceholder template name := by
  unfold findPlaceholders HasPlaceholder finditer
  simp only [parts_iff, exists_eq_left, List.mem_map, List.mem_filterMap]
  constructor
  · rintro ⟨m, ⟨piece, hpiece, hm⟩, rfl⟩
    cases piece with
    | char c => exact nomatch hm
    | found found =>
      cases hm
      exact ⟨.found m, hpiece, by rw [partOf, String.toList_ofList]⟩
  · rintro ⟨piece, hpiece, hpart⟩
    cases piece with
    | char c => exact nomatch hpart
    | found m =>
      have hname : (m.group 1).getD [] = name.toList := Part.hole.inj hpart
      exact ⟨m, ⟨.found m, hpiece, rfl⟩, by rw [hname, String.ofList_toList]⟩

end Ragx
