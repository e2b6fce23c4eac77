import Mathlib.Data.List.Infix
import Mathlib.Tactic.Common

/-!
# Slash-separated paths

A path is anchored at the top of the file system or not, and has names. Empty names and single
dots are dropped when a text is read, an anchored path replaces the one it is joined to, and
resolving climbs one level at every two dots. There are no symbolic links, so a resolved path
is the list of its names. Its text says less about where it lies than the list does: a text
that begins with the text of a directory may belong to a neighbour of that directory.
-/
namespace Ragx

/-- One component of a path. -/
abbrev FileName := { name : String // name ≠ "" ∧ name ≠ "." ∧ '/' ∉ name.toList }

/-- A resolved path, from the top. -/
abbrev FilePath := List FileName

structure PurePath where
  absolute : Bool
  parts : List FileName

namespace PurePath

def ofString (text : String) : PurePath where
  absolute := text.toList.head? == some '/'
  parts := ((text.toList.splitOn '/').map String.ofList).filterMap fun name =>
    if h : name ≠ "" ∧ name ≠ "." ∧ '/' ∉ name.toList then some ⟨name, h⟩ else none

/-- `p / q`. -/
def join (p q : PurePath) : PurePath :=
  if q.absolute then q else { p with parts := p.parts ++ q.parts }

def walk (path : FilePath) (name : FileName) : FilePath :=
  if name.val = ".." then path.dropLast else path ++ [name]

/-- The path that is meant, seen from a working directory. -/
def resolve (cwd : FilePath) (p : PurePath) : FilePath :=
  p.parts.foldl walk (if p.absolute then [] else cwd)

end PurePath

namespace FilePath

def chars (path : FilePath) : List Char := path.flatMap fun name => '/' :: name.val.toList

/-- `str(path)`. -/
def text (path : FilePath) : String :=
  if path = [] then "/" else String.ofList (chars path)

def StrictlyBelow (root path : FilePath) : Prop := root <+: path ∧ path ≠ root

instance (root path : FilePath) : Decidable (StrictlyBelow root path) :=
  inferInstanceAs (Decidable (_ ∧ _))

/-- The directory itself, or a path at or under a neighbour of it whose name is longer by some
ending. -/
def Lookalike (root path : FilePath) : Prop :=
  path = root ∨ ∃ front name longer rest, root = front ++ [name] ∧ path = front ++ longer :: rest ∧
    name.val.toList <+: longer.val.toList ∧ longer ≠ name

theorem not_strictlyBelow_of_lookalike {root path : FilePath} (h : Lookalike root path) :
    ¬ StrictlyBelow root path := by
  rintro ⟨hbelow, hne⟩
  rcases h with h | ⟨front, name, longer, rest, rfl, rfl, _, hlonger⟩
  · exact hne h
  · have hhead : [name] <+: longer :: rest := (List.prefix_append_right_inj front).mp hbelow
    have hname : name = longer := (List.cons_prefix_cons.mp hhead).1
    exact hlonger hname.symm

/-! ## What the beginning of a text tells -/

/-- What follows a name in the text of a path. -/
def AtSlash (cs : List Char) : Prop := cs = [] ∨ ∃ rest, cs = '/' :: rest

theorem atSlash_chars (path : FilePath) : AtSlash (chars path) := by
  cases path with
  | nil => exact Or.inl rfl
  | cons name path => exact Or.inr ⟨name.val.toList ++ chars path, rfl⟩

theorem prefix_name {u v t : List Char} (hu : '/' ∉ u) (ht : AtSlash t) :
    u <+: v ++ t ↔ u <+: v := by
  refine ⟨fun h => ?_, fun h => h.trans (List.prefix_append v t)⟩
  induction u generalizing v with
  | nil => exact List.nil_prefix
  | cons c u ih =>
    have hc : c ≠ '/' := fun he => hu (he ▸ List.mem_cons_self)
    cases v with
    | nil =>
      rcases ht with rfl | ⟨rest, rfl⟩
      · exact h
      · exact absurd (List.cons_prefix_cons.mp h).1 hc
    | cons d v =>
      obtain ⟨hcd, hrest⟩ := List.cons_prefix_cons.mp h
      have hvu : u <+: v := ih (fun hm => hu (List.mem_cons_of_mem c hm)) hrest
      exact List.cons_prefix_cons.mpr ⟨hcd, hvu⟩

theorem prefix_name_slash {u v s t : List Char} (hu : '/' ∉ u) (hv : '/' ∉ v) (ht : AtSlash t) :
    u ++ '/' :: s <+: v ++ t ↔ u = v ∧ '/' :: s <+: t := by
  induction u generalizing v with
  | nil =>
    cases v with
    | nil => simp
    | cons d v =>
      have hd : '/' ≠ d := fun he => hv (he ▸ List.mem_cons_self)
      simp [List.cons_prefix_cons, hd]
  | cons c u ih =>
    have hc : c ≠ '/' := fun he => hu (he ▸ List.mem_cons_self)
    cases v with
    | nil =>
      rcases ht with rfl | ⟨rest, rfl⟩
      · simp
      · simp [List.cons_prefix_cons, hc]
    | cons d v =>
      have hu' : '/' ∉ u := fun hm => hu (List.mem_cons_of_mem c hm)
      have hv' : '/' ∉ v := fun hm => hv (List.mem_cons_of_mem d hm)
      simp [List.cons_prefix_cons, ih hu' hv', and_assoc]

/-- The last name of the directory is only compared as a text. -/
theorem chars_prefix_iff {front : FilePath} {name : FileName} {path : FilePath} :
    chars (front ++ [name]) <+: chars path ↔
      ∃ longer rest, path = front ++ longer :: rest ∧ name.val.toList <+: longer.val.toList := by
  induction front generalizing path with
  | nil =>
    cases path with
    | nil => simp [chars]
    | cons m path =>
      have hname := prefix_name (v := m.val.toList) name.property.2.2 (atSlash_chars path)
      have hchars : chars [name] <+: chars (m :: path) ↔
          name.val.toList <+: m.val.toList ++ chars path := by
        simp [chars, List.cons_prefix_cons]
      rw [List.nil_append, hchars, hname]
      simp
  | cons n front ih =>
    cases path with
    | nil => simp [chars]
    | cons m path =>
      obtain ⟨rest, hrest⟩ : ∃ rest, chars (front ++ [name]) = '/' :: rest := by
        refine (atSlash_chars (front ++ [name])).resolve_left fun hnil => ?_
        simp [chars] at hnil
      have hslash := prefix_name_slash (s := rest) n.property.2.2 m.property.2.2
        (atSlash_chars path)
      have hchars : chars (n :: front ++ [name]) <+: chars (m :: path) ↔
          n.val.toList ++ '/' :: rest <+: m.val.toList ++ chars path := by
        rw [← hrest]
        simp [chars, List.cons_prefix_cons]
      have hval : n.val.toList = m.val.toList ↔ n = m := by
        rw [String.toList_inj, Subtype.ext_iff]
      rw [hchars, hslash, ← hrest, ih, hval]
      constructor
      · rintro ⟨rfl, longer, rest, rfl, h⟩
        exact ⟨longer, rest, rfl, h⟩
      · rintro ⟨longer, rest, hpath, h⟩
        obtain ⟨rfl, rfl⟩ := List.cons.inj hpath
        exact ⟨rfl, longer, rest, rfl, h⟩

/-- A text that begins with the text of a directory belongs to a path below the directory, or
to a lookalike. -/
theorem text_prefix_iff {root path : FilePath} :
    (text root).toList <+: (text path).toList ↔ StrictlyBelow root path ∨ Lookalike root path := by
  rcases List.eq_nil_or_concat root with rfl | ⟨front, name, rfl⟩
  · have htop : (text ([] : FilePath)).toList <+: (text path).toList := by
      cases path with
      | nil => exact List.prefix_refl _
      | cons name path => simp [text, chars, List.cons_prefix_cons]
    refine iff_of_true htop ?_
    by_cases hpath : path = []
    · exact Or.inr (Or.inl hpath)
    · have hnil : [] <+: path := List.nil_prefix
      exact Or.inl ⟨hnil, hpath⟩
  · rw [List.concat_eq_append]
    have htext : (text (front ++ [name])).toList = chars (front ++ [name]) := by simp [text]
    have hpath : chars (front ++ [name]) <+: (text path).toList ↔
        chars (front ++ [name]) <+: chars path := by
      by_cases hnil : path = []
      · subst hnil
        have hlong : 2 ≤ (chars (front ++ [name])).length := by
          have hne : name.val.toList ≠ [] := fun h =>
            name.property.1 (String.toList_eq_nil_iff.mp h)
          have hpos := List.length_pos_iff.mpr hne
          simp [chars]
          omega
        have hnot (cs : List Char) (hcs : cs.length ≤ 1) : ¬ chars (front ++ [name]) <+: cs :=
          fun h => absurd h.length_le (by omega)
        exact iff_of_false (hnot _ (by simp [text])) (hnot _ (by simp [chars]))
      · simp [text, hnil]
    rw [htext, hpath, chars_prefix_iff]
    constructor
    · rintro ⟨longer, rest, rfl, h⟩
      by_cases hname : longer = name
      · subst hname
        cases rest with
        | nil => exact Or.inr (Or.inl rfl)
        | cons m rest =>
          refine Or.inl ⟨⟨m :: rest, by simp⟩, ?_⟩
          simp
      · exact Or.inr (Or.inr ⟨front, name, longer, rest, rfl, rfl, h, hname⟩)
    · rintro (⟨⟨rest, rfl⟩, _⟩ | rfl | ⟨front', name', longer, rest, hroot, rfl, h, _⟩)
      · exact ⟨name, rest, by simp, List.prefix_refl _⟩
      · exact ⟨name, [], rfl, List.prefix_refl _⟩
      · obtain ⟨rfl, hname⟩ := List.append_inj' hroot rfl
        cases hname
        exact ⟨longer, rest, rfl, h⟩

end FilePath

end Ragx
