import Ragx.FilePaths

/-!
# Prefixes of slash-separated texts

A prefix of a path's text may end behind a slash, at the end of a name or inside one. Read as a
path it is the directory of its names, the last of them as far as it goes. What lies strictly
below that directory begins with the prefix and a slash, unless the prefix has its slash already.
-/
namespace Ragx

namespace FilePath

/-- What begins with the text of a directory and a slash lies strictly below it. -/
theorem chars_slash_prefix_iff {front path : FilePath} :
    chars front ++ ['/'] <+: chars path ↔ StrictlyBelow front path := by
  induction front generalizing path with
  | nil =>
    cases path with
    | nil => simp [chars, StrictlyBelow]
    | cons m path => simp [chars, StrictlyBelow, List.cons_prefix_cons]
  | cons n front ih =>
    cases path with
    | nil => simp [chars, StrictlyBelow]
    | cons m path =>
      obtain ⟨rest, hrest⟩ : ∃ rest, chars front ++ ['/'] = '/' :: rest := by
        rcases atSlash_chars front with hnil | ⟨rest, hcons⟩
        · exact ⟨[], by rw [hnil]; rfl⟩
        · exact ⟨rest ++ ['/'], by rw [hcons]; rfl⟩
      have hsplit : chars (n :: front) ++ ['/'] <+: chars (m :: path) ↔
          n.val.toList ++ '/' :: rest <+: m.val.toList ++ chars path := by
        rw [← hrest]
        simp [chars, List.cons_prefix_cons]
      have hval : n.val.toList = m.val.toList ↔ n = m := by
        rw [String.toList_inj, Subtype.ext_iff]
      rw [hsplit, prefix_name_slash n.property.2.2 m.property.2.2 (atSlash_chars path), ← hrest,
        ih, hval]
      simp only [StrictlyBelow, List.cons_prefix_cons, List.cons.injEq, ne_eq]
      tauto

/-- Above a path lies above the directory that it stands in. -/
theorem prefix_dropLast_of_strictlyBelow {front path : FilePath} (h : StrictlyBelow front path) :
    front <+: path.dropLast := by
  obtain ⟨⟨rest, rfl⟩, hne⟩ := h
  have hrest : rest ≠ [] := by
    rintro rfl
    exact hne (List.append_nil front)
  rw [List.dropLast_append_of_ne_nil hrest]
  exact List.prefix_append front rest.dropLast

theorem slash_not_last {path : FilePath} (hpath : path ≠ []) :
    (chars path).getLast? ≠ some '/' := by
  obtain ⟨front, n, rfl⟩ : ∃ front n, path = front ++ [n] :=
    ⟨path.dropLast, path.getLast hpath, (List.dropLast_append_getLast hpath).symm⟩
  have hname : n.val.toList ≠ [] := fun h => n.property.1 (String.toList_eq_nil_iff.mp h)
  have hlast : (chars (front ++ [n])).getLast? = n.val.toList.getLast? := by
    simp [chars, List.getLast?_append, List.getLast?_cons, List.getLast?_eq_some_getLast hname]
  rw [hlast]
  intro h
  exact n.property.2.2 (List.mem_of_getLast? h)

end FilePath

/-- The text is empty or ends with a slash. -/
def EndsWhole (cs : List Char) : Prop := cs = [] ∨ cs.getLast? = some '/'

instance (cs : List Char) : Decidable (EndsWhole cs) := inferInstanceAs (Decidable (_ ∨ _))

/-- No name begins with a dot, so none is dropped and none climbs. -/
def Undotted (path : FilePath) : Prop := ∀ n ∈ path, n.val.toList.head? ≠ some '.'

namespace PurePath

def name? (cs : List Char) : Option FileName :=
  if h : String.ofList cs ≠ "" ∧ String.ofList cs ≠ "." ∧ '/' ∉ (String.ofList cs).toList then
    some ⟨String.ofList cs, h⟩
  else none

theorem parts_ofString (text : String) :
    (ofString text).parts = (text.toList.splitOn '/').filterMap name? := by
  rw [ofString, List.filterMap_map]
  rfl

theorem parts_append_slash {u cs : List Char} (hu : '/' ∉ u) :
    (ofString (String.ofList (u ++ '/' :: cs))).parts =
      (name? u).toList ++ (ofString (String.ofList cs)).parts := by
  rw [parts_ofString, parts_ofString, String.toList_ofList, String.toList_ofList,
    List.splitOn_append_cons_self_of_not_mem hu, List.filterMap_cons]
  cases name? u with
  | none => rfl
  | some n => rfl

theorem parts_single {u : List Char} (hu : '/' ∉ u) :
    (ofString (String.ofList u)).parts = (name? u).toList := by
  rw [parts_ofString, String.toList_ofList, List.splitOn_eq_singleton hu, List.filterMap_cons]
  cases name? u with
  | none => rfl
  | some n => rfl

theorem name?_of_head {u : List Char} (hne : u ≠ []) (hu : '/' ∉ u) (hdot : u.head? ≠ some '.') :
    ∃ n, name? u = some n ∧ n.val.toList = u := by
  have hvalid : String.ofList u ≠ "" ∧ String.ofList u ≠ "." ∧
      '/' ∉ (String.ofList u).toList := by
    refine ⟨?_, ?_, by rwa [String.toList_ofList]⟩
    · intro h
      have hlist := congrArg String.toList h
      rw [String.toList_ofList] at hlist
      exact hne hlist
    · intro h
      have hlist := congrArg String.toList h
      rw [String.toList_ofList] at hlist
      exact hdot (by rw [hlist]; rfl)
  exact ⟨⟨String.ofList u, hvalid⟩, dif_pos hvalid, String.toList_ofList⟩

/-- A name that is cut, read as a path. -/
theorem parts_of_cut {n : FileName} (hn : n.val.toList.head? ≠ some '.') {cs : List Char}
    (hcut : cs <+: n.val.toList) :
    let parts := (ofString (String.ofList cs)).parts
    Undotted parts ∧ ('/' :: cs = FilePath.chars parts ++ ['/'] ∨
      parts ≠ [] ∧ '/' :: cs = FilePath.chars parts) := by
  have hslash : '/' ∉ cs := fun h => n.property.2.2 (hcut.subset h)
  simp only [parts_single hslash]
  by_cases hnil : cs = []
  · subst hnil
    exact ⟨by simp [name?, Undotted], Or.inl (by simp [name?, FilePath.chars])⟩
  · have hhead : cs.head? ≠ some '.' := by
      obtain ⟨c, cs', rfl⟩ := List.exists_cons_of_ne_nil hnil
      obtain ⟨t, ht⟩ := hcut
      rwa [← ht, List.cons_append] at hn
    obtain ⟨m, hm, hval⟩ := name?_of_head hnil hslash hhead
    rw [hm]
    refine ⟨?_, Or.inr ⟨by simp, by simp [FilePath.chars, hval]⟩⟩
    intro n' hn'
    rw [List.mem_singleton.mp hn', hval]
    exact hhead

/-- A prefix of the text of a path, read as a path: whole names, unless the last one is cut. -/
theorem parts_of_prefix {path : FilePath} (hpath : Undotted path) {cs : List Char}
    (hcs : '/' :: cs <+: FilePath.chars path) :
    let parts := (ofString (String.ofList cs)).parts
    Undotted parts ∧ ('/' :: cs = FilePath.chars parts ++ ['/'] ∨
      parts ≠ [] ∧ '/' :: cs = FilePath.chars parts) := by
  induction path generalizing cs with
  | nil => simp [FilePath.chars] at hcs
  | cons n path ih =>
    have hn : n.val.toList.head? ≠ some '.' := hpath n List.mem_cons_self
    have hrest : cs <+: n.val.toList ++ FilePath.chars path := by
      simpa [FilePath.chars, List.cons_prefix_cons] using hcs
    rcases List.prefix_or_prefix_of_prefix hrest (List.prefix_append _ _) with hcut | hlong
    · exact parts_of_cut hn hcut
    · obtain ⟨k, rfl⟩ := hlong
      have hk : k <+: FilePath.chars path := (List.prefix_append_right_inj _).mp hrest
      have hwhole : name? n.val.toList = some n := by
        rw [name?, dif_pos (by simpa using n.property)]
        simp
      cases k with
      | nil =>
        have hslash := n.property.2.2
        simp only [List.append_nil, parts_single hslash, hwhole]
        refine ⟨?_, Or.inr ⟨by simp, by simp [FilePath.chars]⟩⟩
        intro n' hn'
        rw [List.mem_singleton.mp hn']
        exact hn
      | cons c k =>
        obtain rfl : c = '/' := by
          rcases FilePath.atSlash_chars path with hnil | ⟨rest, hcons⟩
          · simp [hnil] at hk
          · exact (List.cons_prefix_cons.mp (hcons ▸ hk)).1
        obtain ⟨hdots, htext⟩ := ih (fun m hm => hpath m (List.mem_cons_of_mem n hm)) hk
        simp only [parts_append_slash n.property.2.2, hwhole]
        refine ⟨?_, ?_⟩
        · intro m hm
          rcases List.mem_cons.mp hm with rfl | hm
          · exact hn
          · exact hdots m hm
        · rcases htext with hslash | ⟨hne, hcut⟩
          · exact Or.inl (by simp [FilePath.chars] at hslash ⊢; rw [hslash])
          · exact Or.inr ⟨by simp, by simp [FilePath.chars] at hcut ⊢; rw [hcut]⟩

/-- What lies strictly below a prefix that is read as a path. -/
theorem strictlyBelow_parts_iff {path : FilePath} (hpath : Undotted path) {cs : List Char}
    (hcs : '/' :: cs <+: FilePath.chars path) {other : FilePath} {text : List Char}
    (hother : FilePath.chars other = '/' :: text) :
    FilePath.StrictlyBelow (ofString (String.ofList cs)).parts other ↔
      cs <+: text ∧ (EndsWhole cs ∨ cs ++ ['/'] <+: text) := by
  obtain ⟨_, hslash | ⟨hne, hcut⟩⟩ := parts_of_prefix hpath hcs
  · have hwhole : EndsWhole cs := by
      rcases FilePath.atSlash_chars (ofString (String.ofList cs)).parts with hnil | ⟨rest, hcons⟩
      · rw [hnil] at hslash
        exact Or.inl (List.cons.inj hslash).2
      · rw [hcons] at hslash
        refine Or.inr ?_
        rw [(List.cons.inj hslash).2]
        simp
    rw [← FilePath.chars_slash_prefix_iff, ← hslash, hother, List.cons_prefix_cons]
    exact ⟨fun h => ⟨h.2, Or.inl hwhole⟩, fun h => ⟨rfl, h.1⟩⟩
  · have hnot : ¬ EndsWhole cs := by
      have hlast := FilePath.slash_not_last hne
      rw [← hcut] at hlast
      rintro (rfl | hend)
      · exact hlast rfl
      · refine hlast ?_
        obtain ⟨c, cs', rfl⟩ : ∃ c cs', cs = c :: cs' :=
          List.exists_cons_of_ne_nil fun h => by simp [h] at hend
        rw [List.getLast?_cons_cons]
        exact hend
    rw [← FilePath.chars_slash_prefix_iff, ← hcut, hother, List.cons_append,
      List.cons_prefix_cons]
    constructor
    · rintro ⟨_, h⟩
      exact ⟨(List.prefix_append cs ['/']).trans h, Or.inr h⟩
    · rintro ⟨_, hwhole | h⟩
      · exact absurd hwhole hnot
      · exact ⟨rfl, h⟩

/-- Names that do not climb are appended. -/
theorem foldl_walk {parts : FilePath} (h : Undotted parts) (cwd : FilePath) :
    parts.foldl walk cwd = cwd ++ parts := by
  induction parts generalizing cwd with
  | nil => simp
  | cons n parts ih =>
    have hup : n.val ≠ ".." := by
      intro heq
      exact h n List.mem_cons_self (by rw [heq]; rfl)
    rw [List.foldl_cons, walk, if_neg hup, ih fun m hm => h m (List.mem_cons_of_mem n hm)]
    simp

/-- A text without a leading slash is resolved below where the path resolves. -/
theorem resolve_join {root : PurePath} {cwd : FilePath} {text : String}
    (hrelative : text.toList.head? ≠ some '/') (h : Undotted (ofString text).parts) :
    (root.join (ofString text)).resolve cwd = root.resolve cwd ++ (ofString text).parts := by
  have habsolute : (ofString text).absolute = false := by
    simpa [ofString] using hrelative
  rw [join, habsolute]
  simp only [Bool.false_eq_true, if_false, resolve, List.foldl_append]
  exact foldl_walk h _

end PurePath

end Ragx
