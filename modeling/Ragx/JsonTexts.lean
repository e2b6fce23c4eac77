import Ragx.JsonTokens
import Ragx.Models

/-!
# JSON texts

How values are written as texts, and how the texts are read again. The main result is that
a value is read as it was written.
-/
namespace Ragx.JsonTexts

/-! ## Writing -/

/-- The arguments of a writer: whether it leaves blanks behind its separators, and which
characters it escapes. -/
structure Style where
  spaced : Bool
  ensureAscii : Bool

namespace Style

/-- `json.dumps(value)` -/
def dumps : Style := { spaced := true, ensureAscii := true }

/-- `json.dumps(value, ensure_ascii=False)` -/
def dumpsText : Style := { spaced := true, ensureAscii := false }

/-- `model_dump_json()` -/
def modelDumpJson : Style := { spaced := false, ensureAscii := false }

def blanks (style : Style) : List Char := if style.spaced then [' '] else []

end Style

def encodeString (style : Style) (s : String) : List Char :=
  '"' :: encodeBody style.ensureAscii s.toList

section Writing

variable (style : Style) (fmt : NumberFormat)

mutual

def encode : Json → List Char
  | .null => ['n', 'u', 'l', 'l']
  | .bool true => ['t', 'r', 'u', 'e']
  | .bool false => ['f', 'a', 'l', 's', 'e']
  | .num q => fmt.write q
  | .str s => encodeString style s
  | .arr xs => '[' :: ((',' :: style.blanks).intercalate (encodeItems xs) ++ [']'])
  | .obj members =>
    '\x7b' :: ((',' :: style.blanks).intercalate (encodeMembers members) ++ ['\x7d'])

def encodeItems : List Json → List (List Char)
  | [] => []
  | x :: xs => encode x :: encodeItems xs

def encodeMembers : List (String × Json) → List (List Char)
  | [] => []
  | (key, value) :: members =>
    (encodeString style key ++ ':' :: (style.blanks ++ encode value)) :: encodeMembers members

end

def encodeMember (member : String × Json) : List Char :=
  encodeString style member.1 ++ ':' :: (style.blanks ++ encode style fmt member.2)

theorem encodeItems_eq (xs : List Json) :
    encodeItems style fmt xs = xs.map (encode style fmt) := by
  induction xs with
  | nil => rfl
  | cons x xs ih => rw [encodeItems, ih, List.map_cons]

theorem encodeMembers_eq (members : List (String × Json)) :
    encodeMembers style fmt members = members.map (encodeMember style fmt) := by
  induction members with
  | nil => rfl
  | cons member members ih => rw [encodeMembers, ih, List.map_cons, encodeMember]

end Writing

/-! ## Reading -/

def isBlank (c : Char) : Bool := c ∈ [' ', '\t', '\n', '\r']

def skipBlanks (text : List Char) : List Char := text.dropWhile isBlank

section Reading

variable {α : Type}

/-- Items up to the bracket that closes them, at least one and at most `n`. -/
def scanItems (item : List Char → Option (α × List Char)) (close : Char) :
    ℕ → List Char → Option (List α × List Char)
  | 0, _ => none
  | n + 1, text =>
    match item text with
    | none => none
    | some (x, rest) =>
      match skipBlanks rest with
      | [] => none
      | c :: rest =>
        if c = close then some ([x], rest)
        else if c = ',' then
          (scanItems item close n (skipBlanks rest)).map fun (xs, rest) => (x :: xs, rest)
        else none

/-- `JSONArray` and `JSONObject`, behind the bracket that opens them. -/
def scanGroup (item : List Char → Option (α × List Char)) (close : Char) (text : List Char) :
    Option (List α × List Char) :=
  match skipBlanks text with
  | [] => none
  | c :: rest =>
    if c = close then some ([], rest) else scanItems item close (rest.length + 1) (c :: rest)

/-- A string, without the first quote. -/
def scanString (text : List Char) : Option (String × List Char) :=
  (scanBody text.length text).map fun (s, rest) => (String.ofList s, rest)

def scanMember (value : List Char → Option (α × List Char)) :
    List Char → Option ((String × α) × List Char)
  | '"' :: rest =>
    match scanString rest with
    | none => none
    | some (key, rest) =>
      match skipBlanks rest with
      | ':' :: rest => (value (skipBlanks rest)).map fun (x, rest) => ((key, x), rest)
      | _ => none
  | _ => none

end Reading

def scanLiteral : List Char → Option (Json × List Char)
  | 'n' :: 'u' :: 'l' :: 'l' :: rest => some (.null, rest)
  | 't' :: 'r' :: 'u' :: 'e' :: rest => some (.bool true, rest)
  | 'f' :: 'a' :: 'l' :: 's' :: 'e' :: rest => some (.bool false, rest)
  | _ => none

/-- `scan_once` for a value in which containers are nested up to a depth. The last one of members
with the same key counts. -/
def scanOnce (fmt : NumberFormat) : ℕ → List Char → Option (Json × List Char)
  | 0, _ => none
  | _ + 1, [] => none
  | depth + 1, c :: rest =>
    if c = '"' then (scanString rest).map fun (s, rest) => (.str s, rest)
    else if c = '\x7b' then
      (scanGroup (scanMember (scanOnce fmt depth)) '\x7d' rest).map fun (members, rest) =>
        (.obj (OrderedDict.ofList members).entries, rest)
    else if c = '[' then
      (scanGroup (scanOnce fmt depth) ']' rest).map fun (xs, rest) => (.arr xs, rest)
    else if c ∈ ['n', 't', 'f'] then scanLiteral (c :: rest)
    else
      match scanNumber (c :: rest) with
      | none => none
      | some (number, rest) => (fmt.read number).map fun q => (.num q, rest)

/-- `json.loads` -/
def loads (fmt : NumberFormat) (text : List Char) : Option Json :=
  match scanOnce fmt text.length (skipBlanks text) with
  | none => none
  | some (value, rest) => if skipBlanks rest = [] then some value else none

/-! ## What is written is read -/

/-- The keys of an object are distinct, and the numbers exact. -/
inductive Valid (fmt : NumberFormat) : Json → Prop
  | null : Valid fmt .null
  | bool (b : Bool) : Valid fmt (.bool b)
  | num {q : ℚ} (h : fmt.Exact q) : Valid fmt (.num q)
  | str (s : String) : Valid fmt (.str s)
  | arr {xs : List Json} (h : ∀ x ∈ xs, Valid fmt x) : Valid fmt (.arr xs)
  | obj {members : List (String × Json)} (hkeys : (members.map Prod.fst).Nodup)
      (h : ∀ member ∈ members, Valid fmt member.2) : Valid fmt (.obj members)

section Valid

variable {fmt : NumberFormat}

attribute [simp] Valid.null Valid.bool Valid.str

@[simp] theorem valid_num_iff {q : ℚ} : Valid fmt (.num q) ↔ fmt.Exact q :=
  ⟨fun h => by cases h; assumption, .num⟩

@[simp] theorem valid_arr_iff {xs : List Json} : Valid fmt (.arr xs) ↔ ∀ x ∈ xs, Valid fmt x :=
  ⟨fun h => by cases h; assumption, .arr⟩

@[simp] theorem valid_obj_iff {members : List (String × Json)} : Valid fmt (.obj members) ↔
    (members.map Prod.fst).Nodup ∧ ∀ member ∈ members, Valid fmt member.2 :=
  ⟨fun h => by cases h; exact ⟨‹_›, ‹_›⟩, fun h => .obj h.1 h.2⟩

end Valid

theorem skipBlanks_cons {c : Char} (h : isBlank c = false) (rest : List Char) :
    skipBlanks (c :: rest) = c :: rest := by
  rw [skipBlanks, List.dropWhile_cons_of_neg (by rw [h]; exact Bool.false_ne_true)]

theorem skipBlanks_blanks_append (style : Style) (text : List Char) :
    skipBlanks (style.blanks ++ text) = skipBlanks text := by
  unfold Style.blanks
  split_ifs
  · rfl
  · rfl

theorem length_le_flatMap_encodeChar (ensureAscii : Bool) (s : List Char) :
    s.length ≤ (s.flatMap (encodeChar ensureAscii)).length := by
  induction s with
  | nil => exact le_rfl
  | cons c s ih =>
    obtain ⟨d, tail, hd, -⟩ := head_encodeChar ensureAscii c
    rw [List.flatMap_cons, List.length_append, hd, List.length_cons, List.length_cons]
    omega

theorem scanString_encodeBody (ensureAscii : Bool) (s : String) (rest : List Char) :
    scanString (encodeBody ensureAscii s.toList ++ rest) = some (s, rest) := by
  have hle := length_le_flatMap_encodeChar ensureAscii s.toList
  have hlength : s.toList.length < (encodeBody ensureAscii s.toList ++ rest).length := by
    rw [encodeBody, List.length_append, List.length_append, List.length_singleton]
    omega
  rw [scanString, scanBody_encodeBody ensureAscii s.toList rest hlength]
  exact congrArg (fun text => some (text, rest)) String.ofList_toList

/-- A text with a first character that is neither a blank nor a bracket that closes. -/
def StartsValue (text : List Char) : Prop :=
  ∃ c rest, text = c :: rest ∧ isBlank c = false ∧ c ≠ ']' ∧ c ≠ '\x7d'

theorem StartsValue.skipBlanks {text : List Char} (h : StartsValue text) (rest : List Char) :
    skipBlanks (text ++ rest) = text ++ rest := by
  obtain ⟨c, tail, rfl, hblank, -⟩ := h
  exact skipBlanks_cons hblank _

section Groups

variable {α : Type} {item : List Char → Option (α × List Char)} {write : α → List Char}
  {close : Char}

/-- Items between separators are read one by one, if each of them is read in front of a separator
and in front of the bracket. -/
theorem scanItems_intercalate (style : Style) (hclose : close = ']' ∨ close = '\x7d') (x : α)
    (xs : List α)
    (hitem : ∀ y ∈ x :: xs, ∀ rest, EndsNumber rest → item (write y ++ rest) = some (y, rest))
    (hstart : ∀ y ∈ xs, StartsValue (write y)) (rest : List Char) {n : ℕ} (hn : xs.length < n) :
    scanItems item close n
        ((',' :: style.blanks).intercalate ((x :: xs).map write) ++ close :: rest) =
      some (x :: xs, rest) := by
  have hbracket : isNumberChar close = false ∧ isBlank close = false ∧ ',' ≠ close := by
    obtain rfl | rfl := hclose <;> decide
  obtain ⟨hnumber, hblank, hcomma⟩ := hbracket
  induction xs generalizing x n with
  | nil =>
    obtain ⟨n, rfl⟩ := Nat.exists_eq_succ_of_ne_zero (Nat.ne_zero_of_lt hn)
    have hx := hitem x List.mem_cons_self (close :: rest) (endsNumber_cons hnumber rest)
    simp only [List.map_cons, List.map_nil, List.intercalate_singleton, scanItems, hx,
      skipBlanks_cons hblank, if_true]
  | cons y xs ih =>
    obtain ⟨n, rfl⟩ := Nat.exists_eq_succ_of_ne_zero (Nat.ne_zero_of_lt hn)
    have htail := ih y (fun z hz => hitem z (List.mem_cons_of_mem x hz))
      (fun z hz => hstart z (List.mem_cons_of_mem y hz)) (Nat.lt_of_succ_lt_succ hn)
    have hy := hstart y List.mem_cons_self
    rw [List.map_cons, List.map_cons, List.intercalate_cons_cons, List.append_assoc,
      List.append_assoc, List.cons_append, scanItems,
      hitem x List.mem_cons_self _ (endsNumber_cons (by decide) _)]
    rw [List.map_cons] at htail
    have hskip : skipBlanks (style.blanks ++ ((',' :: style.blanks).intercalate
          (write y :: xs.map write) ++ close :: rest)) =
        (',' :: style.blanks).intercalate (write y :: xs.map write) ++ close :: rest := by
      rw [skipBlanks_blanks_append]
      obtain ⟨c, tail, hc, hnot, -⟩ := hy
      rw [hc, List.intercalate_cons_cons_left, List.cons_append]
      exact skipBlanks_cons hnot _
    simp only [skipBlanks_cons (show isBlank ',' = false by decide), if_neg hcomma, if_true,
      hskip, htail, Option.map_some]

theorem length_le_intercalate (style : Style) (x : α) (xs : List α) :
    xs.length ≤ ((',' :: style.blanks).intercalate ((x :: xs).map write)).length := by
  induction xs generalizing x with
  | nil => exact Nat.zero_le _
  | cons y xs ih =>
    have hy := ih y
    rw [List.map_cons] at hy
    rw [List.map_cons, List.map_cons, List.intercalate_cons_cons, List.length_append,
      List.length_append, List.length_cons, List.length_cons]
    omega

/-- A group is read as its items were written. -/
theorem scanGroup_intercalate (style : Style) (hclose : close = ']' ∨ close = '\x7d') (xs : List α)
    (hitem : ∀ y ∈ xs, ∀ rest, EndsNumber rest → item (write y ++ rest) = some (y, rest))
    (hstart : ∀ y ∈ xs, StartsValue (write y)) (rest : List Char) :
    scanGroup item close ((',' :: style.blanks).intercalate (xs.map write) ++ close :: rest) =
      some (xs, rest) := by
  have hblank : isBlank close = false := by obtain rfl | rfl := hclose <;> decide
  cases xs with
  | nil =>
    simp only [List.map_nil, List.intercalate_nil, List.nil_append, scanGroup,
      skipBlanks_cons hblank, if_true]
  | cons x xs =>
    have hstart' : ∀ y ∈ xs, StartsValue (write y) :=
      fun y hy => hstart y (List.mem_cons_of_mem x hy)
    obtain ⟨c, tail, hc, hnot, hsquare, hcurly⟩ := hstart x List.mem_cons_self
    have hne : c ≠ close := by
      obtain rfl | rfl := hclose
      · exact hsquare
      · exact hcurly
    have hlength : xs.length ≤ ((',' :: style.blanks).intercalate ((x :: xs).map write)).length :=
      length_le_intercalate style x xs
    have hitems := fun n hn =>
      scanItems_intercalate (n := n) style hclose x xs hitem hstart' rest hn
    rw [List.map_cons, hc, List.intercalate_cons_cons_left] at hitems hlength ⊢
    rw [List.cons_append] at hitems ⊢
    rw [scanGroup, skipBlanks_cons hnot]
    dsimp only
    rw [if_neg hne]
    refine hitems _ ?_
    rw [List.length_cons] at hlength
    rw [List.length_append, List.length_cons]
    omega

end Groups

theorem scanMember_encode {value : List Char → Option (Json × List Char)} {style : Style}
    {text : List Char} {x : Json} {rest : List Char} (hstart : StartsValue text)
    (h : value (text ++ rest) = some (x, rest)) (key : String) :
    scanMember value (encodeString style key ++ ':' :: (style.blanks ++ text) ++ rest) =
      some ((key, x), rest) := by
  have hkey := scanString_encodeBody style.ensureAscii key (':' :: (style.blanks ++ text) ++ rest)
  have hskip : skipBlanks (style.blanks ++ text ++ rest) = text ++ rest := by
    rw [List.append_assoc, skipBlanks_blanks_append, hstart.skipBlanks]
  rw [List.append_assoc, encodeString, List.cons_append, scanMember, hkey, List.cons_append]
  simp only [skipBlanks_cons (show isBlank ':' = false by decide), hskip, h, Option.map_some]

section Values

variable {fmt : NumberFormat} (style : Style)

/-- The first character of a number. -/
theorem exists_head_of_scanNumber {text number rest : List Char}
    (h : scanNumber text = some (number, rest)) :
    ∃ c tail, text = c :: tail ∧ (c = '-' ∨ c.isDigit = true) := by
  cases text with
  | nil => cases h
  | cons c tail =>
    refine ⟨c, tail, rfl, ?_⟩
    by_contra hnot
    rw [not_or] at hnot
    have hzero : c ≠ '0' := fun heq => hnot.2 (by rw [heq]; rfl)
    simp [scanNumber, scanSign, scanInteger, hnot.1, hnot.2, hzero] at h

/-- A character that is a minus sign or a digit is none of the other first characters. -/
theorem ne_of_numberHead {c : Char} (h : c = '-' ∨ c.isDigit = true) :
    isBlank c = false ∧ c ∉ ['"', '[', ']', '\x7b', '\x7d', 'n', 't', 'f'] := by
  obtain rfl | h := h
  · decide
  · constructor
    · by_contra hblank
      rw [Bool.not_eq_false, isBlank, decide_eq_true_eq] at hblank
      simp only [List.mem_cons, List.not_mem_nil, or_false] at hblank
      obtain rfl | rfl | rfl | rfl := hblank <;> revert h <;> decide
    · intro hmem
      simp only [List.mem_cons, List.not_mem_nil, or_false] at hmem
      obtain rfl | rfl | rfl | rfl | rfl | rfl | rfl | rfl := hmem <;> revert h <;> decide

theorem startsValue_encode {v : Json} (h : Valid fmt v) : StartsValue (encode style fmt v) := by
  cases h with
  | null => exact ⟨_, _, rfl, by decide, by decide, by decide⟩
  | bool b =>
    cases b with
    | true => exact ⟨_, _, rfl, by decide, by decide, by decide⟩
    | false => exact ⟨_, _, rfl, by decide, by decide, by decide⟩
  | num hq =>
    obtain ⟨c, tail, htext, hc⟩ := exists_head_of_scanNumber (fmt.scanNumber_write hq)
    obtain ⟨hblank, hnot⟩ := ne_of_numberHead hc
    refine ⟨c, tail, by rw [encode, htext], hblank, fun heq => hnot ?_, fun heq => hnot ?_⟩
    · rw [heq]
      decide
    · rw [heq]
      decide
  | str s => exact ⟨_, _, by rw [encode, encodeString], by decide, by decide, by decide⟩
  | arr => exact ⟨_, _, by rw [encode], by decide, by decide, by decide⟩
  | obj => exact ⟨_, _, by rw [encode], by decide, by decide, by decide⟩

theorem entries_update_of_nodup {d : OrderedDict String Json} {pairs : List (String × Json)}
    (h : ((d.entries ++ pairs).map Prod.fst).Nodup) :
    (d.update pairs).entries = d.entries ++ pairs := by
  induction pairs generalizing d with
  | nil => exact (List.append_nil _).symm
  | cons pair pairs ih =>
    have hnew : pair.1 ∉ d.entries.map Prod.fst := by
      rw [List.map_append, List.nodup_append] at h
      exact fun hmem => h.2.2 _ hmem _ (List.mem_map_of_mem List.mem_cons_self) rfl
    have hinsert : (d.insert pair.1 pair.2).entries = d.entries ++ [pair] :=
      OrderedDict.writeIn_of_notMem hnew
    have hrest := ih (d := d.insert pair.1 pair.2) (by rw [hinsert, List.append_assoc]; exact h)
    rw [hinsert, List.append_assoc] at hrest
    exact hrest

theorem entries_ofList {members : List (String × Json)} (h : (members.map Prod.fst).Nodup) :
    (OrderedDict.ofList members).entries = members :=
  entries_update_of_nodup (d := .empty) h

theorem length_le_intercalate_of_mem (sep : List Char) {text : List Char}
    {texts : List (List Char)} (h : text ∈ texts) :
    text.length ≤ (sep.intercalate texts).length := by
  induction texts with
  | nil => exact absurd h List.not_mem_nil
  | cons first texts ih =>
    cases texts with
    | nil =>
      rw [List.mem_singleton.mp h, List.intercalate_singleton]
    | cons second texts =>
      rw [List.intercalate_cons_cons, List.length_append, List.length_append]
      obtain rfl | h := List.mem_cons.mp h
      · omega
      · have hle := ih h
        omega

theorem length_encode_arr {xs : List Json} {x : Json} (h : x ∈ xs) :
    (encode style fmt x).length < (encode style fmt (.arr xs)).length := by
  have hmem : encode style fmt x ∈ xs.map (encode style fmt) := List.mem_map_of_mem h
  have hle := length_le_intercalate_of_mem (',' :: style.blanks) hmem
  rw [encode, encodeItems_eq, List.length_cons, List.length_append]
  omega

theorem length_encode_obj {members : List (String × Json)} {member : String × Json}
    (h : member ∈ members) :
    (encode style fmt member.2).length < (encode style fmt (.obj members)).length := by
  have hmem : encodeMember style fmt member ∈ members.map (encodeMember style fmt) :=
    List.mem_map_of_mem h
  have hle := length_le_intercalate_of_mem (',' :: style.blanks) hmem
  have hvalue : (encode style fmt member.2).length ≤ (encodeMember style fmt member).length := by
    rw [encodeMember, List.length_append, List.length_cons, List.length_append]
    omega
  rw [encode, encodeMembers_eq, List.length_cons, List.length_append]
  omega

/-- A value is read as it was written, in front of anything that does not continue a number. -/
theorem scanOnce_encode {v : Json} (h : Valid fmt v) {rest : List Char} (hrest : EndsNumber rest)
    {depth : ℕ} (hdepth : (encode style fmt v).length ≤ depth) :
    scanOnce fmt depth (encode style fmt v ++ rest) = some (v, rest) := by
  obtain ⟨c₀, tail₀, hne, -⟩ := startsValue_encode style h
  obtain ⟨depth, rfl⟩ : ∃ d, depth = d + 1 := by
    rw [hne, List.length_cons] at hdepth
    exact ⟨depth - 1, by omega⟩
  clear hne c₀ tail₀
  induction h generalizing rest depth with
  | null => rfl
  | bool b =>
    cases b with
    | true => rfl
    | false => rfl
  | @num q hq =>
    have hnumber := scanNumber_append hrest (fmt.scanNumber_write hq)
    obtain ⟨c, tail, htext, hc⟩ := exists_head_of_scanNumber (fmt.scanNumber_write hq)
    have hnot := (ne_of_numberHead hc).2
    simp only [List.mem_cons, List.not_mem_nil, or_false, not_or] at hnot
    obtain ⟨hquote, hsquare, -, hcurly, -, hn, ht, hf⟩ := hnot
    have hread := fmt.read_write hq
    rw [encode]
    rw [htext] at hnumber hread ⊢
    rw [List.cons_append] at hnumber ⊢
    simp [scanOnce, hquote, hsquare, hcurly, hn, ht, hf, hnumber, hread]
  | str s =>
    have hbody := scanString_encodeBody style.ensureAscii s rest
    rw [encode, encodeString, List.cons_append, scanOnce, if_pos rfl, hbody, Option.map_some]
  | @arr xs hxs ih =>
    have hitem : ∀ x ∈ xs, ∀ rest, EndsNumber rest →
        scanOnce fmt depth (encode style fmt x ++ rest) = some (x, rest) := by
      intro x hx rest hrest
      have hlt : (encode style fmt x).length < (encode style fmt (.arr xs)).length :=
        length_encode_arr style hx
      obtain ⟨c, tail, hne, -⟩ := startsValue_encode style (hxs x hx)
      obtain ⟨d, rfl⟩ : ∃ d, depth = d + 1 := by
        rw [hne, List.length_cons] at hlt
        exact ⟨depth - 1, by omega⟩
      exact ih x hx hrest d (by omega)
    have hgroup := scanGroup_intercalate style (.inl rfl) xs hitem
      (fun x hx => startsValue_encode style (hxs x hx)) rest
    rw [encode, encodeItems_eq, List.cons_append, List.append_assoc, List.singleton_append,
      scanOnce, if_neg (by decide), if_neg (by decide), if_pos rfl, hgroup, Option.map_some]
  | @obj members hkeys hmembers ih =>
    have hitem : ∀ member ∈ members, ∀ rest, EndsNumber rest →
        scanMember (scanOnce fmt depth) (encodeMember style fmt member ++ rest) =
          some (member, rest) := by
      intro member hmem rest hrest
      have hlt : (encode style fmt member.2).length < (encode style fmt (.obj members)).length :=
        length_encode_obj style hmem
      have hstart := startsValue_encode style (hmembers member hmem)
      refine scanMember_encode hstart ?_ member.1
      obtain ⟨c, tail, hne, -⟩ := hstart
      obtain ⟨d, rfl⟩ : ∃ d, depth = d + 1 := by
        rw [hne, List.length_cons] at hlt
        exact ⟨depth - 1, by omega⟩
      exact ih member hmem hrest d (by omega)
    have hgroup := scanGroup_intercalate style (.inr rfl) members hitem
      (fun member _ => ⟨'"', _, by rw [encodeMember, encodeString, List.cons_append],
        by decide, by decide, by decide⟩) rest
    rw [encode, encodeMembers_eq, List.cons_append, List.append_assoc, List.singleton_append,
      scanOnce, if_neg (by decide), if_pos rfl, hgroup]
    simp only [Option.map_some, entries_ofList hkeys]

theorem loads_encode {v : Json} (h : Valid fmt v) :
    loads fmt (encode style fmt v) = some v := by
  have hskip := (startsValue_encode style h).skipBlanks []
  have hvalue := scanOnce_encode style h endsNumber_nil le_rfl
  rw [List.append_nil] at hskip hvalue
  rw [loads, hskip, hvalue]
  rfl

theorem mem_of_mem_intercalate {sep : List Char} {texts : List (List Char)} {c : Char}
    (h : c ∈ sep.intercalate texts) : c ∈ sep ∨ ∃ text ∈ texts, c ∈ text := by
  induction texts with
  | nil => exact absurd h List.not_mem_nil
  | cons first texts ih =>
    cases texts with
    | nil =>
      rw [List.intercalate_singleton] at h
      exact .inr ⟨first, List.mem_singleton_self first, h⟩
    | cons second texts =>
      rw [List.intercalate_cons_cons, List.mem_append, List.mem_append] at h
      obtain (h | h) | h := h
      · exact .inr ⟨first, List.mem_cons_self, h⟩
      · exact .inl h
      · obtain h | ⟨text, hmem, hc⟩ := ih h
        · exact .inl h
        · exact .inr ⟨text, List.mem_cons_of_mem first hmem, hc⟩

theorem le_toNat_of_isNumberChar {c : Char} (h : isNumberChar c = true) : 0x20 ≤ c.toNat := by
  rw [isNumberChar, Bool.or_eq_true, decide_eq_true_eq] at h
  simp only [List.mem_cons, List.not_mem_nil, or_false] at h
  obtain h | h := h
  · exact le_trans (by decide) (Char.isDigit_iff_toNat.mp h).1
  · obtain rfl | rfl | rfl | rfl | rfl := h <;> decide

theorem le_toNat_of_mem_encodeString {s : String} {c : Char} (h : c ∈ encodeString style s) :
    0x20 ≤ c.toNat := by
  rw [encodeString, encodeBody, List.mem_cons, List.mem_append, List.mem_singleton] at h
  obtain rfl | h | rfl := h
  · decide
  · obtain ⟨d, -, hd⟩ := List.mem_flatMap.mp h
    exact le_toNat_of_mem_encodeChar hd
  · decide

theorem le_toNat_of_mem_blanks {c : Char} (h : c ∈ style.blanks) : 0x20 ≤ c.toNat := by
  unfold Style.blanks at h
  split_ifs at h
  · rw [List.mem_singleton.mp h]
    decide
  · exact absurd h List.not_mem_nil

theorem le_toNat_of_mem_separator {c : Char} (h : c ∈ ',' :: style.blanks) : 0x20 ≤ c.toNat := by
  obtain rfl | h := List.mem_cons.mp h
  · decide
  · exact le_toNat_of_mem_blanks style h

/-- Nothing that is written is a control character, and so no line break. -/
theorem le_toNat_of_mem_encode {v : Json} (h : Valid fmt v) {c : Char}
    (hc : c ∈ encode style fmt v) : 0x20 ≤ c.toNat := by
  induction h with
  | null => exact (show ∀ d ∈ ['n', 'u', 'l', 'l'], 0x20 ≤ d.toNat by simp) c hc
  | bool b =>
    cases b with
    | true => exact (show ∀ d ∈ ['t', 'r', 'u', 'e'], 0x20 ≤ d.toNat by simp) c hc
    | false => exact (show ∀ d ∈ ['f', 'a', 'l', 's', 'e'], 0x20 ≤ d.toNat by simp) c hc
  | num hq =>
    rw [encode] at hc
    exact le_toNat_of_isNumberChar (isNumberChar_of_mem_scanNumber (fmt.scanNumber_write hq) hc)
  | str s => exact le_toNat_of_mem_encodeString style hc
  | @arr xs _ ih =>
    rw [encode, encodeItems_eq, List.mem_cons, List.mem_append, List.mem_singleton] at hc
    obtain rfl | hc | rfl := hc
    · decide
    · obtain hc | ⟨text, htext, hc⟩ := mem_of_mem_intercalate hc
      · exact le_toNat_of_mem_separator style hc
      · obtain ⟨x, hx, rfl⟩ := List.mem_map.mp htext
        exact ih x hx hc
    · decide
  | @obj members _ _ ih =>
    rw [encode, encodeMembers_eq, List.mem_cons, List.mem_append, List.mem_singleton] at hc
    obtain rfl | hc | rfl := hc
    · decide
    · obtain hc | ⟨text, htext, hc⟩ := mem_of_mem_intercalate hc
      · exact le_toNat_of_mem_separator style hc
      · obtain ⟨member, hmember, rfl⟩ := List.mem_map.mp htext
        rw [encodeMember, List.mem_append, List.mem_cons, List.mem_append] at hc
        obtain hc | rfl | hc | hc := hc
        · exact le_toNat_of_mem_encodeString style hc
        · decide
        · exact le_toNat_of_mem_blanks style hc
        · exact ih member hmember hc
    · decide

end Values

end Ragx.JsonTexts
