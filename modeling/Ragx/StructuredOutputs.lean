import Ragx.ConfidenceLines
import Ragx.JsonTexts
import Ragx.Patterns

/-!
# Structured outputs

A model that is asked for a JSON object may put words around it. What is read is the text from
the first brace that opens to the last one that closes; a reply without an object of the schema is
asked for again, a few times. The main result is that an object gets through as it was written.
-/
namespace Ragx

open BlankRuns JsonTexts Patterns

/-! ## The block of a text -/

/-- `\{.*\}`, where the dot matches line breaks. -/
def jsonBlock : Pattern :=
  .seq (.char (· == '\x7b')) (.seq (.many (.char fun _ => true) 0 none) (.char (· == '\x7d')))

def searchBlock (text : List Char) : Option (List Char) :=
  (finditer jsonBlock text).head?.map Match.text

def IsBlock (block : List Char) : Prop := ∃ inner, block = '\x7b' :: (inner ++ ['\x7d'])

section Greedy

variable {before : Option Char} {groups : List (ℕ × List Char)} {n : ℕ} {rest : List Char}

/-- The rounds over a character: those behind it come first. -/
theorem rounds_any_cons (c : Char) :
    rounds (results (.char fun _ => true)) 0 (n + 1) { before, rest := c :: rest, groups } =
      rounds (results (.char fun _ => true)) 0 n { before := some c, rest, groups } ++
        [{ before, rest := c :: rest, groups }] := by
  simp [rounds, results, Cursor.Advances]

theorem rounds_any_nil :
    rounds (results (.char fun _ => true)) 0 n { before, rest := [], groups } =
      [{ before, rest := [], groups }] := by
  cases n with
  | zero => rfl
  | succ n => rfl

theorem flatMap_rounds_any_of_notMem {d : Char} (hd : d ∉ rest) (hn : rest.length ≤ n) :
    (rounds (results (.char fun _ => true)) 0 n { before, rest, groups }).flatMap
      (results (.char (· == d))) = [] := by
  induction rest generalizing before n with
  | nil =>
    rw [rounds_any_nil]
    rfl
  | cons c rest ih =>
    obtain ⟨n, rfl⟩ := Nat.exists_eq_add_of_le' (Nat.one_le_of_lt hn)
    have hc : d ≠ c := List.ne_of_not_mem_cons hd
    rw [rounds_any_cons, List.flatMap_append,
      ih (List.not_mem_of_not_mem_cons hd) (Nat.le_of_succ_le_succ hn), List.nil_append,
      List.flatMap_singleton, results]
    exact if_neg fun heq => hc (beq_iff_eq.mp heq).symm

/-- Greedy repetition reads up to the last place where it can be followed. -/
theorem head?_flatMap_rounds_any {d : Char} {inner back : List Char} (hd : d ∉ back)
    (hn : (inner ++ d :: back).length ≤ n) :
    ((rounds (results (.char fun _ => true)) 0 n
      { before, rest := inner ++ d :: back, groups }).flatMap (results (.char (· == d)))).head? =
        some { before := some d, rest := back, groups } := by
  induction inner generalizing before n with
  | nil =>
    obtain ⟨n, rfl⟩ := Nat.exists_eq_add_of_le' (Nat.one_le_of_lt hn)
    rw [List.nil_append, rounds_any_cons, List.flatMap_append,
      flatMap_rounds_any_of_notMem hd (Nat.le_of_succ_le_succ hn), List.nil_append,
      List.flatMap_singleton, results]
    simp
  | cons c inner ih =>
    obtain ⟨n, rfl⟩ := Nat.exists_eq_add_of_le' (Nat.one_le_of_lt hn)
    rw [List.cons_append, rounds_any_cons, List.flatMap_append, List.head?_append,
      ih (Nat.le_of_succ_le_succ hn), Option.some_or]

theorem matchAt_jsonBlock {inner back : List Char} (hback : '\x7d' ∉ back) :
    matchAt jsonBlock before ('\x7b' :: (inner ++ '\x7d' :: back)) =
      some ⟨'\x7b' :: (inner ++ ['\x7d']), []⟩ := by
  have hhead : ((rounds (results (.char fun _ => true)) 0 (inner ++ '\x7d' :: back).length
      { before := some '\x7b', rest := inner ++ '\x7d' :: back }).flatMap
        (results (.char (· == '\x7d')))).head? = some { before := some '\x7d', rest := back } :=
    head?_flatMap_rounds_any hback le_rfl
  have hresults : (results jsonBlock
      { before, rest := '\x7b' :: (inner ++ '\x7d' :: back) }).head? =
        some { before := some '\x7d', rest := back } := by
    simpa [jsonBlock, results] using hhead
  obtain ⟨others, hothers⟩ := List.head?_eq_some_iff.mp hresults
  have hadvances : Cursor.Advances { before, rest := '\x7b' :: (inner ++ '\x7d' :: back) }
      { before := some '\x7d', rest := back } := by
    simp only [Cursor.Advances, List.length_cons, List.length_append]
    omega
  have hconsumed : consumed { before, rest := '\x7b' :: (inner ++ '\x7d' :: back) }
      { before := some '\x7d', rest := back } = '\x7b' :: (inner ++ ['\x7d']) :=
    consumed_eq (by simp)
  simp only [matchAt, hothers, List.find?_cons, decide_eq_true hadvances, Option.map_some,
    hconsumed]

theorem matchAt_jsonBlock_of_ne {c : Char} (hc : c ≠ '\x7b') :
    matchAt jsonBlock before (c :: rest) = none := by
  simp [matchAt, jsonBlock, results, hc]

end Greedy

/-- The block reaches from the first brace that opens to the last one that closes. -/
theorem searchBlock_append {front inner back : List Char} (hfront : '\x7b' ∉ front)
    (hback : '\x7d' ∉ back) :
    searchBlock (front ++ '\x7b' :: (inner ++ '\x7d' :: back)) =
      some ('\x7b' :: (inner ++ ['\x7d'])) := by
  suffices hscan : ∀ before, ∃ pieces,
      (scan jsonBlock 0 before (front ++ '\x7b' :: (inner ++ '\x7d' :: back))).filterMap
        Piece.match? = ⟨'\x7b' :: (inner ++ ['\x7d']), []⟩ :: pieces by
    obtain ⟨pieces, hpieces⟩ := hscan none
    rw [searchBlock, finditer, Patterns.pieces, hpieces]
    rfl
  induction front with
  | nil =>
    intro before
    rw [List.nil_append, scan, matchAt_jsonBlock hback]
    exact ⟨_, rfl⟩
  | cons c front ih =>
    intro before
    obtain ⟨pieces, hpieces⟩ := ih (List.not_mem_of_not_mem_cons hfront) (some c)
    rw [List.cons_append, scan, matchAt_jsonBlock_of_ne (List.ne_of_not_mem_cons hfront).symm]
    exact ⟨pieces, hpieces⟩

/-- In front of the first brace there is none, and behind the last one neither. -/
theorem exists_block_of_sublist {text : List Char} (h : ['\x7b', '\x7d'].Sublist text) :
    ∃ front inner back, text = front ++ '\x7b' :: (inner ++ '\x7d' :: back) ∧
      '\x7b' ∉ front ∧ '\x7d' ∉ back := by
  obtain ⟨r, s, rfl, hopen, hclose⟩ := List.cons_sublist_iff.mp h
  obtain ⟨front, rest, rfl, hfront⟩ := List.eq_append_cons_of_mem hopen
  have hmem : '\x7d' ∈ (rest ++ s).reverse := by
    rw [List.mem_reverse]
    exact List.mem_append_right rest (List.singleton_sublist.mp hclose)
  obtain ⟨back, inner, hreverse, hback⟩ := List.eq_append_cons_of_mem hmem
  have hrest : rest ++ s = inner.reverse ++ '\x7d' :: back.reverse := by
    rw [← List.reverse_reverse (rest ++ s), hreverse]
    simp
  refine ⟨front, inner.reverse, back.reverse, ?_, hfront, by simpa using hback⟩
  rw [List.append_assoc, List.cons_append, hrest]

theorem searchBlock_eq_none {text : List Char} (h : ¬['\x7b', '\x7d'].Sublist text) :
    searchBlock text = none := by
  rw [searchBlock, Option.map_eq_none_iff, List.head?_eq_none_iff, List.eq_nil_iff_forall_not_mem]
  intro m hm
  obtain ⟨front, back, before, c', rfl, hreads, -⟩ := mem_finditer hm
  obtain ⟨first, ⟨x, rest, hfirst, hx, rfl⟩, last, hlast, y, rest', hy, hclose, rfl⟩ := hreads
  obtain ⟨run, hrun, -⟩ := reads_many_char hlast
  dsimp only at hfirst hrun
  obtain rfl : x = '\x7b' := beq_iff_eq.mp hx
  obtain rfl : y = '\x7d' := beq_iff_eq.mp hclose
  refine h ?_
  rw [hfirst, hrun, hy]
  refine List.Sublist.trans ?_ (List.sublist_append_right front _)
  exact ((List.singleton_sublist.mpr (List.mem_append_right run List.mem_cons_self))).cons_cons _

theorem sublist_of_blank_append {w text w' : List Char} (hw : ∀ c ∈ w, isWhitespace c = true)
    (hw' : ∀ c ∈ w', isWhitespace c = true)
    (h : ['\x7b', '\x7d'].Sublist (w ++ text ++ w')) : ['\x7b', '\x7d'].Sublist text := by
  have hdrop : ∀ blanks : List Char, (∀ c ∈ blanks, isWhitespace c = true) →
      blanks.filter (fun c => c == '\x7b' || c == '\x7d') = [] := by
    intro blanks hblanks
    refine List.filter_eq_nil_iff.mpr fun c hc hbrace => ?_
    have hblank := hblanks c hc
    simp only [Bool.or_eq_true, beq_iff_eq] at hbrace
    obtain rfl | rfl := hbrace
    · exact absurd hblank (by decide)
    · exact absurd hblank (by decide)
  have hfilter := h.filter fun c => c == '\x7b' || c == '\x7d'
  rw [List.filter_append, List.filter_append, hdrop w hw, hdrop w' hw', List.nil_append,
    List.append_nil] at hfilter
  exact hfilter.trans List.filter_sublist

/-- Stripping a text leaves its block as it is. -/
theorem searchBlock_strip (text : List Char) : searchBlock (strip text) = searchBlock text := by
  obtain ⟨w, w', htext, hw, hw'⟩ := exists_append_trim isWhitespace text
  rw [← strip_eq_trim] at htext
  by_cases hblock : ['\x7b', '\x7d'].Sublist (strip text)
  · obtain ⟨front, inner, back, hstrip, hfront, hback⟩ := exists_block_of_sublist hblock
    have hopen : '\x7b' ∉ w ++ front := by
      rw [List.mem_append, not_or]
      exact ⟨fun hmem => absurd (hw _ hmem) (by decide), hfront⟩
    have hclose : '\x7d' ∉ back ++ w' := by
      rw [List.mem_append, not_or]
      exact ⟨hback, fun hmem => absurd (hw' _ hmem) (by decide)⟩
    have hsplit : text = w ++ front ++ '\x7b' :: (inner ++ '\x7d' :: (back ++ w')) := by
      rw [htext, hstrip]
      simp
    rw [hstrip, hsplit, searchBlock_append hfront hback, searchBlock_append hopen hclose]
  · have hnone : ¬['\x7b', '\x7d'].Sublist text := fun h =>
      hblock (sublist_of_blank_append hw hw' (htext ▸ h))
    rw [searchBlock_eq_none hblock, searchBlock_eq_none hnone]

/-! ## Replies -/

/-- What decodes a reply: the numbers, the text of a `JSONDecodeError`, and the model of the schema,
which validates a document or lists what is wrong with it. -/
structure ReplyDecoder (α : Type) where
  fmt : NumberFormat
  decodeError : List Char → String
  /-- `model_json_schema()`. -/
  schema : Json
  validate : Json → Except (List Json) α

def structuredParseError (message : String) (details : List (String × Json)) : Exc where
  cls := .structuredParse
  code := 6005
  message := message
  details := details

section Replies

variable {α : Type} (decoder : ReplyDecoder α)

/-- The text that is decoded. -/
def candidateOf (text : String) : List Char :=
  let candidate := strip text.toList
  (searchBlock candidate).getD candidate

def parseSchema (text : String) : Except Exc α :=
  match loads decoder.fmt (candidateOf text) with
  | none => .error (structuredParseError "model output is not valid JSON"
      [("error", .str (decoder.decodeError (candidateOf text))),
        ("head", .str (String.ofList (text.toList.take 200)))])
  | some data =>
    match decoder.validate data with
    | .error errors => .error (structuredParseError "model output violates the schema"
        [("errors", .arr (errors.take 5))])
    | .ok a => .ok a

/-- The request with a copy of its last message that asks for the schema. -/
def hintedRequest (req : ChatRequest) : Except Exc ChatRequest :=
  match req.messages.getLast? with
  | none => .error (.foreign "list index out of range")
  | some last =>
    let hint := String.ofList (encode .dumpsText decoder.fmt decoder.schema)
    .ok { req with messages := req.messages ++ [{ last with content := last.content ++
      ("\n\n只输出符合以下 JSON Schema 的 JSON 对象，不要输出任何其它文字：" ++ hint) }] }

/-- The attempts that are left, with the error of the last one: how many replies are asked for, and
what comes of them. -/
def parseAttempts (chat : ℕ → Except Exc String) : (left i : ℕ) → Option Exc → ℕ × Except Exc α
  | 0, _, lastError => (0, .error (lastError.getD (.foreign "AssertionError")))
  | left + 1, i, _ =>
    match chat i with
    | .error e => (1, .error e)
    | .ok text =>
      match parseSchema decoder text with
      | .ok a => (1, .ok a)
      | .error e =>
        let rest := parseAttempts chat left (i + 1) (some e)
        (rest.1 + 1, rest.2)

/-- `OpenAICompatibleLLM.structured`: the requests that it sends, and what it returns. The provider
is asked for one reply after the other. -/
def structured (retries : ℤ) (provider : ChatRequest → ℕ → Except Exc String) (req : ChatRequest) :
    List ChatRequest × Except Exc α :=
  match hintedRequest decoder req with
  | .error e => ([], .error e)
  | .ok prompted =>
    let attempts := parseAttempts decoder (provider prompted) (1 + retries).toNat 0 none
    (List.replicate attempts.1 prompted, attempts.2)

/-- There is no object of the schema in the reply. -/
def Unreadable (reply : Except Exc String) : Prop :=
  ∃ text e, reply = .ok text ∧ parseSchema decoder text = .error e

variable {decoder}

/-- An object with words around it is read as the object, if there is no brace in them that could
be taken for one of its own. -/
theorem parseSchema_decorated {members : List (String × Json)} {a : α} (style : Style)
    (hvalid : Valid decoder.fmt (.obj members)) (ha : decoder.validate (.obj members) = .ok a)
    {front back : List Char} (hfront : '\x7b' ∉ front) (hback : '\x7d' ∉ back) :
    parseSchema decoder
      (String.ofList (front ++ encode style decoder.fmt (.obj members) ++ back)) = .ok a := by
  obtain ⟨inner, hinner⟩ : ∃ inner,
      encode style decoder.fmt (.obj members) = '\x7b' :: (inner ++ ['\x7d']) :=
    ⟨_, rfl⟩
  have hblock : searchBlock (front ++ encode style decoder.fmt (.obj members) ++ back) =
      some (encode style decoder.fmt (.obj members)) := by
    have hsearch : searchBlock (front ++ '\x7b' :: (inner ++ '\x7d' :: back)) =
        some ('\x7b' :: (inner ++ ['\x7d'])) := searchBlock_append hfront hback
    rw [hinner]
    simpa using hsearch
  have hcandidate : candidateOf
      (String.ofList (front ++ encode style decoder.fmt (.obj members) ++ back)) =
        encode style decoder.fmt (.obj members) := by
    rw [candidateOf, String.toList_ofList, searchBlock_strip, hblock]
    rfl
  rw [parseSchema, hcandidate, loads_encode style hvalid]
  dsimp only
  rw [ha]

/-- The attempts end with the first reply that is more than unreadable, or with the last one. -/
theorem parseAttempts_of_decisive {chat : ℕ → Except Exc String} {k i left : ℕ} (hk : k < left)
    (hearlier : ∀ j < k, Unreadable decoder (chat (i + j)))
    (hdecisive : k + 1 = left ∨ ¬Unreadable decoder (chat (i + k))) (lastError : Option Exc) :
    parseAttempts decoder chat left i lastError =
      (k + 1, chat (i + k) >>= parseSchema decoder) := by
  induction k generalizing i left lastError with
  | zero =>
    obtain ⟨left, rfl⟩ := Nat.exists_eq_add_of_le' hk
    rw [Nat.add_zero] at hdecisive ⊢
    rw [parseAttempts]
    cases hchat : chat i with
    | error e => rfl
    | ok text =>
      dsimp only
      cases hparse : parseSchema decoder text with
      | ok a => simp [bind, Except.bind, hparse]
      | error e =>
        obtain hlast | hread := hdecisive
        · obtain rfl : left = 0 := by omega
          simp [bind, Except.bind, hparse, parseAttempts]
        · exact absurd ⟨text, e, hchat, hparse⟩ hread
  | succ k ih =>
    obtain ⟨left, rfl⟩ := Nat.exists_eq_add_of_le' (Nat.one_le_of_lt hk)
    obtain ⟨first, e, hchat, hparse⟩ := hearlier 0 (Nat.succ_pos k)
    have hshift : ∀ j, i + 1 + j = i + (j + 1) := fun j => Nat.add_right_comm i 1 j
    have hearlier' : ∀ j < k, Unreadable decoder (chat (i + 1 + j)) := by
      intro j hj
      rw [hshift]
      exact hearlier (j + 1) (Nat.succ_lt_succ hj)
    have hdecisive' : k + 1 = left ∨ ¬Unreadable decoder (chat (i + 1 + k)) := by
      rw [hshift]
      exact hdecisive.imp_left Nat.succ.inj
    have hrest := ih (Nat.lt_of_succ_lt_succ hk) hearlier' hdecisive' (some e)
    rw [parseAttempts, show chat i = .ok first from hchat]
    dsimp only
    rw [hparse]
    dsimp only
    rw [hrest, hshift]

/-- One reply after the other is asked for until one is more than unreadable; what comes of it, or
else of the last one, is what comes of them all. -/
theorem structured_of_decisive {retries : ℤ} {provider : ChatRequest → ℕ → Except Exc String}
    {req prompted : ChatRequest} (hprompted : hintedRequest decoder req = .ok prompted) {k : ℕ}
    (hk : k ≤ retries) (hearlier : ∀ j < k, Unreadable decoder (provider prompted j))
    (hdecisive : k = retries ∨ ¬Unreadable decoder (provider prompted k)) :
    structured decoder retries provider req =
      (List.replicate (k + 1) prompted, provider prompted k >>= parseSchema decoder) := by
  have hleft : k < (1 + retries).toNat := by omega
  have hearlier' : ∀ j < k, Unreadable decoder (provider prompted (0 + j)) := by
    simpa only [Nat.zero_add] using hearlier
  have hdecisive' : k + 1 = (1 + retries).toNat ∨
      ¬Unreadable decoder (provider prompted (0 + k)) := by
    rw [Nat.zero_add]
    exact hdecisive.imp_left fun hlast => by omega
  have hattempts := parseAttempts_of_decisive hleft hearlier' hdecisive' none
  rw [Nat.zero_add] at hattempts
  rw [structured, hprompted]
  dsimp only
  rw [hattempts]

/-- Whatever the provider replies before, an object of the schema that it writes within the
attempts is what is returned, in any style and with any words around it. -/
theorem structured_decorated (retries : ℤ) (provider : ChatRequest → ℕ → Except Exc String)
    {req prompted : ChatRequest} (hprompted : hintedRequest decoder req = .ok prompted)
    {members : List (String × Json)} {a : α} (style : Style)
    (hvalid : Valid decoder.fmt (.obj members)) (ha : decoder.validate (.obj members) = .ok a)
    {front back : List Char} (hfront : '\x7b' ∉ front) (hback : '\x7d' ∉ back) {k : ℕ}
    (hk : k ≤ retries) (hearlier : ∀ j < k, Unreadable decoder (provider prompted j))
    (hreply : provider prompted k =
      .ok (String.ofList (front ++ encode style decoder.fmt (.obj members) ++ back))) :
    structured decoder retries provider req = (List.replicate (k + 1) prompted, .ok a) := by
  have hread := parseSchema_decorated style hvalid ha hfront hback
  generalize String.ofList (front ++ encode style decoder.fmt (.obj members) ++ back) = text
    at hread hreply
  have hdecisive : ¬Unreadable decoder (provider prompted k) := by
    rintro ⟨text', e, htext, hparse⟩
    obtain rfl := Except.ok.inj (hreply.symm.trans htext)
    rw [hread] at hparse
    cases hparse
  rw [structured_of_decisive hprompted hk hearlier (.inr hdecisive), hreply]
  exact congrArg (Prod.mk _) hread

end Replies

/-! A verdict that comes with words around it, after a reply without one. -/

def verdictDecoder : ReplyDecoder Bool where
  fmt := integerFormat
  decodeError _ := "Expecting value"
  schema := .obj [("type", .str "object")]
  validate data :=
    match data.member? "passed" with
    | some (.bool passed) => .ok passed
    | _ => .error [.str "Field required"]

def verdictRequest : ChatRequest where
  messages := [⟨"user", "Is it supported?"⟩]
  role := .generate

def verdictReplies : ℕ → Except Exc String
  | 0 => .ok "Yes, it is."
  | _ => .ok "```json\n\x7b\"passed\": true\x7d\n```"

theorem structured_decorated_verdict :
    structured verdictDecoder 1 (fun _ => verdictReplies) verdictRequest =
      (List.replicate 2 { verdictRequest with messages := [⟨"user", "Is it supported?"⟩,
        ⟨"user", "Is it supported?\n\n只输出符合以下 JSON Schema 的 JSON 对象，不要输出任何其它文字：" ++
          "\x7b\"type\": \"object\"\x7d"⟩] }, .ok true) := by
  have hvalid : Valid verdictDecoder.fmt (.obj [("passed", .bool true)]) := by simp
  have hfirst : ∀ j < 1, Unreadable verdictDecoder (verdictReplies j) := by
    intro j hj
    obtain rfl : j = 0 := Nat.lt_one_iff.mp hj
    exact ⟨_, _, rfl, rfl⟩
  have hfront : '\x7b' ∉ "```json\n".toList := by decide
  have hback : '\x7d' ∉ "\n```".toList := by decide
  exact structured_decorated 1 (fun _ => verdictReplies) rfl .dumps hvalid rfl hfront hback le_rfl
    hfirst rfl

end Ragx
