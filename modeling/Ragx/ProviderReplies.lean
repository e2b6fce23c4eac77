import Ragx.CircuitBreaker
import Ragx.PyJson

/-!
# Replies of a provider

A reply of a chat endpoint is decoded, indexed, converted to integers and validated. Only the
decoding and the indexing are guarded, and of the decoding only what looks like a wrong shape.
-/
namespace Ragx

/-- A decoded JSON value, with the two kinds of numbers that Python reads. -/
inductive WireValue where
  | null
  | bool (b : Bool)
  | int (z : ℤ)
  | float (x : PyFloat)
  | str (s : String)
  | arr (xs : List WireValue)
  | obj (members : List (String × WireValue))

namespace WireValue

def truthy : WireValue → Bool
  | .null => false
  | .bool b => b
  | .int z => z != 0
  | .float x => x.truthy
  | .str s => s != ""
  | .arr xs => !xs.isEmpty
  | .obj members => !members.isEmpty

def typeName : WireValue → String
  | .null => "NoneType"
  | .bool _ => "bool"
  | .int _ => "int"
  | .float _ => "float"
  | .str _ => "str"
  | .arr _ => "list"
  | .obj _ => "dict"

/-- `x[0]`; the errors are `IndexError`, `KeyError` and `TypeError`. -/
def first : WireValue → Except String WireValue
  | .arr (x :: _) => .ok x
  | .arr [] => .error "list index out of range"
  | .str s =>
    match s.toList with
    | c :: _ => .ok (.str c.toString)
    | [] => .error "string index out of range"
  | .obj _ => .error "0"
  | x => .error ("'" ++ x.typeName ++ "' object is not subscriptable")

/-- `x[key]`; the errors are `KeyError` and `TypeError`. -/
def item (x : WireValue) (key : String) : Except String WireValue :=
  match x with
  | .obj members =>
    match OrderedDict.lookupIn key members with
    | some x => .ok x
    | none => .error ("'" ++ key ++ "'")
  | .str _ => .error "string indices must be integers, not 'str'"
  | .arr _ => .error "list indices must be integers or slices, not str"
  | x => .error ("'" ++ x.typeName ++ "' object is not subscriptable")

/-- What an object has under a key; without one, and in any other value, `None`. -/
def member (x : WireValue) (key : String) : WireValue :=
  match x with
  | .obj members => (OrderedDict.lookupIn key members).getD .null
  | _ => .null

/-- `x.get(key)`. -/
def get (x : WireValue) (key : String) : Except Exc WireValue :=
  match x with
  | .obj _ => .ok (x.member key)
  | x => .error (.foreign ("'" ++ x.typeName ++ "' object has no attribute 'get'"))

/-- `int(x)`, with the reader of numerals given. -/
def toInt (intOf : String → Option ℤ) : WireValue → Except Exc ℤ
  | .bool b => .ok (if b then 1 else 0)
  | .int z => .ok z
  | .float (.finite q) => .ok (truncate q)
  | .float .nan => .error (.foreign "cannot convert float NaN to integer")
  | .float .infinity | .float .negInfinity =>
    .error (.foreign "cannot convert float infinity to integer")
  | .str s =>
    match intOf s with
    | some z => .ok z
    | none => .error (.foreign ("invalid literal for int() with base 10: '" ++ s ++ "'"))
  | x => .error (.foreign
      ("int() argument must be a string, a bytes-like object or a real number, not '" ++
        x.typeName ++ "'"))

end WireValue

/-- The reported numbers of tokens; nothing keeps them from being negative. -/
structure ReportedUsage where
  promptTokens : ℤ
  completionTokens : ℤ
  total : ℤ

structure ReportedReply where
  text : String
  usage : ReportedUsage
  model : Option String
  raw : WireValue

/-- A response as httpx has it. Decoding its text and its JSON may raise an error from outside
the tree. -/
structure HttpReply where
  statusCode : ℕ
  text : Except String String
  json : Except String WireValue

/-- What becomes of the request: a timeout, another `HTTPError`, or a response. -/
inductive Exchange where
  | timedOut (error : String)
  | failed (error : String)
  | replied (resp : HttpReply)

/-- `int(usage.get(key) or default)`. -/
def readCount (intOf : String → Option ℤ) (usage : WireValue) (key : String) (default : ℤ) :
    Except Exc ℤ := do
  let count ← usage.get key
  if count.truthy then count.toInt intOf else return default

def readCounts (intOf : String → Option ℤ) (usage : WireValue) : Except Exc ReportedUsage := do
  let promptTokens ← readCount intOf usage "prompt_tokens" 0
  let completionTokens ← readCount intOf usage "completion_tokens" 0
  let total ← readCount intOf usage "total_tokens" (promptTokens + completionTokens)
  return { promptTokens, completionTokens, total }

/-- `payload.get("usage") or {}`, and its counts. -/
def extractUsage (intOf : String → Option ℤ) (payload : WireValue) : Except Exc ReportedUsage := do
  let usage ← payload.get "usage"
  readCounts intOf (if usage.truthy then usage else .obj [])

/-- An HTTP failure as an error of the tree. -/
def translateHttpError (resp : HttpReply) : Exc :=
  match resp.text with
  | .error raised => .foreign raised
  | .ok text =>
    let details (retryable : Bool) : List (String × Json) :=
      [("status", .num resp.statusCode), ("body", .str (String.ofList (text.toList.take 500))),
        ("retryable", .bool retryable)]
    if resp.statusCode = 429 then
      { cls := .rateLimit, code := 1004, message := "provider rate limited"
        details := details true }
    else if 500 ≤ resp.statusCode ∧ resp.statusCode < 600 then
      { cls := .llm, code := 6000, message := "provider returned a server error"
        details := details true }
    else
      { cls := .llm, code := 6000, message := "provider rejected the request"
        details := details false }

def transportError (message error : String) : Exc where
  cls := .llm
  code := 6000
  message := message
  details := [("error", .str error), ("retryable", .bool true)]

def shapeError (error : String) : Exc where
  cls := .pluginContract
  code := 9004
  message := "unexpected provider response shape"
  details := [("error", .str error)]

/-- `payload["choices"][0]["message"]["content"]` -/
def contentOf (payload : WireValue) : Except String WireValue := do
  let choices ← payload.item "choices"
  let choice ← choices.first
  let message ← choice.item "message"
  message.item "content"

/-- The validation of the response model. -/
def chatResponse (text model raw : WireValue) (usage : ReportedUsage) : Except Exc ReportedReply :=
  match text, model with
  | .str text, .null => .ok { text, usage, model := none, raw }
  | .str text, .str model => .ok { text, usage, model := some model, raw }
  | _, _ => .error (.foreign "validation error for ChatResponse")

/-- `OpenAICompatibleLLM.chat`, from the answer to its request on. -/
def Exchange.chat (intOf : String → Option ℤ) : Exchange → Except Exc ReportedReply
  | .timedOut error => .error (transportError "provider timed out" error)
  | .failed error => .error (transportError "provider unreachable" error)
  | .replied resp =>
    if resp.statusCode ≠ 200 then .error (translateHttpError resp)
    else match resp.json with
      | .error raised => .error (.foreign raised)
      | .ok payload =>
        match contentOf payload with
        | .error error => .error (shapeError error)
        | .ok content => do
          let text := if content.truthy then content else .str ""
          let usage ← extractUsage intOf payload
          let model ← payload.get "model"
          chatResponse text model payload usage

/-! ## The shape of a reply -/

/-- `isinstance(exc, RAGXError)`. -/
def Exc.isRagx (e : Exc) : Bool := e.cls != .foreign && e.cls != .timeout

namespace WireValue

def IsText (x : WireValue) : Prop := x.truthy = false ∨ ∃ s, x = .str s

/-- A number of tokens, as a number or as a numeral; a missing one and zero are the same. -/
def IsCount (intOf : String → Option ℤ) : WireValue → Prop
  | .null | .bool _ | .int _ => True
  | .float x => ∃ q, x = .finite q
  | .str s => s = "" ∨ (intOf s).isSome = true
  | .arr xs => xs = []
  | .obj members => members = []

/-- No usage, or an object whose counts can be read. -/
def IsUsage (intOf : String → Option ℤ) (usage : WireValue) : Prop :=
  usage.truthy = false ∨ (∃ members, usage = .obj members) ∧
    (usage.member "prompt_tokens").IsCount intOf ∧
    (usage.member "completion_tokens").IsCount intOf ∧
    (usage.member "total_tokens").IsCount intOf

def IsModel (x : WireValue) : Prop := x = .null ∨ ∃ s, x = .str s

/-- A body with the expected parts. -/
def IsReply (intOf : String → Option ℤ) (payload : WireValue) : Prop :=
  (∃ content, contentOf payload = .ok content ∧ content.IsText) ∧
    (payload.member "usage").IsUsage intOf

end WireValue

/-- The call returns or raises an error of the tree; any status 200 whose body is not JSON with
the expected parts breaks the contract. -/
structure Exchange.StaysInTree (intOf : String → Option ℤ) (x : Exchange) : Prop where
  inTree : ∀ e, x.chat intOf = .error e → e.isRagx = true
  contract : ∀ resp, x = .replied resp → resp.statusCode = 200 →
    (¬ ∃ payload, resp.json = .ok payload ∧ payload.IsReply intOf) →
      ∃ e, x.chat intOf = .error e ∧ e.cls = .pluginContract

/-- A failure has a text. A success is JSON: either its content is not there, or it has the
expected parts and a model that is a text, if any. -/
def Exchange.Clear (intOf : String → Option ℤ) (x : Exchange) : Prop :=
  ∀ resp, x = .replied resp →
    if resp.statusCode = 200 then
      ∃ payload, resp.json = .ok payload ∧
        ((∃ error, contentOf payload = .error error) ∨
          payload.IsReply intOf ∧ (payload.member "model").IsModel)
    else ∃ text, resp.text = .ok text

/-! ## What is read and what escapes -/

section Reading

variable {α β : Type} {intOf : String → Option ℤ}

/-- The computation succeeds where `good` holds and raises a foreign error elsewhere. -/
def SucceedsIff (x : Except Exc α) (good : Prop) : Prop :=
  (∃ a, x = .ok a) ∧ good ∨ (∃ message, x = .error (.foreign message)) ∧ ¬ good

theorem SucceedsIff.ok {a : α} {good : Prop} (h : good) : SucceedsIff (.ok a) good :=
  Or.inl ⟨⟨a, rfl⟩, h⟩

theorem SucceedsIff.foreign {message : String} {good : Prop} (h : ¬ good) :
    SucceedsIff (α := α) (.error (.foreign message)) good :=
  Or.inr ⟨⟨message, rfl⟩, h⟩

/-- Two computations in a row. -/
theorem SucceedsIff.bind {x : Except Exc α} {f : α → Except Exc β} {good good' : Prop}
    (hx : SucceedsIff x good) (hf : ∀ a, SucceedsIff (f a) good') :
    SucceedsIff (x >>= f) (good ∧ good') := by
  rcases hx with ⟨⟨a, rfl⟩, hgood⟩ | ⟨⟨message, rfl⟩, hbad⟩
  · rcases hf a with ⟨hok, hgood'⟩ | ⟨herror, hbad⟩
    · exact Or.inl ⟨hok, hgood, hgood'⟩
    · exact Or.inr ⟨herror, fun h => hbad h.2⟩
  · exact .foreign fun h => hbad h.1

theorem SucceedsIff.congr {x : Except Exc α} {good good' : Prop} (h : SucceedsIff x good)
    (hiff : good ↔ good') : SucceedsIff x good' := by
  rwa [SucceedsIff, ← hiff]

namespace WireValue

theorem succeeds_toInt {x : WireValue} (h : x.truthy = true) :
    SucceedsIff (x.toInt intOf) (x.IsCount intOf) := by
  cases x with
  | null => cases h
  | bool b => exact .ok trivial
  | int z => exact .ok trivial
  | float x =>
    cases x with
    | finite q => exact .ok ⟨q, rfl⟩
    | infinity | negInfinity | nan => exact .foreign (by rintro ⟨q, hq⟩; cases hq)
  | str s =>
    have hne : s ≠ "" := by simpa [truthy] using h
    rw [toInt]
    cases hint : intOf s with
    | some z => exact .ok (Or.inr (by rw [hint]; rfl))
    | none => exact .foreign fun h => h.elim hne (by rw [hint]; nofun)
  | arr xs =>
    refine .foreign fun hnil => ?_
    rw [show xs = [] from hnil] at h
    cases h
  | obj members =>
    refine .foreign fun hnil => ?_
    rw [show members = [] from hnil] at h
    cases h

theorem isCount_of_falsy {x : WireValue} (h : x.truthy = false) : x.IsCount intOf := by
  cases x with
  | null | bool _ | int _ => trivial
  | float x =>
    cases x with
    | finite q => exact ⟨q, rfl⟩
    | infinity | negInfinity | nan => cases h
  | str s => exact Or.inl (by simpa [truthy] using h)
  | arr xs =>
    refine (?_ : xs = [])
    simpa [truthy] using h
  | obj members =>
    refine (?_ : members = [])
    simpa [truthy] using h

theorem succeeds_readCount (members : List (String × WireValue)) (key : String) (default : ℤ) :
    SucceedsIff (readCount intOf (.obj members) key default)
      (((WireValue.obj members).member key).IsCount intOf) := by
  have hread : readCount intOf (.obj members) key default =
      if ((WireValue.obj members).member key).truthy then
        ((WireValue.obj members).member key).toInt intOf
      else .ok default := rfl
  rw [hread]
  split_ifs with htruthy
  · exact succeeds_toInt htruthy
  · exact .ok (isCount_of_falsy (Bool.eq_false_iff.mpr htruthy))

theorem succeeds_readCounts (members : List (String × WireValue)) :
    SucceedsIff (readCounts intOf (.obj members))
      (((WireValue.obj members).member "prompt_tokens").IsCount intOf ∧
        ((WireValue.obj members).member "completion_tokens").IsCount intOf ∧
        ((WireValue.obj members).member "total_tokens").IsCount intOf ∧ True) :=
  (succeeds_readCount members _ _).bind fun _ =>
    (succeeds_readCount members _ _).bind fun _ =>
      (succeeds_readCount members _ _).bind fun _ => .ok trivial

/-- The usage of an object is read if it has the expected form. -/
theorem succeeds_extractUsage (members : List (String × WireValue)) :
    SucceedsIff (extractUsage intOf (.obj members))
      (((WireValue.obj members).member "usage").IsUsage intOf) := by
  rw [show extractUsage intOf (.obj members) = readCounts intOf
    (if ((WireValue.obj members).member "usage").truthy then
      (WireValue.obj members).member "usage" else .obj []) from rfl]
  generalize (WireValue.obj members).member "usage" = usage
  unfold IsUsage
  by_cases htruthy : usage.truthy = true
  · rw [if_pos htruthy, htruthy]
    cases usage with
    | obj counts =>
      refine (succeeds_readCounts counts).congr ?_
      simp
    | null | bool _ | int _ | float _ | str _ | arr _ => exact .foreign (by simp)
  · rw [if_neg htruthy]
    exact (succeeds_readCounts []).congr (iff_of_true ⟨trivial, trivial, trivial, trivial⟩
      (Or.inl (Bool.eq_false_iff.mpr htruthy)))

theorem exists_obj_of_item {x value : WireValue} {key : String} (h : x.item key = .ok value) :
    ∃ members, x = .obj members := by
  cases x with
  | obj members => exact ⟨members, rfl⟩
  | null | bool _ | int _ | float _ | str _ | arr _ => cases h

/-- A payload with a content is an object. -/
theorem exists_obj_of_contentOf {payload content : WireValue}
    (h : contentOf payload = .ok content) : ∃ members, payload = .obj members := by
  unfold contentOf at h
  cases hitem : payload.item "choices" with
  | error _ =>
    rw [hitem] at h
    cases h
  | ok choices => exact exists_obj_of_item hitem

theorem succeeds_chatResponse (text model raw : WireValue) (usage : ReportedUsage) :
    SucceedsIff (chatResponse text model raw usage) ((∃ s, text = .str s) ∧ model.IsModel) := by
  unfold IsModel
  cases text with
  | str text =>
    cases model with
    | null => exact .ok (by simp)
    | str model => exact .ok (by simp)
    | bool _ | int _ | float _ | arr _ | obj _ => exact .foreign (by simp)
  | null | bool _ | int _ | float _ | arr _ | obj _ => exact .foreign (by simp)

/-- `content or ""` is a text. -/
theorem isText_iff {content : WireValue} :
    (∃ s, (if content.truthy then content else .str "") = .str s) ↔ content.IsText := by
  unfold IsText
  by_cases htruthy : content.truthy = true
  · simp [htruthy]
  · rw [if_neg htruthy]
    exact iff_of_true ⟨"", rfl⟩ (Or.inl (Bool.eq_false_iff.mpr htruthy))

end WireValue

end Reading

namespace Exchange

variable {intOf : String → Option ℤ}

/-- A response whose content is found is returned exactly if all its parts are as expected. -/
theorem succeeds_chat {resp : HttpReply} {payload content : WireValue}
    (hstatus : resp.statusCode = 200) (hjson : resp.json = .ok payload)
    (hcontent : contentOf payload = .ok content) :
    SucceedsIff ((Exchange.replied resp).chat intOf)
      (payload.IsReply intOf ∧ (payload.member "model").IsModel) := by
  obtain ⟨members, rfl⟩ := WireValue.exists_obj_of_contentOf hcontent
  rw [chat, if_neg (not_not.mpr hstatus), hjson]
  dsimp only
  rw [hcontent]
  have hparts := (@WireValue.succeeds_extractUsage intOf members).bind fun usage =>
    WireValue.succeeds_chatResponse (if content.truthy then content else .str "")
      ((WireValue.obj members).member "model") (.obj members) usage
  refine hparts.congr ?_
  rw [WireValue.isText_iff, WireValue.IsReply]
  constructor
  · rintro ⟨husage, htext, hmodel⟩
    exact ⟨⟨⟨content, hcontent, htext⟩, husage⟩, hmodel⟩
  · rintro ⟨⟨⟨content', hcontent', htext⟩, husage⟩, hmodel⟩
    obtain rfl := Except.ok.inj (hcontent.symm.trans hcontent')
    exact ⟨husage, htext, hmodel⟩

theorem isRagx_translateHttpError {resp : HttpReply} :
    (translateHttpError resp).isRagx = true ↔ ∃ text, resp.text = .ok text := by
  unfold translateHttpError
  cases resp.text with
  | error raised => exact iff_of_false Bool.false_ne_true (by simp)
  | ok text =>
    refine iff_of_true ?_ ⟨text, rfl⟩
    dsimp only
    split_ifs <;> rfl

/-- A foreign exception is not in the tree, and no contract error. -/
theorem not_staysInTree {x : Exchange} {message : String}
    (h : x.chat intOf = .error (.foreign message)) : ¬ x.StaysInTree intOf := by
  intro hstays
  exact absurd (hstays.inTree _ h) Bool.false_ne_true

theorem clear_replied_iff {resp : HttpReply} : (Exchange.replied resp).Clear intOf ↔
    if resp.statusCode = 200 then
      ∃ payload, resp.json = .ok payload ∧
        ((∃ error, contentOf payload = .error error) ∨
          payload.IsReply intOf ∧ (payload.member "model").IsModel)
    else ∃ text, resp.text = .ok text :=
  ⟨fun h => h resp rfl, fun h resp' hresp => by cases hresp; exact h⟩

/-- A success that is JSON. -/
theorem staysInTree_payload_iff {resp : HttpReply} {payload : WireValue}
    (hstatus : resp.statusCode = 200) (hjson : resp.json = .ok payload) :
    (Exchange.replied resp).StaysInTree intOf ↔
      (∃ error, contentOf payload = .error error) ∨
        payload.IsReply intOf ∧ (payload.member "model").IsModel := by
  cases hcontent : contentOf payload with
  | error error =>
    have hchat : (Exchange.replied resp).chat intOf = .error (shapeError error) := by
      rw [chat, if_neg (not_not.mpr hstatus), hjson]
      dsimp only
      rw [hcontent]
    refine iff_of_true ⟨fun e he => ?_, fun _ _ _ _ => ⟨_, hchat, rfl⟩⟩ (Or.inl ⟨error, rfl⟩)
    rw [hchat] at he
    cases he
    rfl
  | ok content =>
    rw [or_iff_right (by simp)]
    have hsucceeds : SucceedsIff ((Exchange.replied resp).chat intOf) _ :=
      succeeds_chat hstatus hjson hcontent
    rcases hsucceeds with ⟨⟨reply, hchat⟩, hgood⟩ | ⟨⟨message, hchat⟩, hbad⟩
    · refine iff_of_true ⟨fun e he => ?_, fun resp' hresp _ hnone => ?_⟩ hgood
      · rw [hchat] at he
        cases he
      · cases hresp
        exact absurd ⟨payload, hjson, hgood.1⟩ hnone
    · exact iff_of_false (not_staysInTree hchat) hbad

/-- A call stays in the error tree exactly if its response is clear. -/
theorem staysInTree_iff (intOf : String → Option ℤ) (x : Exchange) :
    x.StaysInTree intOf ↔ x.Clear intOf := by
  cases x with
  | timedOut error | failed error =>
    refine iff_of_true ⟨?_, nofun⟩ nofun
    rintro e ⟨⟩
    rfl
  | replied resp =>
    rw [clear_replied_iff]
    by_cases hstatus : resp.statusCode = 200
    · rw [if_pos hstatus]
      cases hjson : resp.json with
      | error raised =>
        have hchat : (Exchange.replied resp).chat intOf = .error (.foreign raised) := by
          rw [chat, if_neg (not_not.mpr hstatus), hjson]
        exact iff_of_false (not_staysInTree hchat) (by simp)
      | ok payload =>
        rw [staysInTree_payload_iff hstatus hjson]
        exact ⟨fun h => ⟨payload, rfl, h⟩, fun ⟨_, hpayload, h⟩ => Except.ok.inj hpayload ▸ h⟩
    · rw [if_neg hstatus, ← isRagx_translateHttpError]
      have hchat : (Exchange.replied resp).chat intOf = .error (translateHttpError resp) :=
        if_pos hstatus
      constructor
      · exact fun h => h.inTree _ hchat
      · refine fun h => ⟨fun e he => ?_, fun resp' hresp hok => ?_⟩
        · rw [hchat] at he
          cases he
          exact h
        · cases hresp
          exact absurd hok hstatus

/-- A proxy answers a request with a page of its own. -/
def proxyPage : Exchange :=
  .replied {
    statusCode := 200
    text := .ok "<html></html>"
    json := .error "Expecting value: line 1 column 1 (char 0)" }

theorem proxyPage_not_staysInTree : ¬ proxyPage.StaysInTree String.toInt? :=
  not_staysInTree rfl

end Exchange

end Ragx
