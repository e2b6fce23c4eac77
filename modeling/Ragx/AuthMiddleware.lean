import Ragx.Chunker
import Ragx.PyJson
import Ragx.Sequencing

/-!
# The authentication middleware

A credential is a key of the settings, a key of the database, or a signed token. The middleware
finds whose it is and which knowledge bases it may reach. A token may claim any
value as its allow-list.
-/
namespace Ragx

/-- What `json.loads` raises: a `ValueError`, or a `RecursionError`. -/
inductive LoadsError where
  | malformed (text : String)
  | tooDeep (text : String)

/-- Hashes and codecs of the standard library. The error of the decoder is the text of its
`ValueError`, and that of `float` the text of any of its errors. -/
structure AuthLib where
  sha256 : String → String
  hmacSha256 : (secret message : String) → List UInt8
  b64urlDecode : String → Except String (List UInt8)
  loads : List UInt8 → Except LoadsError Json
  str : Json → String
  float : Json → Except String PyFloat

/-- What the middleware reads of the `SecurityConfig`. -/
structure AuthSettings where
  apiKeys : List (String × List (String × Json)) := []
  jwtEnabled : Bool := false
  jwtSecret : String := ""

/-- Who sends a request; the allow-list `null` stands for `None`. -/
structure AuthContext where
  authenticated : Bool
  keyId : String := "anonymous"
  tenantId : String := "default"
  kbAcl : Json := .null

/-- The headers that may carry a credential. -/
structure AuthHeaders where
  authorization : String := ""
  xApiKey : Option String := none

structure ApiKeyRow where
  keyId : String
  kbAcl : Json
  tenantId : String
  enabled : Bool

structure AuthMiddleware where
  security : AuthSettings
  /-- `get_api_key_by_hash` of the store, if there is one. -/
  store : Option (String → Except Exc (Option ApiKeyRow)) := none

/-! ## Tokens -/

def authError (message : String) (details : List (String × Json)) : Exc :=
  { cls := .auth, code := 1002, message, details }

def extractCredential (headers : AuthHeaders) : Option String :=
  let auth := headers.authorization.toList
  if String.ofList ((auth.take 7).map Char.toLower) = "bearer " then
    some (String.ofList (strip (auth.drop 7)))
  else headers.xApiKey

def looksLikeJwt (token : String) : Bool := token.toList.count '.' == 2

def invalidJwt (text : String) : Exc := authError "invalid JWT" [("error", .str text)]

def AuthLib.decodeSegment (lib : AuthLib) (segment : String) : Except Exc Json :=
  match lib.b64urlDecode segment with
  | .error text => .error (invalidJwt text)
  | .ok bytes =>
    match lib.loads bytes with
    | .error (.malformed text) => .error (invalidJwt text)
    | .error (.tooDeep text) => .error (.foreign text)
    | .ok x => .ok x

/-- The claims of a signed token that is valid now. -/
def verifyJwt (lib : AuthLib) (token secret : String) (now : ℚ) : Except Exc Json :=
  match (token.toList.splitOn '.').map String.ofList with
  | [headerSeg, payloadSeg, sigSeg] => do
    let header ← lib.decodeSegment headerSeg
    let payload ← lib.decodeSegment payloadSeg
    let alg ← header.get "alg" .null
    if !alg.pyEq (.str "HS256") then
      throw (authError "unsupported JWT algorithm" [("alg", alg)])
    let expected := lib.hmacSha256 secret (headerSeg ++ "." ++ payloadSeg)
    match lib.b64urlDecode sigSeg with
    | .error text => throw (authError "invalid JWT signature" [("error", .str text)])
    | .ok provided =>
      if expected ≠ provided then throw (authError "invalid JWT signature" [])
      if ← (Json.str "exp").pyIn payload then
        match lib.float (← payload.item "exp") with
        | .error text => throw (.foreign text)
        | .ok exp => if exp.isBefore now then throw (authError "JWT expired" [])
      return payload
  | segments =>
    if segments.length < 3 then throw (invalidJwt
      ("not enough values to unpack (expected 3, got " ++ toString segments.length ++ ")"))
    else throw (invalidJwt "too many values to unpack (expected 3)")

/-! ## Keys -/

/-- `hmac.compare_digest`; a hash that is `None` is not compared. -/
def compareDigest (stored : Json) (keyHash : String) : Except Exc Bool :=
  match stored with
  | .null => .ok false
  | .str s =>
    if (s ++ keyHash).toList.all fun c => c.toNat < 128 then .ok (s == keyHash)
    else .error (.foreign "comparing strings with non-ASCII characters is not supported")
  | x => .error (.foreign
      ("unsupported operand types(s) or combination of types: '" ++ x.typeName ++ "' and 'str'"))

/-- The hash that a key's entry in the settings has, or that of the key in it. -/
def storedHash (lib : AuthLib) (spec : List (String × Json)) : Json :=
  match OrderedDict.lookupIn "key_hash" spec, OrderedDict.lookupIn "key" spec with
  | none, some key | some .null, some key => .str (lib.sha256 (lib.str key))
  | none, none => .null
  | some x, _ => x

/-- `list(spec.get("kb_acl") or []) or None`. -/
def staticAcl (spec : List (String × Json)) : Except Exc Json := do
  let acl := (OrderedDict.lookupIn "kb_acl" spec).getD .null
  let items ← if acl.truthy then acl.iter else .ok []
  return if items.isEmpty then .null else .arr items

def keyDisabled (keyId : String) : Exc := authError "API key disabled" [("key_id", .str keyId)]

/-- The static seed: the first key of the settings with the hash decides. -/
def resolveStaticKey (lib : AuthLib) (keyHash : String) :
    List (String × List (String × Json)) → Except Exc (Option AuthContext)
  | [] => .ok none
  | (keyId, spec) :: rest => do
    if ← compareDigest (storedHash lib spec) keyHash then
      if !(((OrderedDict.lookupIn "enabled" spec).map Json.truthy).getD true) then
        throw (keyDisabled keyId)
      let kbAcl ← staticAcl spec
      return some {
        authenticated := true
        keyId
        tenantId := lib.str ((OrderedDict.lookupIn "tenant_id" spec).getD (.str "default"))
        kbAcl }
    else resolveStaticKey lib keyHash rest

namespace AuthMiddleware

variable (mw : AuthMiddleware) (lib : AuthLib)

def enabled : Bool := !mw.security.apiKeys.isEmpty || mw.security.jwtEnabled

def resolveApiKey (credential : String) : Except Exc (Option AuthContext) := do
  let keyHash := lib.sha256 credential
  match ← resolveStaticKey lib keyHash mw.security.apiKeys with
  | some ctx => return some ctx
  | none =>
    match mw.store with
    | none => return none
    | some getApiKeyByHash =>
      match ← getApiKeyByHash keyHash with
      | none => return none
      | some row =>
        if !row.enabled then throw (keyDisabled row.keyId)
        return some {
          authenticated := true
          keyId := row.keyId
          tenantId := row.tenantId
          kbAcl := if row.kbAcl.truthy then row.kbAcl else .null }

def resolveJwt (token : String) (now : ℚ) : Except Exc AuthContext := do
  let claims ← verifyJwt lib token mw.security.jwtSecret now
  let sub ← claims.get "sub" (.str "")
  let tenant ← claims.get "tenant" (.str "default")
  let kbAcl ← claims.get "kb_acl" .null
  return {
    authenticated := true
    keyId := "jwt:" ++ lib.str sub
    tenantId := lib.str tenant
    kbAcl }

/-- `_resolve`: without keys and tokens every request passes as anonymous. -/
def resolve (headers : AuthHeaders) (now : ℚ) : Except Exc AuthContext :=
  if !mw.enabled then .ok { authenticated := false }
  else match extractCredential headers with
    | none | some "" => .error (authError "missing credentials"
        [("hint", .str "provide Authorization: Bearer <key> or X-API-Key")])
    | some credential =>
      if mw.security.jwtEnabled && looksLikeJwt credential then mw.resolveJwt lib credential now
      else do
        match ← mw.resolveApiKey lib credential with
        | some ctx => return ctx
        | none => throw (authError "invalid API key"
            [("key_prefix", .str (String.ofList (credential.toList.take 8)))])

/-! ## Who is anonymous -/

variable {mw lib} {ctx : AuthContext}

theorem authenticated_of_resolveStaticKey {keyHash : String}
    {apiKeys : List (String × List (String × Json))}
    (h : resolveStaticKey lib keyHash apiKeys = .ok (some ctx)) : ctx.authenticated = true := by
  induction apiKeys with
  | nil => cases h
  | cons key rest ih =>
    unfold resolveStaticKey at h
    obtain ⟨found, -, h⟩ := bind_eq_ok_iff.mp h
    split_ifs at h
    · cases h
    · obtain ⟨kbAcl, -, h⟩ := bind_eq_ok_iff.mp h
      cases h
      rfl
    · exact ih h

theorem authenticated_of_resolveApiKey {credential : String}
    (h : mw.resolveApiKey lib credential = .ok (some ctx)) : ctx.authenticated = true := by
  unfold resolveApiKey at h
  obtain ⟨found, hstatic, h⟩ := bind_eq_ok_iff.mp h
  cases found with
  | some _ =>
    cases h
    exact authenticated_of_resolveStaticKey hstatic
  | none =>
    cases hstore : mw.store with
    | none =>
      rw [hstore] at h
      cases h
    | some getApiKeyByHash =>
      rw [hstore] at h
      obtain ⟨row, -, h⟩ := bind_eq_ok_iff.mp h
      cases row with
      | none => cases h
      | some row =>
        cases hrow : row.enabled with
        | false =>
          simp only [hrow] at h
          cases h
        | true =>
          simp only [hrow] at h
          cases h
          rfl

theorem authenticated_of_resolveJwt {token : String} {now : ℚ}
    (h : mw.resolveJwt lib token now = .ok ctx) : ctx.authenticated = true := by
  unfold resolveJwt at h
  obtain ⟨claims, -, h⟩ := bind_eq_ok_iff.mp h
  obtain ⟨sub, -, h⟩ := bind_eq_ok_iff.mp h
  obtain ⟨tenant, -, h⟩ := bind_eq_ok_iff.mp h
  obtain ⟨kbAcl, -, h⟩ := bind_eq_ok_iff.mp h
  cases h
  rfl

/-- Only a request that needs no credential is anonymous, and it has no allow-list. -/
theorem kbAcl_of_anonymous {headers : AuthHeaders} {now : ℚ}
    (h : mw.resolve lib headers now = .ok ctx) (hanon : ctx.authenticated = false) :
    ctx.kbAcl = .null := by
  unfold resolve at h
  split_ifs at h with hoff
  · cases h
    rfl
  · have hauth : ctx.authenticated = true := by
      split at h
      · cases h
      · cases h
      · split_ifs at h
        · exact authenticated_of_resolveJwt h
        · obtain ⟨found, hfound, h⟩ := bind_eq_ok_iff.mp h
          cases found with
          | none => cases h
          | some _ =>
            cases h
            exact authenticated_of_resolveApiKey hfound
    rw [hanon] at hauth
    cases hauth

end AuthMiddleware

/-- The check of the REST routes. -/
def AuthContext.requireKbAccess (ctx : AuthContext) (kbId : String) : Except Exc Unit := do
  if ctx.authenticated && ctx.kbAcl.truthy then
    if !(← (Json.str kbId).pyIn ctx.kbAcl) then throw (kbAccessError kbId)

/-- On a list of names the check is the one that the routes' own models take. -/
theorem AuthContext.requireKbAccess_of_names {ctx : AuthContext} {kbIds : List String}
    (hauth : ctx.authenticated = true) (hacl : ctx.kbAcl = .arr (kbIds.map .str)) (kbId : String) :
    ctx.requireKbAccess kbId = Ragx.requireKbAccess (some kbIds) kbId := by
  have hin : (Json.str kbId).pyIn (.arr (kbIds.map .str)) = .ok (decide (kbId ∈ kbIds)) := by
    refine congrArg Except.ok ?_
    rw [Bool.eq_iff_iff, Json.any_pyEq_str, decide_eq_true_iff]
    simp
  cases kbIds with
  | nil =>
    rw [requireKbAccess, hauth, hacl]
    rfl
  | cons kb kbs =>
    rw [requireKbAccess, hauth, hacl, hin]
    by_cases hmem : kbId ∈ kb :: kbs
    · rw [Ragx.requireKbAccess, if_pos hmem, decide_eq_true hmem]
      rfl
    · rw [Ragx.requireKbAccess, if_neg hmem, decide_eq_false hmem]
      rfl

end Ragx
