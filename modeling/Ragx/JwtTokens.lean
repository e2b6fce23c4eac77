import Ragx.AuthMiddleware

/-!
# Signed tokens

A token is decoded, its algorithm and its signature are checked, and then its expiry. The header
and the payload are whatever JSON the sender likes, and the checks read them as objects.
-/
namespace Ragx

/-- The three segments of a token. -/
def IsSplit (token headerSeg payloadSeg sigSeg : String) : Prop :=
  (token.toList.splitOn '.').map String.ofList = [headerSeg, payloadSeg, sigSeg]

namespace AuthLib

variable (lib : AuthLib)

/-- The segment is signed with the secret. -/
def IsSigned (secret headerSeg payloadSeg sigSeg : String) : Prop :=
  lib.b64urlDecode sigSeg = .ok (lib.hmacSha256 secret (headerSeg ++ "." ++ payloadSeg))

/-- No claim says that the token has expired. -/
def IsCurrent (now : ℚ) (claims : Json) : Prop :=
  ∀ x, claims.member? "exp" = some x → ∃ exp, lib.float x = .ok exp ∧ exp.isBefore now = false

def ReadsExpiry (claims : Json) : Prop :=
  ∀ x, claims.member? "exp" = some x → ∃ exp, lib.float x = .ok exp

/-- A signed token of the supported algorithm, with these claims, that has not expired. -/
def IsValid (token secret : String) (now : ℚ) (claims : Json) : Prop :=
  ∃ headerSeg payloadSeg sigSeg header, IsSplit token headerSeg payloadSeg sigSeg ∧
    lib.decodeSegment headerSeg = .ok header ∧ header.member? "alg" = some (.str "HS256") ∧
    lib.decodeSegment payloadSeg = .ok claims ∧ (∃ members, claims = .obj members) ∧
    lib.IsSigned secret headerSeg payloadSeg sigSeg ∧ lib.IsCurrent now claims

/-- The claims of the valid tokens are returned, and all else raises `AuthError(1002)`. -/
structure DecidesToken (token secret : String) (now : ℚ) : Prop where
  accepts : ∀ claims, verifyJwt lib token secret now = .ok claims ↔
    lib.IsValid token secret now claims
  rejects : ∀ e, verifyJwt lib token secret now = .error e → e.cls = .auth ∧ e.code = 1002

/-- The JSON of a segment is not nested too deeply. -/
def NotTooDeep (segment : String) : Prop :=
  ∀ bytes, lib.b64urlDecode segment = .ok bytes → ∀ text, lib.loads bytes ≠ .error (.tooDeep text)

/-- The segments of JSON are not nested too deeply, the header is an object, and a signed payload
is an object whose expiry, if any, is a number. -/
def ClearToken (token secret : String) : Prop :=
  ∀ headerSeg payloadSeg sigSeg, IsSplit token headerSeg payloadSeg sigSeg →
    lib.NotTooDeep headerSeg ∧ ∀ header, lib.decodeSegment headerSeg = .ok header →
      lib.NotTooDeep payloadSeg ∧ ∀ payload, lib.decodeSegment payloadSeg = .ok payload →
        (∃ members, header = .obj members) ∧
        (header.member? "alg" = some (.str "HS256") →
          lib.IsSigned secret headerSeg payloadSeg sigSeg →
            (∃ members, payload = .obj members) ∧ lib.ReadsExpiry payload)

/-- The last check of a token: its expiry. -/
def expiryChecked (now : ℚ) (payload : Json) : Except Exc Json := do
  if ← (Json.str "exp").pyIn payload then
    match lib.float (← payload.item "exp") with
    | .error text => throw (.foreign text)
    | .ok exp => if exp.isBefore now then throw (authError "JWT expired" [])
  return payload

end AuthLib

/-! ## The steps of the check -/

section Steps

variable {lib : AuthLib} {token secret headerSeg payloadSeg sigSeg : String} {now : ℚ}
variable {header payload claims : Json}

def AuthRejection (e : Exc) : Prop := e.cls = .auth ∧ e.code = 1002

theorem authRejection_authError (message : String) (details : List (String × Json)) :
    AuthRejection (authError message details) := ⟨rfl, rfl⟩

theorem not_authRejection_foreign (text : String) : ¬ AuthRejection (.foreign text) :=
  fun h => by cases h.1

theorem verifyJwt_of_split (h : IsSplit token headerSeg payloadSeg sigSeg) :
    verifyJwt lib token secret now = (do
      let header ← lib.decodeSegment headerSeg
      let payload ← lib.decodeSegment payloadSeg
      let alg ← header.get "alg" .null
      if !alg.pyEq (.str "HS256") then
        throw (authError "unsupported JWT algorithm" [("alg", alg)])
      match lib.b64urlDecode sigSeg with
      | .error text => throw (authError "invalid JWT signature" [("error", .str text)])
      | .ok provided =>
        if lib.hmacSha256 secret (headerSeg ++ "." ++ payloadSeg) ≠ provided then
          throw (authError "invalid JWT signature" [])
        lib.expiryChecked now payload) := by
  rw [verifyJwt, show (token.toList.splitOn '.').map String.ofList = _ from h]
  rfl

theorem isSplit_unique {headerSeg' payloadSeg' sigSeg' : String}
    (h : IsSplit token headerSeg payloadSeg sigSeg)
    (h' : IsSplit token headerSeg' payloadSeg' sigSeg') :
    headerSeg' = headerSeg ∧ payloadSeg' = payloadSeg ∧ sigSeg' = sigSeg := by
  simpa using h'.symm.trans h

theorem verifyJwt_of_not_split (h : ∀ headerSeg payloadSeg sigSeg,
    ¬ IsSplit token headerSeg payloadSeg sigSeg) :
    ∃ e, verifyJwt lib token secret now = .error e ∧ AuthRejection e := by
  unfold verifyJwt
  split
  · rename_i headerSeg payloadSeg sigSeg hsplit
    exact absurd hsplit (h headerSeg payloadSeg sigSeg)
  · split_ifs
    · exact ⟨_, rfl, authRejection_authError _ _⟩
    · exact ⟨_, rfl, authRejection_authError _ _⟩

/-- A segment is decoded, or rejected, or nested too deeply. -/
theorem decodeSegment_cases (lib : AuthLib) (segment : String) :
    ((∃ x, lib.decodeSegment segment = .ok x) ∨
        ∃ e, lib.decodeSegment segment = .error e ∧ AuthRejection e) ∧ lib.NotTooDeep segment ∨
      (∃ text, lib.decodeSegment segment = .error (.foreign text)) ∧
        ¬ lib.NotTooDeep segment := by
  unfold AuthLib.decodeSegment AuthLib.NotTooDeep
  cases hbytes : lib.b64urlDecode segment with
  | error text => exact Or.inl ⟨Or.inr ⟨_, rfl, authRejection_authError _ _⟩, nofun⟩
  | ok bytes =>
    dsimp only
    cases hjson : lib.loads bytes with
    | ok x =>
      refine Or.inl ⟨Or.inl ⟨x, rfl⟩, ?_⟩
      rintro bytes' ⟨⟩ text htext
      rw [hjson] at htext
      cases htext
    | error raised =>
      cases raised with
      | malformed text =>
        refine Or.inl ⟨Or.inr ⟨_, rfl, authRejection_authError _ _⟩, ?_⟩
        rintro bytes' ⟨⟩ text' htext
        rw [hjson] at htext
        cases htext
      | tooDeep text => exact Or.inr ⟨⟨text, rfl⟩, fun h => h bytes rfl text hjson⟩

/-! ## The expiry -/

theorem pyIn_obj {members : List (String × Json)} {key : String} :
    (Json.str key).pyIn (.obj members) =
      .ok ((Json.obj members).member? key).isSome := by
  have hany : (members.any fun m => (Json.str m.1).pyEq (.str key)) =
      (OrderedDict.lookupIn key members).isSome := by
    induction members with
    | nil => rfl
    | cons m members ih =>
      rw [List.any_cons, ih, OrderedDict.lookupIn]
      by_cases hkey : m.1 = key
      · rw [if_pos hkey, Json.pyEq_str.mpr (congrArg Json.str hkey)]
        rfl
      · have hne : (Json.str m.1).pyEq (.str key) = false :=
          Bool.eq_false_iff.mpr fun h => hkey (Json.str.inj (Json.pyEq_str.mp h))
        rw [if_neg hkey, hne, Bool.false_or]
  exact congrArg Except.ok hany

/-- An object is current, or has expired, or its expiry cannot be read. -/
theorem expiryChecked_obj (lib : AuthLib) (now : ℚ) (members : List (String × Json)) :
    lib.expiryChecked now (.obj members) = .ok (.obj members) ∧
        lib.IsCurrent now (.obj members) ∨
      (∃ e, lib.expiryChecked now (.obj members) = .error e ∧ AuthRejection e) ∧
        ¬ lib.IsCurrent now (.obj members) ∧ lib.ReadsExpiry (.obj members) ∨
      (∃ text, lib.expiryChecked now (.obj members) = .error (.foreign text)) ∧
        ¬ lib.ReadsExpiry (.obj members) := by
  unfold AuthLib.expiryChecked AuthLib.IsCurrent AuthLib.ReadsExpiry
  rw [pyIn_obj]
  cases hexp : (Json.obj members).member? "exp" with
  | none => exact Or.inl ⟨rfl, nofun⟩
  | some x =>
    rw [Json.item_eq_ok_iff.mpr hexp]
    dsimp only [bind, Except.bind, Option.isSome_some, if_true]
    cases hfloat : lib.float x with
    | error text =>
      refine Or.inr (Or.inr ⟨⟨text, rfl⟩, fun h => ?_⟩)
      obtain ⟨exp, hexp⟩ := h x rfl
      rw [hfloat] at hexp
      cases hexp
    | ok exp =>
      have hreads : ∀ y, some x = some y → ∃ exp, lib.float y = .ok exp := by
        rintro y ⟨⟩
        exact ⟨exp, hfloat⟩
      cases hbefore : exp.isBefore now with
      | true =>
        refine Or.inr (Or.inl ⟨⟨_, by simp [hbefore]; rfl, authRejection_authError _ _⟩,
          fun h => ?_, hreads⟩)
        obtain ⟨exp', hexp', hcurrent⟩ := h x rfl
        rw [hfloat] at hexp'
        cases hexp'
        rw [hbefore] at hcurrent
        cases hcurrent
      | false =>
        refine Or.inl ⟨by simp [hbefore]; rfl, ?_⟩
        rintro y ⟨⟩
        exact ⟨exp, hfloat, hbefore⟩

/-- A value that is no object is returned as it is, or its reading as one escapes. -/
theorem expiryChecked_of_not_obj (h : ¬ ∃ members, payload = .obj members) :
    lib.expiryChecked now payload = .ok payload ∨
      ∃ text, lib.expiryChecked now payload = .error (.foreign text) := by
  cases payload with
  | obj members => exact absurd ⟨members, rfl⟩ h
  | null | bool _ | num _ => exact Or.inr ⟨_, rfl⟩
  | str text =>
    unfold AuthLib.expiryChecked
    dsimp only [Json.pyIn, bind, Except.bind]
    split_ifs
    · exact Or.inr ⟨_, rfl⟩
    · exact Or.inl rfl
  | arr xs =>
    unfold AuthLib.expiryChecked
    dsimp only [Json.pyIn, bind, Except.bind]
    split_ifs
    · exact Or.inr ⟨_, rfl⟩
    · exact Or.inl rfl

/-! ## Decisions -/

theorem decidesToken_of_rejected {e : Exc} (h : verifyJwt lib token secret now = .error e)
    (he : AuthRejection e) (hinvalid : ∀ claims, ¬ lib.IsValid token secret now claims) :
    lib.DecidesToken token secret now := by
  refine ⟨fun claims => iff_of_false (fun hok => ?_) (hinvalid claims), fun e' he' => ?_⟩
  · rw [h] at hok
    cases hok
  · rw [h] at he'
    cases he'
    exact he

theorem not_decidesToken_of_foreign {text : String}
    (h : verifyJwt lib token secret now = .error (.foreign text)) :
    ¬ lib.DecidesToken token secret now :=
  fun hdecides => not_authRejection_foreign text (hdecides.rejects _ h)

theorem isValid_iff (h : IsSplit token headerSeg payloadSeg sigSeg)
    (hheader : lib.decodeSegment headerSeg = .ok header)
    (hpayload : lib.decodeSegment payloadSeg = .ok payload) :
    lib.IsValid token secret now claims ↔ claims = payload ∧
      header.member? "alg" = some (.str "HS256") ∧ (∃ members, payload = .obj members) ∧
      lib.IsSigned secret headerSeg payloadSeg sigSeg ∧ lib.IsCurrent now payload := by
  constructor
  · rintro ⟨headerSeg', payloadSeg', sigSeg', header', hsplit, hheader', halg, hpayload', hobj,
      hsigned, hcurrent⟩
    obtain ⟨rfl, rfl, rfl⟩ := isSplit_unique h hsplit
    obtain rfl := Except.ok.inj (hheader.symm.trans hheader')
    obtain rfl := Except.ok.inj (hpayload.symm.trans hpayload')
    exact ⟨rfl, halg, hobj, hsigned, hcurrent⟩
  · rintro ⟨rfl, halg, hobj, hsigned, hcurrent⟩
    exact ⟨headerSeg, payloadSeg, sigSeg, header, h, hheader, halg, hpayload, hobj, hsigned,
      hcurrent⟩

theorem not_isValid_of_undecoded (h : IsSplit token headerSeg payloadSeg sigSeg)
    (hbad : (∃ e, lib.decodeSegment headerSeg = .error e) ∨
      ∃ e, lib.decodeSegment payloadSeg = .error e) :
    ¬ lib.IsValid token secret now claims := by
  rintro ⟨_, _, _, _, hsplit, hheader, -, hpayload, -⟩
  obtain ⟨rfl, rfl, rfl⟩ := isSplit_unique h hsplit
  rcases hbad with ⟨e, hbad⟩ | ⟨e, hbad⟩
  · rw [hbad] at hheader
    cases hheader
  · rw [hbad] at hpayload
    cases hpayload

theorem clearToken_iff (h : IsSplit token headerSeg payloadSeg sigSeg)
    (hheader : lib.decodeSegment headerSeg = .ok header)
    (hpayload : lib.decodeSegment payloadSeg = .ok payload) (hnear : lib.NotTooDeep headerSeg)
    (hnear' : lib.NotTooDeep payloadSeg) :
    lib.ClearToken token secret ↔ (∃ members, header = .obj members) ∧
      (header.member? "alg" = some (.str "HS256") →
        lib.IsSigned secret headerSeg payloadSeg sigSeg →
          (∃ members, payload = .obj members) ∧ lib.ReadsExpiry payload) := by
  constructor
  · exact fun hclear => ((hclear _ _ _ h).2 header hheader).2 payload hpayload
  · intro hclear headerSeg' payloadSeg' sigSeg' hsplit
    obtain ⟨rfl, rfl, rfl⟩ := isSplit_unique h hsplit
    refine ⟨hnear, fun header' hheader' => ⟨hnear', fun payload' hpayload' => ?_⟩⟩
    obtain rfl := Except.ok.inj (hheader.symm.trans hheader')
    obtain rfl := Except.ok.inj (hpayload.symm.trans hpayload')
    exact hclear

theorem verifyJwt_of_signed (h : IsSplit token headerSeg payloadSeg sigSeg)
    (hheader : lib.decodeSegment headerSeg = .ok header)
    (hpayload : lib.decodeSegment payloadSeg = .ok payload)
    (halg : header.member? "alg" = some (.str "HS256"))
    (hsigned : lib.IsSigned secret headerSeg payloadSeg sigSeg) :
    verifyJwt lib token secret now = lib.expiryChecked now payload := by
  rw [verifyJwt_of_split h, hheader, hpayload]
  dsimp only [bind, Except.bind]
  rw [Json.get_of_member? halg, show lib.b64urlDecode sigSeg = _ from hsigned]
  simp [Json.pyEq_str.mpr]

theorem member?_of_pyEq {members : List (String × Json)} {key text : String}
    (h : ((OrderedDict.lookupIn key members).getD .null).pyEq (.str text) = true) :
    (Json.obj members).member? key = some (.str text) := by
  have heq := Json.pyEq_str.mp h
  rw [Json.member?]
  cases hfound : OrderedDict.lookupIn key members with
  | none =>
    rw [hfound] at heq
    cases heq
  | some x =>
    rw [hfound] at heq
    exact congrArg some heq

theorem verifyJwt_of_unsigned {members : List (String × Json)}
    (h : IsSplit token headerSeg payloadSeg sigSeg)
    (hheader : lib.decodeSegment headerSeg = .ok (.obj members))
    (hpayload : lib.decodeSegment payloadSeg = .ok payload)
    (hbad : ¬ ((Json.obj members).member? "alg" = some (.str "HS256") ∧
      lib.IsSigned secret headerSeg payloadSeg sigSeg)) :
    ∃ e, verifyJwt lib token secret now = .error e ∧ AuthRejection e := by
  rw [verifyJwt_of_split h, hheader, hpayload]
  have hget : (Json.obj members).get "alg" .null =
      .ok ((OrderedDict.lookupIn "alg" members).getD .null) := rfl
  dsimp only [bind, Except.bind]
  rw [hget]
  dsimp only
  by_cases halg : ((OrderedDict.lookupIn "alg" members).getD .null).pyEq (.str "HS256") = true
  · rw [halg]
    cases hsig : lib.b64urlDecode sigSeg with
    | error text => exact ⟨_, rfl, authRejection_authError _ _⟩
    | ok provided =>
      have hne : lib.hmacSha256 secret (headerSeg ++ "." ++ payloadSeg) ≠ provided := by
        rintro rfl
        exact hbad ⟨member?_of_pyEq halg, hsig⟩
      dsimp only [Bool.not_true]
      refine ⟨authError "invalid JWT signature" [], ?_, authRejection_authError _ _⟩
      simp [hne]
      rfl
  · refine ⟨authError "unsupported JWT algorithm"
      [("alg", (OrderedDict.lookupIn "alg" members).getD .null)], ?_, authRejection_authError _ _⟩
    simp [halg]
    rfl

/-- A signed token of the supported algorithm is left to its payload. -/
theorem decidesToken_of_signed (h : IsSplit token headerSeg payloadSeg sigSeg)
    (hheader : lib.decodeSegment headerSeg = .ok header)
    (hpayload : lib.decodeSegment payloadSeg = .ok payload)
    (halg : header.member? "alg" = some (.str "HS256"))
    (hsigned : lib.IsSigned secret headerSeg payloadSeg sigSeg) :
    lib.DecidesToken token secret now ↔
      (∃ members, payload = .obj members) ∧ lib.ReadsExpiry payload := by
  have hverify : verifyJwt lib token secret now = lib.expiryChecked now payload :=
    verifyJwt_of_signed h hheader hpayload halg hsigned
  have hvalid (claims : Json) : lib.IsValid token secret now claims ↔ _ :=
    isValid_iff h hheader hpayload
  by_cases hclaims : ∃ members, payload = .obj members
  · obtain ⟨members, rfl⟩ := hclaims
    rcases expiryChecked_obj lib now members with ⟨hcheck, hcurrent⟩ |
      ⟨⟨e, hcheck, he⟩, hpast, hreads⟩ | ⟨⟨text, hcheck⟩, hunread⟩
    · have hreads : lib.ReadsExpiry (.obj members) := fun x hx =>
        (hcurrent x hx).imp fun _ hexp => hexp.1
      refine iff_of_true ⟨fun claims => ?_, fun e he => ?_⟩ ⟨⟨members, rfl⟩, hreads⟩
      · rw [hvalid, hverify, hcheck]
        exact ⟨fun h => ⟨(Except.ok.inj h).symm, halg, ⟨members, rfl⟩, hsigned, hcurrent⟩,
          fun h => congrArg Except.ok h.1.symm⟩
      · rw [hverify, hcheck] at he
        cases he
    · exact iff_of_true (decidesToken_of_rejected (hverify.trans hcheck) he fun claims h =>
        hpast ((hvalid claims).mp h).2.2.2.2) ⟨⟨members, rfl⟩, hreads⟩
    · exact iff_of_false (not_decidesToken_of_foreign (hverify.trans hcheck)) fun h => hunread h.2
  · refine iff_of_false ?_ fun h => hclaims h.1
    have hreturned : lib.expiryChecked now payload = .ok payload ∨ _ :=
      expiryChecked_of_not_obj hclaims
    rcases hreturned with hcheck | ⟨text, hcheck⟩
    · intro hdecides
      exact hclaims ((hvalid payload).mp
        ((hdecides.accepts payload).mp (hverify.trans hcheck))).2.2.1
    · exact not_decidesToken_of_foreign (hverify.trans hcheck)

/-- A token whose header and payload are JSON. -/
theorem decidesToken_of_decoded (h : IsSplit token headerSeg payloadSeg sigSeg)
    (hheader : lib.decodeSegment headerSeg = .ok header)
    (hpayload : lib.decodeSegment payloadSeg = .ok payload) :
    lib.DecidesToken token secret now ↔ (∃ members, header = .obj members) ∧
      (header.member? "alg" = some (.str "HS256") →
        lib.IsSigned secret headerSeg payloadSeg sigSeg →
          (∃ members, payload = .obj members) ∧ lib.ReadsExpiry payload) := by
  by_cases hobj : ∃ members, header = .obj members
  · obtain ⟨members, rfl⟩ := hobj
    by_cases hgood : (Json.obj members).member? "alg" = some (.str "HS256") ∧
        lib.IsSigned secret headerSeg payloadSeg sigSeg
    · obtain ⟨halg, hsigned⟩ := hgood
      rw [decidesToken_of_signed h hheader hpayload halg hsigned]
      exact ⟨fun h => ⟨⟨members, rfl⟩, fun _ _ => h⟩, fun h => h.2 halg hsigned⟩
    · obtain ⟨e, hverify, he⟩ : ∃ e, verifyJwt lib token secret now = .error e ∧ AuthRejection e :=
        verifyJwt_of_unsigned h hheader hpayload hgood
      refine iff_of_true (decidesToken_of_rejected hverify he fun claims hvalid => ?_)
        ⟨⟨members, rfl⟩, fun halg hsigned => absurd ⟨halg, hsigned⟩ hgood⟩
      obtain ⟨-, halg, -, hsigned, -⟩ := (isValid_iff h hheader hpayload).mp hvalid
      exact hgood ⟨halg, hsigned⟩
  · refine iff_of_false ?_ fun h => hobj h.1
    have hverify : verifyJwt lib token secret now = _ := verifyJwt_of_split h
    rw [hheader, hpayload] at hverify
    cases header with
    | obj members => exact absurd ⟨members, rfl⟩ hobj
    | null | bool _ | num _ | str _ | arr _ => exact not_decidesToken_of_foreign hverify

end Steps

namespace AuthLib

/-- A token is decided exactly if it is clear: what is JSON is not nested too deeply, the header
is an object, and what is signed is an object with a readable expiry, if any. -/
theorem decidesToken_iff (lib : AuthLib) (token secret : String) (now : ℚ) :
    lib.DecidesToken token secret now ↔ lib.ClearToken token secret := by
  by_cases hsplit : ∃ headerSeg payloadSeg sigSeg, IsSplit token headerSeg payloadSeg sigSeg
  · obtain ⟨headerSeg, payloadSeg, sigSeg, h⟩ := hsplit
    have hverify : verifyJwt lib token secret now = _ := verifyJwt_of_split h
    rcases decodeSegment_cases lib headerSeg with
      ⟨⟨header, hheader⟩ | ⟨e, hheader, he⟩, hnear⟩ | ⟨⟨text, hheader⟩, hdeep⟩
    · rcases decodeSegment_cases lib payloadSeg with
        ⟨⟨payload, hpayload⟩ | ⟨e, hpayload, he⟩, hnear'⟩ | ⟨⟨text, hpayload⟩, hdeep⟩
      · rw [clearToken_iff h hheader hpayload hnear hnear']
        exact decidesToken_of_decoded h hheader hpayload
      · rw [hheader, hpayload] at hverify
        refine iff_of_true (decidesToken_of_rejected hverify he fun claims =>
          not_isValid_of_undecoded h (Or.inr ⟨e, hpayload⟩)) ?_
        intro _ _ _ hsplit
        obtain ⟨rfl, rfl, rfl⟩ := isSplit_unique h hsplit
        refine ⟨hnear, fun _ _ => ⟨hnear', fun payload hclaims => ?_⟩⟩
        rw [hpayload] at hclaims
        cases hclaims
      · rw [hheader, hpayload] at hverify
        exact iff_of_false (not_decidesToken_of_foreign hverify) fun hclear =>
          hdeep ((hclear _ _ _ h).2 header hheader).1
    · rw [hheader] at hverify
      refine iff_of_true (decidesToken_of_rejected hverify he fun claims =>
        not_isValid_of_undecoded h (Or.inl ⟨e, hheader⟩)) ?_
      intro _ _ _ hsplit
      obtain ⟨rfl, rfl, rfl⟩ := isSplit_unique h hsplit
      refine ⟨hnear, fun header hok => ?_⟩
      rw [hheader] at hok
      cases hok
    · rw [hheader] at hverify
      exact iff_of_false (not_decidesToken_of_foreign hverify) fun hclear =>
        hdeep (hclear _ _ _ h).1
  · have hnone (headerSeg payloadSeg sigSeg : String) :
        ¬ IsSplit token headerSeg payloadSeg sigSeg :=
      fun h => hsplit ⟨headerSeg, payloadSeg, sigSeg, h⟩
    obtain ⟨e, hverify, he⟩ : ∃ e, verifyJwt lib token secret now = .error e ∧ AuthRejection e :=
      verifyJwt_of_not_split hnone
    refine iff_of_true (decidesToken_of_rejected hverify he ?_) fun _ _ _ h =>
      absurd h (hnone _ _ _)
    rintro claims ⟨headerSeg, payloadSeg, sigSeg, -, h, -⟩
    exact hnone headerSeg payloadSeg sigSeg h

section Sample

/-- A library that knows one segment: the list `[]`, in two bytes. -/
def listLib : AuthLib where
  sha256 _ := ""
  hmacSha256 _ _ := []
  b64urlDecode segment :=
    if segment = "W10" then .ok [91, 93] else .error "Incorrect padding"
  loads bytes :=
    if bytes = [91, 93] then .ok (.arr [])
    else .error (.malformed "Expecting value: line 1 column 1 (char 0)")
  str _ := ""
  float _ := .error "float() argument must be a string or a real number, not 'list'"

/-- A header that is a list has no algorithm, and its lack of one is no `AuthError`. -/
theorem not_decidesToken_list : ¬ listLib.DecidesToken "W10.W10.W10" "secret" 0 := by
  intro h
  have hsplit : IsSplit "W10.W10.W10" "W10" "W10" "W10" := by
    unfold IsSplit
    decide +kernel
  have hverify : verifyJwt listLib "W10.W10.W10" "secret" 0 =
      .error (.foreign "'list' object has no attribute 'get'") := verifyJwt_of_split hsplit
  exact not_decidesToken_of_foreign hverify h

end Sample

end AuthLib

end Ragx
