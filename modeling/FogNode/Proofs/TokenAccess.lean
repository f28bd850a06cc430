import FogNode.Proofs.Nonces
import FogNode.Proofs.TokenSignature

namespace FogNode.Proofs

open FogNode.Library FogNode.Source

variable {P : Platform} {node : Node P} {env : Env} {fog : Fog} {body : TokenAccessRequest}
  {events : List Event}

theorem TokenOf.of_requests {fields : List (String × Json)}
    (h : TokenOf node (events.map .request) fields) :
    ∃ earlier e later did record token, events = earlier ++ e :: later ∧
      Issues node (after node Fog.init earlier) e did record token ∧
      Json.SameDict (signedFields token) fields := by
  obtain ⟨earlier, e, later, did, record, token, hsplit, hissues, hsame⟩ := h
  obtain ⟨l₁, l₂, rfl, rfl, htail⟩ := List.map_eq_append_iff.mp hsplit
  obtain ⟨e', l₃, rfl, he, rfl⟩ := List.map_eq_cons_iff.mp htail
  cases he
  rw [afterActions_requests] at hissues
  exact ⟨l₁, e, l₃, did, record, token, rfl, hissues, hsame⟩

theorem Issues.current {earlier : List Event} {e : Event} {did : String}
    {record : DeviceRecord} {token : List (String × Json)}
    (h : Issues node (after node Fog.init earlier) e did record token) (later : List Event) :
    ∃ current, (after node Fog.init (earlier ++ e :: later)).devices.get? did = some current ∧
      current.publicKey = record.publicKey ∧ current.deviceType = record.deviceType ∧
      current.role = record.role := by
  have hinv : Inv node (after node Fog.init earlier) := inv_after earlier
  have hkeeps := keeps_after hinv (e :: later)
  obtain ⟨current, hget, hadv⟩ := hkeeps.devices did record h.get
  obtain ⟨-, htype, -, -, hrole⟩ := hadv.profile_eq h.queued
  refine ⟨current, ?_, hadv.key_eq, htype, hrole⟩
  rw [after, run_append]
  exact hget

theorem textOrNull_eq_str {o : Option String} {s : String} (h : textOrNull o = .str s) :
    o = some s := by
  cases o with
  | none => cases h
  | some t =>
    cases h
    rfl

theorem field_device_type (tokenId did publicKeyHex : String) (deviceType role : Option String)
    (epochId ttl : ℤ) (now : ℚ) :
    Json.field "device_type"
        (tokenFields tokenId did publicKeyHex deviceType role epochId ttl now) =
      some (textOrNull deviceType) := by
  simp [tokenFields, Json.field]

theorem field_role (tokenId did publicKeyHex : String) (deviceType role : Option String)
    (epochId ttl : ℤ) (now : ℚ) :
    Json.field "role" (tokenFields tokenId did publicKeyHex deviceType role epochId ttl now) =
      some (textOrNull role) := by
  simp [tokenFields, Json.field]

theorem fields_of_same {e : Event} {did : String} {record : DeviceRecord}
    {issued token : List (String × Json)} (h : Issues node fog e did record issued)
    (hsame : Json.SameDict (signedFields issued) (signedFields token)) :
    Json.field "token_id" token = some (.str (e.env.tokenHex 8)) ∧
      Json.field "did" token = some (.str did) ∧
      Json.field "public_key" token = some (.str record.publicKey) ∧
      Json.field "expires_at" token = some (.float (e.env.later + TOKEN_TTL_SECONDS)) ∧
      (∀ s, Json.field "device_type" token = some (.str s) → record.deviceType = some s) ∧
      ∀ s, Json.field "role" token = some (.str s) → record.role = some s := by
  have hfield : ∀ k, k ≠ "signature" → Json.field k (signedFields token) = Json.field k token :=
    fun k hk ↦ by rw [signedFields, Json.field_without, if_neg hk]
  rw [h.token_eq, signedFields_token] at hsame
  refine ⟨?_, ?_, ?_, ?_, fun s hs ↦ ?_, fun s hs ↦ ?_⟩
  · rw [← hfield _ (by decide)]
    exact hsame.symm.field_str (by simp [tokenFields, Json.field])
  · rw [← hfield _ (by decide)]
    exact hsame.symm.field_str (by simp [tokenFields, Json.field])
  · rw [← hfield _ (by decide)]
    exact hsame.symm.field_str (by simp [tokenFields, Json.field])
  · rw [← hfield _ (by decide)]
    exact hsame.symm.field_float (by simp [tokenFields, Json.field])
  · rw [← hfield _ (by decide)] at hs
    have ht := hsame.field_str hs
    rw [field_device_type] at ht
    exact textOrNull_eq_str (Option.some.inj ht)
  · rw [← hfield _ (by decide)] at hs
    have ht := hsame.field_str hs
    rw [field_role] at ht
    exact textOrNull_eq_str (Option.some.inj ht)

theorem access_possession {publicKey tokenId did nonce resource operation signature : String}
    {token : List (String × Json)} (hkey : Json.field "public_key" token = some (.str publicKey))
    (hid : Json.field "token_id" token = some (.str tokenId))
    (hdid : Json.field "did" token = some (.str did))
    (h : accessSignatureValid P token nonce resource operation signature = true) :
    ∃ pk sig, fromhex publicKey = .ok pk ∧ fromhex signature = .ok sig ∧
      verify P pk (accessMessage tokenId did nonce resource operation) sig = true := by
  unfold accessSignatureValid at h
  simp only [hkey, hid, hdid] at h
  cases hpk : fromhex publicKey with
  | error e => simp [hpk] at h
  | ok pk =>
  cases hsig : fromhex signature with
  | error e => simp [hpk, hsig] at h
  | ok sig =>
  simp only [hpk, hsig] at h
  exact ⟨pk, sig, rfl, rfl, h⟩

theorem access_live {tokenId did : String} (h : accessRevoked fog tokenId (.str did) = .ok false) :
    tokenId ∉ fog.tokenState.revokedTokenIds ∧
      ∀ record, fog.devices.get? did = some record → record.status ≠ .revoked := by
  unfold accessRevoked at h
  split_ifs at h with hrevoked
  · cases h
  · refine ⟨by simpa [TokenState.isRevoked] using hrevoked, fun record hrec hs ↦ ?_⟩
    simp [isDeviceRevoked, DeviceStore.get, hrec, hs] at h

theorem access_nonces {tokenId did ownType role : String}
    (h : Admitted node env fog body tokenId (.str did) ownType role) :
    (tokensAccess node env body fog).2.tokenState.nonces =
      (NonceBook.consume fog.tokenState.nonces env.later TOKEN_NONCE_PURPOSE (.str tokenId)
        body.nonce).2 := by
  unfold tokensAccess
  simp only [h.signature, getItem_ok.mpr h.token_id, getItem_ok.mpr h.did_eq, h.unexpired,
    h.nonce, Bool.true_eq_false, if_false]
  split <;> rfl

theorem in_time_of_unexpired {token : List (String × Json)} {now deadline : ℚ}
    (hfield : Json.field "expires_at" token = some (.float deadline))
    (h : tokenExpired P token now = .ok false) : now ≤ deadline := by
  have hlt : ¬ deadline < now := by
    simpa [tokenExpired, hfield, pyFloat, PyFloat.exceededBy] using h
  exact Rat.not_lt.mp hlt

/-- What is true of a request to `/tokens/access` after the listed ones when it is
allowed. -/
structure Granted (node : Node P) (events : List Event) (e : Event) (body : TokenAccessRequest)
    (tokenId did deviceType role : String) (record : DeviceRecord) (pk : Bytes) : Prop where
  issued : ∃ earlier ask later issuedTo token, events = earlier ++ ask :: later ∧
    Issues node (after node Fog.init earlier) ask did issuedTo token ∧
    Json.SameDict (signedFields token) (signedFields body.token) ∧
    e.env.now ≤ ask.env.later + TOKEN_TTL_SECONDS
  token_id_eq : Json.field "token_id" body.token = some (.str tokenId)
  did_eq : Json.field "did" body.token = some (.str did)
  type_eq : Json.field "device_type" body.token = some (.str deviceType)
  role_eq : Json.field "role" body.token = some (.str role)
  key_eq : Json.field "public_key" body.token = some (.str record.publicKey)
  token_live : tokenId ∉ (after node Fog.init events).tokenState.revokedTokenIds
  get : (after node Fog.init events).devices.get? did = some record
  live : record.status ≠ .revoked
  record_type : record.deviceType = some deviceType
  record_role : record.role = some role
  may_hold : MayHold deviceType role
  nonce : Fresh node events (.tokensNonce tokenId) body.nonce e.env.later
  taken : Takes node (after node Fog.init events) e body.nonce
  key : fromhex record.publicKey = .ok pk
  signature : ∃ sig, fromhex body.signature = .ok sig ∧
    verify P pk (accessMessage tokenId did body.nonce body.resource body.operation) sig = true
  exact : ∀ tokenId' did' nonce' resource' operation',
    accessMessage tokenId did body.nonce body.resource body.operation =
      accessMessage tokenId' did' nonce' resource' operation' →
    tokenId = tokenId' ∧ did = did' ∧ body.nonce = nonce' ∧ body.resource = resource' ∧
      body.operation = operation'
  own : body.resource = deviceType
  basic : body.operation = "read" ∨ body.operation = "write"
  may_perform : MayPerform role body.operation body.resource

/-- A token that the fog signed and that has an id was obtained in the run. -/
theorem issued_of_signed {token : List (String × Json)} {tokenId : String}
    (hsigned : canonicalJson P (signedFields token) ∈ (after node Fog.init events).signed)
    (hid : Json.field "token_id" token = some (.str tokenId)) :
    TokenOf node (events.map .request) (signedFields token) := by
  rw [← afterActions_requests] at hsigned
  refine (signed_or_token hsigned).resolve_right fun helse ↦ ?_
  have hnone := helse.absent.1
  rw [signedFields, Json.field_without, if_neg (by decide), hid] at hnone
  cases hnone

theorem scope_ok {ownType resource operation : String}
    (h : provisionalAllowed ownType resource operation = true) :
    resource = ownType ∧ (operation = "read" ∨ operation = "write") := by
  simpa [provisionalAllowed, PROVISIONAL_OPERATIONS] using h

theorem Admitted.granted {e : Event} {tokenId deviceType role : String} {didJson : Json}
    (ha : Admitted node e.env (after node Fog.init events) body tokenId didJson deviceType role)
    (hreq : e.request = .tokensAccess body) (hdistinct : (issuedNonces node events).Nodup)
    (hsigned : canonicalJson P (signedFields body.token) ∈ (after node Fog.init events).signed) :
    ∃ did record pk, Granted node events e body tokenId did deviceType role record pk := by
  obtain ⟨env, request⟩ := e
  dsimp only at hreq ha
  subst hreq
  have hinv : Inv node (after node Fog.init events) := inv_after events
  obtain ⟨earlier, ask, later, did, issuedTo, token, hsplit, hissues, hsame⟩ :=
    (issued_of_signed hsigned ha.token_id).of_requests
  obtain ⟨hid, hdid, hkey, hexpires, htype, hrole⟩ := fields_of_same hissues hsame
  obtain rfl : didJson = .str did := Option.some.inj (ha.did_eq.symm.trans hdid)
  obtain rfl : tokenId = ask.env.tokenHex 8 :=
    Json.str.inj (Option.some.inj (ha.token_id.symm.trans hid))
  obtain ⟨record, hget, hkeyEq, htypeEq, hroleEq⟩ := hsplit ▸ hissues.current later
  have hrecordType : record.deviceType = some deviceType := htypeEq.trans (htype _ ha.type_eq)
  have hrecordRole : record.role = some role := hroleEq.trans (hrole _ ha.role_eq)
  obtain ⟨_, _, ht, hr, hhold⟩ := mayHold_of_valid hissues.role_valid
  rw [htype _ ha.type_eq] at ht
  rw [hrole _ ha.role_eq] at hr
  cases ht
  cases hr
  rw [← hkeyEq] at hkey
  obtain ⟨pk, sig, hpk, hsig, hverify⟩ := access_possession hkey hid hdid ha.possession
  obtain ⟨hunrevoked, hlive⟩ := access_live ha.live
  obtain ⟨text, entry, htext, haccepts, -⟩ := consume_ok ha.nonce
  obtain rfl : text = ask.env.tokenHex 8 := (Json.str.inj htext).symm
  have hpolicy := mayPerform_of_policy ha.policy
  obtain ⟨hresource, hoperation⟩ := plain_of_policy hpolicy
  obtain ⟨hown, hbasic⟩ := scope_ok ha.scope
  refine ⟨did, record, pk,
    ⟨earlier, ask, later, issuedTo, token, hsplit, hissues, hsame,
      in_time_of_unexpired hexpires ha.unexpired⟩,
    hid, hdid, ha.type_eq, ha.role_eq, hkey, hunrevoked, hget, hlive record hget, hrecordType,
    hrecordRole, hhold, haccepts.fresh hdistinct fun fog ↦ asks_token fog,
    takes_of_consume ha.nonce (access_nonces ha), hpk, ⟨sig, hsig, hverify⟩,
    fun _ _ _ _ _ ↦ ?_, hown, hbasic, hpolicy⟩
  exact accessMessage_determines (plain_toHex _) (hinv.plain_did hget)
    (nonce_plain haccepts.get) hresource hoperation

/-- `/tokens/access` answers ALLOW only to the live device for which the token was issued,
for one fresh request that the device itself signed, within the scope of the token. -/
theorem access_allows_only (node : Node P) (events : List Event) (e : Event)
    {body : TokenAccessRequest} (hreq : e.request = .tokensAccess body)
    (hdistinct : (issuedNonces node events).Nodup)
    (hgenuine : Genuine node (after node Fog.init events) body.token)
    (hallow : (answer node (after node Fog.init events) e).Allows) :
    ∃ tokenId did deviceType role record pk,
      Granted node events e body tokenId did deviceType role record pk := by
  rw [answer_access hreq] at hallow
  obtain ⟨tokenId, didJson, deviceType, role, ha⟩ := access_allows hallow
  obtain ⟨did, record, pk, hgranted⟩ := ha.granted hreq hdistinct (hgenuine.signed ha.signature)
  exact ⟨tokenId, did, deviceType, role, record, pk, hgranted⟩

/-- A device obtains a token and asks for a nonce. -/
def tokenRun : List Event :=
  registration (plainKey 7) 0 7 ++
    [plainEvent 1 9 (.tokensIssue (toHex (List.replicate 16 7))),
      plainEvent 2 5 (.tokensNonce (toHex (List.replicate 8 9)))]

/-- The request with which the device reads its own sensor. -/
def ownRequest : TokenAccessRequest where
  token := (issueToken plainPlatform (toHex (List.replicate 8 9)) (plainDid 7)
    (toHex (plainPlatform.publicBytes (plainKey 7))) (some "temperature_sensor") (some "sensor")
    plainNode.signingKey 0 1 TOKEN_TTL_SECONDS 1).1
  nonce := toHex (List.replicate 16 5)
  resource := "temperature_sensor"
  operation := "read"
  signature := signAccess plainPlatform (plainKey 7) 0 (toHex (List.replicate 8 9)) (plainDid 7)
    (toHex (List.replicate 16 5)) "temperature_sensor" "read"

/-- What the device signs with `sign_access` passes the check of its signature. -/
theorem signAccess_valid {key : P.PrivateKey} (hkey : SignsCorrectly P key) (coins : ℕ)
    {token : List (String × Json)} {tokenId did : String}
    (hpublic : Json.field "public_key" token = some (.str (toHex (publicKeyBytes P key))))
    (hid : Json.field "token_id" token = some (.str tokenId))
    (hdid : Json.field "did" token = some (.str did)) (nonce resource operation : String) :
    accessSignatureValid P token nonce resource operation
      (signAccess P key coins tokenId did nonce resource operation) = true := by
  unfold accessSignatureValid signAccess
  simp only [hpublic, hid, hdid, fromhex_toHex]
  exact hkey coins _

theorem ownRequest_signed : canonicalJson plainPlatform (signedFields ownRequest.token) ∈
    (after plainNode Fog.init tokenRun).signed := by
  have hfields : signedFields ownRequest.token = firstTokenFields :=
    signedFields_token _ _ _ _ _ _ _ _ _ _
  rw [hfields, tokenRun, after, run_append, run_cons, run_cons, run_nil, ← after, ← queuedFog]
  exact signed_keeps plainNode _ _ firstToken_signed

theorem tokenRun_ready :
    (issuedNonces plainNode tokenRun).Nodup ∧
      (NonceBook.consume (after plainNode Fog.init tokenRun).tokenState.nonces 3
        TOKEN_NONCE_PURPOSE (.str (toHex (List.replicate 8 9)))
        (toHex (List.replicate 16 5))).1 = .ok ∧
      (after plainNode Fog.init tokenRun).tokenState.isRevoked (toHex (List.replicate 8 9)) =
        false ∧
      isDeviceRevoked (after plainNode Fog.init tokenRun).devices (plainDid 7) = false := by
  decide +kernel

theorem ownRequest_admitted : Admitted plainNode (plainEnv 3 0 none)
    (after plainNode Fog.init tokenRun) ownRequest (toHex (List.replicate 8 9))
    (.str (plainDid 7)) "temperature_sensor" "sensor" := by
  obtain ⟨-, hnonce, htoken, hdevice⟩ := tokenRun_ready
  constructor
  case signature => exact issueToken_valid (plain_signsCorrectly (plainKey 1)) ..
  case token_id => rfl
  case did_eq => rfl
  case unexpired =>
    have hfield : Json.field "expires_at" ownRequest.token =
        some (.float (1 + TOKEN_TTL_SECONDS)) := rfl
    have hlate : ¬ (1 + (TOKEN_TTL_SECONDS : ℚ) < (plainEnv 3 0 none).now) := by decide +kernel
    simp only [tokenExpired, hfield, Option.getD_some, pyFloat, PyFloat.exceededBy, hlate,
      decide_false]
  case nonce => exact hnonce
  case live =>
    simp only [accessRevoked, htoken, hdevice, Bool.false_eq_true, if_false]
  case possession =>
    exact signAccess_valid (plain_signsCorrectly (plainKey 7)) 0 rfl rfl rfl _ _ _
  case type_eq => rfl
  case scope => decide
  case role_eq => rfl
  case policy => decide

theorem ownRequest_allowed : (answer plainNode (after plainNode Fog.init tokenRun)
    (plainEvent 3 0 (.tokensAccess ownRequest))).Allows := by
  rw [answer_access rfl]
  exact ownRequest_admitted.allows

theorem access_allows_only_own :
    ∃ tokenId did deviceType role record pk, Granted plainNode tokenRun
      (plainEvent 3 0 (.tokensAccess ownRequest)) ownRequest tokenId did deviceType role record
      pk := by
  exact access_allows_only plainNode tokenRun (plainEvent 3 0 (.tokensAccess ownRequest)) rfl
    tokenRun_ready.1 (fun _ _ _ _ _ ↦ ownRequest_signed) ownRequest_allowed

end FogNode.Proofs
