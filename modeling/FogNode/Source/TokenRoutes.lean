import FogNode.Source.RevocationRoutes
import FogNode.Source.Tokens

namespace FogNode.Source

open FogNode.Library

variable {P : Platform} (node : Node P) (env : Env)

structure TokenAccessRequest where
  token : List (String × Json)
  nonce : String
  resource : String
  operation : String
  signature : String

def tokenDeny (reason detectedBy : String) : Response :=
  .ok [("decision", .str "DENY"), ("reason", .str reason), ("detected_by", .str detectedBy)]

def tokensIssue (sessionId : String) (fog : Fog) : Response × Fog :=
  match SessionStore.get fog.sessions node.sessionTtl env.now sessionId with
  | (none, sessions) =>
    (.error 404 "unknown or expired session", { fog with sessions := sessions })
  | (some session, sessions) =>
    let fog := { fog with sessions := sessions }
    if session.state ≠ .metadataAccepted then
      (.error 409 ("token requires proof of possession AND a queued leaf " ++
        s!"(session is {session.state.value}, expected {SessionState.metadataAccepted.value})"),
        fog)
    else
      match session.did.bind (DeviceStore.get fog.devices) with
      | none => (.error 404 "unknown device", fog)
      | some record =>
        if record.status = .revoked then (.error 403 "device is revoked", fog)
        else if record.status = .registered then
          (.error 409 "device already has an inclusion proof; use /verify", fog)
        else if roleValidForType record.deviceType record.role = false then
          (.error 403 "registered role does not match device type", fog)
        else
          let tokenId := env.tokenHex 8
          let (token, message) := issueToken P tokenId record.did record.publicKey
            record.deviceType record.role node.signingKey env.coins fog.epochs.currentEpochId
            TOKEN_TTL_SECONDS env.later
          (.ok token,
            { fog with
              tokenState := fog.tokenState.recordIssued tokenId record.did
              devices := DeviceStore.setStatus fog.devices record.did .tokenized
              signed := fog.signed ++ [message] })

def tokensNonce (tokenId : String) (fog : Fog) : Response × Fog :=
  if fog.tokenState.wasIssued tokenId then
    let nonce := env.tokenHex 16
    let nonces := NonceBook.issue fog.tokenState.nonces (· + ·) NONCE_TTL_SECONDS env.now
      TOKEN_NONCE_PURPOSE tokenId nonce
    (.ok [("token_id", .str tokenId), ("nonce", .str nonce),
        ("expires_in", .int NONCE_TTL_SECONDS)],
      { fog with tokenState := { fog.tokenState with nonces := nonces } })
  else (.error 404 "unknown token_id", fog)

/-- `is_revoked(tid) or is_device_revoked(devices, did)`, where an unhashable
`did` cannot be looked up. -/
def accessRevoked (fog : Fog) (tokenId : String) (did : Json) : Except PyError Bool :=
  if fog.tokenState.isRevoked tokenId then .ok true
  else
    match did with
    | .str did => .ok (isDeviceRevoked fog.devices did)
    | .arr _ => .error (.typeError "unhashable type: 'list'")
    | .obj _ => .error (.typeError "unhashable type: 'dict'")
    | _ => .ok false

/-- The checks of `/tokens/access` after the revocation check. -/
def accessDecision (P : Platform) (body : TokenAccessRequest) : Except PyError Response := do
  let token := body.token
  if accessSignatureValid P token body.nonce body.resource body.operation body.signature then
    let deviceType ← getItem token "device_type"
    let inScope := match deviceType with
      | .str ownType => provisionalAllowed ownType body.resource body.operation
      | _ => false
    if inScope then
      match (← getItem token "role") with
      | .arr _ => .error (.typeError "unhashable type: 'list'")
      | .obj _ => .error (.typeError "unhashable type: 'dict'")
      | .str role =>
        if checkPolicy body.resource body.operation role then
          .ok (.ok [("decision", .str "ALLOW"), ("reason", .str "ok"),
            ("access", .str "provisional")])
        else .ok (tokenDeny "policy_denied" "access policy")
      | _ => .ok (tokenDeny "policy_denied" "access policy")
    else
      -- the log line of this refusal reads the token's operations
      let _ ← getItem token "allowed_operations"
      .ok (tokenDeny "provisional_scope" "provisional scope check")
  else .ok (tokenDeny "proof_of_possession_failed" "proof of possession check")

def respond : Except PyError Response → Response
  | .ok r => r
  | .error e => .serverError e

def tokensAccess (body : TokenAccessRequest) (fog : Fog) : Response × Fog :=
  if tokenSignatureValid P body.token node.signingKey = false then
    (tokenDeny "bad_token_signature" "token signature check", fog)
  else
    match getItem body.token "token_id", getItem body.token "did" with
    | .error e, _ => (.serverError e, fog)
    | _, .error e => (.serverError e, fog)
    | .ok tid, .ok did =>
      match tokenExpired P body.token env.now with
      | .error e => (.serverError e, fog)
      | .ok true => (tokenDeny "expired" "token expiry check", fog)
      | .ok false =>
        let (status, nonces) :=
          NonceBook.consume fog.tokenState.nonces env.later TOKEN_NONCE_PURPOSE tid body.nonce
        let fog := { fog with tokenState := { fog.tokenState with nonces := nonces } }
        match status, tid with
        | .ok, .str tokenId =>
          match accessRevoked fog tokenId did with
          | .error e => (.serverError e, fog)
          | .ok true => (tokenDeny "revoked" "revocation checker", fog)
          | .ok false => (respond (accessDecision P body), fog)
        -- a nonce is accepted only for a token id that is text
        | status, _ => (tokenDeny status.value "nonce validator", fog)

end FogNode.Source
