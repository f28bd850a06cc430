import FogNode.Library.Threads
import FogNode.Source.Main

namespace FogNode.Source

open FogNode.Library

/-- How far a thread has come in `tokens_access` since its nonce was accepted. -/
inductive AccessPhase
  | accepted (tokenId : String) (did : Json)
  | unlisted (did : Json)
  | known (did : String)

/-- How far a thread has come in `verify_and_authorize` since its nonce was accepted. -/
inductive VerifyPhase
  | accepted
  | proved (did : String)
  | known (did : String)
  | live (did : String)
  | registered (did : String)
  | typed (did : String) (deviceType : Option String)
  | fitting (did : String)
  | permitted (did : String)

/-- A call of one of the two handlers. -/
inductive AccessCall
  | access (body : TokenAccessRequest)
  | verify (body : VerifyRequest)

def AccessCall.request : AccessCall → Request
  | .access body => .tokensAccess body
  | .verify body => .verify body

def AccessCall.nonce : AccessCall → String
  | .access body => body.nonce
  | .verify body => body.nonce

/-- The DID that the token or the package of the call is about. -/
def AccessCall.did : AccessCall → Option String
  | .access body => (Json.field "did" body.token).bind strField
  | .verify body => (Json.field "did" body.proofPackage).bind strField

inductive CallPhase
  | start (call : AccessCall)
  | access (body : TokenAccessRequest) (phase : AccessPhase)
  | verify (body : VerifyRequest) (phase : VerifyPhase)
  | answered (r : Response)

variable {P : Platform} (node : Node P) (env : Env)

/-- `tokens_access` as far as `nonces.consume`. -/
def startAccess (body : TokenAccessRequest) (fog : Fog) : CallPhase × Fog :=
  if tokenSignatureValid P body.token node.signingKey = false then
    (.answered (tokenDeny "bad_token_signature" "token signature check"), fog)
  else
    match getItem body.token "token_id", getItem body.token "did" with
    | .error e, _ => (.answered (.serverError e), fog)
    | _, .error e => (.answered (.serverError e), fog)
    | .ok tid, .ok did =>
      match tokenExpired P body.token env.now with
      | .error e => (.answered (.serverError e), fog)
      | .ok true => (.answered (tokenDeny "expired" "token expiry check"), fog)
      | .ok false =>
        let (status, nonces) :=
          NonceBook.consume fog.tokenState.nonces env.later TOKEN_NONCE_PURPOSE tid body.nonce
        let fog := { fog with tokenState := { fog.tokenState with nonces := nonces } }
        match status, tid with
        | .ok, .str tokenId => (.access body (.accepted tokenId did), fog)
        | status, _ => (.answered (tokenDeny status.value "nonce validator"), fog)

/-- One read of the revoked tokens or of the device store. What follows the last one reads
nothing that is shared. -/
def accessStep (P : Platform) (body : TokenAccessRequest) : AccessPhase → Fog → CallPhase
  | .accepted tokenId did, fog =>
    if fog.tokenState.isRevoked tokenId then .answered (tokenDeny "revoked" "revocation checker")
    else .access body (.unlisted did)
  | .unlisted did, fog =>
    match did with
    | .str did =>
      match DeviceStore.get fog.devices did with
      | none => .answered (respond (accessDecision P body))
      | some _ => .access body (.known did)
    | .arr _ => .answered (.serverError (.typeError "unhashable type: 'list'"))
    | .obj _ => .answered (.serverError (.typeError "unhashable type: 'dict'"))
    | _ => .answered (respond (accessDecision P body))
  | .known did, fog =>
    if isDeviceRevoked fog.devices did then .answered (tokenDeny "revoked" "revocation checker")
    else .answered (respond (accessDecision P body))

/-- `verify_and_authorize` as far as `nonces.consume`. -/
def startVerify (P : Platform) (env : Env) (body : VerifyRequest) (fog : Fog) :
    CallPhase × Fog :=
  let did := (Json.field "did" body.proofPackage).getD .null
  let epochId := (Json.field "epoch_id" body.proofPackage).getD .null
  let (status, nonces) := NonceBook.consume fog.tokenState.nonces env.now VERIFY_NONCE_PURPOSE
    (.str (pyStr P did)) body.nonce
  let fog := { fog with tokenState := { fog.tokenState with nonces := nonces } }
  if status ≠ .ok then (.answered (verifyDeny status.value "nonce validator" false epochId), fog)
  else (.verify body .accepted, fog)

/-- The root is read, then package and signature are checked. -/
def proveStep (body : VerifyRequest) (fog : Fog) : CallPhase :=
  let epochId := (Json.field "epoch_id" body.proofPackage).getD .null
  match ProofPackage.parse P body.proofPackage with
  | none => .answered (verifyDeny "malformed_proof_package" "proof package parser" false epochId)
  | some parsed =>
    match verifyProofPackage P parsed (trustedRoot fog.ledger epochId)
        (publicKeyBytes P node.signingKey) with
    | .error _ =>
      .answered (verifyDeny "malformed_proof_package" "proof package parser" false epochId)
    | .ok result =>
      if result.ok = false then
        .answered (verifyDeny result.reason result.detectedBy false epochId)
      else if verify P (hexOrEmpty parsed.publicKey)
          (verifyMessage parsed.did (pyStr P epochId) body.nonce body.resource body.operation)
          (hexOrEmpty body.signature) = false then
        .answered (verifyDeny "proof_of_possession_failed" "proof of possession check" true
          epochId)
      else .verify body (.proved parsed.did)

/-- One read of the record that `devices.get` returned. It is still the one on record. -/
def withRecord (body : VerifyRequest) (did : String) (fog : Fog)
    (read : DeviceRecord → CallPhase) : CallPhase :=
  match DeviceStore.get fog.devices did with
  | none =>
    .answered (verifyDeny "unknown_device" "device status check" true
      ((Json.field "epoch_id" body.proofPackage).getD .null))
  | some record => read record

def verifyStep (body : VerifyRequest) (phase : VerifyPhase) (fog : Fog) : CallPhase :=
  let epochId := (Json.field "epoch_id" body.proofPackage).getD .null
  match phase with
  | .accepted => proveStep node body fog
  | .proved did => withRecord body did fog fun _ ↦ .verify body (.known did)
  | .known did =>
    withRecord body did fog fun record ↦
      if record.status = .revoked then
        .answered (verifyDeny "device_revoked" "revocation checker" true epochId)
      else .verify body (.live did)
  | .live did =>
    withRecord body did fog fun record ↦
      if record.status ≠ .registered then
        .answered (verifyDeny "not_registered" "device status check" true epochId)
      else .verify body (.registered did)
  | .registered did =>
    withRecord body did fog fun record ↦ .verify body (.typed did record.deviceType)
  | .typed did deviceType =>
    withRecord body did fog fun record ↦
      if roleValidForType deviceType record.role = false then
        .answered (verifyDeny "role_type_mismatch" "access policy" true epochId)
      else .verify body (.fitting did)
  | .fitting did =>
    withRecord body did fog fun record ↦
      if checkPolicy body.resource body.operation (record.role.getD "") = false then
        .answered (verifyDeny "policy_denied" "access policy" true epochId)
      else .verify body (.permitted did)
  | .permitted did =>
    withRecord body did fog fun record ↦
      .answered (.ok [("decision", .str "ALLOW"), ("reason", .str "ok"),
        ("identity_verified", .bool true), ("epoch_id", epochId),
        ("role", textOrNull record.role)])

def callStep : CallPhase → Fog → CallPhase × Fog
  | .start (.access body), fog => startAccess node env body fog
  | .start (.verify body), fog => startVerify P env body fog
  | .access body phase, fog => (accessStep P body phase fog, fog)
  | .verify body phase, fog => (verifyStep node body phase fog, fog)
  | .answered r, fog => (.answered r, fog)

/-- A thread's call and the surroundings in which it runs. -/
structure CallEvent where
  env : Env
  call : AccessCall

/-- A thread takes its next step, or a request is handled at once. -/
abbrev raceStep (calls : ℕ → CallEvent) :
    Pool Fog CallPhase → PoolMove Event → Pool Fog CallPhase :=
  Pool.move (fun i ↦ callStep node (calls i).env) (step node)

abbrev raceFrom (calls : ℕ → CallEvent) (fog : Fog) (moves : List (PoolMove Event)) :
    Pool Fog CallPhase :=
  run (raceStep node calls) ⟨fog, fun i ↦ .start (calls i).call⟩ moves

end FogNode.Source
