import FogNode.Source.RevocationRoutes
import FogNode.Source.Tokens

namespace FogNode.Source

open FogNode.Library

def VERIFY_LABEL : Bytes := utf8 "IIOT_VERIFY_ACCESS_V1"
def VERIFY_NONCE_PURPOSE : String := "verify_access"

variable {P : Platform} (node : Node P) (env : Env)

/-- `epoch` is the text of the epoch id. -/
def verifyMessage (did epoch nonce resource operation : String) : Bytes :=
  join [VERIFY_LABEL, utf8 did, utf8 epoch, utf8 nonce, utf8 resource, utf8 operation]

/-- Device side helper. -/
def signVerifyRequest (key : P.PrivateKey) (coins : ℕ)
    (did epoch nonce resource operation : String) : String :=
  toHex (sign P key coins (verifyMessage did epoch nonce resource operation))

structure VerifyRequest where
  proofPackage : List (String × Json)
  resource : String
  operation : String
  nonce : String
  signature : String

def verifyDeny (reason detectedBy : String) (identityVerified : Bool) (epochId : Json) :
    Response :=
  .ok [("decision", .str "DENY"), ("reason", .str reason), ("detected_by", .str detectedBy),
    ("identity_verified", .bool identityVerified), ("epoch_id", epochId)]

def verifyNonce (did : String) (fog : Fog) : Response × Fog :=
  if DeviceStore.exists? fog.devices did then
    let nonce := env.tokenHex 16
    let nonces := NonceBook.issue fog.tokenState.nonces (· + ·) NONCE_TTL_SECONDS env.now
      VERIFY_NONCE_PURPOSE did nonce
    (.ok [("did", .str did), ("nonce", .str nonce), ("expires_in", .int NONCE_TTL_SECONDS)],
      { fog with tokenState := { fog.tokenState with nonces := nonces } })
  else (.error 404 "unknown DID", fog)

/-- The trusted root is looked up only for an epoch id that is an integer, of
which a boolean is one. -/
def trustedRoot (ledger : Ledger) : Json → Option String
  | .int n => ledger.getRoot n
  | .bool b => ledger.getRoot (if b then 1 else 0)
  | _ => none

/-- `bytes.fromhex(text)` where text that is not hexadecimal counts as empty. -/
def hexOrEmpty (text : String) : Bytes :=
  match fromhex text with
  | .ok bytes => bytes
  | .error _ => []

/-- Steps 4 to 6 of `/verify`: current status, role sanity, access policy. -/
def authorize (devices : DeviceStore) (did : String) (epochId : Json) (body : VerifyRequest) :
    Response :=
  match DeviceStore.get devices did with
  | none => verifyDeny "unknown_device" "device status check" true epochId
  | some record =>
    if record.status = .revoked then
      verifyDeny "device_revoked" "revocation checker" true epochId
    else if record.status ≠ .registered then
      verifyDeny "not_registered" "device status check" true epochId
    else if roleValidForType record.deviceType record.role = false then
      verifyDeny "role_type_mismatch" "access policy" true epochId
    else if checkPolicy body.resource body.operation (record.role.getD "") = false then
      verifyDeny "policy_denied" "access policy" true epochId
    else
      .ok [("decision", .str "ALLOW"), ("reason", .str "ok"), ("identity_verified", .bool true),
        ("epoch_id", epochId), ("role", textOrNull record.role)]

def verifyAndAuthorize (body : VerifyRequest) (fog : Fog) : Response × Fog :=
  let pkg := body.proofPackage
  let did := (Json.field "did" pkg).getD .null
  let epochId := (Json.field "epoch_id" pkg).getD .null
  let (status, nonces) := NonceBook.consume fog.tokenState.nonces env.now VERIFY_NONCE_PURPOSE
    (.str (pyStr P did)) body.nonce
  let fog := { fog with tokenState := { fog.tokenState with nonces := nonces } }
  if status ≠ .ok then (verifyDeny status.value "nonce validator" false epochId, fog)
  else
    match ProofPackage.parse P pkg with
    | none => (verifyDeny "malformed_proof_package" "proof package parser" false epochId, fog)
    | some parsed =>
      match verifyProofPackage P parsed (trustedRoot fog.ledger epochId)
          (publicKeyBytes P node.signingKey) with
      | .error _ =>
        (verifyDeny "malformed_proof_package" "proof package parser" false epochId, fog)
      | .ok result =>
        if result.ok = false then (verifyDeny result.reason result.detectedBy false epochId, fog)
        else if verify P (hexOrEmpty parsed.publicKey)
            (verifyMessage parsed.did (pyStr P epochId) body.nonce body.resource body.operation)
            (hexOrEmpty body.signature) = false then
          (verifyDeny "proof_of_possession_failed" "proof of possession check" true epochId, fog)
        else (authorize fog.devices parsed.did epochId body, fog)

end FogNode.Source
