import FogNode.Source.EpochManager
import FogNode.Source.Pop
import FogNode.Source.Psk
import FogNode.Source.Validation

namespace FogNode.Source

open FogNode.Library

variable {P : Platform} (node : Node P) (env : Env)

def unknownSession : Response := .error 404 "unknown or expired session"

def wrongStepOrder (s : Session) (expected : SessionState) : Response :=
  .error 409 s!"wrong step order: session is {s.state.value}, expected {expected.value}"

def registerStart (authorization : Option String) (fog : Fog) : Response × Fog :=
  match parseAuthorization authorization with
  | none => (.error 401 "missing or malformed PSK header", fog)
  | some (provId, psk) =>
    if pskCheck P node.pskStore provId psk then
      let (s, sessions) := SessionStore.create fog.sessions (env.tokenHex 16) provId env.now
      (.ok [("session_id", .str s.sessionId), ("expires_in", .int node.sessionTtl)],
        { fog with sessions := sessions })
    else (.error 401 "PSK authentication failed", fog)

/-- The checks of `/register/pubkey` on the key itself. -/
def validPublicKey (P : Platform) (publicKey : String) : Except PyError Bytes :=
  match fromhex publicKey with
  | .error e => .error e
  | .ok pkBytes =>
    if pkBytes.length ≠ COMPRESSED_PK_LEN then .error (.valueError "wrong length")
    else (loadPublicKey P pkBytes).map fun _ ↦ pkBytes

def registerPubkey (body : PublicKeyRequest) (fog : Fog) : Response × Fog :=
  match SessionStore.get fog.sessions node.sessionTtl env.now body.sessionId with
  | (none, sessions) => (unknownSession, { fog with sessions := sessions })
  | (some s, sessions) =>
    let fog := { fog with sessions := sessions }
    if s.state ≠ .authenticated then (wrongStepOrder s .authenticated, fog)
    else
      match validPublicKey P body.publicKey with
      | .error _ => (.error 400 "invalid public key", fog)
      | .ok pkBytes =>
        if body.did ≠ deriveDid P pkBytes then
          (.error 400 "DID does not match public key fingerprint", fog)
        else
          match DeviceStore.get fog.devices body.did with
          | some existing =>
            (.error 409 s!"DID already known (status {existing.status.value})", fog)
          | none =>
            if SessionStore.didInUse fog.sessions body.did s.sessionId then
              (.error 409 "DID already in an onboarding session", fog)
            else
              let s := { s with did := some body.did, publicKey := some body.publicKey }
              let s := issueChallenge s (env.tokenHex 32) env.later node.challengeTtl
              let s := { s with state := .keySubmitted }
              (.ok [("session_id", .str s.sessionId), ("challenge", .str (env.tokenHex 32)),
                  ("expires_in", .int node.challengeTtl)],
                { fog with sessions := SessionStore.write fog.sessions s })

def registerPop (body : PopRequest) (fog : Fog) : Response × Fog :=
  match SessionStore.get fog.sessions node.sessionTtl env.now body.sessionId with
  | (none, sessions) => (unknownSession, { fog with sessions := sessions })
  | (some s, sessions) =>
    let fog := { fog with sessions := sessions }
    if s.state ≠ .keySubmitted then (wrongStepOrder s .keySubmitted, fog)
    else
      match verifyPop P s body.signature env.later with
      | (.error e, s) =>
        (.serverError e, { fog with sessions := SessionStore.write fog.sessions s })
      | (.ok (false, reason), s) =>
        let s := { s with state := .authenticated }
        (.error 403 s!"proof of possession failed: {reason}",
          { fog with sessions := SessionStore.write fog.sessions s })
      | (.ok (true, _), s) =>
        let s := { s with state := .popVerified }
        let fog := { fog with sessions := SessionStore.write fog.sessions s }
        match s.did, s.publicKey with
        | some did, some publicKey =>
          (.ok [("session_id", .str s.sessionId), ("did", .str did),
              ("status", .str SessionState.popVerified.value)],
            { fog with
              devices := DeviceStore.upsert fog.devices (.new did publicKey .pending) })
        | _, _ => (.serverError (.validationError "DeviceRecord"), fog)

def registerMetadata (body : MetadataRequest) (fog : Fog) : Response × Fog :=
  match SessionStore.get fog.sessions node.sessionTtl env.now body.sessionId with
  | (none, sessions) => (unknownSession, { fog with sessions := sessions })
  | (some s, sessions) =>
    let fog := { fog with sessions := sessions }
    if s.state ≠ .popVerified then (wrongStepOrder s .popVerified, fog)
    else
      let errors := validateMetadata body node.zone node.allowedTypes
      if errors ≠ [] then
        (.httpError 422 (.obj [("metadata_errors", .arr (errors.map .str))]), fog)
      else
        match s.did.bind (DeviceStore.get fog.devices) with
        | none =>
          (.serverError (.attributeError "'NoneType' object has no attribute 'device_name'"), fog)
        | some record =>
          let did := record.did
          let fog := { fog with devices := DeviceStore.setMetadata fog.devices did body }
          match s.publicKey with
          | none => (.serverError (.typeError "fromhex() argument must be str, not None"), fog)
          | some publicKey =>
            match (fromhex publicKey).bind (fog.epochs.addLeaf P did) with
            | .error (.epochError e) => (.error 409 e, fog)
            | .error e => (.serverError e, fog)
            | .ok (leafHex, epochs) =>
              let s := { s with state := .metadataAccepted }
              (.ok [("did", .str did), ("leaf", .str leafHex),
                  ("epoch_id", .int epochs.currentEpochId),
                  ("batch_size", .int epochs.pending.size),
                  ("status", .str "QUEUED_FOR_BATCH")],
                { fog with
                  devices := DeviceStore.setLeaf fog.devices did leafHex
                  epochs := epochs
                  sessions := SessionStore.write fog.sessions s })

end FogNode.Source
