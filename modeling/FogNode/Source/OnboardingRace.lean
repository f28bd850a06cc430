import FogNode.Source.Concurrency
import FogNode.Source.RegistrationRoutes

namespace FogNode.Source

open FogNode.Library

variable {P : Platform} (node : Node P)

/-- How far the thread of a session has come in `register_pubkey` or `register_pop`. The
requests of one session come one at a time, so only its thread writes its object. -/
inductive OnboardPhase
  | idle (answer : Option Response)
  | keyReceived (env : Env) (body : PublicKeyRequest)
  | keyValid (env : Env) (body : PublicKeyRequest) (s : Session)
  | keyUnknown (env : Env) (body : PublicKeyRequest) (s : Session)
  | keyUnused (env : Env) (body : PublicKeyRequest) (s : Session)
  | keyNamed (env : Env) (body : PublicKeyRequest) (s : Session)
  | keyStored (env : Env) (body : PublicKeyRequest) (s : Session)
  | keyChallenged (env : Env) (body : PublicKeyRequest) (s : Session)
  | popReceived (env : Env) (body : PopRequest)
  | popFound (env : Env) (body : PopRequest) (s : Session)
  | popJudged (s : Session) (passed : Bool) (reason : String)
  | popVerified (s : Session)

/-- One operation on a store, or the assignments to the session object between two. -/
def onboardStep : OnboardPhase → Fog → OnboardPhase × Fog
  | .idle answer, fog => (.idle answer, fog)
  | .keyReceived env body, fog =>
    match SessionStore.get fog.sessions node.sessionTtl env.now body.sessionId with
    | (none, sessions) => (.idle (some unknownSession), { fog with sessions := sessions })
    | (some s, sessions) =>
      let fog := { fog with sessions := sessions }
      if s.state ≠ .authenticated then (.idle (some (wrongStepOrder s .authenticated)), fog)
      else
        match validPublicKey P body.publicKey with
        | .error _ => (.idle (some (.error 400 "invalid public key")), fog)
        | .ok pkBytes =>
          if body.did ≠ deriveDid P pkBytes then
            (.idle (some (.error 400 "DID does not match public key fingerprint")), fog)
          else (.keyValid env body s, fog)
  | .keyValid env body s, fog =>
    match DeviceStore.get fog.devices body.did with
    | some existing =>
      (.idle (some (.error 409 s!"DID already known (status {existing.status.value})")), fog)
    | none => (.keyUnknown env body s, fog)
  | .keyUnknown env body s, fog =>
    if SessionStore.didInUse fog.sessions body.did s.sessionId then
      (.idle (some (.error 409 "DID already in an onboarding session")), fog)
    else (.keyUnused env body s, fog)
  | .keyUnused env body s, fog =>
    let s := { s with did := some body.did }
    (.keyNamed env body s, { fog with sessions := SessionStore.write fog.sessions s })
  | .keyNamed env body s, fog =>
    let s := { s with publicKey := some body.publicKey }
    (.keyStored env body s, { fog with sessions := SessionStore.write fog.sessions s })
  | .keyStored env body s, fog =>
    let s := issueChallenge s (env.tokenHex 32) env.later node.challengeTtl
    (.keyChallenged env body s, { fog with sessions := SessionStore.write fog.sessions s })
  | .keyChallenged env _ s, fog =>
    let s := { s with state := .keySubmitted }
    (.idle (some (.ok [("session_id", .str s.sessionId), ("challenge", .str (env.tokenHex 32)),
        ("expires_in", .int node.challengeTtl)])),
      { fog with sessions := SessionStore.write fog.sessions s })
  | .popReceived env body, fog =>
    match SessionStore.get fog.sessions node.sessionTtl env.now body.sessionId with
    | (none, sessions) => (.idle (some unknownSession), { fog with sessions := sessions })
    | (some s, sessions) =>
      let fog := { fog with sessions := sessions }
      if s.state ≠ .keySubmitted then (.idle (some (wrongStepOrder s .keySubmitted)), fog)
      else (.popFound env body s, fog)
  | .popFound env body s, fog =>
    match verifyPop P s body.signature env.later with
    | (.error e, s) =>
      (.idle (some (.serverError e)), { fog with sessions := SessionStore.write fog.sessions s })
    | (.ok (passed, reason), s) =>
      (.popJudged s passed reason, { fog with sessions := SessionStore.write fog.sessions s })
  | .popJudged s false reason, fog =>
    let s := { s with state := .authenticated }
    (.idle (some (.error 403 s!"proof of possession failed: {reason}")),
      { fog with sessions := SessionStore.write fog.sessions s })
  | .popJudged s true _, fog =>
    let s := { s with state := .popVerified }
    (.popVerified s, { fog with sessions := SessionStore.write fog.sessions s })
  | .popVerified s, fog =>
    match s.did, s.publicKey with
    | some did, some publicKey =>
      (.idle (some (.ok [("session_id", .str s.sessionId), ("did", .str did),
          ("status", .str SessionState.popVerified.value)])),
        { fog with
          devices := DeviceStore.upsert fog.devices (.new did publicKey .pending) })
    | _, _ => (.idle (some (.serverError (.validationError "DeviceRecord"))), fog)

/-- One thread for each session and any number of threads in `revoke_device`, over the
fog they share. -/
structure OnboardingRace where
  fog : Fog
  threads : String → OnboardPhase
  revokes : ℕ → RevokePhase

/-- A request for a session, or the next step of a thread. -/
inductive OnboardingTurn
  | pubkey (env : Env) (body : PublicKeyRequest)
  | pop (env : Env) (body : PopRequest)
  | next (sessionId : String)
  | revoke (i : ℕ)

/-- The request starts the thread of its session, which must be idle. -/
def OnboardingRace.begin (race : OnboardingRace) (sessionId : String) (phase : OnboardPhase) :
    OnboardingRace :=
  match race.threads sessionId with
  | .idle _ => { race with threads := Function.update race.threads sessionId phase }
  | _ => race

/-- Call `i` of `revoke_device` is for the DID `revoked i`. -/
def onboardingTurn (revoked : ℕ → String) (race : OnboardingRace) :
    OnboardingTurn → OnboardingRace
  | .pubkey env body => race.begin body.sessionId (.keyReceived env body)
  | .pop env body => race.begin body.sessionId (.popReceived env body)
  | .next sessionId =>
    let (phase, fog) := onboardStep node (race.threads sessionId) race.fog
    { race with threads := Function.update race.threads sessionId phase, fog := fog }
  | .revoke i =>
    let (phase, fog) := revokeStep (revoked i) (race.revokes i) race.fog
    { race with revokes := Function.update race.revokes i phase, fog := fog }

/-- No handler is under way. -/
def OnboardingRace.ofFog (fog : Fog) : OnboardingRace :=
  ⟨fog, fun _ ↦ .idle none, fun _ ↦ .start⟩

end FogNode.Source
