import FogNode.Library.Runs
import FogNode.Source.EpochManager
import FogNode.Source.TokenRoutes
import Mathlib.Logic.Function.Basic

namespace FogNode.Source

open FogNode.Library

variable {P : Platform} (node : Node P)

/-- How far a thread has come in `finalize_epoch`. -/
inductive ClosePhase
  | start
  | blocked (blocked : List String)
  | collected (blocked : List String) (members : Batch) (new carried : ℕ)
  | updating (result : EpochResult) (written rest : List ProofPackage)
  | found (result : EpochResult) (written : List ProofPackage) (pkg : ProofPackage)
      (rest : List ProofPackage)
  | closed (result : EpochResult)
  | raised (e : PyError)

/-- One operation on the device store, or what lies between two of them. The ledger
and the manager are under the lock of the manager. -/
def closeStep (env : Env) (excludeDids : List String) : ClosePhase → Fog → ClosePhase × Fog
  | .start, fog => (.blocked (blockedDids fog.devices excludeDids), fog)
  | .blocked blocked, fog =>
    match collectMembers node fog blocked with
    | .error e => (.raised e, fog)
    | .ok (members, new, carried) =>
      if members.size = 0 then
        (.raised (.epochError "nothing to finalize: the batch is empty"), fog)
      else (.collected blocked members new carried, fog)
  | .collected blocked members new carried, fog =>
    match anchorEpoch node env fog blocked members new carried with
    | (.error e, fog) => (.raised e, fog)
    | (.ok result, fog) => (.updating result [] result.packages.values, fog)
  | .updating result written (pkg :: rest), fog =>
    match DeviceStore.get fog.devices pkg.did with
    | some _ => (.found result written pkg rest, fog)
    | none =>
      (.updating result (written ++ [pkg]) rest,
        { fog with epochs := { fog.epochs with
            latestPackage := fog.epochs.latestPackage.add pkg } })
  | .found result written pkg rest, fog =>
    (.updating result (written ++ [pkg]) rest,
      { fog with
        devices := DeviceStore.commit fog.devices pkg.did pkg.leaf result.epochId
        epochs := { fog.epochs with latestPackage := fog.epochs.latestPackage.add pkg } })
  | .updating result _ [], fog =>
    (.closed result,
      { fog with
        epochs :=
          { currentEpochId := result.epochId + 1
            pending := ∅
            packages := fog.epochs.packages.set result.epochId result.packages
            latestPackage := fog.epochs.latestPackage
            activeDids := result.packages.keys } })
  | .closed result, fog => (.closed result, fog)
  | .raised e, fog => (.raised e, fog)

/-- How far a thread has come in `revoke_device`. -/
inductive RevokePhase
  | start
  | known
  | marked
  | blacklisting (tokenIds : List String)
  | returned (known : Bool)
  deriving DecidableEq, Repr

def revokeStep (did : String) : RevokePhase → Fog → RevokePhase × Fog
  | .start, fog =>
    match DeviceStore.get fog.devices did with
    | none => (.returned false, fog)
    | some _ => (.known, fog)
  | .known, fog => (.marked, { fog with devices := DeviceStore.setStatus fog.devices did .revoked })
  | .marked, fog => (.blacklisting (fog.tokenState.tokensOf did), fog)
  | .blacklisting [], fog => (.returned true, fog)
  | .blacklisting (tokenId :: tokenIds), fog =>
    (.blacklisting tokenIds, { fog with tokenState := fog.tokenState.revoke tokenId })
  | .returned known, fog => (.returned known, fog)

/-- How far a thread has come in `tokens_issue`, if there is such a thread. -/
inductive IssuePhase
  | absent
  | start
  | found (did : Option String)
  | admitted (tokenId did : String) (token : List (String × Json))
  | recorded (tokenId did : String) (token : List (String × Json))
  | answered (r : Response)

def issueStep (env : Env) (sessionId : String) : IssuePhase → Fog → IssuePhase × Fog
  | .absent, fog => (.absent, fog)
  | .start, fog =>
    match SessionStore.get fog.sessions node.sessionTtl env.now sessionId with
    | (none, sessions) =>
      (.answered (.error 404 "unknown or expired session"), { fog with sessions := sessions })
    | (some session, sessions) =>
      let fog := { fog with sessions := sessions }
      if session.state ≠ .metadataAccepted then
        (.answered (.error 409 ("token requires proof of possession AND a queued leaf " ++
          s!"(session is {session.state.value}, expected {SessionState.metadataAccepted.value})")),
          fog)
      else (.found session.did, fog)
  | .found did, fog =>
    match did.bind (DeviceStore.get fog.devices) with
    | none => (.answered (.error 404 "unknown device"), fog)
    | some record =>
      if record.status = .revoked then (.answered (.error 403 "device is revoked"), fog)
      else if record.status = .registered then
        (.answered (.error 409 "device already has an inclusion proof; use /verify"), fog)
      else if roleValidForType record.deviceType record.role = false then
        (.answered (.error 403 "registered role does not match device type"), fog)
      else
        let tokenId := env.tokenHex 8
        let (token, message) := issueToken P tokenId record.did record.publicKey
          record.deviceType record.role node.signingKey env.coins fog.epochs.currentEpochId
          TOKEN_TTL_SECONDS env.later
        (.admitted tokenId record.did token, { fog with signed := fog.signed ++ [message] })
  | .admitted tokenId did token, fog =>
    (.recorded tokenId did token,
      { fog with tokenState := fog.tokenState.recordIssued tokenId did })
  | .recorded _ did token, fog =>
    (.answered (.ok token),
      { fog with devices := DeviceStore.setStatus fog.devices did .tokenized })
  | .answered r, fog => (.answered r, fog)

/-- One thread in `finalize_epoch`, at most one in `tokens_issue`, and any number of
threads in `revoke_device`, over the fog they share. -/
structure Race where
  fog : Fog
  close : ClosePhase
  issue : IssuePhase
  revokes : ℕ → RevokePhase

/-- The arguments of the calls. -/
structure Calls where
  closeEnv : Env
  excludeDids : List String
  issueEnv : Env
  sessionId : String
  revoked : ℕ → String

inductive Turn
  | close
  | issue
  | revoke (i : ℕ)

/-- The thread whose turn it is takes its next step. -/
def turn (calls : Calls) (race : Race) : Turn → Race
  | .close =>
    let (phase, fog) := closeStep node calls.closeEnv calls.excludeDids race.close race.fog
    { race with close := phase, fog := fog }
  | .issue =>
    let (phase, fog) := issueStep node calls.issueEnv calls.sessionId race.issue race.fog
    { race with issue := phase, fog := fog }
  | .revoke i =>
    let (phase, fog) := revokeStep (calls.revoked i) (race.revokes i) race.fog
    { race with revokes := Function.update race.revokes i phase, fog := fog }

/-- `finalize_epoch` against calls of `revoke_device`. -/
def Race.ofClose (fog : Fog) : Race := ⟨fog, .start, .absent, fun _ ↦ .start⟩

/-- `finalize_epoch` and `tokens_issue` against calls of `revoke_device`. -/
def Race.ofIssue (fog : Fog) : Race := ⟨fog, .start, .start, fun _ ↦ .start⟩

end FogNode.Source
