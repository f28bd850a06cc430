import FogNode.Library.Table
import FogNode.Source.Schemas

namespace FogNode.Source

open FogNode.Library

inductive SessionState
  | authenticated
  | keySubmitted
  | popVerified
  | metadataAccepted
  deriving DecidableEq, Repr

def SessionState.value : SessionState → String
  | .authenticated => "AUTHENTICATED"
  | .keySubmitted => "KEY_SUBMITTED"
  | .popVerified => "POP_VERIFIED"
  | .metadataAccepted => "METADATA_ACCEPTED"

structure Session where
  sessionId : String
  provisioningId : String
  createdAt : ℚ
  state : SessionState
  did : Option String
  publicKey : Option String
  challenge : Option String
  challengeExpires : ℚ
  challengeUsed : Bool
  deriving DecidableEq, Repr

def Session.new (sessionId provisioningId : String) (createdAt : ℚ) : Session :=
  ⟨sessionId, provisioningId, createdAt, .authenticated, none, none, none, 0, true⟩

abbrev SessionStore := Table Session.sessionId

namespace SessionStore

variable (sessions : SessionStore)

def create (sessionId provisioningId : String) (now : ℚ) : Session × SessionStore :=
  let s := Session.new sessionId provisioningId now
  (s, sessions.add s)

/-- An expired session is deleted when it is looked up. -/
def get (ttl : ℤ) (now : ℚ) (sessionId : String) : Option Session × SessionStore :=
  match sessions.get? sessionId with
  | none => (none, sessions)
  | some s =>
    if s.createdAt + ttl < now then (none, sessions.erase sessionId) else (some s, sessions)

def didInUse (did excludeSession : String) : Bool :=
  sessions.values.any fun s ↦
    decide (s.did = some did ∧ s.sessionId ≠ excludeSession ∧ s.state ≠ .authenticated)

/-- Assignments to the attributes of a session object reach the stored one. -/
def write (s : Session) : SessionStore :=
  match sessions.get? s.sessionId with
  | none => sessions
  | some _ => sessions.add s

end SessionStore

abbrev DeviceStore := Table DeviceRecord.did

namespace DeviceStore

variable (devices : DeviceStore)

def upsert (record : DeviceRecord) : DeviceStore := devices.add record

def get (did : String) : Option DeviceRecord := devices.get? did

def exists? (did : String) : Bool := (devices.get? did).isSome

def setStatus (did : String) (status : DeviceStatus) : DeviceStore :=
  devices.modify did (fun r ↦ { r with status := status }) (fun _ ↦ rfl)

def byStatus (status : DeviceStatus) : List DeviceRecord :=
  devices.values.filter fun r ↦ decide (r.status = status)

/-- The assignments of `/register/metadata` to the record object. -/
def setMetadata (did : String) (body : MetadataRequest) : DeviceStore :=
  devices.modify did (fun r ↦
    { r with
      deviceName := some body.deviceName
      deviceType := some body.deviceType
      zone := some body.zone
      vendor := some body.vendor
      role := some body.role }) (fun _ ↦ rfl)

def setLeaf (did leaf : String) : DeviceStore :=
  devices.modify did (fun r ↦ { r with leaf := some leaf }) (fun _ ↦ rfl)

/-- The assignments of `finalize_epoch` to the record object. -/
def commit (did leaf : String) (epochId : ℤ) : DeviceStore :=
  devices.modify did (fun r ↦
    { r with status := .registered, leaf := some leaf, epochId := some epochId }) (fun _ ↦ rfl)

end DeviceStore

end FogNode.Source
