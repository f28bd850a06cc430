import FogNode.Library.Json
import FogNode.Library.Tower
import FogNode.Source.MerkleTree

namespace FogNode.Source

open FogNode.Library

inductive DeviceStatus
  | pending
  | tokenized
  | registered
  | revoked
  deriving DecidableEq, Repr

def DeviceStatus.value : DeviceStatus → String
  | .pending => "PENDING"
  | .tokenized => "TOKENIZED"
  | .registered => "REGISTERED"
  | .revoked => "REVOKED"

structure PublicKeyRequest where
  sessionId : String
  did : String
  publicKey : String

structure PopRequest where
  sessionId : String
  signature : String

structure MetadataRequest where
  sessionId : String
  deviceName : String
  deviceType : String
  zone : String
  vendor : String
  role : String

def sideText : Side → String
  | .L => "L"
  | .R => "R"

structure ProofStep where
  sibling : String
  side : Side
  deriving DecidableEq, Repr

def ProofStep.modelDump (step : ProofStep) : PathStep := ⟨step.sibling, sideText step.side⟩

structure ProofPackage where
  did : String
  publicKey : String
  leaf : String
  epochId : ℤ
  root : String
  proofPath : List ProofStep
  fogId : String
  fogSignature : String
  deriving DecidableEq, Repr

def ProofPackage.modelDump (pkg : ProofPackage) : List (String × Json) :=
  [("did", .str pkg.did), ("public_key", .str pkg.publicKey), ("leaf", .str pkg.leaf),
    ("epoch_id", .int pkg.epochId), ("root", .str pkg.root),
    ("proof_path", .arr (pkg.proofPath.map fun s ↦
      .obj [("sibling", .str s.sibling), ("side", .str (sideText s.side))])),
    ("fog_id", .str pkg.fogId), ("fog_signature", .str pkg.fogSignature)]

/-- A ledger block; also the `AnchorRecord` made from it. -/
structure Block where
  blockIndex : ℕ
  epochId : ℤ
  root : String
  leafCount : ℤ
  timestamp : String
  fogId : String
  prevHash : String
  signature : String
  blockHash : String
  deriving DecidableEq, Repr

structure DeviceRecord where
  did : String
  publicKey : String
  status : DeviceStatus
  deviceName : Option String
  deviceType : Option String
  zone : Option String
  vendor : Option String
  role : Option String
  leaf : Option String
  epochId : Option ℤ
  deriving DecidableEq, Repr

/-- A record with nothing but its required fields. -/
def DeviceRecord.new (did publicKey : String) (status : DeviceStatus) : DeviceRecord :=
  ⟨did, publicKey, status, none, none, none, none, none, none, none⟩

end FogNode.Source
