import FogNode.Source.Canonical

namespace FogNode.Source

open FogNode.Library

variable (P : Platform)

def publicKeyBytes (key : P.PrivateKey) : Bytes := P.publicBytes key

def loadPublicKey (pkBytes : Bytes) : Except PyError P.PublicKey :=
  match P.fromEncodedPoint pkBytes with
  | some key => .ok key
  | none => .error (.valueError "invalid compressed point")

def sign (key : P.PrivateKey) (coins : ℕ) (message : Bytes) : Bytes :=
  P.ecdsaSign key coins message

/-- True only if the signature is valid. A malformed key or signature is not. -/
def verify (pkBytes message signature : Bytes) : Bool :=
  match loadPublicKey P pkBytes with
  | .ok key => P.ecdsaVerify key message signature
  | .error _ => false

def deriveDid (pkBytes : Bytes) : String :=
  DID_PREFIX ++ String.ofList ((Hex.encode (P.sha256 pkBytes)).take 16)

theorem isDid_deriveDid (pkBytes : Bytes) : isDid (deriveDid P pkBytes) = true := by
  simp [isDid, deriveDid]

/-- The signature verifies under the key for both messages only if they are one. -/
def Binds (pkBytes signature message message' : Bytes) : Prop :=
  verify P pkBytes message signature = true → verify P pkBytes message' signature = true →
    message = message'

/-- Signatures made with the key verify under it. -/
def SignsCorrectly (key : P.PrivateKey) : Prop :=
  ∀ coins message, verify P (publicKeyBytes P key) message (sign P key coins message) = true

/-- No two of the listed byte strings share a digest. -/
def NoCollision (inputs : Set Bytes) : Prop := Set.InjOn P.sha256 inputs

end FogNode.Source
