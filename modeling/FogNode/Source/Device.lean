import FogNode.Source.VerificationRoutes

namespace FogNode.Source

open FogNode.Library

variable (P : Platform)

/-- A device with its own key pair. -/
structure Device where
  privateKey : P.PrivateKey

variable {P}

namespace Device

variable (device : Device P)

def pkBytes : Bytes := publicKeyBytes P device.privateKey

def did : String := deriveDid P device.pkBytes

/-- Text that is not hexadecimal raises before anything is signed. -/
def signChallenge (coins : ℕ) (challengeHex : String) : Except PyError String :=
  match fromhex challengeHex with
  | .ok challenge =>
    .ok (toHex (sign P device.privateKey coins (popMessage challenge device.did)))
  | .error e => .error e

end Device

/-- A call of one of the three helpers with which a device signs, `sign_challenge`,
`sign_access` and `sign_verify_request`, with the fields that it reads of a token or of a
proof package. An id or a DID that is not text raises before anything is signed. -/
inductive Signing
  | challenge (challengeHex : String)
  | access (tokenId did nonce resource operation : String)
  | verifyRequest (did : String) (epochId : Json) (nonce resource operation : String)

/-- What the helper returns. -/
def Signing.signature (device : Device P) (coins : ℕ) : Signing → Except PyError String
  | .challenge challengeHex => device.signChallenge coins challengeHex
  | .access tokenId did nonce resource operation =>
    .ok (signAccess P device.privateKey coins tokenId did nonce resource operation)
  | .verifyRequest did epochId nonce resource operation =>
    .ok (signVerifyRequest device.privateKey coins did (pyStr P epochId) nonce resource operation)

end FogNode.Source
