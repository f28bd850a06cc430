import FogNode.Source.CryptoUtils
import FogNode.Source.DeviceStore

namespace FogNode.Source

open FogNode.Library

variable (P : Platform)

def issueChallenge (s : Session) (challenge : String) (now : ℚ) (ttlSeconds : ℤ) : Session :=
  { s with
    challenge := some challenge
    challengeExpires := now + ttlSeconds
    challengeUsed := false }

/-- Returns whether the proof passed and why, and the session, whose challenge
is consumed by the first attempt. -/
def verifyPop (s : Session) (signatureHex : String) (now : ℚ) :
    Except PyError (Bool × String) × Session :=
  if s.challenge = none ∨ s.challengeUsed then
    (.ok (false, "no active challenge (already used or never issued)"), s)
  else
    let s := { s with challengeUsed := true }
    if s.challengeExpires < now then (.ok (false, "challenge expired"), s)
    else
      match fromhex signatureHex with
      | .error _ => (.ok (false, "signature is not valid hex"), s)
      | .ok signature =>
        match fromhex (s.challenge.getD ""), s.did, s.publicKey with
        | .error e, _, _ => (.error e, s)
        | _, none, _ =>
          (.error (.attributeError "'NoneType' object has no attribute 'encode'"), s)
        | _, _, none =>
          (.error (.typeError "fromhex() argument must be str, not None"), s)
        | .ok challenge, some did, some publicKey =>
          match fromhex publicKey with
          | .error e => (.error e, s)
          | .ok pkBytes =>
            if verify P pkBytes (popMessage challenge did) signature then
              (.ok (true, "signature valid"), s)
            else (.ok (false, "signature does not verify with the submitted public key"), s)

end FogNode.Source
