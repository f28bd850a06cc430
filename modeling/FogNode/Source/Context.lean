import FogNode.Source.DeviceStore
import FogNode.Source.Ledger
import FogNode.Source.ProofPackage
import FogNode.Source.TokenStore

namespace FogNode.Source

open FogNode.Library

structure PendingEntry where
  did : String
  publicKey : String
  leaf : Bytes
  deriving DecidableEq, Repr

abbrev Batch := Table PendingEntry.did

abbrev PackageSet := Table ProofPackage.did

structure EpochManager where
  currentEpochId : ℤ
  pending : Batch
  packages : Dict ℤ PackageSet
  latestPackage : PackageSet
  activeDids : List String

/-- A manager over a ledger: it goes on after the last anchored epoch. -/
def EpochManager.init (ledger : Ledger) : EpochManager :=
  ⟨(ledger.latestEpoch.map (· + 1)).getD 1, ∅, ∅, ∅, []⟩

/-- The part of `FogContext` that no request changes. -/
structure Node (P : Platform) where
  fogId : String
  zone : String
  signingKey : P.PrivateKey
  pskStore : Dict String String
  sessionTtl : ℤ
  challengeTtl : ℤ
  adminKey : String
  allowedTypes : List String
  carryForward : Bool

/-- What the handling of one request reads from its surroundings: the clock, which
may move between two readings, one random draw of any length, the randomness of
signatures, the timestamp of a block, and whether writing the ledger file fails. -/
structure Env where
  now : ℚ
  later : ℚ
  draw : (n : ℕ) → { bytes : Bytes // bytes.length = n }
  coins : ℕ
  timestamp : String
  disk : Option DiskFault

/-- `secrets.token_hex(n)`. -/
def Env.tokenHex (env : Env) (n : ℕ) : String := toHex (env.draw n).1

/-- The part of `FogContext` that requests change. `signed` lists the messages
signed with the fog key so far; no handler reads it. -/
structure Fog where
  sessions : SessionStore
  devices : DeviceStore
  ledger : Ledger
  epochs : EpochManager
  tokenState : TokenState
  signed : List Bytes

/-- `create_app` over the blocks in the ledger file. -/
def Fog.create (file : Option (List Block)) (signed : List Bytes) : Fog :=
  let ledger := Ledger.load file
  ⟨∅, ∅, ledger, EpochManager.init ledger, TokenState.empty, signed⟩

/-- `create_app` where there is no ledger file yet. -/
def Fog.init : Fog := Fog.create none []

inductive Response
  | ok (body : List (String × Json))
  | httpError (status : ℕ) (detail : Json)
  | serverError (e : PyError)

namespace Response

def error (status : ℕ) (detail : String) : Response := .httpError status (.str detail)

/-- The named field of a successful answer. -/
def field (k : String) : Response → Option Json
  | .ok body => Json.field k body
  | _ => none

/-- The named field, where it is text. -/
def text (k : String) (r : Response) : Option String := (r.field k).bind strField

/-- The named field, where it is an integer. -/
def integer (k : String) (r : Response) : Option ℤ :=
  match r.field k with
  | some (.int n) => some n
  | _ => none

/-- The answer of an access request is ALLOW. -/
def Allows (r : Response) : Prop := r.field "decision" = some (.str "ALLOW")

end Response

end FogNode.Source
