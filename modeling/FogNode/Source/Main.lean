import FogNode.Library.Runs
import FogNode.Source.EpochRoutes
import FogNode.Source.RegistrationRoutes
import FogNode.Source.TokenRoutes
import FogNode.Source.VerificationRoutes

namespace FogNode.Source

open FogNode.Library

/-- The endpoints of the routers that `create_app` includes. -/
inductive Request
  | registerStart (authorization : Option String)
  | registerPubkey (body : PublicKeyRequest)
  | registerPop (body : PopRequest)
  | registerMetadata (body : MetadataRequest)
  | epochCurrent
  | epochClose (excludeDids : List String) (adminKey : Option String)
  | proof (did : String) (epochId : Option ℤ)
  | registryRoot (epochId : ℤ)
  | revoke (body : RevokeRequest) (adminKey : Option String)
  | revocationStatus (did : String)
  | tokensIssue (sessionId : String)
  | tokensNonce (tokenId : String)
  | tokensAccess (body : TokenAccessRequest)
  | verifyNonce (did : String)
  | verify (body : VerifyRequest)

variable {P : Platform} (node : Node P)

def handle (env : Env) (request : Request) (fog : Fog) : Response × Fog :=
  match request with
  | .registerStart authorization => registerStart node env authorization fog
  | .registerPubkey body => registerPubkey node env body fog
  | .registerPop body => registerPop node env body fog
  | .registerMetadata body => registerMetadata node env body fog
  | .epochCurrent => (epochCurrent fog, fog)
  | .epochClose excludeDids adminKey => epochClose node env excludeDids adminKey fog
  | .proof did epochId => (getProof did epochId fog, fog)
  | .registryRoot epochId => (registryRoot epochId fog, fog)
  | .revoke body adminKey => revoke node body adminKey fog
  | .revocationStatus did => (revocationStatus did fog, fog)
  | .tokensIssue sessionId => tokensIssue node env sessionId fog
  | .tokensNonce tokenId => tokensNonce env tokenId fog
  | .tokensAccess body => tokensAccess node env body fog
  | .verifyNonce did => verifyNonce env did fog
  | .verify body => verifyAndAuthorize node env body fog

/-- A request together with the surroundings in which it is handled. -/
structure Event where
  env : Env
  request : Request

def answer (fog : Fog) (e : Event) : Response := (handle node e.env e.request fog).1

def step (fog : Fog) (e : Event) : Fog := (handle node e.env e.request fog).2

/-- The fog after the listed requests, handled one at a time from `fog`. -/
abbrev after (fog : Fog) (events : List Event) : Fog := run (step node) fog events

/-- A request, or a restart of the process. -/
inductive Action
  | request (e : Event)
  | restart

/-- A restart runs `create_app` over the ledger file that the last process left. -/
def act (fog : Fog) : Action → Fog
  | .request e => step node fog e
  | .restart => Fog.create fog.ledger.file fog.signed

abbrev afterActions (fog : Fog) (actions : List Action) : Fog := run (act node) fog actions

end FogNode.Source
