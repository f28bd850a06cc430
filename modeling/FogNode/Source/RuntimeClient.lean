import FogNode.Source.DeviceClient

namespace FogNode.Source

open FogNode.Library

variable {P : Platform}

/-- How a helper ends without a decision: `RuntimeAccessError`, or another exception. -/
inductive ClientError
  | runtimeAccess (stage : String) (r : Response)
  | raised (e : PyError)

def typeName : Json → String
  | .null => "NoneType"
  | .bool _ => "bool"
  | .int _ => "int"
  | .float _ => "float"
  | .str _ => "str"
  | .arr _ => "list"
  | .obj _ => "dict"

/-- What `.encode()` is called on. -/
def encoded : Json → Except PyError String
  | .str s => .ok s
  | j => .error (.attributeError s!"'{typeName j}' object has no attribute 'encode'")

/-- `_json_or_raise`. -/
def jsonOrRaise (stage : String) : Response → Except ClientError (List (String × Json))
  | .ok body => .ok body
  | r => .error (.runtimeAccess stage r)

/-- `_json_or_raise(r, stage)["nonce"]`. -/
def nonceAnswered (stage : String) (r : Response) : Except ClientError Json :=
  match jsonOrRaise stage r with
  | .error e => .error e
  | .ok body => (getItem body "nonce").mapError .raised

def buildTokenRequest (key : P.PrivateKey) (coins : ℕ) (token : List (String × Json))
    (nonce : Json) (resource operation : String) : Except PyError TokenAccessRequest := do
  let tokenId ← getItem token "token_id"
  let did ← getItem token "did"
  let tokenId ← encoded tokenId
  let did ← encoded did
  let nonce ← encoded nonce
  .ok ⟨token, nonce, resource, operation,
    signAccess P key coins tokenId did nonce resource operation⟩

def buildVerifyRequest (key : P.PrivateKey) (coins : ℕ) (pkg : List (String × Json))
    (nonce : Json) (resource operation : String) : Except PyError VerifyRequest := do
  let did ← getItem pkg "did"
  let epochId ← getItem pkg "epoch_id"
  let did ← encoded did
  let nonce ← encoded nonce
  .ok ⟨pkg, resource, operation, nonce,
    signVerifyRequest key coins did (pyStr P epochId) nonce resource operation⟩

/-- The surroundings of the two requests of a helper, and what the fog handles for others
between the two. -/
structure Exchange where
  ask : Env
  others : List Event
  use : Env
  coins : ℕ

variable (node : Node P) (key : P.PrivateKey)

/-- `request_token`. -/
def requestToken (env : Env) (sessionId : String) (fog : Fog) :
    Except ClientError (List (String × Json)) × Fog :=
  let (r, fog) := tokensIssue node env sessionId fog
  (jsonOrRaise "token issue" r, fog)

/-- The second half of `token_access`: sign with the nonce and send. -/
def useTokenNonce (ex : Exchange) (token : List (String × Json)) (resource operation : String)
    (nonce : Json) (fog : Fog) : Except ClientError (Response × TokenAccessRequest) × Fog :=
  match buildTokenRequest key ex.coins token nonce resource operation with
  | .error e => (.error (.raised e), fog)
  | .ok body =>
    let (r, fog) := tokensAccess node ex.use body fog
    (.ok (r, body), fog)

/-- `token_access`. A token id that is not text is answered with status 422. -/
def tokenAccess (ex : Exchange) (token : List (String × Json)) (resource operation : String)
    (fog : Fog) : Except ClientError (Response × TokenAccessRequest) × Fog :=
  match getItem token "token_id" with
  | .error e => (.error (.raised e), fog)
  | .ok (.str tokenId) =>
    let (r, fog) := tokensNonce ex.ask tokenId fog
    match nonceAnswered "token nonce" r with
    | .error e => (.error e, fog)
    | .ok nonce => useTokenNonce node key ex token resource operation nonce
        (after node fog ex.others)
  | .ok _ => (.error (.runtimeAccess "token nonce" (.httpError 422 .null)), fog)

/-- The second half of `verify_access`. -/
def useVerifyNonce (ex : Exchange) (pkg : List (String × Json)) (resource operation : String)
    (nonce : Json) (fog : Fog) : Except ClientError (Response × VerifyRequest) × Fog :=
  match buildVerifyRequest key ex.coins pkg nonce resource operation with
  | .error e => (.error (.raised e), fog)
  | .ok body =>
    let (r, fog) := verifyAndAuthorize node ex.use body fog
    (.ok (r, body), fog)

/-- `verify_access`. A DID that is not text is answered with status 422. -/
def verifyAccess (ex : Exchange) (pkg : List (String × Json)) (resource operation : String)
    (fog : Fog) : Except ClientError (Response × VerifyRequest) × Fog :=
  match getItem pkg "did" with
  | .error e => (.error (.raised e), fog)
  | .ok (.str did) =>
    let (r, fog) := verifyNonce ex.ask did fog
    match nonceAnswered "verify nonce" r with
    | .error e => (.error e, fog)
    | .ok nonce => useVerifyNonce node key ex pkg resource operation nonce
        (after node fog ex.others)
  | .ok _ => (.error (.runtimeAccess "verify nonce" (.httpError 422 .null)), fog)

end FogNode.Source
