import FogNode.Source.Context

namespace FogNode.Source

open FogNode.Library

variable {P : Platform} (node : Node P)

def revokeAll (state : TokenState) (tokenIds : List String) : TokenState :=
  tokenIds.foldl TokenState.revoke state

/-- `revoke_device` with the token state given. -/
def revokeDevice (devices : DeviceStore) (did : String) (tokenState : TokenState) :
    Bool × DeviceStore × TokenState :=
  match DeviceStore.get devices did with
  | none => (false, devices, tokenState)
  | some _ =>
    (true, DeviceStore.setStatus devices did .revoked,
      revokeAll tokenState (tokenState.tokensOf did))

def revokeToken (tokenState : TokenState) (tokenId : String) : Bool × TokenState :=
  if tokenState.wasIssued tokenId then (true, tokenState.revoke tokenId) else (false, tokenState)

def isDeviceRevoked (devices : DeviceStore) (did : String) : Bool :=
  match DeviceStore.get devices did with
  | none => false
  | some record => record.status = .revoked

structure RevokeRequest where
  did : String
  tokenId : Option String
  tokenOnly : Bool

def revoke (body : RevokeRequest) (adminKey : Option String) (fog : Fog) : Response × Fog :=
  if adminKey ≠ some node.adminKey then (.error 401 "admin key required", fog)
  else if body.tokenOnly then
    match body.tokenId with
    | none | some "" => (.error 422 "token_only requires token_id", fog)
    | some tokenId =>
      if fog.tokenState.ownerOf tokenId ≠ some body.did then
        (.error 404 "unknown token_id for this DID", fog)
      else
        match revokeToken fog.tokenState tokenId with
        | (false, tokenState) =>
          (.error 404 "unknown token_id for this DID", { fog with tokenState := tokenState })
        | (true, tokenState) =>
          let fog := { fog with tokenState := tokenState }
          match DeviceStore.get fog.devices body.did with
          | none => (.serverError (.attributeError "'NoneType' object has no attribute 'status'"),
              fog)
          | some record =>
            (.ok [("did", .str body.did), ("status", .str record.status.value),
              ("revoked_tokens", .arr [.str tokenId])], fog)
  else
    match revokeDevice fog.devices body.did fog.tokenState with
    | (false, devices, tokenState) =>
      (.error 404 "unknown DID", { fog with devices := devices, tokenState := tokenState })
    | (true, devices, tokenState) =>
      let tokenState := match body.tokenId with
        | none | some "" => tokenState
        | some tokenId => tokenState.revoke tokenId
      let revoked := (tokenState.tokensOf body.did).filter tokenState.isRevoked
      (.ok [("did", .str body.did), ("status", .str "REVOKED"),
          ("revoked_tokens", .arr (revoked.map .str))],
        { fog with devices := devices, tokenState := tokenState })

def revocationStatus (did : String) (fog : Fog) : Response :=
  match DeviceStore.get fog.devices did with
  | none => .error 404 "unknown DID"
  | some record =>
    .ok [("did", .str did), ("status", .str record.status.value),
      ("revoked", .bool (isDeviceRevoked fog.devices did)),
      ("last_epoch", match record.epochId with
        | some e => .int e
        | none => .null),
      ("in_latest_active_set", .bool (fog.epochs.activeDids.contains did)),
      ("tokens", .obj ((fog.tokenState.tokensOf did).map fun t ↦
        (t, .str (if fog.tokenState.isRevoked t then "REVOKED" else "active"))))]

end FogNode.Source
