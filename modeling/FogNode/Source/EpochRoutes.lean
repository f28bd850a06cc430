import FogNode.Source.EpochManager

namespace FogNode.Source

open FogNode.Library

variable {P : Platform} (node : Node P) (env : Env)

def Block.modelDump (b : Block) : List (String × Json) :=
  b.body ++ [("signature", .str b.signature), ("block_hash", .str b.blockHash)]

def EpochResult.dump (r : EpochResult) : List (String × Json) :=
  [("epoch_id", .int r.epochId), ("root", .str r.root), ("leaf_count", .int r.sortedLeaves.length),
    ("new_devices", .int r.newDevices), ("carried_forward", .int r.carriedForward),
    ("excluded", .arr (r.excluded.map .str)),
    ("sorted_leaves", .arr (r.sortedLeaves.map fun (i, leaf, did) ↦
      .obj [("index", .int i), ("leaf", .str leaf), ("did", .str did)])),
    ("block", .obj r.block.modelDump)]

def epochCurrent (fog : Fog) : Response :=
  .ok [("epoch_id", .int fog.epochs.currentEpochId), ("batch_size", .int fog.epochs.pending.size),
    ("queued_dids", .arr (fog.epochs.pending.keys.map .str)),
    ("latest_anchored_epoch", match fog.ledger.latestEpoch with
      | some e => .int e
      | none => .null)]

def epochClose (excludeDids : List String) (adminKey : Option String) (fog : Fog) :
    Response × Fog :=
  if adminKey ≠ some node.adminKey then (.error 401 "admin key required", fog)
  else
    match finalizeEpoch node env excludeDids fog with
    | (.error (.epochError e), fog) => (.error 409 e, fog)
    | (.error e, fog) => (.serverError e, fog)
    | (.ok result, fog) => (.ok result.dump, fog)

def getProof (did : String) (epochId : Option ℤ) (fog : Fog) : Response :=
  match DeviceStore.get fog.devices did with
  | none => .error 404 "unknown DID"
  | some rec =>
    if rec.status = .revoked then .error 403 "device is revoked; no proof issued"
    else
      match fog.epochs.getPackage did epochId with
      | none => .error 404 "no proof yet: device is waiting for the epoch to close"
      | some pkg => .ok pkg.modelDump

def registryRoot (epochId : ℤ) (fog : Fog) : Response :=
  match fog.ledger.blocks.find? fun b ↦ decide (b.epochId = epochId) with
  | none => .error 404 s!"epoch {epochId} not anchored"
  | some block =>
    .ok [("epoch_id", .int epochId), ("root", .str block.root), ("block", .obj block.modelDump)]

end FogNode.Source
