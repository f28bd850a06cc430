import FogNode.Source.Context

namespace FogNode.Source

open FogNode.Library

variable {P : Platform} (node : Node P)

namespace EpochManager

def addLeaf (P : Platform) (epochs : EpochManager) (did : String) (pkBytes : Bytes) :
    Except PyError (String × EpochManager) :=
  if (epochs.pending.get? did).isSome then
    .error (.epochError s!"{did} is already queued for epoch {epochs.currentEpochId}")
  else
    match leafHash P did pkBytes with
    | .error e => .error e
    | .ok leaf =>
      .ok (toHex leaf,
        { epochs with pending := epochs.pending.add ⟨did, toHex pkBytes, leaf⟩ })

def getPackage (epochs : EpochManager) (did : String) (epochId : Option ℤ) :
    Option ProofPackage :=
  match epochId with
  | none => epochs.latestPackage.get? did
  | some epochId => (epochs.packages.get? epochId).bind (·.get? did)

end EpochManager

structure EpochResult where
  epochId : ℤ
  root : String
  block : Block
  sortedLeaves : List (ℕ × String × String)
  packages : PackageSet
  newDevices : ℕ
  carriedForward : ℕ
  excluded : List String

/-- `excluded | revoked`. -/
def blockedDids (devices : DeviceStore) (excludeDids : List String) : List String :=
  excludeDids ++ (devices.byStatus .revoked).map DeviceRecord.did

/-- The loop over the REGISTERED records. Also counts the carried devices. -/
def carryForward (blocked : List String) (pending : Batch) :
    List DeviceRecord → Batch → ℕ → Except PyError (Batch × ℕ)
  | [], members, carried => .ok (members, carried)
  | rec :: recs, members, carried =>
    if rec.did ∉ blocked ∧ pending.get? rec.did = none then
      match rec.leaf with
      | none => .error (.typeError "fromhex() argument must be str, not None")
      | some leafHex =>
        match fromhex leafHex with
        | .error e => .error e
        | .ok leaf =>
          carryForward blocked pending recs (members.add ⟨rec.did, rec.publicKey, leaf⟩)
            (carried + 1)
    else carryForward blocked pending recs members carried

/-- The pending entries that are not blocked. -/
def newEntries (blocked : List String) (pending : Batch) : List PendingEntry :=
  pending.values.filter fun e ↦ decide (e.did ∉ blocked)

/-- The members of the epoch, how many are new and how many carried forward. -/
def collectMembers (fog : Fog) (blocked : List String) : Except PyError (Batch × ℕ × ℕ) :=
  let registered := if node.carryForward then fog.devices.byStatus .registered else []
  match carryForward blocked fog.epochs.pending registered ∅ 0 with
  | .error e => .error e
  | .ok (members, carried) =>
    let entries := newEntries blocked fog.epochs.pending
    .ok (members.addAll entries, entries.length, carried)

/-- The loop over the leaves of the tree: the packages built and signed, and the
exception that stopped the loop, if one did. -/
def buildPackages (tree : MerkleTree) (epochId : ℤ) (coins : ℕ)
    (byLeaf : Dict Bytes PendingEntry) : List Bytes → List ProofPackage × Option PyError
  | [] => ([], none)
  | leaf :: leaves =>
    match byLeaf.get? leaf with
    | none => ([], some (.keyError (toHex leaf)))
    | some e =>
      match buildProofPackage P e.did e.publicKey leaf tree epochId node.fogId node.signingKey
          coins with
      | .error err => ([], some err)
      | .ok pkg =>
        let (pkgs, err) := buildPackages tree epochId coins byLeaf leaves
        (pkg :: pkgs, err)

/-- The loop that updates the device records. -/
def commitDevices (epochId : ℤ) (pkgs : List ProofPackage) (devices : DeviceStore) :
    DeviceStore :=
  pkgs.foldl (fun devices pkg ↦ DeviceStore.commit devices pkg.did pkg.leaf epochId) devices

def droppedDids (epochs : EpochManager) (blocked : List String) : List String :=
  (blocked.dedup.filter fun did ↦
    (epochs.pending.get? did).isSome || epochs.activeDids.contains did).insertionSort (· ≤ ·)

/-- Build the tree, anchor its root and sign the packages. -/
def anchorEpoch (env : Env) (fog : Fog) (blocked : List String) (members : Batch)
    (new carried : ℕ) : Except PyError EpochResult × Fog :=
  let epochId := fog.epochs.currentEpochId
  let leavesSorted := sortBytes (members.values.map PendingEntry.leaf)
  match MerkleTree.init (nodeHash P) leavesSorted false with
  | .error e => (.error e, fog)
  | .ok tree =>
    match fog.ledger.anchorRoot P node.signingKey node.fogId env.coins env.timestamp env.disk
        epochId tree.rootHex tree.size with
    | (.error e, ledger, signed) =>
      (.error e, { fog with ledger := ledger, signed := fog.signed ++ signed })
    | (.ok block, ledger, signed) =>
      let byLeaf := Dict.ofList (members.values.map fun e ↦ (e.leaf, e))
      let (pkgs, err) := buildPackages node tree epochId env.coins byLeaf tree.leaves
      let signed := fog.signed ++ signed ++ pkgs.map (ProofPackage.message P)
      let fog' := { fog with ledger := ledger, signed := signed }
      match err with
      | some e => (.error e, fog')
      | none =>
        let sortedView := tree.leaves.zipIdx.filterMap fun (leaf, i) ↦
          (byLeaf.get? leaf).map fun e ↦ (i, toHex leaf, e.did)
        (.ok ⟨epochId, tree.rootHex, block, sortedView, Table.addAll ∅ pkgs, new, carried,
          droppedDids fog.epochs blocked⟩, fog')

/-- Update the devices and open the next epoch. -/
def recordEpoch (result : EpochResult) (fog : Fog) : Fog :=
  { fog with
    devices := commitDevices result.epochId result.packages.values fog.devices
    epochs :=
      { currentEpochId := result.epochId + 1
        pending := ∅
        packages := fog.epochs.packages.set result.epochId result.packages
        latestPackage := fog.epochs.latestPackage.addAll result.packages.values
        activeDids := result.packages.keys } }

def closeEpoch (env : Env) (fog : Fog) (blocked : List String) (members : Batch)
    (new carried : ℕ) : Except PyError EpochResult × Fog :=
  match anchorEpoch node env fog blocked members new carried with
  | (.error e, fog) => (.error e, fog)
  | (.ok result, fog) => (.ok result, recordEpoch result fog)

def finalizeEpoch (env : Env) (excludeDids : List String) (fog : Fog) :
    Except PyError EpochResult × Fog :=
  let blocked := blockedDids fog.devices excludeDids
  match collectMembers node fog blocked with
  | .error e => (.error e, fog)
  | .ok (members, new, carried) =>
    if members.size = 0 then
      (.error (.epochError "nothing to finalize: the batch is empty"), fog)
    else closeEpoch node env fog blocked members new carried

/-- A call of a method of the manager, or a restart: a new `Ledger` and `EpochManager`
over the same file. `finalize_epoch` reads whatever devices are on record by then. -/
inductive EpochCall (P : Platform)
  | addLeaf (did : String) (pkBytes : Bytes)
  | finalizeEpoch (node : Node P) (env : Env) (excludeDids : List String) (devices : DeviceStore)
  | restart

/-- What the call makes of the ledger, its file and the manager. -/
def callEpochs (fog : Fog) : EpochCall P → Fog
  | .addLeaf did pkBytes =>
    match EpochManager.addLeaf P fog.epochs did pkBytes with
    | .error _ => fog
    | .ok (_, epochs) => { fog with epochs := epochs }
  | .finalizeEpoch node env excludeDids devices =>
    (Source.finalizeEpoch node env excludeDids { fog with devices := devices }).2
  | .restart => Fog.create fog.ledger.file fog.signed

/-- The result that the call returns, where it finalizes an epoch. -/
def finalizedBy (fog : Fog) : EpochCall P → Option EpochResult
  | .finalizeEpoch node env excludeDids devices =>
    (Source.finalizeEpoch node env excludeDids { fog with devices := devices }).1.toOption
  | _ => none

end FogNode.Source
