import FogNode.Source.CryptoUtils
import FogNode.Source.Schemas

namespace FogNode.Source

open FogNode.Library

variable (P : Platform)

def packageFields (did leafHex rootHex : String) (epochId : ℤ) (fogId : String) :
    List (String × Json) :=
  [("did", .str did), ("leaf", .str leafHex), ("root", .str rootHex), ("epoch_id", .int epochId),
    ("fog_id", .str fogId)]

/-- `package_message` on texts without surrogates and an epoch id that can be printed. -/
def packageMessage (did leafHex rootHex : String) (epochId : ℤ) (fogId : String) : Bytes :=
  canonicalJson P (packageFields did leafHex rootHex epochId fogId)

/-- The message whose signature a package carries. -/
def ProofPackage.message (pkg : ProofPackage) : Bytes :=
  packageMessage P pkg.did pkg.leaf pkg.root pkg.epochId pkg.fogId

/-- `ProofStep(**step)` for a step of `get_proof`. -/
def ProofStep.ofPathStep (step : PathStep) : Except PyError ProofStep :=
  if step.side = "L" then .ok ⟨step.sibling, .L⟩
  else if step.side = "R" then .ok ⟨step.sibling, .R⟩
  else .error (.validationError "ProofStep")

def buildProofPackage (did pkHex : String) (leaf : Bytes) (tree : MerkleTree) (epochId : ℤ)
    (fogId : String) (key : P.PrivateKey) (coins : ℕ) : Except PyError ProofPackage :=
  match tree.getProof leaf with
  | .error e => .error e
  | .ok path =>
    match path.mapM ProofStep.ofPathStep with
    | .error e => .error e
    | .ok steps =>
      let signature :=
        sign P key coins (packageMessage P did (toHex leaf) tree.rootHex epochId fogId)
      .ok ⟨did, pkHex, toHex leaf, epochId, tree.rootHex, steps, fogId, toHex signature⟩

structure VerificationResult where
  ok : Bool
  reason : String
  detectedBy : String
  recomputedLeaf : Option String
  reconstructedRoot : Option String
  trustedRoot : Option String
  deriving DecidableEq, Repr

/-- `verify_proof_package` on texts without surrogates and an epoch id that can be printed. -/
def verifyProofPackage (pkg : ProofPackage) (trustedRootHex : Option String)
    (fogPkBytes : Bytes) : Except PyError VerificationResult :=
  let path := pkg.proofPath.map ProofStep.modelDump
  match (fromhex pkg.publicKey).bind (leafHash P pkg.did) with
  | .error (.valueError e) =>
    .ok ⟨false, s!"malformed identity: {e}", "identity check", none, none, none⟩
  | .error e => .error e
  | .ok leaf =>
    let recomputed := toHex leaf
    if recomputed ≠ pkg.leaf then
      .ok ⟨false, "claimed leaf does not equal H(DID || PK)", "identity check",
        some recomputed, none, none⟩
    else
      match trustedRootHex with
      | none => .ok ⟨false, s!"no anchored root for epoch {pkg.epochId}", "root registry",
          some recomputed, none, none⟩
      | some trusted =>
        match MerkleTree.reconstructRoot (nodeHash P) (.hex recomputed) path with
        | none => .ok ⟨false, "malformed proof path", "Merkle verifier",
            some recomputed, none, some trusted⟩
        | some candidate =>
          let candidateHex := toHex candidate
          let invalid : VerificationResult := ⟨false, "fog signature on proof package is invalid",
            "signature check", some recomputed, some candidateHex, some trusted⟩
          if candidateHex ≠ trusted then
            .ok ⟨false, "reconstructed root does not match anchored root", "Merkle verifier",
              some recomputed, some candidateHex, some trusted⟩
          else
            let message := pkg.message P
            -- the signature is decoded only when the claimed root is the trusted one
            if pkg.root ≠ trusted then .ok invalid
            else
              match fromhex pkg.fogSignature with
              | .error e => .error e
              | .ok signature =>
                if verify P fogPkBytes message signature then
                  .ok ⟨true, "membership proven for this epoch", "all checks passed",
                    some recomputed, some candidateHex, some trusted⟩
                else .ok invalid

/-- The verifier's answer is a result with `ok = True`. -/
def Accepted (pkg : ProofPackage) (trustedRootHex : Option String) (fogPkBytes : Bytes) : Prop :=
  ∃ result, verifyProofPackage P pkg trustedRootHex fogPkBytes = .ok result ∧ result.ok = true

def strField : Json → Option String
  | .str s => some s
  | _ => none

def ProofStep.parse : Json → Option ProofStep
  | .obj fields =>
    match (Json.field "sibling" fields).bind strField, Json.field "side" fields with
    | some sibling, some (.str side) =>
      if side = "L" then some ⟨sibling, .L⟩ else if side = "R" then some ⟨sibling, .R⟩ else none
    | _, _ => none
  | _ => none

def pathField : Json → Option (List ProofStep)
  | .arr items => items.mapM ProofStep.parse
  | _ => none

/-- `ProofPackage(**fields)`: fields of other names are ignored. -/
def ProofPackage.parse (fields : List (String × Json)) : Option ProofPackage := do
  let did ← (Json.field "did" fields).bind strField
  let publicKey ← (Json.field "public_key" fields).bind strField
  let leaf ← (Json.field "leaf" fields).bind strField
  let epochId ← (Json.field "epoch_id" fields).bind P.intField
  let root ← (Json.field "root" fields).bind strField
  let proofPath ← (Json.field "proof_path" fields).bind pathField
  let fogId ← (Json.field "fog_id" fields).bind strField
  let fogSignature ← (Json.field "fog_signature" fields).bind strField
  pure ⟨did, publicKey, leaf, epochId, root, proofPath, fogId, fogSignature⟩

end FogNode.Source
