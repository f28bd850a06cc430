import FogNode.Source.LedgerFile
import FogNode.Source.ProofPackage

namespace FogNode.Source

open FogNode.Library

/-- A `ProofStep` in whose text surrogates may stand. -/
structure RawStep where
  sibling : CodePoints
  side : Side

/-- A `ProofPackage` in whose texts surrogates may stand. -/
structure RawPackage where
  did : CodePoints
  publicKey : CodePoints
  leaf : CodePoints
  epochId : ℤ
  root : CodePoints
  proofPath : List RawStep
  fogId : CodePoints
  fogSignature : CodePoints

/-- A `VerificationResult` over such a package. -/
structure RawResult where
  ok : Bool
  reason : String
  detectedBy : String
  recomputedLeaf : Option String
  reconstructedRoot : Option String
  trustedRoot : Option CodePoints

def isSurrogate (n : Fin 0x110000) : Bool := decide (0xd800 ≤ n.val ∧ n.val < 0xe000)

/-- The text of a `UnicodeEncodeError`, which names the first surrogates in a row. -/
def surrogatesText (codes : CodePoints) : String :=
  let start := codes.findIdx isSurrogate
  let run := (codes.drop start).takeWhile isSurrogate
  "'utf-8' codec can't encode character" ++
    (match run with
      | [n] => " '\\u" ++ String.ofList (Nat.toDigits 16 n.val) ++ s!"' in position {start}"
      | _ => s!"s in position {start}-{start + run.length - 1}") ++ ": surrogates not allowed"

/-- `text.encode("utf-8")`. -/
def encodeCodes (codes : CodePoints) : Except PyError Bytes :=
  match codes.decode? with
  | some s => .ok (utf8 s)
  | none => .error (.valueError (surrogatesText codes))

variable (P : Platform)

/-- `leaf_hash(did, pk_bytes)`. -/
def rawLeafHash (did : CodePoints) (pkBytes : Bytes) : Except PyError Bytes :=
  if (CodePoints.ofString DID_PREFIX).isPrefixOf did = false then
    .error (.valueError s!"invalid DID: {P.reprCodes did}")
  else if pkBytes.length ≠ COMPRESSED_PK_LEN then
    .error (.valueError "public key must be 33 bytes (compressed P256 point)")
  else (encodeCodes did).map fun did ↦ P.sha256 (LEAF_PREFIX ++ did ++ SEPARATOR ++ pkBytes)

/-- The loop of `reconstruct_root`. Every exception it catches ends in `None`. -/
def climbRaw (current : Bytes) : List RawStep → Option Bytes
  | [] => some current
  | step :: path =>
    match fromhexCodes step.sibling with
    | .error _ => none
    | .ok sibling =>
      if sibling.length ≠ HASH_LEN then none
      else
        match step.side with
        | .L =>
          match nodeHash P sibling current with
          | .error _ => none
          | .ok current => climbRaw current path
        | .R =>
          match nodeHash P current sibling with
          | .error _ => none
          | .ok current => climbRaw current path

/-- `reconstruct_root(leaf, path)`. -/
def reconstructRaw (leaf : String) (path : List RawStep) : Option Bytes :=
  match fromhex leaf with
  | .error _ => none
  | .ok current => if current.length ≠ HASH_LEN then none else climbRaw P current path

/-- `package_message`: the integer is printed before the text is encoded. -/
def rawPackageMessage (pkg : RawPackage) : Except PyError Bytes := do
  let _ ← strOfInt pkg.epochId
  canonicalFile P [("did", .text pkg.did), ("leaf", .text pkg.leaf), ("root", .text pkg.root),
    ("epoch_id", .int pkg.epochId), ("fog_id", .text pkg.fogId)]

/-- `verify_proof_package`, whose only `try` is around the identity. -/
def verifyRawPackage (pkg : RawPackage) (trustedRootHex : Option CodePoints)
    (fogPkBytes : Bytes) : Except PyError RawResult :=
  match (fromhexCodes pkg.publicKey).bind (rawLeafHash P pkg.did) with
  | .error (.valueError e) =>
    .ok ⟨false, s!"malformed identity: {e}", "identity check", none, none, none⟩
  | .error e => .error e
  | .ok leaf =>
    let recomputed := toHex leaf
    if .ofString recomputed ≠ pkg.leaf then
      .ok ⟨false, "claimed leaf does not equal H(DID || PK)", "identity check",
        some recomputed, none, none⟩
    else
      match trustedRootHex with
      | none => (strOfInt pkg.epochId).map fun epochId ↦
          ⟨false, s!"no anchored root for epoch {epochId}", "root registry",
            some recomputed, none, none⟩
      | some trusted =>
        match reconstructRaw P recomputed pkg.proofPath with
        | none => .ok ⟨false, "malformed proof path", "Merkle verifier",
            some recomputed, none, some trusted⟩
        | some candidate =>
          let candidateHex := toHex candidate
          if .ofString candidateHex ≠ trusted then
            .ok ⟨false, "reconstructed root does not match anchored root", "Merkle verifier",
              some recomputed, some candidateHex, some trusted⟩
          else
            let invalid : RawResult := ⟨false, "fog signature on proof package is invalid",
              "signature check", some recomputed, some candidateHex, some trusted⟩
            match rawPackageMessage P pkg with
            | .error e => .error e
            | .ok message =>
              if pkg.root ≠ trusted then .ok invalid
              else
                match fromhexCodes pkg.fogSignature with
                | .error e => .error e
                | .ok signature =>
                  if verify P fogPkBytes message signature then
                    .ok ⟨true, "membership proven for this epoch", "all checks passed",
                      some recomputed, some candidateHex, some trusted⟩
                  else .ok invalid

end FogNode.Source
