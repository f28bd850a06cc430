import FogNode.Proofs.LedgerFile
import FogNode.Proofs.MerkleRefinement
import FogNode.Source.RawPackage

namespace FogNode.Proofs

open FogNode.Library FogNode.Source

variable {P : Platform} {pkg : RawPackage} {did : CodePoints} {pk leaf : Bytes}

theorem encodeCodes_ofString (s : String) : encodeCodes (CodePoints.ofString s) = .ok (utf8 s) := by
  rw [encodeCodes, CodePoints.decode?_ofString]

theorem startsWith_ofString (did : String) :
    (CodePoints.ofString DID_PREFIX).isPrefixOf (CodePoints.ofString did) = isDid did := by
  have hall : (DID_PREFIX.toList.all fun c ↦ decide (c.toNat < 128)) = true := by decide
  have hascii : ∀ c ∈ DID_PREFIX.toList, c.toNat < 128 := by simpa using hall
  rw [Bool.eq_iff_iff, isDid, List.isPrefixOf_iff_prefix, List.isPrefixOf_iff_prefix,
    CodePoints.ofString_prefix_iff, ← utf8_prefix_iff hascii, String.ofList_toList,
    String.ofList_toList]

theorem rawLeafHash_ofString (did : String) (pk : Bytes) :
    rawLeafHash P (CodePoints.ofString did) pk = leafHash P did pk := by
  rw [rawLeafHash, leafHash, startsWith_ofString, encodeCodes_ofString]
  rfl

theorem rawLeafHash_ok (h : rawLeafHash P did pk = .ok leaf) :
    ∃ s, did = .ofString s ∧ leafHash P s pk = .ok leaf := by
  cases hdid : did.decode? with
  | none =>
    unfold rawLeafHash encodeCodes at h
    rw [hdid] at h
    split_ifs at h
    cases h
  | some s =>
    obtain rfl := CodePoints.decode?_eq_some.mp hdid
    exact ⟨s, rfl, rawLeafHash_ofString s pk ▸ h⟩

theorem rawLeafHash_error {e : PyError} (h : rawLeafHash P did pk = .error e) :
    ∃ msg, e = .valueError msg := by
  unfold rawLeafHash encodeCodes at h
  split_ifs at h
  · exact ⟨_, (Except.error.inj h).symm⟩
  · exact ⟨_, (Except.error.inj h).symm⟩
  · cases hdid : did.decode? with
    | none =>
      rw [hdid] at h
      exact ⟨_, (Except.error.inj h).symm⟩
    | some s =>
      rw [hdid] at h
      cases h

/-- The step as one without surrogates. -/
def pathStep? (step : RawStep) : Option PathStep :=
  step.sibling.decode?.map fun s ↦ ⟨s, sideText step.side⟩

theorem climbRaw_eq (current : Bytes) (path : List RawStep) : climbRaw P current path =
    (path.mapM pathStep?).bind (MerkleTree.climbPath (nodeHash P) current) := by
  induction path generalizing current with
  | nil => rfl
  | cons step path ih =>
    rw [climbRaw, fromhexCodes, List.mapM_cons, pathStep?]
    cases step.sibling.decode? with
    | none => rfl
    | some s =>
    simp only [Option.map_some, Option.bind_eq_bind, Option.bind_some, Option.bind_assoc,
      Option.pure_def, MerkleTree.climbPath]
    cases fromhex s with
    | error e => simp
    | ok sibling =>
    dsimp only
    by_cases hlength : sibling.length ≠ HASH_LEN
    · simp [if_pos hlength]
    simp only [if_neg hlength]
    cases step.side with
    | L =>
      simp only [sideText, if_true]
      cases nodeHash P sibling current with
      | error e => simp
      | ok next => exact ih next
    | R =>
      simp only [sideText, show ("R" : String) ≠ "L" by decide, if_false, if_true]
      cases nodeHash P current sibling with
      | error e => simp
      | ok next => exact ih next

theorem reconstructRaw_eq (leaf : String) (path : List RawStep) : reconstructRaw P leaf path =
    (path.mapM pathStep?).bind (MerkleTree.reconstructRoot (nodeHash P) (.hex leaf)) := by
  simp only [reconstructRaw, climbRaw_eq]
  cases path.mapM pathStep? with
  | none => cases fromhex leaf <;> simp
  | some steps => rfl

theorem strOfInt_ok {n : ℤ} {s : String} : strOfInt n = .ok s ↔
    strDigits n ≤ INT_MAX_STR_DIGITS ∧ s = String.ofList (Json.decimal n) := by
  unfold strOfInt
  split_ifs with h <;> simp [h, eq_comm]

theorem text_json? {codes : CodePoints} {w : Json} (h : (FileValue.text codes).json? = some w) :
    ∃ s, codes = .ofString s ∧ w = .str s := by
  rcases json?_eq_some.mp h with ⟨n, hn, -⟩ | ⟨s, hs, rfl⟩
  · cases hn
  · exact ⟨s, FileValue.text.inj hs, rfl⟩

/-- There is a message where the integer can be printed and no text has a surrogate. -/
theorem rawPackageMessage_ok {message : Bytes} : rawPackageMessage P pkg = .ok message ↔
    strDigits pkg.epochId ≤ INT_MAX_STR_DIGITS ∧
      ∃ did leaf root fogId, pkg.did = .ofString did ∧ pkg.leaf = .ofString leaf ∧
        pkg.root = .ofString root ∧ pkg.fogId = .ofString fogId ∧
        message = packageMessage P did leaf root pkg.epochId fogId := by
  constructor
  · intro h
    obtain ⟨_, hprinted, h⟩ := bind_eq_ok h
    unfold canonicalFile at h
    split at h
    case h_2 => cases h
    case h_1 fields hfields =>
    obtain ⟨_, _, hdid, hfromLeaf, rfl⟩ := json?_cons hfields
    obtain ⟨_, _, hleaf, hfromRoot, rfl⟩ := json?_cons hfromLeaf
    obtain ⟨_, _, hroot, hfromEpoch, rfl⟩ := json?_cons hfromRoot
    obtain ⟨_, _, hepoch, hfromFog, rfl⟩ := json?_cons hfromEpoch
    obtain ⟨_, _, hfog, hend, rfl⟩ := json?_cons hfromFog
    obtain ⟨did, hdidText, rfl⟩ := text_json? hdid
    obtain ⟨leaf, hleafText, rfl⟩ := text_json? hleaf
    obtain ⟨root, hrootText, rfl⟩ := text_json? hroot
    obtain ⟨fogId, hfogText, rfl⟩ := text_json? hfog
    cases hepoch
    cases hend
    exact ⟨(strOfInt_ok.mp hprinted).1, did, leaf, root, fogId, hdidText, hleafText, hrootText,
      hfogText, (Except.ok.inj h).symm⟩
  · rintro ⟨hdigits, did, leaf, root, fogId, hdid, hleaf, hroot, hfog, rfl⟩
    rw [rawPackageMessage, strOfInt_ok.mpr ⟨hdigits, rfl⟩, hdid, hleaf, hroot, hfog]
    refine canonicalFile_ok (?_ : json? _ = some (packageFields did leaf root pkg.epochId fogId))
    simp [json?, FileValue.json?, packageFields]

/-- The same package, step and result over texts in which surrogates may stand. -/
def rawStep (step : ProofStep) : RawStep := ⟨.ofString step.sibling, step.side⟩

def rawPackage (pkg : ProofPackage) : RawPackage :=
  ⟨.ofString pkg.did, .ofString pkg.publicKey, .ofString pkg.leaf, pkg.epochId,
    .ofString pkg.root, pkg.proofPath.map rawStep, .ofString pkg.fogId, .ofString pkg.fogSignature⟩

def rawResult (result : VerificationResult) : RawResult :=
  ⟨result.ok, result.reason, result.detectedBy, result.recomputedLeaf, result.reconstructedRoot,
    result.trustedRoot.map .ofString⟩

theorem mapM_rawStep (steps : List ProofStep) :
    (steps.map rawStep).mapM pathStep? = some (steps.map ProofStep.modelDump) := by
  induction steps with
  | nil => rfl
  | cons step steps ih =>
    rw [List.map_cons, List.mapM_cons, ih, pathStep?, rawStep, CodePoints.decode?_ofString]
    rfl

theorem toString_decimal (n : ℤ) : toString n = String.ofList (Json.decimal n) := by
  cases n with
  | ofNat m => rfl
  | negSucc m =>
    have hsign : toString (Int.negSucc m) = "-" ++ String.ofList (Nat.toDigits 10 (m + 1)) := rfl
    rw [hsign, ← String.toList_inj, String.toList_append, String.toList_ofList,
      String.toList_ofList, String.toList_ofList]
    rfl

/-- Without surrogates and with an epoch id that can be printed, the verifier is what it is over
typed packages. -/
theorem verifyRawPackage_typed (pkg : ProofPackage) (trusted : Option String) (fogPk : Bytes)
    (hepoch : strDigits pkg.epochId ≤ INT_MAX_STR_DIGITS) :
    verifyRawPackage P (rawPackage pkg) (trusted.map CodePoints.ofString) fogPk =
      (verifyProofPackage P pkg trusted fogPk).map rawResult := by
  have hprinted : strOfInt pkg.epochId = .ok (toString pkg.epochId) :=
    strOfInt_ok.mpr ⟨hepoch, toString_decimal _⟩
  have hmessage : rawPackageMessage P (rawPackage pkg) = .ok (pkg.message P) :=
    rawPackageMessage_ok.mpr ⟨hepoch, _, _, _, _, rfl, rfl, rfl, rfl, rfl⟩
  have hidentity : (fromhexCodes (rawPackage pkg).publicKey).bind
      (rawLeafHash P (rawPackage pkg).did) = (fromhex pkg.publicKey).bind (leafHash P pkg.did) := by
    simp only [rawPackage, fromhexCodes_ofString]
    congr 1
    funext pk
    exact rawLeafHash_ofString _ _
  unfold verifyRawPackage verifyProofPackage
  rw [hidentity, hmessage, show (rawPackage pkg).epochId = pkg.epochId from rfl, hprinted]
  cases (fromhex pkg.publicKey).bind (leafHash P pkg.did) with
  | error e => cases e <;> rfl
  | ok leaf =>
  have hleaf : (CodePoints.ofString (toHex leaf) ≠ (rawPackage pkg).leaf) ↔
      toHex leaf ≠ pkg.leaf := CodePoints.ofString_injective.ne_iff
  dsimp only
  simp only [hleaf]
  split_ifs
  · rfl
  cases trusted with
  | none => rfl
  | some trusted =>
  have hpath : reconstructRaw P (toHex leaf) (rawPackage pkg).proofPath =
      MerkleTree.reconstructRoot (nodeHash P) (.hex (toHex leaf))
        (pkg.proofPath.map ProofStep.modelDump) := by
    rw [reconstructRaw_eq, rawPackage, mapM_rawStep]
    rfl
  simp only [Option.map_some, hpath]
  cases MerkleTree.reconstructRoot (nodeHash P) (.hex (toHex leaf))
      (pkg.proofPath.map ProofStep.modelDump) with
  | none => rfl
  | some candidate =>
  have hcandidate : (CodePoints.ofString (toHex candidate) ≠ CodePoints.ofString trusted) ↔
      toHex candidate ≠ trusted := CodePoints.ofString_injective.ne_iff
  have hroot : ((rawPackage pkg).root ≠ CodePoints.ofString trusted) ↔ pkg.root ≠ trusted :=
    CodePoints.ofString_injective.ne_iff
  dsimp only
  simp only [hcandidate, hroot]
  split_ifs
  · rfl
  · rfl
  rw [show fromhexCodes (rawPackage pkg).fogSignature = fromhex pkg.fogSignature from
    fromhexCodes_ofString _]
  cases fromhex pkg.fogSignature with
  | error e => rfl
  | ok signature =>
    dsimp only
    split_ifs <;> rfl

end FogNode.Proofs
