import FogNode.Proofs.PackageVerification
import FogNode.Proofs.RawPackage

namespace FogNode.Proofs

open FogNode.Library FogNode.Source

variable {P : Platform} {pkg : RawPackage} {trusted : Option CodePoints} {fogPk : Bytes}
  {did : String} {pk leaf : Bytes}

/-- The claimed leaf is the leaf of the DID and the key. -/
structure IdentityStands (P : Platform) (pkg : RawPackage) (did : String) (pk leaf : Bytes) :
    Prop where
  did_eq : pkg.did = .ofString did
  key : fromhexCodes pkg.publicKey = .ok pk
  leaf_ok : leafHash P did pk = .ok leaf
  leaf_eq : pkg.leaf = .ofString (toHex leaf)

/-- The path leads from that leaf to the trusted root. -/
def PathLeads (P : Platform) (pkg : RawPackage) (did : String) (pk : Bytes)
    (trusted : CodePoints) : Prop :=
  ∃ steps p, pkg.proofPath.mapM pathStep? = some steps ∧ decodePath steps = some p ∧
    trusted = .ofString
      (toHex (climb (shaDigest P) nodePair (shaDigest P (leafInput did pk)) p).1)

/-- The signature of the package is one of its message. -/
def SignatureStands (P : Platform) (pkg : RawPackage) (fogPk : Bytes) : Prop :=
  ∃ message sig, rawPackageMessage P pkg = .ok message ∧ fromhexCodes pkg.fogSignature = .ok sig ∧
    verify P fogPk message sig = true

/-- The result names the component that rejects the package, or none does. -/
inductive NamesComponent (P : Platform) (pkg : RawPackage) (trusted : Option CodePoints)
    (fogPk : Bytes) (result : RawResult) : Prop
  | identity (hbad : ∀ did pk leaf, ¬ IdentityStands P pkg did pk leaf) (hok : result.ok = false)
      (hby : result.detectedBy = "identity check")
  | registry {did : String} {pk leaf : Bytes} (hid : IdentityStands P pkg did pk leaf)
      (htrusted : trusted = none) (hok : result.ok = false)
      (hby : result.detectedBy = "root registry")
  | merkle {did : String} {pk leaf : Bytes} {root : CodePoints}
      (hid : IdentityStands P pkg did pk leaf) (htrusted : trusted = some root)
      (hbad : ¬ PathLeads P pkg did pk root) (hok : result.ok = false)
      (hby : result.detectedBy = "Merkle verifier")
  | signature {did : String} {pk leaf : Bytes} {root : CodePoints}
      (hid : IdentityStands P pkg did pk leaf) (htrusted : trusted = some root)
      (hpath : PathLeads P pkg did pk root)
      (hbad : pkg.root ≠ root ∨ ¬ SignatureStands P pkg fogPk) (hok : result.ok = false)
      (hby : result.detectedBy = "signature check")
  | passed {did : String} {pk leaf : Bytes} (hid : IdentityStands P pkg did pk leaf)
      (htrusted : trusted = some pkg.root) (hpath : PathLeads P pkg did pk pkg.root)
      (hsig : SignatureStands P pkg fogPk) (hok : result.ok = true)
      (hby : result.detectedBy = "all checks passed")

/-- The epoch id can be printed, and neither the claimed root nor the fog id has a surrogate. -/
structure Printable (pkg : RawPackage) : Prop where
  epoch : strDigits pkg.epochId ≤ INT_MAX_STR_DIGITS
  root : ∃ root, pkg.root = .ofString root
  fogId : ∃ fogId, pkg.fogId = .ofString fogId

/-- What the verifier reads outside its `try` can be read: the epoch id where it names an epoch
without a root, the fields of the message once the path has led to the trusted root, and then
the signature, if the claimed root is that root. -/
structure Legible (P : Platform) (pkg : RawPackage) (trusted : Option CodePoints) : Prop where
  epoch : ∀ did pk leaf, IdentityStands P pkg did pk leaf → trusted = none →
    strDigits pkg.epochId ≤ INT_MAX_STR_DIGITS
  message : ∀ did pk leaf root, IdentityStands P pkg did pk leaf → trusted = some root →
    PathLeads P pkg did pk root → Printable pkg
  signature : ∀ did pk leaf, IdentityStands P pkg did pk leaf → trusted = some pkg.root →
    PathLeads P pkg did pk pkg.root → ∃ sig, fromhexCodes pkg.fogSignature = .ok sig

/-- What the verifier comes to: a result where everything is legible, else an exception. -/
inductive Verdict (P : Platform) (pkg : RawPackage) (trusted : Option CodePoints) (fogPk : Bytes) :
    Except PyError RawResult → Prop
  | named {result : RawResult} (h : NamesComponent P pkg trusted fogPk result)
      (hlegible : Legible P pkg trusted) : Verdict P pkg trusted fogPk (.ok result)
  | raised {e : PyError} (hnot : ¬ Legible P pkg trusted) : Verdict P pkg trusted fogPk (.error e)

theorem IdentityStands.unique {did' : String} {pk' leaf' : Bytes}
    (h : IdentityStands P pkg did pk leaf) (h' : IdentityStands P pkg did' pk' leaf') :
    did = did' ∧ pk = pk' ∧ leaf = leaf' := by
  obtain rfl := CodePoints.ofString_injective (h.did_eq.symm.trans h'.did_eq)
  cases h.key.symm.trans h'.key
  cases h.leaf_ok.symm.trans h'.leaf_ok
  exact ⟨rfl, rfl, rfl⟩

/-- There is a message of an identity that stands where the rest of it can be printed. -/
theorem message_iff_printable (hid : IdentityStands P pkg did pk leaf) :
    (∃ message, rawPackageMessage P pkg = .ok message) ↔ Printable pkg := by
  simp only [rawPackageMessage_ok]
  constructor
  · rintro ⟨_, hepoch, _, _, root, fogId, -, -, hroot, hfog, -⟩
    exact ⟨hepoch, ⟨root, hroot⟩, fogId, hfog⟩
  · rintro ⟨hepoch, ⟨root, hroot⟩, fogId, hfog⟩
    exact ⟨_, hepoch, did, toHex leaf, root, fogId, hid.did_eq, hid.leaf_eq, hroot, hfog, rfl⟩

theorem verdict_of_identity (hbad : ∀ did pk leaf, ¬ IdentityStands P pkg did pk leaf)
    {result : RawResult} (hok : result.ok = false) (hby : result.detectedBy = "identity check") :
    Verdict P pkg trusted fogPk (.ok result) :=
  .named (.identity hbad hok hby)
    ⟨fun _ _ _ hid ↦ absurd hid (hbad _ _ _), fun _ _ _ _ hid ↦ absurd hid (hbad _ _ _),
      fun _ _ _ hid ↦ absurd hid (hbad _ _ _)⟩

theorem verdict_of_path (hid : IdentityStands P pkg did pk leaf) {root : CodePoints}
    (hbad : ¬ PathLeads P pkg did pk root) {result : RawResult} (hok : result.ok = false)
    (hby : result.detectedBy = "Merkle verifier") :
    Verdict P pkg (some root) fogPk (.ok result) := by
  refine .named (.merkle hid rfl hbad hok hby) ⟨fun _ _ _ _ h ↦ (nomatch h), ?_, ?_⟩
  · intro did' pk' leaf' root' hid' hroot hpath
    obtain ⟨rfl, rfl, -⟩ := hid.unique hid'
    cases hroot
    exact absurd hpath hbad
  · intro did' pk' leaf' hid' hroot hpath
    obtain ⟨rfl, rfl, -⟩ := hid.unique hid'
    cases hroot
    exact absurd hpath hbad

/-- What is legible once the path has led to the trusted root. -/
theorem legible_iff (hid : IdentityStands P pkg did pk leaf) {root : CodePoints}
    (hpath : PathLeads P pkg did pk root) : Legible P pkg (some root) ↔ Printable pkg ∧
      (pkg.root = root → ∃ sig, fromhexCodes pkg.fogSignature = .ok sig) := by
  constructor
  · intro h
    refine ⟨h.message did pk leaf root hid rfl hpath, ?_⟩
    rintro rfl
    exact h.signature did pk leaf hid rfl hpath
  · rintro ⟨hprintable, hsig⟩
    exact ⟨fun _ _ _ _ h ↦ (nomatch h), fun _ _ _ _ _ _ _ ↦ hprintable,
      fun _ _ _ _ h _ ↦ hsig (Option.some.inj h).symm⟩

theorem verdict (P : Platform) (pkg : RawPackage) (trusted : Option CodePoints) (fogPk : Bytes) :
    Verdict P pkg trusted fogPk (verifyRawPackage P pkg trusted fogPk) := by
  unfold verifyRawPackage
  cases hpk : fromhexCodes pkg.publicKey with
  | error e =>
    obtain ⟨msg, rfl⟩ := fromhexCodes_error hpk
    refine verdict_of_identity (fun did pk leaf hid ↦ ?_) rfl rfl
    cases hpk.symm.trans hid.key
  | ok pk =>
  simp only [Except.bind]
  cases hleaf : rawLeafHash P pkg.did pk with
  | error e =>
    obtain ⟨msg, rfl⟩ := rawLeafHash_error hleaf
    refine verdict_of_identity (fun did pk leaf hid ↦ ?_) rfl rfl
    cases hpk.symm.trans hid.key
    rw [hid.did_eq, rawLeafHash_ofString, hid.leaf_ok] at hleaf
    cases hleaf
  | ok leaf =>
  obtain ⟨did, hdid, hleaf⟩ := rawLeafHash_ok hleaf
  dsimp only
  split_ifs with heq
  · refine verdict_of_identity (fun did' pk' leaf' hid ↦ heq ?_) rfl rfl
    obtain rfl := CodePoints.ofString_injective (hdid.symm.trans hid.did_eq)
    cases hpk.symm.trans hid.key
    cases hleaf.symm.trans hid.leaf_ok
    exact hid.leaf_eq.symm
  rw [not_not] at heq
  have hid : IdentityStands P pkg did pk leaf := ⟨hdid, hpk, hleaf, heq.symm⟩
  cases trusted with
  | none =>
    dsimp only
    cases hprinted : strOfInt pkg.epochId with
    | error e =>
      refine .raised fun h ↦ ?_
      cases hprinted.symm.trans (strOfInt_ok.mpr ⟨h.epoch did pk leaf hid rfl, rfl⟩)
    | ok epochId =>
      exact .named (.registry hid rfl rfl rfl) ⟨fun _ _ _ _ _ ↦ (strOfInt_ok.mp hprinted).1,
        fun _ _ _ _ _ h ↦ (nomatch h), fun _ _ _ _ h ↦ (nomatch h)⟩
  | some root =>
  dsimp only
  rw [reconstructRaw_eq]
  cases hsteps : pkg.proofPath.mapM pathStep? with
  | none =>
    refine verdict_of_path hid ?_ rfl rfl
    rintro ⟨steps, _, hsteps', -⟩
    cases hsteps.symm.trans hsteps'
  | some steps =>
  rw [Option.bind_some, reconstructRoot_leaf hleaf steps]
  cases hp : decodePath steps with
  | none =>
    refine verdict_of_path hid ?_ rfl rfl
    rintro ⟨steps', p, hsteps', hp', -⟩
    cases hsteps.symm.trans hsteps'
    cases hp.symm.trans hp'
  | some p =>
  simp only [Option.map_some]
  split
  case isTrue hroot =>
    refine verdict_of_path hid ?_ rfl rfl
    rintro ⟨steps', p', hsteps', hp', hroot'⟩
    cases hsteps.symm.trans hsteps'
    cases hp.symm.trans hp'
    exact hroot hroot'.symm
  case isFalse hroot =>
  rw [not_not] at hroot
  have hpath : PathLeads P pkg did pk root := ⟨steps, p, hsteps, hp, hroot.symm⟩
  have hprintable := message_iff_printable hid
  cases hmessage : rawPackageMessage P pkg with
  | error e =>
    refine .raised fun h ↦ ?_
    obtain ⟨message, hmessage'⟩ := hprintable.mpr ((legible_iff hid hpath).mp h).1
    cases hmessage.symm.trans hmessage'
  | ok message =>
  have hreads : Printable pkg := hprintable.mp ⟨message, hmessage⟩
  dsimp only
  split
  case isTrue hclaim =>
    exact .named (.signature hid rfl hpath (.inl hclaim) rfl rfl)
      ((legible_iff hid hpath).mpr ⟨hreads, fun h ↦ absurd h hclaim⟩)
  case isFalse hclaim =>
  rw [not_not] at hclaim
  subst hclaim
  cases hsig : fromhexCodes pkg.fogSignature with
  | error e =>
    refine .raised fun h ↦ ?_
    obtain ⟨sig, hsig'⟩ := ((legible_iff hid hpath).mp h).2 rfl
    cases hsig.symm.trans hsig'
  | ok sig =>
  have hlegible : Legible P pkg (some pkg.root) :=
    (legible_iff hid hpath).mpr ⟨hreads, fun _ ↦ ⟨sig, hsig⟩⟩
  dsimp only
  split_ifs with hvalid
  · exact .named (.passed hid rfl hpath ⟨message, sig, hmessage, hsig, hvalid⟩ rfl rfl) hlegible
  · refine .named (.signature hid rfl hpath (.inr ?_) rfl rfl) hlegible
    rintro ⟨message', sig', hmessage', hsig', hvalid'⟩
    cases hmessage.symm.trans hmessage'
    cases hsig.symm.trans hsig'
    exact hvalid hvalid'

/-- The verifier returns a result that names the rejecting component. -/
def ReturnsVerdict (P : Platform) (pkg : RawPackage) (trusted : Option CodePoints)
    (fogPk : Bytes) : Prop :=
  ∃ result, verifyRawPackage P pkg trusted fogPk = .ok result ∧
    NamesComponent P pkg trusted fogPk result

/-- A verdict is returned exactly where what is read outside the `try` can be read. -/
theorem verdict_returned_iff (P : Platform) (pkg : RawPackage) (trusted : Option CodePoints)
    (fogPk : Bytes) : ReturnsVerdict P pkg trusted fogPk ↔ Legible P pkg trusted := by
  have hverdict := verdict P pkg trusted fogPk
  unfold ReturnsVerdict
  generalize verifyRawPackage P pkg trusted fogPk = out at hverdict
  cases hverdict with
  | named h hlegible => exact ⟨fun _ ↦ hlegible, fun _ ↦ ⟨_, rfl, h⟩⟩
  | raised hnot =>
    refine iff_of_false ?_ hnot
    rintro ⟨result, h, -⟩
    cases h

/-- The package of the only device of an epoch, with a signature that is no hexadecimal text. -/
def garbledPackage : RawPackage :=
  let leaf := toHex (sha256 (leafInput "did:iiot:a" (List.replicate 33 2)))
  rawPackage ⟨"did:iiot:a", toHex (List.replicate 33 2), leaf, 1, leaf, [], "fog_A", "zz"⟩

theorem garbled_identity : IdentityStands plainPlatform garbledPackage "did:iiot:a"
    (List.replicate 33 2) (sha256 (leafInput "did:iiot:a" (List.replicate 33 2))) :=
  ⟨rfl, (fromhexCodes_ofString _).trans (fromhex_toHex _), leafHash_ok.mpr ⟨by decide, rfl, rfl⟩,
    rfl⟩

theorem garbled_path : PathLeads plainPlatform garbledPackage "did:iiot:a" (List.replicate 33 2)
    garbledPackage.root := ⟨[], [], rfl, rfl, rfl⟩

/-- The signature of an otherwise genuine package is garbled. -/
theorem garbled_signature_raises :
    ¬ ReturnsVerdict plainPlatform garbledPackage (some garbledPackage.root)
      (plainPlatform.publicBytes (plainKey 7)) := by
  rintro ⟨result, hresult, -⟩
  have hverdict := verdict plainPlatform garbledPackage (some garbledPackage.root)
    (plainPlatform.publicBytes (plainKey 7))
  rw [hresult] at hverdict
  generalize hout : Except.ok result = out at hverdict
  cases hverdict with
  | named _ hlegible =>
    obtain ⟨sig, hsig⟩ := ((legible_iff garbled_identity garbled_path).mp hlegible).2 rfl
    have hbad : fromhex "zz" = .error (.valueError
      "non-hexadecimal number found in fromhex() arg at position 0") := by decide
    have hzz : fromhexCodes garbledPackage.fogSignature = fromhex "zz" := fromhexCodes_ofString "zz"
    cases (hzz.trans hbad).symm.trans hsig
  | raised => cases hout

end FogNode.Proofs
