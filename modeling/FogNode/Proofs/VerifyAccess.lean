import FogNode.Proofs.Nonces
import FogNode.Proofs.PackageVerification

namespace FogNode.Proofs

open FogNode.Library FogNode.Source

variable {P : Platform} {node : Node P} {fog : Fog} {pkg : ProofPackage}

/-- The decoded value is the epoch id; Python counts a boolean as an integer. -/
def ClaimsEpoch (epochId : ℤ) : Json → Prop
  | .int n => n = epochId
  | .bool b => (if b then 1 else 0) = epochId
  | _ => False

/-- The device with the key was a member of the epoch. -/
def MemberOf (fog : Fog) (epochId : ℤ) (did : String) (pk : Bytes) : Prop :=
  ∃ pkgs, fog.epochs.packages.get? epochId = some pkgs ∧
    ∃ q ∈ pkgs.values, q.did = did ∧ fromhex q.publicKey = .ok pk

/-- What is hashed for the leaves of the epoch and of the package. -/
def leafInputs (fog : Fog) (pkg : ProofPackage) : Set Bytes :=
  {b | b = idInput (identityOf pkg) ∨ ∃ pkgs, fog.epochs.packages.get? pkg.epochId = some pkgs ∧
    ∃ q ∈ pkgs.values, b = idInput (identityOf q)}

theorem claimsEpoch_of_trusted {ledger : Ledger} {j : Json} {root : String} {epochId : ℤ}
    (h : trustedRoot ledger j = some root) (hepoch : P.intField j = some epochId) :
    ClaimsEpoch epochId j := by
  cases j with
  | int n =>
    rw [P.intField_int] at hepoch
    exact Option.some.inj hepoch
  | bool b =>
    rw [P.intField_bool] at hepoch
    exact Option.some.inj hepoch
  | _ => cases h

/-- An accepted package is about a member of its epoch, under the key that the current
record of the device has. -/
theorem Inv.accepted_member (h : Inv node fog) (hheld : SignedFor P (Held fog) fog.signed)
    {trusted : Option String}
    (haccepted : Accepted P pkg trusted (publicKeyBytes P node.signingKey))
    (hunforged : Unforged node fog pkg) (hcol : NoCollision P (leafInputs fog pkg))
    {rec : DeviceRecord} (hrec : fog.devices.get? pkg.did = some rec) :
    ∃ pk, MemberOf fog pkg.epochId pkg.did pk ∧ fromhex pkg.publicKey = .ok pk ∧
      fromhex rec.publicKey = .ok pk := by
  obtain ⟨pk, leaf, p, sig, hc⟩ := checked_of_accepted haccepted
  obtain ⟨q, ⟨pkgs, hget, hq⟩, hsame⟩ := hheld pkg (hunforged ⟨sig, hc.hex, hc.valid⟩)
  obtain ⟨-, tree, hof, -⟩ := h.epochs.finalized _ pkgs hget
  obtain ⟨e, he, hpkg⟩ := hof.member q hq
  obtain ⟨hkey, hleaf, htext⟩ := hpkg.identity he
  rw [hsame.epoch_eq] at hget
  obtain rfl : e.leaf = leaf := by
    rw [← toHex_inj, ← htext, ← hc.leaf_eq, hsame.leaf_eq]
  have hid := identityOf_eq hc.key
  have hsameId : identityOf q = identityOf pkg := by
    refine identity_unique hcol hleaf ?_ (.inr ⟨pkgs, hget, q, hq, rfl⟩) (.inl rfl)
    rw [hid]
    exact hc.leaf_ok
  rw [hsameId, hid] at hkey
  obtain ⟨rec', hrec', -, hkey', -⟩ := h.epochs.committed _ pkgs hget q hq
  rw [hsame.did_eq, hrec] at hrec'
  cases hrec'
  exact ⟨pk, ⟨pkgs, hget, q, hq, hsame.did_eq, hkey⟩, hc.key, hkey'.symm.trans hkey⟩

theorem plain_epoch {epochId : ℤ} {j : Json} (h : ClaimsEpoch epochId j) : Plain (pyStr P j) := by
  cases j with
  | int n => exact plain_decimal n
  | bool b =>
    cases b with
    | false => exact (show Plain "False" by decide)
    | true => exact (show Plain "True" by decide)
  | _ => exact h.elim

/-- What is true of a request to `/verify` after the listed ones when it is allowed. -/
structure Authorized (node : Node P) (events : List Event) (e : Event) (body : VerifyRequest)
    (did : String) (rec : DeviceRecord) (pk : Bytes) (epochId : ℤ) (epoch : Json) : Prop where
  did_eq : Json.field "did" body.proofPackage = some (.str did)
  epoch_eq : Json.field "epoch_id" body.proofPackage = some epoch
  claims : ClaimsEpoch epochId epoch
  get : (after node Fog.init events).devices.get? did = some rec
  registered : rec.status = .registered
  key : fromhex rec.publicKey = .ok pk
  member : MemberOf (after node Fog.init events) epochId did pk
  signature : verify P pk
    (verifyMessage did (pyStr P epoch) body.nonce body.resource body.operation)
    (hexOrEmpty body.signature) = true
  exact : ∀ did' epoch' nonce' resource' operation',
    verifyMessage did (pyStr P epoch) body.nonce body.resource body.operation =
      verifyMessage did' epoch' nonce' resource' operation' →
    did = did' ∧ pyStr P epoch = epoch' ∧ body.nonce = nonce' ∧ body.resource = resource' ∧
      body.operation = operation'
  nonce : Fresh node events (.verifyNonce did) body.nonce e.env.now
  taken : Takes node (after node Fog.init events) e body.nonce
  role : ∃ deviceType role, rec.deviceType = some deviceType ∧ rec.role = some role ∧
    MayHold deviceType role ∧ MayPerform role body.operation body.resource

/-- What the package of a request that passes all checks says. -/
structure Stated (node : Node P) (events : List Event) (e : Event) (body : VerifyRequest)
    (pkg : ProofPackage) (pk : Bytes) (epoch : Json) : Prop where
  did_eq : Json.field "did" body.proofPackage = some (.str pkg.did)
  key_eq : Json.field "public_key" body.proofPackage = some (.str pkg.publicKey)
  key : fromhex pkg.publicKey = .ok pk
  epoch_eq : Json.field "epoch_id" body.proofPackage = some epoch
  claims : ClaimsEpoch pkg.epochId epoch
  signature : verify P pk
    (verifyMessage pkg.did (pyStr P epoch) body.nonce body.resource body.operation)
    (hexOrEmpty body.signature) = true
  exact : ∀ did' epoch' nonce' resource' operation',
    verifyMessage pkg.did (pyStr P epoch) body.nonce body.resource body.operation =
      verifyMessage did' epoch' nonce' resource' operation' →
    pkg.did = did' ∧ pyStr P epoch = epoch' ∧ body.nonce = nonce' ∧ body.resource = resource' ∧
      body.operation = operation'
  nonce : Fresh node events (.verifyNonce pkg.did) body.nonce e.env.now
  taken : Takes node (after node Fog.init events) e body.nonce

theorem Verified.stated {events : List Event} {e : Event} {body : VerifyRequest}
    {rec : DeviceRecord} (hv : Verified node e.env (after node Fog.init events) body pkg rec)
    (hreq : e.request = .verify body) (hdistinct : (issuedNonces node events).Nodup) :
    ∃ pk epoch, Stated node events e body pkg pk epoch := by
  obtain ⟨env, request⟩ := e
  dsimp only at hreq hv
  subst hreq
  have hinv : Inv node (after node Fog.init events) := inv_after events
  obtain ⟨hdid, hkeyField, hepoch⟩ := parse_ok hv.parsed
  obtain ⟨epoch, hfield, hint⟩ := Option.bind_eq_some_iff.mp hepoch
  obtain ⟨pk, leaf, p, sig, hc⟩ := checked_of_accepted hv.accepted
  have hclaims : ClaimsEpoch pkg.epochId epoch := by
    have htrusted := hc.trusted_eq
    rw [hfield, Option.getD_some] at htrusted
    exact claimsEpoch_of_trusted htrusted hint
  have hnonce := hv.nonce
  rw [hdid, Option.getD_some] at hnonce
  obtain ⟨text, entry, htext, haccepts, -⟩ := consume_ok hnonce
  obtain rfl : text = pkg.did := (Json.str.inj htext).symm
  obtain ⟨hresource, hoperation⟩ := plain_of_policy (mayPerform_of_policy hv.policy)
  have hsignature := hv.signature
  simp only [hfield, Option.getD_some, hexOrEmpty, hc.key] at hsignature
  refine ⟨pk, epoch, hdid, hkeyField, hc.key, hfield, hclaims, hsignature, fun _ _ _ _ _ ↦ ?_,
    haccepts.fresh hdistinct fun fog ↦ asks_verify fog, ?_⟩
  · exact verifyMessage_determines (hinv.plain_did hv.get) (plain_epoch hclaims)
      (nonce_plain haccepts.get) hresource hoperation
  · exact takes_of_consume hv.nonce (congrArg (fun fog : Fog ↦ fog.tokenState.nonces)
      (verifyAndAuthorize_nonces node env _ body))

/-- `/verify` answers ALLOW only to a registered member of the epoch it names, for one
fresh request that the device itself signed and that its role permits. -/
theorem verify_allows_only (node : Node P) (events : List Event) (e : Event)
    {body : VerifyRequest} (hreq : e.request = .verify body)
    (hdistinct : (issuedNonces node events).Nodup)
    (hsound : ∀ pkg, ProofPackage.parse P body.proofPackage = some pkg →
      Unforged node (after node Fog.init events) pkg ∧
        NoCollision P (leafInputs (after node Fog.init events) pkg))
    (hallow : (answer node (after node Fog.init events) e).Allows) :
    ∃ did rec pk epochId epoch, Authorized node events e body did rec pk epochId epoch := by
  rw [answer_verify hreq] at hallow
  obtain ⟨pkg, rec, hv⟩ := verify_allows hallow
  obtain ⟨pk, epoch, hs⟩ := hv.stated hreq hdistinct
  obtain ⟨hunforged, hcol⟩ := hsound pkg hv.parsed
  obtain ⟨pk', hmember, hpkgkey, hreckey⟩ := (inv_after events).accepted_member
    (signed_for_held events) hv.accepted hunforged hcol hv.get
  obtain rfl : pk = pk' := Except.ok.inj (hs.key.symm.trans hpkgkey)
  obtain ⟨deviceType, role, htype, hrole, hhold⟩ := mayHold_of_valid hv.role_valid
  have hpolicy : MayPerform role body.operation body.resource := by
    have h := mayPerform_of_policy hv.policy
    rwa [hrole, Option.getD_some] at h
  exact ⟨pkg.did, rec, pk, pkg.epochId, epoch, hs.did_eq, hs.epoch_eq, hs.claims, hv.get,
    hv.status_eq, hreckey, hmember, hs.signature, hs.exact, hs.nonce, hs.taken, deviceType, role,
    htype, hrole, hhold, hpolicy⟩

/-- A device is registered in the first epoch and asks for a nonce. -/
def memberRun : List Event :=
  registration (plainKey 7) 0 7 ++ [plainEvent 1 3 (.epochClose [] (some "admin")),
    plainEvent 2 5 (.verifyNonce (plainDid 7))]

/-- What `/epoch/proof` answers to the device. -/
def memberPackage : List (String × Json) :=
  match getProof (plainDid 7) none (after plainNode Fog.init memberRun) with
  | .ok body => body
  | _ => []

def memberRequest : VerifyRequest where
  proofPackage := memberPackage
  resource := "temperature_sensor"
  operation := "read"
  nonce := toHex (List.replicate 16 5)
  signature := signVerifyRequest (P := plainPlatform) (plainKey 7) 0 (plainDid 7) "1"
    (toHex (List.replicate 16 5)) "temperature_sensor" "read"

/-- What the device signs with `sign_verify_request` passes the check of its signature. -/
theorem signVerifyRequest_valid {key : P.PrivateKey} (hkey : SignsCorrectly P key) (coins : ℕ)
    (did epoch nonce resource operation : String) :
    verify P (hexOrEmpty (toHex (publicKeyBytes P key)))
      (verifyMessage did epoch nonce resource operation)
      (hexOrEmpty (signVerifyRequest key coins did epoch nonce resource operation)) = true := by
  simp only [hexOrEmpty, signVerifyRequest, fromhex_toHex]
  exact hkey coins _

theorem held_accepted (hkey : SignsCorrectly P node.signingKey) {events : List Event}
    {q : ProofPackage} (hq : Held (after node Fog.init events) q) :
    Accepted P q ((after node Fog.init events).ledger.getRoot q.epochId)
      (publicKeyBytes P node.signingKey) := by
  rw [← afterActions_requests] at hq ⊢
  obtain ⟨-, pkgs, tree, -, -, hmem, hof, hroot⟩ :=
    issued_epoch ⟨events.map .request, List.prefix_refl _, hq⟩
  rw [hroot]
  exact hof.accepts hmem ⟨⟨rfl, rfl, rfl, rfl, rfl⟩, rfl, rfl⟩ (hof.signed hmem hkey)

theorem memberRun_ready :
    (issuedNonces plainNode memberRun).Nodup ∧
      (NonceBook.consume (after plainNode Fog.init memberRun).tokenState.nonces 3
        VERIFY_NONCE_PURPOSE (.str (plainDid 7)) (toHex (List.replicate 16 5))).1 = .ok ∧
      (∃ rec ∈ (after plainNode Fog.init memberRun).devices.get? (plainDid 7),
        rec.status = .registered ∧ rec.deviceType = some "temperature_sensor" ∧
        rec.role = some "sensor") ∧
      (∃ pkg ∈ (after plainNode Fog.init memberRun).epochs.latestPackage.get? (plainDid 7),
        pkg.did = plainDid 7 ∧ pkg.epochId = 1 ∧
        pkg.publicKey = toHex (plainPlatform.publicBytes (plainKey 7))) ∧
      ∃ pkgs ∈ (after plainNode Fog.init memberRun).epochs.packages.get? 1, ∀ q ∈ pkgs.values,
        q.did = plainDid 7 ∧ q.publicKey = toHex (plainPlatform.publicBytes (plainKey 7)) := by
  decide +kernel

/-- What `/epoch/proof` answers for the latest package of a device. -/
theorem getProof_latest {did : String} {rec : DeviceRecord}
    (hrec : fog.devices.get? did = some rec) (hstatus : rec.status ≠ .revoked)
    (hpkg : fog.epochs.latestPackage.get? did = some pkg) :
    getProof did none fog = .ok pkg.modelDump := by
  simp only [getProof, DeviceStore.get, hrec, hstatus, EpochManager.getPackage, hpkg, if_false]

theorem memberRun_held : HeldOk plainPlatform (after plainNode Fog.init memberRun) := by
  rw [← afterActions_requests]
  exact held_after _

theorem memberRequest_package : memberRequest.proofPackage = memberPackage := by
  rw [memberRequest]

theorem memberPackage_held : ∃ pkg, Held (after plainNode Fog.init memberRun) pkg ∧
    memberRequest.proofPackage = pkg.modelDump ∧ pkg.did = plainDid 7 ∧ pkg.epochId = 1 ∧
    pkg.publicKey = toHex (plainPlatform.publicBytes (plainKey 7)) := by
  obtain ⟨-, -, ⟨rec, hrec, hstatus, -⟩, ⟨pkg, hpkg, hdid, hepoch, hkey⟩, -⟩ := memberRun_ready
  refine ⟨pkg, memberRun_held.latest _ pkg hpkg, memberRequest_package.trans ?_, hdid, hepoch,
    hkey⟩
  have hlive : rec.status ≠ .revoked := by
    rw [hstatus]
    decide
  unfold memberPackage
  rw [getProof_latest hrec hlive hpkg]

theorem memberRequest_verified (hheld : Held (after plainNode Fog.init memberRun) pkg)
    (hbody : memberRequest.proofPackage = pkg.modelDump) (hdid : pkg.did = plainDid 7)
    (hepoch : pkg.epochId = 1)
    (hkey : pkg.publicKey = toHex (plainPlatform.publicBytes (plainKey 7))) :
    ∃ rec, Verified plainNode (plainEnv 3 0 none) (after plainNode Fog.init memberRun)
      memberRequest pkg rec := by
  obtain ⟨-, hnonce, ⟨rec, hrec, hstatus, htype, hrole⟩, -, -⟩ := memberRun_ready
  have hdidField : Json.field "did" memberRequest.proofPackage = some (.str (plainDid 7)) := by
    rw [hbody, ← hdid]
    rfl
  have hepochField : Json.field "epoch_id" memberRequest.proofPackage = some (.int 1) := by
    rw [hbody, ← hepoch]
    rfl
  have htext : pyStr plainPlatform (.int 1) = "1" := by decide
  have haccepted := held_accepted (plain_signsCorrectly (plainKey 1)) hheld
  rw [hepoch] at haccepted
  refine ⟨rec, ?_, ?_, ?_, ?_, ?_, hstatus, ?_, ?_⟩
  · rw [hdidField]
    exact hnonce
  · rw [hbody]
    exact parse_modelDump pkg
  · rw [hepochField]
    exact haccepted
  · rw [hepochField, Option.getD_some, htext, hkey, hdid]
    exact signVerifyRequest_valid (plain_signsCorrectly (plainKey 7)) 0 _ _ _ _ _
  · rw [hdid]
    exact hrec
  · rw [htype, hrole]
    decide
  · rw [hrole]
    decide

/-- The device reads its own sensor. -/
theorem verify_allows_only_member :
    ∃ did rec pk epochId epoch, Authorized plainNode memberRun
      (plainEvent 3 0 (.verify memberRequest)) memberRequest did rec pk epochId epoch := by
  obtain ⟨hdistinct, -, -, -, pkgs, hget, honly⟩ := memberRun_ready
  obtain ⟨pkg, hheld, hbody, hdid, hepoch, hkey⟩ := memberPackage_held
  obtain ⟨rec, hverified⟩ := memberRequest_verified hheld hbody hdid hepoch hkey
  have hallow : (answer plainNode (after plainNode Fog.init memberRun)
      (plainEvent 3 0 (.verify memberRequest))).Allows := by
    rw [answer_verify rfl]
    exact hverified.allows
  refine verify_allows_only plainNode memberRun (plainEvent 3 0 (.verify memberRequest)) rfl
    hdistinct (fun pkg' hparse ↦ ?_) hallow
  rw [hverified.parsed] at hparse
  cases hparse
  refine ⟨fun _ ↦ memberRun_held.signed pkg hheld, ?_⟩
  have hone : ∀ b ∈ leafInputs (after plainNode Fog.init memberRun) pkg,
      b = idInput (identityOf pkg) := by
    rintro b (rfl | ⟨pkgs', hget', q, hq, rfl⟩)
    · rfl
    · rw [hepoch, Option.mem_def.mp hget] at hget'
      cases hget'
      obtain ⟨hqdid, hqkey⟩ := honly q hq
      rw [identityOf, identityOf, hqdid, hqkey, hdid, hkey]
  intro x hx y hy _
  rw [hone x hx, hone y hy]

end FogNode.Proofs
