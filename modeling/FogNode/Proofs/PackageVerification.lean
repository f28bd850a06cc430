import FogNode.Proofs.Identities
import FogNode.Proofs.Issued
import Mathlib.Data.List.Infix

namespace FogNode.Proofs

open FogNode.Library FogNode.Source

variable {P : Platform} {node : Node P} {q pkg : ProofPackage}

/-- The steps of a package as the Merkle verifier reads them. -/
def pathOf (pkg : ProofPackage) : List PathStep := pkg.proofPath.map ProofStep.modelDump

/-- What has been computed and compared when a package is accepted. -/
structure Checked (P : Platform) (pkg : ProofPackage) (trusted : Option String)
    (fogPk pk leaf : Bytes) (p : List (Digest × Side)) (sig : Bytes) : Prop where
  key : fromhex pkg.publicKey = .ok pk
  leaf_ok : leafHash P pkg.did pk = .ok leaf
  leaf_eq : pkg.leaf = toHex leaf
  path : decodePath (pathOf pkg) = some p
  trusted_eq : trusted =
    some (toHex (climb (shaDigest P) nodePair (shaDigest P (leafInput pkg.did pk)) p).1)
  root_eq : trusted = some pkg.root
  hex : fromhex pkg.fogSignature = .ok sig
  valid : verify P fogPk (pkg.message P) sig = true

theorem reconstructRoot_leaf {did : String} {pk leaf : Bytes} (h : leafHash P did pk = .ok leaf)
    (path : List PathStep) :
    MerkleTree.reconstructRoot (nodeHash P) (.hex (toHex leaf)) path =
      (decodePath path).map fun p ↦
        (climb (shaDigest P) nodePair (shaDigest P (leafInput did pk)) p).1 := by
  rw [(leafHash_ok.mp h).2.2]
  exact reconstructRoot_hex (computes_nodeHash P) (shaDigest P (leafInput did pk)) path

theorem Checked.accepted {trusted : Option String} {fogPk pk leaf sig : Bytes}
    {p : List (Digest × Side)} (h : Checked P pkg trusted fogPk pk leaf p sig) :
    Accepted P pkg trusted fogPk := by
  have hpath := reconstructRoot_leaf h.leaf_ok (pathOf pkg)
  rw [h.path, Option.map_some] at hpath
  have hroot := Option.some.inj (h.root_eq.symm.trans h.trusted_eq)
  refine ⟨⟨true, "membership proven for this epoch", "all checks passed", some (toHex leaf),
    trusted, trusted⟩, ?_, rfl⟩
  unfold verifyProofPackage
  rw [pathOf] at hpath
  simp only [h.key, Except.bind, h.leaf_ok, h.leaf_eq, h.trusted_eq, hpath, hroot, h.hex, h.valid,
    ne_eq, not_true_eq_false, if_false, if_true]

theorem checked_of_accepted {trusted : Option String} {fogPk : Bytes}
    (h : Accepted P pkg trusted fogPk) :
    ∃ pk leaf p sig, Checked P pkg trusted fogPk pk leaf p sig := by
  obtain ⟨result, hresult, hok⟩ := h
  unfold verifyProofPackage at hresult
  cases hpk : fromhex pkg.publicKey with
  | error e =>
    exfalso
    rw [hpk] at hresult
    cases e <;> cases hresult
    cases hok
  | ok pk =>
  simp only [hpk, Except.bind] at hresult
  cases hleaf : leafHash P pkg.did pk with
  | error e =>
    exfalso
    rw [hleaf] at hresult
    cases e <;> cases hresult
    cases hok
  | ok leaf =>
  simp only [hleaf] at hresult
  split_ifs at hresult with heq
  · cases hresult
    cases hok
  rw [not_not] at heq
  rw [show pkg.proofPath.map ProofStep.modelDump = pathOf pkg from rfl,
    reconstructRoot_leaf hleaf (pathOf pkg)] at hresult
  cases trusted with
  | none =>
    cases hresult
    cases hok
  | some trusted =>
  cases hp : decodePath (pathOf pkg) with
  | none =>
    rw [hp] at hresult
    cases hresult
    cases hok
  | some p =>
  simp only [hp, Option.map_some] at hresult
  split_ifs at hresult with hroot hclaim
  · cases hresult
    cases hok
  · cases hresult
    cases hok
  rw [not_not] at hroot hclaim
  cases hsig : fromhex pkg.fogSignature with
  | error e =>
    rw [hsig] at hresult
    cases hresult
  | ok sig =>
  simp only [hsig] at hresult
  split_ifs at hresult with hvalid
  · exact ⟨pk, leaf, p, sig, hpk, hleaf, heq.symm, hp, by rw [hroot], by rw [hclaim], hsig, hvalid⟩
  · cases hresult
    cases hok

/-- The package carries a valid signature of the fog. -/
def FogSigned (node : Node P) (pkg : ProofPackage) : Prop :=
  ∃ sig, fromhex pkg.fogSignature = .ok sig ∧
    verify P (publicKeyBytes P node.signingKey) (pkg.message P) sig = true

/-- That signature is no forgery. -/
def Unforged (node : Node P) (fog : Fog) (pkg : ProofPackage) : Prop :=
  FogSigned node pkg → pkg.message P ∈ fog.signed

/-- The packages say the same, whichever hexadecimal texts they say it with. -/
structure Agrees (q pkg : ProofPackage) : Prop extends SameClaim q pkg where
  key_eq : fromhex q.publicKey = fromhex pkg.publicKey
  path_eq : decodePath (pathOf q) = decodePath (pathOf pkg)

/-- What is hashed for the tree of an epoch. -/
def epochHashed (P : Platform) (pkgs : PackageSet) : List Bytes :=
  match MerkleTree.init (nodeHash P) (pkgs.values.map leafOf) false with
  | .ok tree => treeHashed (pkgs.values.map identityOf) tree
  | .error _ => []

/-- Only packages that agree with the issued one can be checked against it. -/
theorem EpochOf.agrees {epochId : ℤ} {pkgs : PackageSet} {tree : MerkleTree}
    (h : EpochOf node epochId pkgs tree) (hq : q ∈ pkgs.values) (hsame : SameClaim q pkg)
    {trusted : Option String} {fogPk pk leaf sig : Bytes} {p : List (Digest × Side)}
    (hc : Checked P pkg trusted fogPk pk leaf p sig)
    (hcol : NoCollision P {b | b ∈ epochHashed P pkgs ++
      pathHashed P (identityOf pkg) (pathOf pkg)}) : Agrees q pkg := by
  obtain ⟨e, he, hof⟩ := h.member q hq
  obtain ⟨hkey, hleafq, htext⟩ := hof.identity he
  obtain rfl : e.leaf = leaf := by
    rw [← toHex_inj, ← htext, ← hc.leaf_eq, hsame.leaf_eq]
  have hid := identityOf_eq hc.key
  have hleaf : leafHash P (identityOf pkg).1 (identityOf pkg).2 = .ok e.leaf := by
    rw [hid]
    exact hc.leaf_ok
  obtain ⟨-, -, -, -, ⟨b⟩⟩ := built_of_init (computes_nodeHash P) h.tree_eq
  rw [epochHashed, h.tree_eq] at hcol
  have hroot : climb (shaDigest P) nodePair (shaDigest P (leafInput pkg.did pk)) p = b.root := by
    apply Subtype.ext
    rw [← b.root_eq, ← toHex_inj]
    have htrusted := Option.some.inj (hc.trusted_eq.symm.trans hc.root_eq)
    rw [htrusted, ← hsame.root_eq, hof.root_eq, MerkleTree.rootHex]
  have hv : MerkleTree.verifyProof (nodeHash P) (.bytes e.leaf) (pathOf pkg)
      (.bytes tree.root) = true := by
    rw [b.root_eq, leafHash_idInput hc.leaf_ok]
    exact (verifyProof_raw (computes_nodeHash P) _ _ _).mpr ⟨p, hc.path, hroot⟩
  have hqin : idInput (identityOf q) ∈ treeHashed (pkgs.values.map identityOf) tree :=
    List.mem_append_left _ (List.mem_map_of_mem (List.mem_map_of_mem hq))
  have hpkgin : idInput (identityOf pkg) ∈ pathHashed P (identityOf pkg) (pathOf pkg) :=
    List.mem_cons_self
  rcases b.path_sound h.identities (identityOf pkg) hleaf hv with
    ⟨-, -, honest, hhonest, hdecode, -⟩ | ⟨x, hx, y, hy, hne, he⟩
  · have hkeys := congrArg Prod.snd (identity_unique hcol hleafq hleaf
      (List.mem_append_left _ hqin) (List.mem_append_right _ hpkgin))
    refine ⟨hsame, ?_, ?_⟩
    · rw [hkey, hc.key, hkeys, hid]
    · have hpath := hof.path
      rw [hhonest] at hpath
      cases hpath
      exact hdecode.symm
  · exact absurd (hcol (List.mem_append_left _ hx) (List.mem_append_right _ hy) he) hne

/-- Whatever agrees with an issued package and is signed is accepted. -/
theorem EpochOf.accepts {epochId : ℤ} {pkgs : PackageSet} {tree : MerkleTree}
    (h : EpochOf node epochId pkgs tree) (hq : q ∈ pkgs.values) (hagree : Agrees q pkg)
    (hsigned : FogSigned node pkg) :
    Accepted P pkg (some q.root) (publicKeyBytes P node.signingKey) := by
  obtain ⟨e, he, hof⟩ := h.member q hq
  obtain ⟨hkey, hleaf, htext⟩ := hof.identity he
  obtain ⟨sig, hhex, hvalid⟩ := hsigned
  obtain ⟨-, -, -, -, ⟨b⟩⟩ := built_of_init (computes_nodeHash P) h.tree_eq
  have hin : e.leaf ∈ tree.leaves := by
    rw [h.leaves_eq, ← hof.leafOf_eq]
    exact List.mem_map_of_mem hq
  obtain ⟨path, hpath, -, hv⟩ := b.honest_proof (computes_nodeHash P) hin
  rw [hof.path] at hpath
  cases hpath
  rw [b.root_eq, leafHash_idInput hleaf, verifyProof_raw (computes_nodeHash P)] at hv
  obtain ⟨p, hp, hroot⟩ := hv
  refine Checked.accepted ⟨hagree.key_eq ▸ hkey, ?_, hagree.leaf_eq ▸ htext,
    hagree.path_eq ▸ hp, ?_, by rw [hagree.root_eq], hhex, hvalid⟩
  · rw [← hagree.did_eq]
    exact hleaf
  · rw [hof.root_eq, MerkleTree.rootHex, b.root_eq, ← hroot, ← hagree.did_eq]
    rfl

theorem EpochOf.signed {epochId : ℤ} {pkgs : PackageSet} {tree : MerkleTree}
    (h : EpochOf node epochId pkgs tree) (hq : q ∈ pkgs.values)
    (hkey : SignsCorrectly P node.signingKey) : FogSigned node q := by
  obtain ⟨e, -, hof⟩ := h.member q hq
  obtain ⟨coins, hsig⟩ := hof.signature
  exact ⟨_, by rw [hsig, fromhex_toHex], hkey coins _⟩

/-- The verifier accepts the package in the state after the run. -/
def AcceptedAfter (node : Node P) (actions : List Action) (pkg : ProofPackage) : Prop :=
  Accepted P pkg ((afterActions node Fog.init actions).ledger.getRoot pkg.epochId)
    (publicKeyBytes P node.signingKey)

/-- Nothing hashed for the epoch of the package collides with anything else hashed for
it or for the package. -/
def CollisionFree (node : Node P) (actions : List Action) (pkg : ProofPackage) : Prop :=
  ∀ earlier, earlier <+: actions → ∀ pkgs,
    (afterActions node Fog.init earlier).epochs.packages.get? pkg.epochId = some pkgs →
    NoCollision P {b | b ∈ epochHashed P pkgs ++ pathHashed P (identityOf pkg) (pathOf pkg)}

/-- A package is accepted exactly when one that agrees with it was issued, for ever,
and for its own epoch only. -/
theorem accepted_iff_issued (node : Node P) (hkey : SignsCorrectly P node.signingKey)
    (actions : List Action) :
    (∀ pkg, Unforged node (afterActions node Fog.init actions) pkg →
      CollisionFree node actions pkg →
      (AcceptedAfter node actions pkg ↔
        (∃ q, Issued node actions q ∧ Agrees q pkg) ∧ FogSigned node pkg)) ∧
    (∀ q, Issued node actions q → ∀ later, AcceptedAfter node (actions ++ later) q) ∧
    (∀ pkg later epochId, (∀ sig, fromhex pkg.fogSignature = .ok sig →
        Binds P (publicKeyBytes P node.signingKey) sig
          (ProofPackage.message P { pkg with epochId := epochId }) (pkg.message P)) →
      AcceptedAfter node actions pkg →
      AcceptedAfter node (actions ++ later) { pkg with epochId := epochId } →
        epochId = pkg.epochId) := by
  refine ⟨fun pkg hunforged hcol ↦ ⟨?_, ?_⟩, ?_, ?_⟩
  · intro h
    obtain ⟨pk, leaf, p, sig, hc⟩ := checked_of_accepted h
    have hsigned : FogSigned node pkg := ⟨sig, hc.hex, hc.valid⟩
    obtain ⟨q, hq, hsame⟩ := signed_for_issued actions pkg (hunforged hsigned)
    obtain ⟨earlier, pkgs, tree, hpre, hget, hmem, hof, -⟩ := issued_epoch hq
    rw [hsame.epoch_eq] at hget
    exact ⟨⟨q, hq, hof.agrees hmem hsame hc (hcol earlier hpre pkgs hget)⟩, hsigned⟩
  · rintro ⟨⟨q, hq, hagree⟩, hsigned⟩
    obtain ⟨-, pkgs, tree, -, -, hmem, hof, hroot⟩ := issued_epoch hq
    rw [AcceptedAfter, ← hagree.epoch_eq, hroot]
    exact hof.accepts hmem hagree hsigned
  · intro q hq later
    obtain ⟨-, pkgs, tree, -, -, hmem, hof, hroot⟩ :=
      issued_epoch (hq.mono (List.prefix_append actions later))
    rw [AcceptedAfter, hroot]
    exact hof.accepts hmem ⟨⟨rfl, rfl, rfl, rfl, rfl⟩, rfl, rfl⟩ (hof.signed hmem hkey)
  · intro pkg later epochId hbinds h h'
    obtain ⟨_, _, _, sig, hc⟩ := checked_of_accepted h
    obtain ⟨_, _, _, sig', hc'⟩ := checked_of_accepted h'
    obtain rfl : sig = sig' := Except.ok.inj (hc.hex.symm.trans hc'.hex)
    exact (message_eq_iff.mp (hbinds sig hc.hex hc'.valid hc.valid)).epoch_eq

/-- One device is registered. -/
def firstDevice : List Action := (registration (plainKey 7) 0 7).map .request

/-- And the first epoch is closed. -/
def firstEpoch : List Action :=
  firstDevice ++ [.request (plainEvent 1 9 (.epochClose [] (some "admin")))]

/-- Two devices are registered. -/
def pairDevices : List Action :=
  (registration (plainKey 7) 0 7 ++ registration (plainKey 8) 0 8).map .request

/-- And their epoch is closed. -/
def pairEpoch : List Action :=
  pairDevices ++ [.request (plainEvent 1 9 (.epochClose [] (some "admin")))]

theorem pairEpoch_packages :
    ∃ pkgs ∈ (afterActions plainNode Fog.init pairEpoch).epochs.packages.get? 1,
      ∃ pkg ∈ pkgs.values, pkg.epochId = 1 ∧ pkg.proofPath ≠ [] ∧
        findCollision plainPlatform (epochHashed plainPlatform pkgs ++
          pathHashed plainPlatform (identityOf pkg) (pathOf pkg)) = none := by
  decide +kernel

theorem pairDevices_packages : ∀ earlier ∈ pairDevices.inits,
    (afterActions plainNode Fog.init earlier).epochs.packages.get? 1 = none := by
  decide +kernel

/-- A package of two devices, whose path has a step. -/
theorem accepted_iff_issued_first :
    ∃ pkg, pkg.proofPath ≠ [] ∧ (AcceptedAfter plainNode pairEpoch pkg ↔
        (∃ q, Issued plainNode pairEpoch q ∧ Agrees q pkg) ∧ FogSigned plainNode pkg) ∧
      (∀ later, AcceptedAfter plainNode (pairEpoch ++ later) pkg) ∧
      ∀ later epochId, AcceptedAfter plainNode (pairEpoch ++ later)
        { pkg with epochId := epochId } → epochId = pkg.epochId := by
  obtain ⟨hiff, hever, hown⟩ :=
    accepted_iff_issued plainNode (plain_signsCorrectly (plainKey 1)) pairEpoch
  obtain ⟨pkgs, hget, pkg, hpkg, hid, hsteps, hfind⟩ := pairEpoch_packages
  have hheld : Held (afterActions plainNode Fog.init pairEpoch) pkg :=
    ⟨pkgs, hid ▸ hget, hpkg⟩
  have hissued : Issued plainNode pairEpoch pkg := ⟨pairEpoch, List.prefix_refl _, hheld⟩
  have hsigned := (held_after pairEpoch).signed pkg hheld
  have hcol : CollisionFree plainNode pairEpoch pkg := by
    intro earlier hpre pkgs' hget'
    rw [hid] at hget'
    rcases List.prefix_concat_iff.mp hpre with heq | hpre
    · rw [show earlier = pairEpoch from heq, Option.mem_def.mp hget] at hget'
      cases hget'
      exact noCollision_of_find hfind
    · rw [pairDevices_packages earlier ((List.mem_inits _ _).mpr hpre)] at hget'
      cases hget'
  have haccepted := hever pkg hissued []
  rw [List.append_nil] at haccepted
  exact ⟨pkg, hsteps, hiff pkg (fun _ ↦ hsigned) hcol, hever pkg hissued,
    fun later epochId ↦ hown pkg later epochId (fun sig _ ↦ plain_binds _ sig _ _) haccepted⟩

end FogNode.Proofs
