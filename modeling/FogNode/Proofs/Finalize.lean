import FogNode.Library.Lists
import FogNode.Proofs.Members
import FogNode.Proofs.MerkleRefinement

namespace FogNode.Proofs

open FogNode.Library FogNode.Source

variable {P : Platform} {node : Node P}

/-- The ledger in memory once a block is appended, whether or not it is saved. -/
def appended (ledger : Ledger) (block : Block) : Ledger :=
  { ledger with
    blocks := ledger.blocks ++ [block]
    rootCache := ledger.rootCache.set block.epochId block.root }

def saved (ledger : Ledger) : Ledger := { ledger with file := some ledger.blocks }

/-- The block that anchors a tree at the current epoch. -/
def anchorBlock (node : Node P) (env : Env) (fog : Fog) (tree : MerkleTree) : Block :=
  fog.ledger.nextBlock P node.signingKey node.fogId env.coins env.timestamp
    fog.epochs.currentEpochId tree.rootHex tree.size

def alreadyAnchored (epochId : ℤ) : PyError :=
  .ledgerError s!"epoch {epochId} is already anchored (epochs are immutable)"

theorem anchorRoot_anchored (node : Node P) (env : Env) {fog : Fog} (tree : MerkleTree)
    (h : (fog.ledger.getRoot fog.epochs.currentEpochId).isSome) :
    fog.ledger.anchorRoot P node.signingKey node.fogId env.coins env.timestamp env.disk
        fog.epochs.currentEpochId tree.rootHex tree.size =
      (.error (alreadyAnchored fog.epochs.currentEpochId), fog.ledger, []) :=
  if_pos h

theorem anchorRoot_new (node : Node P) (env : Env) {fog : Fog} {tree : MerkleTree}
    (h : fog.ledger.getRoot fog.epochs.currentEpochId = none) (hlen : tree.root.length = 32) :
    fog.ledger.anchorRoot P node.signingKey node.fogId env.coins env.timestamp env.disk
        fog.epochs.currentEpochId tree.rootHex tree.size =
      match env.disk with
      | some fault => (.error fault.error, appended fog.ledger (anchorBlock node env fog tree),
          [canonicalJson P (anchorBlock node env fog tree).body])
      | none => (.ok (anchorBlock node env fog tree),
          saved (appended fog.ledger (anchorBlock node env fog tree)),
          [canonicalJson P (anchorBlock node env fog tree).body]) := by
  have hcache : (fog.ledger.rootCache.get? fog.epochs.currentEpochId).isSome = false := by
    simpa [Ledger.getRoot] using h
  simp only [Ledger.anchorRoot, hcache, Bool.false_eq_true, if_false, MerkleTree.rootHex,
    fromhex_toHex, hlen, ne_eq, not_true_eq_false]
  cases env.disk <;> rfl

theorem mapM_ofPathStep {path : List PathStep} (h : ∀ s ∈ path, s.side = "L" ∨ s.side = "R") :
    ∃ steps, path.mapM ProofStep.ofPathStep = .ok steps ∧
      steps.map ProofStep.modelDump = path := by
  induction path with
  | nil => exact ⟨[], rfl, rfl⟩
  | cons s path ih =>
    obtain ⟨steps, hsteps, hmap⟩ := ih fun t ht ↦ h t (List.mem_cons_of_mem _ ht)
    have hs : ∃ step, ProofStep.ofPathStep s = .ok step ∧ step.modelDump = s := by
      obtain ⟨sibling, side⟩ := s
      rcases h _ List.mem_cons_self with rfl | rfl
      · exact ⟨_, rfl, rfl⟩
      · exact ⟨_, rfl, rfl⟩
    obtain ⟨step, hstep, hdump⟩ := hs
    refine ⟨step :: steps, ?_, by rw [List.map_cons, hdump, hmap]⟩
    rw [List.mapM_cons, hstep, hsteps]
    rfl

/-- What a package says of a member of an epoch. -/
structure PackageOf (node : Node P) (epochId : ℤ) (tree : MerkleTree) (e : PendingEntry)
    (pkg : ProofPackage) : Prop where
  did_eq : pkg.did = e.did
  key_eq : pkg.publicKey = e.publicKey
  leaf_eq : pkg.leaf = toHex e.leaf
  epoch_eq : pkg.epochId = epochId
  root_eq : pkg.root = tree.rootHex
  fog_eq : pkg.fogId = node.fogId
  path : tree.getProof e.leaf = .ok (pkg.proofPath.map ProofStep.modelDump)
  signature : ∃ coins, pkg.fogSignature = toHex (sign P node.signingKey coins (pkg.message P))

section

variable (node) {β : Type} {hash : β → Digest} {pair : Digest → Digest → β}

theorem buildProofPackage_ok {tree : MerkleTree} (b : Built hash pair tree) (e : PendingEntry)
    (he : e.leaf ∈ tree.leaves) (epochId : ℤ) (coins : ℕ) :
    ∃ pkg, buildProofPackage P e.did e.publicKey e.leaf tree epochId node.fogId node.signingKey
      coins = .ok pkg ∧ PackageOf node epochId tree e pkg := by
  obtain ⟨i, x, hleaf, hx⟩ := b.mem_leaves he
  have hproof := b.getProof_eq hx
  rw [← hleaf] at hproof
  have hsides : ∀ s ∈ (siblings b.levels.dropLast i).map encodeStep,
      s.side = "L" ∨ s.side = "R" := by
    rintro s hs
    obtain ⟨⟨d, side⟩, -, rfl⟩ := List.mem_map.mp hs
    cases side
    · exact .inl rfl
    · exact .inr rfl
  obtain ⟨steps, hsteps, hmap⟩ := mapM_ofPathStep hsides
  simp only [buildProofPackage, hproof, hsteps]
  exact ⟨_, rfl, ⟨rfl, rfl, rfl, rfl, rfl, rfl, by rw [hproof, hmap], coins, rfl⟩⟩

theorem buildPackages_ok {tree : MerkleTree} (b : Built hash pair tree)
    (byLeaf : Dict Bytes PendingEntry) (epochId : ℤ) (coins : ℕ) (leaves : List Bytes)
    (h : ∀ leaf ∈ leaves, leaf ∈ tree.leaves ∧
      ∃ e, byLeaf.get? leaf = some e ∧ e.leaf = leaf) :
    ∃ pkgs, buildPackages node tree epochId coins byLeaf leaves = (pkgs, none) ∧
      List.Forall₂ (fun leaf pkg ↦ ∃ e, byLeaf.get? leaf = some e ∧ e.leaf = leaf ∧
        PackageOf node epochId tree e pkg) leaves pkgs := by
  induction leaves with
  | nil => exact ⟨[], rfl, .nil⟩
  | cons leaf leaves ih =>
    obtain ⟨pkgs, hpkgs, hall⟩ := ih fun l hl ↦ h l (List.mem_cons_of_mem _ hl)
    obtain ⟨hmem, e, he, rfl⟩ := h leaf List.mem_cons_self
    obtain ⟨pkg, hpkg, hof⟩ := buildProofPackage_ok node b e hmem epochId coins
    simp only [buildPackages, he, hpkg, hpkgs]
    exact ⟨_, rfl, .cons ⟨e, he, rfl, hof⟩ hall⟩

end

/-- The leaf bytes that the text of a package stands for. -/
def leafOf (pkg : ProofPackage) : Bytes :=
  match fromhex pkg.leaf with
  | .ok bytes => bytes
  | .error _ => []

theorem PackageOf.leafOf_eq {epochId : ℤ} {tree : MerkleTree} {e : PendingEntry}
    {pkg : ProofPackage} (h : PackageOf node epochId tree e pkg) : leafOf pkg = e.leaf := by
  simp [leafOf, h.leaf_eq]

/-- The packages of an epoch: one for each member, over one tree of their leaves. -/
structure PackagesOf (node : Node P) (epochId : ℤ) (members : Batch) (tree : MerkleTree)
    (pkgs : PackageSet) : Prop where
  tree_eq : MerkleTree.init (nodeHash P) (pkgs.values.map leafOf) false = .ok tree
  leaves_eq : tree.leaves = pkgs.values.map leafOf
  sound : ∀ pkg ∈ pkgs.values, ∃ e ∈ members.values, PackageOf node epochId tree e pkg
  complete : ∀ e ∈ members.values, ∃ pkg ∈ pkgs.values, PackageOf node epochId tree e pkg

def sortedLeaves (members : Batch) : List Bytes :=
  sortBytes (members.values.map PendingEntry.leaf)

theorem sortedLeaves_perm (members : Batch) :
    (sortedLeaves members).Perm (members.values.map PendingEntry.leaf) := sortBytes_perm _

theorem get?_byLeaf {members : Batch} (hnd : (sortedLeaves members).Nodup) {leaf : Bytes}
    {e : PendingEntry} :
    (Dict.ofList (members.values.map fun e ↦ (e.leaf, e))).get? leaf = some e ↔
      e ∈ members.values ∧ e.leaf = leaf := by
  have hkeys : ((members.values.map fun e ↦ (e.leaf, e)).map Prod.fst).Nodup := by
    rw [List.map_map]
    exact (sortedLeaves_perm members).nodup_iff.mp hnd
  rw [Dict.get?_ofList hkeys]
  constructor
  · intro h
    obtain ⟨e', he', heq⟩ := List.mem_map.mp (Dict.mem_of_lookup h)
    cases heq
    exact ⟨he', rfl⟩
  · rintro ⟨he, rfl⟩
    exact Dict.lookup_of_mem hkeys (List.mem_map.mpr ⟨e, he, rfl⟩)

/-- The reported view of the leaves lists the packages in their order. -/
theorem sortedView_eq {byLeaf : Dict Bytes PendingEntry} {epochId : ℤ} {tree : MerkleTree}
    {leaves : List Bytes} {pkgs : List ProofPackage}
    (h : List.Forall₂ (fun leaf pkg ↦ ∃ e, byLeaf.get? leaf = some e ∧ e.leaf = leaf ∧
      PackageOf node epochId tree e pkg) leaves pkgs) (n : ℕ) :
    ((leaves.zipIdx n).filterMap fun (leaf, i) ↦
        (byLeaf.get? leaf).map fun e ↦ (i, toHex leaf, e.did)) =
      (pkgs.zipIdx n).map fun (pkg, i) ↦ (i, pkg.leaf, pkg.did) := by
  induction h generalizing n with
  | nil => rfl
  | cons hr _ ih =>
    obtain ⟨e, he, rfl, hof⟩ := hr
    simp only [List.zipIdx_cons, List.filterMap_cons, List.map_cons, he, Option.map_some, ih,
      hof.leaf_eq, hof.did_eq]

/-- Over the tree of the members no package fails, and the packages are those of
the members. -/
theorem packages_built (node : Node P) {members : Batch} {tree : MerkleTree} (epochId : ℤ)
    (coins : ℕ) (htree : MerkleTree.init (nodeHash P) (sortedLeaves members) false = .ok tree) :
    ∃ pkgs, buildPackages node tree epochId coins
        (Dict.ofList (members.values.map fun e ↦ (e.leaf, e))) tree.leaves = (pkgs, none) ∧
      (Table.addAll ∅ pkgs : PackageSet).values = pkgs ∧
      (tree.leaves.zipIdx.filterMap fun (leaf, i) ↦
        ((Dict.ofList (members.values.map fun e ↦ (e.leaf, e))).get? leaf).map fun e ↦
          (i, toHex leaf, e.did)) = pkgs.zipIdx.map (fun (pkg, i) ↦ (i, pkg.leaf, pkg.did)) ∧
      PackagesOf node epochId members tree (Table.addAll ∅ pkgs) := by
  obtain ⟨-, -, hnd, hleaves, ⟨b⟩⟩ := built_of_init (computes_nodeHash P) htree
  rw [if_neg Bool.false_ne_true] at hleaves
  have hmem : ∀ leaf, leaf ∈ tree.leaves ↔ ∃ e ∈ members.values, e.leaf = leaf := fun leaf ↦ by
    rw [hleaves, (sortedLeaves_perm members).mem_iff, List.mem_map]
  obtain ⟨pkgs, hpkgs, hall⟩ := buildPackages_ok node b
    (Dict.ofList (members.values.map fun e ↦ (e.leaf, e))) epochId coins tree.leaves
    fun leaf hleaf ↦ by
      obtain ⟨e, he, rfl⟩ := (hmem leaf).mp hleaf
      exact ⟨hleaf, e, (get?_byLeaf hnd).mpr ⟨he, rfl⟩, rfl⟩
  have hdids : (pkgs.map ProofPackage.did).Nodup := by
    refine nodup_map_of_forall₂ hall (hleaves ▸ hnd) ?_
    rintro a a' p p' ⟨e, he, rfl, hof⟩ ⟨e', he', rfl, hof'⟩ hdid
    have hm := Table.mem_values.mp ((get?_byLeaf hnd).mp he).1
    have hm' := Table.mem_values.mp ((get?_byLeaf hnd).mp he').1
    rw [← hof.did_eq, hdid, hof'.did_eq, hm'] at hm
    cases hm
    rfl
  have hvalues : (Table.addAll ∅ pkgs : PackageSet).values = pkgs :=
    Table.values_addAll hdids
  have hleafOf : pkgs.map leafOf = tree.leaves := by
    clear hpkgs hdids hvalues
    generalize tree.leaves = leaves at hall
    induction hall with
    | nil => rfl
    | cons hr _ ih =>
      obtain ⟨e, -, rfl, hof⟩ := hr
      rw [List.map_cons, hof.leafOf_eq, ih]
  refine ⟨pkgs, hpkgs, hvalues, sortedView_eq hall 0, ⟨?_, ?_, ?_, ?_⟩⟩
  · rw [hvalues, hleafOf, hleaves]
    exact htree
  · rw [hvalues, hleafOf]
  · rw [hvalues]
    intro pkg hpkg
    obtain ⟨leaf, -, e, he, -, hof⟩ := exists_left_of_forall₂ hall hpkg
    exact ⟨e, ((get?_byLeaf hnd).mp he).1, hof⟩
  · rw [hvalues]
    intro e he
    obtain ⟨pkg, hpkg, e', he', hleaf, hof⟩ :=
      exists_right_of_forall₂ hall ((hmem e.leaf).mpr ⟨e, he, rfl⟩)
    rw [(get?_byLeaf hnd).mpr ⟨he, rfl⟩] at he'
    cases he'
    exact ⟨pkg, hpkg, hof⟩

/-- The manager after an epoch is finalized with the given packages. -/
def nextManager (epochs : EpochManager) (pkgs : PackageSet) : EpochManager where
  currentEpochId := epochs.currentEpochId + 1
  pending := ∅
  packages := epochs.packages.set epochs.currentEpochId pkgs
  latestPackage := epochs.latestPackage.addAll pkgs.values
  activeDids := pkgs.keys

/-- The fog after an epoch is finalized with the given tree and packages. -/
def finalized (node : Node P) (env : Env) (fog : Fog) (tree : MerkleTree) (pkgs : PackageSet) :
    Fog :=
  let block := anchorBlock node env fog tree
  { fog with
    ledger := saved (appended fog.ledger block)
    devices := commitDevices fog.epochs.currentEpochId pkgs.values fog.devices
    epochs := nextManager fog.epochs pkgs
    signed := fog.signed ++ [canonicalJson P block.body] ++
      pkgs.values.map (ProofPackage.message P) }

/-- The fog after the block of an epoch is appended and then not saved. -/
def unsaved (node : Node P) (env : Env) (fog : Fog) (tree : MerkleTree) : Fog :=
  let block := anchorBlock node env fog tree
  { fog with
    ledger := appended fog.ledger block
    signed := fog.signed ++ [canonicalJson P block.body] }

/-- What is reported of the epoch that is closed. -/
structure Reports (node : Node P) (env : Env) (fog : Fog) (new carried : ℕ) (tree : MerkleTree)
    (pkgs : PackageSet) (result : EpochResult) : Prop where
  packages_eq : result.packages = pkgs
  epoch_eq : result.epochId = fog.epochs.currentEpochId
  root_eq : result.root = tree.rootHex
  block_eq : result.block = anchorBlock node env fog tree
  view_eq : result.sortedLeaves = pkgs.values.zipIdx.map fun (pkg, i) ↦ (i, pkg.leaf, pkg.did)
  new_eq : result.newDevices = new
  carried_eq : result.carriedForward = carried

/-- The ways in which finalizing an epoch can end. -/
inductive Finalizing (node : Node P) (env : Env) (excludeDids : List String) (fog : Fog) :
    Except PyError EpochResult → Fog → Prop
  | unreadable {e : PyError}
      (hm : collectMembers node fog (blockedDids fog.devices excludeDids) = .error e) :
      Finalizing node env excludeDids fog (.error e) fog
  | empty {members : Batch} {new carried : ℕ}
      (hm : collectMembers node fog (blockedDids fog.devices excludeDids) =
        .ok (members, new, carried))
      (he : members.values = []) :
      Finalizing node env excludeDids fog
        (.error (.epochError "nothing to finalize: the batch is empty")) fog
  | badLeaves {members : Batch} {new carried : ℕ} {e : PyError}
      (hm : collectMembers node fog (blockedDids fog.devices excludeDids) =
        .ok (members, new, carried))
      (he : members.values ≠ [])
      (ht : MerkleTree.init (nodeHash P) (sortedLeaves members) false = .error e) :
      Finalizing node env excludeDids fog (.error e) fog
  | anchored {members : Batch} {new carried : ℕ} {tree : MerkleTree}
      (hm : collectMembers node fog (blockedDids fog.devices excludeDids) =
        .ok (members, new, carried))
      (he : members.values ≠ [])
      (ht : MerkleTree.init (nodeHash P) (sortedLeaves members) false = .ok tree)
      (hr : (fog.ledger.getRoot fog.epochs.currentEpochId).isSome) :
      Finalizing node env excludeDids fog
        (.error (alreadyAnchored fog.epochs.currentEpochId)) fog
  | unsaved {members : Batch} {new carried : ℕ} {tree : MerkleTree} {fault : DiskFault}
      (hm : collectMembers node fog (blockedDids fog.devices excludeDids) =
        .ok (members, new, carried))
      (he : members.values ≠ [])
      (ht : MerkleTree.init (nodeHash P) (sortedLeaves members) false = .ok tree)
      (hr : fog.ledger.getRoot fog.epochs.currentEpochId = none)
      (hd : env.disk = some fault) :
      Finalizing node env excludeDids fog (.error fault.error) (unsaved node env fog tree)
  | closed {members : Batch} {new carried : ℕ} {tree : MerkleTree} {pkgs : PackageSet}
      {result : EpochResult}
      (hm : collectMembers node fog (blockedDids fog.devices excludeDids) =
        .ok (members, new, carried))
      (he : members.values ≠ [])
      (ht : MerkleTree.init (nodeHash P) (sortedLeaves members) false = .ok tree)
      (hr : fog.ledger.getRoot fog.epochs.currentEpochId = none)
      (hd : env.disk = none)
      (hp : PackagesOf node fog.epochs.currentEpochId members tree pkgs)
      (hresult : Reports node env fog new carried tree pkgs result) :
      Finalizing node env excludeDids fog (.ok result) (finalized node env fog tree pkgs)

theorem root_length {tree : MerkleTree} {leaves : List Bytes} {sort : Bool}
    (h : MerkleTree.init (nodeHash P) leaves sort = .ok tree) : tree.root.length = HASH_LEN := by
  obtain ⟨-, -, -, -, ⟨b⟩⟩ := built_of_init (computes_nodeHash P) h
  rw [b.root_eq]
  exact b.root.2

/-- `finalize_epoch` either leaves the fog as it was, or stops after the block is
appended because the ledger file cannot be written, or closes the epoch. -/
theorem finalizeEpoch_cases (node : Node P) (env : Env) (excludeDids : List String) (fog : Fog) :
    ∃ out fog', finalizeEpoch node env excludeDids fog = (out, fog') ∧
      Finalizing node env excludeDids fog out fog' := by
  cases hm : collectMembers node fog (blockedDids fog.devices excludeDids) with
  | error e => exact ⟨_, _, by simp only [finalizeEpoch, hm], .unreadable hm⟩
  | ok out =>
    obtain ⟨members, new, carried⟩ := out
    by_cases he : members.values = []
    · refine ⟨_, _, ?_, .empty hm he⟩
      simp only [finalizeEpoch, hm, if_pos (Table.values_eq_nil.mpr he)]
    have hclose : finalizeEpoch node env excludeDids fog =
        closeEpoch node env fog (blockedDids fog.devices excludeDids) members new carried := by
      simp only [finalizeEpoch, hm, if_neg (mt Table.values_eq_nil.mp he)]
    rw [hclose]
    cases ht : MerkleTree.init (nodeHash P) (sortedLeaves members) false with
    | error e =>
      refine ⟨_, _, ?_, .badLeaves hm he ht⟩
      rw [sortedLeaves] at ht
      simp only [closeEpoch, anchorEpoch, ht]
    | ok tree =>
      have ht' := ht
      rw [sortedLeaves] at ht'
      cases hr : fog.ledger.getRoot fog.epochs.currentEpochId with
      | some root =>
        have hsome : (fog.ledger.getRoot fog.epochs.currentEpochId).isSome := by rw [hr]; rfl
        refine ⟨_, _, ?_, .anchored hm he ht hsome⟩
        simp only [closeEpoch, anchorEpoch, ht', anchorRoot_anchored node env tree hsome,
          List.append_nil]
      | none =>
        have hanchor := anchorRoot_new node env hr (root_length ht)
        cases hd : env.disk with
        | some fault =>
          refine ⟨_, _, ?_, .unsaved hm he ht hr hd⟩
          simp only [hd] at hanchor
          simp only [closeEpoch, anchorEpoch, ht', hd, hanchor]
          rfl
        | none =>
          obtain ⟨pkgs, hpkgs, hvalues, hview, hof⟩ :=
            packages_built node fog.epochs.currentEpochId env.coins ht
          simp only [hd] at hanchor
          obtain ⟨result, hclosed, hresult⟩ : ∃ result,
              closeEpoch node env fog (blockedDids fog.devices excludeDids) members new carried =
                (.ok result, finalized node env fog tree (Table.addAll ∅ pkgs)) ∧
              Reports node env fog new carried tree (Table.addAll ∅ pkgs) result := by
            simp only [closeEpoch, anchorEpoch, ht', hd, hanchor, hpkgs]
            refine ⟨_, Prod.ext rfl ?_, ⟨rfl, rfl, rfl, rfl, ?_, rfl, rfl⟩⟩
            · simp only [finalized, recordEpoch, hvalues, nextManager]
            · rw [hvalues]
              exact hview
          exact ⟨_, _, hclosed, .closed hm he ht hr hd hof hresult⟩

end FogNode.Proofs
