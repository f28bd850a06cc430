import FogNode.Library.TowerRoot
import FogNode.Proofs.MerkleSoundness

namespace FogNode.Proofs

open FogNode.Library FogNode.Source

variable {P : Platform}

/-- The leaves are the leaf hashes of the identities. -/
abbrev LeavesOf (P : Platform) (ids : List Identity) (leaves : List Bytes) : Prop :=
  List.Forall₂ (fun id leaf ↦ leafHash P id.1 id.2 = .ok leaf) ids leaves

/-- Two different inputs with one digest can be read off the two trees. -/
def Collides (P : Platform) (ids : List Identity) (tree : MerkleTree) (ids' : List Identity)
    (tree' : MerkleTree) : Prop :=
  ∃ x y, findCollision P (treeHashed ids tree ++ treeHashed ids' tree') = some (x, y) ∧
    x ≠ y ∧ P.sha256 x = P.sha256 y

theorem collides_of_mem {ids ids' : List Identity} {tree tree' : MerkleTree} {x y : Bytes}
    (hx : x ∈ treeHashed ids tree ++ treeHashed ids' tree')
    (hy : y ∈ treeHashed ids tree ++ treeHashed ids' tree') (hne : x ≠ y)
    (he : P.sha256 x = P.sha256 y) : Collides P ids tree ids' tree' :=
  exists_findCollision hx hy hne he

section

variable {ids : List Identity} {tree : MerkleTree} (b : Built (shaDigest P) nodePair tree)

theorem Built.mem_treeHashed {c : Bytes} (h : c ∈ towerInputs nodePair b.levels) :
    c ∈ treeHashed ids tree := by
  rw [treeHashed, b.levels_eq, towerInputs_raw]
  exact List.mem_append_right _ h

/-- A leaf hash that is an inner node of a tree collides with it. -/
theorem Built.leaf_inside (ids' : List Identity) {tree' : MerkleTree}
    (b' : Built (shaDigest P) nodePair tree')
    (hids : ∀ leaf ∈ tree.leaves, ∃ id ∈ ids, leafHash P id.1 id.2 = .ok leaf)
    (h : LeafInside (shaDigest P) nodePair b.leaves b'.levels) :
    ∃ x ∈ treeHashed ids tree, ∃ y ∈ treeHashed ids' tree', x ≠ y ∧ P.sha256 x = P.sha256 y := by
  obtain ⟨leaf, hleaf, c, hc, hhash⟩ := h
  have hmem : leaf.1 ∈ tree.leaves := by
    rw [b.leaves_eq]
    exact List.mem_map_of_mem hleaf
  obtain ⟨id, hid, hid'⟩ := hids _ hmem
  obtain ⟨u, v, rfl⟩ := exists_of_mem_towerInputs hc
  refine ⟨idInput id, List.mem_append_left _ (List.mem_map_of_mem hid), nodePair u v,
    b'.mem_treeHashed hc, leafInput_ne_nodeInput _ _ _ _, ?_⟩
  rw [← show P.sha256 (nodePair u v) = leaf.1 from congrArg Subtype.val hhash] at hid'
  exact (leafHash_ok.mp hid').2.2.symm

end

theorem Built.root_of_leaves {tree tree' : MerkleTree} (b : Built (shaDigest P) nodePair tree)
    (b' : Built (shaDigest P) nodePair tree') (h : tree.leaves = tree'.leaves) :
    tree.root = tree'.root := by
  have hleaves : b.leaves = b'.leaves := by
    apply raw_injective
    rw [← b.leaves_eq, ← b'.leaves_eq, h]
  rw [b.root_eq, b'.root_eq, (b.tower.root_unique (hleaves ▸ b'.tower)).2]

/-- Trees over leaf hashes with one root hold the same leaves in the same order. -/
theorem Built.leaves_or_collides {ids ids' : List Identity} {tree tree' : MerkleTree}
    (b : Built (shaDigest P) nodePair tree) (b' : Built (shaDigest P) nodePair tree')
    (hids : ∀ leaf ∈ tree.leaves, ∃ id ∈ ids, leafHash P id.1 id.2 = .ok leaf)
    (hids' : ∀ leaf ∈ tree'.leaves, ∃ id ∈ ids', leafHash P id.1 id.2 = .ok leaf)
    (hroot : tree.root = tree'.root) :
    tree.leaves = tree'.leaves ∨ Collides P ids tree ids' tree' := by
  have hr : b.root = b'.root := by
    apply Subtype.ext
    rw [← b.root_eq, ← b'.root_eq, hroot]
  have hcollides : ∀ x ∈ treeHashed ids tree, ∀ y ∈ treeHashed ids' tree', x ≠ y →
      P.sha256 x = P.sha256 y → Collides P ids tree ids' tree' := fun x hx y hy ↦
    collides_of_mem (List.mem_append_left _ hx) (List.mem_append_right _ hy)
  rcases b.tower.same_root (hr ▸ b'.tower) nodePair_injective b.nodup b'.nodup with h | h | h | h
  · exact .inl (by rw [b.leaves_eq, b'.leaves_eq, h])
  · obtain ⟨x, hx, y, hy, hne, he⟩ := b.leaf_inside ids' b' hids h
    exact .inr (hcollides x hx y hy hne he)
  · obtain ⟨x, hx, y, hy, hne, he⟩ := b'.leaf_inside ids b hids' h
    exact .inr (hcollides y hy x hx hne.symm he.symm)
  · obtain ⟨c, hc, d, hd, hne, he⟩ := h
    exact .inr (hcollides c (b.mem_treeHashed hc) d (b'.mem_treeHashed hd) hne
      (congrArg Subtype.val he))

theorem LeavesOf.length {ids : List Identity} {leaves : List Bytes} (h : LeavesOf P ids leaves) :
    ∀ leaf ∈ leaves, leaf.length = HASH_LEN := by
  intro leaf hleaf
  obtain ⟨id, -, hid⟩ := exists_left_of_forall₂ h hleaf
  exact leafHash_length hid

/-- The tree over the leaves of some identities, and what its leaves are. -/
theorem LeavesOf.tree {ids : List Identity} {leaves : List Bytes} (h : LeavesOf P ids leaves)
    (sort : Bool) (hne : leaves ≠ []) (hnd : leaves.Nodup) :
    ∃ tree, MerkleTree.init (nodeHash P) leaves sort = .ok tree ∧
      MerkleTree.rootOf (nodeHash P) leaves sort = .ok tree.root ∧
      tree.leaves = (if sort then sortBytes leaves else leaves) ∧
      (∀ leaf ∈ tree.leaves, ∃ id ∈ ids, leafHash P id.1 id.2 = .ok leaf) ∧
      Nonempty (Built (shaDigest P) nodePair tree) := by
  obtain ⟨tree, htree, hleaves, hbuilt⟩ := init_ok (computes_nodeHash P) sort hne h.length hnd
  refine ⟨tree, htree, by rw [MerkleTree.rootOf, htree]; rfl, hleaves, fun leaf hleaf ↦ ?_, hbuilt⟩
  rw [hleaves, (sorted_perm sort leaves).mem_iff] at hleaf
  exact exists_left_of_forall₂ h hleaf

/-- What the roots of two lists of leaves say about the lists. -/
structure Commits (P : Platform) (ids : List Identity) (leaves : List Bytes)
    (ids' : List Identity) (leaves' : List Bytes) : Prop where
  sorted : ∃ tree tree', MerkleTree.init (nodeHash P) leaves true = .ok tree ∧
    MerkleTree.init (nodeHash P) leaves' true = .ok tree' ∧
    MerkleTree.computeRoot (nodeHash P) leaves = .ok tree.root ∧
    MerkleTree.computeRoot (nodeHash P) leaves' = .ok tree'.root ∧
    ((MerkleTree.computeRoot (nodeHash P) leaves = MerkleTree.computeRoot (nodeHash P) leaves' ↔
      leaves.Perm leaves') ∨ Collides P ids tree ids' tree')
  unsorted : ∃ tree tree', MerkleTree.init (nodeHash P) leaves false = .ok tree ∧
    MerkleTree.init (nodeHash P) leaves' false = .ok tree' ∧
    MerkleTree.rootOf (nodeHash P) leaves false = .ok tree.root ∧
    MerkleTree.rootOf (nodeHash P) leaves' false = .ok tree'.root ∧
    (MerkleTree.rootOf (nodeHash P) leaves false = MerkleTree.rootOf (nodeHash P) leaves' false →
      leaves = leaves' ∨ Collides P ids tree ids' tree')

/-- The root commits to the set of leaves, and without sorting to their sequence. -/
theorem root_commits {ids ids' : List Identity} {leaves leaves' : List Bytes}
    (hids : LeavesOf P ids leaves) (hids' : LeavesOf P ids' leaves') (hne : leaves ≠ [])
    (hne' : leaves' ≠ []) (hnd : leaves.Nodup) (hnd' : leaves'.Nodup) :
    Commits P ids leaves ids' leaves' where
  sorted := by
    obtain ⟨tree, htree, hroot, hleaves, hmem, ⟨b⟩⟩ := hids.tree true hne hnd
    obtain ⟨tree', htree', hroot', hleaves', hmem', ⟨b'⟩⟩ := hids'.tree true hne' hnd'
    refine ⟨tree, tree', htree, htree', hroot, hroot', ?_⟩
    by_cases hcol : Collides P ids tree ids' tree'
    · exact .inr hcol
    refine .inl ⟨fun h ↦ ?_, fun h ↦ ?_⟩
    · rw [MerkleTree.computeRoot, MerkleTree.computeRoot, hroot, hroot'] at h
      have heq := (b.leaves_or_collides b' hmem hmem' (Except.ok.inj h)).resolve_right hcol
      rw [hleaves, hleaves', if_pos rfl, if_pos rfl] at heq
      exact (sortBytes_perm leaves).symm.trans (heq ▸ sortBytes_perm leaves')
    · have heq : tree.leaves = tree'.leaves := by
        rw [hleaves, hleaves', if_pos rfl, if_pos rfl, sortBytes_congr h hnd]
      rw [MerkleTree.computeRoot, MerkleTree.computeRoot, hroot, hroot', b.root_of_leaves b' heq]
  unsorted := by
    obtain ⟨tree, htree, hroot, hleaves, hmem, ⟨b⟩⟩ := hids.tree false hne hnd
    obtain ⟨tree', htree', hroot', hleaves', hmem', ⟨b'⟩⟩ := hids'.tree false hne' hnd'
    refine ⟨tree, tree', htree, htree', hroot, hroot', fun h ↦ ?_⟩
    rw [hroot, hroot'] at h
    have heq := b.leaves_or_collides b' hmem hmem' (Except.ok.inj h)
    rw [hleaves, hleaves', if_neg Bool.false_ne_true, if_neg Bool.false_ne_true] at heq
    exact heq

/-- One leaf against two. -/
theorem root_commits_two :
    Commits plainPlatform [("did:iiot:a", List.replicate 33 2)]
      [sha256 (leafInput "did:iiot:a" (List.replicate 33 2))]
      [("did:iiot:a", List.replicate 33 2), ("did:iiot:b", List.replicate 33 3)]
      [sha256 (leafInput "did:iiot:a" (List.replicate 33 2)),
        sha256 (leafInput "did:iiot:b" (List.replicate 33 3))] := by
  have hleaf : leafHash plainPlatform "did:iiot:a" (List.replicate 33 2) = .ok (sha256
      (leafInput "did:iiot:a" (List.replicate 33 2))) := leafHash_ok.mpr ⟨by decide, rfl, rfl⟩
  have hleaf' : leafHash plainPlatform "did:iiot:b" (List.replicate 33 3) = .ok (sha256
      (leafInput "did:iiot:b" (List.replicate 33 3))) := leafHash_ok.mpr ⟨by decide, rfl, rfl⟩
  exact root_commits (.cons hleaf .nil) (.cons hleaf (.cons hleaf' .nil)) (List.cons_ne_nil _ _)
    (List.cons_ne_nil _ _) (List.nodup_singleton _) (by decide +kernel)

end FogNode.Proofs
