import FogNode.Proofs.Instance
import FogNode.Proofs.MerkleRefinement

namespace FogNode.Proofs

open FogNode.Library FogNode.Source

/-- The sizes of a tree over `n` leaves and of its proofs. -/
structure Shape (nodeHash : Bytes → Bytes → Except PyError Bytes) (n : ℕ) (tree : MerkleTree) :
    Prop where
  size : tree.size = n
  height : tree.height = Nat.clog 2 n
  levels : tree.levels.length = tree.height + 1
  level : ∀ (j : ℕ) (nodes : List Bytes), tree.levels[j]? = some nodes →
    nodes.length = (n + 2 ^ j - 1) / 2 ^ j
  top : ∃ root, tree.levels.getLast? = some [root]
  terminates : ∀ rounds, tree.height ≤ rounds →
    MerkleTree.build nodeHash rounds tree.leaves = .ok tree.levels
  proof : ∀ (i : ℕ) (leaf : Bytes), tree.leaves[i]? = some leaf →
    ∃ path, tree.getProof leaf = .ok path ∧ path.length ≤ tree.height ∧
      path.length = (List.range tree.height).countP (hasSibling tree.levels i)

section

variable {β : Type} {nodeHash : Bytes → Bytes → Except PyError Bytes} {hash : β → Digest}
  {pair : Digest → Digest → β}

namespace Built

variable {tree : MerkleTree}

theorem length_leaves (b : Built hash pair tree) : tree.leaves.length = b.leaves.length := by
  rw [b.leaves_eq, length_raw]

theorem length_levels (b : Built hash pair tree) : tree.levels.length = b.levels.length := by
  rw [b.levels_eq, List.length_map]

theorem height_eq (b : Built hash pair tree) : tree.height = Nat.clog 2 tree.leaves.length := by
  rw [MerkleTree.height, b.length_levels, b.tower.length_levels, b.length_leaves,
    Nat.add_sub_cancel]

theorem levels_eq_height (b : Built hash pair tree) : tree.levels.length = tree.height + 1 := by
  rw [b.height_eq, b.length_levels, b.tower.length_levels, b.length_leaves]

theorem length_level (b : Built hash pair tree) {j : ℕ} {nodes : List Bytes}
    (h : tree.levels[j]? = some nodes) : nodes.length = levelSize tree.leaves.length j := by
  rw [b.levels_eq, List.getElem?_map, Option.map_eq_some_iff] at h
  obtain ⟨level, hlevel, rfl⟩ := h
  rw [length_raw, b.length_leaves, b.tower.length_level hlevel]

theorem getLast?_levels (b : Built hash pair tree) :
    tree.levels.getLast? = some [b.root.1] := by
  rw [b.levels_eq, List.getLast?_map, b.tower.getLast?]
  rfl

theorem length_getProof (b : Built hash pair tree) {i : ℕ} {leaf : Bytes}
    (h : tree.leaves[i]? = some leaf) :
    ∃ path, tree.getProof leaf = .ok path ∧
      path.length = (List.range tree.height).countP (hasSibling tree.levels i) := by
  rw [b.leaves_eq, getElem?_raw, Option.map_eq_some_iff] at h
  obtain ⟨x, hx, rfl⟩ := h
  have hlevels : hasSibling tree.levels = hasSibling b.levels := by
    rw [b.levels_eq]
    exact hasSibling_map Subtype.val b.levels
  refine ⟨_, b.getProof_eq hx, ?_⟩
  rw [List.length_map, length_siblings_dropLast, MerkleTree.height, b.length_levels, hlevels]

theorem shape (b : Built hash pair tree) (hc : Computes nodeHash hash pair) :
    Shape nodeHash tree.leaves.length tree where
  size := rfl
  height := b.height_eq
  levels := b.levels_eq_height
  level _ _ h := b.length_level h
  top := ⟨_, b.getLast?_levels⟩
  terminates rounds hr := by
    have hlen := b.levels_eq_height
    rw [b.length_levels] at hlen
    rw [b.leaves_eq, b.levels_eq]
    exact build_tower hc b.tower rounds (by omega)
  proof i leaf h := by
    obtain ⟨path, hpath, hlen⟩ := b.length_getProof h
    have hle : path.length ≤ (List.range tree.height).length := by
      rw [hlen]
      exact List.countP_le_length
    rw [List.length_range] at hle
    exact ⟨path, hpath, hle, hlen⟩

end Built

end

/-- Every tree has the height and the level sizes of its number of leaves, and
its proofs skip exactly the levels at which their node is promoted. -/
theorem tree_shape (P : Platform) {leaves : List Bytes} (sort : Bool) (hne : leaves ≠ [])
    (hlen : ∀ leaf ∈ leaves, leaf.length = HASH_LEN) (hnd : leaves.Nodup) :
    ∃ tree, MerkleTree.init (nodeHash P) leaves sort = .ok tree ∧
      Shape (nodeHash P) leaves.length tree := by
  obtain ⟨tree, hinit, hleaves, ⟨b⟩⟩ := init_ok (computes_nodeHash P) sort hne hlen hnd
  refine ⟨tree, hinit, ?_⟩
  have hcount : tree.leaves.length = leaves.length := by
    rw [hleaves, (sorted_perm sort leaves).length_eq]
  rw [← hcount]
  exact b.shape (computes_nodeHash P)

theorem tree_shape_three :
    ∃ tree, MerkleTree.init (nodeHash plainPlatform)
        [List.replicate 32 3, List.replicate 32 1, List.replicate 32 2] true = .ok tree ∧
      Shape (nodeHash plainPlatform) 3 tree :=
  tree_shape plainPlatform true (by decide) (by decide) (by decide)

end FogNode.Proofs
