import FogNode.Proofs.MerkleRefinement

namespace FogNode.Proofs

open FogNode.Library FogNode.Source

/-- A node hash that is defined on 32-byte strings and gives 32-byte strings. -/
def HashesNodes (nodeHash : Bytes → Bytes → Except PyError Bytes) : Prop :=
  ∀ a b, a.length = HASH_LEN → b.length = HASH_LEN →
    ∃ n, nodeHash a b = .ok n ∧ n.length = HASH_LEN

variable {nodeHash : Bytes → Bytes → Except PyError Bytes}

theorem HashesNodes.computes (h : HashesNodes nodeHash) :
    ∃ hash : Digest × Digest → Digest, Computes nodeHash hash Prod.mk := by
  have hpair : ∀ p : Digest × Digest, ∃ n : Digest, nodeHash p.1.1 p.2.1 = .ok n.1 := by
    rintro ⟨a, b⟩
    obtain ⟨n, hn, hlen⟩ := h a.1 b.1 a.2 b.2
    exact ⟨⟨n, hlen⟩, hn⟩
  choose hash hhash using hpair
  exact ⟨hash, fun a b ↦ hhash (a, b)⟩

section

variable {β : Type} {hash : β → Digest} {pair : Digest → Digest → β}

theorem decodes_encodeStep (s : Digest × Side) :
    ∃ sibling, fromhex (encodeStep s).sibling = .ok sibling ∧ sibling.length = HASH_LEN :=
  ⟨s.1.1, fromhex_toHex _, s.1.2⟩

/-- The proof of a leaf climbs from it to the root of its tree. -/
theorem Built.proof_climbs {tree : MerkleTree} (b : Built hash pair tree) {i : ℕ} {x : Digest}
    (hx : b.leaves[i]? = some x) (hc : Computes nodeHash hash pair) :
    MerkleTree.verifyProof nodeHash (.bytes x.1) ((siblings b.levels.dropLast i).map encodeStep)
      (.bytes tree.root) = true := by
  rw [b.root_eq, verifyProof_raw hc]
  exact ⟨_, decodePath_encode _, b.tower.climb_siblings hx⟩

theorem Built.honest_proof {tree : MerkleTree} (b : Built hash pair tree)
    (hc : Computes nodeHash hash pair) {leaf : Bytes} (hleaf : leaf ∈ tree.leaves) :
    ∃ path, tree.getProof leaf = .ok path ∧
      (∀ step ∈ path, ∃ sibling, fromhex step.sibling = .ok sibling ∧
        sibling.length = HASH_LEN) ∧
      MerkleTree.verifyProof nodeHash (.bytes leaf) path (.bytes tree.root) = true := by
  obtain ⟨i, x, rfl, hx⟩ := b.mem_leaves hleaf
  refine ⟨_, b.getProof_eq hx, ?_, b.proof_climbs hx hc⟩
  rintro step hstep
  obtain ⟨s, -, rfl⟩ := List.mem_map.mp hstep
  exact decodes_encodeStep s

end

/-- Every leaf of every tree has a proof, and its proof verifies. -/
theorem get_proof_complete (hh : HashesNodes nodeHash) {leaves : List Bytes} (sort : Bool)
    (hne : leaves ≠ []) (hlen : ∀ leaf ∈ leaves, leaf.length = HASH_LEN) (hnd : leaves.Nodup) :
    ∃ tree, MerkleTree.init nodeHash leaves sort = .ok tree ∧
      ∀ leaf ∈ leaves, ∃ path, tree.getProof leaf = .ok path ∧
        (∀ step ∈ path, ∃ sibling, fromhex step.sibling = .ok sibling ∧
          sibling.length = HASH_LEN) ∧
        MerkleTree.verifyProof nodeHash (.bytes leaf) path (.bytes tree.root) = true := by
  obtain ⟨hash, hc⟩ := hh.computes
  obtain ⟨tree, hinit, hleaves, ⟨b⟩⟩ := init_ok hc sort hne hlen hnd
  refine ⟨tree, hinit, fun leaf hleaf ↦ b.honest_proof hc ?_⟩
  rw [hleaves, (sorted_perm sort leaves).mem_iff]
  exact hleaf

/-- Three leaves under a hash that forgets its arguments. -/
theorem get_proof_complete_three :
    ∃ tree, MerkleTree.init (fun _ _ ↦ .ok (List.replicate 32 0))
        [List.replicate 32 1, List.replicate 32 2, List.replicate 32 3] true = .ok tree ∧
      ∀ leaf ∈ [List.replicate 32 1, List.replicate 32 2, List.replicate 32 3],
        ∃ path, tree.getProof leaf = .ok path ∧
          (∀ step ∈ path, ∃ sibling, fromhex step.sibling = .ok sibling ∧
            sibling.length = HASH_LEN) ∧
          MerkleTree.verifyProof (fun _ _ ↦ .ok (List.replicate 32 0)) (.bytes leaf) path
            (.bytes tree.root) = true :=
  get_proof_complete (fun _ _ _ _ ↦ ⟨_, rfl, rfl⟩) true (by decide) (by decide) (by decide)

end FogNode.Proofs
