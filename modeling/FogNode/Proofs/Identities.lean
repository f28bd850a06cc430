import FogNode.Proofs.Invariant
import FogNode.Proofs.MerkleSoundness

namespace FogNode.Proofs

open FogNode.Library FogNode.Source

variable {P : Platform} {node : Node P} {q pkg : ProofPackage} {epochId : ℤ}
  {pkgs : PackageSet} {tree : MerkleTree}

/-- The identity a package is about. -/
def identityOf (pkg : ProofPackage) : Identity := (pkg.did, hexOrEmpty pkg.publicKey)

theorem identityOf_eq {pk : Bytes} (h : fromhex pkg.publicKey = .ok pk) :
    identityOf pkg = (pkg.did, pk) := by
  simp [identityOf, hexOrEmpty, h]

theorem PackageOf.identity {e : PendingEntry}
    (h : PackageOf node epochId tree e q) (he : EntryOk P e) :
    fromhex q.publicKey = .ok (identityOf q).2 ∧
      leafHash P (identityOf q).1 (identityOf q).2 = .ok e.leaf ∧ q.leaf = toHex e.leaf := by
  obtain ⟨pk, hpk, hleaf⟩ := he
  rw [← h.key_eq] at hpk
  rw [← h.did_eq] at hleaf
  rw [identityOf_eq hpk]
  exact ⟨hpk, hleaf, h.leaf_eq⟩

/-- Two identities with one leaf are one, unless what is hashed for them collides. -/
theorem identity_unique {inputs : Set Bytes} (h : NoCollision P inputs) {a b : Identity}
    {leaf : Bytes} (ha : leafHash P a.1 a.2 = .ok leaf) (hb : leafHash P b.1 b.2 = .ok leaf)
    (hain : idInput a ∈ inputs) (hbin : idInput b ∈ inputs) : a = b := by
  apply idInput_injective ha hb
  apply h hain hbin
  exact (leafHash_ok.mp ha).2.2.symm.trans (leafHash_ok.mp hb).2.2

theorem EpochOf.identities (h : EpochOf node epochId pkgs tree) : ∀ leaf ∈ tree.leaves,
    ∃ id ∈ pkgs.values.map identityOf, leafHash P id.1 id.2 = .ok leaf := by
  intro leaf hleaf
  rw [h.leaves_eq] at hleaf
  obtain ⟨r, hr, rfl⟩ := List.mem_map.mp hleaf
  obtain ⟨e, he, hof⟩ := h.member r hr
  refine ⟨identityOf r, List.mem_map_of_mem hr, ?_⟩
  rw [hof.leafOf_eq]
  exact (hof.identity he).2.1

/-- In the tree of an epoch there is no leaf of an identity that is not a member,
unless it collides with the leaf of a member. -/
theorem EpochOf.leaf_of_member (h : EpochOf node epochId pkgs tree) {did : String}
    {pk leaf : Bytes} (hleaf : leafHash P did pk = .ok leaf) (hmem : leaf ∈ tree.leaves) :
    ∃ pkg ∈ pkgs.values, pkg.did = did ∨
      (idInput (identityOf pkg) ≠ leafInput did pk ∧
        P.sha256 (idInput (identityOf pkg)) = P.sha256 (leafInput did pk)) := by
  obtain ⟨id, hid, hhash⟩ := h.identities leaf hmem
  obtain ⟨pkg, hpkg, rfl⟩ := List.mem_map.mp hid
  refine ⟨pkg, hpkg, or_iff_not_imp_left.mpr fun hne ↦ ⟨fun he ↦ ?_, ?_⟩⟩
  · have hsame : identityOf pkg = (did, pk) := idInput_injective hhash hleaf he
    exact hne (congrArg Prod.fst hsame)
  · exact (leafHash_ok.mp hhash).2.2.symm.trans (leafHash_ok.mp hleaf).2.2

end FogNode.Proofs
