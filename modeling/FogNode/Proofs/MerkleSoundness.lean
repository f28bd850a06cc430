import FogNode.Library.Lists
import FogNode.Proofs.Instance
import FogNode.Proofs.MerkleCompleteness

namespace FogNode.Proofs

open FogNode.Library FogNode.Source

abbrev Identity := String × Bytes

variable (P : Platform)

/-- The leaf hash input of an identity. -/
def idInput (id : Identity) : Bytes := leafInput id.1 id.2

/-- What is hashed for a tree over the leaves of `ids`. -/
def treeHashed (ids : List Identity) (tree : MerkleTree) : List Bytes :=
  ids.map idInput ++ towerInputs nodeInput tree.levels

/-- What is hashed when an identity climbs a path. -/
def pathHashed (id : Identity) (path : List PathStep) : List Bytes :=
  idInput id :: match decodePath path with
    | none => []
    | some p => climbInputs (shaDigest P) nodePair (shaDigest P (idInput id)) p

/-- The first two of the listed byte strings that differ and share a digest. -/
def findCollision (hashed : List Bytes) : Option (Bytes × Bytes) :=
  (hashed.flatMap fun x ↦ hashed.map (x, ·)).find? fun c ↦
    decide (c.1 ≠ c.2 ∧ P.sha256 c.1 = P.sha256 c.2)

variable {P}

theorem findCollision_some {hashed : List Bytes} {x y : Bytes}
    (h : findCollision P hashed = some (x, y)) :
    (x ∈ hashed ∧ y ∈ hashed) ∧ x ≠ y ∧ P.sha256 x = P.sha256 y := by
  have hmem := List.mem_of_find?_eq_some h
  simp only [List.mem_flatMap, List.mem_map, Prod.mk.injEq] at hmem
  obtain ⟨u, hu, v, hv, rfl, rfl⟩ := hmem
  exact ⟨⟨hu, hv⟩, by simpa using List.find?_some h⟩

theorem exists_findCollision {hashed : List Bytes} {x y : Bytes} (hx : x ∈ hashed)
    (hy : y ∈ hashed) (hne : x ≠ y) (he : P.sha256 x = P.sha256 y) :
    ∃ x y, findCollision P hashed = some (x, y) ∧ x ≠ y ∧ P.sha256 x = P.sha256 y := by
  have hsome : (findCollision P hashed).isSome := by
    rw [findCollision, List.find?_isSome]
    refine ⟨(x, y), ?_, by simp [hne, he]⟩
    simp only [List.mem_flatMap, List.mem_map]
    exact ⟨x, hx, y, hy, rfl⟩
  obtain ⟨⟨u, v⟩, h⟩ := Option.isSome_iff_exists.mp hsome
  exact ⟨u, v, h, (findCollision_some h).2⟩

theorem noCollision_of_find {hashed : List Bytes} (h : findCollision P hashed = none) :
    NoCollision P {b | b ∈ hashed} := by
  intro x hx y hy he
  by_contra hne
  obtain ⟨_, _, hfound, -⟩ := exists_findCollision hx hy hne he
  rw [h] at hfound
  cases hfound

theorem pairInputs_raw (l : List Digest) :
    pairInputs nodeInput (raw l) = pairInputs nodePair l := by
  induction l using pairUp.induct with
  | case1 => rfl
  | case2 a => rfl
  | case3 a b l ih =>
    simp only [raw, List.map_cons, pairInputs] at ih ⊢
    rw [ih]
    rfl

theorem towerInputs_raw (ls : List (List Digest)) :
    towerInputs nodeInput (ls.map raw) = towerInputs nodePair ls := by
  simp only [towerInputs, List.flatMap_map, pairInputs_raw]

theorem exists_of_mem_pairInputs {l : List Digest} {b : Bytes} (h : b ∈ pairInputs nodePair l) :
    ∃ u v, b = nodePair u v := by
  induction l using pairUp.induct with
  | case1 => simp [pairInputs] at h
  | case2 a => simp [pairInputs] at h
  | case3 u v l ih =>
    rcases List.mem_cons.mp h with rfl | h
    · exact ⟨u, v, rfl⟩
    · exact ih h

theorem exists_of_mem_towerInputs {ls : List (List Digest)} {b : Bytes}
    (h : b ∈ towerInputs nodePair ls) : ∃ u v, b = nodePair u v := by
  obtain ⟨l, -, hb⟩ := List.mem_flatMap.mp h
  exact exists_of_mem_pairInputs hb

theorem idInput_ne_preimage (id : Identity) (x : Digest) (s : Digest × Side) :
    idInput id ≠ preimage nodePair x s := by
  obtain ⟨s, side⟩ := s
  cases side <;> exact leafInput_ne_nodeInput _ _ _ _

theorem leafHash_idInput {did : String} {pk leaf : Bytes} (h : leafHash P did pk = .ok leaf) :
    leaf = (shaDigest P (idInput (did, pk))).1 := (leafHash_ok.mp h).2.2

theorem idInput_injective {id id' : Identity} {leaf leaf' : Bytes}
    (h : leafHash P id.1 id.2 = .ok leaf) (h' : leafHash P id'.1 id'.2 = .ok leaf')
    (he : idInput id = idInput id') : id = id' := by
  obtain ⟨-, hlen, -⟩ := leafHash_ok.mp h
  obtain ⟨-, hlen', -⟩ := leafHash_ok.mp h'
  obtain ⟨hdid, hpk⟩ := leafInput_injective hlen hlen' he
  exact Prod.ext hdid hpk

/-- A path that leads an identity to the root of a tree over the leaves of `ids`
is the proof of that identity, or what was hashed holds a collision. -/
theorem Built.path_sound {tree : MerkleTree} (b : Built (shaDigest P) nodePair tree)
    {ids : List Identity}
    (hids : ∀ leaf ∈ tree.leaves, ∃ id ∈ ids, leafHash P id.1 id.2 = .ok leaf)
    (id : Identity) {leaf : Bytes} (hleaf : leafHash P id.1 id.2 = .ok leaf)
    {path : List PathStep}
    (hv : MerkleTree.verifyProof (nodeHash P) (.bytes leaf) path (.bytes tree.root) = true) :
    (id ∈ ids ∧ leaf ∈ tree.leaves ∧ ∃ honest, tree.getProof leaf = .ok honest ∧
      decodePath path = decodePath honest ∧ (decodePath path).isSome) ∨
    ∃ x ∈ treeHashed ids tree, ∃ y ∈ pathHashed P id path, x ≠ y ∧ P.sha256 x = P.sha256 y := by
  have hx := leafHash_idInput hleaf
  set x : Digest := shaDigest P (idInput id) with hxdef
  rw [hx, b.root_eq, verifyProof_raw (computes_nodeHash P)] at hv
  obtain ⟨p, hp, hroot⟩ := hv
  have htower : ∀ c ∈ towerInputs nodePair b.levels, c ∈ treeHashed ids tree := by
    intro c hc
    rw [treeHashed, b.levels_eq, towerInputs_raw]
    exact List.mem_append_right _ hc
  have hclimb : ∀ c ∈ climbInputs (shaDigest P) nodePair x p, c ∈ pathHashed P id path := by
    intro c hc
    rw [pathHashed, hp]
    exact List.mem_cons_of_mem _ hc
  rcases b.tower.path_end nodePair_injective x p hroot with
    ⟨i, q, hpq, hi⟩ | ⟨c, hc, he⟩ | ⟨c, hc, d, hd, hne, he⟩
  · -- the path passes through a leaf of the tree
    have hmem : (climb (shaDigest P) nodePair x q).1 ∈ tree.leaves := by
      rw [b.leaves_eq, raw]
      exact List.mem_map_of_mem (List.mem_of_getElem? hi)
    obtain ⟨id', hid', hleaf'⟩ := hids _ hmem
    have hin : idInput id' ∈ treeHashed ids tree :=
      List.mem_append_left _ (List.mem_map_of_mem hid')
    rcases List.eq_nil_or_concat q with rfl | ⟨q, s, rfl⟩
    · by_cases he : idInput id' = idInput id
      · obtain rfl := idInput_injective hleaf' hleaf he
        refine .inl ⟨hid', ?_, _, hx ▸ b.getProof_eq hi, ?_, by simp [hp]⟩
        · rw [hx]; exact hmem
        · simpa using hp.trans (congrArg some hpq)
      · refine .inr ⟨_, hin, _, List.mem_cons_self, he, ?_⟩
        exact (leafHash_idInput hleaf').symm
    · rw [List.concat_eq_append] at hpq hi hleaf'
      rw [climb_snoc] at hleaf'
      refine .inr ⟨_, hin, _, hclimb _ ?_, idInput_ne_preimage id' _ s,
        (leafHash_idInput hleaf').symm⟩
      rw [hpq, List.append_assoc]
      exact mem_climbInputs (shaDigest P) nodePair x q _ s
  · -- the leaf of the identity is an inner node of the tree
    obtain ⟨u, v, rfl⟩ := exists_of_mem_towerInputs hc
    exact .inr ⟨_, htower _ hc, _, List.mem_cons_self,
      (leafInput_ne_nodeInput _ _ _ _).symm, congrArg Subtype.val he⟩
  · exact .inr ⟨c, htower c hc, d, hclimb d hd, hne, congrArg Subtype.val he⟩

/-- Only the proof that the tree gives for its own leaf proves an identity, unless
two strings with one digest can be read off from the tree and the path. -/
theorem verify_proof_sound {ids : List Identity} {leaves : List Bytes} {sort : Bool}
    {tree : MerkleTree}
    (hids : List.Forall₂ (fun id leaf ↦ leafHash P id.1 id.2 = .ok leaf) ids leaves)
    (htree : MerkleTree.init (nodeHash P) leaves sort = .ok tree)
    {did : String} {pk leaf : Bytes} (hleaf : leafHash P did pk = .ok leaf)
    {path : List PathStep}
    (hv : MerkleTree.verifyProof (nodeHash P) (.bytes leaf) path (.bytes tree.root) = true) :
    (((did, pk), leaf) ∈ ids.zip leaves ∧ leaf ∈ tree.leaves ∧
      ∃ honest, tree.getProof leaf = .ok honest ∧ decodePath path = decodePath honest ∧
        (decodePath path).isSome) ∨
    ∃ x y, findCollision P (treeHashed ids tree ++ pathHashed P (did, pk) path) = some (x, y) ∧
      x ≠ y ∧ P.sha256 x = P.sha256 y := by
  obtain ⟨-, -, -, hleaves, ⟨b⟩⟩ := built_of_init (computes_nodeHash P) htree
  have hmem : ∀ l ∈ tree.leaves, ∃ id ∈ ids, leafHash P id.1 id.2 = .ok l := by
    intro l hl
    rw [hleaves, (sorted_perm sort leaves).mem_iff] at hl
    exact exists_left_of_forall₂ hids hl
  rcases b.path_sound hmem (did, pk) hleaf hv with
    ⟨hid, hin, honest⟩ | ⟨x, hx, y, hy, hne, he⟩
  · obtain ⟨leaf', hzip, hleaf'⟩ := exists_zip_of_forall₂ hids hid
    rw [hleaf] at hleaf'
    cases hleaf'
    exact .inl ⟨hzip, hin, honest⟩
  · exact .inr (exists_findCollision (List.mem_append_left _ hx) (List.mem_append_right _ hy)
      hne he)

/-- The proof of the first of two identities. -/
theorem verify_proof_sound_pair :
    ∃ leaf leaf' tree path,
      MerkleTree.init (nodeHash plainPlatform) [leaf, leaf'] true = .ok tree ∧
      ((((("did:iiot:a", List.replicate 33 2) : Identity), leaf) ∈
          [("did:iiot:a", List.replicate 33 2), ("did:iiot:b", List.replicate 33 3)].zip
            [leaf, leaf'] ∧ leaf ∈ tree.leaves ∧
        ∃ honest, tree.getProof leaf = .ok honest ∧ decodePath path = decodePath honest ∧
          (decodePath path).isSome) ∨
      ∃ x y, findCollision plainPlatform
          (treeHashed [("did:iiot:a", List.replicate 33 2), ("did:iiot:b", List.replicate 33 3)]
            tree ++ pathHashed plainPlatform ("did:iiot:a", List.replicate 33 2) path) =
          some (x, y) ∧ x ≠ y ∧ plainPlatform.sha256 x = plainPlatform.sha256 y) := by
  have hleaf : leafHash plainPlatform "did:iiot:a" (List.replicate 33 2) = .ok (sha256
      (leafInput "did:iiot:a" (List.replicate 33 2))) := leafHash_ok.mpr ⟨by decide, rfl, rfl⟩
  have hleaf' : leafHash plainPlatform "did:iiot:b" (List.replicate 33 3) = .ok (sha256
      (leafInput "did:iiot:b" (List.replicate 33 3))) := leafHash_ok.mpr ⟨by decide, rfl, rfl⟩
  obtain ⟨tree, htree, hleaves, ⟨b⟩⟩ := init_ok (computes_nodeHash plainPlatform) true
    (List.cons_ne_nil (sha256 (leafInput "did:iiot:a" (List.replicate 33 2)))
      [sha256 (leafInput "did:iiot:b" (List.replicate 33 3))])
    (by simp [sha256_length, HASH_LEN]) (by decide +kernel)
  obtain ⟨path, -, -, hv⟩ := b.honest_proof (computes_nodeHash plainPlatform)
    (hleaves ▸ (sorted_perm true _).mem_iff.mpr List.mem_cons_self)
  exact ⟨_, _, tree, path, htree, verify_proof_sound (.cons hleaf (.cons hleaf' .nil)) htree
    hleaf hv⟩

end FogNode.Proofs
