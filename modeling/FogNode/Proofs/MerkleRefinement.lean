import FogNode.Library.TowerRoot
import FogNode.Library.TowerShape
import FogNode.Source.ProofPackage

namespace FogNode.Proofs

open FogNode.Library FogNode.Source

/-- A byte string that can stand in a Merkle tree. -/
abbrev Digest := { bytes : Bytes // bytes.length = HASH_LEN }

/-- The bytes of a level. -/
def raw (l : List Digest) : List Bytes := l.map Subtype.val

/-- A list of 32-byte strings, each with its length. -/
def digests (l : List Bytes) (h : ∀ b ∈ l, b.length = HASH_LEN) : List Digest :=
  l.attach.map fun b ↦ ⟨b.1, h b.1 b.2⟩

@[simp] theorem raw_digests (l : List Bytes) (h : ∀ b ∈ l, b.length = HASH_LEN) :
    raw (digests l h) = l := by
  simp [raw, digests, Function.comp_def]

theorem raw_injective : Function.Injective raw := List.map_injective_iff.mpr Subtype.val_injective

@[simp] theorem length_raw (l : List Digest) : (raw l).length = l.length := List.length_map _

theorem getElem?_raw (l : List Digest) (i : ℕ) : (raw l)[i]? = (l[i]?).map Subtype.val :=
  List.getElem?_map

variable {β : Type} (nodeHash : Bytes → Bytes → Except PyError Bytes)
  (hash : β → Digest) (pair : Digest → Digest → β)

/-- The node hash of the code is a total function on 32-byte strings, `hash` of `pair`. -/
def Computes : Prop := ∀ a b : Digest, nodeHash a.1 b.1 = .ok (node hash pair a b).1

/-- The proof step that a sibling and its side are written as. -/
def encodeStep (s : Digest × Side) : PathStep := ⟨toHex s.1.1, sideText s.2⟩

def decodeSide (text : String) : Option Side :=
  if text = "L" then some .L else if text = "R" then some .R else none

def decodeStep (step : PathStep) : Option (Digest × Side) :=
  match fromhex step.sibling with
  | .error _ => none
  | .ok b => if h : b.length = HASH_LEN then (decodeSide step.side).map (⟨b, h⟩, ·) else none

/-- The sibling bytes and sides that a proof path stands for. -/
def decodePath : List PathStep → Option (List (Digest × Side))
  | [] => some []
  | step :: path =>
    match decodeStep step, decodePath path with
    | some s, some p => some (s :: p)
    | _, _ => none

@[simp] theorem decodeSide_sideText (side : Side) : decodeSide (sideText side) = some side := by
  cases side <;> rfl

@[simp] theorem decodeStep_encodeStep (s : Digest × Side) : decodeStep (encodeStep s) = some s := by
  simp [decodeStep, encodeStep, s.1.2]

@[simp] theorem decodePath_encode (p : List (Digest × Side)) :
    decodePath (p.map encodeStep) = some p := by
  induction p with
  | nil => rfl
  | cons s p ih => simp [decodePath, ih]

variable {nodeHash hash pair}

theorem nextLevel_raw (hc : Computes nodeHash hash pair) (l : List Digest) :
    MerkleTree.nextLevel nodeHash (raw l) = .ok (raw (pairUp hash pair l)) := by
  induction l using pairUp.induct with
  | case1 => rfl
  | case2 a => rfl
  | case3 a b l ih =>
    simp only [raw, List.map_cons, MerkleTree.nextLevel, pairUp] at ih ⊢
    rw [hc a b, ih]

/-- With as many rounds as the tower is high, the loop of `_build` runs to its end. -/
theorem build_tower (hc : Computes nodeHash hash pair) {l : List Digest} {ls : List (List Digest)}
    {r : Digest} (t : Tower hash pair l ls r) (rounds : ℕ) (hr : ls.length ≤ rounds + 1) :
    MerkleTree.build nodeHash rounds (raw l) = .ok (ls.map raw) := by
  induction t generalizing rounds with
  | top r => cases rounds <;> rfl
  | @up l ls r h1 t ih =>
    have hpos := List.length_pos_of_ne_nil t.levels_ne_nil
    cases rounds with
    | zero =>
      rw [List.length_cons] at hr
      omega
    | succ rounds =>
      rw [List.length_cons] at hr
      have hb := ih rounds (by omega)
      simp only [MerkleTree.build, length_raw, if_pos h1, nextLevel_raw hc, hb, List.map_cons]

/-- The loop of `_build` ends on one node, with the levels of a tower. -/
theorem build_raw (hc : Computes nodeHash hash pair) (n : ℕ) (l : List Digest) (hl : l ≠ [])
    (hn : l.length ≤ n + 1) :
    ∃ ls r, Tower hash pair l ls r ∧ MerkleTree.build nodeHash n (raw l) = .ok (ls.map raw) := by
  obtain ⟨ls, r, t⟩ := exists_tower hash pair hl
  have hpow : l.length ≤ 2 ^ n := hn.trans Nat.lt_two_pow_self
  have hheight : Nat.clog 2 l.length ≤ n := Nat.clog_le_of_le_pow hpow
  have hlevels := t.length_levels
  exact ⟨ls, r, t, build_tower hc t n (by omega)⟩

/-- What a constructed tree is: the leaves asked for and a tower over them. -/
structure Built (hash : β → Digest) (pair : Digest → Digest → β) (tree : MerkleTree) where
  leaves : List Digest
  levels : List (List Digest)
  root : Digest
  tower : Tower hash pair leaves levels root
  nodup : leaves.Nodup
  leaves_eq : tree.leaves = raw leaves
  levels_eq : tree.levels = levels.map raw

theorem Built.root_eq {tree : MerkleTree} (b : Built hash pair tree) : tree.root = b.root.1 := by
  simp [MerkleTree.root, b.levels_eq, List.getLast?_map, b.tower.getLast?, raw]

theorem sorted_perm (sort : Bool) (l : List Bytes) : (if sort then sortBytes l else l).Perm l := by
  cases sort
  · exact .refl l
  · exact sortBytes_perm l

/-- `MerkleTree(leaves, sort)` succeeds exactly on non-empty lists of distinct
32-byte leaves, and then holds a tower over them. -/
theorem init_ok (hc : Computes nodeHash hash pair) {leaves : List Bytes} (sort : Bool)
    (hne : leaves ≠ []) (hlen : ∀ b ∈ leaves, b.length = HASH_LEN) (hnd : leaves.Nodup) :
    ∃ tree, MerkleTree.init nodeHash leaves sort = .ok tree ∧
      tree.leaves = (if sort then sortBytes leaves else leaves) ∧
      Nonempty (Built hash pair tree) := by
  have hperm := sorted_perm sort leaves
  have hlen' : ∀ b ∈ (if sort then sortBytes leaves else leaves), b.length = HASH_LEN :=
    fun b hb ↦ hlen b (hperm.mem_iff.mp hb)
  have hall : (leaves.any fun leaf ↦ decide (leaf.length ≠ HASH_LEN)) = false := by
    rw [List.any_eq_false]
    intro b hb
    simp [hlen b hb]
  obtain ⟨l, hl⟩ : ∃ l, raw l = if sort then sortBytes leaves else leaves :=
    ⟨digests _ hlen', raw_digests _ _⟩
  have hcount : l.length = leaves.length := by rw [← length_raw, hl, hperm.length_eq]
  have hl0 : l ≠ [] := by
    rintro rfl
    exact hne (List.length_eq_zero_iff.mp hcount.symm)
  obtain ⟨ls, r, t, hb⟩ := build_raw hc leaves.length l hl0 (by omega)
  have hlnd : l.Nodup := by
    have h := hperm.nodup_iff.mpr hnd
    rw [← hl] at h
    exact h.of_map _
  refine ⟨⟨raw l, ls.map raw⟩, ?_, hl, ⟨⟨l, ls, r, t, hlnd, rfl, rfl⟩⟩⟩
  have hsize : (if sort then sortBytes leaves else leaves).length = leaves.length :=
    hperm.length_eq
  unfold MerkleTree.init
  rw [if_neg (by simpa using hne), hall, if_neg (by simp), if_neg (not_not.mpr hnd)]
  simp only [hsize]
  rw [← hl, hb]

theorem init_error (nodeHash : Bytes → Bytes → Except PyError Bytes) {leaves : List Bytes}
    (sort : Bool) (h : leaves = [] ∨ (∃ b ∈ leaves, b.length ≠ HASH_LEN) ∨ ¬ leaves.Nodup) :
    ∃ msg, MerkleTree.init nodeHash leaves sort = .error (.valueError msg) := by
  unfold MerkleTree.init
  by_cases h0 : leaves.length = 0
  · exact ⟨_, if_pos h0⟩
  rw [if_neg h0]
  by_cases h1 : (leaves.any fun leaf ↦ decide (leaf.length ≠ HASH_LEN)) = true
  · exact ⟨_, if_pos h1⟩
  rw [if_neg h1]
  rcases h with rfl | ⟨b, hb, hlen⟩ | hnd
  · exact absurd rfl h0
  · exact absurd (List.any_eq_true.mpr ⟨b, hb, by simpa using hlen⟩) h1
  · exact ⟨_, if_pos hnd⟩

theorem built_of_init (hc : Computes nodeHash hash pair) {leaves : List Bytes} {sort : Bool}
    {tree : MerkleTree} (h : MerkleTree.init nodeHash leaves sort = .ok tree) :
    leaves ≠ [] ∧ (∀ b ∈ leaves, b.length = HASH_LEN) ∧ leaves.Nodup ∧
      tree.leaves = (if sort then sortBytes leaves else leaves) ∧
      Nonempty (Built hash pair tree) := by
  by_cases hbad : leaves = [] ∨ (∃ b ∈ leaves, b.length ≠ HASH_LEN) ∨ ¬ leaves.Nodup
  · obtain ⟨msg, he⟩ := init_error nodeHash sort hbad
    rw [h] at he
    cases he
  · push Not at hbad
    obtain ⟨hne, hlen, hnd⟩ := hbad
    obtain ⟨tree', h', hleaves, hbuilt⟩ := init_ok hc sort hne hlen hnd
    rw [h] at h'
    cases h'
    exact ⟨hne, hlen, hnd, hleaves, hbuilt⟩

theorem proofFrom_raw (ls : List (List Digest)) (i : ℕ) :
    MerkleTree.proofFrom (ls.map raw) i = .ok ((siblings ls i).map encodeStep) := by
  induction ls generalizing i with
  | nil => rfl
  | cons level ls ih =>
    simp only [List.map_cons, MerkleTree.proofFrom, length_raw, getElem?_raw, siblings]
    cases hs : level[i ^^^ 1]? with
    | none =>
      have hge : ¬ i ^^^ 1 < level.length := by
        rw [not_lt]
        exact List.getElem?_eq_none_iff.mp hs
      rw [if_neg hge, ih]
    | some s =>
      have hlt : i ^^^ 1 < level.length := (List.getElem?_eq_some_iff.mp hs).1
      rw [if_pos hlt, ih]
      simp only [Option.map_some, Except.map, List.map_cons, encodeStep]
      split <;> rfl

theorem climbPath_raw (hc : Computes nodeHash hash pair) (x : Digest) (path : List PathStep) :
    MerkleTree.climbPath nodeHash x.1 path =
      (decodePath path).map fun p ↦ (climb hash pair x p).1 := by
  induction path generalizing x with
  | nil => rfl
  | cons step path ih =>
    simp only [MerkleTree.climbPath, decodePath, decodeStep]
    cases fromhex step.sibling with
    | error e => rfl
    | ok b =>
      by_cases hb : b.length = HASH_LEN
      · simp only [hb, ne_eq, not_true_eq_false, if_false, dif_pos, decodeSide]
        split_ifs with hL hR
        · rw [hc ⟨b, hb⟩ x]
          simp only [ih, Option.map_some]
          cases decodePath path <;> rfl
        · rw [hc x ⟨b, hb⟩]
          simp only [ih, Option.map_some]
          cases decodePath path <;> rfl
        · rfl
      · simp [hb]

theorem reconstructRoot_raw (hc : Computes nodeHash hash pair) (x : Digest)
    (path : List PathStep) :
    MerkleTree.reconstructRoot nodeHash (.bytes x.1) path =
      (decodePath path).map fun p ↦ (climb hash pair x p).1 := by
  simp only [MerkleTree.reconstructRoot, asBytes, x.2, ne_eq, not_true_eq_false, if_false]
  exact climbPath_raw hc x path

theorem reconstructRoot_hex (hc : Computes nodeHash hash pair) (x : Digest)
    (path : List PathStep) :
    MerkleTree.reconstructRoot nodeHash (.hex (toHex x.1)) path =
      (decodePath path).map fun p ↦ (climb hash pair x p).1 := by
  rw [← reconstructRoot_raw hc]
  simp [MerkleTree.reconstructRoot, asBytes]

theorem verifyProof_raw (hc : Computes nodeHash hash pair) (x r : Digest)
    (path : List PathStep) :
    MerkleTree.verifyProof nodeHash (.bytes x.1) path (.bytes r.1) = true ↔
      ∃ p, decodePath path = some p ∧ climb hash pair x p = r := by
  simp only [MerkleTree.verifyProof, asBytes, r.2, ne_eq, not_true_eq_false, if_false,
    decide_eq_true_eq, reconstructRoot_raw hc, Option.map_eq_some_iff, Subtype.ext_iff]

namespace Built

variable {tree : MerkleTree} (b : Built hash pair tree)

theorem index_get? {i : ℕ} {x : Digest} (hx : b.leaves[i]? = some x) :
    tree.index.get? x.1 = some i := by
  have hkeys : (tree.leaves.zipIdx.map Prod.fst).Nodup := by
    rw [List.zipIdx_map_fst, b.leaves_eq]
    exact b.nodup.map Subtype.val_injective
  rw [MerkleTree.index, Dict.get?_ofList hkeys]
  apply Dict.lookup_of_mem hkeys
  rw [List.mk_mem_zipIdx_iff_getElem?, b.leaves_eq, getElem?_raw, hx]
  rfl

theorem getProof_eq {i : ℕ} {x : Digest} (hx : b.leaves[i]? = some x) :
    tree.getProof x.1 = .ok ((siblings b.levels.dropLast i).map encodeStep) := by
  simp only [MerkleTree.getProof, MerkleTree.indexOf, b.index_get? hx, b.levels_eq,
    ← List.map_dropLast, proofFrom_raw]

theorem mem_leaves {leaf : Bytes} (h : leaf ∈ tree.leaves) :
    ∃ (i : ℕ) (x : Digest), leaf = x.1 ∧ b.leaves[i]? = some x := by
  rw [b.leaves_eq, raw, List.mem_map] at h
  obtain ⟨x, hx, rfl⟩ := h
  obtain ⟨i, hi⟩ := List.mem_iff_getElem?.mp hx
  exact ⟨i, x, rfl, hi⟩

end Built

section Sha

variable (P : Platform)

/-- SHA-256 as a map to 32-byte strings. -/
def shaDigest (data : Bytes) : Digest := ⟨P.sha256 data, P.sha256_length data⟩

def nodePair (a b : Digest) : Bytes := nodeInput a.1 b.1

theorem computes_nodeHash : Computes (Source.nodeHash P) (shaDigest P) nodePair := by
  intro a b
  simp [Source.nodeHash, a.2, b.2, node, shaDigest, nodePair]

theorem nodePair_injective (a b c d : Digest) (h : nodePair a b = nodePair c d) :
    a = c ∧ b = d := by
  obtain ⟨hac, hbd⟩ := nodeInput_injective (a.2.trans c.2.symm) h
  exact ⟨Subtype.ext hac, Subtype.ext hbd⟩

end Sha

end FogNode.Proofs
