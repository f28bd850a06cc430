import FogNode.Library.TowerRoot
import FogNode.Source.MerkleTree
import Mathlib.Data.Nat.Log
import Mathlib.Order.Bounds.Defs

namespace FogNode.Proofs

open FogNode.Library FogNode.Source

/-- The largest power of two below `n`, for `n > 1`. -/
def splitPoint (n : ℕ) : ℕ := 2 ^ Nat.log 2 (n - 1)

theorem splitPoint_bounds {n : ℕ} (h : 1 < n) :
    splitPoint n < n ∧ n ≤ 2 ^ (Nat.log 2 (n - 1) + 1) := by
  have hle := Nat.pow_log_le_self 2 (show n - 1 ≠ 0 by omega)
  have hlt := Nat.lt_pow_succ_log_self Nat.one_lt_two (n - 1)
  unfold splitPoint
  constructor <;> omega

theorem splitPoint_pos (n : ℕ) : 0 < splitPoint n := Nat.two_pow_pos _

theorem splitPoint_greatest {n : ℕ} (h : 1 < n) :
    IsGreatest {k | (∃ m, k = 2 ^ m) ∧ k < n} (splitPoint n) := by
  refine ⟨⟨⟨_, rfl⟩, (splitPoint_bounds h).1⟩, ?_⟩
  rintro k ⟨⟨m, rfl⟩, hm⟩
  exact Nat.pow_le_pow_right (by omega) (Nat.le_log_of_pow_le Nat.one_lt_two (by omega))

variable (nodeHash : Bytes → Bytes → Except PyError Bytes)

/-- The root as it is defined top-down: one leaf is its own root, and more than one are
split at the largest power of two below their number. -/
def recursiveRoot : List Bytes → Except PyError Bytes
  | [] => .error (.indexError "list index out of range")
  | [x] => .ok x
  | x :: y :: rest => do
    let leaves := x :: y :: rest
    let k := splitPoint leaves.length
    let left ← recursiveRoot (leaves.take k)
    let right ← recursiveRoot (leaves.drop k)
    nodeHash left right
termination_by leaves => leaves.length
decreasing_by
  · have h := (splitPoint_bounds (show 1 < (x :: y :: rest).length by simp)).1
    simp only [List.length_take] at h ⊢
    omega
  · have h := splitPoint_pos (x :: y :: rest).length
    simp only [List.length_drop, List.length_cons] at h ⊢
    omega

/-- The node hash where a child or the hash itself may have failed. -/
def partialNode (p : Option Bytes × Option Bytes) : Option Bytes :=
  p.1.bind fun a ↦ p.2.bind fun b ↦ (nodeHash a b).toOption

/-- The tower over the leaves in which a failed hash makes everything above it fail. -/
abbrev PartialTower (leaves : List Bytes) (levels : List (List (Option Bytes)))
    (root : Option Bytes) : Prop :=
  Tower (partialNode nodeHash) Prod.mk (leaves.map some) levels root

variable {nodeHash}

theorem nextLevel_ok {l m : List Bytes} (h : MerkleTree.nextLevel nodeHash l = .ok m) :
    pairUp (partialNode nodeHash) Prod.mk (l.map some) = m.map some := by
  induction l using pairUp.induct generalizing m with
  | case1 =>
    cases h
    rfl
  | case2 a =>
    cases h
    rfl
  | case3 a b l ih =>
    rw [MerkleTree.nextLevel] at h
    cases hn : nodeHash a b with
    | error e => simp [hn] at h
    | ok n =>
      cases hl : MerkleTree.nextLevel nodeHash l with
      | error e => simp [hn, hl] at h
      | ok nxt =>
        simp only [hn, hl, Except.ok.injEq] at h
        subst h
        simp only [List.map_cons, pairUp, node, partialNode, Option.bind_some, hn, ih hl]
        rfl

theorem nextLevel_error {l : List Bytes} {e : PyError}
    (h : MerkleTree.nextLevel nodeHash l = .error e) :
    none ∈ pairUp (partialNode nodeHash) Prod.mk (l.map some) := by
  induction l using pairUp.induct generalizing e with
  | case1 => cases h
  | case2 a => cases h
  | case3 a b l ih =>
    rw [MerkleTree.nextLevel] at h
    simp only [List.map_cons, pairUp, List.mem_cons]
    cases hn : nodeHash a b with
    | error e =>
      left
      simp only [node, partialNode, Option.bind_some, hn]
      rfl
    | ok n =>
      cases hl : MerkleTree.nextLevel nodeHash l with
      | error e => exact .inr (ih hl)
      | ok nxt => simp [hn, hl] at h

theorem PartialTower.failed {leaves : List (Option Bytes)} {levels : List (List (Option Bytes))}
    {root : Option Bytes} (t : Tower (partialNode nodeHash) Prod.mk leaves levels root)
    (h : none ∈ leaves) : root = none := by
  refine t.absorbed (fun a ↦ rfl) (fun a ↦ ?_) h
  cases a <;> rfl

theorem build_head {n : ℕ} {leaves : List Bytes} {levels : List (List Bytes)}
    (h : MerkleTree.build nodeHash n leaves = .ok levels) : ∃ rest, levels = leaves :: rest := by
  cases n with
  | zero =>
    cases h
    exact ⟨_, rfl⟩
  | succ n =>
    rw [MerkleTree.build] at h
    split at h
    case isFalse =>
      cases h
      exact ⟨_, rfl⟩
    case isTrue =>
      cases hl : MerkleTree.nextLevel nodeHash leaves with
      | error e => simp [hl] at h
      | ok nxt =>
        cases hb : MerkleTree.build nodeHash n nxt with
        | error e => simp [hl, hb] at h
        | ok levels =>
          simp only [hl, hb, Except.ok.injEq] at h
          exact ⟨_, h.symm⟩

theorem root_cons (leaves leaves' level : List Bytes) (levels : List (List Bytes)) :
    (MerkleTree.mk leaves (level :: levels)).root =
      (MerkleTree.mk leaves' (leaves' :: level :: levels)).root := by
  simp only [MerkleTree.root, List.getLast?_cons_cons]

/-- What the loop of `_build` computes is a partial tower, and its root is there exactly when
no hash fails. -/
theorem build_partial (n : ℕ) {leaves : List Bytes} (hne : leaves ≠ [])
    (hn : leaves.length ≤ n + 1) {levels : List (List (Option Bytes))} {root : Option Bytes}
    (t : PartialTower nodeHash leaves levels root) :
    root = (MerkleTree.build nodeHash n leaves).toOption.map fun levels ↦
      (MerkleTree.mk leaves levels).root := by
  induction n generalizing leaves levels with
  | zero =>
    obtain ⟨x, rfl⟩ := exists_singleton hne (by omega)
    exact t.root_singleton
  | succ n ih =>
    rw [MerkleTree.build]
    by_cases h1 : 1 < leaves.length
    · rw [if_pos h1]
      obtain ⟨levels', t'⟩ := t.pairUp_of_lt (by simpa using h1)
      cases hnext : MerkleTree.nextLevel nodeHash leaves with
      | error e => exact PartialTower.failed t' (nextLevel_error hnext)
      | ok nxt =>
        have hlen := length_pairUp (partialNode nodeHash) Prod.mk (leaves.map some)
        rw [nextLevel_ok hnext] at t' hlen
        simp only [List.length_map] at hlen
        have hnxt : nxt ≠ [] := List.ne_nil_of_length_pos (by omega)
        rw [ih hnxt (by omega) t']
        cases hbuild : MerkleTree.build nodeHash n nxt with
        | error e =>
          simp only [hbuild]
          rfl
        | ok levels =>
          obtain ⟨rest, rfl⟩ := build_head hbuild
          simp only [hbuild]
          exact congrArg some (root_cons nxt leaves nxt rest)
    · rw [if_neg h1]
      obtain ⟨x, rfl⟩ := exists_singleton hne h1
      exact t.root_singleton

theorem recursiveRoot_split {leaves : List Bytes} (h : 1 < leaves.length) :
    recursiveRoot nodeHash leaves = (recursiveRoot nodeHash
      (leaves.take (splitPoint leaves.length))).bind fun left ↦
        (recursiveRoot nodeHash (leaves.drop (splitPoint leaves.length))).bind fun right ↦
          nodeHash left right := by
  match leaves, h with
  | x :: y :: rest, _ =>
    rw [recursiveRoot]
    rfl

theorem split_lengths {leaves : List Bytes} (h : 1 < leaves.length) :
    0 < (leaves.take (splitPoint leaves.length)).length ∧
      (leaves.take (splitPoint leaves.length)).length < leaves.length ∧
      0 < (leaves.drop (splitPoint leaves.length)).length ∧
      (leaves.drop (splitPoint leaves.length)).length < leaves.length := by
  have hlt := (splitPoint_bounds h).1
  have hpos := splitPoint_pos leaves.length
  simp only [List.length_take, List.length_drop]
  omega

/-- The root of a partial tower is the root as defined top-down. -/
theorem PartialTower.root_eq {leaves : List Bytes} (hne : leaves ≠ [])
    {levels : List (List (Option Bytes))} {root : Option Bytes}
    (t : PartialTower nodeHash leaves levels root) :
    root = (recursiveRoot nodeHash leaves).toOption := by
  induction hn : leaves.length using Nat.strong_induction_on generalizing leaves levels root with
  | _ n ih =>
    by_cases h1 : 1 < leaves.length
    · obtain ⟨hlt, hle⟩ := splitPoint_bounds h1
      obtain ⟨hleft, hleft', hright, hright'⟩ := split_lengths h1
      obtain ⟨ls₁, r₁, ls₂, r₂, t₁, t₂, hr⟩ := Tower.root_split t
        (m := Nat.log 2 (leaves.length - 1)) (by simpa [splitPoint] using hlt) (by simpa using hle)
      rw [← List.map_take] at t₁
      rw [← List.map_drop] at t₂
      have h₁ := ih _ (hn ▸ hleft') (List.ne_nil_of_length_pos hleft) t₁ rfl
      have h₂ := ih _ (hn ▸ hright') (List.ne_nil_of_length_pos hright) t₂ rfl
      rw [recursiveRoot_split h1, hr, h₁, h₂]
      unfold splitPoint
      cases recursiveRoot nodeHash (leaves.take (2 ^ Nat.log 2 (leaves.length - 1))) with
      | error e => rfl
      | ok left =>
        cases recursiveRoot nodeHash (leaves.drop (2 ^ Nat.log 2 (leaves.length - 1))) with
        | error e => rfl
        | ok right => rfl
    · obtain ⟨x, rfl⟩ := exists_singleton hne h1
      rw [recursiveRoot]
      exact t.root_singleton

/-- Where no hash fails there is a root. -/
theorem recursiveRoot_total {good : Bytes → Prop}
    (hhash : ∀ a b, good a → good b → ∃ n, nodeHash a b = .ok n ∧ good n) {leaves : List Bytes}
    (hne : leaves ≠ []) (hleaves : ∀ leaf ∈ leaves, good leaf) :
    ∃ root, recursiveRoot nodeHash leaves = .ok root ∧ good root := by
  induction hn : leaves.length using Nat.strong_induction_on generalizing leaves with
  | _ n ih =>
    by_cases h1 : 1 < leaves.length
    · obtain ⟨hleft, hleft', hright, hright'⟩ := split_lengths h1
      obtain ⟨left, hl, hgl⟩ := ih _ (hn ▸ hleft') (List.ne_nil_of_length_pos hleft)
        (fun leaf hleaf ↦ hleaves leaf (List.mem_of_mem_take hleaf)) rfl
      obtain ⟨right, hr, hgr⟩ := ih _ (hn ▸ hright') (List.ne_nil_of_length_pos hright)
        (fun leaf hleaf ↦ hleaves leaf (List.mem_of_mem_drop hleaf)) rfl
      obtain ⟨root, hroot, hgood⟩ := hhash left right hgl hgr
      refine ⟨root, ?_, hgood⟩
      rw [recursiveRoot_split h1, hl, hr]
      exact hroot
    · obtain ⟨x, rfl⟩ := exists_singleton hne h1
      exact ⟨x, by rw [recursiveRoot], hleaves x List.mem_cons_self⟩

/-- The loop of `_build` finds a root just where the top-down definition gives one, and the
same. Both do where the node hash does not fail, be it on 32-byte strings or on all. -/
structure BuildsRecursively (nodeHash : Bytes → Bytes → Except PyError Bytes)
    (leaves : List Bytes) : Prop where
  root_iff : ∀ root, (∃ levels, MerkleTree.build nodeHash leaves.length leaves = .ok levels ∧
    (MerkleTree.mk leaves levels).root = root) ↔ recursiveRoot nodeHash leaves = .ok root
  total : ∀ good : Bytes → Prop, (∀ leaf ∈ leaves, good leaf) →
    (∀ a b, good a → good b → ∃ n, nodeHash a b = .ok n ∧ good n) →
    ∃ root, recursiveRoot nodeHash leaves = .ok root

theorem build_root_recursive (nodeHash : Bytes → Bytes → Except PyError Bytes)
    {leaves : List Bytes} (hne : leaves ≠ []) : BuildsRecursively nodeHash leaves where
  root_iff := by
    intro root
    obtain ⟨levels, root', t⟩ := exists_tower (partialNode nodeHash) Prod.mk
      (l := leaves.map some) (by simpa using hne)
    have hbuild := build_partial leaves.length hne (Nat.le_succ _) t
    have hrec := PartialTower.root_eq hne t
    have heq := hbuild.symm.trans hrec
    constructor
    · rintro ⟨levels, hlevels, rfl⟩
      rw [hlevels] at heq
      cases hr : recursiveRoot nodeHash leaves with
      | error e =>
        rw [hr] at heq
        cases heq
      | ok r =>
        rw [hr] at heq
        exact congrArg Except.ok (Option.some.inj heq).symm
    · intro h
      rw [h] at heq
      cases hb : MerkleTree.build nodeHash leaves.length leaves with
      | error e =>
        rw [hb] at heq
        cases heq
      | ok levels =>
        rw [hb] at heq
        exact ⟨levels, rfl, Option.some.inj heq⟩
  total := by
    intro good hleaves hhash
    obtain ⟨root, hroot, -⟩ := recursiveRoot_total hhash hne hleaves
    exact ⟨root, hroot⟩

/-- Three leaves, of which the last is promoted. -/
theorem build_root_recursive_three :
    BuildsRecursively (fun a b ↦ .ok (a ++ b)) [[1], [2], [3]] :=
  build_root_recursive _ (List.cons_ne_nil _ _)

end FogNode.Proofs
