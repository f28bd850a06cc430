import FogNode.Source.Canonical
import FogNode.Library.Dict

namespace FogNode.Source

open FogNode.Library

/-- One step of a proof path, `{"sibling": ..., "side": ...}`. -/
structure PathStep where
  sibling : String
  side : String
  deriving DecidableEq, Repr

inductive HexOrBytes
  | hex (text : String)
  | bytes (bytes : Bytes)

def asBytes : HexOrBytes → Except PyError Bytes
  | .bytes b => .ok b
  | .hex text => fromhex text

structure MerkleTree where
  leaves : List Bytes
  levels : List (List Bytes)

namespace MerkleTree

variable (nodeHash : Bytes → Bytes → Except PyError Bytes)

/-- One round of the loop in `_build`. -/
def nextLevel : List Bytes → Except PyError (List Bytes)
  | [] => .ok []
  | [a] => .ok [a]
  | a :: b :: l =>
    match nodeHash a b, nextLevel l with
    | .ok n, .ok nxt => .ok (n :: nxt)
    | .error e, _ => .error e
    | _, .error e => .error e

/-- `_build`: the while loop, which needs no more rounds than there are leaves. -/
def build : ℕ → List Bytes → Except PyError (List (List Bytes))
  | 0, current => .ok [current]
  | fuel + 1, current =>
    if 1 < current.length then
      match nextLevel nodeHash current with
      | .error e => .error e
      | .ok nxt =>
        match build fuel nxt with
        | .error e => .error e
        | .ok levels => .ok (current :: levels)
    else .ok [current]

def init (leaves : List Bytes) (sort : Bool) : Except PyError MerkleTree :=
  if leaves.length = 0 then
    .error (.valueError "cannot build a Merkle tree with zero leaves")
  else if leaves.any (fun leaf ↦ decide (leaf.length ≠ HASH_LEN)) then
    .error (.valueError "every leaf must be a 32 byte hash")
  else if ¬ leaves.Nodup then .error (.valueError "duplicate leaf detected")
  else
    let leaves := if sort then sortBytes leaves else leaves
    match build nodeHash leaves.length leaves with
    | .error e => .error e
    | .ok levels => .ok ⟨leaves, levels⟩

/-- `levels[-1][0]`. -/
def root (tree : MerkleTree) : Bytes :=
  match tree.levels.getLast? with
  | some (r :: _) => r
  | _ => []

def rootHex (tree : MerkleTree) : String := toHex tree.root

def size (tree : MerkleTree) : ℕ := tree.leaves.length

/-- Number of hashing levels above the leaves. -/
def height (tree : MerkleTree) : ℕ := tree.levels.length - 1

/-- `_index`. -/
def index (tree : MerkleTree) : Dict Bytes ℕ := Dict.ofList tree.leaves.zipIdx

def indexOf (tree : MerkleTree) (leaf : Bytes) : Except PyError ℕ :=
  match tree.index.get? leaf with
  | some i => .ok i
  | none => .error (.keyError "leaf is not in this tree")

/-- `MerkleTree(leaves, sort).root`. -/
def rootOf (leaves : List Bytes) (sort : Bool) : Except PyError Bytes :=
  (init nodeHash leaves sort).map root

def computeRoot (leaves : List Bytes) : Except PyError Bytes := rootOf nodeHash leaves true

/-- The loop of `get_proof` over the levels below the root. -/
def proofFrom : List (List Bytes) → ℕ → Except PyError (List PathStep)
  | [], _ => .ok []
  | level :: levels, index =>
    let sibling := index ^^^ 1
    if sibling < level.length then
      match level[sibling]? with
      | none => .error (.indexError "list index out of range")
      | some s =>
        let step : PathStep := ⟨toHex s, if sibling < index then "L" else "R"⟩
        (proofFrom levels (index / 2)).map (step :: ·)
    else proofFrom levels (index / 2)

def getProof (tree : MerkleTree) (leaf : Bytes) : Except PyError (List PathStep) :=
  match tree.indexOf leaf with
  | .error e => .error e
  | .ok index => proofFrom tree.levels.dropLast index

/-- The loop of `reconstruct_root`. Every exception it catches ends in `None`. -/
def climbPath (current : Bytes) : List PathStep → Option Bytes
  | [] => some current
  | step :: path =>
    match fromhex step.sibling with
    | .error _ => none
    | .ok sibling =>
      if sibling.length ≠ HASH_LEN then none
      else if step.side = "L" then
        match nodeHash sibling current with
        | .error _ => none
        | .ok current => climbPath current path
      else if step.side = "R" then
        match nodeHash current sibling with
        | .error _ => none
        | .ok current => climbPath current path
      else none

def reconstructRoot (leaf : HexOrBytes) (path : List PathStep) : Option Bytes :=
  match asBytes leaf with
  | .error _ => none
  | .ok current => if current.length ≠ HASH_LEN then none else climbPath nodeHash current path

def verifyProof (leaf : HexOrBytes) (path : List PathStep) (root : HexOrBytes) : Bool :=
  match asBytes root with
  | .error _ => false
  | .ok expected =>
    if expected.length ≠ HASH_LEN then false
    else decide (reconstructRoot nodeHash leaf path = some expected)

end MerkleTree

end FogNode.Source
