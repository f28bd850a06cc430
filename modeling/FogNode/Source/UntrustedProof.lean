import FogNode.Source.Ledger

namespace FogNode.Source

open FogNode.Library

/-- What a caller may pass for a leaf, a path or a root: a decoded JSON value or a byte string. -/
inductive PyValue
  | json (value : Json)
  | bytes (bytes : Bytes)

/-- `_as_bytes(value)`. -/
def asBytesValue : PyValue → Except PyError Bytes
  | .bytes b => .ok b
  | .json value => fromhexJson value

/-- What `for item in value` goes through: the items of a list, the keys of an object, the
characters of a text, the numbers of a byte string. -/
def iterate : PyValue → Except PyError (List Json)
  | .json (.arr items) => .ok items
  | .json (.obj fields) => .ok (fields.map fun field ↦ .str field.1)
  | .json (.str s) => .ok (s.toList.map fun c ↦ .str (String.singleton c))
  | .bytes b => .ok (b.map fun x ↦ .int x.toNat)
  | .json .null | .json (.bool _) | .json (.int _) | .json (.float _) =>
    .error (.typeError "object is not iterable")

/-- `value[key]` for a text `key`. -/
def subscript (key : String) : Json → Except PyError Json
  | .obj fields => getItem fields key
  | .arr _ => .error (.typeError "list indices must be integers or slices, not str")
  | .str _ => .error (.typeError "string indices must be integers, not 'str'")
  | .null | .bool _ | .int _ | .float _ => .error (.typeError "object is not subscriptable")

/-- `except (ValueError, TypeError)`. -/
def PyError.isValueOrType : PyError → Bool
  | .valueError _ | .typeError _ => true
  | _ => false

/-- `except (ValueError, KeyError, TypeError)`. -/
def PyError.isValueKeyOrType : PyError → Bool
  | .valueError _ | .keyError _ | .typeError _ => true
  | _ => false

namespace MerkleTree

variable (nodeHash : Bytes → Bytes → Except PyError Bytes)

/-- The loop of `reconstruct_root` over items of any type. -/
def climbItems (current : Bytes) : List Json → Except PyError (Option Bytes)
  | [] => .ok (some current)
  | step :: path =>
    match (subscript "sibling" step).bind fun value ↦ asBytesValue (.json value) with
    | .error e => .error e
    | .ok sibling =>
      if sibling.length ≠ HASH_LEN then .ok none
      else
        match subscript "side" step with
        | .error e => .error e
        | .ok side =>
          if equalsText "L" side then
            match nodeHash sibling current with
            | .error e => .error e
            | .ok current => climbItems current path
          else if equalsText "R" side then
            match nodeHash current sibling with
            | .error e => .error e
            | .ok current => climbItems current path
          else .ok none

/-- The body of the `try` in `reconstruct_root`. -/
def tryReconstruct (leaf path : PyValue) : Except PyError (Option Bytes) :=
  match asBytesValue leaf with
  | .error e => .error e
  | .ok current =>
    if current.length ≠ HASH_LEN then .ok none
    else
      match iterate path with
      | .error e => .error e
      | .ok items => climbItems nodeHash current items

def reconstructRootValue (leaf path : PyValue) : Except PyError (Option Bytes) :=
  match tryReconstruct nodeHash leaf path with
  | .ok root => .ok root
  | .error e => if e.isValueKeyOrType then .ok none else .error e

def verifyProofValue (leaf path root : PyValue) : Except PyError Bool :=
  match asBytesValue root with
  | .error e => if e.isValueOrType then .ok false else .error e
  | .ok expected =>
    if expected.length ≠ HASH_LEN then .ok false
    else
      match reconstructRootValue nodeHash leaf path with
      | .error e => .error e
      | .ok reconstructed => .ok (decide (reconstructed = some expected))

end MerkleTree

end FogNode.Source
