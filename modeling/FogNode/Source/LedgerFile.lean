import FogNode.Library.CodePoints
import FogNode.Source.Ledger

namespace FogNode.Source

open FogNode.Library

/-- A value in a ledger file that anyone may have written: an integer, or a text in which
surrogates may stand. -/
inductive FileValue
  | int (n : ℤ)
  | text (codes : CodePoints)
  deriving DecidableEq

/-- A block read from such a file. -/
abbrev FileBlock := List (String × FileValue)

/-- The value as `json.loads` reads it. -/
def FileValue.loads : FileValue → Except PyError FileValue
  | .int n => (intOfStr n).map .int
  | .text codes => .ok (.text codes)

/-- `json.loads` of a file in which these blocks stand. -/
def loadsFile (blocks : List FileBlock) : Except PyError (List FileBlock) :=
  blocks.mapM fun b ↦ b.mapM fun e ↦ e.2.loads.map fun v ↦ (e.1, v)

/-- `str(value)`. -/
def FileValue.pyStr : FileValue → CodePoints
  | .int n => .ofString (String.ofList (Json.decimal n))
  | .text codes => codes

/-- `block[key]`. -/
def fileItem (block : FileBlock) (key : String) : Except PyError FileValue :=
  match block.lookup key with
  | some v => .ok v
  | none => .error (.keyError key)

/-- `_body(block)`. -/
def fileBody (block : FileBlock) : Except PyError FileBlock :=
  BODY_FIELDS.mapM fun k ↦ (fileItem block k).map fun v ↦ (k, v)

/-- The same value where it has no surrogates. -/
def FileValue.json? : FileValue → Option Json
  | .int n => some (.int n)
  | .text codes => codes.decode?.map .str

def json? (fields : FileBlock) : Option (List (String × Json)) :=
  fields.mapM fun e ↦ e.2.json?.map fun v ↦ (e.1, v)

variable (P : Platform)

/-- `canonical_json(fields)`, which has no UTF-8 encoding for a surrogate. -/
def canonicalFile (fields : FileBlock) : Except PyError Bytes :=
  match json? fields with
  | some fields => .ok (canonicalJson P fields)
  | none => .error (.valueError "'utf-8' codec can't encode character: surrogates not allowed")

/-- `bytes.fromhex(text)`, whose error is at the first code point that is not ASCII. -/
def fromhexCodes (codes : CodePoints) : Except PyError Bytes :=
  match codes.decode? with
  | some s => fromhex s
  | none =>
    let position := codes.findIdx fun n ↦ decide (128 ≤ n.val)
    .error (.valueError s!"non-hexadecimal number found in fromhex() arg at position {position}")

/-- `bytes.fromhex(value)`. -/
def fromhexFile : FileValue → Except PyError Bytes
  | .int _ => .error (.typeError "fromhex() argument must be str")
  | .text codes => fromhexCodes codes

/-- `_block_hash(body, signature)`. -/
def fileBlockHash (body : FileBlock) (signature : FileValue) : Except PyError String :=
  (canonicalFile P (body ++ [("signature", signature)])).map fun data ↦ toHex (P.sha256 data)

/-- The loop of `verify_chain` from block `i` on, over any file. -/
def verifyFile (pk : Bytes) : ℕ → String → List FileBlock → Except PyError (Option CodePoints)
  | _, _, [] => .ok none
  | i, prev, b :: blocks =>
    match fileBody b with
    | .error (.keyError k) => .ok (some (.ofString s!"block {i}: missing field '{k}'"))
    | .error e => .error e
    | .ok body => do
      let index ← fileItem b "block_index"
      if index ≠ .int i then
        return some (.ofString s!"block {i}: wrong index " ++ index.pyStr)
      if (← fileItem b "prev_hash") ≠ .text (.ofString prev) then
        return some (.ofString s!"block {i}: prev_hash does not link to block {(i : ℤ) - 1}")
      let message ← canonicalFile P body
      let signature ← fileItem b "signature"
      if verify P pk message (← fromhexFile signature) = false then
        return some (.ofString s!"block {i}: fog signature invalid (contents were modified)")
      let hash ← fileBlockHash P body signature
      if (← fileItem b "block_hash") ≠ .text (.ofString hash) then
        return some (.ofString s!"block {i}: block_hash mismatch")
      verifyFile pk (i + 1) hash blocks

/-- `trusted_fog_pk or self.fog_pk`. -/
def chainKey (fogPk : Bytes) : Option Bytes → Bytes
  | some (x :: xs) => x :: xs
  | _ => fogPk

/-- `verify_chain(trusted_fog_pk)` over any file, if there is one. -/
def verifyChainFile (fogPk : Bytes) (trustedFogPk : Option Bytes)
    (file : Option (List FileBlock)) : Except PyError (Bool × CodePoints) := do
  let blocks ← loadsFile (file.getD [])
  match ← verifyFile P (chainKey fogPk trustedFogPk) 0 GENESIS_PREV_HASH blocks with
  | some message => return (false, message)
  | none => return (true, .ofString s!"chain valid ({blocks.length} blocks)")

end FogNode.Source
