import FogNode.Library.Dict
import FogNode.Source.CryptoUtils
import FogNode.Source.Schemas

namespace FogNode.Source

open FogNode.Library

def GENESIS_PREV_HASH : String := String.ofList (List.replicate 64 '0')

variable (P : Platform)

/-- `_body(block)`: the fields the fog signs. -/
def Block.body (b : Block) : List (String × Json) :=
  [("block_index", .int b.blockIndex), ("epoch_id", .int b.epochId), ("root", .str b.root),
    ("leaf_count", .int b.leafCount), ("timestamp", .str b.timestamp), ("fog_id", .str b.fogId),
    ("prev_hash", .str b.prevHash)]

def blockHash (body : List (String × Json)) (signatureHex : String) : String :=
  toHex (P.sha256 (canonicalJson P (body ++ [("signature", .str signatureHex)])))

/-- The points at which writing the ledger file can raise an `OSError`. -/
inductive DiskFault
  | mkdir
  | writeTmp
  | replace
  deriving DecidableEq, Repr

def DiskFault.error : DiskFault → PyError
  | .mkdir => .osError "cannot create the ledger directory"
  | .writeTmp => .osError "cannot write the temporary ledger file"
  | .replace => .osError "cannot replace the ledger file"

/-- The blocks and the root cache in memory, and the blocks in the ledger file. -/
structure Ledger where
  blocks : List Block
  rootCache : Dict ℤ String
  file : Option (List Block)

namespace Ledger

/-- `Ledger(path, ...)` over the blocks that the file holds. -/
def load (file : Option (List Block)) : Ledger :=
  let blocks := file.getD []
  ⟨blocks, Dict.ofList (blocks.map fun b ↦ (b.epochId, b.root)), file⟩

/-- `_save`: the file changes by one atomic replacement at the end, or not at all. -/
def save (ledger : Ledger) (disk : Option DiskFault) : Except PyError Unit × Ledger :=
  match disk with
  | some fault => (.error fault.error, ledger)
  | none => (.ok (), { ledger with file := some ledger.blocks })

def prevHash (ledger : Ledger) : String :=
  match ledger.blocks.getLast? with
  | some b => b.blockHash
  | none => GENESIS_PREV_HASH

/-- The block `anchor_root` appends. -/
def nextBlock (ledger : Ledger) (key : P.PrivateKey) (fogId : String) (coins : ℕ)
    (timestamp : String) (epochId : ℤ) (rootHex : String) (leafCount : ℤ) : Block :=
  let body : Block :=
    ⟨ledger.blocks.length, epochId, rootHex, leafCount, timestamp, fogId, ledger.prevHash, "", ""⟩
  let signatureHex := toHex (sign P key coins (canonicalJson P body.body))
  { body with signature := signatureHex, blockHash := blockHash P body.body signatureHex }

/-- Returns the outcome, the ledger, and the messages signed on the way. -/
def anchorRoot (ledger : Ledger) (key : P.PrivateKey) (fogId : String) (coins : ℕ)
    (timestamp : String) (disk : Option DiskFault) (epochId : ℤ) (rootHex : String)
    (leafCount : ℤ) : Except PyError Block × Ledger × List Bytes :=
  if (ledger.rootCache.get? epochId).isSome then
    (.error (.ledgerError s!"epoch {epochId} is already anchored (epochs are immutable)"),
      ledger, [])
  else
    match fromhex rootHex with
    | .error e => (.error e, ledger, [])
    | .ok bytes =>
      if bytes.length ≠ 32 then
        (.error (.ledgerError "root must be a 32 byte hash in hex"), ledger, [])
      else
        let block := ledger.nextBlock P key fogId coins timestamp epochId rootHex leafCount
        let signed := [canonicalJson P block.body]
        let appended : Ledger :=
          { ledger with
            blocks := ledger.blocks ++ [block]
            rootCache := ledger.rootCache.set block.epochId rootHex }
        match appended.save disk with
        | (.error e, ledger) => (.error e, ledger, signed)
        | (.ok (), ledger) => (.ok block, ledger, signed)

def getRoot (ledger : Ledger) (epochId : ℤ) : Option String := ledger.rootCache.get? epochId

def latestEpoch (ledger : Ledger) : Option ℤ := ledger.blocks.getLast?.map Block.epochId

def getBlock (ledger : Ledger) (epochId : ℤ) : Option Block :=
  ledger.blocks.find? fun b ↦ b.epochId = epochId

end Ledger

/-- A call of `anchor_root` whose saving succeeds, or a reload `Ledger(path, key)`. -/
inductive LedgerCall
  | anchor (fogId : String) (coins : ℕ) (timestamp : String) (epochId : ℤ) (rootHex : String)
      (leafCount : ℤ)
  | reload

/-- What the call makes of the ledger and its file. -/
def callLedger (key : P.PrivateKey) (ledger : Ledger) : LedgerCall → Ledger
  | .anchor fogId coins timestamp epochId rootHex leafCount =>
    (ledger.anchorRoot P key fogId coins timestamp none epochId rootHex leafCount).2.1
  | .reload => Ledger.load ledger.file

/-- The block that the call returns, if it is accepted. -/
def anchored (key : P.PrivateKey) (ledger : Ledger) : LedgerCall → Option Block
  | .anchor fogId coins timestamp epochId rootHex leafCount =>
    (ledger.anchorRoot P key fogId coins timestamp none epochId rootHex leafCount).1.toOption
  | .reload => none

def BODY_FIELDS : List String :=
  ["block_index", "epoch_id", "root", "leaf_count", "timestamp", "fog_id", "prev_hash"]

/-- `_body(block)` of a block read from a file. -/
def bodyOf (block : List (String × Json)) : Except PyError (List (String × Json)) :=
  BODY_FIELDS.mapM fun k ↦ (getItem block k).map fun v ↦ (k, v)

/-- A block as it stands in the file. -/
def Block.dump (b : Block) : List (String × Json) :=
  b.body ++ [("signature", .str b.signature), ("block_hash", .str b.blockHash)]

/-- `bytes.fromhex(value)` of a decoded JSON value. -/
def fromhexJson : Json → Except PyError Bytes
  | .str s => fromhex s
  | _ => .error (.typeError "fromhex() argument must be str")

/-- `_block_hash(body, signature)` where the signature is any decoded JSON value. -/
def blockHashJson (body : List (String × Json)) (signature : Json) : String :=
  toHex (P.sha256 (canonicalJson P (body ++ [("signature", signature)])))

/-- `value == i`; booleans and floats are numbers. -/
def equalsIndex (i : ℕ) : Json → Bool
  | .int n => n = i
  | .bool b => (if b then 1 else 0) = i
  | .float q => q = i
  | _ => false

/-- `value == text`. -/
def equalsText (text : String) : Json → Bool
  | .str s => s = text
  | _ => false

theorem equalsText_iff {text : String} {value : Json} :
    equalsText text value = true ↔ value = .str text := by
  cases value <;> simp [equalsText]

/-- The loop of `verify_chain` from block `i` on. -/
def verifyBlocks (pk : Bytes) : ℕ → String → List (List (String × Json)) →
    Except PyError (Option String)
  | _, _, [] => .ok none
  | i, prev, b :: blocks =>
    match bodyOf b with
    | .error (.keyError k) => .ok (some s!"block {i}: missing field '{k}'")
    | .error e => .error e
    | .ok body => do
      let index ← getItem b "block_index"
      if equalsIndex i index = false then
        return some s!"block {i}: wrong index {pyStr P index}"
      if equalsText prev (← getItem b "prev_hash") = false then
        return some s!"block {i}: prev_hash does not link to block {(i : ℤ) - 1}"
      let signature ← getItem b "signature"
      if verify P pk (canonicalJson P body) (← fromhexJson signature) = false then
        return some s!"block {i}: fog signature invalid (contents were modified)"
      let hash := blockHashJson P body signature
      if equalsText hash (← getItem b "block_hash") = false then
        return some s!"block {i}: block_hash mismatch"
      verifyBlocks pk (i + 1) hash blocks

/-- `verify_chain(trusted_fog_pk)` over the blocks that `json.loads` finds in the file, if
there is one. An empty key counts as none. -/
def verifyChain (fogPk : Bytes) (trustedFogPk : Option Bytes)
    (file : Option (List (List (String × Json)))) : Except PyError (Bool × String) := do
  let pk := match trustedFogPk with
    | some (x :: xs) => x :: xs
    | _ => fogPk
  let blocks := file.getD []
  match ← verifyBlocks P pk 0 GENESIS_PREV_HASH blocks with
  | some message => return (false, message)
  | none => return (true, s!"chain valid ({blocks.length} blocks)")

end FogNode.Source
