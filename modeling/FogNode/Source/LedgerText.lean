import FogNode.Library.JsonText
import FogNode.Library.ReplacedFile
import FogNode.Source.Ledger

namespace FogNode.Source

open FogNode.Library

/-- A block of the ledger as the dictionary that the code keeps. -/
abbrev DictBlock := List (String × Json)

/-- The blocks and the root cache of a running process. -/
structure LedgerMemory where
  blocks : List DictBlock
  rootCache : Dict ℤ String

/-- The arguments of one call of `anchor_root`, with what it takes from its surroundings. -/
structure Anchoring where
  fogId : String
  coins : ℕ
  timestamp : String
  epochId : ℤ
  rootHex : String
  leafCount : ℤ

/-- What ends the calls of `_save`: nothing, an `OSError` of one of them, or the death of
the process after some of them. -/
inductive SaveEnd
  | done
  | refused (call : ℕ)
  | killed (after : ℕ)

/-- In which pieces a text reaches the temporary file, and how the saving ends. -/
structure Writing where
  pieces : List Char → List (List Char)
  whole : ∀ text, (pieces text).flatten = text
  ending : SaveEnd

def callFault : FileCall Char → DiskFault
  | .mkdir => .mkdir
  | .openTmp | .write _ => .writeTmp
  | .replace => .replace

section

variable (P : Platform) (readFloat : List Char → Option ℚ)

/-- `json.dumps(self.blocks, indent=2)`. -/
def ledgerText (blocks : List DictBlock) : List Char :=
  Json.write P.floats (Json.indented 2) 0 (.arr (blocks.map .obj))

/-- An item of the list in a ledger file, which has to be a dictionary. -/
def asBlock : Json → Except PyError DictBlock
  | .obj b => .ok b
  | _ => .error (.typeError "indices must be integers or slices, not str")

/-- `json.loads(text)`, a list of dictionaries. -/
def readBlocks (text : List Char) : Except PyError (List DictBlock) :=
  match Json.loads readFloat text with
  | some (.arr items) => items.mapM asBlock
  | some _ => .error (.typeError "object is not iterable")
  | none => .error (.valueError "no JSON text")

/-- The entry of the root cache that a block makes. -/
def blockRoot (b : DictBlock) : Except PyError (ℤ × String) := do
  match ← getItem b "epoch_id", ← getItem b "root" with
  | .int epochId, .str root => .ok (epochId, root)
  | _, _ => .error (.typeError "no epoch and root")

namespace LedgerMemory

/-- `_load`. -/
def load (files : FilePair Char) : Except PyError LedgerMemory := do
  let blocks ← match files.target with
    | none | some [] => .ok []
    | some (c :: text) => readBlocks readFloat (c :: text)
  let roots ← blocks.mapM blockRoot
  return ⟨blocks, Dict.ofList roots⟩

def prevHash (memory : LedgerMemory) : Except PyError Json :=
  match memory.blocks.getLast? with
  | some b => getItem b "block_hash"
  | none => .ok (.str GENESIS_PREV_HASH)

/-- The block `anchor_root` appends. -/
def nextBlock (memory : LedgerMemory) (key : P.PrivateKey) (a : Anchoring) :
    Except PyError DictBlock := do
  let prevHash ← memory.prevHash
  let body := [("block_index", .int memory.blocks.length), ("epoch_id", .int a.epochId),
    ("root", .str a.rootHex), ("leaf_count", .int a.leafCount), ("timestamp", .str a.timestamp),
    ("fog_id", .str a.fogId), ("prev_hash", prevHash)]
  let signatureHex := toHex (sign P key a.coins (canonicalJson P body))
  return body ++ [("signature", .str signatureHex),
    ("block_hash", .str (blockHashJson P body (.str signatureHex)))]

/-- The block that `anchor_root` appends in memory, if it gets so far. -/
def appendedBlock (memory : LedgerMemory) (key : P.PrivateKey) (a : Anchoring) :
    Except PyError DictBlock := do
  if (memory.rootCache.get? a.epochId).isSome then
    throw (.ledgerError s!"epoch {a.epochId} is already anchored (epochs are immutable)")
  if (← fromhex a.rootHex).length ≠ 32 then
    throw (.ledgerError "root must be a 32 byte hash in hex")
  memory.nextBlock P key a

def append (memory : LedgerMemory) (a : Anchoring) (block : DictBlock) : LedgerMemory :=
  ⟨memory.blocks ++ [block], memory.rootCache.set a.epochId a.rootHex⟩

end LedgerMemory

/-- `verify_chain(trusted_fog_pk)` over the text in the file. -/
def verifyChainText (fogPk : Bytes) (trustedFogPk : Option Bytes) (files : FilePair Char) :
    Except PyError (Bool × String) :=
  match files.target with
  | none => verifyChain P fogPk trustedFogPk none
  | some text => do
    let blocks ← readBlocks readFloat text
    verifyChain P fogPk trustedFogPk (some blocks)

/-- The ledger's files, and the process that works on them, if one is running. -/
structure LedgerMachine where
  files : FilePair Char
  process : Option LedgerMemory

inductive LedgerTurn
  | start
  | anchor (a : Anchoring) (w : Writing)
  | kill

/-- `_save` and the return of `anchor_root` after it, if the process lives to return. -/
def saveAppended (files : FilePair Char) (memory : LedgerMemory) (block : DictBlock)
    (w : Writing) : Option (Except PyError DictBlock) × LedgerMachine :=
  let calls := saveCalls (w.pieces (ledgerText P memory.blocks))
  match w.ending with
  | .done => (some (.ok block), ⟨run FilePair.call files calls, some memory⟩)
  | .refused k =>
    match calls[k]? with
    | some c =>
      (some (.error (callFault c).error), ⟨run FilePair.call files (calls.take k), some memory⟩)
    | none => (some (.ok block), ⟨run FilePair.call files calls, some memory⟩)
  | .killed k => (none, ⟨run FilePair.call files (calls.take k), none⟩)

/-- What `anchor_root` returns or raises, if it comes to that, and what it leaves. -/
def anchorText (key : P.PrivateKey) (files : FilePair Char) (memory : LedgerMemory)
    (a : Anchoring) (w : Writing) : Option (Except PyError DictBlock) × LedgerMachine :=
  match memory.appendedBlock P key a with
  | .error e => (some (.error e), ⟨files, some memory⟩)
  | .ok block => saveAppended P files (memory.append a block) block w

/-- One turn: a process starts, `Ledger(path, key)`, in the place of the one before; the
running one anchors a root; it dies. -/
def turnLedger (key : P.PrivateKey) (machine : LedgerMachine) : LedgerTurn → LedgerMachine
  | .start => ⟨machine.files, (LedgerMemory.load readFloat machine.files).toOption⟩
  | .anchor a w =>
    match machine.process with
    | some memory => (anchorText P key machine.files memory a w).2
    | none => machine
  | .kill => ⟨machine.files, none⟩

/-- The block that a turn appends in memory. -/
def attempted (key : P.PrivateKey) (machine : LedgerMachine) : LedgerTurn → Option DictBlock
  | .anchor a _ => machine.process.bind fun memory ↦ (memory.appendedBlock P key a).toOption
  | .start | .kill => none

/-- The block that a turn's caller is given. -/
def acknowledged (key : P.PrivateKey) (machine : LedgerMachine) : LedgerTurn → Option DictBlock
  | .anchor a w => machine.process.bind fun memory ↦
    (anchorText P key machine.files memory a w).1.bind Except.toOption
  | .start | .kill => none

end

end FogNode.Source
