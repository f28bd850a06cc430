import FogNode.Library.JsonRoundTrip
import FogNode.Proofs.LedgerRuns
import FogNode.Source.LedgerText

namespace FogNode.Proofs

open FogNode.Library FogNode.Source

variable {P : Platform} {readFloat : List Char → Option ℚ} {key : P.PrivateKey} {pk : Bytes}
  {files : FilePair Char} {memory : LedgerMemory} {ledger : Ledger} {blocks : List Block}
  {block : DictBlock} {file : Option (List Block)} {a : Anchoring} {w : Writing}

/-- The blocks as the dictionaries that stand for them. -/
abbrev dumps (blocks : List Block) : List DictBlock := blocks.map Block.dump

theorem dump_readable (b : Block) : Json.Readable readFloat P.floats (.obj b.dump) := by
  have hkeys : (b.dump.map Prod.fst).Nodup := by
    simp only [Block.dump, Block.body, List.cons_append, List.nil_append, List.map_cons,
      List.map_nil]
    decide
  rw [Json.Readable]
  refine ⟨hkeys, ?_⟩
  simp only [Block.dump, Block.body, List.cons_append, List.nil_append, Json.ReadableFields,
    Json.Readable, and_true]

theorem dumps_readable (blocks : List Block) :
    Json.Readable readFloat P.floats (.arr ((dumps blocks).map .obj)) := by
  rw [Json.Readable]
  induction blocks with
  | nil => exact trivial
  | cons b blocks ih =>
    rw [dumps, List.map_cons, List.map_cons, Json.ReadableItems]
    exact ⟨dump_readable b, ih⟩

theorem mapM_asBlock (blocks : List DictBlock) :
    (blocks.map Json.obj).mapM asBlock = .ok blocks := by
  induction blocks with
  | nil => rfl
  | cons b blocks ih =>
    rw [List.map_cons, List.mapM_cons, ih]
    rfl

theorem readBlocks_ledgerText (blocks : List Block) :
    readBlocks readFloat (ledgerText P (dumps blocks)) = .ok (dumps blocks) := by
  have hread : Json.loads readFloat (ledgerText P (dumps blocks)) =
      some (.arr ((dumps blocks).map .obj)) :=
    Json.loads_write (Json.indented_sound 2) (dumps_readable blocks)
  rw [readBlocks, hread]
  exact mapM_asBlock (dumps blocks)

theorem ledgerText_cons (blocks : List DictBlock) : ∃ l, ledgerText P blocks = '[' :: l := by
  cases blocks with
  | nil => exact ⟨[']'], by rw [ledgerText, List.map_nil, Json.write]⟩
  | cons b blocks => exact ⟨_, by rw [ledgerText, List.map_cons, Json.write]⟩

theorem mapM_blockRoot (blocks : List Block) :
    (dumps blocks).mapM blockRoot = .ok (blocks.map fun b ↦ (b.epochId, b.root)) := by
  induction blocks with
  | nil => rfl
  | cons b blocks ih =>
    rw [dumps, List.map_cons, List.mapM_cons, ih]
    rfl

/-- The text of the blocks stands in the file. -/
def FileHolds (P : Platform) (files : FilePair Char) (file : Option (List Block)) : Prop :=
  files.target = file.map fun blocks ↦ ledgerText P (dumps blocks)

/-- A running process and its files are what the ledger is with whole blocks. -/
structure Mirrors (P : Platform) (files : FilePair Char) (memory : LedgerMemory)
    (ledger : Ledger) : Prop where
  blocks_eq : memory.blocks = dumps ledger.blocks
  cache_eq : memory.rootCache = ledger.rootCache
  file : FileHolds P files ledger.file

/-- The blocks and the root cache that a process has when it has just read the blocks. -/
def memoryOf (blocks : List Block) : LedgerMemory :=
  ⟨dumps blocks, Dict.ofList (blocks.map fun b ↦ (b.epochId, b.root))⟩

theorem load_holds (h : FileHolds P files file) :
    LedgerMemory.load readFloat files = .ok (memoryOf (file.getD [])) := by
  cases file with
  | none =>
    have htarget : files.target = none := h
    rw [LedgerMemory.load, htarget]
    rfl
  | some blocks =>
    obtain ⟨l, hl⟩ := ledgerText_cons (P := P) (dumps blocks)
    have htarget : files.target = some ('[' :: l) := by rw [h, Option.map_some, hl]
    have hread : readBlocks readFloat ('[' :: l) = .ok (dumps blocks) := by
      rw [← hl]
      exact readBlocks_ledgerText blocks
    rw [LedgerMemory.load, htarget]
    simp only [hread, bind, Except.bind, mapM_blockRoot]
    rfl

theorem load_mirrors (h : FileHolds P files file) :
    Mirrors P files (memoryOf (file.getD [])) (Ledger.load file) := ⟨rfl, rfl, h⟩

section anchoring

/-- What `anchor_root` makes of the ledger where its saving ends with the fault. -/
abbrev anchorAs (P : Platform) (key : P.PrivateKey) (ledger : Ledger) (a : Anchoring)
    (fault : Option DiskFault) : Except PyError Block × Ledger × List Bytes :=
  ledger.anchorRoot P key a.fogId a.coins a.timestamp fault a.epochId a.rootHex a.leafCount

theorem prevHash_dumps (h : memory.blocks = dumps ledger.blocks) :
    memory.prevHash = .ok (.str ledger.prevHash) := by
  unfold LedgerMemory.prevHash Ledger.prevHash
  rw [h, dumps, List.getLast?_map]
  cases ledger.blocks.getLast? <;> rfl

theorem nextBlock_dump (h : memory.blocks = dumps ledger.blocks) (key : P.PrivateKey)
    (a : Anchoring) : memory.nextBlock P key a = .ok (ledger.nextBlock P key a.fogId a.coins
      a.timestamp a.epochId a.rootHex a.leafCount).dump := by
  have hlength : memory.blocks.length = ledger.blocks.length := by rw [h, dumps, List.length_map]
  rw [LedgerMemory.nextBlock, prevHash_dumps h]
  simp only [hlength, bind, Except.bind]
  rfl

/-- A block is appended to both ledgers, or none to either. -/
theorem appended_cases (h : Mirrors P files memory ledger) (key : P.PrivateKey)
    (a : Anchoring) :
    (∃ e, memory.appendedBlock P key a = .error e ∧
      ∀ fault, anchorAs P key ledger a fault = (.error e, ledger, [])) ∨
    ∃ b, b = ledger.nextBlock P key a.fogId a.coins a.timestamp a.epochId a.rootHex a.leafCount ∧
      ledger.getRoot a.epochId = none ∧ memory.appendedBlock P key a = .ok b.dump ∧
      (∀ fault : DiskFault, anchorAs P key ledger a (some fault) =
        (.error fault.error, appended ledger b, [canonicalJson P b.body])) ∧
      anchorAs P key ledger a none =
        (.ok b, saved (appended ledger b), [canonicalJson P b.body]) := by
  unfold LedgerMemory.appendedBlock anchorAs Ledger.anchorRoot
  rw [h.cache_eq]
  split_ifs with hroot
  · exact .inl ⟨_, rfl, fun _ ↦ rfl⟩
  · cases hhex : fromhex a.rootHex with
    | error e => exact .inl ⟨e, rfl, fun _ ↦ rfl⟩
    | ok bytes =>
      by_cases hlen : bytes.length = 32
      · refine .inr ⟨_, rfl, by simpa [Ledger.getRoot] using hroot, ?_, ?_, ?_⟩
        · simp only [bind, Except.bind, hlen, ne_eq, not_true_eq_false, if_false,
            nextBlock_dump h.blocks_eq]
        · intro fault
          simp only [hlen, ne_eq, not_true_eq_false, if_false]
          rfl
        · simp only [hlen, ne_eq, not_true_eq_false, if_false]
          rfl
      · refine .inl ⟨.ledgerError "root must be a 32 byte hash in hex", ?_, fun _ ↦ ?_⟩
        · simp only [bind, Except.bind, hlen, ne_eq, not_false_eq_true, if_true]
          rfl
        · simp only [hlen, ne_eq, not_false_eq_true, if_true]

/-- A save that is over: the file is as it was and nobody is told of the block, or the
file holds all blocks of the process. -/
inductive SaveEffect (P : Platform) (files : FilePair Char) (memory : LedgerMemory)
    (block : DictBlock) : Option (Except PyError DictBlock) × LedgerMachine → Prop
  | refused (fault : DiskFault) {files' : FilePair Char} (h : files'.target = files.target) :
      SaveEffect P files memory block (some (.error fault.error), ⟨files', some memory⟩)
  | lost {files' : FilePair Char} (h : files'.target = files.target) :
      SaveEffect P files memory block (none, ⟨files', none⟩)
  | unanswered : SaveEffect P files memory block
      (none, ⟨⟨some (ledgerText P memory.blocks), none⟩, none⟩)
  | done : SaveEffect P files memory block
      (some (.ok block), ⟨⟨some (ledgerText P memory.blocks), none⟩, some memory⟩)

theorem saveAppended_effect (files : FilePair Char) (memory : LedgerMemory) (block : DictBlock)
    (w : Writing) :
    SaveEffect P files memory block (saveAppended P files memory block w) := by
  have hall : run FilePair.call files (saveCalls (w.pieces (ledgerText P memory.blocks))) =
      ⟨some (ledgerText P memory.blocks), none⟩ := by
    rw [run_saveCalls, w.whole]
  unfold saveAppended
  cases w.ending with
  | done =>
    simp only [hall]
    exact .done
  | refused k =>
    cases hcall : (saveCalls (w.pieces (ledgerText P memory.blocks)))[k]? with
    | none =>
      simp only [hcall, hall]
      exact .done
    | some c =>
      simp only [hcall]
      exact .refused (callFault c) (target_of_take files (List.getElem?_eq_some_iff.mp hcall).1)
  | killed k =>
    by_cases hk : k < (saveCalls (w.pieces (ledgerText P memory.blocks))).length
    · exact .lost (target_of_take files hk)
    · simp only [List.take_of_length_le (Nat.not_lt.mp hk), hall]
      exact .unanswered

end anchoring

section turns

/-- The blocks make a signed chain with one block for each epoch. -/
structure Chained (P : Platform) (pk : Bytes) (blocks : List Block) : Prop where
  seals : ∀ b ∈ blocks, Sealed P pk b
  linked : Linked blockLinks 0 GENESIS_PREV_HASH blocks
  distinct : (blocks.map Block.epochId).Nodup

theorem chained_nil : Chained P pk [] := ⟨fun _ hb ↦ absurd hb List.not_mem_nil, trivial, .nil⟩

/-- The ledger that a process with these blocks has. -/
def ledgerOf (blocks : List Block) (file : Option (List Block)) : Ledger :=
  ⟨blocks, Dict.ofList (blocks.map fun b ↦ (b.epochId, b.root)), file⟩

theorem memoryOf_mirrors (blocks : List Block) (h : FileHolds P files file) :
    Mirrors P files (memoryOf blocks) (ledgerOf blocks file) := ⟨rfl, rfl, h⟩

theorem Chained.cached (h : Chained P pk blocks) (epochId : ℤ) :
    (memoryOf blocks).rootCache.get? epochId =
      Dict.lookup epochId (blocks.map fun b ↦ (b.epochId, b.root)) := by
  apply Dict.get?_ofList
  rw [List.map_map]
  exact h.distinct

theorem Chained.next (h : Chained P (publicKeyBytes P key) blocks) (hkey : SignsCorrectly P key)
    {b : Block} (hb : b = (ledgerOf blocks file).nextBlock P key a.fogId a.coins a.timestamp
      a.epochId a.rootHex a.leafCount)
    (hnew : (ledgerOf blocks file).getRoot a.epochId = none) :
    Chained P (publicKeyBytes P key) (blocks ++ [b]) := by
  constructor
  · intro c hc
    rcases List.mem_append.mp hc with hc | hc
    · exact h.seals c hc
    · rw [List.mem_singleton.mp hc, hb]
      exact nextBlock_sealed hkey _ _ _ _ _ _ _
  · refine linked_append.mpr ⟨h.linked, ?_, ?_, trivial⟩
    · rw [hb, Nat.zero_add]
      rfl
    · have hprev := prevHash_eq (ledgerOf blocks file)
      rw [hb]
      exact hprev
  · have hnone : Dict.lookup a.epochId (blocks.map fun b ↦ (b.epochId, b.root)) = none :=
      (h.cached a.epochId).symm.trans hnew
    rw [Dict.lookup_eq_none, List.map_map] at hnone
    have hepoch : b.epochId = a.epochId := by rw [hb]; rfl
    rw [List.map_append, List.map_cons, List.map_nil, hepoch]
    exact List.nodup_append.mpr ⟨h.distinct, List.nodup_singleton _, fun e he e' he' heq ↦
      hnone (List.mem_singleton.mp he' ▸ heq ▸ he)⟩

theorem append_memoryOf {b : Block} (hepoch : b.epochId = a.epochId) (hroot : b.root = a.rootHex) :
    (memoryOf blocks).append a b.dump = memoryOf (blocks ++ [b]) := by
  simp only [LedgerMemory.append, memoryOf, dumps, List.map_append, List.map_cons, List.map_nil,
    Dict.ofList_snoc, hepoch, hroot]

/-- The file holds a chain with every block that a caller was given, and a running process
has it with the blocks after it that it could not save. -/
structure Kept (P : Platform) (pk : Bytes) (machine : LedgerMachine)
    (given attempts : List DictBlock) (file : Option (List Block)) : Prop where
  holds : FileHolds P machine.files file
  chained : Chained P pk (file.getD [])
  given_kept : given.Sublist (dumps (file.getD []))
  genuine : (dumps (file.getD [])).Sublist attempts
  running : ∀ memory, machine.process = some memory → ∃ blocks, memory = memoryOf blocks ∧
    file.getD [] <+: blocks ∧ Chained P pk blocks ∧ (dumps blocks).Sublist attempts

variable {machine : LedgerMachine} {given attempts : List DictBlock}

theorem Kept.stopped (h : Kept P pk machine given attempts file) (files' : FilePair Char)
    (hfiles : files'.target = machine.files.target) (more : List DictBlock) :
    Kept P pk ⟨files', none⟩ given (attempts ++ more) file where
  holds := hfiles.trans h.holds
  chained := h.chained
  given_kept := h.given_kept
  genuine := h.genuine.trans (List.sublist_append_left _ _)
  running _ hm := by cases hm

theorem Kept.started (h : Kept P pk machine given attempts file)
    (readFloat : List Char → Option ℚ) :
    Kept P pk ⟨machine.files, (LedgerMemory.load readFloat machine.files).toOption⟩ given attempts
      file := by
  refine ⟨h.holds, h.chained, h.given_kept, h.genuine, fun memory hmemory ↦ ?_⟩
  rw [load_holds h.holds] at hmemory
  exact ⟨file.getD [], (Option.some.inj hmemory).symm, List.prefix_refl _, h.chained, h.genuine⟩

theorem Kept.anchored (h : Kept P (publicKeyBytes P key) machine given attempts file)
    (hkey : SignsCorrectly P key) (hmemory : machine.process = some memory) (a : Anchoring)
    (w : Writing) :
    ∃ file', Kept P (publicKeyBytes P key) (anchorText P key machine.files memory a w).2
      (given ++ ((anchorText P key machine.files memory a w).1.bind Except.toOption).toList)
      (attempts ++ (memory.appendedBlock P key a).toOption.toList) file' := by
  obtain ⟨blocks, rfl, hfront, hchained, hattempts⟩ := h.running memory hmemory
  rcases appended_cases (memoryOf_mirrors blocks h.holds) key a with
    ⟨e, herror, -⟩ | ⟨b, hb, hnew, happended, -⟩
  · simp only [anchorText, herror, Option.bind_some, Except.toOption, Option.toList_none,
      List.append_nil]
    refine ⟨file, h.holds, h.chained, h.given_kept, h.genuine, fun memory' hmemory' ↦ ?_⟩
    cases hmemory'
    exact ⟨blocks, rfl, hfront, hchained, hattempts⟩
  have hnext := hchained.next hkey hb hnew
  have hall : (dumps (blocks ++ [b])).Sublist (attempts ++ [b.dump]) := by
    rw [dumps, List.map_append]
    exact hattempts.append (List.Sublist.refl _)
  have hkept : (dumps (file.getD [])).Sublist (attempts ++ [b.dump]) :=
    h.genuine.trans (List.sublist_append_left _ _)
  have hlonger : file.getD [] <+: blocks ++ [b] := hfront.trans (List.prefix_append _ _)
  have hgiven : given.Sublist (dumps blocks) :=
    h.given_kept.trans (hfront.sublist.map Block.dump)
  have hmemory' : (memoryOf blocks).append a b.dump = memoryOf (blocks ++ [b]) :=
    append_memoryOf (by rw [hb]; rfl) (by rw [hb]; rfl)
  simp only [anchorText, happended, hmemory', Except.toOption, Option.toList_some]
  have heffect := saveAppended_effect (P := P) machine.files (memoryOf (blocks ++ [b])) b.dump w
  generalize saveAppended P machine.files (memoryOf (blocks ++ [b])) b.dump w = out at heffect
  have hrunning : ∀ memory, some (memoryOf (blocks ++ [b])) = some memory →
      ∃ blocks', memory = memoryOf blocks' ∧ blocks ++ [b] <+: blocks' ∧
        Chained P (publicKeyBytes P key) blocks' ∧
        (dumps blocks').Sublist (attempts ++ [b.dump]) := fun memory' heq ↦
    ⟨blocks ++ [b], (Option.some.inj heq).symm, List.prefix_refl _, hnext, hall⟩
  cases heffect with
  | refused fault hfiles =>
    refine ⟨file, hfiles.trans h.holds, h.chained, ?_, hkept, fun memory' heq ↦ ?_⟩
    · simpa [Except.toOption] using h.given_kept
    · obtain ⟨blocks', hm, hp, hrest⟩ := hrunning memory' heq
      exact ⟨blocks', hm, (hfront.trans (List.prefix_append _ _)).trans hp, hrest⟩
  | lost hfiles =>
    have hstopped := h.stopped _ hfiles [b.dump]
    exact ⟨file, by simpa using hstopped⟩
  | unanswered =>
    refine ⟨some (blocks ++ [b]), rfl, hnext, ?_, hall, fun _ heq ↦ by cases heq⟩
    simpa [dumps] using hgiven.trans (List.sublist_append_left _ _)
  | done =>
    refine ⟨some (blocks ++ [b]), rfl, hnext, ?_, hall, hrunning⟩
    rw [Option.getD_some, dumps, List.map_append]
    exact hgiven.append (List.Sublist.refl _)

/-- The machine after the listed turns, from where there is no ledger file. -/
abbrev machineAfter (readFloat : List Char → Option ℚ) (key : P.PrivateKey)
    (tmp : Option (List Char)) (turns : List LedgerTurn) : LedgerMachine :=
  run (turnLedger P readFloat key) ⟨⟨none, tmp⟩, none⟩ turns

/-- The blocks that the turns' callers were given. -/
abbrev givenBlocks (readFloat : List Char → Option ℚ) (key : P.PrivateKey)
    (tmp : Option (List Char)) (turns : List LedgerTurn) : List DictBlock :=
  outputs (turnLedger P readFloat key) (acknowledged P key) ⟨⟨none, tmp⟩, none⟩ turns

/-- The blocks that the turns appended in memory. -/
abbrev attemptedBlocks (readFloat : List Char → Option ℚ) (key : P.PrivateKey)
    (tmp : Option (List Char)) (turns : List LedgerTurn) : List DictBlock :=
  outputs (turnLedger P readFloat key) (attempted P key) ⟨⟨none, tmp⟩, none⟩ turns

theorem kept_after (readFloat : List Char → Option ℚ) (hkey : SignsCorrectly P key)
    (tmp : Option (List Char)) (turns : List LedgerTurn) :
    ∃ file, Kept P (publicKeyBytes P key) (machineAfter readFloat key tmp turns)
      (givenBlocks readFloat key tmp turns) (attemptedBlocks readFloat key tmp turns) file := by
  induction turns using List.reverseRecOn with
  | nil => exact ⟨none, rfl, chained_nil, .slnil, .slnil, fun _ hm ↦ by cases hm⟩
  | append_singleton turns turn ih =>
    obtain ⟨file, h⟩ := ih
    simp only [machineAfter, givenBlocks, attemptedBlocks, run_snoc, outputs_snoc] at h ⊢
    generalize run (turnLedger P readFloat key) ⟨⟨none, tmp⟩, none⟩ turns = machine at h ⊢
    cases turn with
    | start =>
      refine ⟨file, ?_⟩
      simpa only [acknowledged, attempted, Option.toList_none, List.append_nil, turnLedger] using
        h.started readFloat
    | kill =>
      refine ⟨file, ?_⟩
      simpa only [acknowledged, attempted, Option.toList_none, List.append_nil, turnLedger] using
        h.stopped machine.files rfl []
    | anchor a w =>
      simp only [acknowledged, attempted, turnLedger]
      cases hprocess : machine.process with
      | none =>
        refine ⟨file, ?_⟩
        simpa only [Option.bind_none, Option.toList_none, List.append_nil] using h
      | some memory => exact h.anchored hkey hprocess a w

/-- What is true of a machine of which a new process would read the given memory. -/
structure CrashSafe (readFloat : List Char → Option ℚ) (key : P.PrivateKey)
    (given attempts : List DictBlock) (machine : LedgerMachine) (memory : LedgerMemory) :
    Prop where
  loads : LedgerMemory.load readFloat machine.files = .ok memory
  durable : given.Sublist memory.blocks
  genuine : memory.blocks.Sublist attempts
  valid : verifyChainText P readFloat (publicKeyBytes P key) none machine.files =
    .ok (true, s!"chain valid ({memory.blocks.length} blocks)")
  roots : ∀ b ∈ memory.blocks, ∃ epochId root, blockRoot b = .ok (epochId, root) ∧
    memory.rootCache.get? epochId = some root
  only : ∀ epochId root, memory.rootCache.get? epochId = some root →
    ∃ b ∈ memory.blocks, blockRoot b = .ok (epochId, root)
  distinct : (memory.blocks.map (Json.field "epoch_id")).Nodup
  ahead : ∀ running, machine.process = some running →
    memory.blocks <+: running.blocks ∧
      ∀ epochId root, memory.rootCache.get? epochId = some root →
        running.rootCache.get? epochId = some root
  atomic : ∀ turn,
    (turnLedger P readFloat key machine turn).files.target = machine.files.target ∨
      ∃ running block, machine.process = some running ∧ attempted P key machine turn = some block ∧
        (turnLedger P readFloat key machine turn).files.target =
          some (ledgerText P (running.blocks ++ [block]))

theorem turn_atomic (readFloat : List Char → Option ℚ) (key : P.PrivateKey)
    (machine : LedgerMachine) (turn : LedgerTurn) :
    (turnLedger P readFloat key machine turn).files.target = machine.files.target ∨
      ∃ running block, machine.process = some running ∧ attempted P key machine turn = some block ∧
        (turnLedger P readFloat key machine turn).files.target =
          some (ledgerText P (running.blocks ++ [block])) := by
  cases turn with
  | start => exact .inl rfl
  | kill => exact .inl rfl
  | anchor a w =>
    simp only [turnLedger, attempted]
    cases hprocess : machine.process with
    | none => exact .inl rfl
    | some memory =>
      simp only [anchorText, Option.bind_some]
      cases happended : memory.appendedBlock P key a with
      | error e => exact .inl rfl
      | ok block =>
        have heffect := saveAppended_effect (P := P) machine.files (memory.append a block) block w
        simp only
        generalize saveAppended P machine.files (memory.append a block) block w = out at heffect
        cases heffect with
        | refused fault hfiles => exact .inl hfiles
        | lost hfiles => exact .inl hfiles
        | unanswered => exact .inr ⟨memory, block, rfl, rfl, rfl⟩
        | done => exact .inr ⟨memory, block, rfl, rfl, rfl⟩

theorem verifyChainText_holds (h : FileHolds P files file)
    (hchained : Chained P pk (file.getD [])) :
    verifyChainText P readFloat pk none files =
      .ok (true, s!"chain valid ({(dumps (file.getD [])).length} blocks)") := by
  have hvalid := (verifyChain_dump fun b hb ↦ (hchained.seals b hb).attested).1 hchained.linked
  unfold verifyChainText
  rw [h]
  cases file with
  | none => rfl
  | some blocks =>
    simp only [Option.map_some, readBlocks_ledgerText, dumps, List.length_map]
    exact hvalid

theorem dumps_epochs (blocks : List Block) : (dumps blocks).map (Json.field "epoch_id") =
    (blocks.map Block.epochId).map fun e ↦ some (Json.int e) := by
  rw [dumps, List.map_map, List.map_map]
  rfl

/-- Whatever happens to the writing of the ledger file and to the processes that write
it, a new process reads a valid chain with every block that was ever handed out. -/
theorem ledger_survives (readFloat : List Char → Option ℚ) (hkey : SignsCorrectly P key)
    (tmp : Option (List Char)) (turns : List LedgerTurn) :
    ∃ memory, CrashSafe readFloat key (givenBlocks readFloat key tmp turns)
      (attemptedBlocks readFloat key tmp turns) (machineAfter readFloat key tmp turns) memory := by
  obtain ⟨file, h⟩ := kept_after readFloat hkey tmp turns
  have hroot := h.chained.cached
  refine ⟨memoryOf (file.getD []), load_holds h.holds, h.given_kept, h.genuine,
    verifyChainText_holds h.holds h.chained, fun b hb ↦ ?_, fun epochId root hget ↦ ?_, ?_,
    fun running hrunning ↦ ?_, turn_atomic readFloat key _⟩
  · obtain ⟨c, hc, rfl⟩ := List.mem_map.mp hb
    refine ⟨c.epochId, c.root, rfl, ?_⟩
    rw [hroot]
    apply Dict.lookup_of_mem
    · rw [List.map_map]
      exact h.chained.distinct
    · exact List.mem_map.mpr ⟨c, hc, rfl⟩
  · rw [hroot] at hget
    obtain ⟨c, hc, heq⟩ := List.mem_map.mp (Dict.mem_of_lookup hget)
    cases heq
    exact ⟨c.dump, List.mem_map.mpr ⟨c, hc, rfl⟩, rfl⟩
  · have hinj : Function.Injective fun e ↦ some (Json.int e) := fun e e' he ↦ by simpa using he
    rw [memoryOf, dumps_epochs]
    exact h.chained.distinct.map hinj
  · obtain ⟨blocks, rfl, hfront, hchained, -⟩ := h.running running hrunning
    refine ⟨hfront.map Block.dump, fun epochId root hget ↦ ?_⟩
    obtain ⟨tail, rfl⟩ := hfront
    rw [hroot] at hget
    rw [hchained.cached, List.map_append]
    exact Dict.lookup_append_left hget

/-- A text that reaches the file in one piece. -/
def onePiece (ending : SaveEnd) : Writing := ⟨fun text ↦ [text], fun text ↦ by simp, ending⟩

def plainAnchoring (epochId : ℤ) : Anchoring :=
  ⟨"fog1", 0, "2025-01-01T00:00:00Z", epochId, plainRoot 1, 4⟩

/-- A block is saved, the next one only in memory, the process dies while it saves a third
one, and its successor saves two more but cannot answer for the second. -/
def crashedTurns : List LedgerTurn :=
  [.start, .anchor (plainAnchoring 1) (onePiece .done),
    .anchor (plainAnchoring 2) (onePiece (.refused 3)),
    .anchor (plainAnchoring 3) (onePiece (.killed 3)), .start,
    .anchor (plainAnchoring 2) (onePiece .done), .anchor (plainAnchoring 3) (onePiece (.killed 4))]

theorem ledger_survives_crashes :
    ∃ memory, CrashSafe (P := plainPlatform) (fun _ ↦ none) (plainKey 1)
      (givenBlocks (P := plainPlatform) (fun _ ↦ none) (plainKey 1) none crashedTurns)
      (attemptedBlocks (P := plainPlatform) (fun _ ↦ none) (plainKey 1) none crashedTurns)
      (machineAfter (P := plainPlatform) (fun _ ↦ none) (plainKey 1) none crashedTurns) memory :=
  ledger_survives (fun _ ↦ none) (plain_signsCorrectly (plainKey 1)) none crashedTurns

end turns

section refinement

/-- A call on the ledger of whole blocks, with the fault that its saving meets. -/
inductive FaultyCall
  | anchor (a : Anchoring) (fault : Option DiskFault)
  | reload

def callFaulty (key : P.PrivateKey) (ledger : Ledger) : FaultyCall → Ledger
  | .anchor a fault => (anchorAs P key ledger a fault).2.1
  | .reload => Ledger.load ledger.file

/-- The block that such a call returns. -/
def returned (key : P.PrivateKey) (ledger : Ledger) : FaultyCall → Option DictBlock
  | .anchor a fault => (anchorAs P key ledger a fault).1.toOption.map Block.dump
  | .reload => none

/-- The machine's file, and its process if one is running, are those of the ledger. -/
structure Simulates (P : Platform) (machine : LedgerMachine) (ledger : Ledger) : Prop where
  holds : FileHolds P machine.files ledger.file
  running : ∀ memory, machine.process = some memory → Mirrors P machine.files memory ledger

variable {machine : LedgerMachine}

theorem Simulates.anchored (h : Simulates P machine ledger)
    (hmemory : machine.process = some memory) (key : P.PrivateKey) (a : Anchoring) (w : Writing) :
    ∃ calls, Simulates P (anchorText P key machine.files memory a w).2
        (run (callFaulty key) ledger calls) ∧
      ((anchorText P key machine.files memory a w).1.bind Except.toOption).toList.Sublist
        (outputs (callFaulty key) (returned key) ledger calls) := by
  have hmirrors := h.running memory hmemory
  rcases appended_cases hmirrors key a with
    ⟨e, herror, -⟩ | ⟨b, hb, hnew, happended, hfault, hsaved⟩
  · simp only [anchorText, herror, Option.bind_some, Except.toOption]
    refine ⟨[], ⟨h.holds, fun memory' hmemory' ↦ ?_⟩, .slnil⟩
    cases hmemory'
    exact hmirrors
  have hblocks : (memory.append a b.dump).blocks = dumps (appended ledger b).blocks := by
    simp only [LedgerMemory.append, appended, hmirrors.blocks_eq, dumps, List.map_append,
      List.map_cons, List.map_nil]
  have hcache : (memory.append a b.dump).rootCache = (appended ledger b).rootCache := by
    simp only [LedgerMemory.append, appended, hmirrors.cache_eq]
    rw [hb]
    rfl
  simp only [anchorText, happended]
  have heffect := saveAppended_effect (P := P) machine.files (memory.append a b.dump) b.dump w
  generalize saveAppended P machine.files (memory.append a b.dump) b.dump w = out at heffect
  have hfile : FileHolds P ⟨some (ledgerText P (memory.append a b.dump).blocks), none⟩
      (saved (appended ledger b)).file := by
    rw [hblocks]
    rfl
  cases heffect with
  | refused fault hfiles =>
    have hheld : FileHolds P _ ledger.file := hfiles.trans h.holds
    refine ⟨[.anchor a (some fault)], ?_, List.nil_sublist _⟩
    rw [run_cons, run_nil, callFaulty, hfault]
    refine ⟨hheld, fun memory' hmemory' ↦ ?_⟩
    cases hmemory'
    exact ⟨hblocks, hcache, hheld⟩
  | lost hfiles => exact ⟨[], ⟨hfiles.trans h.holds, fun _ hm ↦ by cases hm⟩, List.nil_sublist _⟩
  | unanswered =>
    refine ⟨[.anchor a none], ?_, List.nil_sublist _⟩
    rw [run_cons, run_nil, callFaulty, hsaved]
    exact ⟨hfile, fun _ hm ↦ by cases hm⟩
  | done =>
    refine ⟨[.anchor a none], ?_, ?_⟩
    · rw [run_cons, run_nil, callFaulty, hsaved]
      refine ⟨hfile, fun memory' hmemory' ↦ ?_⟩
      cases hmemory'
      exact ⟨hblocks, hcache, hfile⟩
    · simp only [outputs, returned, hsaved, Except.toOption, Option.bind_some, Option.map_some,
        List.append_nil]
      exact List.Sublist.refl _

/-- The ledger on a disk does what the ledger of whole blocks does. -/
theorem machine_refines (readFloat : List Char → Option ℚ) (key : P.PrivateKey)
    (tmp : Option (List Char)) (turns : List LedgerTurn) :
    ∃ calls, Simulates P (machineAfter readFloat key tmp turns)
        (run (callFaulty key) (Ledger.load none) calls) ∧
      (givenBlocks readFloat key tmp turns).Sublist
        (outputs (callFaulty key) (returned key) (Ledger.load none) calls) := by
  induction turns using List.reverseRecOn with
  | nil => exact ⟨[], ⟨rfl, fun _ hm ↦ by cases hm⟩, .slnil⟩
  | append_singleton turns turn ih =>
    obtain ⟨calls, h, hgiven⟩ := ih
    simp only [machineAfter, givenBlocks, run_snoc, outputs_snoc] at h hgiven ⊢
    generalize run (turnLedger P readFloat key) ⟨⟨none, tmp⟩, none⟩ turns = machine at h ⊢
    cases turn with
    | start =>
      refine ⟨calls ++ [.reload], ?_, ?_⟩
      · rw [run_snoc, callFaulty, turnLedger, load_holds h.holds]
        refine ⟨h.holds, fun memory hmemory ↦ ?_⟩
        cases hmemory
        exact load_mirrors h.holds
      · simpa [outputs_snoc, acknowledged, returned] using hgiven
    | kill =>
      refine ⟨calls, ⟨h.holds, fun _ hm ↦ by cases hm⟩, ?_⟩
      simpa [acknowledged] using hgiven
    | anchor a w =>
      simp only [acknowledged, turnLedger]
      cases hprocess : machine.process with
      | none => exact ⟨calls, h, by simpa using hgiven⟩
      | some memory =>
        obtain ⟨more, hmore, houtputs⟩ := h.anchored hprocess key a w
        refine ⟨calls ++ more, ?_, ?_⟩
        · rw [run_append]
          exact hmore
        · rw [outputs_append]
          exact hgiven.append houtputs

end refinement

end FogNode.Proofs
