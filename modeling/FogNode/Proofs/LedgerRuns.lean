import FogNode.Library.Runs
import FogNode.Proofs.Finalize
import FogNode.Proofs.Instance
import FogNode.Proofs.LedgerChain

namespace FogNode.Proofs

open FogNode.Library FogNode.Source

variable {P : Platform} {key : P.PrivateKey} {ledger : Ledger} {calls : List LedgerCall}

/-- The ledger after the listed calls, from where there is no file. -/
abbrev ledgerAfter (key : P.PrivateKey) (calls : List LedgerCall) : Ledger :=
  run (callLedger P key) (Ledger.load none) calls

/-- The blocks that the accepted calls returned. -/
abbrev anchoredBlocks (key : P.PrivateKey) (calls : List LedgerCall) : List Block :=
  outputs (callLedger P key) (anchored P key) (Ledger.load none) calls

/-- The epoch and the root that an accepted call was given. -/
def givenRoot (key : P.PrivateKey) (ledger : Ledger) : LedgerCall → Option (ℤ × String)
  | .anchor fogId coins timestamp epochId rootHex leafCount =>
    if (anchored P key ledger (.anchor fogId coins timestamp epochId rootHex leafCount)).isSome then
      some (epochId, rootHex)
    else none
  | .reload => none

/-- The epochs and roots that the accepted calls were given. -/
abbrev givenRoots (key : P.PrivateKey) (calls : List LedgerCall) : List (ℤ × String) :=
  outputs (callLedger P key) (givenRoot key) (Ledger.load none) calls

theorem anchorRoot_cases (ledger : Ledger) (key : P.PrivateKey) (fogId : String) (coins : ℕ)
    (timestamp : String) (epochId : ℤ) (rootHex : String) (leafCount : ℤ) :
    (∃ e, ledger.anchorRoot P key fogId coins timestamp none epochId rootHex leafCount =
      (.error e, ledger, [])) ∨
    ∃ block, block = ledger.nextBlock P key fogId coins timestamp epochId rootHex leafCount ∧
      ledger.getRoot epochId = none ∧
      ledger.anchorRoot P key fogId coins timestamp none epochId rootHex leafCount =
        (.ok block, saved (appended ledger block), [canonicalJson P block.body]) := by
  unfold Ledger.anchorRoot
  split_ifs with hroot
  · exact .inl ⟨_, rfl⟩
  · cases hhex : fromhex rootHex with
    | error e => exact .inl ⟨e, rfl⟩
    | ok bytes =>
      dsimp only
      split_ifs with hlen
      · exact .inl ⟨_, rfl⟩
      · exact .inr ⟨_, rfl, by simpa [Ledger.getRoot] using hroot, rfl⟩

/-- A call leaves the ledger as it was, or reloads it, or appends and saves one block. -/
inductive CallEffect (key : P.PrivateKey) (ledger : Ledger) (c : LedgerCall) : Ledger → Prop
  | rejected (hblock : anchored P key ledger c = none) (hroot : givenRoot key ledger c = none) :
      CallEffect key ledger c ledger
  | reloaded (hc : c = .reload) : CallEffect key ledger c (Ledger.load ledger.file)
  | accepted {fogId : String} {coins : ℕ} {timestamp : String} {epochId : ℤ} {rootHex : String}
      {leafCount : ℤ} {block : Block}
      (hc : c = .anchor fogId coins timestamp epochId rootHex leafCount)
      (hb : block = ledger.nextBlock P key fogId coins timestamp epochId rootHex leafCount)
      (hnew : ledger.getRoot epochId = none)
      (hblock : anchored P key ledger c = some block)
      (hroot : givenRoot key ledger c = some (epochId, rootHex)) :
      CallEffect key ledger c (saved (appended ledger block))

theorem callLedger_effect (key : P.PrivateKey) (ledger : Ledger) (c : LedgerCall) :
    CallEffect key ledger c (callLedger P key ledger c) := by
  cases c with
  | reload => exact .reloaded rfl
  | anchor fogId coins timestamp epochId rootHex leafCount =>
    rcases anchorRoot_cases ledger key fogId coins timestamp epochId rootHex leafCount with
      ⟨e, hout⟩ | ⟨block, hb, hnew, hout⟩
    · have hnone : anchored P key ledger (.anchor fogId coins timestamp epochId rootHex leafCount) =
          none := by
        simp only [anchored, hout, Except.toOption]
      simp only [callLedger, hout]
      exact .rejected hnone (by simp only [givenRoot, hnone]; rfl)
    · have hsome : anchored P key ledger (.anchor fogId coins timestamp epochId rootHex leafCount) =
          some block := by
        simp only [anchored, hout, Except.toOption]
      simp only [callLedger, hout]
      exact .accepted rfl hb hnew hsome (by simp only [givenRoot, hsome]; rfl)

theorem prevHash_eq (ledger : Ledger) :
    ledger.prevHash = lastName blockLinks GENESIS_PREV_HASH ledger.blocks := by
  rcases List.eq_nil_or_concat' ledger.blocks with h | ⟨init, last, h⟩
  · simp [Ledger.prevHash, h, lastName]
  · rw [Ledger.prevHash, h, lastName_snoc, List.getLast?_concat]
    rfl

/-- The ledger is what a reload of its file gives, and its blocks form a chain of blocks
for different epochs. -/
structure LedgerSound (P : Platform) (ledger : Ledger) : Prop where
  loads : Ledger.load ledger.file = ledger
  hashed : ∀ b ∈ ledger.blocks, b.blockHash = blockHash P b.body b.signature
  linked : Linked blockLinks 0 GENESIS_PREV_HASH ledger.blocks
  distinct : (ledger.blocks.map Block.epochId).Nodup

theorem LedgerSound.cache (h : LedgerSound P ledger) :
    ledger.rootCache = Dict.ofList (ledger.blocks.map fun b ↦ (b.epochId, b.root)) := by
  rw [← h.loads]
  rfl

theorem LedgerSound.getRoot_eq (h : LedgerSound P ledger) (epochId : ℤ) :
    ledger.getRoot epochId =
      Dict.lookup epochId (ledger.blocks.map fun b ↦ (b.epochId, b.root)) := by
  rw [Ledger.getRoot, h.cache]
  apply Dict.get?_ofList
  rw [List.map_map]
  exact h.distinct

theorem LedgerSound.call (h : LedgerSound P ledger) (key : P.PrivateKey) (c : LedgerCall) :
    LedgerSound P (callLedger P key ledger c) := by
  have he := callLedger_effect key ledger c
  generalize callLedger P key ledger c = ledger' at he
  cases he with
  | rejected => exact h
  | reloaded =>
    rw [h.loads]
    exact h
  | @accepted fogId coins timestamp epochId rootHex leafCount block hc hb hnew =>
    have hepoch : block.epochId = epochId := by rw [hb]; rfl
    constructor
    · simp only [saved, appended, Ledger.load, Option.getD_some, List.map_append, List.map_cons,
        List.map_nil, Dict.ofList_snoc, ← h.cache]
    · intro b hmem
      rcases List.mem_append.mp hmem with hmem | hmem
      · exact h.hashed b hmem
      · rw [List.mem_singleton.mp hmem, hb]
        rfl
    · refine linked_append.mpr ⟨h.linked, ?_, ?_, trivial⟩
      · rw [hb]
        simp [blockLinks, Ledger.nextBlock]
      · rw [← prevHash_eq, hb]
        rfl
    · rw [h.getRoot_eq, Dict.lookup_eq_none, List.map_map] at hnew
      simp only [saved, appended, List.map_append, List.map_cons, List.map_nil]
      rw [List.nodup_append]
      refine ⟨h.distinct, List.nodup_singleton _, ?_⟩
      intro e he e' he' heq
      rw [List.mem_singleton.mp he', hepoch] at heq
      exact hnew (heq ▸ he)

theorem ledgerSound_after (key : P.PrivateKey) (calls : List LedgerCall) :
    LedgerSound P (ledgerAfter key calls) :=
  run_invariant (fun _ c h ↦ h.call key c)
    ⟨rfl, fun _ hb ↦ absurd hb List.not_mem_nil, trivial, List.nodup_nil⟩ calls

/-- The blocks are those that the accepted calls returned, with the roots they were given. -/
theorem blocks_after (key : P.PrivateKey) (calls : List LedgerCall) :
    (ledgerAfter key calls).blocks = anchoredBlocks key calls ∧
      (anchoredBlocks key calls).map (fun b ↦ (b.epochId, b.root)) = givenRoots key calls := by
  induction calls using List.reverseRecOn with
  | nil => exact ⟨rfl, rfl⟩
  | append_singleton calls c ih =>
    obtain ⟨hblocks, hroots⟩ := ih
    have hsound := ledgerSound_after key calls
    have he := callLedger_effect key (ledgerAfter key calls) c
    simp only [ledgerAfter, anchoredBlocks, givenRoots, run_snoc, outputs_snoc] at hblocks hroots ⊢
    generalize callLedger P key (run (callLedger P key) (Ledger.load none) calls) c = ledger' at he
    cases he with
    | rejected hblock hroot =>
      rw [hblock, hroot]
      exact ⟨by simpa using hblocks, by simpa using hroots⟩
    | reloaded hc =>
      subst hc
      rw [hsound.loads]
      exact ⟨by simpa [anchored] using hblocks, by simpa [anchored, givenRoot] using hroots⟩
    | accepted hc hb hnew hblock hroot =>
      rw [hblock, hroot]
      refine ⟨by simp [saved, appended, hblocks], ?_⟩
      rw [List.map_append, hroots, hb]
      rfl

theorem find_root (blocks : List Block) (epochId : ℤ) :
    (blocks.find? fun b ↦ b.epochId = epochId).map Block.root =
      Dict.lookup epochId (blocks.map fun b ↦ (b.epochId, b.root)) := by
  induction blocks with
  | nil => rfl
  | cons b blocks ih =>
    simp only [List.find?_cons, List.map_cons, Dict.lookup]
    split
    case h_1 h => rw [if_pos (by simpa using h), Option.map_some]
    case h_2 h => rw [if_neg (by simpa using h), ih]

theorem seals_after (hkey : SignsCorrectly P key) (calls : List LedgerCall) :
    ∀ b ∈ (ledgerAfter key calls).blocks, Sealed P (publicKeyBytes P key) b := by
  induction calls using List.reverseRecOn with
  | nil => exact fun _ hb ↦ absurd hb List.not_mem_nil
  | append_singleton calls c ih =>
    have he := callLedger_effect key (ledgerAfter key calls) c
    simp only [ledgerAfter, run_snoc] at he ⊢
    generalize callLedger P key (run (callLedger P key) (Ledger.load none) calls) c = ledger' at he
    cases he with
    | rejected => exact ih
    | reloaded =>
      rw [(ledgerSound_after key calls).loads]
      exact ih
    | @accepted fogId coins timestamp epochId rootHex leafCount block hc hb hnew =>
      intro b hmem
      rcases List.mem_append.mp hmem with hmem | hmem
      · exact ih b hmem
      · rw [List.mem_singleton.mp hmem, hb]
        exact nextBlock_sealed hkey _ _ _ _ _ _ _

/-- What is true of the ledger after the listed calls. -/
structure LedgerAgrees (key : P.PrivateKey) (calls : List LedgerCall) (ledger : Ledger) :
    Prop where
  blocks_eq : ledger.blocks = anchoredBlocks key calls
  index_eq : ∀ i (b : Block), ledger.blocks[i]? = some b → b.blockIndex = i
  prev_genesis : ∀ b : Block, ledger.blocks[0]? = some b → b.prevHash = GENESIS_PREV_HASH
  prev_eq : ∀ i (a b : Block), ledger.blocks[i]? = some a → ledger.blocks[i + 1]? = some b →
    b.prevHash = a.blockHash
  distinct : (ledger.blocks.map Block.epochId).Nodup
  valid : verifyChain P (publicKeyBytes P key) none
      (ledger.file.map fun blocks ↦ blocks.map Block.dump) =
    .ok (true, s!"chain valid ({(anchoredBlocks key calls).length} blocks)")
  root_eq : ∀ epochId, ledger.getRoot epochId = Dict.lookup epochId (givenRoots key calls)
  block_root : ∀ epochId, (ledger.getBlock epochId).map Block.root = ledger.getRoot epochId
  fixed : ∀ epochId root more, ledger.getRoot epochId = some root →
    (ledgerAfter key (calls ++ more)).getRoot epochId = some root ∧
      ((ledgerAfter key (calls ++ more)).getBlock epochId).map Block.root = some root
  reload_eq : Ledger.load ledger.file = ledger

theorem getRoot_after (key : P.PrivateKey) (calls : List LedgerCall) (epochId : ℤ) :
    (ledgerAfter key calls).getRoot epochId = Dict.lookup epochId (givenRoots key calls) := by
  obtain ⟨hblocks, hroots⟩ := blocks_after key calls
  rw [(ledgerSound_after key calls).getRoot_eq, hblocks, hroots]

theorem getBlock_after (key : P.PrivateKey) (calls : List LedgerCall) (epochId : ℤ) :
    ((ledgerAfter key calls).getBlock epochId).map Block.root =
      (ledgerAfter key calls).getRoot epochId := by
  rw [(ledgerSound_after key calls).getRoot_eq, Ledger.getBlock, find_root]

/-- Blocks, root cache and file agree after every run of anchoring calls and reloads. -/
theorem ledger_agrees (hkey : SignsCorrectly P key) (calls : List LedgerCall) :
    LedgerAgrees key calls (ledgerAfter key calls) := by
  have hsound := ledgerSound_after key calls
  obtain ⟨hblocks, hroots⟩ := blocks_after key calls
  have hfile : verifyChain P (publicKeyBytes P key) none
      ((ledgerAfter key calls).file.map fun blocks ↦ blocks.map Block.dump) =
      verifyChain P (publicKeyBytes P key) none
        (some ((ledgerAfter key calls).blocks.map Block.dump)) := by
    rw [← hsound.loads]
    cases (ledgerAfter key calls).file <;> rfl
  refine ⟨hblocks, fun i b hb ↦ ?_, fun b hb ↦ hsound.linked.prev_head hb,
    fun i a b ha hb ↦ hsound.linked.prev_eq ha hb, hsound.distinct, ?_, getRoot_after key calls,
    getBlock_after key calls, fun epochId root more hroot ↦ ?_, hsound.loads⟩
  · simpa [blockLinks] using hsound.linked.index_eq hb
  · have hvalid := verifyChain_dump fun b hb ↦ (seals_after hkey calls b hb).attested
    rw [hfile, hvalid.1 hsound.linked, hblocks]
  · rw [getBlock_after key, and_self, getRoot_after key, givenRoots, outputs_append]
    rw [getRoot_after key] at hroot
    exact Dict.lookup_append_left hroot

/-- A root in hexadecimal. -/
def plainRoot (seed : UInt8) : String := toHex (List.replicate 32 seed)

/-- Two epochs are anchored, the first of them a second time in vain, with a reload. -/
def twoAnchors : List LedgerCall :=
  [.anchor "fog1" 0 "2025-01-01T00:00:00Z" 2 (plainRoot 1) 4,
    .anchor "fog1" 0 "2025-01-01T00:00:01Z" 2 (plainRoot 2) 4, .reload,
    .anchor "fog1" 0 "2025-01-01T00:00:02Z" 1 (plainRoot 3) 5]

theorem twoAnchors_accepted :
    (anchoredBlocks (P := plainPlatform) (plainKey 1) twoAnchors).map Block.epochId = [2, 1] := by
  decide +kernel

theorem ledger_agrees_two :
    (anchoredBlocks (P := plainPlatform) (plainKey 1) twoAnchors).map Block.epochId = [2, 1] ∧
      LedgerAgrees (P := plainPlatform) (plainKey 1) twoAnchors
        (ledgerAfter (P := plainPlatform) (plainKey 1) twoAnchors) :=
  ⟨twoAnchors_accepted, ledger_agrees (plain_signsCorrectly (plainKey 1)) twoAnchors⟩

end FogNode.Proofs
