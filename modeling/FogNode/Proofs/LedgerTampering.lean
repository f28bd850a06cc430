import FogNode.Proofs.LedgerRuns
import FogNode.Source.Tokens

namespace FogNode.Proofs

open FogNode.Library FogNode.Source

variable {P : Platform} {key : P.PrivateKey} {calls : List LedgerCall} {i : ℕ}
  {blocks : List (List (String × Json))} {b body : List (String × Json)}

/-- A message that the fog signs: the body of one of the blocks, the fields of a token,
or those of a package. -/
inductive FogMessage (P : Platform) (blocks : List Block) : Bytes → Prop
  | block {b : Block} (h : b ∈ blocks) : FogMessage P blocks (canonicalJson P b.body)
  | token (tokenId did publicKeyHex : String) (deviceType role : Option String)
      (epochId ttl : ℤ) (now : ℚ) :
      FogMessage P blocks (canonicalJson P
        (tokenFields tokenId did publicKeyHex deviceType role epochId ttl now))
  | package (pkg : ProofPackage) : FogMessage P blocks (pkg.message P)

theorem body_of_same {block : Block} (hbody : bodyOf b = .ok body)
    (hsame : Json.SameDict body block.body) : body = block.body := by
  have hfield : ∀ k ∈ BODY_FIELDS, Json.field k b = Json.field k block.body := by
    intro k hk
    rw [← field_of_body hbody hk]
    simp only [BODY_FIELDS, List.mem_cons, List.not_mem_nil, or_false] at hk
    rcases hk with rfl | rfl | rfl | rfl | rfl | rfl | rfl
    · exact hsame.field_int rfl
    · exact hsame.field_int rfl
    · exact hsame.field_str rfl
    · exact hsame.field_int rfl
    · exact hsame.field_str rfl
    · exact hsame.field_str rfl
    · exact hsame.field_str rfl
  have heq := bodyOf_congr hfield
  rw [hbody, bodyOf_body] at heq
  exact Except.ok.inj heq

theorem body_of_message {blocks : List Block} (hbody : bodyOf b = .ok body)
    (hindex : Json.field "block_index" b ≠ none)
    (h : FogMessage P blocks (canonicalJson P body)) : ∃ block ∈ blocks, body = block.body := by
  have hindex' : Json.field "block_index" body ≠ none := by
    rwa [field_of_body hbody (by decide)]
  generalize hm : canonicalJson P body = m at h
  cases h with
  | @block block hb =>
    exact ⟨block, hb, body_of_same hbody (Json.canonical_sameDict P.floats hm)⟩
  | token =>
    refine absurd ((Json.canonical_sameDict P.floats hm).field_none ?_) hindex'
    simp [tokenFields, Json.field]
  | package pkg =>
    refine absurd ((Json.canonical_sameDict P.floats hm).field_none ?_) hindex'
    simp [packageFields, Json.field]

theorem checked_at {pk : Bytes} {prev : String} (h : verifyBlocks P pk i prev blocks = .ok none)
    {k : ℕ} (hk : blocks[k]? = some b) :
    ∃ prev body signature, BlockChecked P pk (i + k) prev b body signature ∧
      ∀ c, blocks[k + 1]? = some c →
        Json.field "prev_hash" c = some (.str (blockHash P body signature)) := by
  induction blocks generalizing i prev k with
  | nil => simp at hk
  | cons a blocks ih =>
    obtain ⟨body, signature, hchecked, htail⟩ := verifyBlocks_cons h
    cases k with
    | zero =>
      obtain rfl : a = b := by simpa using hk
      refine ⟨prev, body, signature, hchecked, fun c hc ↦ ?_⟩
      cases blocks with
      | nil => simp at hc
      | cons d blocks =>
        obtain rfl : d = c := by simpa using hc
        obtain ⟨_, _, hnext, -⟩ := verifyBlocks_cons htail
        exact hnext.link
    | succ k =>
      obtain ⟨prev', body', signature', hchecked', hnext⟩ := ih htail (by simpa using hk)
      refine ⟨prev', body', signature', ?_, fun c hc ↦ hnext c (by simpa using hc)⟩
      rwa [Nat.add_right_comm] at hchecked'

/-- What is hashed for the hash of a block. -/
def sealInput (P : Platform) (body : List (String × Json)) (signature : String) : Bytes :=
  canonicalJson P (body ++ [("signature", .str signature)])

/-- The block at the position stands there as it was anchored; only the last one may
carry another signature. -/
structure StandsAt (blocks : List (List (String × Json))) (i : ℕ) (b : List (String × Json))
    (block : Block) : Prop where
  body_eq : bodyOf b = .ok block.body
  sealed_eq : i + 1 < blocks.length →
    Json.field "signature" b = some (.str block.signature) ∧
      Json.field "block_hash" b = some (.str block.blockHash)

/-- A block in the file and the block that was anchored at its position are hashed from
different bytes to the same digest. -/
def SealCollision (P : Platform) (blocks : List (List (String × Json)))
    (anchored : List Block) : Prop :=
  ∃ (i : ℕ) (b body : List (String × Json)) (signature : String) (block : Block),
    blocks[i]? = some b ∧ bodyOf b = .ok body ∧
    Json.field "signature" b = some (.str signature) ∧ anchored[i]? = some block ∧
    sealInput P body signature ≠ sealInput P block.body block.signature ∧
    P.sha256 (sealInput P body signature) = P.sha256 (sealInput P block.body block.signature)

theorem sealInput_signature {signature signature' : String}
    (hbody : Json.field "signature" body = none)
    (h : sealInput P body signature = sealInput P body signature') : signature = signature' := by
  have happend : ∀ s, Json.field "signature" (body ++ [("signature", Json.str s)]) =
      some (.str s) := by
    intro s
    clear h
    induction body with
    | nil => rfl
    | cons e body ih =>
      unfold Json.field at hbody
      split at hbody
      case isTrue => cases hbody
      case isFalse hne =>
        simp only [List.cons_append, Json.field, if_neg hne]
        exact ih hbody
  have hs := (Json.canonical_sameDict P.floats h).field_str (happend signature')
  rw [happend] at hs
  cases hs
  rfl

/-- A block that passes at a position is the one that was anchored there. -/
theorem anchored_at {pk : Bytes} {prev signature : String} {ledger : Ledger}
    (hsound : LedgerSound P ledger) (hchecked : BlockChecked P pk i prev b body signature)
    (hunforged : FogMessage P ledger.blocks (canonicalJson P body)) :
    ∃ block, ledger.blocks[i]? = some block ∧ body = block.body := by
  obtain ⟨index, hindex, heq⟩ := hchecked.index
  obtain ⟨block, hmem, hbody⟩ := body_of_message hchecked.body_eq (by simp [hindex]) hunforged
  obtain ⟨j, hj, rfl⟩ := List.getElem_of_mem hmem
  have hget := List.getElem?_eq_getElem hj
  have hposition := hsound.linked.index_eq hget
  have hfield : Json.field "block_index" b = some (.int (ledger.blocks[j].blockIndex : ℤ)) := by
    rw [← field_of_body hchecked.body_eq (by decide), hbody]
    rfl
  rw [hindex] at hfield
  cases hfield
  rw [equalsIndex_int, decide_eq_true_eq] at heq
  obtain rfl : j = i := by
    simp only [blockLinks] at hposition
    omega
  exact ⟨_, hget, hbody⟩

/-- The signature that the block carries is no forgery: if it verifies under the fog key for
the body, the body is a message that the fog signs. -/
def GenuineBlock (key : P.PrivateKey) (anchored : List Block) (b : List (String × Json)) : Prop :=
  ∀ body signature sig, bodyOf b = .ok body →
    Json.field "signature" b = some (.str signature) → fromhex signature = .ok sig →
    verify P (publicKeyBytes P key) (canonicalJson P body) sig = true →
    FogMessage P anchored (canonicalJson P body)

/-- Whatever blocks are written over the file of a ledger, they pass only if they are the
first blocks that were anchored, or a collision of the hash can be read off. -/
theorem chain_content (key : P.PrivateKey) (calls : List LedgerCall)
    (blocks : List (List (String × Json))) {message : String}
    (hgenuine : ∀ b ∈ blocks, GenuineBlock key (anchoredBlocks key calls) b)
    (hvalid : verifyChain P (publicKeyBytes P key) none (some blocks) = .ok (true, message)) :
    (blocks.length ≤ (anchoredBlocks key calls).length ∧
      ∀ i b, blocks[i]? = some b →
        ∃ block, (anchoredBlocks key calls)[i]? = some block ∧ StandsAt blocks i b block) ∨
    SealCollision P blocks (anchoredBlocks key calls) := by
  have hsound := ledgerSound_after key calls
  rw [← (blocks_after key calls).1] at hgenuine ⊢
  generalize ledgerAfter key calls = ledger at hsound hgenuine ⊢
  have hblocks := verifyChain_true hvalid
  have hat : ∀ i b, blocks[i]? = some b → ∃ prev body signature block,
      BlockChecked P (publicKeyBytes P key) i prev b body signature ∧
      ledger.blocks[i]? = some block ∧ body = block.body ∧
      ∀ c, blocks[i + 1]? = some c →
        Json.field "prev_hash" c = some (.str (blockHash P body signature)) := by
    intro i b hb
    obtain ⟨prev, body, signature, hchecked, hnext⟩ := checked_at hblocks hb
    rw [Nat.zero_add] at hchecked
    obtain ⟨sig, hsig, hverify⟩ := hchecked.valid
    obtain ⟨block, hget, hbody⟩ := anchored_at hsound hchecked
      (hgenuine b (List.mem_of_getElem? hb) body signature sig hchecked.body_eq
        hchecked.signature_eq hsig hverify)
    exact ⟨prev, body, signature, block, hchecked, hget, hbody, hnext⟩
  refine or_iff_not_imp_right.mpr fun hcol ↦ ⟨?_, fun i b hb ↦ ?_⟩
  · by_contra hlong
    have hi : ledger.blocks.length < blocks.length := by omega
    obtain ⟨_, _, _, block, -, hget, -⟩ := hat _ _ (List.getElem?_eq_getElem hi)
    rw [List.getElem?_eq_none le_rfl] at hget
    cases hget
  · obtain ⟨prev, body, signature, block, hchecked, hget, hbody, hnext⟩ := hat i b hb
    refine ⟨block, hget, hbody ▸ hchecked.body_eq, fun hi ↦ ?_⟩
    have hc := List.getElem?_eq_getElem hi
    obtain ⟨_, body', _, block', hchecked', hget', hbody', -⟩ := hat _ _ hc
    have hlink : blockHash P body signature = block.blockHash := by
      have hprev := hnext _ hc
      rw [← field_of_body hchecked'.body_eq (by decide), hbody'] at hprev
      have heq : block'.prevHash = block.blockHash := hsound.linked.prev_eq hget hget'
      rw [← heq]
      simpa [Block.body, Json.field, eq_comm] using hprev
    have hhash := hchecked.hash_eq
    rw [hlink] at hhash
    refine ⟨?_, hhash⟩
    rw [hsound.hashed block (List.mem_of_getElem? hget)] at hlink
    have hdigest := toHex_inj.mp hlink
    have hinput : sealInput P body signature = sealInput P block.body block.signature := by
      by_contra hne
      exact hcol ⟨i, b, body, signature, block, hb, hchecked.body_eq, hchecked.signature_eq, hget,
        hne, hdigest⟩
    rw [hbody] at hinput
    rw [hchecked.signature_eq, sealInput_signature rfl hinput]

/-- The blocks that were anchored are signed, hashed and linked. -/
theorem anchored_chain (hkey : SignsCorrectly P key) (calls : List LedgerCall) :
    (∀ b ∈ anchoredBlocks key calls, Sealed P (publicKeyBytes P key) b) ∧
      Linked blockLinks 0 GENESIS_PREV_HASH (anchoredBlocks key calls) := by
  rw [← (blocks_after key calls).1]
  exact ⟨seals_after hkey calls, (ledgerSound_after key calls).linked⟩

theorem first_blocks_valid (hkey : SignsCorrectly P key) {calls : List LedgerCall}
    {kept : List Block} (hkept : kept <+: anchoredBlocks key calls) :
    verifyChain P (publicKeyBytes P key) none (some (kept.map Block.dump)) =
      .ok (true, s!"chain valid ({kept.length} blocks)") := by
  obtain ⟨hseals, hlinked⟩ := anchored_chain hkey calls
  exact (verifyChain_dump fun b hb ↦ (hseals b (hkept.subset hb)).attested).1
    (hlinked.of_prefix hkept)

/-- The blocks that two accepted calls return. -/
abbrev twoBlocks : List Block := anchoredBlocks (P := plainPlatform) (plainKey 1) twoAnchors

/-- The block with its signature spelled in another way, and hashed again. -/
def respelled (P : Platform) (b : Block) : Block :=
  { b with signature := " " ++ b.signature, blockHash := blockHash P b.body (" " ++ b.signature) }

/-- The last of two blocks is tampered with. -/
def tamper (P : Platform) : List Block → List Block
  | [b, c] => [b, respelled P c]
  | blocks => blocks

theorem Sealed.respelled {pk : Bytes} {c : Block} (h : Sealed P pk c) :
    Attested P pk (respelled P c) := by
  obtain ⟨sig, hsig, hvalid⟩ := h.signature
  refine ⟨⟨sig, ?_, hvalid⟩, rfl⟩
  show fromhex (" " ++ c.signature) = .ok sig
  rw [hsig, fromhex_ok]
  exact fromHex_space sig

theorem tamper_valid {pk : Bytes} {anchored : List Block} (hseals : ∀ b ∈ anchored, Sealed P pk b)
    (hlinked : Linked blockLinks 0 GENESIS_PREV_HASH anchored) :
    verifyChain P pk none (some ((tamper P anchored).map Block.dump)) =
      .ok (true, s!"chain valid ({(tamper P anchored).length} blocks)") := by
  unfold tamper
  split
  · rename_i b c
    refine (verifyChain_dump fun d hd ↦ ?_).1 hlinked
    rcases List.mem_pair.mp hd with rfl | rfl
    · exact (hseals _ List.mem_cons_self).attested
    · exact (hseals c (by simp)).respelled
  · exact (verifyChain_dump fun b hb ↦ (hseals b hb).attested).1 hlinked

theorem tamper_message {anchored : List Block} (hb : b ∈ (tamper P anchored).map Block.dump)
    (hbody : bodyOf b = .ok body) : FogMessage P anchored (canonicalJson P body) := by
  obtain ⟨block, hmem, rfl⟩ := List.mem_map.mp hb
  rw [bodyOf_dump] at hbody
  cases hbody
  unfold tamper at hmem
  split at hmem
  · rename_i b c
    rcases List.mem_pair.mp hmem with rfl | rfl
    · exact .block List.mem_cons_self
    · exact FogMessage.block (b := c) (by simp)
  · exact .block hmem

theorem tamper_other {anchored : List Block} (h : anchored.length = 2) :
    (tamper P anchored).map Block.signature ≠ anchored.map Block.signature := by
  obtain ⟨b, c, rfl⟩ := List.length_eq_two.mp h
  intro heq
  simp only [tamper, respelled, List.map_cons, List.cons.injEq] at heq
  have hlength := congrArg String.length heq.2.1
  rw [String.length_append] at hlength
  have hspace : " ".length = 1 := rfl
  omega

theorem twoBlocks_length : twoBlocks.length = 2 := by decide +kernel

/-- The two blocks, the last of them tampered with. -/
abbrev tamperedBlocks : List Block := tamper plainPlatform twoBlocks

/-- A file passes that is not the one the ledger wrote. -/
theorem chain_content_two : twoBlocks.length = 2 ∧
    tamperedBlocks.map Block.signature ≠ twoBlocks.map Block.signature ∧
    (((tamperedBlocks.map Block.dump).length ≤ twoBlocks.length ∧
        ∀ i b, (tamperedBlocks.map Block.dump)[i]? = some b → ∃ block,
          twoBlocks[i]? = some block ∧ StandsAt (tamperedBlocks.map Block.dump) i b block) ∨
      SealCollision plainPlatform (tamperedBlocks.map Block.dump) twoBlocks) := by
  obtain ⟨hseals, hlinked⟩ := anchored_chain (plain_signsCorrectly (plainKey 1)) twoAnchors
  have hcontent := chain_content (P := plainPlatform) (plainKey 1) twoAnchors
    (tamperedBlocks.map Block.dump) (fun _ hb _ _ _ hbody _ _ _ ↦ tamper_message hb hbody)
    (tamper_valid hseals hlinked)
  exact ⟨twoBlocks_length, tamper_other twoBlocks_length, hcontent⟩

/-- Deleted blocks are noticed exactly when those that are kept are not the first ones. -/
theorem deletion_detected_iff (hkey : SignsCorrectly P key) (calls : List LedgerCall)
    (kept : List Block) (hsub : kept.Sublist (anchoredBlocks key calls)) :
    (∃ message, verifyChain P (publicKeyBytes P key) none (some (kept.map Block.dump)) =
        .ok (false, message)) ↔ ¬ kept <+: anchoredBlocks key calls := by
  constructor
  · rintro ⟨message, h⟩ hprefix
    rw [first_blocks_valid hkey hprefix] at h
    cases h
  · intro hnot
    obtain ⟨hseals, hlinked⟩ := anchored_chain hkey calls
    apply (verifyChain_dump fun b hb ↦ (hseals b (hsub.subset hb)).attested).2
    rwa [linked_sublist_iff hlinked hsub]

/-- The first of two blocks is deleted. -/
theorem deletion_detected_iff_first :
    (∃ message, verifyChain plainPlatform (publicKeyBytes plainPlatform (plainKey 1)) none
        (some ((twoBlocks.drop 1).map Block.dump)) = .ok (false, message)) ↔
      ¬ twoBlocks.drop 1 <+: twoBlocks :=
  deletion_detected_iff (plain_signsCorrectly (plainKey 1)) twoAnchors _ (List.drop_sublist 1 _)

/-- The last of two blocks is deleted. -/
theorem last_block_deleted :
    (twoBlocks.take 1).Sublist twoBlocks ∧ twoBlocks.take 1 ≠ twoBlocks ∧
      verifyChain plainPlatform (publicKeyBytes plainPlatform (plainKey 1)) none
          (some ((twoBlocks.take 1).map Block.dump)) = .ok (true, "chain valid (1 blocks)") := by
  have htake : (twoBlocks.take 1).length = 1 := by rw [List.length_take, twoBlocks_length]; rfl
  refine ⟨List.take_sublist 1 _, fun h ↦ ?_, ?_⟩
  · rw [h, twoBlocks_length] at htake
    cases htake
  · have hvalid := first_blocks_valid (plain_signsCorrectly (plainKey 1))
      (List.take_prefix 1 twoBlocks)
    rw [htake] at hvalid
    exact hvalid

end FogNode.Proofs
