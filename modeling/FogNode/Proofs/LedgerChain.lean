import FogNode.Library.Linked
import FogNode.Source.Ledger

namespace FogNode.Proofs

open FogNode.Library FogNode.Source

variable {P : Platform} {pk : Bytes} {i : ℕ} {prev signature : String}
  {b body : List (String × Json)}

def blockLinks : Links Block String := ⟨Block.blockIndex, Block.prevHash, Block.blockHash⟩

/-- The block is signed and hashed as it stands. -/
structure Sealed (P : Platform) (pk : Bytes) (b : Block) : Prop where
  signature : ∃ sig, b.signature = toHex sig ∧ verify P pk (canonicalJson P b.body) sig = true
  hash : b.blockHash = blockHash P b.body b.signature

/-- The same with a signature in any hexadecimal spelling. -/
structure Attested (P : Platform) (pk : Bytes) (b : Block) : Prop where
  signature : ∃ sig, fromhex b.signature = .ok sig ∧ verify P pk (canonicalJson P b.body) sig = true
  hash : b.blockHash = blockHash P b.body b.signature

theorem Sealed.attested {b : Block} (h : Sealed P pk b) : Attested P pk b := by
  obtain ⟨sig, hsig, hvalid⟩ := h.signature
  exact ⟨⟨sig, hsig ▸ fromhex_toHex sig, hvalid⟩, h.hash⟩

theorem nextBlock_sealed {key : P.PrivateKey} (hkey : SignsCorrectly P key) (ledger : Ledger)
    (fogId : String) (coins : ℕ) (timestamp : String) (epochId : ℤ) (rootHex : String)
    (leafCount : ℤ) : Sealed P (publicKeyBytes P key)
      (ledger.nextBlock P key fogId coins timestamp epochId rootHex leafCount) :=
  ⟨⟨_, rfl, hkey coins _⟩, rfl⟩

theorem field_of_items {keys : List String}
    (h : keys.mapM (fun k ↦ (getItem b k).map fun v ↦ (k, v)) = .ok body) {k : String}
    (hk : k ∈ keys) : Json.field k body = Json.field k b := by
  induction keys generalizing body with
  | nil => simp at hk
  | cons j keys ih =>
    rw [List.mapM_cons] at h
    cases hj : getItem b j with
    | error e =>
      rw [hj] at h
      cases h
    | ok v =>
      rw [hj] at h
      cases htail : keys.mapM (fun k ↦ (getItem b k).map fun v ↦ (k, v)) with
      | error e =>
        rw [htail] at h
        cases h
      | ok rest =>
        rw [htail] at h
        cases h
        simp only [Json.field]
        split
        case isTrue he =>
          subst he
          exact (getItem_ok.mp hj).symm
        case isFalse hne => exact ih htail ((List.mem_cons.mp hk).resolve_left (Ne.symm hne))

theorem field_of_body (h : bodyOf b = .ok body) {k : String} (hk : k ∈ BODY_FIELDS) :
    Json.field k body = Json.field k b := field_of_items h hk

theorem items_congr {b' : List (String × Json)} {keys : List String}
    (h : ∀ k ∈ keys, Json.field k b = Json.field k b') :
    keys.mapM (fun k ↦ (getItem b k).map fun v ↦ (k, v)) =
      keys.mapM (fun k ↦ (getItem b' k).map fun v ↦ (k, v)) := by
  induction keys with
  | nil => rfl
  | cons j keys ih =>
    have hj : getItem b j = getItem b' j := by simp only [getItem, h j List.mem_cons_self]
    rw [List.mapM_cons, List.mapM_cons, hj, ih fun k hk ↦ h k (List.mem_cons_of_mem _ hk)]

theorem bodyOf_congr {b' : List (String × Json)}
    (h : ∀ k ∈ BODY_FIELDS, Json.field k b = Json.field k b') : bodyOf b = bodyOf b' :=
  items_congr h

theorem bodyOf_body (b : Block) : bodyOf b.body = .ok b.body := rfl

theorem bodyOf_dump (b : Block) : bodyOf b.dump = .ok b.body := rfl

/-- What `verify_chain` has found of a block when it goes on to the next one. -/
structure BlockChecked (P : Platform) (pk : Bytes) (i : ℕ) (prev : String)
    (b body : List (String × Json)) (signature : String) : Prop where
  body_eq : bodyOf b = .ok body
  index : ∃ index, Json.field "block_index" b = some index ∧ equalsIndex i index = true
  link : Json.field "prev_hash" b = some (.str prev)
  signature_eq : Json.field "signature" b = some (.str signature)
  valid : ∃ sig, fromhex signature = .ok sig ∧ verify P pk (canonicalJson P body) sig = true
  hash_eq : Json.field "block_hash" b = some (.str (blockHash P body signature))

theorem equalsIndex_int (n : ℕ) : equalsIndex i (.int n) = decide (n = i) :=
  decide_eq_decide.mpr Int.natCast_inj

theorem blockHashJson_str (body : List (String × Json)) (signature : String) :
    blockHashJson P body (.str signature) = blockHash P body signature := rfl

theorem bind_eq_ok {α β : Type} {x : Except PyError α} {f : α → Except PyError β} {r : β}
    (h : (x >>= f) = .ok r) : ∃ a, x = .ok a ∧ f a = .ok r := by
  cases x with
  | error e => cases h
  | ok a => exact ⟨a, rfl, h⟩

theorem map_eq_ok {α β : Type} {x : Except PyError α} {f : α → β} {b : β} :
    x.map f = .ok b ↔ ∃ a, x = .ok a ∧ f a = b := by
  cases x <;> simp [Except.map]

theorem fromhexJson_ok {j : Json} {bytes : Bytes} (h : fromhexJson j = .ok bytes) :
    ∃ s, j = .str s ∧ fromhex s = .ok bytes := by
  cases j with
  | str s => exact ⟨s, rfl, h⟩
  | _ => cases h

theorem verifyBlocks_cons {blocks : List (List (String × Json))}
    (h : verifyBlocks P pk i prev (b :: blocks) = .ok none) :
    ∃ body signature, BlockChecked P pk i prev b body signature ∧
      verifyBlocks P pk (i + 1) (blockHash P body signature) blocks = .ok none := by
  unfold verifyBlocks at h
  cases hbody : bodyOf b with
  | error e =>
    rw [hbody] at h
    cases e <;> cases h
  | ok body =>
  simp only [hbody] at h
  obtain ⟨index, hindex, h⟩ := bind_eq_ok h
  split at h
  · cases h
  rename_i heq
  obtain ⟨link, hlink, h⟩ := bind_eq_ok h
  split at h
  · cases h
  rename_i hprev
  obtain ⟨signatureJson, hsignature, h⟩ := bind_eq_ok h
  obtain ⟨sig, hsig, h⟩ := bind_eq_ok h
  split at h
  · cases h
  rename_i hvalid
  obtain ⟨hash, hhash, h⟩ := bind_eq_ok h
  split at h
  · cases h
  rename_i hequal
  obtain ⟨signature, rfl, hhex⟩ := fromhexJson_ok hsig
  rw [Bool.not_eq_false, equalsText_iff] at hprev hequal
  rw [Bool.not_eq_false] at heq hvalid
  subst hprev hequal
  exact ⟨body, signature, ⟨hbody, ⟨index, getItem_ok.mp hindex, heq⟩, getItem_ok.mp hlink,
    getItem_ok.mp hsignature, ⟨sig, hhex, hvalid⟩, getItem_ok.mp hhash⟩, h⟩

theorem getItem_dump (b : Block) :
    getItem b.dump "block_index" = .ok (.int b.blockIndex) ∧
      getItem b.dump "prev_hash" = .ok (.str b.prevHash) ∧
      getItem b.dump "signature" = .ok (.str b.signature) ∧
      getItem b.dump "block_hash" = .ok (.str b.blockHash) := ⟨rfl, rfl, rfl, rfl⟩

/-- Over signed and hashed blocks `verify_chain` checks that they are linked. -/
theorem verifyBlocks_dump {blocks : List Block} (hblocks : ∀ b ∈ blocks, Attested P pk b) :
    ∃ out, verifyBlocks P pk i prev (blocks.map Block.dump) = .ok out ∧
      (out = none ↔ Linked blockLinks i prev blocks) := by
  induction blocks generalizing i prev with
  | nil => exact ⟨none, rfl, by simp [Linked]⟩
  | cons b blocks ih =>
    obtain ⟨sig, hsig, hvalid⟩ := (hblocks b List.mem_cons_self).signature
    have hhash := (hblocks b List.mem_cons_self).hash
    have hrest : ∃ out, verifyBlocks P pk (i + 1) b.blockHash (blocks.map Block.dump) = .ok out ∧
        (out = none ↔ Linked blockLinks (i + 1) b.blockHash blocks) :=
      ih fun b' hb' ↦ hblocks b' (List.mem_cons_of_mem _ hb')
    obtain ⟨out, hout, hiff⟩ := hrest
    obtain ⟨hindex, hprev, hsignature, hblockHash⟩ := getItem_dump b
    have hhex : fromhexJson (.str b.signature) = .ok sig := hsig
    have hsame : equalsText b.blockHash (.str b.blockHash) = true := equalsText_iff.mpr rfl
    simp only [List.map_cons, verifyBlocks, bodyOf_dump, hindex, hprev, hsignature, hblockHash,
      hhex, hvalid, blockHashJson_str, ← hhash, hsame, hout, equalsIndex_int, bind, Except.bind,
      Linked, blockLinks]
    by_cases hi : b.blockIndex = i
    · by_cases hp : b.prevHash = prev
      · refine ⟨out, ?_, ?_⟩
        · simp [equalsText, hi, hp]
        · rw [hiff]
          simp [blockLinks, hi, hp]
      · refine ⟨some s!"block {i}: prev_hash does not link to block {(i : ℤ) - 1}", ?_, ?_⟩
        · simp [equalsText, hi, hp]
          rfl
        · simp [hp]
    · refine ⟨some s!"block {i}: wrong index {pyStr P (.int b.blockIndex)}", ?_, ?_⟩
      · simp [hi]
        rfl
      · simp [hi]

theorem verifyChain_true {blocks : List (List (String × Json))} {message : String}
    (h : verifyChain P pk none (some blocks) = .ok (true, message)) :
    verifyBlocks P pk 0 GENESIS_PREV_HASH blocks = .ok none := by
  obtain ⟨out, hout, h⟩ := bind_eq_ok h
  cases out with
  | none => exact hout
  | some message => cases h

/-- Over signed and hashed blocks `verify_chain` answers True exactly when they are linked,
and else False. -/
theorem verifyChain_dump {blocks : List Block} (hattested : ∀ b ∈ blocks, Attested P pk b) :
    (Linked blockLinks 0 GENESIS_PREV_HASH blocks →
      verifyChain P pk none (some (blocks.map Block.dump)) =
        .ok (true, s!"chain valid ({blocks.length} blocks)")) ∧
    (¬ Linked blockLinks 0 GENESIS_PREV_HASH blocks →
      ∃ message, verifyChain P pk none (some (blocks.map Block.dump)) = .ok (false, message)) := by
  have hblocks : ∃ out,
      verifyBlocks P pk 0 GENESIS_PREV_HASH (blocks.map Block.dump) = .ok out ∧
      (out = none ↔ Linked blockLinks 0 GENESIS_PREV_HASH blocks) := verifyBlocks_dump hattested
  obtain ⟨out, hout, hiff⟩ := hblocks
  constructor
  · intro hlinked
    rw [hiff.mpr hlinked] at hout
    simp only [verifyChain, Option.getD_some, hout, List.length_map]
    rfl
  · intro hnot
    cases out with
    | none => exact absurd (hiff.mp rfl) hnot
    | some message =>
      refine ⟨message, ?_⟩
      simp only [verifyChain, Option.getD_some, hout]
      rfl

end FogNode.Proofs
