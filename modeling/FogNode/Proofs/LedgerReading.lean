import FogNode.Proofs.Instance
import FogNode.Proofs.LedgerFile

namespace FogNode.Proofs

open FogNode.Library FogNode.Source

variable {P : Platform} {pk : Bytes} {i : ℕ} {prev : String} {b body : FileBlock}
  {blocks : List FileBlock}

/-- The block has the fields of a body and stands where its index and link say. -/
structure Placed (i : ℕ) (prev : String) (b body : FileBlock) : Prop where
  body_eq : fileBody b = .ok body
  index : fileItem b "block_index" = .ok (.int i)
  link : fileItem b "prev_hash" = .ok (.text (.ofString prev))

/-- The signature of the block is hexadecimal text. -/
structure HexSigned (b : FileBlock) (signature : String) (sig : Bytes) : Prop where
  signature_eq : fileItem b "signature" = .ok (.text (.ofString signature))
  hex : fromhex signature = .ok sig

/-- The block stands in its place, and its body is signed. -/
structure Certified (P : Platform) (pk : Bytes) (i : ℕ) (prev : String) (b : FileBlock)
    (fields : List (String × Json)) (signature : String) : Prop where
  placed : ∃ body, Placed i prev b body ∧ json? body = some fields
  signed : ∃ sig, HexSigned b signature sig ∧ verify P pk (canonicalJson P fields) sig = true

/-- The block raises an exception where it stands. -/
inductive Faulty (P : Platform) (pk : Bytes) (i : ℕ) (prev : String) (b : FileBlock) : Prop
  | surrogates {body : FileBlock} (h : Placed i prev b body) (hbody : json? body = none)
  | signature {body : FileBlock} (h : Placed i prev b body)
      (hsig : ∀ signature sig, ¬ HexSigned b signature sig)
  | hash {fields : List (String × Json)} {signature : String}
      (h : Certified P pk i prev b fields signature)
      (hhash : ∀ value, fileItem b "block_hash" ≠ .ok value)

/-- The block is in order where it stands, and has the hash. -/
inductive Stands (P : Platform) (pk : Bytes) (i : ℕ) (prev : String) (b : FileBlock) :
    String → Prop
  | intro {fields : List (String × Json)} {signature : String}
      (h : Certified P pk i prev b fields signature)
      (hhash : fileItem b "block_hash" = .ok (.text (.ofString (blockHash P fields signature)))) :
      Stands P pk i prev b (blockHash P fields signature)

/-- What the loop makes of a block, given what it makes of the blocks after it. -/
inductive Outcome (P : Platform) (pk : Bytes) (i : ℕ) (prev : String) (b : FileBlock)
    (rest : String → Except PyError (Option CodePoints)) :
    Except PyError (Option CodePoints) → Prop
  | stops {message : CodePoints} (hfault : ¬ Faulty P pk i prev b)
      (hstands : ∀ hash, ¬ Stands P pk i prev b hash) :
      Outcome P pk i prev b rest (.ok (some message))
  | raises {e : PyError} (hfault : Faulty P pk i prev b) : Outcome P pk i prev b rest (.error e)
  | goesOn {hash : String} (hfault : ¬ Faulty P pk i prev b) (hstands : Stands P pk i prev b hash) :
      Outcome P pk i prev b rest (rest hash)

theorem Placed.unique {body' : FileBlock} (h : Placed i prev b body) (h' : Placed i prev b body') :
    body = body' := Except.ok.inj (h.body_eq.symm.trans h'.body_eq)

/-- Blocks that are not where they should be, and do not raise. -/
theorem Outcome.of_misplaced {rest : String → Except PyError (Option CodePoints)}
    {message : CodePoints} (h : ∀ body, ¬ Placed i prev b body) :
    Outcome P pk i prev b rest (.ok (some message)) := by
  have hcertified : ∀ fields signature, ¬ Certified P pk i prev b fields signature := by
    rintro fields signature ⟨⟨body, hbody, -⟩, -⟩
    exact h body hbody
  refine .stops (fun hfault ↦ ?_) fun hash hstands ↦ ?_
  · cases hfault with
    | surrogates hplaced => exact h _ hplaced
    | signature hplaced => exact h _ hplaced
    | hash hc => exact hcertified _ _ hc
  · cases hstands with
    | intro hc => exact hcertified _ _ hc

section placed

variable {fields : List (String × Json)} {signature : String} {sig : Bytes}
  (hplaced : Placed i prev b body) (hfields : json? body = some fields)
  (hsigned : HexSigned b signature sig)

include hplaced hfields hsigned

theorem Certified.verified {fields' : List (String × Json)} {signature' : String}
    (h : Certified P pk i prev b fields' signature') :
    fields' = fields ∧ signature' = signature ∧
      verify P pk (canonicalJson P fields) sig = true := by
  obtain ⟨body', hplaced', hfields'⟩ := h.placed
  obtain rfl := hplaced.unique hplaced'
  cases hfields.symm.trans hfields'
  obtain ⟨sig', hsigned', hvalid⟩ := h.signed
  obtain rfl : signature = signature' := CodePoints.ofString_injective (FileValue.text.inj
    (Except.ok.inj (hsigned.signature_eq.symm.trans hsigned'.signature_eq)))
  cases hsigned.hex.symm.trans hsigned'.hex
  exact ⟨rfl, rfl, hvalid⟩

theorem not_faulty (hhash : verify P pk (canonicalJson P fields) sig = true →
    ∃ value, fileItem b "block_hash" = .ok value) : ¬ Faulty P pk i prev b := by
  intro hfault
  cases hfault with
  | surrogates hplaced' hnone =>
    obtain rfl := hplaced.unique hplaced'
    cases hfields.symm.trans hnone
  | signature _ hsig => exact hsig _ _ hsigned
  | hash hc hmissing =>
    obtain ⟨-, -, hvalid⟩ := hc.verified hplaced hfields hsigned
    obtain ⟨value, hvalue⟩ := hhash hvalid
    exact hmissing value hvalue

end placed

theorem verifyFile_outcome (P : Platform) (pk : Bytes) (i : ℕ) (prev : String) (b : FileBlock)
    (blocks : List FileBlock) : Outcome P pk i prev b
      (fun hash ↦ verifyFile P pk (i + 1) hash blocks) (verifyFile P pk i prev (b :: blocks)) := by
  generalize hrest : (fun hash ↦ verifyFile P pk (i + 1) hash blocks) = rest
  unfold verifyFile
  cases hbody : fileBody b with
  | error e =>
    obtain ⟨k, rfl⟩ := fileBody_error hbody
    refine .of_misplaced fun body hplaced ↦ ?_
    cases hbody.symm.trans hplaced.body_eq
  | ok body =>
  obtain ⟨index, hindex⟩ := fileBody_present hbody (k := "block_index") (by decide)
  obtain ⟨link, hlink⟩ := fileBody_present hbody (k := "prev_hash") (by decide)
  simp only [hindex, hlink, bind, Except.bind, pure, Except.pure]
  split_ifs with hi hp
  · refine .of_misplaced fun body hplaced ↦ hi ?_
    exact Except.ok.inj (hindex.symm.trans hplaced.index)
  · refine .of_misplaced fun body hplaced ↦ hp ?_
    exact Except.ok.inj (hlink.symm.trans hplaced.link)
  rw [not_not] at hi hp
  have hplaced : Placed i prev b body := ⟨hbody, hi ▸ hindex, hp ▸ hlink⟩
  cases hfields : json? body with
  | none =>
    simp only [canonicalFile, hfields]
    exact .raises (.surrogates hplaced hfields)
  | some fields =>
  rw [canonicalFile_ok hfields]
  dsimp only
  cases hvalue : fileItem b "signature" with
  | error e =>
    refine .raises (.signature hplaced fun signature sig hsigned ↦ ?_)
    cases hvalue.symm.trans hsigned.signature_eq
  | ok value =>
  dsimp only
  cases hsig : fromhexFile value with
  | error e =>
    refine .raises (.signature hplaced fun signature sig hsigned ↦ ?_)
    cases hvalue.symm.trans hsigned.signature_eq
    cases hsig.symm.trans ((fromhexFile_text signature).trans hsigned.hex)
  | ok sig =>
  obtain ⟨signature, rfl, hhex⟩ := fromhexFile_ok hsig
  have hsigned : HexSigned b signature sig := ⟨hvalue, hhex⟩
  have hhash : fileBlockHash P body (.text (.ofString signature)) =
      .ok (blockHash P fields signature) := hash_typed hfields (json?_text signature)
  dsimp only
  rw [hhash]
  split_ifs with hinvalid
  · refine .stops (not_faulty hplaced hfields hsigned fun hvalid ↦ ?_) fun hash hstands ↦ ?_
    · rw [hinvalid] at hvalid
      cases hvalid
    · cases hstands with
      | intro hc =>
        obtain ⟨-, -, hvalid⟩ := hc.verified hplaced hfields hsigned
        rw [hinvalid] at hvalid
        cases hvalid
  rw [Bool.not_eq_false] at hinvalid
  have hc : Certified P pk i prev b fields signature :=
    ⟨⟨body, hplaced, hfields⟩, sig, hsigned, hinvalid⟩
  dsimp only
  cases hblock : fileItem b "block_hash" with
  | error e =>
    refine .raises (.hash hc fun value hvalue ↦ ?_)
    cases hblock.symm.trans hvalue
  | ok value =>
  have hsound : ¬ Faulty P pk i prev b :=
    not_faulty hplaced hfields hsigned fun _ ↦ ⟨value, hblock⟩
  dsimp only
  split_ifs with heq
  · refine .stops hsound fun hash hstands ↦ heq ?_
    cases hstands with
    | intro hc' hhash' =>
      obtain ⟨rfl, rfl, -⟩ := hc'.verified hplaced hfields hsigned
      exact Except.ok.inj (hblock.symm.trans hhash')
  · rw [not_not] at heq
    rw [show verifyFile P pk (i + 1) (blockHash P fields signature) blocks =
      rest (blockHash P fields signature) from congrFun hrest _]
    exact .goesOn hsound (.intro hc (heq ▸ hblock))

/-- The blocks are in order one after the other, from position `i` and the hash `prev` on to
position `j` and the hash `last`. -/
inductive Leading (P : Platform) (pk : Bytes) : ℕ → String → List FileBlock → ℕ → String → Prop
  | nil (i : ℕ) (prev : String) : Leading P pk i prev [] i prev
  | cons {i j : ℕ} {prev hash last : String} {b : FileBlock} {blocks : List FileBlock}
      (h : Stands P pk i prev b hash) (ht : Leading P pk (i + 1) hash blocks j last) :
      Leading P pk i prev (b :: blocks) j last

/-- The first block that is not in order, if there is one, does not raise. -/
def NoneRaises (P : Platform) (pk : Bytes) (i : ℕ) (prev : String) (blocks : List FileBlock) :
    Prop :=
  ∀ before b later j last, blocks = before ++ b :: later → Leading P pk i prev before j last →
    ¬ Faulty P pk j last b

theorem Stands.unique {hash hash' : String} (h : Stands P pk i prev b hash)
    (h' : Stands P pk i prev b hash') : hash = hash' := by
  cases h with
  | intro hc hhash =>
  cases h' with
  | intro hc' hhash' =>
  exact CodePoints.ofString_injective (FileValue.text.inj
    (Except.ok.inj (hhash.symm.trans hhash')))

theorem noneRaises_cons : NoneRaises P pk i prev (b :: blocks) ↔ ¬ Faulty P pk i prev b ∧
    ∀ hash, Stands P pk i prev b hash → NoneRaises P pk (i + 1) hash blocks := by
  constructor
  · intro h
    refine ⟨h [] b blocks i prev rfl (.nil i prev), ?_⟩
    rintro hash hstands before c later j last rfl hleading
    exact h (b :: before) c later j last rfl (.cons hstands hleading)
  · rintro ⟨hsound, hrest⟩ before c later j last hsplit hleading
    cases hleading with
    | nil =>
      cases hsplit
      exact hsound
    | cons hstands htail =>
      cases hsplit
      exact hrest _ hstands _ c later j last rfl htail

/-- The loop comes to an end exactly when no block raises. -/
theorem verifyFile_returns_iff :
    (∃ out, verifyFile P pk i prev blocks = .ok out) ↔ NoneRaises P pk i prev blocks := by
  induction blocks generalizing i prev with
  | nil =>
    refine iff_of_true ⟨none, rfl⟩ fun before b later j last hsplit ↦ ?_
    simp at hsplit
  | cons b blocks ih =>
    rw [noneRaises_cons]
    have hout := verifyFile_outcome P pk i prev b blocks
    generalize verifyFile P pk i prev (b :: blocks) = out at hout
    cases hout with
    | stops hsound hnot =>
      exact iff_of_true ⟨_, rfl⟩ ⟨hsound, fun hash hstands ↦ absurd hstands (hnot hash)⟩
    | raises hfault =>
      refine iff_of_false ?_ fun h ↦ h.1 hfault
      rintro ⟨out, h⟩
      cases h
    | @goesOn hash hsound hstands =>
      rw [ih]
      refine ⟨fun h ↦ ⟨hsound, fun hash' hstands' ↦ ?_⟩, fun h ↦ h.2 hash hstands⟩
      rwa [← hstands.unique hstands']

/-- The block has a signature and a hash of the form that the ledger gives them. -/
structure WellSealed (b : FileBlock) : Prop where
  signature : ∃ signature sig, HexSigned b signature sig
  hash : ∃ digest : Bytes, digest.length = HASH_LEN ∧
    fileItem b "block_hash" = .ok (.text (.ofString (toHex digest)))

theorem Stands.wellSealed {hash : String} (h : Stands P pk i prev b hash) : WellSealed b := by
  cases h with
  | intro hc hhash =>
    obtain ⟨sig, hsigned, -⟩ := hc.signed
    exact ⟨⟨_, sig, hsigned⟩, _, P.sha256_length _, hhash⟩

theorem wellSealed_of_valid (h : verifyFile P pk i prev blocks = .ok none) :
    ∀ b ∈ blocks, WellSealed b := by
  induction blocks generalizing i prev with
  | nil => simp
  | cons b blocks ih =>
    have hout := verifyFile_outcome P pk i prev b blocks
    generalize verifyFile P pk i prev (b :: blocks) = out at hout h
    cases hout with
    | stops => cases h
    | raises => cases h
    | goesOn _ hstands =>
      intro c hc
      rcases List.mem_cons.mp hc with rfl | hc
      · exact hstands.wellSealed
      · exact ih h c hc

/-- `verify_chain` returns, and what it returns is False where a block has no signature or
hash of the right form. -/
def Reported (P : Platform) (fogPk : Bytes) (trustedFogPk : Option Bytes)
    (file : Option (List FileBlock)) : Prop :=
  ∃ valid message, verifyChainFile P fogPk trustedFogPk file = .ok (valid, message) ∧
    ∀ b ∈ file.getD [], ¬ WellSealed b → valid = false

/-- `verify_chain` reports on a file unless an integer in it has too many digits, or the first
block that is not in order has the fields of a body in its place but no hexadecimal signature, a
surrogate in a field, or a valid signature and no hash. -/
theorem chain_reported_iff (P : Platform) (fogPk : Bytes) (trustedFogPk : Option Bytes)
    (file : Option (List FileBlock)) : Reported P fogPk trustedFogPk file ↔
      Readable (file.getD []) ∧
        NoneRaises P (chainKey fogPk trustedFogPk) 0 GENESIS_PREV_HASH (file.getD []) := by
  rw [← verifyFile_returns_iff]
  unfold Reported verifyChainFile
  constructor
  · rintro ⟨valid, message, h, -⟩
    obtain ⟨blocks, hblocks, h⟩ := bind_eq_ok h
    obtain ⟨rfl, hread⟩ := loadsFile_ok.mp hblocks
    obtain ⟨out, hout, -⟩ := bind_eq_ok h
    exact ⟨hread, out, hout⟩
  · rintro ⟨hread, out, hout⟩
    simp only [loadsFile_ok.mpr ⟨rfl, hread⟩, hout, bind, Except.bind, pure, Except.pure]
    cases out with
    | none => exact ⟨true, _, rfl, fun b hb hnot ↦ absurd (wellSealed_of_valid hout b hb) hnot⟩
    | some message => exact ⟨false, message, rfl, fun _ _ _ ↦ rfl⟩

/-- A first block without a signature. -/
def unsignedBlock : FileBlock :=
  [("block_index", .int 0), ("epoch_id", .int 1), ("root", .text (.ofString "00")),
    ("leaf_count", .int 1), ("timestamp", .text (.ofString "2025-01-01T00:00:00Z")),
    ("fog_id", .text (.ofString "fog_A")), ("prev_hash", .text (.ofString GENESIS_PREV_HASH))]

theorem missing_signature_raises :
    ¬ Reported plainPlatform (publicKeyBytes plainPlatform (plainKey 1)) none
      (some [unsignedBlock]) := by
  rintro ⟨valid, message, h, -⟩
  have hraises : verifyChainFile plainPlatform (publicKeyBytes plainPlatform (plainKey 1)) none
      (some [unsignedBlock]) = .error (.keyError "signature") := by
    rfl
  cases hraises.symm.trans h

end FogNode.Proofs
