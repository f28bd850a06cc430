import FogNode.Proofs.LedgerChain
import FogNode.Proofs.PackageVerification
import FogNode.Proofs.SignedMessages

namespace FogNode.Proofs

open FogNode.Library FogNode.Source

variable {P : Platform} {node : Node P} {fields : List (String × Json)}

theorem field_token_id (tokenId did publicKeyHex : String) (deviceType role : Option String)
    (epochId ttl : ℤ) (now : ℚ) :
    Json.field "token_id" (tokenFields tokenId did publicKeyHex deviceType role epochId ttl now) =
      some (.str tokenId) := by
  simp [tokenFields, Json.field]

theorem field_body (b : Block) : Json.field "token_id" b.body = none ∧
    Json.field "signature" b.body = none := by
  simp [Block.body, Json.field]

theorem field_package (pkg : ProofPackage) :
    Json.field "token_id" (packageFields pkg.did pkg.leaf pkg.root pkg.epochId pkg.fogId) = none ∧
      Json.field "signature" (packageFields pkg.did pkg.leaf pkg.root pkg.epochId pkg.fogId) =
        none := by
  simp [packageFields, Json.field]

/-- The fields are those that the signature of a token obtained in the run covers. -/
def TokenOf (node : Node P) (actions : List Action) (fields : List (String × Json)) : Prop :=
  ∃ earlier e later did record token, actions = earlier ++ .request e :: later ∧
    Issues node (afterActions node Fog.init earlier) e did record token ∧
    Json.SameDict (signedFields token) fields

/-- The fields are the body of a block or the signed fields of a package, and the fog
signed them. -/
def SignedElsewhere (P : Platform) (fog : Fog) (fields : List (String × Json)) : Prop :=
  canonicalJson P fields ∈ fog.signed ∧
    ((∃ b : Block, Json.SameDict b.body fields) ∨ ∃ pkg : ProofPackage,
      Json.SameDict (packageFields pkg.did pkg.leaf pkg.root pkg.epochId pkg.fogId) fields)

theorem SignedElsewhere.absent {fog : Fog} (h : SignedElsewhere P fog fields) :
    Json.field "token_id" fields = none ∧ Json.field "signature" fields = none := by
  rcases h.2 with ⟨b, hb⟩ | ⟨pkg, hpkg⟩
  · exact ⟨hb.symm.field_none (field_body b).1, hb.symm.field_none (field_body b).2⟩
  · exact ⟨hpkg.symm.field_none (field_package pkg).1, hpkg.symm.field_none (field_package pkg).2⟩

theorem Issues.token_id {fog : Fog} {e : Event} {did : String} {record : DeviceRecord}
    {token : List (String × Json)} (h : Issues node fog e did record token) :
    Json.field "token_id" (signedFields token) = some (.str (e.env.tokenHex 8)) := by
  rw [h.token_eq, signedFields_token]
  exact field_token_id _ _ _ _ _ _ _ _

theorem TokenOf.token_id {actions : List Action} (h : TokenOf node actions fields) :
    Json.field "token_id" fields ≠ none := by
  obtain ⟨_, e, _, did, record, token, -, hissues, hsame⟩ := h
  rw [hsame.symm.field_str hissues.token_id]
  exact Option.some_ne_none _

/-- Whatever the fog signed in a run is a token of the run, a block or a package. -/
theorem signed_or_token {actions : List Action}
    (h : canonicalJson P fields ∈ (afterActions node Fog.init actions).signed) :
    TokenOf node actions fields ∨
      SignedElsewhere P (afterActions node Fog.init actions) fields := by
  obtain ⟨earlier, a, later, hsplit, hbefore, hsigned⟩ := exists_first
    (p := fun fog : Fog ↦ canonicalJson P fields ∈ fog.signed) List.not_mem_nil h
  cases a with
  | restart => exact absurd hsigned hbefore
  | request e =>
    rcases (inv_afterActions earlier).signs e hsigned with
      hold | ⟨b, hb⟩ | ⟨pkg, hpkg⟩ | ⟨did, record, token, hissues, htoken⟩
    · exact absurd hold hbefore
    · exact .inr ⟨h, .inl ⟨b, (Json.canonical_sameDict P.floats hb).symm⟩⟩
    · exact .inr ⟨h, .inr ⟨pkg, (Json.canonical_sameDict P.floats hpkg).symm⟩⟩
    · exact .inl ⟨earlier, e, later, did, record, token, hsplit, hissues,
        (Json.canonical_sameDict P.floats htoken).symm⟩

/-- The signature that the object carries is no forgery: if it verifies under the fog key
for the other fields, the fog has signed them. -/
def Genuine (node : Node P) (fog : Fog) (token : List (String × Json)) : Prop :=
  ∀ text sig, Json.field "signature" token = some (.str text) → fromhex text = .ok sig →
    verify P (publicKeyBytes P node.signingKey) (canonicalJson P (signedFields token)) sig = true →
    canonicalJson P (signedFields token) ∈ fog.signed

theorem signature_of_valid {token : List (String × Json)} {key : P.PrivateKey}
    (h : tokenSignatureValid P token key = true) :
    ∃ text sig, Json.field "signature" token = some (.str text) ∧ fromhex text = .ok sig ∧
      verify P (publicKeyBytes P key) (canonicalJson P (signedFields token)) sig = true := by
  unfold tokenSignatureValid at h
  split at h
  · rename_i text htext
    split at h
    · cases h
    · rename_i sig hsig
      exact ⟨text, sig, htext, hsig, h⟩
  · cases h

theorem Genuine.signed {fog : Fog} {token : List (String × Json)} (h : Genuine node fog token)
    (hvalid : tokenSignatureValid P token node.signingKey = true) :
    canonicalJson P (signedFields token) ∈ fog.signed := by
  obtain ⟨text, sig, htext, hsig, hverify⟩ := signature_of_valid hvalid
  exact h text sig htext hsig hverify

theorem signed_valid {key : P.PrivateKey} (hkey : SignsCorrectly P key)
    (hfields : Json.field "signature" fields = none) :
    ∃ t, signedFields t = fields ∧ tokenSignatureValid P t key = true := by
  refine ⟨("signature", .str (toHex (sign P key 0 (canonicalJson P fields)))) :: fields, ?_, ?_⟩
  · exact without_absent hfields
  · have hsigned : signedFields (("signature", Json.str (toHex (sign P key 0
        (canonicalJson P fields)))) :: fields) = fields := without_absent hfields
    simp [tokenSignatureValid, Json.field, hsigned, hkey 0 (canonicalJson P fields)]

/-- The check of the signature of a token accepts the given fields, with whatever signature
that is no forgery, only when they are those of a token, exactly when they are not those of a
block or a package. -/
theorem token_check_iff (node : Node P) (hkey : SignsCorrectly P node.signingKey)
    (actions : List Action) (fields : List (String × Json)) :
    (∀ t, signedFields t = fields → Genuine node (afterActions node Fog.init actions) t →
        tokenSignatureValid P t node.signingKey = true → TokenOf node actions fields) ↔
      ¬ SignedElsewhere P (afterActions node Fog.init actions) fields := by
  constructor
  · intro h helse
    obtain ⟨htoken, hsignature⟩ := helse.absent
    obtain ⟨t, hfields, hvalid⟩ := signed_valid hkey hsignature
    refine (h t hfields (fun _ _ _ _ _ ↦ ?_) hvalid).token_id htoken
    rw [hfields]
    exact helse.1
  · rintro h t rfl hgenuine hvalid
    exact (signed_or_token (hgenuine.signed hvalid)).resolve_right h

/-- A device is registered and obtains a token. -/
def firstToken : List Action :=
  firstDevice ++ [.request (plainEvent 1 9 (.tokensIssue (toHex (List.replicate 16 7))))]

/-- The signed fields of that token. -/
def firstTokenFields : List (String × Json) :=
  tokenFields (toHex (List.replicate 8 9)) (plainDid 7)
    (toHex (plainPlatform.publicBytes (plainKey 7))) (some "temperature_sensor") (some "sensor") 1
    TOKEN_TTL_SECONDS 1

theorem queuedFog_device :
    (queuedFog.sessions.get? (toHex (List.replicate 16 7))).bind Session.did =
        some (plainDid 7) ∧
      (∃ record ∈ queuedFog.devices.get? (plainDid 7),
        record.publicKey = toHex (plainPlatform.publicBytes (plainKey 7)) ∧
        record.deviceType = some "temperature_sensor" ∧ record.role = some "sensor") ∧
      queuedFog.epochs.currentEpochId = 1 ∧
      succeeds (answer plainNode queuedFog
        (plainEvent 1 9 (.tokensIssue (toHex (List.replicate 16 7))))) = true := by
  decide +kernel

theorem firstToken_signed : canonicalJson plainPlatform firstTokenFields ∈
    (step plainNode queuedFog
      (plainEvent 1 9 (.tokensIssue (toHex (List.replicate 16 7))))).signed := by
  obtain ⟨hdid, ⟨record, hrec, hkey, htype, hrole⟩, hepoch, hok⟩ := queuedFog_device
  have hsigned := issue_signs rfl hok hdid hrec
  have hlater : (plainEvent 1 9 (.tokensIssue (toHex (List.replicate 16 7)))).env.later = 1 :=
    rfl
  rw [hkey, htype, hrole, hepoch, hlater] at hsigned
  exact hsigned

theorem firstTokenFields_signed : canonicalJson plainPlatform firstTokenFields ∈
    (afterActions plainNode Fog.init firstToken).signed := by
  rw [firstToken, afterActions, run_snoc, firstDevice, ← afterActions, afterActions_requests]
  exact firstToken_signed

/-- The fog has signed the token. -/
theorem token_check_iff_first :
    canonicalJson plainPlatform firstTokenFields ∈
        (afterActions plainNode Fog.init firstToken).signed ∧
      ((∀ t, signedFields t = firstTokenFields →
          Genuine plainNode (afterActions plainNode Fog.init firstToken) t →
          tokenSignatureValid plainPlatform t plainNode.signingKey = true →
          TokenOf plainNode firstToken firstTokenFields) ↔
        ¬ SignedElsewhere plainPlatform (afterActions plainNode Fog.init firstToken)
          firstTokenFields) :=
  ⟨firstTokenFields_signed, token_check_iff plainNode (plain_signsCorrectly (plainKey 1))
    firstToken firstTokenFields⟩

/-- The body of the first block, with the signature under which the ledger publishes it. -/
def publishedBlock : List (String × Json) :=
  match (afterActions plainNode Fog.init firstEpoch).ledger.blocks with
  | b :: _ => b.body ++ [("signature", .str b.signature)]
  | [] => []

/-- Every block of the fog's ledger is signed. -/
def AllSealed (node : Node P) (fog : Fog) : Prop :=
  ∀ b ∈ fog.ledger.blocks, Sealed P (publicKeyBytes P node.signingKey) b

theorem AllSealed.step {fog : Fog} (h : AllSealed node fog)
    (hkey : SignsCorrectly P node.signingKey) (e : Event) : AllSealed node (step node fog e) := by
  have hadd : ∀ tree, ∀ b ∈ fog.ledger.blocks ++ [anchorBlock node e.env fog tree],
      Sealed P (publicKeyBytes P node.signingKey) b := by
    intro tree b hb
    rcases List.mem_append.mp hb with hb | hb
    · exact h b hb
    · rw [List.mem_singleton.mp hb]
      exact nextBlock_sealed hkey _ _ _ _ _ _ _
  have he := step_effect node fog e
  generalize Source.step node fog e = fog' at he ⊢
  generalize answer node fog e = r at he
  generalize e.request = request at he
  cases he with
  | finalizing hf =>
    cases hf with
    | unsaved => exact hadd _
    | closed => exact hadd _
    | _ => exact h
  | _ => exact h

theorem sealed_after (hkey : SignsCorrectly P node.signingKey) (actions : List Action) :
    AllSealed node (afterActions node Fog.init actions) := by
  refine afterActions_invariant (fun b hb ↦ absurd hb List.not_mem_nil)
    (fun fog e _ h ↦ h.step hkey e) (fun fog hinv h b hb ↦ ?_) actions
  obtain ⟨tail, hblocks, -⟩ := hinv.ledger.inFile
  exact h b (hblocks ▸ List.mem_append_left _ hb)

/-- A signed block passes the check of token signatures, and is no token. -/
theorem Sealed.passes {key : P.PrivateKey} {b : Block} (h : Sealed P (publicKeyBytes P key) b) :
    tokenSignatureValid P (b.body ++ [("signature", .str b.signature)]) key = true ∧
      Json.field "token_id" (signedFields (b.body ++ [("signature", .str b.signature)])) =
        none := by
  have hfields : signedFields (b.body ++ [("signature", .str b.signature)]) = b.body := by
    simp [signedFields, Json.without, Block.body]
  have hsignature : Json.field "signature" (b.body ++ [("signature", .str b.signature)]) =
      some (.str b.signature) := by
    simp [Block.body, Json.field]
  obtain ⟨sig, hsig, hvalid⟩ := h.signature
  refine ⟨?_, ?_⟩
  · unfold tokenSignatureValid
    simp only [hsignature, hfields]
    rw [hsig, fromhex_toHex]
    exact hvalid
  · rw [hfields]
    exact (field_body b).1

theorem firstEpoch_anchored :
    (afterActions plainNode Fog.init firstEpoch).ledger.blocks.isEmpty = false ∧
      canonicalJson plainPlatform (signedFields publishedBlock) ∈
        (afterActions plainNode Fog.init firstEpoch).signed := by
  decide +kernel

/-- The block passes the check of token signatures, and nothing is forged. -/
theorem block_passes_as_token :
    Genuine plainNode (afterActions plainNode Fog.init firstEpoch) publishedBlock ∧
      tokenSignatureValid plainPlatform publishedBlock plainNode.signingKey = true ∧
      ¬ TokenOf plainNode firstEpoch (signedFields publishedBlock) := by
  refine ⟨fun _ _ _ _ _ ↦ firstEpoch_anchored.2, ?_⟩
  have hsealed : AllSealed plainNode (afterActions plainNode Fog.init firstEpoch) :=
    sealed_after (plain_signsCorrectly (plainKey 1)) firstEpoch
  have hsome := firstEpoch_anchored.1
  unfold AllSealed at hsealed
  unfold publishedBlock
  generalize (afterActions plainNode Fog.init firstEpoch).ledger.blocks = blocks at hsealed hsome ⊢
  cases blocks with
  | nil => cases hsome
  | cons b blocks =>
    obtain ⟨hvalid, hid⟩ := (hsealed b List.mem_cons_self).passes
    exact ⟨hvalid, fun h ↦ h.token_id hid⟩

end FogNode.Proofs
