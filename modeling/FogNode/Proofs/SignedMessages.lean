import FogNode.Proofs.Issued

namespace FogNode.Proofs

open FogNode.Library FogNode.Source

variable {P : Platform} {node : Node P} {fog fog' : Fog}

/-- The request obtains the token for the device with the record. -/
structure Issues (node : Node P) (fog : Fog) (e : Event) (did : String) (record : DeviceRecord)
    (token : List (String × Json)) : Prop where
  request : ∃ sessionId, e.request = .tokensIssue sessionId
  answers : answer node fog e = .ok token
  token_eq : token = (issueToken P (e.env.tokenHex 8) did record.publicKey record.deviceType
    record.role node.signingKey e.env.coins fog.epochs.currentEpochId TOKEN_TTL_SECONDS
    e.env.later).1
  get : fog.devices.get? did = some record
  queued : record.leaf ≠ none
  role_valid : roleValidForType record.deviceType record.role = true

theorem without_absent {k : String} {fields : List (String × Json)}
    (h : Json.field k fields = none) : Json.without k fields = fields := by
  induction fields with
  | nil => rfl
  | cons e fields ih =>
    unfold Json.field at h
    split at h
    case isTrue => cases h
    case isFalse he =>
      have htail := ih h
      simp only [Json.without] at htail ⊢
      rw [List.filter_cons_of_pos (by simpa using he), htail]

theorem signedFields_token (tokenId did publicKeyHex : String) (deviceType role : Option String)
    (key : P.PrivateKey) (coins : ℕ) (epochId ttl : ℤ) (now : ℚ) :
    signedFields (issueToken P tokenId did publicKeyHex deviceType role key coins epochId ttl
      now).1 = tokenFields tokenId did publicKeyHex deviceType role epochId ttl now := by
  simp [signedFields, issueToken, tokenFields, Json.without]

/-- What was signed before a request or with it: a block, a package, or the token that
the request obtains. -/
theorem Inv.signs (h : Inv node fog) (e : Event) {m : Bytes} (hm : m ∈ (step node fog e).signed) :
    m ∈ fog.signed ∨ (∃ b : Block, m = canonicalJson P b.body) ∨
      (∃ pkg : ProofPackage, m = pkg.message P) ∨
      ∃ did record token, Issues node fog e did record token ∧
        m = canonicalJson P (signedFields token) := by
  obtain ⟨env, request⟩ := e
  have he := step_effect node fog ⟨env, request⟩
  dsimp only at he
  generalize hr : answer node fog ⟨env, request⟩ = r at he
  generalize step node fog ⟨env, request⟩ = fog' at he hm
  cases he with
  | issued hs hstate hdid hrec hrev hreg hrole =>
    rcases List.mem_append.mp hm with hm | hm
    · exact .inl hm
    · refine .inr (.inr (.inr ⟨_, _, _, ⟨⟨_, rfl⟩, hr, rfl, hrec, ?_, hrole⟩, ?_⟩))
      · exact (h.accepted hs hstate hdid hrec).2
      · rw [List.mem_singleton.mp hm, signedFields_token, issueToken_message]
  | finalizing hf =>
    cases hf with
    | unsaved =>
      rcases List.mem_append.mp hm with hm | hm
      · exact .inl hm
      · exact .inr (.inl ⟨_, List.mem_singleton.mp hm⟩)
    | closed =>
      rcases List.mem_append.mp hm with hm | hm
      · rcases List.mem_append.mp hm with hm | hm
        · exact .inl hm
        · exact .inr (.inl ⟨_, List.mem_singleton.mp hm⟩)
      · obtain ⟨pkg, -, hmessage⟩ := List.mem_map.mp hm
        exact .inr (.inr (.inl ⟨pkg, hmessage.symm⟩))
    | _ => exact .inl hm
  | _ => exact .inl hm

theorem issue_signs {e : Event} {sessionId did : String} {record : DeviceRecord}
    (hreq : e.request = .tokensIssue sessionId) (hok : succeeds (answer node fog e) = true)
    (hdid : (fog.sessions.get? sessionId).bind Session.did = some did)
    (hrec : fog.devices.get? did = some record) :
    canonicalJson P (tokenFields (e.env.tokenHex 8) did record.publicKey record.deviceType
      record.role fog.epochs.currentEpochId TOKEN_TTL_SECONDS e.env.later) ∈
      (step node fog e).signed := by
  have he := step_effect node fog e
  generalize step node fog e = fog' at he ⊢
  generalize answer node fog e = r at he hok
  rw [hreq] at he
  cases he with
  | read hread => exact hread.elim
  | refused hr =>
    obtain ⟨fields, rfl⟩ := exists_of_succeeds hok
    exact absurd rfl (hr fields)
  | issued hs _ hsdid hrec' =>
    rw [hs, Option.bind_some, hsdid] at hdid
    cases hdid
    rw [hrec] at hrec'
    cases hrec'
    exact List.mem_append_right _ (List.mem_singleton.mpr (issueToken_message ..).symm)
  | challenged hask => exact hask.elim
  | presented hp => exact hp.elim

theorem issueToken_valid {key : P.PrivateKey} (hkey : SignsCorrectly P key)
    (tokenId did publicKeyHex : String) (deviceType role : Option String) (coins : ℕ)
    (epochId ttl : ℤ) (now : ℚ) :
    tokenSignatureValid P (issueToken P tokenId did publicKeyHex deviceType role key coins epochId
      ttl now).1 key = true := by
  have hfield : Json.field "signature" (issueToken P tokenId did publicKeyHex deviceType role key
      coins epochId ttl now).1 = some (.str (toHex (sign P key coins (canonicalJson P
        (tokenFields tokenId did publicKeyHex deviceType role epochId ttl now))))) := by
    simp [issueToken, tokenFields, Json.field]
  unfold tokenSignatureValid
  simp only [hfield, fromhex_toHex, signedFields_token]
  exact hkey coins _

end FogNode.Proofs
